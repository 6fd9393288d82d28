/-!
# Byte strings

Keys, names and values travel as byte strings. This module fixes their type, writes numbers as
big-endian words of a given width, and reads length-prefixed fields off the front of a byte string.

- `wordBytes` writes a number as a word of a given width; `wordOf` reads a word of any width back.
- `takeExact` splits a field off, or says how many bytes there were;
- `shortField` writes a field with its length in front.
-/

namespace WideColumn

/-- A byte string, first byte first; byte strings are ordered lexicographically by `compare`. -/
abbrev Bytes := List UInt8

namespace Bytes

/-! ## Words -/

/-- The big-endian word of `width` bytes that holds the low end of a number. -/
def wordBytes : Nat → Nat → Bytes
  | 0, _ => []
  | width + 1, n => wordBytes width (n / 256) ++ [UInt8.ofNat n]

/-- The number a big-endian word stands for. -/
def wordOf (bs : Bytes) : Nat := bs.foldl (fun n b => n * 256 + b.toNat) 0

@[simp] theorem length_wordBytes (width n : Nat) : (wordBytes width n).length = width := by
  induction width generalizing n with
  | zero => rfl
  | succ width ih => simp [wordBytes, ih]

@[simp] theorem wordOf_append_singleton (bs : Bytes) (b : UInt8) :
    wordOf (bs ++ [b]) = wordOf bs * 256 + b.toNat := by
  simp [wordOf, List.foldl_append]

/-! ## Fields -/

/-- Splits off the first `n` bytes; with fewer bytes it answers how many there were. -/
def takeExact (n : Nat) (bs : Bytes) : Except Nat (Bytes × Bytes) :=
  if n ≤ bs.length then .ok (bs.take n, bs.drop n) else .error bs.length

/-- A field written with its length in front, as a two-byte word. -/
def shortField (field : Bytes) : Bytes :=
  wordBytes 2 field.length ++ field

theorem takeExact_append (a b : Bytes) : takeExact a.length (a ++ b) = .ok (a, b) := by
  simp [takeExact]

end Bytes

end WideColumn
