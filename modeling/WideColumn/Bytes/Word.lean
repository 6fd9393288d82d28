import Mathlib.Algebra.Group.Nat.Defs
import Mathlib.Data.List.Induction
import WideColumn.Bytes

/-!
# Laws of words

A word of `width` bytes holds a number modulo `256 ^ width`.

- `wordOf_wordBytes`: writing a number and reading it back keeps it modulo the word size;
- `wordBytes_wordOf`: reading a word and writing it back in its own width gives the same bytes.
-/

namespace WideColumn.Bytes

theorem wordOf_lt (bs : Bytes) : wordOf bs < 256 ^ bs.length := by
  induction bs using List.reverseRecOn with
  | nil => simp [wordOf]
  | append_singleton bs b ih =>
    have hb : b.toNat < 256 := UInt8.toNat_lt b
    rw [wordOf_append_singleton, List.length_append, List.length_singleton, Nat.pow_succ]
    omega

/-- Writing a word and reading it back keeps the number modulo the word size. -/
theorem wordOf_wordBytes (width n : Nat) : wordOf (wordBytes width n) = n % 256 ^ width := by
  induction width generalizing n with
  | zero => simp [wordBytes, wordOf, Nat.mod_one]
  | succ width ih =>
    have hbyte : (UInt8.ofNat n).toNat = n % 256 := by simp
    rw [wordBytes, wordOf_append_singleton, ih, hbyte, Nat.pow_succ, Nat.mul_comm (256 ^ width),
      Nat.mod_mul]
    omega

/-- Reading a word and writing it back in its own width gives the same bytes. -/
theorem wordBytes_wordOf (bs : Bytes) : wordBytes bs.length (wordOf bs) = bs := by
  induction bs using List.reverseRecOn with
  | nil => rfl
  | append_singleton bs b ih =>
    have hb : b.toNat < 256 := UInt8.toNat_lt b
    have hdiv : (wordOf bs * 256 + b.toNat) / 256 = wordOf bs := by omega
    have hbyte : UInt8.ofNat (wordOf bs * 256 + b.toNat) = b := by
      apply UInt8.toNat_inj.1
      simp only [UInt8.toNat_ofNat']
      omega
    rw [List.length_append, List.length_singleton, wordBytes, wordOf_append_singleton, hdiv, ih,
      hbyte]

end WideColumn.Bytes
