import Mathlib.Tactic.Common
import WideColumn.Bytes.Word

/-!
# The order of words

Words of one width are ordered like the numbers they hold, and flipping the sign bit turns the order
of their bytes into that of two's complement.
-/

namespace WideColumn.Bytes

private theorem wordOf_cons (b : UInt8) (bs : Bytes) :
    wordOf (b :: bs) = b.toNat * 256 ^ bs.length + wordOf bs := by
  -- A word grows at its last byte, so the induction goes from the end.
  induction bs using List.reverseRecOn with
  | nil => simp [wordOf]
  | append_singleton bs last ih =>
    rw [← List.cons_append, wordOf_append_singleton, ih, wordOf_append_singleton,
      List.length_append, List.length_singleton, Nat.pow_succ, Nat.add_mul, Nat.mul_assoc,
      Nat.add_assoc]

/-- A larger digit outweighs everything behind it. -/
theorem then_compare {m n p q width : Nat} (hp : p < width) (hq : q < width) :
    (compare m n).then (compare p q) = compare (m * width + p) (n * width + q) := by
  have houtweighs {m n p q : Nat} (hp : p < width) (h : m < n) : m * width + p < n * width + q := by
    have hmul : (m + 1) * width ≤ n * width := Nat.mul_le_mul_right width h
    rw [Nat.add_mul, Nat.one_mul] at hmul
    omega
  -- The larger digits decide unless they are equal.
  rcases Nat.lt_trichotomy m n with hlt | rfl | hgt
  · rw [Nat.compare_eq_lt.2 hlt, Nat.compare_eq_lt.2 (houtweighs hp hlt)]
    rfl
  · rw [Std.ReflOrd.compare_self, Ordering.eq_then]
    rcases Nat.lt_trichotomy p q with hlt | rfl | hgt
    · rw [Nat.compare_eq_lt.2 hlt, Nat.compare_eq_lt.2 (Nat.add_lt_add_left hlt _)]
    · rw [Std.ReflOrd.compare_self, Std.ReflOrd.compare_self]
    · rw [Nat.compare_eq_gt.2 hgt, Nat.compare_eq_gt.2 (Nat.add_lt_add_left hgt _)]
  · rw [Nat.compare_eq_gt.2 hgt, Nat.compare_eq_gt.2 (houtweighs hq hgt)]
    rfl

private theorem compare_toNat (x y : UInt8) : compare x y = compare x.toNat y.toNat := by
  cases h : compare x.toNat y.toNat with
  | lt => exact Std.compare_eq_lt.2 (UInt8.lt_iff_toNat_lt.2 (Nat.compare_eq_lt.1 h))
  | eq =>
    rw [UInt8.toNat_inj.1 (Nat.compare_eq_eq.1 h)]
    exact Std.ReflOrd.compare_self
  | gt => exact Std.compare_eq_gt.2 (UInt8.lt_iff_toNat_lt.2 (Nat.compare_eq_gt.1 h))

/-- Words of one width are ordered like the numbers they hold. -/
theorem compare_eq_compare_wordOf {a b : Bytes} (h : a.length = b.length) :
    compare a b = compare (wordOf a) (wordOf b) := by
  -- By induction on the bytes: the first one is the largest digit of the word.
  induction a generalizing b with
  | nil =>
    rw [List.eq_nil_of_length_eq_zero h.symm]
    rfl
  | cons x xs ih =>
    cases b with
    | nil => cases h
    | cons y ys =>
      have hlen : xs.length = ys.length := Nat.succ.inj h
      have hxs := wordOf_lt xs
      have hys := wordOf_lt ys
      rw [hlen] at hxs
      rw [List.compare_cons_cons, ih hlen, wordOf_cons, wordOf_cons, hlen, compare_toNat,
        then_compare hxs hys]

theorem compare_wordBytes {width m n : Nat} (hm : m < 256 ^ width) (hn : n < 256 ^ width) :
    compare (wordBytes width m) (wordBytes width n) = compare m n := by
  rw [compare_eq_compare_wordOf (by simp), wordOf_wordBytes, wordOf_wordBytes, Nat.mod_eq_of_lt hm,
    Nat.mod_eq_of_lt hn]

/-- Flipping the sign bit moves the middle of the byte range to its ends. -/
theorem toNat_xor_sign (b : UInt8) : (b ^^^ 0x80).toNat = (b.toNat + 128) % 256 := by
  have h : ∀ n : Fin 256, n.val ^^^ 128 = (n.val + 128) % 256 := by decide +kernel
  rw [UInt8.toNat_xor]
  exact h ⟨b.toNat, b.toNat_lt⟩

/-- A word of eight bytes with its sign bit flipped holds the signed number of the word, moved up
into the natural numbers. -/
theorem wordOf_xor_sign {first : UInt8} {rest : Bytes} (hrest : rest.length = 7) {n : Int64}
    (h : first :: rest = wordBytes 8 n.toUInt64.toNat) :
    (wordOf ((first ^^^ 0x80) :: rest) : Int) = n.toInt + 0x8000000000000000 := by
  -- The sign bit moves only the first byte; the seven behind it count for less than one step of it.
  have hnumber : first.toNat * 256 ^ 7 + wordOf rest = n.toBitVec.toNat := by
    have hword := congrArg wordOf h
    rw [wordOf_cons, wordOf_wordBytes, hrest] at hword
    rw [hword]
    exact Nat.mod_eq_of_lt n.toUInt64.toNat_lt
  have hfirst : first.toNat < 256 := first.toNat_lt
  have hlow : wordOf rest < 256 ^ 7 := hrest ▸ wordOf_lt rest
  rw [wordOf_cons, hrest, toNat_xor_sign, ← Int64.toInt_toBitVec, BitVec.toInt_eq_toNat_cond,
    ← hnumber]
  split <;> omega

end WideColumn.Bytes
