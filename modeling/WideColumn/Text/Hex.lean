import WideColumn.Bytes

/-!
# Hexadecimal text

Two digits per byte, the high half first. Writing uses lower case; reading takes either case.
-/

namespace WideColumn.Hex

/-- The digit for a number below sixteen. -/
def digit (n : Nat) : Char :=
  if n < 10 then Char.ofNat (0x30 + n) else Char.ofNat (0x61 + (n - 10))

/-- The number a digit stands for. -/
def digitValue? (c : Char) : Option Nat :=
  let n := c.toNat
  if 0x30 ≤ n ∧ n ≤ 0x39 then some (n - 0x30)
  else if 0x61 ≤ n ∧ n ≤ 0x66 then some (n - 0x61 + 10)
  else if 0x41 ≤ n ∧ n ≤ 0x46 then some (n - 0x41 + 10)
  else none

def encodeByte (b : UInt8) : List Char := [digit (b.toNat / 16), digit (b.toNat % 16)]

def encode (bs : Bytes) : List Char := bs.flatMap encodeByte

/-- The byte string that the digits spell, if there is an even number of digits and nothing else. -/
def decode? : List Char → Option Bytes
  | [] => some []
  | [_] => none
  | high :: low :: rest => do
    let h ← digitValue? high
    let l ← digitValue? low
    let bs ← decode? rest
    return UInt8.ofNat (h * 16 + l) :: bs

theorem digitValue?_digit {n : Nat} (h : n < 16) : digitValue? (digit n) = some n := by
  have : ∀ k : Fin 16, digitValue? (digit k.val) = some k.val := by decide
  exact this ⟨n, h⟩

/-- Digits that were written read back as the same bytes. -/
theorem decode?_encode (bs : Bytes) : decode? (encode bs) = some bs := by
  induction bs with
  | nil => rfl
  | cons b rest ih =>
    have hb : b.toNat < 256 := UInt8.toNat_lt b
    have hhigh := digitValue?_digit (n := b.toNat / 16) (by omega)
    have hlow := digitValue?_digit (n := b.toNat % 16) (by omega)
    simp only [encode] at ih
    simp only [encode, encodeByte, List.flatMap_cons, List.cons_append, List.nil_append,
      decode?, hhigh, hlow, ih, Option.bind_eq_bind, Option.bind_some, pure]
    rw [Nat.div_add_mod', UInt8.ofNat_toNat]

/-- There are two digits for each byte that is read. -/
theorem length_of_decode? {cs : List Char} {bs : Bytes} (h : decode? cs = some bs) :
    cs.length = 2 * bs.length := by
  induction cs using decode?.induct generalizing bs with
  | case1 =>
    obtain rfl := Option.some.inj h
    rfl
  | case2 => nomatch h
  | case3 high low rest ih =>
    simp only [decode?, Option.bind_eq_bind, Option.bind_eq_some_iff] at h
    obtain ⟨_, -, _, -, tail, htail, hbs⟩ := h
    obtain rfl := Option.some.inj hbs
    have := ih htail
    simp only [List.length_cons]
    omega

end WideColumn.Hex
