import Mathlib.Tactic.SplitIfs
import WideColumn.Proofs.Checked
import WideColumn.Text.Utf8

/-!
# Reading back UTF-8

Every text reads back from its own bytes, whatever its characters, and no other bytes read as it.

The reader looks at the first byte of a sequence to learn how long it is. So the file first says
what the first byte of each width announces, then reads back one character of each width with any
bytes after it, and puts a whole text together from its characters.

- `decodeFrom_encodeChar`: one character is read back and the reader goes on behind it;
- `decode_encode` and `textOf_encode`: a text is read back as a whole;
- `encode_of_decode` and `bytesOf_of_textOf`: what was read is written back as the same bytes.
-/

namespace WideColumn.Utf8

/-! ## Continuation bytes -/

theorem toNat_tailByte (n : Nat) : (tailByte n).toNat = 0x80 + n % 0x40 := by
  simp only [tailByte, UInt8.toNat_ofNat']
  omega

private theorem within_iff (low high b : UInt8) :
    (decide (low ≤ b) && decide (b ≤ high)) = true ↔
      low.toNat ≤ b.toNat ∧ b.toNat ≤ high.toNat := by
  simp only [Bool.and_eq_true, decide_eq_true_eq, UInt8.le_iff_toNat_le]

private theorem isTail_tailByte (n : Nat) : isTail (tailByte n) = true := by
  rw [isTail, within_iff, toNat_tailByte]
  refine ⟨?_, ?_⟩
  · show 0x80 ≤ _
    omega
  · show _ ≤ 0xBF
    omega

private theorem tailBits_tailByte (n : Nat) : tailBits (tailByte n) = n % 0x40 := by
  unfold tailBits
  rw [toNat_tailByte]
  generalize n % 0x40 = m
  omega

/-! ## First bytes -/

private theorem toNat_leadByte (base k : Nat) (h : base + k < 0x100) :
    (UInt8.ofNat (base + k)).toNat = base + k := by
  simp only [UInt8.toNat_ofNat']
  omega

private theorem Lead.of_single : ∀ n < 0x80, Lead.of (UInt8.ofNat n) = .single := by
  decide +kernel

private theorem Lead.of_double : ∀ n < 0xE0, 0xC2 ≤ n → Lead.of (UInt8.ofNat n) = .double := by
  decide +kernel

/-- After `0xE0` the second byte excludes overlong forms, after `0xED` surrogates. -/
theorem Lead.of_triple : ∀ n < 0xF0, 0xE0 ≤ n →
    Lead.of (UInt8.ofNat n) =
      .triple (if n = 0xE0 then 0xA0 else 0x80) (if n = 0xED then 0x9F else 0xBF) := by
  decide +kernel

/-- After `0xF0` the second byte excludes overlong forms, after `0xF4` numbers that are too
large. -/
theorem Lead.of_quadruple : ∀ n < 0xF5, 0xF0 ≤ n →
    Lead.of (UInt8.ofNat n) =
      .quadruple (if n = 0xF0 then 0x90 else 0x80) (if n = 0xF4 then 0x8F else 0xBF) := by
  decide +kernel

/-! ## One character

One lemma for each width. The bits of the code point are spread over the bytes by division and come
together again by the same division. -/

private theorem decodeFrom_single (offset : Nat) (rest : Bytes) {n : Nat} (h : n < 0x80) :
    decodeFrom offset (encodePoint n ++ rest) =
      (Char.ofNat n :: ·) <$> decodeFrom (offset + 1) rest := by
  have hlead : (UInt8.ofNat n).toNat = n := by
    simp only [UInt8.toNat_ofNat']
    omega
  rw [decodeFrom.eq_def]
  simp only [encodePoint, if_pos h, List.cons_append, List.nil_append, Lead.of_single n h, hlead]

private theorem decodeFrom_double (offset : Nat) (rest : Bytes) {n : Nat}
    (h₁ : 0x80 ≤ n) (h₂ : n < 0x800) :
    decodeFrom offset (encodePoint n ++ rest) =
      (Char.ofNat n :: ·) <$> decodeFrom (offset + 2) rest := by
  have hlead := toNat_leadByte 0xC0 (n / 0x40) (by omega)
  have hpoint : (0xC0 + n / 0x40 - 0xC0) * 0x40 + n % 0x40 = n := by omega
  rw [decodeFrom.eq_def]
  simp only [encodePoint, if_neg (Nat.not_lt.2 h₁), if_pos h₂, List.cons_append, List.nil_append,
    Lead.of_double (0xC0 + n / 0x40) (by omega) (by omega), isTail_tailByte, tailBits_tailByte,
    hlead, hpoint, if_true]

private theorem decodeFrom_triple (offset : Nat) (rest : Bytes) {n : Nat}
    (h₁ : 0x800 ≤ n) (h₂ : n < 0x10000) (hvalid : n < 0xD800 ∨ 0xDFFF < n) :
    decodeFrom offset (encodePoint n ++ rest) =
      (Char.ofNat n :: ·) <$> decodeFrom (offset + 3) rest := by
  have hlead := toNat_leadByte 0xE0 (n / 0x1000) (by omega)
  -- the bits of the three bytes put together again, and the narrower range of the second byte
  have hpoint :
      (0xE0 + n / 0x1000 - 0xE0) * 0x1000 + n / 0x40 % 0x40 * 0x40 + n % 0x40 = n := by
    omega
  have hsecond :
      (decide ((if 0xE0 + n / 0x1000 = 0xE0 then 0xA0 else 0x80) ≤ tailByte (n / 0x40)) &&
        decide (tailByte (n / 0x40) ≤ if 0xE0 + n / 0x1000 = 0xED then 0x9F else 0xBF)) =
          true := by
    rw [within_iff, toNat_tailByte, apply_ite UInt8.toNat, apply_ite UInt8.toNat]
    show (if _ then 0xA0 else 0x80) ≤ _ ∧ _ ≤ (if _ then 0x9F else 0xBF)
    split_ifs <;> omega
  rw [decodeFrom.eq_def]
  simp only [encodePoint, if_neg (Nat.not_lt.2 (Nat.le_trans (by decide) h₁) : ¬ n < 0x80),
    if_neg (Nat.not_lt.2 h₁), if_pos h₂, List.cons_append, List.nil_append,
    Lead.of_triple (0xE0 + n / 0x1000) (by omega) (by omega), hsecond, isTail_tailByte,
    tailBits_tailByte, hlead, hpoint, if_true]

private theorem decodeFrom_quadruple (offset : Nat) (rest : Bytes) {n : Nat}
    (h₁ : 0x10000 ≤ n) (h₂ : n < 0x110000) :
    decodeFrom offset (encodePoint n ++ rest) =
      (Char.ofNat n :: ·) <$> decodeFrom (offset + 4) rest := by
  have hlead := toNat_leadByte 0xF0 (n / 0x40000) (by omega)
  -- the bits of the four bytes put together again, and the narrower range of the second byte
  have hpoint :
      (0xF0 + n / 0x40000 - 0xF0) * 0x40000 + n / 0x1000 % 0x40 * 0x1000
        + n / 0x40 % 0x40 * 0x40 + n % 0x40 = n := by
    omega
  have hsecond :
      (decide ((if 0xF0 + n / 0x40000 = 0xF0 then 0x90 else 0x80) ≤ tailByte (n / 0x1000)) &&
        decide (tailByte (n / 0x1000) ≤ if 0xF0 + n / 0x40000 = 0xF4 then 0x8F else 0xBF)) =
          true := by
    rw [within_iff, toNat_tailByte, apply_ite UInt8.toNat, apply_ite UInt8.toNat]
    show (if _ then 0x90 else 0x80) ≤ _ ∧ _ ≤ (if _ then 0x8F else 0xBF)
    split_ifs <;> omega
  rw [decodeFrom.eq_def]
  simp only [encodePoint, if_neg (Nat.not_lt.2 (Nat.le_trans (by decide) h₁) : ¬ n < 0x80),
    if_neg (Nat.not_lt.2 (Nat.le_trans (by decide) h₁) : ¬ n < 0x800),
    if_neg (Nat.not_lt.2 h₁), List.cons_append, List.nil_append,
    Lead.of_quadruple (0xF0 + n / 0x40000) (by omega) (by omega), hsecond, isTail_tailByte,
    tailBits_tailByte, hlead, hpoint, if_true]

/-- A character is read back, and the reader goes on behind it. -/
theorem decodeFrom_encodeChar (offset : Nat) (c : Char) (rest : Bytes) :
    ∃ offset', decodeFrom offset (encodeChar c ++ rest) =
      (c :: ·) <$> decodeFrom offset' rest := by
  have hvalid : c.toNat < 0xD800 ∨ 0xDFFF < c.toNat ∧ c.toNat < 0x110000 := c.valid
  have hback : Char.ofNat c.toNat = c := Char.ofNat_toNat c
  rw [encodeChar]
  -- The width of a character is decided by its code point.
  rcases Nat.lt_or_ge c.toNat 0x80 with h | h₁
  · exact ⟨_, by rw [decodeFrom_single offset rest h, hback]⟩
  rcases Nat.lt_or_ge c.toNat 0x800 with h | h₂
  · exact ⟨_, by rw [decodeFrom_double offset rest h₁ h, hback]⟩
  rcases Nat.lt_or_ge c.toNat 0x10000 with h | h₃
  · exact ⟨_, by rw [decodeFrom_triple offset rest h₂ h (hvalid.imp_right And.left), hback]⟩
  · exact ⟨_, by rw [decodeFrom_quadruple offset rest h₃ (by omega), hback]⟩

/-! ## A whole text -/

theorem decodeFrom_encode (offset : Nat) (cs : List Char) :
    decodeFrom offset (encode cs) = .ok cs := by
  -- The offset is in error reports only, so the induction goes over all of them.
  induction cs generalizing offset with
  | nil => rfl
  | cons c cs ih =>
    obtain ⟨offset', h⟩ := decodeFrom_encodeChar offset c (encode cs)
    show decodeFrom offset (encodeChar c ++ encode cs) = _
    rw [h, ih]
    rfl

/-- A text is read back from its bytes. -/
theorem decode_encode (cs : List Char) : decode (encode cs) = .ok cs :=
  decodeFrom_encode 0 cs

theorem textOf_encode (cs : List Char) : textOf (encode cs) = .ok (String.ofList cs) := by
  rw [textOf, decode_encode]
  rfl

/-! ## Writing what was read

The reader takes no form of a character but the one that is written, so writing gives back the bytes
that were read. -/

/-- The number of bytes that a first byte announces, itself included. -/
def Lead.width : Lead → Nat
  | .stray => 0
  | .single => 1
  | .double => 2
  | .triple _ _ => 3
  | .quadruple _ _ => 4

private theorem Lead.width_of (b : UInt8) : (Lead.of b).width =
    if b.toNat < 0x80 then 1 else if b.toNat < 0xC2 then 0 else if b.toNat < 0xE0 then 2
    else if b.toNat < 0xF0 then 3 else if b.toNat < 0xF5 then 4 else 0 := by
  have h : ∀ n < 0x100, (Lead.of (UInt8.ofNat n)).width =
      if n < 0x80 then 1 else if n < 0xC2 then 0 else if n < 0xE0 then 2
      else if n < 0xF0 then 3 else if n < 0xF5 then 4 else 0 := by
    decide +kernel
  rw [← h b.toNat b.toNat_lt, UInt8.ofNat_toNat]

private theorem isTail_bounds {b : UInt8} (h : isTail b = true) :
    0x80 ≤ b.toNat ∧ b.toNat ≤ 0xBF := by
  rw [isTail, within_iff] at h
  exact h

private theorem Lead.single_bounds {b : UInt8} (h : Lead.of b = .single) : b.toNat < 0x80 := by
  have hwidth := Lead.width_of b
  rw [h, Lead.width] at hwidth
  split_ifs at hwidth <;> omega

private theorem Lead.double_bounds {b : UInt8} (h : Lead.of b = .double) :
    0xC2 ≤ b.toNat ∧ b.toNat < 0xE0 := by
  have hwidth := Lead.width_of b
  rw [h, Lead.width] at hwidth
  split_ifs at hwidth <;> omega

/-- The first two bytes of three announce a character that needs three and is no surrogate. -/
theorem Lead.triple_bounds {b low high : UInt8} (h : Lead.of b = .triple low high) {b₁ : UInt8}
    (h₁ : (decide (low ≤ b₁) && decide (b₁ ≤ high)) = true) :
    (0xE0 ≤ b.toNat ∧ b.toNat < 0xF0) ∧ (0x80 ≤ b₁.toNat ∧ b₁.toNat ≤ 0xBF) ∧
      (b.toNat = 0xE0 → 0xA0 ≤ b₁.toNat) ∧ (b.toNat = 0xED → b₁.toNat ≤ 0x9F) := by
  have hwidth := Lead.width_of b
  rw [h, Lead.width] at hwidth
  -- the width tells where the lead lies, and the lead fixes the range of the second byte
  have hb : 0xE0 ≤ b.toNat ∧ b.toNat < 0xF0 := by
    split_ifs at hwidth <;> omega
  have hlead := Lead.of_triple b.toNat hb.2 hb.1
  rw [UInt8.ofNat_toNat, h] at hlead
  cases hlead
  rw [within_iff, apply_ite UInt8.toNat, apply_ite UInt8.toNat] at h₁
  obtain ⟨hlow, hhigh⟩ : (if b.toNat = 0xE0 then 0xA0 else 0x80) ≤ b₁.toNat ∧
    b₁.toNat ≤ (if b.toNat = 0xED then 0x9F else 0xBF) := h₁
  split_ifs at hlow hhigh <;> omega

/-- The first two bytes of four announce a character that needs four and is none too large. -/
theorem Lead.quadruple_bounds {b low high : UInt8} (h : Lead.of b = .quadruple low high)
    {b₁ : UInt8} (h₁ : (decide (low ≤ b₁) && decide (b₁ ≤ high)) = true) :
    (0xF0 ≤ b.toNat ∧ b.toNat < 0xF5) ∧ (0x80 ≤ b₁.toNat ∧ b₁.toNat ≤ 0xBF) ∧
      (b.toNat = 0xF0 → 0x90 ≤ b₁.toNat) ∧ (b.toNat = 0xF4 → b₁.toNat ≤ 0x8F) := by
  have hwidth := Lead.width_of b
  rw [h, Lead.width] at hwidth
  -- the width tells where the lead lies, and the lead fixes the range of the second byte
  have hb : 0xF0 ≤ b.toNat ∧ b.toNat < 0xF5 := by
    split_ifs at hwidth <;> omega
  have hlead := Lead.of_quadruple b.toNat hb.2 hb.1
  rw [UInt8.ofNat_toNat, h] at hlead
  cases hlead
  rw [within_iff, apply_ite UInt8.toNat, apply_ite UInt8.toNat] at h₁
  obtain ⟨hlow, hhigh⟩ : (if b.toNat = 0xF0 then 0x90 else 0x80) ≤ b₁.toNat ∧
    b₁.toNat ≤ (if b.toNat = 0xF4 then 0x8F else 0xBF) := h₁
  split_ifs at hlow hhigh <;> omega

/-- A byte is written back for every number that it is made of. -/
theorem ofNat_eq {b : UInt8} {n : Nat} (h : n = b.toNat) : UInt8.ofNat n = b := by
  rw [h, UInt8.ofNat_toNat]

/-- A continuation byte is written back for every number that ends with its bits. -/
theorem tailByte_eq {b : UInt8} {n : Nat} (h : 0x80 + n % 0x40 = b.toNat) : tailByte n = b :=
  ofNat_eq h

private theorem encodeChar_ofNat {n : Nat} (h : n < 0xD800 ∨ 0xDFFF < n ∧ n < 0x110000) :
    encodeChar (Char.ofNat n) = encodePoint n := by
  have hvalid : n.isValidChar := h
  rw [encodeChar, Char.ofNat, dif_pos hvalid]
  rfl

private theorem encodeChar_single {b : UInt8} (hb : Lead.of b = .single) :
    encodeChar (Char.ofNat b.toNat) = [b] := by
  have hlt := Lead.single_bounds hb
  rw [encodeChar_ofNat (.inl (Nat.lt_trans hlt (by decide))), encodePoint, if_pos hlt,
    UInt8.ofNat_toNat]

private theorem encodeChar_double {b₀ b₁ : UInt8} (h₀ : Lead.of b₀ = .double)
    (h₁ : isTail b₁ = true) :
    encodeChar (Char.ofNat ((b₀.toNat - 0xC0) * 0x40 + tailBits b₁)) = [b₀, b₁] := by
  obtain ⟨hlow, hhigh⟩ := Lead.double_bounds h₀
  obtain ⟨hlow₁, hhigh₁⟩ := isTail_bounds h₁
  unfold tailBits
  generalize hn : (b₀.toNat - 0xC0) * 0x40 + (b₁.toNat - 0x80) = n
  have hfirst : UInt8.ofNat (0xC0 + n / 0x40) = b₀ := ofNat_eq (by omega)
  have hlast : tailByte n = b₁ := tailByte_eq (by omega)
  have hlong : ¬n < 0x80 := by omega
  have hshort : n < 0x800 := by omega
  rw [encodeChar_ofNat (.inl (by omega)), encodePoint, if_neg hlong, if_pos hshort, hfirst, hlast]

private theorem encodeChar_triple {b₀ b₁ b₂ low high : UInt8} (h₀ : Lead.of b₀ = .triple low high)
    (h₁ : (decide (low ≤ b₁) && decide (b₁ ≤ high)) = true) (h₂ : isTail b₂ = true) :
    encodeChar (Char.ofNat
      ((b₀.toNat - 0xE0) * 0x1000 + tailBits b₁ * 0x40 + tailBits b₂)) = [b₀, b₁, b₂] := by
  obtain ⟨⟨hlow, hhigh⟩, ⟨hlow₁, hhigh₁⟩, hoverlong, hsurrogate⟩ := Lead.triple_bounds h₀ h₁
  obtain ⟨hlow₂, hhigh₂⟩ := isTail_bounds h₂
  unfold tailBits
  -- the point is cut into its bytes again; arithmetic over the bounds gives each of them
  generalize hn : (b₀.toNat - 0xE0) * 0x1000 + (b₁.toNat - 0x80) * 0x40 + (b₂.toNat - 0x80) = n
  have hfirst : UInt8.ofNat (0xE0 + n / 0x1000) = b₀ := ofNat_eq (by omega)
  have hsecond : tailByte (n / 0x40) = b₁ := tailByte_eq (by omega)
  have hlast : tailByte n = b₂ := tailByte_eq (by omega)
  have hlong : ¬n < 0x800 := by omega
  have hshort : n < 0x10000 := by omega
  rw [encodeChar_ofNat (by omega), encodePoint, if_neg fun h => hlong (Nat.lt_trans h (by decide)),
    if_neg hlong, if_pos hshort, hfirst, hsecond, hlast]

private theorem encodeChar_quadruple {b₀ b₁ b₂ b₃ low high : UInt8}
    (h₀ : Lead.of b₀ = .quadruple low high) (h₁ : (decide (low ≤ b₁) && decide (b₁ ≤ high)) = true)
    (h₂ : isTail b₂ = true) (h₃ : isTail b₃ = true) :
    encodeChar (Char.ofNat ((b₀.toNat - 0xF0) * 0x40000 + tailBits b₁ * 0x1000 + tailBits b₂ * 0x40
      + tailBits b₃)) = [b₀, b₁, b₂, b₃] := by
  obtain ⟨⟨hlow, hhigh⟩, ⟨hlow₁, hhigh₁⟩, hoverlong, hlarge⟩ := Lead.quadruple_bounds h₀ h₁
  obtain ⟨hlow₂, hhigh₂⟩ := isTail_bounds h₂
  obtain ⟨hlow₃, hhigh₃⟩ := isTail_bounds h₃
  unfold tailBits
  -- the point is cut into its bytes again; arithmetic over the bounds gives each of them
  generalize hn : (b₀.toNat - 0xF0) * 0x40000 + (b₁.toNat - 0x80) * 0x1000
    + (b₂.toNat - 0x80) * 0x40 + (b₃.toNat - 0x80) = n
  have hfirst : UInt8.ofNat (0xF0 + n / 0x40000) = b₀ := ofNat_eq (by omega)
  have hsecond : tailByte (n / 0x1000) = b₁ := tailByte_eq (by omega)
  have hthird : tailByte (n / 0x40) = b₂ := tailByte_eq (by omega)
  have hlast : tailByte n = b₃ := tailByte_eq (by omega)
  have hlong : ¬n < 0x10000 := by omega
  rw [encodeChar_ofNat (by omega), encodePoint, if_neg fun h => hlong (Nat.lt_trans h (by decide)),
    if_neg fun h => hlong (Nat.lt_trans h (by decide)), if_neg hlong, hfirst, hsecond,
    hthird, hlast]

/-- Characters that were read are written back as the bytes they were read from. -/
theorem encode_of_decodeFrom {offset : Nat} {bs : Bytes} {cs : List Char}
    (h : decodeFrom offset bs = .ok cs) : encode cs = bs := by
  -- Where the reader goes on, it has read one character, which is written back on its own.
  have hstep {c : Char} {front rest : Bytes} {offset : Nat} {cs : List Char}
      (hchar : encodeChar c = front)
      (ih : ∀ {cs : List Char}, decodeFrom offset rest = .ok cs → encode cs = rest)
      (h : (c :: ·) <$> decodeFrom offset rest = .ok cs) : encode cs = front ++ rest := by
    obtain ⟨others, hothers, rfl⟩ := map_eq_ok.1 h
    rw [← ih hothers, ← hchar]
    rfl
  fun_induction decodeFrom offset bs generalizing cs with
  | case1 =>
    cases h
    rfl
  | case2 offset b₀ r₀ hlead ih => exact hstep (encodeChar_single hlead) ih h
  | case5 offset b₀ hlead b₁ r₁ htail ih => exact hstep (encodeChar_double hlead htail) ih h
  | case9 offset b₀ low high hlead b₁ hsecond b₂ r₂ htail ih =>
    exact hstep (encodeChar_triple hlead hsecond htail) ih h
  | case15 offset b₀ low high hlead b₁ hsecond b₂ hthird b₃ r₃ htail ih =>
    exact hstep (encodeChar_quadruple hlead hsecond hthird htail) ih h
  | _ => cases h

/-- A text that was read is written back as the bytes it was read from. -/
theorem encode_of_decode {bs : Bytes} {cs : List Char} (h : decode bs = .ok cs) : encode cs = bs :=
  encode_of_decodeFrom h

theorem bytesOf_of_textOf {bs : Bytes} {s : String} (h : textOf bs = .ok s) : bytesOf s = bs := by
  obtain ⟨cs, hcs, rfl⟩ := map_eq_ok.1 h
  rw [bytesOf, String.toList_ofList, encode_of_decode hcs]

end WideColumn.Utf8
