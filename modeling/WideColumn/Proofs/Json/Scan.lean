import Mathlib.Data.List.Chain
import Mathlib.Data.List.TakeWhile
import WideColumn.Proofs.Json

/-!
# JSON texts

The text of a value, without blanks, is read back as the value. A scan is followed from one token to
the next: a word and a number end only where something else begins, so no two of them may stand side
by side, and in a value none do.

- `Token.chars` and `Json.text`: the text of a token and of a value;
- `Scans`: what a scan makes of some characters, whatever comes after them;
- `scanFrom?_chars`: tokens that stand apart are found again, and `apart_tokens`: those of a value
  do;
- `parse?_text`: the text of a plain value is read back.
-/

namespace WideColumn.Json

/-! ## Texts -/

/-- Whether a character stands for itself in a string. -/
def isLiteral (c : Char) : Bool := c != '"' && c != '\\' && 0x20 ≤ c.toNat

/-- A character inside of a string. -/
def quotedChar (c : Char) : List Char :=
  if isLiteral c then [c]
  else if c = '"' then ['\\', '"']
  else if c = '\\' then ['\\', '\\']
  else ['\\', 'u', '0', '0', Hex.digit (c.toNat / 16), Hex.digit (c.toNat % 16)]

/-- A number in digits. One without a value is written as the zero with a sign. -/
def numeral : Option Int → List Char
  | some (.ofNat n) => Nat.toDigits 10 n
  | some (.negSucc n) => '-' :: Nat.toDigits 10 (n + 1)
  | none => ['-', '0']

/-- The text of a token. -/
def Token.chars : Token → List Char
  | .openArray => ['[']
  | .closeArray => [']']
  | .openObject => ['\x7b']
  | .closeObject => ['\x7d']
  | .comma => [',']
  | .colon => [':']
  | .null => ['n', 'u', 'l', 'l']
  | .bool true => ['t', 'r', 'u', 'e']
  | .bool false => ['f', 'a', 'l', 's', 'e']
  | .number n => numeral n
  | .string points | .rawString points =>
    '"' :: ((points.map Char.ofNat).flatMap quotedChar ++ ['"'])

/-- Whether a token has a text that escapes control characters and no halves of pairs. -/
def Token.Plain : Token → Prop
  | .string points => ∀ p ∈ points, p.isValidChar
  | .rawString _ => False
  | _ => True

/-- Whether a token ends only where something else begins. -/
def Token.isBare : Token → Bool
  | .null | .bool _ | .number _ => true
  | _ => false

/-- The text of a value, without blanks. -/
def text (v : Json) : String := String.ofList (v.tokens.flatMap Token.chars)

/-- Whether a value has a text that escapes control characters and no halves of pairs. -/
def Plain (v : Json) : Prop := ∀ token ∈ v.tokens, token.Plain

/-! ## Scanning -/

/-- What a scan makes of some characters, whatever comes after them: the tokens, and where it stands
then. -/
def Scans (state : ScanState) (cs : List Char) (found : List Token) (state' : ScanState) : Prop :=
  ∀ rest, scanFrom? state (cs ++ rest) = (found ++ ·) <$> scanFrom? state' rest

namespace Scans

variable {state state' state'' : ScanState} {cs cs' : List Char} {found found' : List Token}
  {c : Char}

theorem nil (state : ScanState) : Scans state [] [] state := fun rest => by
  cases h : scanFrom? state rest <;> simp [h]

private theorem char (h : scanChar? state c = some (found, state')) :
    Scans state [c] found state' := by
  intro rest
  rw [List.singleton_append, scanFrom?, h]
  cases hrest : scanFrom? state' rest <;> simp [hrest]

theorem append (h : Scans state cs found state') (h' : Scans state' cs' found' state'') :
    Scans state (cs ++ cs') (found ++ found') state'' := by
  intro rest
  rw [List.append_assoc, h, h']
  cases scanFrom? state'' rest <;> simp

/-- A character that completes no token. -/
theorem cons (h : scanChar? state c = some ([], state')) (h' : Scans state' cs found state'') :
    Scans state (c :: cs) found state'' :=
  (char h).append h'

end Scans

/-! ## Strings -/

/-- The unit that a character of a string is read as. -/
def unitOf (c : Char) : StringUnit := if isLiteral c then .plain c else .escaped c.toNat

private theorem isLiteral_eq_false_iff {c : Char} :
    isLiteral c = false ↔ c = '"' ∨ c = '\\' ∨ c.toNat < 0x20 := by
  simp only [isLiteral, Bool.and_eq_false_iff, bne_eq_false_iff_eq, decide_eq_false_iff_not,
    Nat.not_le, or_assoc]

private theorem scans_quotedChar (c : Char) (units : List StringUnit) :
    Scans (.string units) (quotedChar c) [] (.string (unitOf c :: units)) := by
  -- Most characters stand for themselves, and the others are written after a backslash.
  cases hliteral : isLiteral c with
  | true =>
    rw [quotedChar, unitOf, if_pos hliteral, if_pos hliteral]
    simp only [isLiteral, Bool.and_eq_true, bne_iff_ne, ne_eq] at hliteral
    refine .char ?_
    rw [scanChar?, if_neg (by simpa using hliteral.1.1), if_neg (by simpa using hliteral.1.2)]
  | false =>
    rw [quotedChar, unitOf, hliteral, if_neg Bool.false_ne_true, if_neg Bool.false_ne_true]
    rcases isLiteral_eq_false_iff.1 hliteral with rfl | rfl | hcontrol
    · exact .cons rfl (.char rfl)
    · exact .cons rfl (.char rfl)
    · -- The two digits after the zeros give the number of the character.
      have hmark : c ≠ '"' := by
        rintro rfl
        exact absurd hcontrol (by decide)
      have hslash : c ≠ '\\' := by
        rintro rfl
        exact absurd hcontrol (by decide)
      have hhigh := Hex.digitValue?_digit (n := c.toNat / 16) (by omega)
      have hlow := Hex.digitValue?_digit (n := c.toNat % 16) (by omega)
      have hnumber : c.toNat / 16 * 16 + c.toNat % 16 = c.toNat := Nat.div_add_mod' _ _
      have hfirst : scanChar? (.hex units 0 2) (Hex.digit (c.toNat / 16)) =
          some ([], .hex units (c.toNat / 16) 1) := by
        simp [scanChar?, hhigh]
      have hsecond : scanChar? (.hex units (c.toNat / 16) 1) (Hex.digit (c.toNat % 16)) =
          some ([], .string (.escaped c.toNat :: units)) := by
        simp [scanChar?, hlow, hnumber]
      rw [if_neg hmark, if_neg hslash]
      exact .cons rfl (.cons rfl (.cons rfl (.cons rfl (.cons hfirst (.char hsecond)))))

private theorem scans_quoted (cs : List Char) : ∀ units : List StringUnit,
    Scans (.string units) (cs.flatMap quotedChar) []
      (.string ((cs.map unitOf).reverse ++ units)) := by
  induction cs with
  | nil => exact fun units => .nil _
  | cons c cs ih =>
    intro units
    rw [List.flatMap_cons, List.map_cons, List.reverse_cons, List.append_assoc]
    exact (scans_quotedChar c units).append (ih _)

/-- No two escapes that are written make one character. -/
private theorem pointsOf_unitOf (cs : List Char) :
    pointsOf (cs.map unitOf) = cs.map Char.toNat := by
  induction cs with
  | nil => rfl
  | cons c cs ih =>
    rw [List.map_cons, List.map_cons, ← ih, unitOf]
    split
    · rfl
    · next hescaped =>
      -- An escaped character is no surrogate, so it is not joined with the one behind it.
      have hlow : c.toNat < 0xD800 := by
        rcases isLiteral_eq_false_iff.1 (Bool.eq_false_iff.2 hescaped) with rfl | rfl | h
        · decide
        · decide
        · omega
      rcases cs.map unitOf with _ | ⟨_ | low, rest⟩
      · rfl
      · rfl
      · rw [pointsOf, if_neg (by omega)]

private theorem stringToken_unitOf (cs : List Char) :
    stringToken (cs.map unitOf) = .string (cs.map Char.toNat) := by
  have hescaped : (cs.map unitOf).any StringUnit.isControl = false := by
    rw [List.any_map, List.any_eq_false]
    intro c _
    show ¬(unitOf c).isControl = true
    rw [unitOf]
    split
    · next hliteral =>
      simp only [isLiteral, Bool.and_eq_true, decide_eq_true_eq] at hliteral
      simpa [StringUnit.isControl] using hliteral.2
    · exact nofun
  rw [stringToken, hescaped, if_neg nofun, pointsOf_unitOf]

private theorem scans_string {points : List Nat} (h : ∀ p ∈ points, p.isValidChar) :
    Scans .between (Token.string points).chars [.string points] .between := by
  have hpoints : (points.map Char.ofNat).map Char.toNat = points := by
    rw [List.map_map]
    refine (List.map_congr_left fun p hp => ?_).trans (List.map_id _)
    show (Char.ofNat p).toNat = p
    rw [Char.ofNat, dif_pos (h p hp)]
    rfl
  have hclose : scanChar? (.string (((points.map Char.ofNat).map unitOf).reverse ++ [])) '"' =
      some ([.string points], .between) := by
    rw [List.append_nil]
    show some ([stringToken _], _) = _
    rw [List.reverse_reverse, stringToken_unitOf, hpoints]
  exact .cons rfl ((scans_quoted _ []).append (.char hclose))

/-! ## Numbers -/

private theorem digitsValue_toDigits (n : Nat) : digitsValue (Nat.toDigits 10 n) = n := by
  have hvalue : Nat.ofDigitChars 10 (Nat.toDigits 10 n) 0 = n :=
    Nat.ofDigitChars_toDigits (by decide) (by decide)
  rw [Nat.ofDigitChars_eq_foldl] at hvalue
  simpa only [digitsValue, Nat.mul_comm] using hvalue

/-- A number starts with the zero only if it is zero. -/
private theorem head?_toDigits (n : Nat) : (Nat.toDigits 10 n).head? = some '0' → n = 0 := by
  induction n using Nat.strongRecOn with
  | ind n ih =>
    rw [Nat.toDigits_eq_if (by decide)]
    split
    · intro h
      exact Nat.digitChar_eq_zero.1 (Option.some.inj h)
    · next hlarge =>
      rw [List.head?_append_of_ne_nil _ Nat.toDigits_ne_nil]
      intro h
      have hzero := ih (n / 10) (by omega) h
      omega

private theorem unsigned?_toDigits (n : Nat) : unsigned? (Nat.toDigits 10 n) = some (some n) := by
  have hdigits : ∀ c ∈ Nat.toDigits 10 n, c.isDigit = true := fun c hc =>
    Nat.isDigit_of_mem_toDigits (by decide) (by decide) hc
  have hzero : ((Nat.toDigits 10 n).head? == some '0' && (Nat.toDigits 10 n).length != 1) =
      false := by
    rw [Bool.and_eq_false_iff, beq_eq_false_iff_ne, bne_eq_false_iff_eq]
    refine or_iff_not_imp_left.2 fun hhead => ?_
    rw [head?_toDigits n (not_not.1 hhead)]
    rfl
  rw [unsigned?, List.takeWhile_eq_self_iff.2 hdigits, List.dropWhile_eq_nil_iff.2 hdigits]
  simp [hzero, isTail, isExponent, digitsValue_toDigits]

private theorem number?_numeral (n : Option Int) : number? (numeral n) = some (.number n) := by
  rcases n with _ | n | n
  · rfl
  · -- a digit comes first, and no sign
    have hsign : ∀ cs, Nat.toDigits 10 n ≠ '-' :: cs := by
      intro cs heq
      have hdigit : ('-' : Char).isDigit = true :=
        Nat.isDigit_of_mem_toDigits (b := 10) (n := n) (by decide) (by decide)
          (heq ▸ List.mem_cons_self)
      exact absurd hdigit (by decide)
    rw [numeral, number?.eq_2 _ hsign, unsigned?_toDigits]
    rfl
  · rw [numeral, number?, unsigned?_toDigits]
    rfl

private theorem start?_of_isNumber {c : Char} (h : c = '-' ∨ c.isDigit = true) :
    start? c = some ([], .number [c]) := by
  have hspace : isSpace c = false := by
    refine Bool.eq_false_iff.2 fun hspace => ?_
    simp only [isSpace, Bool.or_eq_true, beq_iff_eq] at hspace
    rcases hspace with ((rfl | rfl) | rfl) | rfl <;> exact absurd h (by decide)
  have hmark : (c == '"') = false := by
    rw [beq_eq_false_iff_ne]
    rintro rfl
    exact absurd h (by decide)
  rw [start?, hspace, hmark, if_neg nofun, if_neg nofun, if_pos (by simpa using h)]

private theorem scans_digits {cs : List Char} (h : ∀ c ∈ cs, c.isDigit = true) :
    ∀ chars, Scans (.number chars) cs [] (.number (cs.reverse ++ chars)) := by
  induction cs with
  | nil => exact fun chars => .nil _
  | cons c cs ih =>
    intro chars
    obtain ⟨hc, hcs⟩ := List.forall_mem_cons.1 h
    rw [List.reverse_cons, List.append_assoc]
    refine .cons ?_ (ih hcs _)
    rw [scanChar?, isNumberChar, hc]
    rfl

private theorem scans_numeral (n : Option Int) :
    Scans .between (numeral n) [] (.number (numeral n).reverse) := by
  -- A number starts with its sign or with a digit.
  have hscan : ∀ {c : Char} {cs : List Char}, c = '-' ∨ c.isDigit = true →
      (∀ d ∈ cs, d.isDigit = true) → Scans .between (c :: cs) [] (.number (c :: cs).reverse) := by
    intro c cs hc hcs
    rw [List.reverse_cons]
    exact .cons (start?_of_isNumber hc) (scans_digits hcs [c])
  have hdigits : ∀ k, ∀ c ∈ Nat.toDigits 10 k, c.isDigit = true := fun k c hc =>
    Nat.isDigit_of_mem_toDigits (by decide) (by decide) hc
  rcases n with _ | k | k
  · exact hscan (.inl rfl) (List.forall_mem_singleton.2 rfl)
  · obtain ⟨c, cs, heq⟩ := List.exists_cons_of_ne_nil (Nat.toDigits_ne_nil (n := k) (b := 10))
    have hall := hdigits k
    rw [heq, List.forall_mem_cons] at hall
    rw [numeral, heq]
    exact hscan (.inr hall.1) hall.2
  · exact hscan (.inl rfl) (hdigits (k + 1))

/-! ## Tokens -/

/-- Whether a character goes on with a word or a number. -/
def isBareChar (c : Char) : Bool := c.isAlpha || isNumberChar c

/-- A token that is complete when the text ends or something else begins, is found there. -/
private theorem scanFrom?_of_finish {state : ScanState} {token : Token} {rest : List Char}
    (hfinish : finish? state = some [token])
    (hnext : ∀ c ∈ rest.head?,
      scanChar? state c = (start? c).map fun found => (token :: found.1, found.2)) :
    scanFrom? state rest = (token :: ·) <$> scanFrom? .between rest := by
  cases rest with
  | nil =>
    rw [scanFrom?, hfinish]
    rfl
  -- The next character ends the token and is then read as if the token had not been there.
  | cons c cs =>
    rw [scanFrom?, scanFrom?, hnext c rfl]
    show (((start? c).map _).bind _) = (fun tokens => token :: tokens) <$> (start? c).bind _
    cases start? c with
    | none => rfl
    | some found => cases hrest : scanFrom? found.2 cs <;> simp [hrest]

private theorem scanFrom?_word {letters rest : List Char} {token : Token}
    (hword : word? letters.reverse = some token) (hrest : ∀ c ∈ rest.head?, isBareChar c = false) :
    scanFrom? (.word letters) rest = (token :: ·) <$> scanFrom? .between rest := by
  refine scanFrom?_of_finish (by rw [finish?, hword]; rfl) fun c hc => ?_
  have halpha : c.isAlpha = false := (Bool.or_eq_false_iff.1 (hrest c hc)).1
  rw [scanChar?, halpha, if_neg nofun, hword]
  cases start? c <;> rfl

private theorem scanFrom?_number {n : Option Int} {rest : List Char}
    (hrest : ∀ c ∈ rest.head?, isBareChar c = false) :
    scanFrom? (.number (numeral n).reverse) rest =
      (.number n :: ·) <$> scanFrom? .between rest := by
  have hnumber : number? (numeral n).reverse.reverse = some (.number n) := by
    rw [List.reverse_reverse, number?_numeral]
  refine scanFrom?_of_finish (by rw [finish?, hnumber]; rfl) fun c hc => ?_
  have hchar : isNumberChar c = false := (Bool.or_eq_false_iff.1 (hrest c hc)).2
  rw [scanChar?, hchar, if_neg nofun, hnumber]
  cases start? c <;> rfl

/-- A token is found and the scan goes on behind it, unless it is bare and goes on there. -/
theorem scanFrom?_token {token : Token} {rest : List Char} (hplain : token.Plain)
    (hrest : token.isBare = true → ∀ c ∈ rest.head?, isBareChar c = false) :
    scanFrom? .between (token.chars ++ rest) = (token :: ·) <$> scanFrom? .between rest := by
  have hmark : ∀ {c : Char} {token : Token}, start? c = some ([token], .between) →
      scanFrom? .between (c :: rest) = (token :: ·) <$> scanFrom? .between rest := by
    intro c token h
    have hchar : scanChar? .between c = some ([token], .between) := h
    exact Scans.char hchar rest
  -- Words are scanned letter by letter, and then they end.
  have hword : ∀ {cs letters : List Char} {token : Token}, Scans .between cs [] (.word letters) →
      word? letters.reverse = some token → (∀ c ∈ rest.head?, isBareChar c = false) →
      scanFrom? .between (cs ++ rest) = (token :: ·) <$> scanFrom? .between rest := by
    intro cs letters token hscan hword hrest
    rw [hscan, ← scanFrom?_word hword hrest]
    exact id_map _
  cases token with
  | null =>
    exact hword (.cons rfl (.cons rfl (.cons rfl (.char rfl)))) rfl (hrest rfl)
  | bool b =>
    cases b with
    | true => exact hword (.cons rfl (.cons rfl (.cons rfl (.char rfl)))) rfl (hrest rfl)
    | false =>
      exact hword (.cons rfl (.cons rfl (.cons rfl (.cons rfl (.char rfl))))) rfl (hrest rfl)
  | number n =>
    show scanFrom? .between (numeral n ++ rest) = _
    rw [scans_numeral n, ← scanFrom?_number (hrest rfl)]
    exact id_map _
  | string points => exact scans_string hplain rest
  | rawString points => exact absurd hplain id
  | openArray | closeArray | openObject | closeObject | comma | colon => exact hmark rfl

/-- No word or number stands directly before another one. -/
def Apart (all : List Token) : Prop :=
  all.IsChain fun a b => a.isBare = true → b.isBare = false

private theorem head?_chars {token : Token} (h : token.isBare = false) (rest : List Char) :
    ∀ c ∈ (token.chars ++ rest).head?, isBareChar c = false := by
  cases token with
  | null | bool | number => cases h
  | openArray | closeArray | openObject | closeObject | comma | colon | string | rawString =>
    rintro c ⟨⟩
    rfl

/-- Tokens that stand apart are found again. -/
theorem scanFrom?_chars {all : List Token} (hplain : ∀ token ∈ all, token.Plain)
    (hapart : Apart all) :
    scanFrom? .between (all.flatMap Token.chars) = some all := by
  induction all with
  | nil => rfl
  | cons token all ih =>
    rw [List.forall_mem_cons] at hplain
    obtain ⟨hnext, hapart⟩ := List.isChain_cons.1 hapart
    -- Only what follows a word or a number could be taken for more of it.
    have hrest : token.isBare = true →
        ∀ c ∈ (all.flatMap Token.chars).head?, isBareChar c = false := by
      intro hbare
      cases all with
      | nil => exact nofun
      | cons next all => exact head?_chars (hnext next rfl hbare) _
    rw [List.flatMap_cons, scanFrom?_token hplain.1 hrest, ih hplain.2 hapart]
    rfl

/-! ## Values -/

private theorem apart_cons {token : Token} {all : List Token} (h : token.isBare = false)
    (hall : Apart all) : Apart (token :: all) :=
  List.isChain_cons.2 ⟨fun _ _ hbare => absurd hbare (Bool.eq_false_iff.1 h), hall⟩

private theorem apart_append {token : Token} {before after : List Token} (h : token.isBare = false)
    (hbefore : Apart before) (hafter : Apart after) : Apart (before ++ token :: after) := by
  refine List.isChain_append.2 ⟨hbefore, apart_cons h hafter, fun _ _ next hnext _ => ?_⟩
  cases hnext
  exact h

mutual

/-- The tokens of a value stand apart. -/
theorem apart_tokens : ∀ v : Json, Apart v.tokens
  | .null | .bool _ | .number _ | .string _ | .rawString _ => List.isChain_singleton _
  | .array items =>
    apart_cons rfl (apart_append rfl (apart_itemTokens items) .nil)
  | .object fields =>
    apart_cons rfl (apart_append rfl (apart_fieldTokens fields) .nil)

private theorem apart_itemTokens : ∀ items : List Json, Apart (tokens.itemTokens items)
  | [] => .nil
  | [v] => apart_tokens v
  | v :: w :: items => apart_append rfl (apart_tokens v) (apart_itemTokens (w :: items))

private theorem apart_fieldTokens : ∀ fields : List (List Nat × Json), Apart
    (tokens.fieldTokens fields)
  | [] => .nil
  | [(_, v)] => apart_cons rfl (apart_cons rfl (apart_tokens v))
  | (_, v) :: field :: fields =>
    apart_cons rfl (apart_cons rfl
      (apart_append rfl (apart_tokens v) (apart_fieldTokens (field :: fields))))

end

/-! ## Main result -/

/-- The text of a plain value is read back. -/
theorem parse?_text {v : Json} (h : v.Plain) : parse? v.text = some v := by
  have hscan : tokens? v.text = some v.tokens := by
    rw [tokens?, text, String.toList_ofList]
    exact scanFrom?_chars h (apart_tokens v)
  rw [parse?, hscan]
  exact readAll?_eq_some_iff.2 rfl

end WideColumn.Json
