import WideColumn.Text.Hex
import WideColumn.Text.Quoted

/-!
# What a quoted text shows

A quoted text is for reading: nothing in it is invisible, and it tells which text was quoted.

An escape starts with a backslash, which never stands for itself. So the first character of a text
can be read off its quotation, together with where the rest begins, and that carries over to the
whole text by induction.

- `shown_of_mem_quote`: no character of a quoted text is hidden;
- `quote_injective`: texts that are quoted alike are the same.
-/

namespace WideColumn.Text

/-! ## The ways to write a character -/

/-- The marks that stand after a backslash, the one for a code apart. -/
def marks : List Char := ['"', '\\', 'n', 'r', 't', '0']

/-- The character that a mark after a backslash stands for. -/
def charOfMark (mark : Char) : Char :=
  if mark == 'n' then '\n'
  else if mark == 'r' then '\r'
  else if mark == 't' then '\t'
  else if mark == '0' then '\x00'
  else mark

/-- A character is written as a backslash and the mark for it, as a backslash and its code, or as
itself; a hidden character and the backslash are never written as themselves. -/
theorem escapeChar_cases (c : Char) :
    (∃ mark ∈ marks, charOfMark mark = c ∧ escapeChar c = ['\\', mark]) ∨
      escapeChar c = ['\\', 'u', '\x7b'] ++ Nat.toDigits 16 c.toNat ++ ['\x7d'] ∨
      (isHidden c = false ∧ c ≠ '\\' ∧ escapeChar c = [c]) := by
  -- the characters with a mark of their own are six, and each case of the definition is one of them
  have hmark : ∀ mark ∈ marks, escapeChar (charOfMark mark) = ['\\', mark] := by
    simp only [marks, List.forall_mem_cons]
    exact ⟨rfl, rfl, rfl, rfl, rfl, rfl, nofun⟩
  by_cases hc : ∃ mark ∈ marks, charOfMark mark = c
  · obtain ⟨mark, hin, rfl⟩ := hc
    exact .inl ⟨mark, hin, rfl, hmark mark hin⟩
  · -- no mark stands for the character, so only its being hidden matters
    have hne : ∀ d ∈ marks.map charOfMark, ¬ (c == d) = true := by
      intro d hd heq
      obtain ⟨mark, hin, rfl⟩ := List.mem_map.1 hd
      exact hc ⟨mark, hin, (beq_iff_eq.1 heq).symm⟩
    have hrest : escapeChar c = if isHidden c then
        ['\\', 'u', '\x7b'] ++ Nat.toDigits 16 c.toNat ++ ['\x7d'] else [c] := by
      rw [escapeChar, if_neg (hne '"' (by decide)), if_neg (hne '\\' (by decide)),
        if_neg (hne '\n' (by decide)), if_neg (hne '\r' (by decide)),
        if_neg (hne '\t' (by decide)), if_neg (hne '\x00' (by decide))]
    cases hhidden : isHidden c with
    | true => exact .inr (.inl (by rw [hrest, hhidden, if_pos rfl]))
    | false =>
      have hslash : c ≠ '\\' := fun heq => hne '\\' (by decide) (beq_iff_eq.2 heq)
      exact .inr (.inr ⟨rfl, hslash, by rw [hrest, hhidden, if_neg nofun]⟩)

/-! ## Characters that are shown -/

/-- The printable ASCII characters are shown as they are. -/
theorem not_isHidden_of_ascii {c : Char} (h : 0x20 ≤ c.toNat ∧ c.toNat ≤ 0x7E) :
    isHidden c = false := by
  have hspace : (c != ' ' && isBlank c) = false := by
    rw [Bool.and_eq_false_iff, bne_eq_false_iff_eq]
    refine Decidable.or_iff_not_imp_left.2 fun hne => ?_
    have hcode : c.toNat ≠ 0x20 := fun heq => hne (Char.toNat_inj.1 heq)
    simp only [isBlank]
    grind
  have hfiller : isFiller c = false := by
    simp only [isFiller]
    grind
  rw [isHidden, isGraphemeBase_of_ascii h, hspace, hfiller]
  rfl

/-- The hexadecimal digits of a number are the digits of numbers below sixteen. -/
private theorem exists_of_mem_toDigits {n : Nat} {c : Char} (h : c ∈ Nat.toDigits 16 n) :
    ∃ k < 16, c = Nat.digitChar k := by
  induction n using Nat.strongRecOn with
  | ind n ih =>
    rw [Nat.toDigits_eq_if (by decide)] at h
    split at h
    · next hsmall => exact ⟨n, hsmall, List.mem_singleton.1 h⟩
    · rcases List.mem_append.1 h with hinit | hlast
      · exact ih (n / 16) (by omega) hinit
      · exact ⟨n % 16, by omega, List.mem_singleton.1 hlast⟩

private theorem ascii_digitChar :
    ∀ k < 16, 0x20 ≤ (Nat.digitChar k).toNat ∧ (Nat.digitChar k).toNat ≤ 0x7E := by
  decide

/-- Whether all of some characters are printable ones of ASCII. -/
private def areAscii (cs : List Char) : Bool :=
  cs.all fun c => 0x20 ≤ c.toNat && c.toNat ≤ 0x7E

private theorem not_isHidden_of_areAscii {c : Char} {cs : List Char} (h : areAscii cs = true)
    (hc : c ∈ cs) : isHidden c = false := by
  have hbounds := List.all_eq_true.1 h c hc
  rw [Bool.and_eq_true, decide_eq_true_eq, decide_eq_true_eq] at hbounds
  exact not_isHidden_of_ascii hbounds

private theorem not_isHidden_of_mem_escapeChar {c d : Char} (h : d ∈ escapeChar c) :
    isHidden d = false := by
  obtain ⟨mark, hmark, -, heq⟩ | heq | ⟨hshown, -, heq⟩ := escapeChar_cases c
  · -- a backslash and a mark, both of them printable
    have hpair : ∀ mark ∈ marks, areAscii ['\\', mark] = true := List.all_eq_true.1 (by decide)
    exact not_isHidden_of_areAscii (hpair mark hmark) (heq ▸ h)
  · rw [heq, List.mem_append, List.mem_append] at h
    rcases h with (hopen | hdigit) | hclose
    · exact not_isHidden_of_areAscii (by decide) hopen
    · obtain ⟨k, hk, rfl⟩ := exists_of_mem_toDigits hdigit
      exact not_isHidden_of_ascii (ascii_digitChar k hk)
    · exact not_isHidden_of_areAscii (by decide) hclose
  · rw [heq, List.mem_singleton] at h
    rw [h]
    exact hshown

/-- Every character of a quoted text is shown by itself: the quotation marks, and whatever is
written for the characters between them. -/
theorem shown_of_mem_quote (s : String) : ∀ c ∈ (quote s).toList, isHidden c = false := by
  intro c hc
  rw [quote, String.toList_ofList, List.cons_append, List.mem_cons, List.mem_append] at hc
  rcases hc with rfl | hinner | hmark
  · exact not_isHidden_of_ascii (by decide)
  · obtain ⟨d, -, hd⟩ := List.mem_flatMap.1 hinner
    exact not_isHidden_of_mem_escapeChar hd
  · rw [List.mem_singleton.1 hmark]
    exact not_isHidden_of_ascii (by decide)

/-! ## Reading a character off -/

/-- The number that hexadecimal digits spell. -/
def codeOf (digits : List Char) : Nat :=
  digits.foldl (fun code c => 16 * code + (Hex.digitValue? c).getD 0) 0

/-- The first character of a text whose escaped form this is, and what follows it. -/
def firstOf? : List Char → Option (Char × List Char)
  | '\\' :: 'u' :: '\x7b' :: rest =>
    some (Char.ofNat (codeOf (rest.takeWhile (· != '\x7d'))),
      (rest.dropWhile (· != '\x7d')).drop 1)
  | '\\' :: mark :: rest => some (charOfMark mark, rest)
  | c :: rest => some (c, rest)
  | [] => none

private theorem codeOf_toDigits (n : Nat) : codeOf (Nat.toDigits 16 n) = n := by
  have hdigit : ∀ k < 16, (Hex.digitValue? (Nat.digitChar k)).getD 0 = k := by decide
  induction n using Nat.strongRecOn with
  | ind n ih =>
    rw [Nat.toDigits_eq_if (by decide)]
    split
    · next hsmall => simp [codeOf, hdigit n hsmall]
    · -- the last digit adds the remainder to what the others spell
      have hinit : codeOf (Nat.toDigits 16 (n / 16)) = n / 16 := ih (n / 16) (by omega)
      have hlast := hdigit (n % 16) (by omega)
      rw [codeOf] at hinit
      rw [codeOf, List.foldl_append, hinit, List.foldl_cons, List.foldl_nil, hlast]
      omega

/-- The digits of a code end at the closing brace. -/
private theorem firstOf?_code (c : Char) (rest : List Char) :
    firstOf? (['\\', 'u', '\x7b'] ++ Nat.toDigits 16 c.toNat ++ ['\x7d'] ++ rest) =
      some (c, rest) := by
  -- no digit of a code is the closing brace
  have hdigits : ∀ d ∈ Nat.toDigits 16 c.toNat, (d != '\x7d') = true := by
    intro d hd
    obtain ⟨k, hk, rfl⟩ := exists_of_mem_toDigits hd
    have hmark : ∀ k < 16, (Nat.digitChar k != '\x7d') = true := by decide
    exact hmark k hk
  have hshape : ['\\', 'u', '\x7b'] ++ Nat.toDigits 16 c.toNat ++ ['\x7d'] ++ rest =
      '\\' :: 'u' :: '\x7b' :: (Nat.toDigits 16 c.toNat ++ '\x7d' :: rest) := by
    simp
  have hchar : Char.ofNat c.toNat = c := Char.ofNat_toNat c
  rw [hshape, firstOf?, List.takeWhile_append_of_pos hdigits, List.dropWhile_append_of_pos hdigits,
    List.takeWhile_cons_of_neg (by decide), List.dropWhile_cons_of_neg (by decide),
    List.append_nil, codeOf_toDigits, hchar]
  rfl

/-- What is written for a character tells the character, whatever stands behind it. -/
theorem firstOf?_escapeChar (c : Char) (rest : List Char) :
    firstOf? (escapeChar c ++ rest) = some (c, rest) := by
  obtain ⟨mark, hmark, rfl, heq⟩ | heq | ⟨-, hslash, heq⟩ := escapeChar_cases c
  · -- no mark is the one that announces a code
    have hcode : mark ≠ 'u' := by
      rintro rfl
      exact absurd hmark (by decide)
    rw [heq, List.cons_append, List.singleton_append, firstOf?.eq_2]
    rintro _ rfl
    exact absurd rfl hcode
  · rw [heq]
    exact firstOf?_code c rest
  · rw [heq, List.singleton_append, firstOf?.eq_3]
    · rintro _ rfl
      exact absurd rfl hslash
    · rintro _ _ rfl
      exact absurd rfl hslash

/-! ## Whole texts -/

private theorem flatMap_escapeChar_injective {cs ds : List Char}
    (h : cs.flatMap escapeChar = ds.flatMap escapeChar) : cs = ds := by
  -- reading gives back the character an escape starts with, so no escape is empty
  have hempty : ∀ c rest, escapeChar c ++ rest ≠ [] := by
    intro c rest heq
    have hread := firstOf?_escapeChar c rest
    rw [heq] at hread
    nomatch hread
  induction cs generalizing ds with
  | nil =>
    cases ds with
    | nil => rfl
    | cons d ds => exact absurd h.symm (hempty d _)
  | cons c cs ih =>
    cases ds with
    | nil => exact absurd h (hempty c _)
    | cons d ds =>
      rw [List.flatMap_cons, List.flatMap_cons] at h
      have hread := congrArg firstOf? h
      rw [firstOf?_escapeChar, firstOf?_escapeChar] at hread
      obtain ⟨rfl, hrest⟩ := Prod.mk.inj (Option.some.inj hread)
      rw [ih hrest]

/-- A quoted text tells which text was quoted. -/
theorem quote_injective {s t : String} (h : quote s = quote t) : s = t := by
  have hlists := congrArg String.toList h
  simp only [quote, String.toList_ofList, List.cons_append] at hlists
  have hinner := List.append_cancel_right (List.cons.inj hlists).2
  exact String.toList_inj.1 (flatMap_escapeChar_injective hinner)

end WideColumn.Text
