import Mathlib.Data.List.Basic
import WideColumn.DataType.Registry
import WideColumn.Proofs.DataType.Coerce

/-!
# Class names and their types

A class name is read by hand: the text up to the first parenthesis is the name, one parenthesis is
taken off the end, the rest is cut at the commas outside parentheses, and of a name only what
follows its last dot counts. The class name of a nested type has parentheses, commas and dots of its
own inside its parameters, so that each of these steps could cut in the wrong place.

None does. A class name is closed, that is, it leaves the depth of parentheses as it finds it and
has no comma outside them, and it neither begins nor ends with a blank.

- `Spelled type cs`: `cs` is the class name of `type`, with any packages in front of its names and
  any blanks around its parameters;
- `spelled_className`: the class name of a type is such a spelling;
- `Closed cs`: reading `cs` as part of a parameter list cuts nowhere;
- `splitParams_intercalate`: a list of closed parameters falls into just these;
- `Spelled.resolve`: every spelling is read as its type;
- `resolve_spelled`: the main result, over all registries that leave the built-in names alone.
-/

namespace WideColumn

/-! ## Blanks around a text -/

namespace Text

/-- A text with blanks around it. -/
structure Padded where
  left : List Char
  name : List Char
  right : List Char
  left_blank : left.all isBlank = true
  right_blank : right.all isBlank = true

/-- A text without blanks around it. -/
def Padded.bare (name : List Char) : Padded := ⟨[], name, [], rfl, rfl⟩

def Padded.text (p : Padded) : List Char := p.left ++ p.name ++ p.right

@[simp] theorem Padded.name_bare (name : List Char) : (Padded.bare name).name = name := rfl

@[simp] theorem Padded.text_bare (name : List Char) : (Padded.bare name).text = name := by
  simp [Padded.text, Padded.bare]

/-- The first character is there and is not blank. -/
def StartsSolid (cs : List Char) : Prop := ∃ c rest, cs = c :: rest ∧ isBlank c = false

/-- Neither end is blank. -/
structure Solid (cs : List Char) : Prop where
  first : StartsSolid cs
  last : StartsSolid cs.reverse

theorem StartsSolid.append {cs : List Char} (h : StartsSolid cs) (ds : List Char) :
    StartsSolid (cs ++ ds) := by
  obtain ⟨c, rest, rfl, hc⟩ := h
  exact ⟨c, rest ++ ds, rfl, hc⟩

private theorem startsSolid_of_forall {cs : List Char} (hne : cs ≠ [])
    (h : ∀ c ∈ cs, isBlank c = false) :
    StartsSolid cs := by
  obtain ⟨c, rest, rfl⟩ := List.exists_cons_of_ne_nil hne
  exact ⟨c, rest, rfl, h c List.mem_cons_self⟩

private theorem solid_of_forall {cs : List Char} (hne : cs ≠ []) (h : ∀ c ∈ cs, isBlank c = false) :
    Solid cs where
  first := startsSolid_of_forall hne h
  last := startsSolid_of_forall (by simpa using hne) (by simpa using h)

private theorem Solid.ne_nil {cs : List Char} (h : Solid cs) : cs ≠ [] := by
  obtain ⟨c, rest, rfl, -⟩ := h.first
  exact List.cons_ne_nil c rest

private theorem dropWhile_isBlank_append {blanks cs : List Char}
    (hblanks : blanks.all isBlank = true)
    (hcs : StartsSolid cs) : (blanks ++ cs).dropWhile isBlank = cs := by
  obtain ⟨c, rest, rfl, hc⟩ := hcs
  rw [List.dropWhile_append_of_pos (List.all_eq_true.1 hblanks),
    List.dropWhile_cons_of_neg (by simp [hc])]

/-- Trimming takes off the blanks around a text, and no more. -/
theorem trim_text {p : Padded} (h : Solid p.name) : trim p.text = p.name := by
  have hleft : p.text.dropWhile isBlank = p.name ++ p.right := by
    rw [Padded.text, List.append_assoc]
    exact dropWhile_isBlank_append p.left_blank (h.first.append p.right)
  have hright : (p.name ++ p.right).reverse.dropWhile isBlank = p.name.reverse := by
    rw [List.reverse_append]
    exact dropWhile_isBlank_append (by simpa using p.right_blank) h.last
  rw [trim, hleft, trimRight, hright, List.reverse_reverse]

private theorem trim_of_solid {cs : List Char} (h : Solid cs) : trim cs = cs := by
  simpa using trim_text (p := .bare cs) h

end Text

/-! ## Spellings -/

namespace DataType

/-- Whether a character sets off parameters. -/
def isPunctuation (c : Char) : Bool := c == '(' || c == ')' || c == ','

/-- Whether a character can stand in a package or a name. -/
def isPlain (c : Char) : Bool := !Text.isBlank c && !isPunctuation c

/-- A dotted package, with the dot that sets it off from a name; or nothing. -/
structure Package where
  chars : List Char
  plain : chars.all isPlain = true
  dotted : chars = [] ∨ chars.getLast? = some '.'

/-- The name of a type in a package, without its parameters. -/
def Package.qualify (package : Package) (type : DataType) : List Char :=
  package.chars ++ type.head.toList

/-- The parameters of a type that takes any. -/
def parameters : DataType → Option (List DataType)
  | .composite components => some components
  | .list element => some [element]
  | .map key value => some [key, value]
  | _ => none

/-- A name with a parameter list. -/
def applied (name params : List Char) : List Char := name ++ '(' :: (params ++ [')'])

/-- The class name of a type, with any package in front of each name in it and any blanks around
each parameter. -/
inductive Spelled : DataType → List Char → Prop
  | simple {type : DataType} (package : Package) (htype : type.isSimple = true) :
    Spelled type (package.qualify type)
  | parametrised {type : DataType} {params : List (DataType × Text.Padded)} (package : Package)
    (htype : type.parameters = some (params.map Prod.fst))
    (hparams : ∀ p ∈ params, Spelled p.1 p.2.name) :
    Spelled type (applied (package.qualify type)
      ([','].intercalate (params.map fun p => p.2.text)))

mutual

/-- Whether every composite in a type has a component. -/
def namesComponents : DataType → Bool
  | .composite components => !components.isEmpty && allNameComponents components
  | .list element => namesComponents element
  | .map key value => namesComponents key && namesComponents value
  | _ => true

/-- Whether every composite in any of several types has a component. -/
def allNameComponents : List DataType → Bool
  | [] => true
  | t :: ts => namesComponents t && allNameComponents ts

end

private theorem allNameComponents_iff {types : List DataType} :
    allNameComponents types = true ↔ ∀ t ∈ types, t.namesComponents = true := by
  induction types with
  | nil => simp [allNameComponents]
  | cons t ts ih => simp [allNameComponents, ih]

private theorem namesComponents_of_mem {type t : DataType} {params : List DataType}
    (htype : type.namesComponents = true) (hparams : type.parameters = some params)
    (ht : t ∈ params) : t.namesComponents = true := by
  cases type with
  | composite components =>
    cases hparams
    simp only [namesComponents, Bool.and_eq_true] at htype
    exact allNameComponents_iff.1 htype.2 t ht
  | list element =>
    cases hparams
    rw [List.mem_singleton.1 ht]
    exact htype
  | map key value =>
    cases hparams
    simp only [namesComponents, Bool.and_eq_true] at htype
    simp only [List.mem_cons, List.not_mem_nil, or_false] at ht
    rcases ht with rfl | rfl
    · exact htype.1
    · exact htype.2
  | _ => simp [parameters] at hparams

/-! ## Names -/

/-- The name of a type has neither dots nor blanks nor punctuation. -/
theorem plain_head (type : DataType) : ∀ c ∈ type.head.toList, isPlain c = true ∧ c ≠ '.' := by
  have hall : (type.head.toList.all fun c => isPlain c && c != '.') = true := by
    cases type <;> simp only [head] <;> decide
  simpa using hall

private theorem head_ne_nil (type : DataType) : type.head.toList ≠ [] := by
  cases type <;> simp [head]

private theorem Package.plain_qualify (package : Package) (type : DataType) :
    ∀ c ∈ package.qualify type, isPlain c = true := by
  intro c hc
  rcases List.mem_append.1 hc with hc | hc
  · exact List.all_eq_true.1 package.plain c hc
  · exact (plain_head type c hc).1

private theorem Package.qualify_ne_nil (package : Package) (type : DataType) :
    package.qualify type ≠ [] := by
  simp [qualify, head_ne_nil type]

private theorem isPlain_iff {c : Char} :
    isPlain c = true ↔ Text.isBlank c = false ∧ isPunctuation c = false := by
  simp [isPlain]

private theorem isPunctuation_of_isBlank {c : Char} (h : Text.isBlank c = true) :
    isPunctuation c = false := by
  by_contra hpunctuation
  simp only [isPunctuation, Bool.not_eq_false, Bool.or_eq_true, beq_iff_eq] at hpunctuation
  rcases hpunctuation with (rfl | rfl) | rfl <;> exact absurd h (by decide)

/-- A name in a package begins and ends with characters that are not blank. -/
theorem Package.solid_qualify (package : Package) (type : DataType) :
    Text.Solid (package.qualify type) :=
  Text.solid_of_forall (package.qualify_ne_nil type) fun c hc =>
    (isPlain_iff.1 (package.plain_qualify type c hc)).1

/-- What follows the last dot of a name in a package is the name. -/
theorem Package.shortName_qualify (package : Package) (type : DataType) :
    Registry.shortName (package.qualify type) = type.head.toList := by
  have hhead : ∀ c ∈ type.head.toList.reverse, (c != '.') = true := by
    intro c hc
    simpa using (plain_head type c (List.mem_reverse.1 hc)).2
  have hpackage : package.chars.reverse.takeWhile (· != '.') = [] := by
    rcases package.dotted with hnil | hdot
    · simp [hnil]
    · obtain ⟨segments, hsegments⟩ := List.getLast?_eq_some_iff.1 hdot
      simp [hsegments]
  rw [Registry.shortName, Text.trim_of_solid (package.solid_qualify type), qualify,
    List.reverse_append, List.takeWhile_append_of_pos hhead, hpackage, List.append_nil,
    List.reverse_reverse]

end DataType

/-! ## Parameter lists -/

namespace Registry

/-- Reading a text at a depth of parentheses cuts nowhere and comes back to this depth. -/
def PassesAt (depth : Nat) (cs : List Char) : Prop :=
  ∀ piece rest, splitFrom depth piece (cs ++ rest) = splitFrom depth (cs.reverse ++ piece) rest

/-- Reading a text cuts nowhere, wherever it stands. -/
def Closed (cs : List Char) : Prop := ∀ depth, PassesAt depth cs

theorem PassesAt.append {depth : Nat} {cs ds : List Char} (hcs : PassesAt depth cs)
    (hds : PassesAt depth ds) : PassesAt depth (cs ++ ds) := by
  intro piece rest
  rw [List.append_assoc, hcs, hds, List.reverse_append, List.append_assoc]

private theorem closed_nil : Closed [] := fun _ _ _ => rfl

/-- A character that is no punctuation is read on. -/
theorem splitFrom_cons {c : Char} (h : DataType.isPunctuation c = false) (depth : Nat)
    (piece cs : List Char) : splitFrom depth piece (c :: cs) = splitFrom depth (c :: piece) cs := by
  simp only [DataType.isPunctuation, Bool.or_eq_false_iff, beq_eq_false_iff_ne] at h
  obtain ⟨⟨hopen, hclose⟩, hcomma⟩ := h
  rw [splitFrom] <;> assumption

private theorem closed_of_forall {cs : List Char} (h : ∀ c ∈ cs, DataType.isPunctuation c = false) :
    Closed cs := by
  intro depth piece rest
  induction cs generalizing piece with
  | nil => rfl
  | cons c cs ih =>
    rw [List.cons_append, splitFrom_cons (h c List.mem_cons_self),
      ih fun d hd => h d (List.mem_cons_of_mem c hd)]
    simp

/-- Inside parentheses a comma cuts nothing. -/
theorem passesAt_comma (depth : Nat) : PassesAt (depth + 1) [','] := by
  intro piece rest
  simp [splitFrom]

/-- Closed parameters can be read together inside parentheses. -/
theorem passesAt_intercalate (depth : Nat) {texts : List (List Char)}
    (h : ∀ text ∈ texts, Closed text) : PassesAt (depth + 1) ([','].intercalate texts) := by
  induction texts with
  | nil => exact closed_nil (depth + 1)
  | cons text texts ih =>
    have htext := h text List.mem_cons_self (depth + 1)
    cases texts with
    | nil => simpa using htext
    | cons next texts =>
      rw [List.intercalate_cons_cons]
      exact (htext.append (passesAt_comma depth)).append
        (ih fun t ht => h t (List.mem_cons_of_mem text ht))

/-- A closed name with its parameters in parentheses is closed again. -/
theorem closed_applied {name params : List Char} (hname : Closed name)
    (hparams : ∀ depth, PassesAt (depth + 1) params) : Closed (DataType.applied name params) := by
  intro depth
  refine (hname depth).append ?_
  intro piece rest
  have hopen : splitFrom depth piece ('(' :: (params ++ [')']) ++ rest) =
      splitFrom (depth + 1) ('(' :: piece) (params ++ (')' :: rest)) := by
    simp [splitFrom]
  rw [hopen, hparams depth]
  simp [splitFrom]

private theorem closed_text {p : Text.Padded} (h : Closed p.name) : Closed p.text := by
  have blanks {cs : List Char} (hcs : cs.all Text.isBlank = true) : Closed cs :=
    closed_of_forall fun c hc => DataType.isPunctuation_of_isBlank (List.all_eq_true.1 hcs c hc)
  exact fun depth =>
    ((blanks p.left_blank depth).append (h depth)).append (blanks p.right_blank depth)

/-- A list of closed parameters falls into these parameters, without the blanks around them. -/
theorem splitParams_intercalate (params : List Text.Padded)
    (hclosed : ∀ p ∈ params, Closed p.name) (hsolid : ∀ p ∈ params, Text.Solid p.name) :
    splitParams ([','].intercalate (params.map Text.Padded.text)) =
      params.map Text.Padded.name := by
  rw [splitParams]
  induction params with
  | nil => rfl
  | cons p params ih =>
    -- The parameter is closed, so no comma inside it is taken for the one that ends it.
    have hpass := closed_text (hclosed p List.mem_cons_self) 0
    have htrim := Text.trim_text (hsolid p List.mem_cons_self)
    cases params with
    | nil =>
      have hread := hpass [] []
      have hne := (hsolid p List.mem_cons_self).ne_nil
      simp only [List.append_nil] at hread
      simp [hread, splitFrom, htrim, hne]
    | cons q params =>
      have hrest := ih (fun r hr => hclosed r (List.mem_cons_of_mem p hr))
        fun r hr => hsolid r (List.mem_cons_of_mem p hr)
      simp only [List.map_cons] at hrest ⊢
      rw [List.intercalate_cons_cons, List.append_assoc, hpass, ← hrest]
      simp [splitFrom, htrim]

/-! ## The parts of a class name -/

theorem stripClose_append (cs : List Char) : stripClose (cs ++ [')']) = cs := by
  simp [stripClose]

section Name

variable {name : List Char} (hname : ∀ c ∈ name, DataType.isPunctuation c = false)

include hname

private theorem ne_open_of_forall : ∀ c ∈ name, (c != '(') = true := by
  intro c hc
  have h := hname c hc
  simp only [DataType.isPunctuation, Bool.or_eq_false_iff, beq_eq_false_iff_ne] at h
  simpa using h.1.1

private theorem afterOpen?_of_forall : afterOpen? name = none := by
  rw [afterOpen?, ← List.append_nil name,
    List.dropWhile_append_of_pos (ne_open_of_forall hname), List.dropWhile_nil]

private theorem afterOpen?_applied (params : List Char) :
    afterOpen? (DataType.applied name params) = some (params ++ [')']) := by
  rw [afterOpen?, DataType.applied, List.dropWhile_append_of_pos (ne_open_of_forall hname)]
  simp

private theorem takeWhile_applied (params : List Char) :
    (DataType.applied name params).takeWhile (· != '(') = name := by
  rw [DataType.applied, List.takeWhile_append_of_pos (ne_open_of_forall hname)]
  simp

end Name

/-! ## Resolution -/

/-- Resolution in one step: each parameter is resolved on its own. -/
theorem resolveChars_eq (r : Registry) (name : List Char) :
    r.resolveChars name =
      match afterOpen? (Text.trim name) with
      | none =>
        if (Text.trim name).isEmpty then .bytes
        else (r.find? (shortName (Text.trim name))).getD .bytes
      | some rest =>
        r.ofParams (shortName ((Text.trim name).takeWhile (· != '(')))
          ((splitParams (stripClose rest)).map r.resolveChars) := by
  -- only the parameters between the outer parentheses are resolved again
  rw [resolveChars]
  split
  · next hopen => rw [hopen]
  · next rest hopen =>
    rw [hopen]
    simp

/-- A name without parameters is looked up. -/
theorem resolveChars_simple (r : Registry) {name : List Char}
    (hname : ∀ c ∈ name, DataType.isPunctuation c = false) (hsolid : Text.Solid name) :
    r.resolveChars name = (r.find? (shortName name)).getD .bytes := by
  rw [resolveChars_eq, Text.trim_of_solid hsolid, afterOpen?_of_forall hname]
  exact if_neg (by simpa using hsolid.ne_nil)

/-- A name with parameters is cut off, and its parameters are resolved. -/
theorem resolveChars_applied (r : Registry) {name params : List Char}
    (hname : ∀ c ∈ name, DataType.isPunctuation c = false)
    (hsolid : Text.Solid (DataType.applied name params)) :
    r.resolveChars (DataType.applied name params) =
      r.ofParams (shortName name) ((splitParams params).map r.resolveChars) := by
  simp only [resolveChars_eq _ (DataType.applied name params), Text.trim_of_solid hsolid,
    afterOpen?_applied hname, takeWhile_applied hname, stripClose_append]

/-- Blanks around a class name do not count. -/
theorem resolveChars_text (r : Registry) {p : Text.Padded} (h : Text.Solid p.name) :
    r.resolveChars p.text = r.resolveChars p.name := by
  rw [resolveChars_eq, resolveChars_eq, Text.trim_text h, Text.trim_of_solid h]

/-- The name of a type that takes parameters makes this type of its parameters. -/
theorem ofParams_head (r : Registry) {type : DataType} {params : List DataType}
    (htype : type.namesComponents = true) (hparams : type.parameters = some params) :
    r.ofParams type.head.toList params = type := by
  cases type with
  | composite components =>
    cases hparams
    simp only [DataType.namesComponents, Bool.and_eq_true, Bool.not_eq_true',
      List.isEmpty_eq_false_iff] at htype
    exact if_pos ⟨rfl, htype.1⟩
  | list element =>
    cases hparams
    rw [ofParams, if_neg (by simp [DataType.head])]
    exact if_pos rfl
  | map key value =>
    cases hparams
    rw [ofParams, if_neg (by simp [DataType.head])]
    exact if_pos rfl
  | _ => simp [DataType.parameters] at hparams

/-! ## Registries -/

/-- Each type without parameters is found under its name. -/
def KnowsSimple (r : Registry) : Prop :=
  ∀ type : DataType, type.isSimple = true → r.find? type.head.toList = some type

/-- Adds names in turn. -/
def registerAll (r : Registry) (extra : List (String × DataType)) : Registry :=
  extra.foldl (fun r e => r.register e.1 e.2) r

private theorem entries_registerAll (r : Registry) (extra : List (String × DataType)) :
    (r.registerAll extra).entries = extra.reverse ++ r.entries := by
  induction extra generalizing r with
  | nil => rfl
  | cons e extra ih =>
    rw [registerAll, List.foldl_cons]
    exact (ih (r.register e.1 e.2)).trans (by simp [register])

private theorem knowsSimple_standard : standard.KnowsSimple := by
  intro type htype
  cases type <;> first | contradiction | rfl

private theorem KnowsSimple.registerAll {r : Registry} (hr : r.KnowsSimple)
    {extra : List (String × DataType)} (hextra : ∀ e ∈ extra, e.1 ∉ r.entries.map Prod.fst) :
    (r.registerAll extra).KnowsSimple := by
  intro type htype
  have hfind := hr type htype
  rw [find?, String.ofList_toList] at hfind ⊢
  obtain ⟨before, after, hentries, -⟩ := List.lookup_eq_some_iff.1 hfind
  have hknown : type.head ∈ r.entries.map Prod.fst := by simp [hentries]
  have hnone : extra.reverse.lookup type.head = none := by
    rw [List.lookup_eq_none_iff]
    intro e he
    have hne : type.head ≠ e.1 := fun heq => hextra e (List.mem_reverse.1 he) (heq ▸ hknown)
    simpa using hne
  rw [entries_registerAll, List.lookup_append, hnone, Option.none_or, hfind]

end Registry

namespace DataType

/-! ## Every spelling is read as its type -/

theorem Package.unpunctuated (package : Package) (type : DataType) :
    ∀ c ∈ package.qualify type, isPunctuation c = false := fun c hc =>
  (isPlain_iff.1 (package.plain_qualify type c hc)).2

/-- A spelling neither begins nor ends with a blank. -/
theorem Spelled.solid {type : DataType} {cs : List Char} (h : Spelled type cs) : Text.Solid cs := by
  cases h with
  | simple package => exact package.solid_qualify type
  | parametrised package =>
    refine ⟨(package.solid_qualify type).first.append _, ')', ?_⟩
    simp [applied, show Text.isBlank ')' = false by decide]

/-- By induction on the spelling: the parameters of a closed name are closed themselves. -/
theorem Spelled.closed {type : DataType} {cs : List Char} (h : Spelled type cs) :
    Registry.Closed cs := by
  induction h with
  | simple package => exact Registry.closed_of_forall (package.unpunctuated _)
  | @parametrised type params package htype hparams ih =>
    refine Registry.closed_applied (Registry.closed_of_forall (package.unpunctuated type))
      fun depth => Registry.passesAt_intercalate depth ?_
    simp only [List.mem_map, forall_exists_index, and_imp, forall_apply_eq_imp_iff₂]
    exact fun p hp => Registry.closed_text (ih p hp)

/-- Reading a spelling gives back its type: the name is cut off at the first parenthesis, and the
rest falls into the parameters, which are read as theirs. -/
theorem Spelled.resolve {r : Registry} (hr : r.KnowsSimple) {type : DataType} {cs : List Char}
    (h : Spelled type cs) (htype : type.namesComponents = true) : r.resolveChars cs = type := by
  induction h with
  | @simple type package hsimple =>
    rw [Registry.resolveChars_simple r (package.unpunctuated type) (package.solid_qualify type),
      package.shortName_qualify, hr type hsimple, Option.getD_some]
  | @parametrised type params package hhead hparams ih =>
    have hsolid := (Spelled.parametrised package hhead hparams).solid
    have hsplit := Registry.splitParams_intercalate (params.map Prod.snd)
      (List.forall_mem_map.2 fun p hp => (hparams p hp).closed)
      (List.forall_mem_map.2 fun p hp => (hparams p hp).solid)
    rw [List.map_map, List.map_map] at hsplit
    -- The parameters are spelled too, so each is resolved by induction.
    have hread : ∀ p ∈ params, r.resolveChars p.2.name = p.1 := fun p hp =>
      ih p hp (namesComponents_of_mem htype hhead (List.mem_map_of_mem hp))
    calc r.resolveChars (applied (package.qualify type)
          ([','].intercalate (params.map fun p => p.2.text)))
        = r.ofParams type.head.toList ((params.map fun p => p.2.name).map r.resolveChars) := by
          rw [Registry.resolveChars_applied r (package.unpunctuated type) hsolid,
            package.shortName_qualify]
          exact congrArg (fun texts => r.ofParams _ (texts.map r.resolveChars)) hsplit
      _ = r.ofParams type.head.toList (params.map Prod.fst) := by
          rw [List.map_map]
          exact congrArg (r.ofParams _) (List.map_congr_left hread)
      _ = type := Registry.ofParams_head r htype hhead

/-! ## The class name of a type -/

/-- No package. -/
def Package.none : Package := ⟨[], rfl, .inl rfl⟩

private theorem classNames_eq_map (types : List DataType) :
    classNames types = types.map className := by
  induction types with
  | nil => rfl
  | cons t ts ih => rw [classNames, ih, List.map_cons]

/-- The class name of a type that takes parameters is its name with theirs in parentheses. -/
theorem toList_className {type : DataType} {params : List DataType}
    (htype : type.parameters = some params) :
    type.className.toList = applied type.head.toList
      ([','].intercalate (params.map fun t => t.className.toList)) := by
  cases type with
  | composite components =>
    cases htype
    simp [className, classNames_eq_map, applied, head, String.toList_intercalate,
      Function.comp_def]
  | list element =>
    cases htype
    simp [className, applied, head]
  | map key value =>
    cases htype
    simp [className, applied, head]
  | _ => simp [parameters] at htype

private theorem spelled_of_parameters {type : DataType} {params : List DataType}
    (htype : type.parameters = some params) (h : ∀ t ∈ params, Spelled t t.className.toList) :
    Spelled type type.className.toList := by
  have hspelled := @Spelled.parametrised type
    (params.map fun t => (t, Text.Padded.bare t.className.toList)) Package.none
    (by simpa [Function.comp_def] using htype) (List.forall_mem_map.2 h)
  rw [toList_className htype]
  simpa [Package.none, Package.qualify, Function.comp_def] using hspelled

mutual

/-- The class name of a type is a spelling of it, without packages and blanks. -/
theorem spelled_className : ∀ type : DataType, Spelled type type.className.toList
  | .composite components => spelled_of_parameters rfl (spelled_classNames components)
  | .list element => spelled_of_parameters rfl (by simpa using spelled_className element)
  | .map key value =>
    spelled_of_parameters rfl (by simpa using ⟨spelled_className key, spelled_className value⟩)
  | .bytes | .ascii | .utf8 | .long | .integer | .boolean | .date | .lexicalUuid | .timeUuid
  | .uuid | .counter => .simple .none rfl

private theorem spelled_classNames : ∀ types : List DataType, ∀ t ∈ types,
    Spelled t t.className.toList
  | [] => by simp
  | t :: ts => List.forall_mem_cons.2 ⟨spelled_className t, spelled_classNames ts⟩

end

/-! ## Main result -/

/-- A registry that keeps the built-in names and knows any others reads each spelling of a type as
this type, whatever blanks are around it; the class name of the type is one of the spellings. -/
theorem resolve_spelled {extra : List (String × DataType)} {type : DataType}
    (hextra : ∀ e ∈ extra, e.1 ∉ Registry.standard.entries.map Prod.fst)
    (htype : type.namesComponents = true) :
    Spelled type type.className.toList ∧
      ∀ p : Text.Padded, Spelled type p.name →
        (Registry.standard.registerAll extra).resolve (String.ofList p.text) = type := by
  refine ⟨spelled_className type, fun p hp => ?_⟩
  rw [Registry.resolve, String.toList_ofList, Registry.resolveChars_text _ hp.solid]
  exact hp.resolve (Registry.knowsSimple_standard.registerAll hextra) htype

/-- A list of maps in a composite, with packages and blanks, read by a registry that knows one more
name. -/
theorem resolve_spelled_nested :
    (∀ e ∈ [("SerialType", DataType.long)], e.1 ∉ Registry.standard.entries.map Prod.fst) ∧
      (DataType.composite [.list (.map .utf8 .long), .bytes]).namesComponents = true ∧
      (Registry.standard.registerAll [("SerialType", .long)]).resolve
        " db.CompositeType( ListType(MapType(UTF8Type, db.LongType)) ,BytesType)" =
        .composite [.list (.map .utf8 .long), .bytes] := by
  have hextra : ∀ e ∈ [("SerialType", DataType.long)],
      e.1 ∉ Registry.standard.entries.map Prod.fst := by decide
  have htype : (DataType.composite [.list (.map .utf8 .long), .bytes]).namesComponents = true := by
    decide
  -- The spelling is put together from the inside out.
  let db : Package := ⟨"db.".toList, by decide, .inr rfl⟩
  have hlong : Spelled .long "db.LongType".toList := .simple db rfl
  have hmap : Spelled (.map .utf8 .long) "MapType(UTF8Type, db.LongType)".toList :=
    @Spelled.parametrised _ [(.utf8, .bare "UTF8Type".toList),
      (.long, ⟨[' '], "db.LongType".toList, [], by decide, rfl⟩)] .none rfl
      (by simpa using ⟨.simple .none rfl, hlong⟩)
  have hlist : Spelled (.list (.map .utf8 .long))
      "ListType(MapType(UTF8Type, db.LongType))".toList :=
    @Spelled.parametrised _ [(_, .bare "MapType(UTF8Type, db.LongType)".toList)] .none rfl
      (by simpa using hmap)
  have hcomposite : Spelled (.composite [.list (.map .utf8 .long), .bytes])
      "db.CompositeType( ListType(MapType(UTF8Type, db.LongType)) ,BytesType)".toList :=
    @Spelled.parametrised _
      [(_, ⟨[' '], "ListType(MapType(UTF8Type, db.LongType))".toList, [' '], by decide, by decide⟩),
        (.bytes, .bare "BytesType".toList)] db rfl
      (by simpa using ⟨hlist, .simple .none rfl⟩)
  exact ⟨hextra, htype, (resolve_spelled hextra htype).2
    ⟨[' '], "db.CompositeType( ListType(MapType(UTF8Type, db.LongType)) ,BytesType)".toList, [],
      by decide, rfl⟩ hcomposite⟩

end DataType

end WideColumn
