import WideColumn.Json

/-!
# JSON values and their tokens

A value is spelled by one sequence of tokens, and this is the only one that is read as it.

- `Json.tokens`: the tokens of a value;
- `spent`: the tokens that lead to a state of the reader, and `spent_of_read?`: each token adds
  itself;
- `readAll?_eq_some_iff`: a sequence of tokens is read as a value exactly if it is that of the
  value.
-/

namespace WideColumn.Json

/-! ## Tokens of a value -/

/-- The tokens of a value. -/
def tokens : Json → List Token
  | .null => [.null]
  | .bool b => [.bool b]
  | .number n => [.number n]
  | .string points => [.string points]
  | .rawString points => [.rawString points]
  | .array items => .openArray :: (itemTokens items ++ [.closeArray])
  | .object fields => .openObject :: (fieldTokens fields ++ [.closeObject])
where
  /-- The items of an array, with commas between them. -/
  itemTokens : List Json → List Token
    | [] => []
    | [v] => tokens v
    | v :: w :: items => tokens v ++ .comma :: itemTokens (w :: items)
  /-- The fields of an object, with commas between them. -/
  fieldTokens : List (List Nat × Json) → List Token
    | [] => []
    | [(name, v)] => .string name :: .colon :: tokens v
    | (name, v) :: field :: fields =>
      .string name :: .colon :: (tokens v ++ .comma :: fieldTokens (field :: fields))

/-- What stands before the next item of an array with these items, latest first. -/
def beforeItem : List Json → List Token
  | [] => [.openArray]
  | v :: items => beforeItem items ++ v.tokens ++ [.comma]

/-- What stands before the next field of an object with these fields, latest first. -/
def beforeField : List (List Nat × Json) → List Token
  | [] => [.openObject]
  | (name, v) :: fields => beforeField fields ++ [.string name, .colon] ++ v.tokens ++ [.comma]

private theorem itemTokens_concat (items : List Json) (v : Json) :
    tokens.itemTokens (items ++ [v]) = (items.flatMap fun w => w.tokens ++ [.comma]) ++
    v.tokens := by
  induction items with
  | nil => rfl
  | cons w items ih =>
    have hcons : tokens.itemTokens (w :: (items ++ [v])) =
        w.tokens ++ .comma :: tokens.itemTokens (items ++ [v]) := by
      cases items <;> rfl
    rw [List.cons_append, hcons, ih, List.flatMap_cons, List.append_assoc, List.append_assoc]
    rfl

private theorem beforeItem_eq (items : List Json) :
    beforeItem items = .openArray :: items.reverse.flatMap fun w => w.tokens ++ [.comma] := by
  induction items with
  | nil => rfl
  | cons v items ih =>
    rw [beforeItem, ih, List.reverse_cons, List.flatMap_append, List.flatMap_singleton,
      List.append_assoc, List.cons_append]

/-- An array ends with its last item. -/
theorem tokens_array (v : Json) (items : List Json) :
    (array (items.reverse ++ [v])).tokens = beforeItem items ++ v.tokens ++ [.closeArray] := by
  rw [tokens, itemTokens_concat, beforeItem_eq, List.cons_append,
    List.cons_append]

private theorem fieldTokens_concat (fields : List (List Nat × Json)) (name : List Nat) (v : Json) :
    tokens.fieldTokens (fields ++ [(name, v)]) =
      (fields.flatMap fun f => .string f.1 :: .colon :: f.2.tokens ++ [.comma]) ++
        .string name :: .colon :: v.tokens := by
  induction fields with
  | nil => rfl
  | cons f fields ih =>
    have hcons : tokens.fieldTokens (f :: (fields ++ [(name, v)])) =
        .string f.1 :: .colon ::
          (f.2.tokens ++ .comma :: tokens.fieldTokens (fields ++ [(name, v)])) := by
      cases fields <;> rfl
    rw [List.cons_append, hcons, ih, List.flatMap_cons]
    simp

private theorem beforeField_eq (fields : List (List Nat × Json)) :
    beforeField fields =
      .openObject :: fields.reverse.flatMap fun f =>
        .string f.1 :: .colon :: f.2.tokens ++ [.comma] := by
  induction fields with
  | nil => rfl
  | cons f fields ih =>
    rw [beforeField, ih, List.reverse_cons, List.flatMap_append, List.flatMap_singleton]
    simp

/-- An object ends with its last field. -/
theorem tokens_object (name : List Nat) (v : Json) (fields : List (List Nat × Json)) :
    (object (fields.reverse ++ [(name, v)])).tokens =
      beforeField fields ++ [.string name, .colon] ++ v.tokens ++ [.closeObject] := by
  rw [tokens, fieldTokens_concat, beforeField_eq]
  simp

/-! ## Only these tokens are read -/

/-- The tokens that have led to an array or object that is not closed yet. -/
def Open.spent : Open → List Token
  | .array items => beforeItem items
  | .object fields name => beforeField fields ++ [.string name, .colon]

/-- The tokens that have led to a state inside of what is open. -/
def Expect.spent : Expect → List Token
  | .value => []
  | .item => [.openArray]
  | .field => [.openObject]
  | .name fields => beforeField fields
  | .colon fields key => beforeField fields ++ [.string key]
  | .after v => v.tokens

/-- The tokens that have led to a state of the reader. -/
def spent (stack : List Open) (expect : Expect) : List Token :=
  stack.reverse.flatMap Open.spent ++ expect.spent

private theorem spent_push (o : Open) (stack : List Open) (expect : Expect) :
    spent (o :: stack) expect = stack.reverse.flatMap Open.spent ++ (o.spent ++ expect.spent) := by
  rw [spent, List.reverse_cons, List.flatMap_append, List.flatMap_singleton, List.append_assoc]

variable {stack stack' : List Open} {expect expect' : Expect} {token : Token}

private theorem spent_of_value? (h : read?.value? stack token = some (stack', expect')) :
    spent stack' expect' = spent stack .value ++ [token] := by
  cases token <;> cases h <;> simp [spent, Expect.spent, tokens]

/-- Each token that is read adds itself to those that have led to the state. -/
theorem spent_of_read? (h : read? stack expect token = some (stack', expect')) :
    spent stack' expect' = spent stack expect ++ [token] := by
  cases expect with
  | value => exact spent_of_value? h
  | item =>
    -- Unless the array ends at once, its first item is read as if the array stood on the stack.
    by_cases hclose : token = .closeArray
    · subst hclose
      cases h
      simp [spent, Expect.spent, tokens, tokens.itemTokens]
    · have hvalue : read?.value? (.array [] :: stack) token = some (stack', expect') := by
        cases token <;> first | exact absurd rfl hclose | exact h
      rw [spent_of_value? hvalue, spent_push]
      simp [spent, Open.spent, Expect.spent, beforeItem]
  | field =>
    cases token <;> cases h <;>
      simp [spent, Expect.spent, beforeField, tokens, tokens.fieldTokens]
  | name fields =>
    cases token <;> cases h
    simp [spent, Expect.spent]
  | colon fields name =>
    cases token <;> cases h
    rw [spent_push]
    simp [spent, Open.spent, Expect.spent]
  | after v =>
    -- What is open takes the value in, and a closing mark makes one value of it.
    rcases stack with _ | ⟨items | ⟨fields, name⟩, stack⟩ <;> cases token <;> cases h
    all_goals
      rw [spent_push]
      simp [spent, Open.spent, Expect.spent, beforeItem, beforeField, tokens_array, tokens_object]

/-- If a value is read, the tokens that have led to the state and the rest are those of the
value. -/
theorem eq_tokens_of_readAll? {rest : List Token} {v : Json} :
    ∀ {stack : List Open} {expect : Expect}, readAll? stack expect rest = some v →
      v.tokens = spent stack expect ++ rest := by
  induction rest with
  | nil =>
    intro stack expect h
    rcases stack with _ | _ <;> cases expect <;> cases h
    exact (List.append_nil _).symm
  | cons token rest ih =>
    intro stack expect h
    obtain ⟨⟨stack', expect'⟩, hread, hrest⟩ := Option.bind_eq_some_iff.1 h
    rw [ih hrest, spent_of_read? hread, List.append_assoc, List.singleton_append]

/-! ## They are read -/

/-- The first item of an array is read as if the array stood on the stack. -/
private theorem readAll?_item (v : Json) (items : List Json) (rest : List Token) :
    readAll? stack .item (tokens.itemTokens (v :: items) ++ rest) =
      readAll? (.array [] :: stack) .value (tokens.itemTokens (v :: items) ++ rest) := by
  cases items <;> cases v <;> rfl

/-- The first field of an object is read like the others. -/
private theorem readAll?_field (f : List Nat × Json) (fields : List (List Nat × Json))
    (rest : List Token) :
    readAll? stack .field (tokens.fieldTokens (f :: fields) ++ rest) =
      readAll? stack (.name []) (tokens.fieldTokens (f :: fields) ++ rest) := by
  cases fields <;> rfl

mutual

/-- Where a value is expected, the tokens of one are read as it. -/
theorem readAll?_tokens : ∀ (v : Json) (stack : List Open) (rest : List Token),
    readAll? stack .value (v.tokens ++ rest) = readAll? stack (.after v) rest
  | .null, _, _ => rfl
  | .bool _, _, _ => rfl
  | .number _, _, _ => rfl
  | .string _, _, _ => rfl
  | .rawString _, _, _ => rfl
  | .array [], _, _ => rfl
  | .array (v :: items), stack, rest => by
    rw [tokens, List.cons_append, List.append_assoc, List.singleton_append]
    exact (readAll?_item v items _).trans (readAll?_itemTokens (v :: items) [] stack rest nofun)
  | .object [], _, _ => rfl
  | .object (f :: fields), stack, rest => by
    rw [tokens, List.cons_append, List.append_assoc, List.singleton_append]
    exact (readAll?_field f fields _).trans (readAll?_fieldTokens (f :: fields) [] stack rest nofun)

/-- The items of an array are read behind those that were read before. -/
theorem readAll?_itemTokens : ∀ (items before : List Json) (stack : List Open) (rest : List Token),
    items ≠ [] →
      readAll? (.array before :: stack) .value (tokens.itemTokens items ++ .closeArray :: rest) =
        readAll? stack (.after (.array (before.reverse ++ items))) rest
  | [], _, _, _, h => absurd rfl h
  | [v], before, stack, rest, _ => by
    rw [tokens.itemTokens, readAll?_tokens v, ← List.reverse_cons]
    rfl
  | v :: w :: items, before, stack, rest, _ => by
    rw [tokens.itemTokens, List.append_assoc, readAll?_tokens v]
    show readAll? (.array (v :: before) :: stack) .value
      (tokens.itemTokens (w :: items) ++ .closeArray :: rest) = _
    rw [readAll?_itemTokens (w :: items) (v :: before) stack rest nofun, List.reverse_cons,
      List.append_assoc, List.singleton_append]

/-- The fields of an object are read behind those that were read before. -/
theorem readAll?_fieldTokens : ∀ (fields before : List (List Nat × Json)) (stack : List Open)
    (rest : List Token), fields ≠ [] →
      readAll? stack (.name before) (tokens.fieldTokens fields ++ .closeObject :: rest) =
        readAll? stack (.after (.object (before.reverse ++ fields))) rest
  | [], _, _, _, h => absurd rfl h
  | [(name, v)], before, stack, rest, _ => by
    -- The last field is followed by the end of the object, any other by a comma and the next name.
    show readAll? (.object before name :: stack) .value (v.tokens ++ .closeObject :: rest) = _
    rw [readAll?_tokens v, ← List.reverse_cons]
    rfl
  | (name, v) :: field :: fields, before, stack, rest, _ => by
    show readAll? (.object before name :: stack) .value
      (v.tokens ++ .comma :: tokens.fieldTokens (field :: fields) ++ .closeObject :: rest) = _
    rw [List.append_assoc, readAll?_tokens v]
    show readAll? stack (.name ((name, v) :: before))
      (tokens.fieldTokens (field :: fields) ++ .closeObject :: rest) = _
    rw [readAll?_fieldTokens (field :: fields) ((name, v) :: before) stack rest nofun,
      List.reverse_cons, List.append_assoc, List.singleton_append]

end

/-! ## Main result -/

/-- A sequence of tokens is read as a value exactly if it is that of the value. -/
theorem readAll?_eq_some_iff {v : Json} {all : List Token} :
    readAll? [] .value all = some v ↔ all = v.tokens := by
  constructor
  · exact fun h => (eq_tokens_of_readAll? h).symm
  · rintro rfl
    have hread := readAll?_tokens v [] []
    rw [List.append_nil] at hread
    exact hread

end WideColumn.Json
