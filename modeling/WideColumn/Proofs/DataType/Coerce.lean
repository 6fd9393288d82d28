import WideColumn.DataType.Pack
import WideColumn.DataType.Unpack
import WideColumn.Proofs.Checked

/-!
# Coercions

A type keeps one kind of value and takes a few others that convert without loss. This module says
which value stands for another one after the conversion, at any depth of composites, lists and maps.

- `coerce` is the value that a type keeps in place of the one it was given;
- `isNative` tells the values a type keeps as they are;
- `coerce_of_isNative`: nothing happens to those;
- `isNative_of_unpack`: reading bytes gives nothing else.
-/

namespace WideColumn.DataType

/-- Whether a type has no parameters. -/
def isSimple : DataType → Bool
  | .composite _ | .list _ | .map _ _ => false
  | _ => true

/-! ## The value a type keeps -/

/-- A text in place of its UTF-8 bytes. -/
def coerceText : Value → Value
  | .bytes b =>
    match Utf8.textOf b with
    | .ok s => .text s
    | .error _ => .bytes b
  | v => v

/-- A UUID in place of its text or its sixteen bytes. -/
def coerceUuid : Value → Value
  | .text s =>
    match Uuid.parse? s with
    | some u => .uuid u
    | none => .text s
  | .bytes b =>
    match Uuid.ofBytes? b with
    | some u => .uuid u
    | none => .bytes b
  | v => v

/-- At the end of a slice a UUID in place of a moment: the first one of the moment at the lower end
and the last one at the upper end. -/
def coerceMoment (sliceEnd : SliceEnd) (v : Value) : Value :=
  match momentOf? v, sliceEnd with
  | some micros, .start _ => .uuid (Uuid.lowest micros.toInt)
  | some micros, .finish _ => .uuid (Uuid.highest micros.toInt)
  | _, _ => v

/-- The value that a type without parameters keeps in place of another one. -/
def coerceSimple (type : DataType) (sliceEnd : SliceEnd) (v : Value) : Value :=
  match type, v with
  | .bytes, .text s => .bytes (Utf8.bytesOf s)
  | .ascii, v | .utf8, v => coerceText v
  | .long, .int n | .counter, .int n => .long n.toInt64
  | .date, .long n => .date n
  | .lexicalUuid, v | .uuid, v => coerceUuid v
  | .timeUuid, v => coerceUuid (coerceMoment sliceEnd v)
  | _, v => v

mutual

/-- The value that a type keeps in place of another one. Only the last component of a composite
stands at the end of a slice if the composite does. -/
def coerce (type : DataType) (sliceEnd : SliceEnd) (v : Value) : Value :=
  match type with
  | .composite types =>
    match v with
    | .composite vs => .composite (coerceComponents types sliceEnd vs)
    | v => v
  | .list item =>
    match v with
    | .list vs => .list (vs.map (coerce item .exact))
    | v => v
  | .map key value =>
    match v with
    | .map pairs => .map (pairs.map fun (k, v) => (coerce key .exact k, coerce value .exact v))
    | v => v
  | type => coerceSimple type sliceEnd v

/-- The components that a composite type keeps in place of others. -/
def coerceComponents : List DataType → SliceEnd → List Value → List Value
  | type :: types, sliceEnd, v :: vs =>
    coerce type (if vs.isEmpty then sliceEnd else .exact) v :: coerceComponents types sliceEnd vs
  | _, _, vs => vs

end

@[simp] theorem length_coerceComponents (types : List DataType) (sliceEnd : SliceEnd)
    (vs : List Value) : (coerceComponents types sliceEnd vs).length = vs.length := by
  induction types generalizing vs with
  | nil => simp [coerceComponents]
  | cons type types ih =>
    cases vs with
    | nil => simp [coerceComponents]
    | cons v vs => rw [coerceComponents, List.length_cons, ih, List.length_cons]

/-- Only the last component of a bound is coerced as a bound. -/
theorem coerceComponents_append_singleton {type : DataType} (sliceEnd : SliceEnd) (p : Value) :
    ∀ (types : List DataType) (ps : List Value), types[ps.length]? = some type →
      coerceComponents types sliceEnd (ps ++ [p]) =
        coerceComponents types .exact ps ++ [coerce type sliceEnd p]
  | [], ps, htype => by simp at htype
  | first :: types, [], htype => by
    cases htype
    cases types <;> simp [coerceComponents]
  | first :: types, q :: ps, htype => by
    have hrest := coerceComponents_append_singleton sliceEnd p types ps (by simpa using htype)
    simp [coerceComponents, hrest]

/-! ## Values kept as they are -/

mutual

/-- Whether a value has the kind that reading back gives, at every depth. -/
def isNative : DataType → Value → Bool
  | .bytes, .bytes _ => true
  | .ascii, .text _ | .utf8, .text _ => true
  | .long, .long _ | .counter, .long _ | .integer, .long _ => true
  | .boolean, .boolean _ => true
  | .date, .date _ => true
  | .lexicalUuid, .uuid _ | .timeUuid, .uuid _ | .uuid, .uuid _ => true
  | .composite types, .composite vs => areNative types vs
  | .list item, .list vs => vs.all (isNative item)
  | .map key value, .map pairs => pairs.all fun (k, v) => isNative key k && isNative value v
  | _, _ => false

/-- Whether components have the kinds that reading back gives; there may be fewer than declared. -/
def areNative : List DataType → List Value → Bool
  | _, [] => true
  | [], _ :: _ => false
  | type :: types, v :: vs => isNative type v && areNative types vs

end

mutual

/-- Nothing happens to a value of the kind a type keeps. -/
theorem coerce_of_isNative : ∀ (type : DataType) (sliceEnd : SliceEnd) (v : Value),
    isNative type v = true → coerce type sliceEnd v = v
  | .composite types, sliceEnd, v, h => by
    cases v <;> simp only [isNative, Bool.false_eq_true] at h
    case composite vs =>
      rw [coerce, coerceComponents_of_areNative types sliceEnd vs h]
  | .list item, _, v, h => by
    cases v <;> simp only [isNative, Bool.false_eq_true, List.all_eq_true] at h
    case list vs =>
      -- Every item stays as it is, so the list does.
      have hsame : vs.map (coerce item .exact) = vs.map id := by
        apply List.map_congr_left
        intro v hv
        exact coerce_of_isNative item .exact v (h v hv)
      rw [coerce, hsame, List.map_id]
  | .map key value, _, v, h => by
    cases v <;> simp only [isNative, Bool.false_eq_true, List.all_eq_true, Bool.and_eq_true] at h
    case map pairs =>
      have hsame : pairs.map (fun (k, v) => (coerce key .exact k, coerce value .exact v)) =
          pairs.map id := by
        apply List.map_congr_left
        intro (k, v) hkv
        obtain ⟨hk, hv⟩ := h (k, v) hkv
        show (coerce key .exact k, coerce value .exact v) = (k, v)
        rw [coerce_of_isNative key .exact k hk, coerce_of_isNative value .exact v hv]
      rw [coerce, hsame, List.map_id]
  | .bytes, _, v, h | .ascii, _, v, h | .utf8, _, v, h | .long, _, v, h | .integer, _, v, h
  | .boolean, _, v, h | .date, _, v, h | .lexicalUuid, _, v, h | .timeUuid, _, v, h
  | .uuid, _, v, h | .counter, _, v, h => by
    -- Without parameters a type keeps one kind of value, and no coercion is about that kind.
    cases v <;> simp only [isNative, Bool.false_eq_true] at h
    rfl

private theorem coerceComponents_of_areNative : ∀ (types : List DataType) (sliceEnd : SliceEnd)
    (vs : List Value), areNative types vs = true → coerceComponents types sliceEnd vs = vs
  | [], sliceEnd, vs, _ => by simp [coerceComponents]
  | type :: types, sliceEnd, [], _ => by simp [coerceComponents]
  | type :: types, sliceEnd, v :: vs, h => by
    simp only [areNative, Bool.and_eq_true] at h
    rw [coerceComponents, coerce_of_isNative type _ v h.1,
      coerceComponents_of_areNative types sliceEnd vs h.2]

end

/-! ## Values read back -/

private theorem exists_of_mem_takeMany {α : Type}
    {item : Bytes → Except MarshalError (α × Bytes)} {count : Nat} {bs rest : Bytes} {as : List α}
    (h : takeMany item count bs = .ok (as, rest)) {a : α} (ha : a ∈ as) :
    ∃ bs' rest', item bs' = .ok (a, rest') := by
  -- By induction on the number of items still to be read.
  induction count generalizing bs as with
  | zero =>
    cases h
    cases ha
  | succ count ih =>
    simp only [takeMany, bind_eq_ok, pure_eq_ok] at h
    obtain ⟨⟨first, rest'⟩, hfirst, ⟨others, rest''⟩, hothers, heq⟩ := h
    cases heq
    rcases List.mem_cons.1 ha with rfl | ha
    · exact ⟨bs, rest', hfirst⟩
    · exact ih hothers ha

/-- Whatever a counted run of items answers, the item reader has answered. -/
theorem exists_of_mem_takeCounted {α : Type} {type : DataType}
    {item : Bytes → Except MarshalError (α × Bytes)} {bs : Bytes} {as : List α}
    (h : takeCounted type item bs = .ok as) {a : α} (ha : a ∈ as) :
    ∃ bs' rest', item bs' = .ok (a, rest') := by
  simp only [takeCounted, bind_eq_ok] at h
  obtain ⟨⟨count, rest⟩, -, ⟨items, rest'⟩, hitems, hrest⟩ := h
  split at hrest
  · cases hrest
    exact exists_of_mem_takeMany hitems ha
  · cases hrest

private theorem isNative_of_unpackSimple {type : DataType} (htype : type.isSimple = true)
    {bs : Bytes} {w : Value} (h : unpackSimple type bs = .ok w) : isNative type w = true := by
  -- Texts and UUIDs are read by several types.
  have htext {w : Value} (h : unpackText bs = .ok w) : ∃ s, w = .text s := by
    unfold unpackText at h
    split at h
    · next s _ => exact ⟨s, (Except.ok.inj h).symm⟩
    · cases h
  have huuid {w : Value} (h : unpackUuid type bs = .ok w) : ∃ u, w = .uuid u := by
    unfold unpackUuid at h
    split at h
    · next u _ => exact ⟨u, (Except.ok.inj h).symm⟩
    · cases h
  cases type
  case composite | list | map => cases htype
  case bytes =>
    cases h
    rfl
  case ascii =>
    rw [unpackSimple, guard_eq_ok] at h
    obtain ⟨s, rfl⟩ := htext h.2
    rfl
  case utf8 =>
    obtain ⟨s, rfl⟩ := htext h
    rfl
  case lexicalUuid | timeUuid | uuid =>
    obtain ⟨u, rfl⟩ := huuid h
    rfl
  case long | integer | boolean | date | counter =>
    rw [unpackSimple, map_eq_ok] at h
    obtain ⟨bs', -, rfl⟩ := h
    rfl

mutual

/-- Reading back gives the kinds of values that types keep. -/
theorem isNative_of_unpack : ∀ (type : DataType) (bs : Bytes) (w : Value),
    unpack type bs = .ok w → isNative type w = true
  | .composite types, bs, w, h => by
    rw [unpack, map_eq_ok] at h
    obtain ⟨ws, hws, rfl⟩ := h
    exact areNative_of_unpackComponents types.length types bs ws hws
  | .list item, bs, w, h => by
    rw [unpack, map_eq_ok] at h
    obtain ⟨ws, hws, rfl⟩ := h
    rw [isNative, List.all_eq_true]
    intro w hw
    -- Each item was read from a field of its own, where the item type gives its own kind.
    obtain ⟨bs', rest', hitem⟩ := exists_of_mem_takeCounted hws hw
    simp only [bind_eq_ok, pure_eq_ok] at hitem
    obtain ⟨⟨field, rest⟩, -, w', hw', heq⟩ := hitem
    cases heq
    exact isNative_of_unpack item field w hw'
  | .map key value, bs, w, h => by
    rw [unpack, map_eq_ok] at h
    obtain ⟨ws, hws, rfl⟩ := h
    rw [isNative, List.all_eq_true]
    rintro ⟨k, v⟩ hkv
    obtain ⟨bs', rest', hitem⟩ := exists_of_mem_takeCounted hws hkv
    simp only [bind_eq_ok, pure_eq_ok] at hitem
    obtain ⟨⟨field, rest⟩, -, k', hk, ⟨field', rest''⟩, -, v', hv, heq⟩ := hitem
    cases heq
    rw [Bool.and_eq_true]
    exact ⟨isNative_of_unpack key field k hk, isNative_of_unpack value field' v hv⟩
  | .bytes, _, _, h | .ascii, _, _, h | .utf8, _, _, h | .long, _, _, h | .integer, _, _, h
  | .boolean, _, _, h | .date, _, _, h | .lexicalUuid, _, _, h | .timeUuid, _, _, h
  | .uuid, _, _, h | .counter, _, _, h => isNative_of_unpackSimple rfl h

private theorem areNative_of_unpackComponents :
    ∀ (declared : Nat) (types : List DataType) (bs : Bytes)
    (ws : List Value), unpackComponents declared types bs = .ok ws → areNative types ws = true
  | _, [], [], ws, h | _, _ :: _, [], ws, h => by
    cases h
    simp [areNative]
  | _, [], _ :: _, ws, h => by cases h
  | declared, type :: types, b :: bs, ws, h => by
    simp only [unpackComponents, bind_eq_ok, pure_eq_ok] at h
    obtain ⟨⟨field, rest⟩, -, ⟨_, rest'⟩, -, first, hfirst, others, hothers, rfl⟩ := h
    rw [areNative, Bool.and_eq_true]
    exact ⟨isNative_of_unpack type field first hfirst,
      areNative_of_unpackComponents declared types rest' others hothers⟩

end

end WideColumn.DataType
