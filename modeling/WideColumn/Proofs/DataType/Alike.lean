import WideColumn.Proofs.DataType.Exactness

/-!
# Encodings that read alike

Reading does not look at everything: any byte but zero is a true value, and the end bytes of
composites are skipped. So one value may be read from several encodings, but these differ in nothing
else, and only one of them is what packing the value writes.

- `Alike type a b`: encodings that differ only in bytes that are not looked at, at any depth;
- `alike_of_unpack`: encodings that read as one value are alike;
- `isFaithful` and `eq_of_alike`: without truth values and composites all bytes are looked at;
- `Plain` and `eq_of_plain`: encodings among which no two read as one value.
-/

namespace WideColumn.DataType

/-! ## Alike encodings -/

/-- Bytes are a count and fields, and the lengths of the fields and the count fit in their two
bytes. -/
structure Counted (bs : Bytes) (count : Nat) (fields : List Bytes) : Prop where
  count_le : count ≤ maxShort
  length_le : ∀ field ∈ fields, field.length ≤ maxShort
  bytes : bs = Bytes.wordBytes 2 count ++ fields.flatMap Bytes.shortField

/-- The fields of pairs, each pair a key and a value. -/
def pairFields (pairs : List (Bytes × Bytes)) : List Bytes := pairs.flatMap fun p => [p.1, p.2]

mutual

/-- Two encodings of a type differ in nothing but bytes of true values and end bytes of
composites. -/
def Alike : DataType → Bytes → Bytes → Prop
  | .boolean, a, b => ∃ x y, a = [x] ∧ b = [y] ∧ (x = 0 ↔ y = 0)
  | .composite types, a, b => ∃ fs gs : List Frame, frames a = fs.map some ∧
      frames b = gs.map some ∧
      AlikeFrames types fs gs
  | .list item, a, b => ∃ xs ys, Counted a xs.length xs ∧ Counted b ys.length ys ∧
      List.Forall₂ (Alike item) xs ys
  | .map key value, a, b => ∃ xs ys, Counted a xs.length (pairFields xs) ∧
      Counted b ys.length (pairFields ys) ∧
      List.Forall₂ (fun p q => Alike key p.1 q.1 ∧ Alike value p.2 q.2) xs ys
  | _, a, b => a = b

/-- The components of frames are alike, one by one, whatever their end bytes are. -/
def AlikeFrames : List DataType → List Frame → List Frame → Prop
  | _, [], [] => True
  | type :: types, f :: fs, g :: gs => Alike type f.component g.component ∧ AlikeFrames types fs gs
  | _, _, _ => False

end

/-! ## Reading one value -/

/-- Of the types without parameters only truth values are read from different bytes. -/
theorem eq_of_unpackSimple {type : DataType} {a b : Bytes} {v : Value}
    (ha : unpackSimple type a = .ok v) (hb : unpackSimple type b = .ok v)
    (hsimple : type.isSimple = true) (hne : type ≠ .boolean) : a = b := by
  by_cases htime : type = .timeUuid
  · -- Not every UUID can be written as a time-based one, but all are read byte for byte.
    subst htime
    obtain ⟨u, hu, rfl⟩ := exists_of_unpackUuid ha
    obtain ⟨u', hu', rfl⟩ := exists_of_unpackUuid hb
    cases (hu .timeUuid).symm.trans (hu' .timeUuid)
    rfl
  · -- any other simple type writes what it reads, so both are what the value packs to
    have htype : type.isCanonical = true := by
      cases type <;> first | rfl | contradiction
    have hpack := packSimple_of_unpackSimple htype hsimple ha .value
    rw [packSimple_of_unpackSimple htype hsimple hb .value] at hpack
    exact (Except.ok.inj hpack).symm

private theorem alike_boolean {a b : Bytes} {v : Value} (ha : unpackSimple .boolean a = .ok v)
    (hb : unpackSimple .boolean b = .ok v) : Alike .boolean a b := by
  obtain ⟨hlen, rfl⟩ := map_exactly_eq_ok.1 ha
  obtain ⟨hlen', hsame⟩ := map_exactly_eq_ok.1 hb
  obtain ⟨x, rfl⟩ := List.length_eq_one_iff.1 hlen
  obtain ⟨y, rfl⟩ := List.length_eq_one_iff.1 hlen'
  refine ⟨x, y, rfl, rfl, ?_⟩
  simp only [List.any_cons, List.any_nil, Bool.or_false, Value.boolean.injEq] at hsame
  by_cases hx : x = 0 <;> by_cases hy : y = 0 <;> simp_all

/-- Lists that are related to one list, item by item, are related to each other. -/
theorem forall₂_of_common {α β γ : Type} {R : β → α → Prop} {S : γ → α → Prop} {T : β → γ → Prop}
    (h : ∀ x y z, R x z → S y z → T x y) {xs : List β} {ys : List γ} {zs : List α}
    (hxs : List.Forall₂ R xs zs) : List.Forall₂ S ys zs → List.Forall₂ T xs ys := by
  induction hxs generalizing ys with
  | nil =>
    rintro ⟨⟩
    exact .nil
  | cons hx _ ih =>
    intro hys
    cases hys with
    | cons hy hys => exact .cons (h _ _ _ hx hy) (ih hys)

/-- The items of a list are read from fields. -/
theorem exists_fields_of_list {item : DataType} {bs : Bytes} {v : Value}
    (h : unpack (.list item) bs = .ok v) :
    ∃ vs fields, v = .list vs ∧ Counted bs fields.length fields ∧
      List.Forall₂ (fun field v => unpack item field = .ok v) fields vs := by
  rw [unpack, map_eq_ok] at h
  obtain ⟨vs, hvs, rfl⟩ := h
  -- The fields were read one after the other, up to the end of the bytes.
  obtain ⟨hmax, fields, hfields, hbs⟩ := @forall₂_of_takeCounted _ _ _
    (fun field v => field.length ≤ maxShort ∧ unpack item field = .ok v) Bytes.shortField _ _ _
    (fun bs v rest hv => by
      simp only [bind_eq_ok, pure_eq_ok, Prod.mk.injEq] at hv
      obtain ⟨⟨field, _⟩, hfield, _, hread, rfl, rfl⟩ := hv
      obtain ⟨hbs, hlen⟩ := append_of_takeField hfield
      exact ⟨field, ⟨hlen, hread⟩, hbs⟩) hvs
  rw [← hfields.length_eq] at hmax hbs
  obtain ⟨hlengths, hread⟩ := (List.forall₂_and_left _ _).1 hfields
  exact ⟨vs, fields, rfl, ⟨hmax, hlengths, hbs⟩, hread⟩

/-- The pairs of a map are read from two fields each. -/
theorem exists_fields_of_map {key value : DataType} {bs : Bytes} {v : Value}
    (h : unpack (.map key value) bs = .ok v) :
    ∃ vs pairs, v = .map vs ∧ Counted bs pairs.length (pairFields pairs) ∧
      List.Forall₂ (fun p v => unpack key p.1 = .ok v.1 ∧ unpack value p.2 = .ok v.2) pairs vs := by
  rw [unpack, map_eq_ok] at h
  obtain ⟨vs, hvs, rfl⟩ := h
  -- Each pair was read as two fields.
  obtain ⟨hmax, pairs, hpairs, hbs⟩ := @forall₂_of_takeCounted _ _ _
    (fun (p : Bytes × Bytes) (v : Value × Value) =>
      (p.1.length ≤ maxShort ∧ p.2.length ≤ maxShort) ∧
      unpack key p.1 = .ok v.1 ∧ unpack value p.2 = .ok v.2)
    (fun p => [p.1, p.2].flatMap Bytes.shortField) _ _ _
    (fun bs v rest hv => by
      simp only [bind_eq_ok, pure_eq_ok, Prod.mk.injEq] at hv
      obtain ⟨⟨keyField, _⟩, hkeyField, _, hkey, ⟨valueField, _⟩, hvalueField, _, hvalue,
          rfl, rfl⟩ := hv
      obtain ⟨rfl, hkeyLength⟩ := append_of_takeField hkeyField
      obtain ⟨rfl, hvalueLength⟩ := append_of_takeField hvalueField
      exact ⟨(keyField, valueField), ⟨⟨hkeyLength, hvalueLength⟩, hkey, hvalue⟩, by simp⟩) hvs
  rw [← hpairs.length_eq] at hmax hbs
  obtain ⟨hlengths, hread⟩ := (List.forall₂_and_left _ _).1 hpairs
  refine ⟨vs, pairs, rfl, ⟨hmax, fun field hfield => ?_, ?_⟩, hread⟩
  · obtain ⟨p, hp, hfield⟩ := List.mem_flatMap.1 hfield
    obtain ⟨hkeyLength, hvalueLength⟩ := hlengths p hp
    simp only [List.mem_cons, List.not_mem_nil, or_false] at hfield
    rcases hfield with rfl | rfl
    · exact hkeyLength
    · exact hvalueLength
  · rw [hbs, pairFields, List.flatMap_assoc]

mutual

/-- Encodings that read as one value are alike. -/
theorem alike_of_unpack : ∀ (type : DataType) {a b : Bytes} {v : Value}, unpack type a = .ok v →
    unpack type b = .ok v → Alike type a b
  | .composite types, a, b, v, ha, hb => by
    rw [unpack, map_eq_ok] at ha hb
    obtain ⟨ws, ha, rfl⟩ := ha
    obtain ⟨_, hb, heq⟩ := hb
    cases heq
    -- Both are read frame by frame, and frames at one place read as the same value.
    obtain ⟨fs, hfs, hreads⟩ := exists_frames_of_unpackComponents types types.length a ws ha
    obtain ⟨gs, hgs, hreads'⟩ := exists_frames_of_unpackComponents types types.length b ws hb
    exact ⟨fs, gs, hfs, hgs, alikeFrames_of_reads types hreads hreads'⟩
  | .list item, a, b, v, ha, hb => by
    obtain ⟨vs, xs, rfl, hxs, hread⟩ := exists_fields_of_list ha
    obtain ⟨_, ys, heq, hys, hread'⟩ := exists_fields_of_list hb
    cases heq
    refine ⟨xs, ys, hxs, hys, forall₂_of_common (fun _ _ _ hx hy => ?_) hread hread'⟩
    exact alike_of_unpack item hx hy
  | .map key value, a, b, v, ha, hb => by
    obtain ⟨vs, xs, rfl, hxs, hread⟩ := exists_fields_of_map ha
    obtain ⟨_, ys, heq, hys, hread'⟩ := exists_fields_of_map hb
    cases heq
    refine ⟨xs, ys, hxs, hys, forall₂_of_common (fun _ _ _ hx hy => ?_) hread hread'⟩
    exact ⟨alike_of_unpack key hx.1 hy.1, alike_of_unpack value hx.2 hy.2⟩
  | .boolean, _, _, _, ha, hb => alike_boolean ha hb
  | .bytes, _, _, _, ha, hb | .ascii, _, _, _, ha, hb | .utf8, _, _, _, ha, hb
  | .long, _, _, _, ha, hb | .integer, _, _, _, ha, hb | .date, _, _, _, ha, hb
  | .lexicalUuid, _, _, _, ha, hb | .timeUuid, _, _, _, ha, hb | .uuid, _, _, _, ha, hb
  | .counter, _, _, _, ha, hb => eq_of_unpackSimple ha hb rfl nofun

/-- Frames whose components read as the same values are alike. -/
theorem alikeFrames_of_reads : ∀ (types : List DataType) {fs gs : List Frame} {ws : List Value},
    Reads types fs ws → Reads types gs ws → AlikeFrames types fs gs
  | [], [], [], _, _, _ | _ :: _, [], [], _, _, _ => trivial
  | [], _ :: _, _, _, h, _ | _ :: _, _ :: _, _, [], h, _ => h.elim
  | [], [], _ :: _, [], _, h | _ :: _, [], _ :: _, [], _, h | _ :: _, _ :: _, [], _ :: _, _, h =>
    h.elim
  | type :: types, _ :: _, _ :: _, _ :: _, h, h' =>
    ⟨alike_of_unpack type h.1 h'.1, alikeFrames_of_reads types h.2 h'.2⟩

end

/-! ## Encodings with one reading -/

/-- Whether neither truth values nor composites occur in a type: all bytes of its encodings are
looked at. -/
def isFaithful : DataType → Bool
  | .boolean | .composite _ => false
  | .list item => isFaithful item
  | .map key value => isFaithful key && isFaithful value
  | _ => true

private theorem eq_of_forall₂ {α : Type} {R : α → α → Prop} (h : ∀ x y, R x y → x = y)
    {xs ys : List α} (hxs : List.Forall₂ R xs ys) : xs = ys :=
  List.forall₂_eq_eq_eq ▸ hxs.imp h

theorem Counted.eq {a b : Bytes} {count : Nat} {fields : List Bytes} (ha : Counted a count fields)
    (hb : Counted b count fields) : a = b :=
  ha.bytes.trans hb.bytes.symm

/-- Where all bytes are looked at, alike encodings are the same. -/
theorem eq_of_alike : ∀ {type : DataType}, type.isFaithful = true →
    ∀ {a b : Bytes}, Alike type a b → a = b
  | .list item, htype, a, b, ⟨xs, ys, hxs, hys, halike⟩ => by
    have hitem : item.isFaithful = true := htype
    obtain rfl := eq_of_forall₂ (fun _ _ => eq_of_alike hitem) halike
    exact hxs.eq hys
  | .map key value, htype, a, b, ⟨xs, ys, hxs, hys, halike⟩ => by
    rw [isFaithful, Bool.and_eq_true] at htype
    obtain rfl := eq_of_forall₂ (fun p q h =>
      Prod.ext (eq_of_alike htype.1 h.1) (eq_of_alike htype.2 h.2)) halike
    exact hxs.eq hys
  | .bytes, _, _, _, h | .ascii, _, _, _, h | .utf8, _, _, _, h | .long, _, _, _, h
  | .integer, _, _, _, h | .date, _, _, _, h | .lexicalUuid, _, _, _, h | .timeUuid, _, _, _, h
  | .uuid, _, _, _, h | .counter, _, _, _, h => h

/-- An encoding is written by packing some name, or all its bytes are looked at. -/
def Plain (type : DataType) (bs : Bytes) : Prop :=
  type.isFaithful = true ∨ ∃ v, pack type v .name = .ok bs

/-- No two plain encodings read as one value. -/
theorem eq_of_plain {type : DataType} {a b : Bytes} {v : Value} (ha : Plain type a)
    (hb : Plain type b)
    (hread : unpack type a = .ok v) (hread' : unpack type b = .ok v) : a = b := by
  -- Packing the value that is read gives the packed name again.
  have hback : ∀ {bs : Bytes} {w : Value}, pack type w .name = .ok bs → unpack type bs = .ok v →
      pack type v .name = .ok bs := by
    intro bs w hw hbs
    have hvalue := (unpack_of_pack type w .name bs hw).symm.trans hbs
    rw [← Except.ok.inj hvalue]
    exact pack_coerce type w .name bs rfl hw
  rcases ha with htype | ⟨w, hw⟩
  · exact eq_of_alike htype (alike_of_unpack type hread hread')
  · rcases hb with htype | ⟨w', hw'⟩
    · exact eq_of_alike htype (alike_of_unpack type hread hread')
    · exact Except.ok.inj ((hback hw hread).symm.trans (hback hw' hread'))

end WideColumn.DataType
