import WideColumn.Proofs.DataType.OrderLaws

/-!
# Exact decoding

A reader could accept more than the writer writes: bytes behind the end, a length that points past
it, a second form of one value. Only three types have second forms. Any byte but zero reads as true,
a time-based UUID is read whatever its version, and the end bytes of composites are not looked at.
All other types read nothing but what they write.

Each reader is inverted on its own: what it has taken off the front is what the writer puts there.

- `isCanonical`: none of the three types occurs in a type;
- `forall₂_of_takeCounted`: what a counted run of items was read from;
- `pack_of_unpack`: values that were read are written as the bytes they were read from;
- `ExactOn type p`: reading and writing under the type are inverse to each other on the bytes `p`;
- `decoding_exact`: the main result.
-/

namespace WideColumn.DataType

/-! ## Types with one form of each value -/

/-- Whether a type is built without truth values, time-based UUIDs and composites. -/
def isCanonical : DataType → Bool
  | .boolean | .timeUuid | .composite _ => false
  | .list item => isCanonical item
  | .map key value => isCanonical key && isCanonical value
  | _ => true

/-! ## Simple types -/

theorem longBytes_longOf {bs : Bytes} (h : bs.length = 8) : longBytes (longOf bs) = bs := by
  have hlt : Bytes.wordOf bs < 2 ^ 64 := by
    have hword := Bytes.wordOf_lt bs
    rw [h] at hword
    exact hword
  rw [longBytes, longOf, UInt64.toUInt64_toInt64, UInt64.toNat_ofNat', Nat.mod_eq_of_lt hlt, ← h]
  exact Bytes.wordBytes_wordOf bs

/-- A number of four bytes is written back, for it is neither negative nor too large. -/
theorem packSimple_integer {bs : Bytes} (h : bs.length = 4) (ctx : PackContext) :
    packSimple .integer (.long (Int64.ofNat (Bytes.wordOf bs))) ctx = .ok bs := by
  have hlt : Bytes.wordOf bs < UInt32.size := by
    have hword := Bytes.wordOf_lt bs
    rw [h] at hword
    exact hword
  have hnumber : (Int64.ofNat (Bytes.wordOf bs)).toInt = Bytes.wordOf bs :=
    Int64.toInt_ofNat_of_lt (Nat.lt_trans hlt (by decide))
  have hback := Bytes.wordBytes_wordOf bs
  rw [h] at hback
  rw [packSimple, hnumber, if_pos ⟨Int.natCast_nonneg _, Int.ofNat_lt.2 hlt⟩, Int.toNat_natCast,
    hback]

/-- A character whose bytes are below `0x80` is below it itself. -/
theorem all_ascii_of_encode {cs : List Char} (h : (Utf8.encode cs).all (· < 0x80) = true) :
    cs.all (·.toNat < 0x80) = true := by
  simp only [List.all_eq_true, decide_eq_true_eq] at h ⊢
  intro c hc
  by_contra hlong
  -- The last byte of a longer form is a continuation byte.
  have hlast : Utf8.tailByte c.toNat ∈ Utf8.encodePoint c.toNat := by
    rw [Utf8.encodePoint, if_neg hlong]
    split_ifs <;> simp
  have hlt := UInt8.lt_iff_toNat_lt.1 (h _ (List.mem_flatMap.2 ⟨c, hc, hlast⟩))
  rw [Utf8.toNat_tailByte] at hlt
  exact absurd hlt (Nat.not_lt.2 (Nat.le_add_right 0x80 _))

/-- A text that was read is written as its characters. -/
theorem exists_of_unpackText {bs : Bytes} {v : Value} (h : unpackText bs = .ok v) :
    ∃ cs, (∀ type, textFor type v = .ok cs) ∧ Utf8.encode cs = bs := by
  rw [unpackText] at h
  split at h
  · next s hs =>
    cases h
    exact ⟨s.toList, fun _ => rfl, Utf8.bytesOf_of_textOf hs⟩
  · cases h

/-- Sixteen bytes that were read are a UUID of these bytes. -/
theorem exists_of_unpackUuid {type : DataType} {bs : Bytes} {v : Value}
    (h : unpackUuid type bs = .ok v) : ∃ u, (∀ type, uuidFor type v = .ok u) ∧ u.bytes = bs := by
  rw [unpackUuid] at h
  split at h
  · next u hu =>
    cases h
    rw [Uuid.ofBytes?] at hu
    split at hu
    · cases hu
      exact ⟨_, fun _ => rfl, rfl⟩
    · cases hu
  · cases h

theorem map_exactly_eq_ok {type : DataType} {width : Nat} {value : Bytes → Value} {bs : Bytes}
    {v : Value} : value <$> exactly type width bs = .ok v ↔ bs.length = width ∧ value bs = v := by
  simp only [map_eq_ok, exactly, guard_eq_ok, Except.ok.injEq]
  constructor
  · rintro ⟨_, ⟨hlen, rfl⟩, hv⟩
    exact ⟨hlen, hv⟩
  · rintro ⟨hlen, hv⟩
    exact ⟨bs, ⟨hlen, rfl⟩, hv⟩

/-- The types without parameters write what they have read. -/
theorem packSimple_of_unpackSimple {type : DataType} (htype : type.isCanonical = true)
    (hsimple : type.isSimple = true) {bs : Bytes} {v : Value} (h : unpackSimple type bs = .ok v)
    (ctx : PackContext) : packSimple type v ctx = .ok bs := by
  -- A canonical simple type leaves one form only for each value that it reads.
  cases type
  case composite | list | map => cases hsimple
  case boolean | timeUuid => cases htype
  case bytes =>
    cases h
    rfl
  case ascii =>
    rw [unpackSimple, guard_eq_ok] at h
    obtain ⟨cs, hcs, rfl⟩ := exists_of_unpackText h.2
    simp only [packSimple, hcs, ok_bind]
    rw [if_pos (all_ascii_of_encode h.1)]
  case utf8 =>
    obtain ⟨cs, hcs, rfl⟩ := exists_of_unpackText h
    simp only [packSimple, hcs]
    rfl
  case long | counter | date =>
    obtain ⟨hlen, rfl⟩ := map_exactly_eq_ok.1 h
    exact congrArg Except.ok (longBytes_longOf hlen)
  case integer =>
    obtain ⟨hlen, rfl⟩ := map_exactly_eq_ok.1 h
    exact packSimple_integer hlen ctx
  case lexicalUuid | uuid =>
    obtain ⟨u, hu, rfl⟩ := exists_of_unpackUuid h
    simp only [packSimple, hu]
    rfl

/-! ## Fields -/

section Items

variable {α β : Type} {item : Bytes → Except MarshalError (α × Bytes)} {reads : β → α → Prop}
  {write : β → Bytes} {bs : Bytes} {xs : List α}

/-- Items that are read one after the other are read from as many parts, one behind the other. -/
theorem forall₂_of_takeMany
    (hitem : ∀ bs x rest, item bs = .ok (x, rest) → ∃ part, reads part x ∧ bs = write part ++ rest)
    {count : Nat} {rest : Bytes} (h : takeMany item count bs = .ok (xs, rest)) :
    xs.length = count ∧ ∃ parts, List.Forall₂ reads parts xs ∧
    bs = parts.flatMap write ++ rest := by
  -- By induction on the number of items: the part of each one is in front of the others.
  induction count generalizing bs xs with
  | zero =>
    cases h
    exact ⟨rfl, [], .nil, rfl⟩
  | succ count ih =>
    simp only [takeMany, bind_eq_ok, pure_eq_ok, Prod.mk.injEq] at h
    obtain ⟨⟨first, behind⟩, hfirst, ⟨others, _⟩, hothers, rfl, rfl⟩ := h
    obtain ⟨part, hpart, rfl⟩ := hitem _ _ _ hfirst
    obtain ⟨rfl, parts, hparts, rfl⟩ := ih hothers
    exact ⟨rfl, part :: parts, .cons hpart hparts, by rw [List.flatMap_cons, List.append_assoc]⟩

/-- Counted items use up all bytes, and the count is the number of items. -/
theorem forall₂_of_takeCounted {type : DataType}
    (hitem : ∀ bs x rest, item bs = .ok (x, rest) → ∃ part, reads part x ∧ bs = write part ++ rest)
    (h : takeCounted type item bs = .ok xs) :
    xs.length ≤ maxShort ∧ ∃ parts, List.Forall₂ reads parts xs ∧
      bs = Bytes.wordBytes 2 xs.length ++ parts.flatMap write := by
  simp only [takeCounted, bind_eq_ok] at h
  obtain ⟨⟨count, behind⟩, hcount, ⟨items, rest⟩, hmany, h⟩ := h
  split at h
  -- Nothing may stand behind the items that were counted.
  · next hrest =>
    cases h
    rw [List.isEmpty_iff] at hrest
    subst hrest
    obtain ⟨rfl, hmax⟩ := append_of_takeWord hcount
    obtain ⟨rfl, parts, hparts, rfl⟩ := forall₂_of_takeMany hitem hmany
    exact ⟨hmax, parts, hparts, by rw [List.append_nil]⟩
  · cases h

/-- Items that can be written are written as the bytes they were read from. -/
theorem mapM_of_takeCounted {type : DataType} {write : α → Except MarshalError Bytes}
    (hitem : ∀ bs x rest, item bs = .ok (x, rest) → ∃ part, write x = .ok part ∧ bs = part ++ rest)
    (h : takeCounted type item bs = .ok xs) :
    xs.length ≤ maxShort ∧
      ∃ parts, xs.mapM write = .ok parts ∧ bs = Bytes.wordBytes 2 xs.length ++ parts.flatten := by
  obtain ⟨hmax, parts, hparts, hbs⟩ :=
    @forall₂_of_takeCounted α Bytes item (fun part x => write x = .ok part) id bs xs type hitem h
  exact ⟨hmax, parts, mapM_eq_ok_iff.2 hparts, by rw [hbs, List.flatMap_id]⟩

end Items

/-- A field that was read is written as an element. -/
theorem element_of_takeField {type : DataType} (type' : DataType) {bs field rest : Bytes}
    (h : takeField type bs = .ok (field, rest)) :
    element type' field = .ok (Bytes.shortField field) ∧ bs = Bytes.shortField field ++ rest := by
  obtain ⟨hbs, hlen⟩ := append_of_takeField h
  exact ⟨if_pos hlen, hbs⟩

/-! ## All types -/

/-- Packs a pair of a map. -/
def packPair (key value : DataType) (p : Value × Value) : Except MarshalError Bytes := do
  let k ← element (.map key value) (← pack key p.1 .value)
  let v ← element (.map key value) (← pack value p.2 .value)
  return k ++ v

/-- A map is written as its count and its pairs. -/
theorem pack_map (key value : DataType) (pairs : List (Value × Value)) (ctx : PackContext) :
    pack (.map key value) (.map pairs) ctx = do
      let count ← countWord (.map key value) pairs.length
      let items ← pairs.mapM (packPair key value)
      return count ++ items.flatten := by
  rw [pack]
  rfl

/-- A type without truth values, time-based UUIDs and composites writes what it has read. -/
theorem pack_of_unpack : ∀ {type : DataType}, type.isCanonical = true →
    ∀ {bs : Bytes} {v : Value}, unpack type bs = .ok v → ∀ ctx, pack type v ctx = .ok bs
  | .list item, htype, bs, v, h, ctx => by
    rw [unpack, map_eq_ok] at h
    obtain ⟨vs, hvs, rfl⟩ := h
    have hitems := @mapM_of_takeCounted _ _ _ _ _
      (fun v => do element (.list item) (← pack item v .value)) ?_ hvs
    · obtain ⟨hmax, parts, hparts, rfl⟩ := hitems
      have hcount : countWord (.list item) vs.length = .ok (Bytes.wordBytes 2 vs.length) :=
        if_pos hmax
      simp only [pack, hcount, hparts, ok_bind]
      rfl
    · intro bs v rest hv
      simp only [bind_eq_ok, pure_eq_ok, Prod.mk.injEq] at hv
      obtain ⟨⟨field, _⟩, hfield, _, hread, rfl, rfl⟩ := hv
      obtain ⟨helement, hbs⟩ := element_of_takeField (.list item) hfield
      refine ⟨_, ?_, hbs⟩
      rw [@pack_of_unpack item htype _ _ hread .value]
      exact helement
  | .map key value, htype, bs, v, h, ctx => by
    rw [isCanonical, Bool.and_eq_true] at htype
    rw [unpack, map_eq_ok] at h
    obtain ⟨pairs, hpairs, rfl⟩ := h
    have hitems := @mapM_of_takeCounted _ _ _ _ _ (packPair key value) ?_ hpairs
    · obtain ⟨hmax, parts, hparts, rfl⟩ := hitems
      have hcount : countWord (.map key value) pairs.length =
          .ok (Bytes.wordBytes 2 pairs.length) :=
        if_pos hmax
      rw [pack_map, hcount, hparts, ok_bind, ok_bind]
      rfl
    · rintro bs ⟨k, v⟩ rest hkv
      simp only [bind_eq_ok, pure_eq_ok, Prod.mk.injEq] at hkv
      obtain ⟨⟨keyField, _⟩, hkeyField, _, hkey, ⟨valueField, _⟩, hvalueField, _, hvalue,
        ⟨rfl, rfl⟩, rfl⟩ := hkv
      -- A pair is two fields, one behind the other.
      obtain ⟨hkeyElement, rfl⟩ := element_of_takeField (.map key value) hkeyField
      obtain ⟨hvalueElement, rfl⟩ := element_of_takeField (.map key value) hvalueField
      have hkey' := pack_of_unpack htype.1 hkey .value
      have hvalue' := pack_of_unpack htype.2 hvalue .value
      refine ⟨Bytes.shortField keyField ++ Bytes.shortField valueField, ?_,
        (List.append_assoc ..).symm⟩
      simp only [packPair, hkey', hvalue', hkeyElement, hvalueElement, ok_bind]
      rfl
  | .bytes, htype, _, _, h, ctx | .ascii, htype, _, _, h, ctx | .utf8, htype, _, _, h, ctx
  | .long, htype, _, _, h, ctx | .integer, htype, _, _, h, ctx | .date, htype, _, _, h, ctx
  | .lexicalUuid, htype, _, _, h, ctx | .uuid, htype, _, _, h, ctx
  | .counter, htype, _, _, h, ctx => packSimple_of_unpackSimple htype rfl h ctx

/-! ## Composites -/

/-- Frames of declared types whose end bytes are zero are what packing their values as components
writes. -/
theorem packComponents_of_reads : ∀ {types : List DataType} {fs : List Frame} {ws : List Value},
    (∀ type ∈ types, type.isCanonical = true) → (∀ f ∈ fs, f.component.length ≤ maxShort) →
    (∀ f ∈ fs, f.endByte = 0) → Reads types fs ws →
    ∀ index, packComponents types index ws .value = .ok (fs.flatMap Frame.bytes)
  | [], [], [], _, _, _, _, _ | _ :: _, [], [], _, _, _, _, _ => rfl
  | [], _ :: _, _, _, _, _, h, _ | _ :: _, [], _ :: _, _, _, _, h, _
  | _ :: _, _ :: _, [], _, _, _, h, _ => h.elim
  | type :: types, ⟨component, endByte⟩ :: fs, w :: ws, htypes, hshort, hends, h, index => by
    have hpack := pack_of_unpack (htypes type List.mem_cons_self) h.1
    have hrest := packComponents_of_reads
      (fun type htype => htypes type (List.mem_cons_of_mem _ htype))
      (fun f hf => hshort f (List.mem_cons_of_mem _ hf))
      (fun f hf => hends f (List.mem_cons_of_mem _ hf)) h.2 (index + 1)
    have hend : endByte = 0 := hends _ List.mem_cons_self
    subst hend
    have hframe : frame index component 0 = .ok (Frame.bytes ⟨component, 0⟩) :=
      if_pos (hshort _ List.mem_cons_self)
    -- Inside a value all end bytes are zero.
    have hvalue : PackContext.value.endOfComponent = 0 := rfl
    simp only [packComponents, hpack, hvalue, ite_self, hframe, hrest, ok_bind]
    rfl

/-- Bytes that a composite type has read are frames, no more of them than types, and nothing
else. -/
theorem frames_of_unpack {types : List DataType} {bs : Bytes} {v : Value}
    (h : unpack (.composite types) bs = .ok v) :
    bs = (framesOf bs).flatMap Frame.bytes ∧ (framesOf bs).length ≤ types.length ∧
      (∀ f ∈ framesOf bs, f.component.length ≤ maxShort) ∧
      ∃ ws, v = .composite ws ∧ Reads types (framesOf bs) ws := by
  rw [unpack, map_eq_ok] at h
  obtain ⟨ws, hws, rfl⟩ := h
  obtain ⟨fs, hfs, hreads⟩ := exists_frames_of_unpackComponents types types.length bs ws hws
  rw [framesOf_of_frames hfs]
  exact ⟨eq_flatMap_of_frames hfs, hreads.length_le, length_component_of_frames hfs, ws,
    rfl, hreads⟩

/-- Bytes whose frames all end with zero, and there is a frame. -/
def ZeroEnded (bs : Bytes) : Prop :=
  bs ≠ [] ∧ ∀ f ∈ framesOf bs, f.endByte = 0

private theorem Framed.endByte_eq_zero {ctx : PackContext} (hctx : ctx.sliceEnd = .exact)
    {types : List DataType} {vs : List Value} {fs : List Frame} (h : Framed ctx types vs fs) :
    ∀ f ∈ fs, f.endByte = 0 := by
  induction h with
  | nil => nofun
  | cons _ hend _ ih =>
    rintro f (_ | ⟨_, hf⟩)
    · rw [hend, endOfComponent_of_exact hctx, ite_self]
    · exact ih f hf

/-- Keys, names and values of several components end each of them with zero. -/
theorem zeroEnded_of_pack {types : List DataType} {v : Value} {ctx : PackContext} {bs : Bytes}
    (hctx : ctx.sliceEnd = .exact) (h : pack (.composite types) v ctx = .ok bs) : ZeroEnded bs := by
  obtain ⟨vs, fs, -, hfs, hframed, hnil⟩ := exists_framed_of_pack h
  refine ⟨?_, framesOf_of_frames hfs ▸ hframed.endByte_eq_zero hctx⟩
  rintro rfl
  -- Nothing is written for no components only, and these are refused outside of slices.
  rw [frames_nil] at hfs
  cases fs with
  | nil =>
    cases hframed
    exact hnil rfl hctx
  | cons f fs => cases hfs

/-- A composite type writes what it has read if the end bytes were zero. -/
theorem pack_composite_of_unpack {types : List DataType}
    (htypes : ∀ type ∈ types, type.isCanonical = true) {bs : Bytes}
    (hends : ZeroEnded bs) {v : Value}
    (h : unpack (.composite types) bs = .ok v) : pack (.composite types) v .value = .ok bs := by
  obtain ⟨hbs, hlen, hshort, ws, rfl, hreads⟩ := frames_of_unpack h
  have hcomponents := packComponents_of_reads htypes hshort hends.2 hreads 0
  rw [← hbs] at hcomponents
  have hsame := hreads.length_eq
  cases ws with
  | nil =>
    -- Without components there was no frame, and then there was no byte.
    rw [List.eq_nil_of_length_eq_zero hsame.symm] at hbs
    exact absurd hbs hends.1
  | cons w ws =>
    rw [pack, guard_eq_ok]
    · exact ⟨hsame ▸ hlen, hcomponents⟩
    · exact List.cons_ne_nil w ws

/-! ## Main result -/

/-- Reading and writing under a type are inverse to each other on the bytes that satisfy `p`. -/
structure ExactOn (type : DataType) (p : Bytes → Prop) : Prop where
  /-- What was read is written as the bytes it was read from. -/
  pack_of_unpack : ∀ bs v, p bs → unpack type bs = .ok v → pack type v .value = .ok bs
  /-- The bytes that are read are those that are written. -/
  written_iff : ∀ bs, (∃ v, pack type v .value = .ok bs) ↔ Accepts type bs ∧ p bs
  /-- Different bytes are never read as one value. -/
  eq_of_unpack : ∀ a b v, p a → p b → unpack type a = .ok v → unpack type b = .ok v → a = b

private theorem ExactOn.of_pack {type : DataType} {p : Bytes → Prop}
    (hread : ∀ bs v, p bs → unpack type bs = .ok v → pack type v .value = .ok bs)
    (hwritten : ∀ bs v, pack type v .value = .ok bs → p bs) : ExactOn type p where
  pack_of_unpack := hread
  written_iff bs := by
    constructor
    · rintro ⟨v, hv⟩
      exact ⟨accepts_of_pack hv, hwritten bs v hv⟩
    · rintro ⟨⟨v, hv⟩, hp⟩
      exact ⟨v, hread bs v hp hv⟩
  eq_of_unpack a b v hpa hpb ha hb := by
    have hpack := hread a v hpa ha
    rw [hread b v hpb hb] at hpack
    exact (Except.ok.inj hpack).symm

/-- Types without truth values, time-based UUIDs and composites read exactly what they write, at any
depth of lists and maps. Composites of such types do so where all end bytes are zero. And whatever
its component types are, a composite type reads nothing but complete frames, at most one for each
type. -/
theorem decoding_exact :
    (∀ type, isCanonical type = true → ExactOn type fun _ => True) ∧
    (∀ types, (∀ type ∈ types, isCanonical type = true) → ExactOn (.composite types) ZeroEnded) ∧
    ∀ types bs v, unpack (.composite types) bs = .ok v →
      bs = (framesOf bs).flatMap Frame.bytes ∧ (framesOf bs).length ≤ types.length ∧
        (∀ f ∈ framesOf bs, f.component.length ≤ maxShort) ∧
        ∃ ws, v = .composite ws ∧ Reads types (framesOf bs) ws := by
  refine ⟨fun type htype => ?_, fun types htypes => ?_, fun types bs v h => frames_of_unpack h⟩
  · exact .of_pack (fun bs v _ h => pack_of_unpack htype h .value) fun _ _ _ => trivial
  · exact .of_pack (fun bs v hends h => pack_composite_of_unpack htypes hends h)
      fun bs v h => zeroEnded_of_pack rfl h

/-- A list of maps, and a composite with one of its two components. -/
theorem decoding_exact_nested :
    (list (.map .utf8 .integer)).pack (.list [.map [(.text "é", .long 7)]]) .value =
        .ok [0, 1, 0, 12, 0, 1, 0, 2, 0xC3, 0xA9, 0, 4, 0, 0, 0, 7] ∧
      (composite [.list .utf8, .long]).pack (.composite [.list [.text "a"]]) .value =
        .ok [0, 5, 0, 1, 0, 1, 97, 0] ∧
      [0, 5, 0, 1, 0, 1, 97, 0] = Frame.bytes ⟨[0, 1, 0, 1, 97], 0⟩ := by
  obtain ⟨hexact, hcomposite, hframes⟩ := decoding_exact
  have hlist : (list (.map .utf8 .integer)).unpack
      [0, 1, 0, 12, 0, 1, 0, 2, 0xC3, 0xA9, 0, 4, 0, 0, 0, 7] =
        .ok (.list [.map [(.text "é", .long 7)]]) := by
    decide +kernel
  have hname : (composite [.list .utf8, .long]).unpack [0, 5, 0, 1, 0, 1, 97, 0] =
      .ok (.composite [.list [.text "a"]]) := by
    decide +kernel
  -- what is inside the component is a list, which the frame does not look into
  have hframe : framesOf [0, 5, 0, 1, 0, 1, 97, 0] = [⟨[0, 1, 0, 1, 97], 0⟩] := by decide +kernel
  have hends : ZeroEnded [0, 5, 0, 1, 0, 1, 97, 0] := by
    rw [ZeroEnded, hframe]
    simp
  refine ⟨(hexact _ (by decide)).pack_of_unpack _ _ trivial hlist,
    (hcomposite _ (by decide)).pack_of_unpack _ _ hends hname, ?_⟩
  have hbytes := (hframes _ _ _ hname).1
  rw [hframe] at hbytes
  simpa using hbytes

end WideColumn.DataType
