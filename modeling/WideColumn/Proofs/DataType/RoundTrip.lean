import WideColumn.Bytes.Word
import WideColumn.Proofs.DataType.Coerce
import WideColumn.Proofs.Text.Utf8

/-!
# Reading back packed values

What was packed reads back as the value that the type keeps, at any depth of nesting.

The writer works through the elements of a value and the reader through the bytes, so each reader is
shown to read off exactly what its writer put in front of any other bytes: words, fields, runs of
items, and the frames of a composite. `unpack_pack` then follows by recursion on the type.
-/

namespace WideColumn.DataType

/-! ## Words and fields -/

theorem takeBytes_append (type : DataType) (a b : Bytes) :
    takeBytes type a.length (a ++ b) = .ok (a, b) := by
  rw [takeBytes, Bytes.takeExact_append]

private theorem takeWord_wordBytes (type : DataType) {n : Nat} (h : n ≤ maxShort) (rest : Bytes) :
    takeWord type (Bytes.wordBytes 2 n ++ rest) = .ok (n, rest) := by
  have hsplit := takeBytes_append type (Bytes.wordBytes 2 n) rest
  rw [Bytes.length_wordBytes] at hsplit
  have hword : Bytes.wordOf (Bytes.wordBytes 2 n) = n := by
    rw [Bytes.wordOf_wordBytes]
    exact Nat.mod_eq_of_lt (Nat.lt_succ_of_le h)
  rw [takeWord, hsplit]
  show Except.ok (Bytes.wordOf (Bytes.wordBytes 2 n), rest) = _
  rw [hword]

private theorem takeField_shortField (type : DataType) {field : Bytes} (h : field.length ≤ maxShort)
    (rest : Bytes) : takeField type (Bytes.shortField field ++ rest) = .ok (field, rest) := by
  -- The length comes first and tells how much of the rest belongs to the field.
  rw [takeField, Bytes.shortField, List.append_assoc, takeWord_wordBytes type h]
  exact takeBytes_append type field rest

private theorem takeField_element (type : DataType) {packed field : Bytes}
    (h : element type packed = .ok field) (rest : Bytes) :
    takeField type (field ++ rest) = .ok (packed, rest) := by
  rw [element, guard_eq_ok] at h
  obtain ⟨hlen, hfield⟩ := h
  cases hfield
  exact takeField_shortField type hlen rest

/-! ## Runs of items -/

variable {α β : Type}

/-- If an item reads back from its bytes, whatever comes behind them, then so does a run of
items. -/
theorem takeMany_mapM {item : Bytes → Except MarshalError (α × Bytes)}
    {write : β → Except MarshalError Bytes} (kept : β → α)
    (h : ∀ x bs rest, write x = .ok bs → item (bs ++ rest) = .ok (kept x, rest)) (xs : List β)
    {fields : List Bytes} (hfields : xs.mapM write = .ok fields) (rest : Bytes) :
    takeMany item xs.length (fields.flatten ++ rest) = .ok (xs.map kept, rest) := by
  -- By induction on the values written: each one read leaves the bytes of the others in front.
  induction xs generalizing fields with
  | nil =>
    rw [List.mapM_nil, pure_eq_ok] at hfields
    subst hfields
    rfl
  | cons x xs ih =>
    simp only [List.mapM_cons, bind_eq_ok, pure_eq_ok] at hfields
    obtain ⟨first, hfirst, others, hothers, rfl⟩ := hfields
    rw [List.flatten_cons, List.append_assoc, List.length_cons, takeMany]
    simp only [h x first _ hfirst, ih hothers, ok_bind]
    rfl

private theorem takeCounted_mapM (type : DataType) {item : Bytes → Except MarshalError (α × Bytes)}
    {write : β → Except MarshalError Bytes} (kept : β → α)
    (h : ∀ x bs rest, write x = .ok bs → item (bs ++ rest) = .ok (kept x, rest)) {xs : List β}
    {count : Bytes} (hcount : countWord type xs.length = .ok count) {fields : List Bytes}
    (hfields : xs.mapM write = .ok fields) :
    takeCounted type item (count ++ fields.flatten) = .ok (xs.map kept) := by
  -- The writer has refused a count that does not fit its word, so the word holds the count itself.
  rw [countWord, guard_eq_ok] at hcount
  obtain ⟨hlen, hcount⟩ := hcount
  cases hcount
  have hmany := takeMany_mapM kept h xs hfields []
  rw [List.append_nil] at hmany
  simp only [takeCounted, takeWord_wordBytes type hlen, hmany, ok_bind]
  rfl

/-! ## Simple types -/

theorem longOf_longBytes (n : Int64) : longOf (longBytes n) = n := by
  have hlt : n.toUInt64.toNat < 256 ^ 8 := n.toUInt64.toNat_lt
  rw [longOf, longBytes, Bytes.wordOf_wordBytes, Nat.mod_eq_of_lt hlt, UInt64.ofNat_toNat]
  exact Int64.toInt64_toUInt64 n

theorem length_longBytes (n : Int64) : (longBytes n).length = 8 :=
  Bytes.length_wordBytes ..

/-- The types of eight bytes read a number back as the kind of value they keep. -/
theorem map_longOf_exactly (type : DataType) (value : Int64 → Value) (n : Int64) :
    (fun bs => value (longOf bs)) <$> exactly type 8 (longBytes n) = .ok (value n) := by
  rw [exactly, if_pos (length_longBytes n)]
  show Except.ok (value (longOf (longBytes n))) = _
  rw [longOf_longBytes]

private theorem ofNat_toNat_toInt {n : Int64} (h : 0 ≤ n.toInt) :
    Int64.ofNat n.toInt.toNat = n := by
  rw [← Int64.ofInt_eq_ofNat, Int.toNat_of_nonneg h, Int64.ofInt_toInt]

/-- A text type accepts a text or its bytes and keeps the text. -/
theorem textOf_textFor {type : DataType} {v : Value} {cs : List Char}
    (h : textFor type v = .ok cs) : coerceText v = .text (String.ofList cs) := by
  cases v <;> simp only [textFor, unexpected, reduceCtorEq] at h
  case text s =>
    cases h
    rw [String.ofList_toList]
    rfl
  case bytes b =>
    split at h
    · next cs' hdecode =>
      cases h
      rw [coerceText, Utf8.textOf, hdecode]
      rfl
    · cases h

private theorem unpackText_encode (cs : List Char) :
    unpackText (Utf8.encode cs) = .ok (.text (String.ofList cs)) := by
  rw [unpackText, Utf8.textOf_encode]

private theorem all_encode_of_ascii {cs : List Char} (h : cs.all (·.toNat < 0x80) = true) :
    (Utf8.encode cs).all (· < 0x80) = true := by
  simp only [List.all_eq_true, decide_eq_true_eq] at h ⊢
  intro b hb
  obtain ⟨c, hc, hb⟩ := List.mem_flatMap.1 hb
  have hlt := h c hc
  rw [Utf8.encodeChar, Utf8.encodePoint, if_pos hlt, List.mem_singleton] at hb
  -- A character below 0x80 is its own byte.
  subst hb
  rw [UInt8.lt_iff_toNat_lt, UInt8.toNat_ofNat']
  show _ < 0x80
  omega

/-- A UUID type accepts a UUID, its text or its bytes and keeps the UUID. -/
theorem coerceUuid_of_uuidFor {type : DataType} {v : Value} {u : Uuid}
    (h : uuidFor type v = .ok u) : coerceUuid v = .uuid u := by
  -- Only UUIDs, texts and bytes can be packed as UUIDs.
  cases v <;> simp only [uuidFor, unexpected, reduceCtorEq] at h
  case uuid =>
    cases h
    rfl
  case text s =>
    split at h
    · next u' hparse =>
      cases h
      rw [coerceUuid, hparse]
    · cases h
  case bytes b =>
    split at h
    · next u' hbytes =>
      cases h
      rw [coerceUuid, hbytes]
    · cases h

private theorem unpackUuid_bytes (type : DataType) (u : Uuid) :
    unpackUuid type u.bytes = .ok (.uuid u) := by
  rw [unpackUuid, Uuid.ofBytes?_bytes]

/-- The UUIDs built for a moment are of version 1. -/
theorem version_ofMicros (micros : Int) (clockSeq : Nat) (node : Bytes) :
    (Uuid.ofMicros micros clockSeq node).version = 1 := by
  have hbyte : (Uuid.ofMicros micros clockSeq node).bytes.getD 6 0 =
      UInt8.ofNat ((0x1000 + Uuid.ticksOfMicros micros / 0x1000000000000 % 0x1000) / 256) := rfl
  rw [Uuid.version, Uuid.versionOf, hbyte, UInt8.toNat_ofNat']
  omega

/-- A moment is kept as the first or the last UUID that carries it. -/
theorem coerceMoment_of_packMoment {v : Value} {micros : Int64}
    (hmoment : momentOf? v = some micros)
    {ctx : PackContext} {bs : Bytes} (h : packMoment micros ctx = .ok bs) :
    ∃ u, coerceMoment ctx.sliceEnd v = .uuid u ∧ u.bytes = bs ∧ u.version = 1 := by
  rw [packMoment] at h
  split at h
  · next hend =>
    cases h
    exact ⟨_, by simp only [coerceMoment, hmoment, hend], rfl, version_ofMicros ..⟩
  · next hend =>
    cases h
    exact ⟨_, by simp only [coerceMoment, hmoment, hend], rfl, version_ofMicros ..⟩
  · cases h

/-- The types without parameters read back what they wrote. -/
theorem unpackSimple_packSimple {type : DataType} (htype : type.isSimple = true) {v : Value}
    {ctx : PackContext} {bs : Bytes} (h : packSimple type v ctx = .ok bs) :
    unpackSimple type bs = .ok (coerceSimple type ctx.sliceEnd v) := by
  -- A kind of value that the type does not take has been refused; any other has known bytes.
  cases type
  case composite | list | map => cases htype
  case bytes =>
    cases v <;> simp only [packSimple, unexpected, reduceCtorEq] at h
    all_goals
      cases h
      rfl
  case ascii =>
    simp only [packSimple, bind_eq_ok, guard_eq_ok] at h
    obtain ⟨cs, hcs, hascii, hbs⟩ := h
    cases hbs
    rw [unpackSimple, if_pos (all_encode_of_ascii hascii), unpackText_encode, coerceSimple,
      textOf_textFor hcs]
  case utf8 =>
    rw [packSimple, map_eq_ok] at h
    obtain ⟨cs, hcs, rfl⟩ := h
    rw [unpackSimple, unpackText_encode, coerceSimple, textOf_textFor hcs]
  case long | counter | date =>
    cases v <;> simp only [packSimple, unexpected, reduceCtorEq] at h
    all_goals
      cases h
      rw [unpackSimple, map_longOf_exactly]
      rfl
  case integer =>
    cases v <;> simp only [packSimple, unexpected, reduceCtorEq] at h
    case long n =>
      rw [guard_eq_ok] at h
      obtain ⟨⟨hlow, hhigh⟩, hbs⟩ := h
      cases hbs
      -- Four bytes hold the number because the writer has checked its range.
      have hlt : n.toInt.toNat < 256 ^ 4 := by
        have : n.toInt < (256 ^ 4 : Nat) := hhigh
        omega
      rw [unpackSimple, exactly, if_pos (Bytes.length_wordBytes ..)]
      show Except.ok (Value.long (Int64.ofNat (Bytes.wordOf (Bytes.wordBytes 4 n.toInt.toNat)))) =
        _
      rw [Bytes.wordOf_wordBytes, Nat.mod_eq_of_lt hlt, ofNat_toNat_toInt hlow]
      rfl
  case boolean =>
    cases v <;> simp only [packSimple, unexpected, reduceCtorEq] at h
    case boolean b =>
      cases h
      cases b <;> rfl
  case lexicalUuid | uuid =>
    rw [packSimple, map_eq_ok] at h
    obtain ⟨u, hu, rfl⟩ := h
    rw [unpackSimple, unpackUuid_bytes, coerceSimple, coerceUuid_of_uuidFor hu]
  case timeUuid =>
    rw [packSimple] at h
    -- A moment becomes a UUID at the end of a slice only; any other value is a UUID in some form.
    split at h
    · next micros hmoment =>
      obtain ⟨u, hu, rfl, -⟩ := coerceMoment_of_packMoment hmoment h
      rw [unpackSimple, unpackUuid_bytes, coerceSimple, hu]
      rfl
    · next hmoment =>
      simp only [bind_eq_ok, guard_eq_ok] at h
      obtain ⟨u, hu, -, hbs⟩ := h
      cases hbs
      have hsame : coerceMoment ctx.sliceEnd v = v := by simp only [coerceMoment, hmoment]
      rw [unpackSimple, unpackUuid_bytes, coerceSimple, hsame, coerceUuid_of_uuidFor hu]

/-! ## Frames -/

/-- A frame in front of other bytes is split into its component and the bytes behind its end. -/
theorem unpackComponents_frame (declared : Nat) (type : DataType) (types : List DataType)
    {index : Nat} {packed first : Bytes} {endByte : UInt8}
    (h : frame index packed endByte = .ok first) (rest : Bytes) :
    unpackComponents declared (type :: types) (first ++ rest) = do
      let v ← unpack type packed
      let vs ← unpackComponents declared types rest
      return v :: vs := by
  rw [frame, guard_eq_ok] at h
  obtain ⟨hlen, hfirst⟩ := h
  cases hfirst
  have hfield := takeField_shortField (.composite []) hlen (endByte :: rest)
  have hend : takeBytes (.composite []) 1 (endByte :: rest) = .ok ([endByte], rest) :=
    takeBytes_append (.composite []) [endByte] rest
  -- The reader stops at the end of the bytes, so it has to see that a frame is not empty.
  have hcons : ∃ b bs, Bytes.shortField packed ++ endByte :: rest = b :: bs :=
    ⟨_, _, rfl⟩
  rw [List.append_assoc, List.singleton_append]
  obtain ⟨b, bs, hbs⟩ := hcons
  rw [hbs] at hfield ⊢
  simp only [unpackComponents, hfield, hend, ok_bind]

/-! ## All types -/

mutual

/-- What was packed reads back as the value that the type keeps. -/
theorem unpack_of_pack : ∀ (type : DataType) (v : Value) (ctx : PackContext) (bs : Bytes),
    pack type v ctx = .ok bs → unpack type bs = .ok (coerce type ctx.sliceEnd v)
  | .composite types, v, ctx, bs, h => by
    cases v <;> simp only [pack, reduceCtorEq] at h
    case composite vs =>
      -- An empty composite writes nothing, and nothing reads back as no components.
      cases vs with
      | nil =>
        simp only [guard_eq_ok] at h
        obtain ⟨-, h⟩ := h
        cases h
        simp [unpack, unpackComponents, coerce, coerceComponents]
      | cons v vs =>
        simp only [guard_eq_ok] at h
        have hparts :=
          unpackComponents_of_packComponents types types.length 0 (v :: vs) ctx bs h.1 h.2
        rw [unpack, hparts, coerce]
        rfl
  | .list item, v, ctx, bs, h => by
    cases v <;> simp only [pack, reduceCtorEq, bind_eq_ok, pure_eq_ok] at h
    case list vs =>
      obtain ⟨count, hcount, fields, hfields, rfl⟩ := h
      -- An item is a field, and the field holds what the item type has packed.
      rw [unpack, takeCounted_mapM _ (coerce item .exact) ?_ hcount hfields, coerce]
      · rfl
      · intro v bs rest hv
        obtain ⟨packed, hpacked, hfield⟩ := bind_eq_ok.1 hv
        simp only [takeField_element _ hfield, ok_bind, unpack_of_pack item v .value packed hpacked]
        rfl
  | .map key value, v, ctx, bs, h => by
    cases v <;> simp only [pack, reduceCtorEq, bind_eq_ok, pure_eq_ok] at h
    case map pairs =>
      obtain ⟨count, hcount, fields, hfields, rfl⟩ := h
      -- A pair is two fields, one behind the other.
      rw [unpack, takeCounted_mapM _ (fun (k, v) => (coerce key .exact k, coerce value .exact v))
        ?_ hcount hfields, coerce]
      · rfl
      · rintro ⟨k, v⟩ bs rest hkv
        simp only [bind_eq_ok, pure_eq_ok] at hkv
        obtain ⟨packedKey, hkey, keyField, hkeyField, packedValue, hvalue, valueField, hvalueField,
          rfl⟩ := hkv
        rw [List.append_assoc]
        have hkey' := unpack_of_pack key k .value packedKey hkey
        have hvalue' := unpack_of_pack value v .value packedValue hvalue
        simp only [takeField_element _ hkeyField, takeField_element _ hvalueField, ok_bind, hkey',
          hvalue']
        rfl
  | .bytes, _, _, _, h | .ascii, _, _, _, h | .utf8, _, _, _, h | .long, _, _, _, h
  | .integer, _, _, _, h | .boolean, _, _, _, h | .date, _, _, _, h | .lexicalUuid, _, _, _, h
  | .timeUuid, _, _, _, h | .uuid, _, _, _, h | .counter, _, _, _, h =>
    unpackSimple_packSimple rfl h

private theorem unpackComponents_of_packComponents :
    ∀ (types : List DataType) (declared index : Nat)
    (vs : List Value) (ctx : PackContext) (bs : Bytes), vs.length ≤ types.length →
    packComponents types index vs ctx = .ok bs →
    unpackComponents declared types bs = .ok (coerceComponents types ctx.sliceEnd vs)
  | types, declared, _, [], ctx, bs, _, h => by
    have hbs : bs = [] := by
      cases types <;> cases h <;> rfl
    subst hbs
    cases types <;> rfl
  | [], _, _, _ :: _, _, _, hlen, _ => absurd hlen (by simp)
  | type :: types, declared, index, v :: vs, ctx, bs, hlen, h => by
    simp only [packComponents, bind_eq_ok, pure_eq_ok] at h
    obtain ⟨packed, hpacked, first, hfirst, rest, hrest, rfl⟩ := h
    have hothers := unpackComponents_of_packComponents types declared (index + 1) vs ctx rest
      (Nat.le_of_succ_le_succ hlen) hrest
    have hvalue := unpack_of_pack type v _ packed hpacked
    -- Only the last component is packed for the use of the whole, the others as exact names.
    rw [unpackComponents_frame declared type types hfirst]
    simp only [hvalue, hothers, ok_bind, coerceComponents, apply_ite PackContext.sliceEnd]
    rfl

end

/-! ## Packing again -/

/-- The value that a type without parameters keeps packs to the same bytes, whatever the use: what
depends on the use is settled when a moment becomes a UUID. -/
theorem packSimple_coerceSimple {type : DataType} (htype : type.isSimple = true) {v : Value}
    {ctx : PackContext} {bs : Bytes} (h : packSimple type v ctx = .ok bs) (ctx' : PackContext) :
    packSimple type (coerceSimple type ctx.sliceEnd v) ctx' = .ok bs := by
  -- The value that is read back is packed by the same branch as the one that was given.
  cases type
  case composite | list | map => cases htype
  case bytes | long | counter | date | integer | boolean =>
    cases v <;> exact h
  case ascii =>
    simp only [packSimple, bind_eq_ok] at h ⊢
    obtain ⟨cs, hcs, hbs⟩ := h
    rw [coerceSimple, textOf_textFor hcs]
    exact ⟨cs, by rw [textFor, String.toList_ofList], hbs⟩
  case utf8 =>
    simp only [packSimple, map_eq_ok] at h ⊢
    obtain ⟨cs, hcs, hbs⟩ := h
    rw [coerceSimple, textOf_textFor hcs]
    exact ⟨cs, by rw [textFor, String.toList_ofList], hbs⟩
  case lexicalUuid | uuid =>
    simp only [packSimple, map_eq_ok] at h ⊢
    obtain ⟨u, hu, hbs⟩ := h
    rw [coerceSimple, coerceUuid_of_uuidFor hu]
    exact ⟨u, rfl, hbs⟩
  case timeUuid =>
    rw [packSimple] at h
    split at h
    · next micros hmoment =>
      -- A moment has become a UUID of version 1, which packs as it is.
      obtain ⟨u, hu, rfl, hversion⟩ := coerceMoment_of_packMoment hmoment h
      rw [coerceSimple, hu]
      exact if_pos hversion
    · next hmoment =>
      obtain ⟨u, hu, hbs⟩ := bind_eq_ok.1 h
      -- A value that is no moment stays as it is.
      have hsame : coerceMoment ctx.sliceEnd v = v := by simp only [coerceMoment, hmoment]
      rw [coerceSimple, hsame, coerceUuid_of_uuidFor hu]
      exact hbs

mutual

/-- The value that a type keeps packs to the same bytes as the value it was given. -/
theorem pack_coerce : ∀ (type : DataType) (v : Value) (ctx : PackContext) (bs : Bytes),
    ctx.sliceEnd = .exact → pack type v ctx = .ok bs → pack type (coerce type .exact v) ctx = .ok bs
  | .composite types, v, ctx, bs, hctx, h => by
    cases v <;> simp only [pack, reduceCtorEq] at h
    case composite vs =>
      cases vs with
      | nil => simpa [coerce, coerceComponents, pack] using h
      | cons v vs =>
        rw [guard_eq_ok] at h
        obtain ⟨hlen, h⟩ := h
        have hparts := packComponents_coerceComponents types 0 (v :: vs) ctx bs hctx hlen h
        cases types with
        | nil => exact absurd hlen (by simp)
        | cons type types =>
          rw [coerce, coerceComponents, pack, guard_eq_ok]
          · refine ⟨?_, hparts⟩
            simpa using hlen
          · exact List.cons_ne_nil _ _
  | .list item, v, ctx, bs, _, h => by
    cases v <;> simp only [pack, reduceCtorEq, bind_eq_ok, pure_eq_ok] at h
    case list vs =>
      obtain ⟨count, hcount, fields, hfields, rfl⟩ := h
      simp only [coerce, pack, bind_eq_ok, pure_eq_ok, List.length_map, List.mapM_map]
      -- Neither the number of items nor the bytes of any of them changes.
      refine ⟨count, hcount, fields, mapM_eq_ok_of_forall ?_ hfields, rfl⟩
      intro v _ field hv
      obtain ⟨packed, hpacked, hfield⟩ := bind_eq_ok.1 hv
      exact bind_eq_ok.2 ⟨packed, pack_coerce item v .value packed rfl hpacked, hfield⟩
  | .map key value, v, ctx, bs, _, h => by
    cases v <;> simp only [pack, reduceCtorEq, bind_eq_ok, pure_eq_ok] at h
    case map pairs =>
      obtain ⟨count, hcount, fields, hfields, rfl⟩ := h
      simp only [coerce, pack, bind_eq_ok, pure_eq_ok, List.length_map, List.mapM_map]
      refine ⟨count, hcount, fields, mapM_eq_ok_of_forall ?_ hfields, rfl⟩
      intro (k, v) _ field hkv
      simp only [bind_eq_ok, pure_eq_ok] at hkv
      obtain ⟨packedKey, hkey, keyField, hkeyField, packedValue, hvalue, hrest⟩ := hkv
      have hkey' := pack_coerce key k .value packedKey rfl hkey
      have hvalue' := pack_coerce value v .value packedValue rfl hvalue
      simp only [Function.comp_apply, bind_eq_ok, pure_eq_ok]
      exact ⟨packedKey, hkey', keyField, hkeyField, packedValue, hvalue', hrest⟩
  | .bytes, _, _, _, hctx, h | .ascii, _, _, _, hctx, h | .utf8, _, _, _, hctx, h
  | .long, _, _, _, hctx, h | .integer, _, _, _, hctx, h | .boolean, _, _, _, hctx, h
  | .date, _, _, _, hctx, h | .lexicalUuid, _, _, _, hctx, h | .timeUuid, _, _, _, hctx, h
  | .uuid, _, _, _, hctx, h | .counter, _, _, _, hctx, h =>
    hctx ▸ packSimple_coerceSimple rfl h _

private theorem packComponents_coerceComponents : ∀ (types : List DataType) (index : Nat)
    (vs : List Value) (ctx : PackContext) (bs : Bytes), ctx.sliceEnd = .exact →
    vs.length ≤ types.length → packComponents types index vs ctx = .ok bs →
    packComponents types index (coerceComponents types .exact vs) ctx = .ok bs
  | types, _, [], ctx, bs, _, _, h => by
    cases types <;> exact h
  | [], _, _ :: _, _, _, _, hlen, _ => absurd hlen (by simp)
  | type :: types, index, v :: vs, ctx, bs, hctx, hlen, h => by
    simp only [packComponents, bind_eq_ok, pure_eq_ok] at h
    obtain ⟨packed, hpacked, first, hfirst, rest, hrest, rfl⟩ := h
    have hexact : (if vs.isEmpty then ctx else PackContext.name).sliceEnd = .exact := by
      split
      · exact hctx
      · rfl
    -- The last component stays the last one.
    have hlast : (coerceComponents types .exact vs).isEmpty = vs.isEmpty := by
      rw [Bool.eq_iff_iff, List.isEmpty_iff_length_eq_zero, length_coerceComponents,
        List.isEmpty_iff_length_eq_zero]
    have hvalue := pack_coerce type v _ packed hexact hpacked
    have hothers := packComponents_coerceComponents types (index + 1) vs ctx rest hctx
      (Nat.le_of_succ_le_succ hlen) hrest
    simp only [coerceComponents, packComponents, hlast, ite_self, hvalue, hothers, hfirst, ok_bind]
    rfl

end

/-! ## The round trip -/

theorem coerceComponents_exact : ∀ (types : List DataType) (vs : List Value),
    vs.length ≤ types.length →
    coerceComponents types .exact vs = List.zipWith (fun type v => coerce type .exact v) types vs
  | [], vs, h => by
    rw [List.eq_nil_of_length_eq_zero (Nat.le_zero.1 h)]
    rfl
  | type :: types, [], _ => rfl
  | type :: types, v :: vs, h => by
    rw [coerceComponents, ite_self, coerceComponents_exact types vs (Nat.le_of_succ_le_succ h)]
    rfl

/-- What was packed as a key, a value or an exact name reads back, and it reads back as the value
that the type keeps: the value itself if it was of the type's kind already. A composite reads back
with the components it was given, however many its type declares. -/
theorem unpack_pack {type : DataType} {v : Value} {ctx : PackContext} {bs : Bytes}
    (hctx : ctx = .value ∨ ctx = .name) (h : type.pack v ctx = .ok bs) :
    ∃ w, type.unpack bs = .ok w ∧ w = type.coerce .exact v ∧ type.pack w ctx = .ok bs ∧
      type.isNative w = true ∧ (type.isNative v = true → w = v) ∧
      ∀ types vs, type = .composite types → v = .composite vs →
        vs.length ≤ types.length ∧
          w = .composite (List.zipWith (fun type v => type.coerce .exact v) types vs) := by
  -- A key, a value or an exact name is not an end of a slice.
  have hexact : ctx.sliceEnd = .exact := by
    rcases hctx with rfl | rfl <;> rfl
  have hread : type.unpack bs = .ok (type.coerce .exact v) :=
    hexact ▸ unpack_of_pack type v ctx bs h
  refine ⟨_, hread, rfl, pack_coerce type v ctx bs hexact h, isNative_of_unpack type bs _ hread,
    coerce_of_isNative type .exact v, ?_⟩
  rintro types vs rfl rfl
  -- The writer has refused more components than declared.
  have hlen : vs.length ≤ types.length := by
    cases vs with
    | nil => exact Nat.zero_le _
    | cons v vs =>
      rw [pack, guard_eq_ok] at h
      · exact h.1
      · exact List.cons_ne_nil v vs
  exact ⟨hlen, by rw [coerce, coerceComponents_exact types vs hlen]⟩

/-- Two of three components, one of them a list: bytes come back as text and small integers as long
ones. -/
theorem unpack_pack_partial :
    (composite [.utf8, .list .long, .uuid]).pack
        (.composite [.bytes [0xC3, 0xA9], .list [.int (-1), .long 5]]) .name =
      .ok [0, 2, 0xC3, 0xA9, 0, 0, 22, 0, 2, 0, 8, 0xFF, 0xFF, 0xFF, 0xFF, 0xFF, 0xFF, 0xFF, 0xFF,
        0, 8, 0, 0, 0, 0, 0, 0, 0, 5, 0] ∧
    (composite [.utf8, .list .long, .uuid]).unpack
        [0, 2, 0xC3, 0xA9, 0, 0, 22, 0, 2, 0, 8, 0xFF, 0xFF, 0xFF, 0xFF, 0xFF, 0xFF, 0xFF, 0xFF,
          0, 8, 0, 0, 0, 0, 0, 0, 0, 5, 0] =
      .ok (.composite [.text "é", .list [.long (-1), .long 5]]) := by
  have hpack : (composite [.utf8, .list .long, .uuid]).pack
      (.composite [.bytes [0xC3, 0xA9], .list [.int (-1), .long 5]]) .name =
        .ok [0, 2, 0xC3, 0xA9, 0, 0, 22, 0, 2, 0, 8, 0xFF, 0xFF, 0xFF, 0xFF, 0xFF, 0xFF, 0xFF, 0xFF,
          0, 8, 0, 0, 0, 0, 0, 0, 0, 5, 0] := by
    decide +kernel
  obtain ⟨w, hw, hcoerce, -⟩ := unpack_pack (.inr rfl) hpack
  -- The UUID was not given and is left out; the number is read as a long.
  refine ⟨hpack, ?_⟩
  rw [hw, hcoerce]
  rfl

end WideColumn.DataType
