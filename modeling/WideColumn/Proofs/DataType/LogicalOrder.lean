import WideColumn.Proofs.Bytes
import WideColumn.Proofs.DataType.TotalOrder

/-!
# The order of values

The order of encodings is the order of the values they stand for: numbers by size, texts and bytes
byte by byte, UUIDs by time where their type says so, and composites component by component.

- `order`: the order of the values of a type;
- `compare_of_pack`: the comparator agrees with it on exact names;
- `eq_of_compare_of_accepts`: bytes that compare equal to an exact name are the same bytes.
-/

namespace WideColumn.DataType

/-! ## The order -/

/-- Orders UUIDs by the moment they carry and then by bytes. -/
def orderTime (u v : Uuid) : Ordering :=
  (Ord.compare (Uuid.ticksOf u.bytes) (Uuid.ticksOf v.bytes)).then (Ord.compare u.bytes v.bytes)

/-- The order of values under a type without parameters. -/
def orderSimple (type : DataType) (v w : Value) : Ordering :=
  match type, v, w with
  | .bytes, .bytes a, .bytes b => Ord.compare a b
  | .ascii, .text s, .text t | .utf8, .text s, .text t =>
    Ord.compare (Utf8.bytesOf s) (Utf8.bytesOf t)
  | .long, .long m, .long n | .counter, .long m, .long n | .integer, .long m, .long n
  | .date, .date m, .date n => Ord.compare m.toInt n.toInt
  | .boolean, .boolean a, .boolean b => Ord.compare a b
  | .lexicalUuid, .uuid u, .uuid v => Ord.compare u.bytes v.bytes
  | .timeUuid, .uuid u, .uuid v => orderTime u v
  | .uuid, .uuid u, .uuid v =>
    (Ord.compare u.version v.version).then
      (if u.version = 1 then orderTime u v else Ord.compare u.bytes v.bytes)
  | _, _, _ => .eq

/-- The bytes that stand for a value; a value without encoding has none. -/
def encoding (type : DataType) (v : Value) : Bytes :=
  match pack type v .value with
  | .ok bs => bs
  | .error _ => []

mutual

/-- The order of the values of a type. Lists and maps are ordered by the bytes that stand for
them. -/
def order (type : DataType) (v w : Value) : Ordering :=
  match type with
  | .composite types =>
    match v, w with
    | .composite vs, .composite ws => orderComponents types vs ws
    | _, _ => .eq
  | .list item => Ord.compare (encoding (.list item) v) (encoding (.list item) w)
  | .map key value => Ord.compare (encoding (.map key value) v) (encoding (.map key value) w)
  | type => orderSimple type v w

/-- The order of components; those that are the beginning of others come first. -/
def orderComponents : List DataType → List Value → List Value → Ordering
  | _, [], [] => .eq
  | _, [], _ :: _ => .lt
  | _, _ :: _, [] => .gt
  | type :: types, v :: vs, w :: ws => (order type v w).then (orderComponents types vs ws)
  | [], _ :: _, _ :: _ => .eq

end

private theorem orderSimple_self (type : DataType) (v : Value) : orderSimple type v v = .eq := by
  unfold orderSimple
  split <;> simp [orderTime]

mutual

/-- A value is neither before nor after itself. -/
theorem order_self : ∀ (type : DataType) (v : Value), order type v v = .eq
  | .composite types, v => by
    cases v <;> simp only [order]
    case composite vs => exact orderComponents_self types vs
  | .list _, v | .map _ _, v => by simp [order]
  | .bytes, v | .ascii, v | .utf8, v | .long, v | .integer, v | .boolean, v | .date, v
  | .lexicalUuid, v | .timeUuid, v | .uuid, v | .counter, v => by
    rw [order]
    · exact orderSimple_self _ v
    all_goals nofun

private theorem orderComponents_self : ∀ (types : List DataType) (vs : List Value),
    orderComponents types vs vs = .eq
  | [], [] | _ :: _, [] | [], _ :: _ => by simp [orderComponents]
  | type :: types, v :: vs => by
    rw [orderComponents, order_self type v, orderComponents_self types vs]
    rfl

end

/-! ## Simple types -/

/-- Integers are ordered like natural numbers that are larger by a fixed amount. -/
theorem compare_eq_of_offset (offset : Int) {p q : Nat} {m n : Int} (hp : (p : Int) = m + offset)
    (hq : (q : Int) = n + offset) : Ord.compare p q = Ord.compare m n := by
  cases h : Ord.compare m n with
  | lt =>
    have hlt : m < n := Std.compare_eq_lt.1 h
    exact Nat.compare_eq_lt.2 (by omega)
  | eq =>
    have heq : m = n := Std.LawfulEqOrd.eq_of_compare h
    exact Nat.compare_eq_eq.2 (by omega)
  | gt =>
    have hgt : n < m := Std.compare_eq_gt.1 h
    exact Nat.compare_eq_gt.2 (by omega)

private theorem exists_longBytes (n : Int64) :
    ∃ first rest, longBytes n = first :: rest ∧ rest.length = 7 ∧
    (Bytes.wordOf ((first ^^^ 0x80) :: rest) : Int) = n.toInt + 0x8000000000000000 := by
  obtain ⟨first, rest, h⟩ : ∃ first rest, longBytes n = first :: rest := ⟨_, _, rfl⟩
  -- The sign is in the first of the eight bytes.
  have hwidth : rest.length = 7 := by
    have hlen := congrArg List.length h
    rw [length_longBytes, List.length_cons] at hlen
    exact (Nat.succ.inj hlen).symm
  exact ⟨first, rest, h, hwidth, Bytes.wordOf_xor_sign hwidth h.symm⟩

private theorem compareSigned_longBytes (m n : Int64) :
    compareSigned (longBytes m) (longBytes n) = Ord.compare m.toInt n.toInt := by
  obtain ⟨first, rest, hm, hwidth, hword⟩ := exists_longBytes m
  obtain ⟨first', rest', hn, hwidth', hword'⟩ := exists_longBytes n
  have hlen : ((first ^^^ 0x80) :: rest).length = ((first' ^^^ 0x80) :: rest').length := by
    rw [List.length_cons, List.length_cons, hwidth, hwidth']
  rw [compareSigned, if_pos ⟨length_longBytes m, length_longBytes n⟩, hm, hn]
  show (Ord.compare (first ^^^ 0x80) (first' ^^^ 0x80)).then (Ord.compare rest rest') = _
  rw [← List.compare_cons_cons, Bytes.compare_eq_compare_wordOf hlen]
  exact compare_eq_of_offset _ hword hword'

theorem compareTime_bytes (u v : Uuid) : Uuid.compareTime u.bytes v.bytes = orderTime u v := by
  rw [Uuid.compareTime, if_pos ⟨u.length_bytes, v.length_bytes⟩, orderTime]

private theorem compare_of_packSimple {type : DataType} (htype : type.isSimple = true) {v w : Value}
    (hv : isNative type v = true) (hw : isNative type w = true) {a b : Bytes}
    (ha : packSimple type v .name = .ok a) (hb : packSimple type w .name = .ok b) :
    compare type a b = orderSimple type v w := by
  -- A value of the kind that its type keeps has one way to be packed, which makes its bytes known.
  cases type
  case composite | list | map => cases htype
  case bytes | utf8 | lexicalUuid =>
    cases v <;> cases hv
    cases w <;> cases hw
    cases ha
    cases hb
    rfl
  case ascii =>
    cases v <;> cases hv
    cases w <;> cases hw
    simp only [packSimple, textFor, ok_bind, guard_eq_ok] at ha hb
    obtain ⟨-, ha⟩ := ha
    obtain ⟨-, hb⟩ := hb
    cases ha
    cases hb
    rfl
  case long | counter | date =>
    cases v <;> cases hv
    cases w <;> cases hw
    cases ha
    cases hb
    exact compareSigned_longBytes _ _
  case integer =>
    cases v <;> cases hv
    cases w <;> cases hw
    simp only [packSimple, guard_eq_ok] at ha hb
    obtain ⟨⟨hm, hmax⟩, ha⟩ := ha
    obtain ⟨⟨hn, hmax'⟩, hb⟩ := hb
    cases ha
    cases hb
    rename_i m n
    -- The writer has checked the range, so both numbers fit four bytes.
    have hsize : (UInt32.size : Int) = 256 ^ 4 := rfl
    have hm' : m.toInt.toNat < 256 ^ 4 := by omega
    have hn' : n.toInt.toNat < 256 ^ 4 := by omega
    show Ord.compare (Bytes.wordBytes 4 m.toInt.toNat) (Bytes.wordBytes 4 n.toInt.toNat) = _
    rw [Bytes.compare_wordBytes hm' hn']
    exact compare_eq_of_offset 0 (by omega) (by omega)
  case boolean =>
    cases v <;> cases hv
    cases w <;> cases hw
    cases ha
    cases hb
    rename_i x y
    cases x <;> cases y <;> rfl
  case timeUuid =>
    cases v <;> cases hv
    cases w <;> cases hw
    simp only [packSimple, momentOf?, uuidFor, ok_bind, guard_eq_ok] at ha hb
    obtain ⟨-, ha⟩ := ha
    obtain ⟨-, hb⟩ := hb
    cases ha
    cases hb
    exact compareTime_bytes _ _
  case uuid =>
    cases v <;> cases hv
    cases w <;> cases hw
    cases ha
    cases hb
    rename_i u v
    show compareUuid u.bytes v.bytes = _
    rw [compareUuid, if_pos ⟨u.length_bytes, v.length_bytes⟩, compareTime_bytes]
    rfl

/-! ## Exact names -/

/-- Lists and maps pack to the same bytes for every use. -/
theorem encoding_of_pack {type : DataType} (htype : (∃ item, type = .list item) ∨
    ∃ key value, type = .map key value) {v : Value} {ctx : PackContext} {bs : Bytes}
    (h : pack type v ctx = .ok bs) : encoding type v = bs := by
  have hsame : pack type v .value = .ok bs := by
    rcases htype with ⟨item, rfl⟩ | ⟨key, value, rfl⟩ <;> cases v <;> exact h
  rw [encoding, hsame]

mutual

/-- The comparator agrees with the order of values, on values of the kinds that types keep. -/
theorem compare_of_pack_native : ∀ (type : DataType) (v w : Value) (a b : Bytes),
    isNative type v = true → isNative type w = true → pack type v .name = .ok a →
    pack type w .name = .ok b → compare type a b = order type v w
  | .composite types, v, w, a, b, hv, hw, ha, hb => by
    obtain ⟨vs, fs, rfl, hfs, hframed, -⟩ := exists_framed_of_pack ha
    obtain ⟨ws, gs, rfl, hgs, hframed', -⟩ := exists_framed_of_pack hb
    -- The frames carry the components, and these are compared in turn.
    rw [compare_composite (accepts_of_pack ha) (accepts_of_pack hb), framesOf_of_frames hfs,
      framesOf_of_frames hgs]
    exact compareComponents_of_framed types vs ws fs gs hv hw hframed hframed'
  | .list item, v, w, a, b, _, _, ha, hb => by
    -- Lists are ordered by their encodings.
    rw [order, encoding_of_pack (.inl ⟨item, rfl⟩) ha,
      encoding_of_pack (.inl ⟨item, rfl⟩) hb, compare]
  | .map key value, v, w, a, b, _, _, ha, hb => by
    rw [order, encoding_of_pack (.inr ⟨key, value, rfl⟩) ha,
      encoding_of_pack (.inr ⟨key, value, rfl⟩) hb, compare]
  | .bytes, _, _, _, _, hv, hw, ha, hb | .ascii, _, _, _, _, hv, hw, ha, hb
  | .utf8, _, _, _, _, hv, hw, ha, hb | .long, _, _, _, _, hv, hw, ha, hb
  | .integer, _, _, _, _, hv, hw, ha, hb | .boolean, _, _, _, _, hv, hw, ha, hb
  | .date, _, _, _, _, hv, hw, ha, hb | .lexicalUuid, _, _, _, _, hv, hw, ha, hb
  | .timeUuid, _, _, _, _, hv, hw, ha, hb | .uuid, _, _, _, _, hv, hw, ha, hb
  | .counter, _, _, _, _, hv, hw, ha, hb => compare_of_packSimple rfl hv hw ha hb

private theorem compareComponents_of_framed : ∀ (types : List DataType) (vs ws : List Value)
    (fs gs : List Frame), areNative types vs = true → areNative types ws = true →
    Framed .name types vs fs → Framed .name types ws gs →
    compareComponents types fs gs = orderComponents types vs ws
  | [], _, _, _, _, _, _, hf, hg => by
    cases hf
    cases hg
    rfl
  | type :: types, vs, ws, fs, gs, hv, hw, hf, hg => by
    cases hf with
    | nil => cases hg <;> rfl
    | @cons _ _ v vs f fs hcomponent hend hrest =>
      -- The recursion goes through both lists of frames; one that runs out comes first.
      cases hg with
      | nil => rfl
      | @cons _ _ w ws g gs hcomponent' hend' hrest' =>
        rw [ite_self] at hcomponent hcomponent'
        rw [areNative, Bool.and_eq_true] at hv hw
        have hfirst := compare_of_pack_native type v w f.component g.component hv.1 hw.1 hcomponent
          hcomponent'
        have hothers := compareComponents_of_framed types vs ws fs gs hv.2 hw.2 hrest hrest'
        -- Exact names end every component with the same byte.
        have hends : compareEnds f.endByte g.endByte = .eq := by
          rw [hend, hend']
          cases vs <;> cases ws <;> rfl
        rw [compareComponents, compareFrame, hfirst, hends, hothers, Ordering.then_eq,
          orderComponents]

end

/-- The comparator agrees with the order of the values that were packed. -/
theorem compare_of_pack {type : DataType} {v w : Value} {a b : Bytes}
    (ha : pack type v .name = .ok a) (hb : pack type w .name = .ok b) :
    compare type a b = order type (coerce type .exact v) (coerce type .exact w) :=
  compare_of_pack_native type _ _ a b
    (isNative_of_unpack type a _ (unpack_of_pack type v .name a ha))
    (isNative_of_unpack type b _ (unpack_of_pack type w .name b hb))
    (pack_coerce type v .name a rfl ha)
    (pack_coerce type w .name b rfl hb)

/-! ## Names that compare equal -/

theorem eq_of_compareSigned {a b : Bytes} (ha : a.length = 8) (hb : b.length = 8)
    (h : compareSigned a b = .eq) : a = b := by
  rw [compareSigned, if_pos ⟨ha, hb⟩, Ordering.then_eq_eq] at h
  obtain ⟨hfirst, hrest⟩ := h
  obtain ⟨first, rest, rfl⟩ := List.exists_cons_of_length_eq_add_one ha
  obtain ⟨first', rest', rfl⟩ := List.exists_cons_of_length_eq_add_one hb
  have hsame : first ^^^ 0x80 = first' ^^^ 0x80 := Std.LawfulEqOrd.eq_of_compare hfirst
  have hsame' : rest = rest' := Std.LawfulEqOrd.eq_of_compare hrest
  rw [(UInt8.xor_left_inj 0x80).1 hsame, hsame']

theorem eq_of_compareTime {a b : Bytes} (h : Uuid.compareTime a b = .eq) : a = b := by
  rw [Uuid.compareTime] at h
  split at h
  · exact Std.LawfulEqOrd.eq_of_compare (Ordering.then_eq_eq.1 h).2
  · exact Std.LawfulEqOrd.eq_of_compare h

theorem eq_of_compareUuid {a b : Bytes} (h : compareUuid a b = .eq) : a = b := by
  rw [compareUuid] at h
  split at h
  · have hrest := (Ordering.then_eq_eq.1 h).2
    split at hrest
    · exact eq_of_compareTime hrest
    · exact Std.LawfulEqOrd.eq_of_compare hrest
  · exact Std.LawfulEqOrd.eq_of_compare h

/-- Only the end byte of exact names has no sign. -/
theorem eq_zero_of_compareEnds {b : UInt8} (h : compareEnds 0 b = .eq) : b = 0 := by
  have hsign : endSign 0 = endSign b := Std.LawfulEqOrd.eq_of_compare h
  rw [endSign, if_pos rfl, endSign] at hsign
  split at hsign
  · next hzero => exact hzero
  · split at hsign <;> cases hsign

mutual

/-- Bytes that compare equal to an exact name are the same bytes, if the type reads them at all. -/
theorem eq_of_compare_of_accepts : ∀ (type : DataType) (v : Value) (a b : Bytes),
    pack type v .name = .ok a → Accepts type b → compare type a b = .eq → a = b
  | .composite types, v, a, b, ha, hb, h => by
    obtain ⟨vs, fs, rfl, hfs, hframed, -⟩ := exists_framed_of_pack ha
    obtain ⟨hgs, hfits⟩ := frames_of_accepts hb
    rw [compare_composite (accepts_of_pack ha) hb, framesOf_of_frames hfs] at h
    -- Equal frames make equal encodings.
    rw [eq_flatMap_of_frames hfs, eq_flatMap_of_frames hgs,
      eq_of_compareComponents types vs fs (framesOf b) hframed hfits h]
  | .long, v, a, b, ha, hb, h | .counter, v, a, b, ha, hb, h | .date, v, a, b, ha, hb, h =>
    eq_of_compareSigned (length_of_accepts_long (by simp) (accepts_of_pack ha))
      (length_of_accepts_long (by simp) hb) h
  | .timeUuid, _, _, _, _, _, h => eq_of_compareTime h
  | .uuid, _, _, _, _, _, h => eq_of_compareUuid h
  | .bytes, _, _, _, _, _, h | .ascii, _, _, _, _, _, h | .utf8, _, _, _, _, _, h
  | .integer, _, _, _, _, _, h | .boolean, _, _, _, _, _, h | .lexicalUuid, _, _, _, _, _, h
  | .list _, _, _, _, _, _, h | .map _ _, _, _, _, _, _, h => Std.LawfulEqOrd.eq_of_compare h

private theorem eq_of_compareComponents : ∀ (types : List DataType) (vs : List Value)
    (fs gs : List Frame),
    Framed .name types vs fs → Fits types gs → compareComponents types fs gs = .eq → fs = gs
  | [], _, _, gs, hf, hg, h => by
    cases hf
    cases gs with
    | nil => rfl
    | cons => cases h
  | type :: types, vs, fs, gs, hf, hg, h => by
    cases hf with
    | nil =>
      cases gs with
      | nil => rfl
      | cons => cases h
    | @cons _ _ v vs f fs hcomponent hend hrest =>
      cases gs with
      | nil => cases h
      | cons g gs =>
        obtain ⟨hread, hfits⟩ := fits_cons hg
        rw [ite_self] at hcomponent
        rw [compareComponents, compareFrame, Ordering.then_eq_eq, Ordering.then_eq_eq] at h
        obtain ⟨⟨hfirst, hends⟩, hothers⟩ := h
        have hsame :=
          eq_of_compare_of_accepts type v f.component g.component hcomponent hread hfirst
        -- Exact names end every component with the byte that has no sign.
        have hzero : f.endByte = 0 := by
          rw [hend]
          cases vs <;> rfl
        rw [hzero] at hends
        have hends' : f.endByte = g.endByte := hzero.trans (eq_zero_of_compareEnds hends).symm
        obtain ⟨component, endByte⟩ := f
        cases hsame
        cases hends'
        rw [eq_of_compareComponents types vs fs gs hrest hfits hothers]

end

/-- Exact names that compare equal are the same bytes. -/
theorem eq_of_compare_of_pack (type : DataType) (v w : Value) (a b : Bytes)
    (ha : pack type v .name = .ok a) (hb : pack type w .name = .ok b) (h : compare type a b = .eq) :
    a = b :=
  eq_of_compare_of_accepts type v a b ha (accepts_of_pack hb) h

theorem exact_of_pack {type : DataType} {v : Value} {bs : Bytes} (h : pack type v .name = .ok bs) :
    Exact (Accepts type) (compare type) bs where
  holds := accepts_of_pack h
  eq_of_compare b hb heq := by
    have hswap := (orderedOn_compare type).swap (accepts_of_pack h) hb
    rw [heq] at hswap
    exact (eq_of_compare_of_accepts type v bs b h hb hswap).symm

end WideColumn.DataType
