import WideColumn.Proofs.DataType.OrderLaws

/-!
# Which value comes first

The comparator of a type looks at bytes, and these are ordered like the values that were packed:
lengths in front of components do not count, signs do, and a moment counts as one number although it
is spread over three fields.

- `Uuid.timestamp`: the sixty bits of a moment, put together;
- `Before`: one value of a type comes before another;
- `order_eq_lt_iff`: the order of values is this relation, by recursion on the type;
- `compare_iff_before`: so is the order of packed names.
-/

namespace WideColumn

/-! ## Byte strings -/

/-- Byte strings are compared lexicographically. -/
theorem Bytes.compare_eq_lt_iff {a b : Bytes} : compare a b = .lt ↔ a < b := by
  induction a generalizing b with
  | nil =>
    cases b with
    | nil => exact ⟨nofun, fun h => absurd h (List.not_lt_nil _)⟩
    | cons y ys => exact ⟨fun _ => List.nil_lt_cons y ys, fun _ => rfl⟩
  | cons x xs ih =>
    cases b with
    | nil => exact ⟨nofun, fun h => absurd h (List.not_lt_nil _)⟩
    | cons y ys =>
      rw [List.compare_cons_cons, Ordering.then_eq_lt, ih, Std.compare_eq_lt,
        Std.LawfulEqOrd.compare_eq_iff_eq, List.cons_lt_cons_iff]

private theorem Bytes.wordOf_append (a b : Bytes) :
    wordOf (a ++ b) = wordOf a * 256 ^ b.length + wordOf b := by
  induction b using List.reverseRecOn with
  | nil => simp [wordOf]
  | append_singleton b last ih =>
    rw [← List.append_assoc, wordOf_append_singleton, ih, wordOf_append_singleton,
      List.length_append,
      List.length_singleton, Nat.pow_succ, Nat.add_mul, Nat.mul_assoc, Nat.add_assoc]

/-! ## Moments -/

namespace Uuid

/-- The moment that a UUID carries: the fields that stand behind each other are put together, the
last one first, and of the word that they make sixty bits count. -/
def timestamp (u : Uuid) : Nat :=
  Bytes.wordOf ((u.bytes.drop 6).take 2 ++ (u.bytes.drop 4).take 2 ++ u.bytes.take 4) %
    0x1000000000000000

private theorem timestamp_eq_ticksOf (u : Uuid) : u.timestamp = ticksOf u.bytes := by
  have hlow : (u.bytes.take 4).length = 4 := by simp [u.length_bytes]
  have hmid : ((u.bytes.drop 4).take 2).length = 2 := by simp [u.length_bytes]
  have hhigh : ((u.bytes.drop 6).take 2).length = 2 := by simp [u.length_bytes]
  have hlow' := Bytes.wordOf_lt (u.bytes.take 4)
  have hmid' := Bytes.wordOf_lt ((u.bytes.drop 4).take 2)
  rw [hlow] at hlow'
  rw [hmid] at hmid'
  rw [timestamp, ticksOf, Bytes.wordOf_append, Bytes.wordOf_append, hlow, hmid]
  -- Sixty bits of the word are the two lower fields and twelve bits of the uppermost one.
  omega

/-- One UUID carries an earlier moment than another, or the same moment and smaller bytes. -/
def Earlier (u v : Uuid) : Prop :=
  u.timestamp < v.timestamp ∨ u.timestamp = v.timestamp ∧ u.bytes < v.bytes

end Uuid

namespace DataType

/-! ## The relation -/

/-- One value of a type comes before another, both of the kind that the type keeps. -/
inductive Before : DataType → Value → Value → Prop where
  | bytes {a b : Bytes} (h : a < b) : Before .bytes (.bytes a) (.bytes b)
  | ascii {s t : String} (h : Utf8.bytesOf s < Utf8.bytesOf t) : Before .ascii (.text s) (.text t)
  | utf8 {s t : String} (h : Utf8.bytesOf s < Utf8.bytesOf t) : Before .utf8 (.text s) (.text t)
  | long {m n : Int64} (h : m.toInt < n.toInt) : Before .long (.long m) (.long n)
  | integer {m n : Int64} (h : m.toInt < n.toInt) : Before .integer (.long m) (.long n)
  | counter {m n : Int64} (h : m.toInt < n.toInt) : Before .counter (.long m) (.long n)
  | date {m n : Int64} (h : m.toInt < n.toInt) : Before .date (.date m) (.date n)
  | boolean : Before .boolean (.boolean false) (.boolean true)
  | lexicalUuid {u v : Uuid} (h : u.bytes < v.bytes) : Before .lexicalUuid (.uuid u) (.uuid v)
  | timeUuid {u v : Uuid} (h : u.Earlier v) : Before .timeUuid (.uuid u) (.uuid v)
  | olderVersion {u v : Uuid} (h : u.version < v.version) : Before .uuid (.uuid u) (.uuid v)
  | earlierTime {u v : Uuid} (hu : u.version = 1) (hv : v.version = 1) (h : u.Earlier v) :
      Before .uuid (.uuid u) (.uuid v)
  | smallerBytes {u v : Uuid} (hversion : u.version = v.version) (hother : u.version ≠ 1)
      (h : u.bytes < v.bytes) : Before .uuid (.uuid u) (.uuid v)
  | list {item : DataType} {v w : Value} (h : encoding (.list item) v < encoding (.list item) w) :
      Before (.list item) v w
  | map {key value : DataType} {v w : Value}
      (h : encoding (.map key value) v < encoding (.map key value) w) : Before (.map key value) v w
  /-- No components come before some. -/
  | shorter {types : List DataType} {w : Value} {ws : List Value} :
      Before (.composite types) (.composite []) (.composite (w :: ws))
  /-- The first components decide. -/
  | first {type : DataType} {types : List DataType} {v w : Value} {vs ws : List Value}
      (h : Before type v w) :
      Before (.composite (type :: types)) (.composite (v :: vs)) (.composite (w :: ws))
  /-- If the first components are the same, the others decide. -/
  | next {type : DataType} {types : List DataType} {v : Value} {vs ws : List Value}
      (h : Before (.composite types) (.composite vs) (.composite ws)) :
      Before (.composite (type :: types)) (.composite (v :: vs)) (.composite (v :: ws))

private theorem before_cons_iff {type : DataType} {types : List DataType} {v w : Value}
    {vs ws : List Value} :
    Before (.composite (type :: types)) (.composite (v :: vs)) (.composite (w :: ws)) ↔
      Before type v w ∨ v = w ∧ Before (.composite types) (.composite vs) (.composite ws) := by
  constructor
  · intro h
    cases h with
    | first h => exact .inl h
    | next h => exact .inr ⟨rfl, h⟩
  · rintro (h | ⟨rfl, h⟩)
    · exact .first h
    · exact .next h

/-! ## Simple types -/

theorem orderTime_eq_lt_iff {u v : Uuid} : orderTime u v = .lt ↔ u.Earlier v := by
  rw [orderTime, Ordering.then_eq_lt, Nat.compare_eq_lt, Nat.compare_eq_eq,
    Bytes.compare_eq_lt_iff, Uuid.Earlier, Uuid.timestamp_eq_ticksOf, Uuid.timestamp_eq_ticksOf]

private theorem orderUuid_eq_lt_iff {u v : Uuid} :
    orderSimple .uuid (.uuid u) (.uuid v) = .lt ↔ Before .uuid (.uuid u) (.uuid v) := by
  rw [orderSimple, Ordering.then_eq_lt, Nat.compare_eq_lt, Nat.compare_eq_eq]
  constructor
  · -- versions decide first, then the moments of time-based UUIDs, and for all others the bytes
    rintro (h | ⟨hversion, h⟩)
    · exact .olderVersion h
    · split at h
      · next hone => exact .earlierTime hone (hversion ▸ hone) (orderTime_eq_lt_iff.1 h)
      · next hother => exact .smallerBytes hversion hother (Bytes.compare_eq_lt_iff.1 h)
  · intro h
    cases h with
    | olderVersion h => exact .inl h
    | earlierTime hu hv h =>
      rw [if_pos hu]
      exact .inr ⟨hu.trans hv.symm, orderTime_eq_lt_iff.2 h⟩
    | smallerBytes hversion hother h =>
      rw [if_neg hother]
      exact .inr ⟨hversion, Bytes.compare_eq_lt_iff.2 h⟩

private theorem orderSimple_eq_lt_iff {type : DataType} (htype : type.isSimple = true) {v w : Value}
    (hv : isNative type v = true) (hw : isNative type w = true) :
    orderSimple type v w = .lt ↔ Before type v w := by
  cases type
  case composite | list | map => cases htype
  -- Both values are of the kind that the type keeps, and one way of being before is about that
  -- kind.
  all_goals
    cases v <;> cases hv
    cases w <;> cases hw
  case bytes => exact Bytes.compare_eq_lt_iff.trans ⟨.bytes, fun | .bytes h => h⟩
  case ascii => exact Bytes.compare_eq_lt_iff.trans ⟨.ascii, fun | .ascii h => h⟩
  case utf8 => exact Bytes.compare_eq_lt_iff.trans ⟨.utf8, fun | .utf8 h => h⟩
  case lexicalUuid => exact Bytes.compare_eq_lt_iff.trans ⟨.lexicalUuid, fun | .lexicalUuid h => h⟩
  case long => exact Std.compare_eq_lt.trans ⟨.long, fun | .long h => h⟩
  case integer => exact Std.compare_eq_lt.trans ⟨.integer, fun | .integer h => h⟩
  case counter => exact Std.compare_eq_lt.trans ⟨.counter, fun | .counter h => h⟩
  case date => exact Std.compare_eq_lt.trans ⟨.date, fun | .date h => h⟩
  case timeUuid => exact orderTime_eq_lt_iff.trans ⟨.timeUuid, fun | .timeUuid h => h⟩
  case uuid => exact orderUuid_eq_lt_iff
  case boolean =>
    rename_i x y
    refine ⟨fun h => ?_, fun | .boolean => rfl⟩
    cases x <;> cases y <;> cases h
    exact .boolean

/-! ## All types -/

/-- Values of the kind that a type keeps are the same if their names compare equal. -/
theorem order_eq_eq_iff {type : DataType} {v w : Value} {a b : Bytes} (hv : isNative type v = true)
    (hw : isNative type w = true) (ha : pack type v .name = .ok a)
    (hb : pack type w .name = .ok b) :
    order type v w = .eq ↔ v = w := by
  have hcompare := compare_of_pack_native type v w a b hv hw ha hb
  constructor
  · intro h
    -- Equal names are the same bytes, and these are read back as one value.
    have hsame := eq_of_compare_of_pack type v w a b ha hb (hcompare.trans h)
    have hread := unpack_of_pack type v .name a ha
    have hread' := unpack_of_pack type w .name b hb
    rw [coerce_of_isNative type _ v hv] at hread
    rw [coerce_of_isNative type _ w hw, ← hsame, hread] at hread'
    exact Except.ok.inj hread'
  · rintro rfl
    rw [ha] at hb
    cases hb
    exact hcompare.symm.trans ((orderedOn_compare type).self (accepts_of_pack ha))

mutual

/-- Of two values that can be packed, the one that is before the other in the relation is so in the
order. -/
theorem order_eq_lt_iff : ∀ (type : DataType) (v w : Value) (a b : Bytes), isNative type v = true →
    isNative type w = true → pack type v .name = .ok a → pack type w .name = .ok b →
    (order type v w = .lt ↔ Before type v w)
  | .composite types, v, w, a, b, hv, hw, ha, hb => by
    obtain ⟨vs, fs, rfl, -, hframed, -⟩ := exists_framed_of_pack ha
    obtain ⟨ws, gs, rfl, -, hframed', -⟩ := exists_framed_of_pack hb
    exact orderComponents_eq_lt_iff types vs ws fs gs hv hw hframed hframed'
  | .list item, v, w, _, _, _, _, _, _ => by
    rw [order, Bytes.compare_eq_lt_iff]
    exact ⟨.list, fun | .list h => h⟩
  | .map key value, v, w, _, _, _, _, _, _ => by
    rw [order, Bytes.compare_eq_lt_iff]
    exact ⟨.map, fun | .map h => h⟩
  | .bytes, _, _, _, _, hv, hw, _, _ | .ascii, _, _, _, _, hv, hw, _, _
  | .utf8, _, _, _, _, hv, hw, _, _ | .long, _, _, _, _, hv, hw, _, _
  | .integer, _, _, _, _, hv, hw, _, _ | .boolean, _, _, _, _, hv, hw, _, _
  | .date, _, _, _, _, hv, hw, _, _ | .lexicalUuid, _, _, _, _, hv, hw, _, _
  | .timeUuid, _, _, _, _, hv, hw, _, _ | .uuid, _, _, _, _, hv, hw, _, _
  | .counter, _, _, _, _, hv, hw, _, _ => orderSimple_eq_lt_iff rfl hv hw

private theorem orderComponents_eq_lt_iff : ∀ (types : List DataType) (vs ws : List Value)
    (fs gs : List Frame), areNative types vs = true → areNative types ws = true →
    Framed .name types vs fs → Framed .name types ws gs →
    (orderComponents types vs ws = .lt ↔
      Before (.composite types) (.composite vs) (.composite ws))
  | types, [], [], _, _, _, _, _, _ => by
    constructor
    · cases types <;> exact nofun
    · exact nofun
  | types, [], w :: ws, _, _, _, _, _, _ => by
    have hshorter : orderComponents types [] (w :: ws) = .lt := by cases types <;> rfl
    exact ⟨fun _ => .shorter, fun _ => hshorter⟩
  | types, v :: vs, [], _, _, _, _, _, _ => by
    constructor
    · cases types <;> exact nofun
    · exact nofun
  | type :: types, v :: vs, w :: ws, fs, gs, hv, hw, hf, hg => by
    -- The first components decide unless they are the same, and then their frames are as well.
    cases hf with
    | @cons _ _ _ _ f fs hcomponent _ hrest =>
      cases hg with
      | @cons _ _ _ _ g gs hcomponent' _ hrest' =>
        rw [ite_self] at hcomponent hcomponent'
        rw [areNative, Bool.and_eq_true] at hv hw
        have hfirst :=
          order_eq_lt_iff type v w f.component g.component hv.1 hw.1 hcomponent hcomponent'
        have hothers := orderComponents_eq_lt_iff types vs ws fs gs hv.2 hw.2 hrest hrest'
        rw [orderComponents, Ordering.then_eq_lt, hfirst, hothers, before_cons_iff,
          order_eq_eq_iff hv.1 hw.1 hcomponent hcomponent']

end

/-! ## Main result -/

/-- Packed names are ordered like the values that they stand for, which are those that were packed,
in the kinds that the type keeps. -/
theorem compare_iff_before {type : DataType} {v w : Value} {a b : Bytes}
    (ha : pack type v .name = .ok a) (hb : pack type w .name = .ok b) :
    let v' := coerce type .exact v
    let w' := coerce type .exact w
    (compare type a b = .lt ↔ Before type v' w') ∧ (compare type a b = .eq ↔ v' = w') ∧
      (compare type a b = .gt ↔ Before type w' v') := by
  intro v' w'
  -- What was packed reads back as a native value, and this packs to the same bytes.
  have hv := isNative_of_unpack type a _ (unpack_of_pack type v .name a ha)
  have hw := isNative_of_unpack type b _ (unpack_of_pack type w .name b hb)
  have ha' := pack_coerce type v .name a rfl ha
  have hb' := pack_coerce type w .name b rfl hb
  have hswap := (orderedOn_compare type).swap (accepts_of_pack hb) (accepts_of_pack ha)
  refine ⟨?_, ?_, ?_⟩
  · rw [compare_of_pack ha hb]
    exact order_eq_lt_iff type v' w' a b hv hw ha' hb'
  · rw [compare_of_pack ha hb]
    exact order_eq_eq_iff hv hw ha' hb'
  -- The last part is the first one with the values exchanged.
  · rw [← order_eq_lt_iff type w' v' b a hw hv hb' ha', ← compare_of_pack hb ha, hswap]
    cases compare type a b <;> decide

/-- The number is the same, once as a long and once as an int, and of the texts the longer one comes
first, one composite inside another. -/
theorem compare_iff_before_nested :
    let type := composite [.long, .composite [.utf8]]
    let v := Value.composite [.long (-1), .composite [.text "ab"]]
    let w := Value.composite [.int (-1), .composite [.text "b"]]
    ∃ a b, pack type v .name = .ok a ∧ pack type w .name = .ok b ∧ b.length < a.length ∧
      compare type a b = .lt ∧ compare type b a = .gt := by
  intro type v w
  have ha : pack type v .name = .ok [0, 8, 255, 255, 255, 255, 255, 255, 255, 255, 0,
      0, 5, 0, 2, 97, 98, 0, 0] := by
    decide +kernel
  have hb : pack type w .name = .ok [0, 8, 255, 255, 255, 255, 255, 255, 255, 255, 0,
      0, 4, 0, 1, 98, 0, 0] := by
    decide +kernel
  have hv : coerce type .exact v = v := by decide +kernel
  -- The 32-bit number is read as a long, so the first components are equal.
  have hw : coerce type .exact w = .composite [.long (-1), .composite [.text "b"]] := by
    decide +kernel
  -- The nested texts decide, although the encoding of the second name is shorter.
  have hbefore : Before type (coerce type .exact v) (coerce type .exact w) := by
    rw [hv, hw]
    exact .next (.first (.first (.utf8 (by decide +kernel))))
  exact ⟨_, _, ha, hb, by decide, (compare_iff_before ha hb).1.2 hbefore,
    (compare_iff_before hb ha).2.2.2 hbefore⟩

end DataType

end WideColumn
