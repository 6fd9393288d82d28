import WideColumn.Proofs.DataType.BoundOrder
import WideColumn.Proofs.Sorted.Search
import WideColumn.Query
import WideColumn.Store.Row

/-!
# What a slice query selects

A slice query is packed by one function, read by another and compared by a third one. Together they
select what the query says of logical names: the listed names that are there, or the names between
two bounds in the order of the comparator.

- `nameOf`: the name that packed bytes stand for;
- `Bound.admits`: whether a name lies inside one end of a slice;
- `select_predicate`: what a row answers to a packed query.
-/

namespace WideColumn

open Store

/-- The name that bytes stand for. -/
def DataType.nameOf (type : DataType) (bs : Bytes) : Value :=
  match type.unpack bs with
  | .ok v => v
  | .error _ => .bytes bs

private theorem DataType.nameOf_of_pack {type : DataType} {v : Value} {bs : Bytes}
    (h : type.pack v .name = .ok bs) : type.nameOf bs = type.coerce .exact v := by
  have hunpack : type.unpack bs = .ok (type.coerce .exact v) := unpack_of_pack type v .name bs h
  rw [nameOf, hunpack]

/-! ## Bounds -/

/-- Whether a name that stands in a given order to a bound lies inside that end of a slice. -/
def SliceEnd.admits : SliceEnd → Ordering → Bool
  | .exact, _ => true
  | .start inclusive, o => o == .gt || (o == .eq && inclusive)
  | .finish inclusive, o => o == .lt || (o == .eq && inclusive)

/-- Whether a name lies inside an end of a slice that is bounded by a value. A value without bytes
leaves its end open. -/
def DataType.admits (type : DataType) (sliceEnd : SliceEnd) (p name : Value) : Bool :=
  match type.pack p (.bound sliceEnd) with
  | .ok [] => true
  | _ => sliceEnd.admits (type.boundOrder name (type.coerce sliceEnd p))

/-- Whether a name lies inside one end of a slice; `lower` says which one. -/
def Bound.admits (type : DataType) (lower : Bool) (bound : Bound) (name : Value) : Bool :=
  match bound with
  | .unbounded => true
  | .included p => type.admits (packBound.sliceEnd lower true) p name
  | .excluded p => type.admits (packBound.sliceEnd lower false) p name

/-- The lower bound of a query in the order of the comparator. -/
def SliceQuery.lower (q : SliceQuery) : Bound := if q.reversed then q.finish else q.start

/-- The upper bound of a query in the order of the comparator. -/
def SliceQuery.upper (q : SliceQuery) : Bound := if q.reversed then q.start else q.finish

theorem liftMarshal_eq_ok {α : Type} {x : Except MarshalError α} {a : α} :
    liftMarshal x = .ok a ↔ x = .ok a := by
  cases x with
  | ok a' => exact ⟨fun h => congrArg _ (Except.ok.inj h), fun h => congrArg _ (Except.ok.inj h)⟩
  | error e => exact ⟨nofun, nofun⟩

/-- Whether packed bytes lie inside one packed end of a slice; an empty bound is open. -/
def inside (order : Bytes → Bytes → Ordering) (lower : Bool) (bound name : Bytes) : Bool :=
  bound.isEmpty || order name bound != if lower then .lt else .gt

theorem within_eq_inside (order : Bytes → Bytes → Ordering) (low high name : Bytes) :
    within order low high name = (inside order true low name && inside order false high name) :=
  rfl

theorem inside_of_ne_nil {order : Bytes → Bytes → Ordering} {lower : Bool} {bound name : Bytes}
    (h : bound ≠ []) :
    inside order lower bound name = true ↔ order name bound ≠ if lower then .lt else .gt := by
  cases bound with
  | nil => exact absurd rfl h
  | cons first rest => simp [inside]

theorem SliceEnd.admits_exclusive_iff {lower : Bool} {o : Ordering} :
    (packBound.sliceEnd lower false).admits o = true ↔
      o ≠ .eq ∧ o ≠ if lower then .lt else .gt := by
  cases lower <;> cases o <;> decide

section Bounds

variable {type : DataType} {v p : Value} {name b : Bytes}

/-- The comparator admits a packed name to a packed end if the name it stands for is admitted. Only
composites have exclusive bounds. -/
theorem inside_of_pack {lower inclusive : Bool} (hkind : inclusive = true ∨ type.isComposite = true)
    (hname : type.pack v .name = .ok name)
    (hb : type.pack p (.bound (packBound.sliceEnd lower inclusive)) = .ok b) :
    inside type.compare lower b name =
      type.admits (packBound.sliceEnd lower inclusive) p (type.nameOf name) := by
  have hbound : packBound.sliceEnd lower inclusive ≠ .exact := by
    cases lower <;> nofun
  rw [DataType.admits, hb]
  cases b with
  | nil => rfl
  | cons first rest =>
    rw [inside, List.isEmpty_cons, Bool.false_or, DataType.compare_bound hbound hname hb,
      DataType.nameOf_of_pack hname]
    generalize type.boundOrder _ _ = o
    -- What is left is the table of the kinds of bounds against the three orders.
    rcases hkind with rfl | hcomposite
    · rw [DataType.atBound]
      cases type.isComposite <;> cases lower <;> cases o <;> rfl
    · rw [DataType.atBound, if_pos hcomposite]
      cases lower <;> cases inclusive <;> cases o <;> rfl

theorem inside_of_packBound {lower : Bool} {bound : Bound} (hname : type.pack v .name = .ok name)
    (hb : packBound type lower bound = .ok b) :
    inside type.compare lower b name = bound.admits type lower (type.nameOf name) := by
  cases bound with
  | unbounded =>
    cases hb
    rfl
  | included p => exact inside_of_pack (.inl rfl) hname (liftMarshal_eq_ok.1 hb)
  | excluded p =>
    rw [packBound] at hb
    split at hb
    · next hcomposite => exact inside_of_pack (.inr hcomposite) hname (liftMarshal_eq_ok.1 hb)
    · cases hb

end Bounds

/-! ## Names -/

/-- Picking entries by their places is picking those with a property, if the places are theirs. -/
theorem filter_places {κ α : Type} (entries : Sorted κ α) (places : List Nat) (p : κ × α → Bool)
    (h : ∀ i e, entries[i]? = some e → (places.contains i = p e)) :
    (entries.zipIdx.filter fun (_, i) => places.contains i).map (·.1) = entries.filter p := by
  have hplaces : (entries.zipIdx.filter fun (_, i) => places.contains i) =
      entries.zipIdx.filter (p ∘ (·.1)) := by
    apply List.filter_congr
    rintro ⟨e, i⟩ hmem
    exact h i e (List.mem_zipIdx_iff_getElem?.1 hmem)
  rw [hplaces, ← List.filter_map, List.zipIdx_map_fst]

/-- What a predicate selects stands in the order of the entries or in the reverse order. -/
theorem sublist_select {α : Type} (order : Bytes → Bytes → Ordering) (predicate : SlicePredicate)
    (entries : Sorted Bytes α) :
    (select order predicate entries).Sublist entries ∨
      (select order predicate entries).Sublist entries.reverse := by
  unfold select
  split
  · have hplaces : entries.zipIdx.map (·.1) = entries := List.zipIdx_map_fst _ _
    refine .inl (List.Sublist.trans (List.filter_sublist.map _) ?_)
    exact hplaces.symm ▸ List.Sublist.refl entries
  · exact .inl (List.Sublist.refl entries)
  · split
    · exact .inr ((List.take_sublist _ _).trans List.filter_sublist)
    · exact .inl ((List.take_sublist _ _).trans List.filter_sublist)

/-- What a predicate selects is among the entries. -/
theorem mem_of_mem_select {α : Type} {order : Bytes → Bytes → Ordering} {predicate : SlicePredicate}
    {entries : Sorted Bytes α} {e : Bytes × α} (h : e ∈ select order predicate entries) :
    e ∈ entries := by
  rcases sublist_select order predicate entries with hsub | hsub
  · exact hsub.subset h
  · exact List.mem_reverse.1 (hsub.subset h)

section Rows

variable {α : Type} {type : DataType} {entries : Sorted Bytes α}

theorem packName_eq_ok {v : Value} {bs : Bytes} :
    packName type v = .ok bs ↔ type.pack v .name = .ok bs ∧ bs ≠ [] := by
  simp only [packName, bind_eq_ok, liftMarshal_eq_ok]
  constructor
  · rintro ⟨packed, hpacked, h⟩
    split at h
    · cases h
    · next hempty =>
      cases h
      exact ⟨hpacked, fun hnil => hempty (List.isEmpty_iff.2 hnil)⟩
  · rintro ⟨hpacked, hsome⟩
    exact ⟨bs, hpacked, if_neg fun hempty => hsome (List.isEmpty_iff.1 hempty)⟩

/-- A packed name is one of a packed list if the name it stands for is one of the listed names. -/
theorem mem_iff_of_mapM_packName {names : List Value} {packed : List Bytes}
    (hpacked : names.mapM (packName type) = .ok packed) {v : Value} {name : Bytes}
    (hv : type.pack v .name = .ok name) :
    name ∈ packed ↔ type.nameOf name ∈ names.map (type.coerce .exact) := by
  rw [mem_of_mapM hpacked, List.mem_map, DataType.nameOf_of_pack hv]
  constructor
  · rintro ⟨w, hw, hpack⟩
    refine ⟨w, hw, ?_⟩
    rw [← DataType.nameOf_of_pack (packName_eq_ok.1 hpack).1, DataType.nameOf_of_pack hv]
  · rintro ⟨w, hw, hsame⟩
    -- Values that are kept as the same value pack to the same bytes.
    obtain ⟨bs, hpack⟩ := exists_of_mapM hpacked hw
    have hkept := DataType.pack_coerce type w .name bs rfl (packName_eq_ok.1 hpack).1
    rw [hsame, DataType.pack_coerce type v .name name rfl hv] at hkept
    cases hkept
    exact ⟨w, hw, hpack⟩

/-- A list of exact names selects the entries that have one of them. -/
theorem select_ofNames_of_exact (hinc : entries.Increasing type.compare)
    (hkeys : Sorted.Keys type.Accepts entries) {names : List Bytes}
    (hexact : ∀ name ∈ names, Exact type.Accepts type.compare name) :
    select type.compare (.ofNames names) entries = entries.filter fun (name, _) =>
    names.contains name := by
  have hordered := DataType.orderedOn_compare type
  apply filter_places
  intro i e he
  rw [Bool.eq_iff_iff, List.contains_iff_mem, List.contains_iff_mem, List.mem_filterMap]
  -- The search finds an equal name, and names that compare equal are the same bytes.
  have haccepts := hkeys e (List.mem_of_getElem? he)
  constructor
  · rintro ⟨name, hname, hi⟩
    obtain ⟨e', he', heq⟩ :=
      (Sorted.index?_eq_some_iff hkeys hinc hordered (hexact name hname).holds).1 hi
    rw [he] at he'
    cases he'
    rw [(hexact name hname).eq_of_compare e.1 haccepts heq]
    exact hname
  · intro hname
    exact ⟨e.1, hname, (Sorted.index?_eq_some_iff hkeys hinc hordered haccepts).2
      ⟨e, he, hordered.self haccepts⟩⟩

/-- A list of packed names selects the entries that have one of them. -/
theorem select_ofNames (hinc : entries.Increasing type.compare)
    (hnames : ∀ e ∈ entries, ∃ v, type.pack v .name = .ok e.1) {names : List Bytes}
    (hpacked : ∀ name ∈ names, ∃ v, type.pack v .name = .ok name) :
    select type.compare (.ofNames names) entries = entries.filter fun (name, _) =>
    names.contains name := by
  refine select_ofNames_of_exact hinc (fun e he => ?_) fun name hname => ?_
  · obtain ⟨v, hv⟩ := hnames e he
    exact DataType.accepts_of_pack hv
  · obtain ⟨v, hv⟩ := hpacked name hname
    exact DataType.exact_of_pack hv

/-- Between two packed bounds lie the names that both of them admit. -/
theorem filter_within (hnames : ∀ e ∈ entries, ∃ v, type.pack v .name = .ok e.1)
    {lower upper : Bound} {low high : Bytes} (hlow : packBound type true lower = .ok low)
    (hhigh : packBound type false upper = .ok high) :
    (entries.filter fun (name, _) => within type.compare low high name) =
      entries.filter fun (name, _) =>
        lower.admits type true (type.nameOf name) &&
        upper.admits type false (type.nameOf name) := by
  apply List.filter_congr
  rintro ⟨name, a⟩ hmem
  obtain ⟨v, hv⟩ := hnames (name, a) hmem
  show within type.compare low high name = _
  rw [within_eq_inside, inside_of_packBound hv hlow, inside_of_packBound hv hhigh]

/-- What a row answers to a packed query. A list of names selects the entries with one of these
names, each once and in the order of the row. Otherwise the first entries are selected, from the
lower end of the row or in a reversed slice from its upper end, whose names lie inside both
bounds. -/
theorem select_predicate {q : SliceQuery} {predicate : SlicePredicate}
    (hq : q.predicate type = .ok predicate) (hinc : entries.Increasing type.compare)
    (hnames : ∀ e ∈ entries, ∃ v, type.pack v .name = .ok e.1) :
    select type.compare predicate entries =
      match q.names with
      | some names => entries.filter fun (name, _) =>
          (names.map (type.coerce .exact)).contains (type.nameOf name)
      | none =>
        ((if q.reversed then entries.reverse else entries).filter fun (name, _) =>
          q.lower.admits type true (type.nameOf name) &&
            q.upper.admits type false (type.nameOf name)).take (limitOf q.count) := by
  rw [SliceQuery.predicate] at hq
  cases hlist : q.names with
  | some names =>
    simp only [hlist] at hq
    rw [packNames] at hq
    split at hq
    · cases hq
    obtain ⟨packed, hpacked, rfl⟩ := map_eq_ok.1 hq
    have hexact : ∀ name ∈ packed, ∃ v, type.pack v .name = .ok name := by
      intro name hname
      obtain ⟨v, -, hv⟩ := (mem_of_mapM hpacked).1 hname
      exact ⟨v, (packName_eq_ok.1 hv).1⟩
    rw [select_ofNames hinc hnames hexact]
    apply List.filter_congr
    rintro ⟨name, a⟩ hmem
    obtain ⟨v, hv⟩ := hnames (name, a) hmem
    rw [Bool.eq_iff_iff, List.contains_iff_mem, List.contains_iff_mem]
    exact mem_iff_of_mapM_packName hpacked hv
  | none =>
    simp only [hlist] at hq
    split at hq
    · cases hq
    simp only [bind_eq_ok, pure_eq_ok] at hq
    obtain ⟨start, hstart, finish, hfinish, rfl⟩ := hq
    -- A reversed slice names its ends the other way round.
    cases hreversed : q.reversed with
    | false =>
      rw [hreversed] at hstart hfinish
      have hlower : q.lower = q.start := by
        rw [SliceQuery.lower, hreversed, if_neg Bool.false_ne_true]
      have hupper : q.upper = q.finish := by
        rw [SliceQuery.upper, hreversed, if_neg Bool.false_ne_true]
      rw [hlower, hupper, if_neg Bool.false_ne_true]
      exact congrArg _ (filter_within hnames hstart hfinish)
    | true =>
      rw [hreversed] at hstart hfinish
      have hlower : q.lower = q.finish := by rw [SliceQuery.lower, hreversed, if_pos rfl]
      have hupper : q.upper = q.start := by rw [SliceQuery.upper, hreversed, if_pos rfl]
      rw [hlower, hupper, if_pos rfl]
      exact congrArg _ (filter_within (fun e he => hnames e (List.mem_reverse.1 he)) hfinish hstart)

end Rows

/-- Names of a number and a text, some of them cut short. -/
def namesByNumber : Sorted Bytes Nat :=
  [([0, 8, 0, 0, 0, 0, 0, 0, 0, 1, 0, 0, 1, 97, 0], 0), ([0, 8, 0, 0, 0, 0, 0, 0, 0, 2, 0], 1),
    ([0, 8, 0, 0, 0, 0, 0, 0, 0, 2, 0, 0, 1, 97, 0], 2),
    ([0, 8, 0, 0, 0, 0, 0, 0, 0, 2, 0, 0, 1, 98, 0], 3),
    ([0, 8, 0, 0, 0, 0, 0, 0, 0, 3, 0, 0, 1, 97, 0], 4)]

/-- Reading backwards from the names of the second group, until just before those of the first
one. -/
def secondGroup : SliceQuery :=
  { SliceQuery.default with
    start := .included (.composite [.long 2]), finish := .excluded (.composite [.long 1]),
    reversed := true, count := 2 }

theorem select_predicate_secondGroup :
    ∃ predicate, secondGroup.predicate (.composite [.long, .utf8]) = .ok predicate ∧
      select (DataType.compare (.composite [.long, .utf8])) predicate namesByNumber =
        [([0, 8, 0, 0, 0, 0, 0, 0, 0, 2, 0, 0, 1, 98, 0], 3),
          ([0, 8, 0, 0, 0, 0, 0, 0, 0, 2, 0, 0, 1, 97, 0], 2)] := by
  -- the names increase, and each of them is what the comparator packs some composite into
  have hinc : namesByNumber.Increasing (DataType.compare (.composite [.long, .utf8])) := by
    show List.Pairwise _ _
    decide +kernel
  have hnames : ∀ e ∈ namesByNumber, ∃ v,
      DataType.pack (.composite [.long, .utf8]) v .name = .ok e.1 := by
    intro e he
    simp only [namesByNumber, List.mem_cons, List.not_mem_nil, or_false] at he
    rcases he with rfl | rfl | rfl | rfl | rfl
    · exact ⟨.composite [.long 1, .text "a"], by decide +kernel⟩
    · exact ⟨.composite [.long 2], by decide +kernel⟩
    · exact ⟨.composite [.long 2, .text "a"], by decide +kernel⟩
    · exact ⟨.composite [.long 2, .text "b"], by decide +kernel⟩
    · exact ⟨.composite [.long 3, .text "a"], by decide +kernel⟩
  -- the prefix turns into two packed bounds that differ in their last end byte only
  have hq : secondGroup.predicate (.composite [.long, .utf8]) =
      .ok (.ofRange
        ⟨[0, 8, 0, 0, 0, 0, 0, 0, 0, 2, 1], [0, 8, 0, 0, 0, 0, 0, 0, 0, 1, 1], true, 2⟩) := by
    decide +kernel
  refine ⟨_, hq, ?_⟩
  rw [select_predicate hq hinc hnames]
  decide +kernel

end WideColumn
