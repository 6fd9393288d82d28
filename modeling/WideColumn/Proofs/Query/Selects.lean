import WideColumn.Proofs.Query.Selection
import WideColumn.Proofs.Sorted.Lookup
import WideColumn.Proofs.Store.Search

/-!
# What a predicate selects

The names and bounds of a predicate may be any bytes. Among names that decode and stand in order,
the search by halving and the cut at the count select what the predicate says: the names that
compare equal to listed ones, or the first names of a range, counted from the end that is read
first.

- `Named`: names that decode, in order;
- `SlicePredicate.Selects`: what a predicate selects, told by names, bounds and counting;
- `mem_take_iff_countP`: the first entries of a list are those with few others before them;
- `mem_select_iff`, `mem_selectedNames_iff`: the store selects just that.
-/

namespace WideColumn

/-! ## Selection by names and bounds -/

/-- Whether a name lies between the ends of a range. -/
def SliceRange.holds (order : Bytes → Bytes → Ordering) (r : SliceRange) (name : Bytes) : Bool :=
  if r.reversed then Store.within order r.finish r.start name
  else Store.within order r.start r.finish name

/-- Whether a name is read before another one. -/
def SliceRange.ahead (order : Bytes → Bytes → Ordering) (r : SliceRange) (name name' : Bytes) :
    Bool :=
  (if r.reversed then order name' name else order name name') == .lt

/-- Entries in the order in which a range reads them. -/
def SliceRange.reading {α : Type} (r : SliceRange) (entries : Sorted Bytes α) : Sorted Bytes α :=
  if r.reversed then entries.reverse else entries

/-- Whether a predicate selects the entry of a name. A list selects the names that compare equal to
one of its own, and a range those inside it that have fewer than its count of others inside it
ahead. -/
def SlicePredicate.Selects {α : Type} (order : Bytes → Bytes → Ordering) (p : SlicePredicate)
    (entries : Sorted Bytes α) (name : Bytes) : Prop :=
  match p.names, p.range with
  | some names, _ => ∃ listed ∈ names, order name listed = .eq
  | none, none => True
  | none, some r => r.holds order name = true ∧
      (entries.countP fun e => r.holds order e.1 && r.ahead order e.1 name) < limitOf r.count

namespace Store

/-! ## Names in order -/

/-- Names decode and stand in the order of their comparator. -/
structure Named {α : Type} (type : DataType) (entries : Sorted Bytes α) : Prop where
  increasing : entries.Increasing type.compare
  accepted : Sorted.Keys type.Accepts entries

namespace Named

variable {α β : Type} {type : DataType} {entries entries' : Sorted Bytes α}
    {name : Bytes} {a a' : α}

theorem sublist (h : Named type entries) (hsub : entries'.Sublist entries) : Named type entries' :=
  ⟨List.Pairwise.sublist hsub h.increasing, fun e he => h.accepted e (hsub.subset he)⟩

/-- Only the names count. -/
theorem of_names {entries' : Sorted Bytes β} (h : Named type entries)
    (hnames : entries'.map (·.1) = entries.map (·.1)) : Named type entries' := by
  refine ⟨?_, fun e he => ?_⟩
  · rw [Sorted.increasing_iff_keys, hnames]
    exact Sorted.increasing_iff_keys.1 h.increasing
  · have hmem : e.1 ∈ entries.map (·.1) := hnames ▸ List.mem_map_of_mem he
    obtain ⟨e', he', hsame⟩ := List.mem_map.1 hmem
    exact hsame ▸ h.accepted e' he'

theorem lookup_eq_some_iff (h : Named type entries) :
    entries.lookup name = some a ↔ (name, a) ∈ entries :=
  Sorted.lookup_eq_some_iff h.increasing h.accepted (DataType.orderedOn_compare type)

theorem eq_of_mem (h : Named type entries) (ha : (name, a) ∈ entries) (ha' : (name, a') ∈ entries) :
    a = a' :=
  Option.some.inj ((h.lookup_eq_some_iff.2 ha).symm.trans (h.lookup_eq_some_iff.2 ha'))

end Named

/-! ## Selection in the store -/

/-- The first entries of a list are those with few entries before them. -/
theorem mem_take_iff_countP {α : Type} {before : α → α → Bool} {l : List α} (n : Nat) {x : α}
    (hl : l.Pairwise fun a b => before a b = true ∧ before b a = false)
    (hself : ∀ a ∈ l, before a a = false) :
    x ∈ l.take n ↔ x ∈ l ∧ l.countP (fun a => before a x) < n := by
  -- By induction on the list: the first entry is before all others, and nothing is before it.
  induction l generalizing n with
  | nil => simp
  | cons a l ih =>
    obtain ⟨ha, hl⟩ := List.pairwise_cons.1 hl
    cases n with
    | zero => simp
    | succ n =>
      rw [List.take_succ_cons, List.mem_cons, List.mem_cons,
        ih n hl fun b hb => hself b (List.mem_cons_of_mem _ hb), List.countP_cons]
      by_cases hx : x = a
      · subst hx
        have hnone : l.countP (fun b => before b x) = 0 :=
          List.countP_eq_zero.2 fun b hb => by simp [(ha b hb).2]
        simp [hnone, hself x List.mem_cons_self]
      · simp only [hx, false_or]
        refine and_congr_right fun hmem => ?_
        rw [(ha x hmem).1, if_pos rfl, Nat.add_lt_add_iff_right]

section Select

variable {α : Type} {type : DataType} {entries : Sorted Bytes α} {e : Bytes × α}

private theorem select_names_eq (h : Named type entries) {p : SlicePredicate} {names : List Bytes}
    (hp : p.names = some names) :
    select type.compare p entries =
      entries.filter fun e => names.any fun listed => type.compare e.1 listed == .eq := by
  simp only [select, hp]
  refine filter_places _ _ _ fun i e he => ?_
  rw [Bool.eq_iff_iff, List.contains_iff_mem, List.mem_filterMap, List.any_eq_true]
  refine exists_congr fun listed => and_congr_right fun _ => ?_
  rw [Sorted.index?_eq_some_iff_of_names h.accepted h.increasing, beq_iff_eq]
  constructor
  · rintro ⟨e', he', heq⟩
    cases he.symm.trans he'
    exact heq
  · exact fun heq => ⟨e, he, heq⟩

theorem select_range_eq {order : Bytes → Bytes → Ordering} {p : SlicePredicate} {r : SliceRange}
    (hnames : p.names = none) (hrange : p.range = some r) :
    select order p entries =
      ((r.reading entries).filter fun e => r.holds order e.1).take (limitOf r.count) := by
  simp only [select, hnames, hrange, SliceRange.holds, SliceRange.reading]
  cases r.reversed <;> rfl

theorem reading_perm (r : SliceRange) (entries : Sorted Bytes α) :
    (r.reading entries).Perm entries := by
  rw [SliceRange.reading]
  split
  · exact List.reverse_perm _
  · exact .refl _

/-- Entries that are read first are ahead of the others. -/
theorem pairwise_ahead (h : Named type entries) (r : SliceRange) :
    (r.reading entries).Pairwise fun a b =>
      r.ahead type.compare a.1 b.1 = true ∧ r.ahead type.compare b.1 a.1 = false := by
  have hordered := DataType.orderedOn_compare type
  have hlt : entries.Pairwise fun a b => type.compare a.1 b.1 = .lt ∧ type.compare b.1 a.1 = .gt :=
    h.increasing.imp_of_mem fun ha hb hlt =>
      ⟨hlt, hordered.gt_of_lt (h.accepted _ ha) (h.accepted _ hb) hlt⟩
  rw [SliceRange.reading]
  cases hreversed : r.reversed with
  | false => exact hlt.imp fun ⟨hlt, hgt⟩ => by simp [SliceRange.ahead, hreversed, hlt, hgt]
  | true =>
    refine (List.pairwise_reverse.2 hlt).imp fun ⟨hlt, hgt⟩ => ?_
    simp [SliceRange.ahead, hreversed, hlt, hgt]

private theorem ahead_self (h : Named type entries) (r : SliceRange) (he : e ∈ entries) :
    r.ahead type.compare e.1 e.1 = false := by
  rw [SliceRange.ahead, ite_self, (DataType.orderedOn_compare type).self (h.accepted e he)]
  rfl

/-- The search and the cut select what a predicate asks for. -/
theorem mem_select_iff (h : Named type entries) {p : SlicePredicate} :
    e ∈ select type.compare p entries ↔ e ∈ entries ∧ p.Selects type.compare entries e.1 := by
  cases hnames : p.names with
  | some names =>
    rw [select_names_eq h hnames, List.mem_filter, List.any_eq_true]
    simp only [SlicePredicate.Selects, hnames, beq_iff_eq]
  | none =>
    cases hrange : p.range with
    | none => simp only [select, SlicePredicate.Selects, hnames, hrange, and_true]
    | some r =>
      -- Reading backwards makes a difference for the cut only.
      have hread := reading_perm r entries
      rw [select_range_eq hnames hrange, mem_take_iff_countP _ ((pairwise_ahead h r).filter _)
        (fun a ha => ahead_self h r (hread.mem_iff.1 (List.mem_filter.1 ha).1)), List.mem_filter,
        hread.mem_iff, List.countP_filter, hread.countP_eq, and_assoc]
      simp only [SlicePredicate.Selects, hnames, hrange, Bool.and_comm]

/-- The names that an optional predicate selects are those of entries. -/
theorem mem_selectedNames_iff (h : Named type entries) {predicate : Option SlicePredicate}
    {name : Bytes} : name ∈ selectedNames type.compare predicate entries ↔
      (∃ a, (name, a) ∈ entries) ∧ ∀ p ∈ predicate, p.Selects type.compare entries name := by
  cases predicate with
  | none => simp [selectedNames]
  | some p =>
    simp only [selectedNames, List.mem_map, mem_select_iff h, Option.mem_some_iff, forall_eq']
    constructor
    · rintro ⟨⟨name, a⟩, ⟨he, hp⟩, rfl⟩
      exact ⟨⟨a, he⟩, hp⟩
    · rintro ⟨⟨a, he⟩, hp⟩
      exact ⟨(name, a), ⟨he, hp⟩, rfl⟩

/-- A range selects entries inside it, and all of them if its count allows for as many. -/
theorem mem_select_ofRange {α : Type} (order : Bytes → Bytes → Ordering) (r : SliceRange)
    (entries : Sorted Bytes α) (e : Bytes × α) :
    (e ∈ select order (.ofRange r) entries → e ∈ entries ∧ r.holds order e.1 = true) ∧
    (entries.length ≤ limitOf r.count → e ∈ entries → r.holds order e.1 = true →
      e ∈ select order (.ofRange r) entries) := by
  -- reading from either end is a permutation, so membership does not see the direction
  have hread := reading_perm r entries
  rw [select_range_eq rfl rfl]
  constructor
  · intro he
    have hmem := List.mem_filter.1 (List.mem_of_mem_take he)
    exact ⟨hread.mem_iff.1 hmem.1, hmem.2⟩
  · -- the limit cuts nothing off when the row has no more entries than it
    intro hcount he hholds
    rw [← hread.length_eq] at hcount
    rw [List.take_of_length_le (Nat.le_trans (List.length_filter_le ..) hcount)]
    exact List.mem_filter.2 ⟨hread.mem_iff.2 he, hholds⟩

end Select

/-! ## Queries -/

/-- What a slice query without names reads: the entries between its packed bounds, all of them if
its count allows for as many. -/
theorem exists_bounds_of_predicate {type : DataType} {q : SliceQuery} {predicate : SlicePredicate}
    (hrange : q.names = none) (hq : q.predicate type = .ok predicate) :
    ∃ low high, packBound type true q.lower = .ok low ∧ packBound type false q.upper = .ok high ∧
      ∀ {α : Type} (entries : Sorted Bytes α) (e : Bytes × α),
        (e ∈ select type.compare predicate entries →
          e ∈ entries ∧ within type.compare low high e.1 = true) ∧
        (entries.length ≤ limitOf q.count → e ∈ entries → within type.compare low high e.1 = true →
          e ∈ select type.compare predicate entries) := by
  simp only [SliceQuery.predicate, hrange] at hq
  split at hq
  · cases hq
  simp only [bind_eq_ok, pure_eq_ok] at hq
  obtain ⟨start, hstart, finish, hfinish, rfl⟩ := hq
  have hselect {α : Type} (entries : Sorted Bytes α) (e : Bytes × α) :=
    mem_select_ofRange type.compare ⟨start, finish, q.reversed, q.count⟩ entries e
  -- A reversed query names its ends the other way round.
  cases hreversed : q.reversed with
  | false =>
    simp only [hreversed, SliceRange.holds, Bool.false_eq_true, if_false] at hselect
    refine ⟨start, finish, ?_, ?_, hselect⟩
    · simpa [SliceQuery.lower, hreversed] using hstart
    · simpa [SliceQuery.upper, hreversed] using hfinish
  | true =>
    simp only [hreversed, SliceRange.holds, if_true] at hselect
    refine ⟨finish, start, ?_, ?_, hselect⟩
    · simpa [SliceQuery.lower, hreversed] using hfinish
    · simpa [SliceQuery.upper, hreversed] using hstart

end Store

end WideColumn
