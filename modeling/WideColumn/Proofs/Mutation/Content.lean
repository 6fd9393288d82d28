import Mathlib.Data.Finset.Card
import WideColumn.Proofs.Mutation

/-!
# What a map of changes hands out and counts

A map of changes is filled by additions for one row and table each, and it starts again empty when
it is taken out. What it hands out and counts is what was added since then. Only an addition of no
mutations makes a difference: its row and table are there from then on, although nothing is to be
changed in them.

- `MutationMap.Step` and `run`: what is done with a map; `added`: the additions since it was last
  taken out;
- `Ordered.pairwise_toList`: each row and table is handed out once, in increasing order;
- `Records`: what a map holds after some additions; `records_run`: it does so after every run;
- `content_run`: what a map hands out and counts, and when it calls itself empty;
- `not_isEmpty_namedOnly`: a map without mutations that does not.
-/

namespace WideColumn

namespace MutationMap

/-! ## Runs -/

/-- What is done with a map. -/
inductive Step where
  | push (key : Bytes) (table : String) (mutation : Mutation)
  | extend (key : Bytes) (table : String) (mutations : List Mutation)
  | take

/-- The map after a step. -/
def step (m : MutationMap) : Step → MutationMap
  | .push key table mutation => m.push key table mutation
  | .extend key table mutations => m.extend key table mutations
  | .take => m.take.2

/-- The map after a sequence of steps. -/
def run (m : MutationMap) (steps : List Step) : MutationMap := steps.foldl step m

/-- Mutations of one row and table that were added together. -/
structure Addition where
  key : Bytes
  table : String
  mutations : List Mutation

/-- The additions since a map was last taken out, after one step more. -/
def note (additions : List Addition) : Step → List Addition
  | .push key table mutation => additions ++ [⟨key, table, [mutation]⟩]
  | .extend key table mutations => additions ++ [⟨key, table, mutations⟩]
  | .take => []

/-- The additions of a sequence of steps since the map was last taken out. -/
def added (steps : List Step) : List Addition := steps.foldl note []

/-- The mutations that were added for one row and table, in order. -/
def addedTo (additions : List Addition) (key : Bytes) (table : String) : List Mutation :=
  additions.flatMap fun a => if key = a.key ∧ table = a.table then a.mutations else []

/-- The row keys of some additions. -/
def rowsOf (additions : List Addition) : Finset Bytes := (additions.map Addition.key).toFinset

/-- The additions that bring mutations. -/
def changing (additions : List Addition) : List Addition :=
  additions.filter fun a => !a.mutations.isEmpty

/-! ## Order -/

variable {m : MutationMap}

/-- Each row and table is handed out once, in increasing order of the row keys and, in a row, of the
table names. -/
theorem Ordered.pairwise_toList (hm : m.Ordered) :
    m.toList.Pairwise fun a b =>
      compare a.1 b.1 = .lt ∨ a.1 = b.1 ∧ compare a.2.1 b.2.1 = .lt := by
  rw [toList, List.pairwise_flatMap]
  constructor
  · intro e he
    rw [List.pairwise_map]
    exact (hm.tables e he).imp fun hlt => .inr ⟨rfl, hlt⟩
  · refine hm.rows.imp fun hlt => ?_
    simp only [List.mem_map]
    rintro _ ⟨r, -, rfl⟩ _ ⟨r', -, rfl⟩
    exact .inl hlt

/-! ## Content -/

/-- What a map holds after some additions. -/
structure Records (m : MutationMap) (additions : List Addition) : Prop where
  ordered : m.Ordered
  changesTo : ∀ key table, m.changesTo key table = addedTo additions key table
  touched : ∀ key table, (m.changes? key table).isSome = true ↔
    ∃ a ∈ additions, key = a.key ∧ table = a.table
  keys : ∀ key, key ∈ m.rows.map (·.1) ↔ ∃ a ∈ additions, key = a.key
  size : m.size = (additions.flatMap Addition.mutations).length

namespace Records

variable {additions : List Addition}

theorem empty : Records empty [] where
  ordered := ordered_empty
  changesTo _ _ := rfl
  touched _ _ := ⟨nofun, nofun⟩
  keys _ := ⟨nofun, nofun⟩
  size := rfl

theorem extend (h : m.Records additions) (key : Bytes) (table : String)
    (mutations : List Mutation) :
    (m.extend key table mutations).Records (additions ++ [⟨key, table, mutations⟩]) where
  ordered := h.ordered.extend key table mutations
  changesTo key' table' := by
    rw [h.ordered.changesTo_extend, h.changesTo, addedTo, addedTo, List.flatMap_append,
      List.flatMap_singleton]
  touched key' table' := by
    rw [h.ordered.changes?_extend]
    simp only [List.mem_append, List.mem_singleton, or_and_right, exists_or, exists_eq_left,
      ← h.touched]
    split
    · next hplace => exact iff_of_true rfl (.inr hplace)
    · next hplace => exact (or_iff_left hplace).symm
  keys key' := by
    rw [MutationMap.extend, h.ordered.rows.mem_keys_alter, h.keys]
    simp only [List.mem_append, List.mem_singleton, or_and_right, exists_or, exists_eq_left]
  size := by
    rw [h.ordered.size_extend, h.size, List.flatMap_append, List.flatMap_singleton,
      List.length_append]

theorem step (h : m.Records additions) (s : Step) : (m.step s).Records (note additions s) := by
  cases s with
  | push key table mutation => exact h.extend key table [mutation]
  | extend key table mutations => exact h.extend key table mutations
  | take => exact .empty

theorem run (h : m.Records additions) (steps : List Step) :
    (m.run steps).Records (steps.foldl note additions) := by
  induction steps generalizing m additions with
  | nil => exact h
  | cons s steps ih => exact ih (h.step s)

/-! ### What follows for those who ask -/

theorem mem_toList (h : m.Records additions) {key : Bytes} {table : String}
    {mutations : List Mutation} :
    (key, table, mutations) ∈ m.toList ↔
      (∃ a ∈ additions, key = a.key ∧ table = a.table) ∧
      mutations = addedTo additions key table := by
  rw [h.ordered.mem_toList, ← h.touched, ← h.changesTo, h.ordered.changesTo_eq]
  cases m.changes? key table with
  | none => exact iff_of_false nofun fun hsome => nomatch hsome.1
  | some mutations' =>
    rw [Option.some.injEq, Option.getD_some]
    exact ⟨fun heq => ⟨rfl, heq.symm⟩, fun heq => heq.2.symm⟩

theorem rowCount (h : m.Records additions) : m.rowCount = (rowsOf additions).card := by
  have hnodup : (m.rows.map (·.1)).Nodup :=
    h.ordered.rows.nodup_keys (p := fun _ => True) (fun _ _ => trivial) .of_transCmp
  have hkeys : (m.rows.map (·.1)).toFinset = rowsOf additions := by
    ext key
    rw [rowsOf, List.mem_toFinset, List.mem_toFinset, h.keys, List.mem_map]
    exact exists_congr fun a => and_congr_right fun _ => eq_comm
  rw [← hkeys, List.toFinset_card_of_nodup hnodup, List.length_map]
  rfl

theorem isEmpty_iff (h : m.Records additions) : m.isEmpty = true ↔ additions = [] := by
  rw [isEmpty, List.isEmpty_iff, ← List.map_eq_nil_iff, List.eq_nil_iff_forall_not_mem,
    List.eq_nil_iff_forall_not_mem]
  constructor
  · exact fun hnone a ha => hnone a.key ((h.keys _).2 ⟨a, ha, rfl⟩)
  · intro hnone key hkey
    obtain ⟨a, ha, -⟩ := (h.keys key).1 hkey
    exact hnone a ha

private theorem size_eq_zero_iff (h : m.Records additions) :
    m.size = 0 ↔ changing additions = [] := by
  rw [h.size, List.length_eq_zero_iff, List.flatMap_eq_nil_iff, changing, List.filter_eq_nil_iff]
  refine forall₂_congr fun a _ => ?_
  cases a.mutations <;> simp

end Records

/-! ## Main result -/

/-- As many rows are named as have mutations exactly if every row that is named has some. -/
theorem card_rowsOf_eq_iff (additions : List Addition) :
    (rowsOf additions).card = (rowsOf (changing additions)).card ↔
      ∀ a ∈ additions, a.key ∈ rowsOf (changing additions) := by
  have hsub : rowsOf (changing additions) ⊆ rowsOf additions := by
    intro key hkey
    rw [rowsOf, List.mem_toFinset] at hkey ⊢
    exact List.map_subset _ (List.filter_sublist).subset hkey
  have hall : rowsOf additions ⊆ rowsOf (changing additions) ↔
      ∀ a ∈ additions, a.key ∈ rowsOf (changing additions) := by
    simp only [Finset.subset_iff, rowsOf, List.mem_toFinset, List.forall_mem_map]
  rw [← hall]
  constructor
  · exact fun hcard => (Finset.eq_of_subset_of_card_le hsub hcard.le).ge
  · exact fun hsub' => congrArg Finset.card (hsub'.antisymm hsub)

/-- After any steps, a map hands out each row and table that was named since it was last taken out,
once and in increasing order of the row keys and then of the table names, with the mutations that
were added for them, in order. Its size is the number of all these mutations. It counts the rows
that were named, and it is empty if there were none. So it counts the rows with mutations exactly if
every row that was named has some, and being empty means to be of size zero exactly if nothing was
named or some mutation was added. Taking the content out leaves nothing. -/
theorem content_run (steps : List Step) :
    let m := empty.run steps
    let additions := added steps
    (m.toList.Pairwise fun a b =>
      compare a.1 b.1 = .lt ∨ a.1 = b.1 ∧ compare a.2.1 b.2.1 = .lt) ∧
    (∀ key table mutations, (key, table, mutations) ∈ m.toList ↔
      (∃ a ∈ additions, key = a.key ∧ table = a.table) ∧
        mutations = addedTo additions key table) ∧
    m.size = (additions.flatMap Addition.mutations).length ∧
    m.rowCount = (rowsOf additions).card ∧
    (m.rowCount = (rowsOf (changing additions)).card ↔
      ∀ a ∈ additions, a.key ∈ rowsOf (changing additions)) ∧
    (m.isEmpty = true ↔ additions = []) ∧
    ((m.isEmpty = true ↔ m.size = 0) ↔ additions = [] ∨ changing additions ≠ []) ∧
    m.take.1 = m ∧ m.take.2.toList = [] ∧ m.take.2.size = 0 ∧ m.take.2.rowCount = 0 ∧
      m.take.2.isEmpty = true := by
  intro m additions
  have h : m.Records additions := Records.empty.run steps
  refine ⟨h.ordered.pairwise_toList, fun _ _ _ => h.mem_toList, h.size, h.rowCount, ?_,
    h.isEmpty_iff, ?_, rfl, rfl, rfl, rfl, rfl⟩
  · rw [h.rowCount]
    exact card_rowsOf_eq_iff additions
  · -- being empty is being of size zero, unless all additions were without mutations
    rw [h.isEmpty_iff, h.size_eq_zero_iff]
    constructor
    · intro hiff
      by_cases hnone : additions = []
      · exact .inl hnone
      · exact .inr fun hchanging => hnone (hiff.2 hchanging)
    · rintro (hnone | hsome)
      · rw [hnone]
        exact iff_of_true rfl rfl
      · refine iff_of_false (fun hnone => hsome ?_) hsome
        rw [hnone]
        rfl

/-- A row and a table are named, without anything to change there. -/
def namedOnly : List Step := [.extend [0x6b] "Standard1" []]

/-- No mutation was added and the size is zero, yet the map is not empty, and it counts a row. -/
theorem not_isEmpty_namedOnly :
    let m := empty.run namedOnly
    (added namedOnly).flatMap Addition.mutations = [] ∧ m.size = 0 ∧
      ¬(m.isEmpty = true ↔ m.size = 0) ∧ m.rowCount = 1 ∧
      (rowsOf (changing (added namedOnly))).card = 0 := by
  decide +kernel

end MutationMap

end WideColumn
