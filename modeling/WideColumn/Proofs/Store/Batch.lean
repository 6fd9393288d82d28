import WideColumn.Proofs.Store.Rows

/-!
# The changes of a batch

A batch keeps its changes by row key and then by table. This moves changes of different rows past
each other, but those of one row and table stay in the order in which they were added.

- `MutationMap.changes?`: the changes of one row and table;
- `changes?_extend`: changes that are added stand behind those that were there;
- `writesTo_batchWrites`: the writes of a batch to one row are those of its changes, in order;
- `MutationMap.Holds`: what a map was filled with, in the order in which that was done;
- `Holds.batch`: a batch has the result of its writes in the order in which they were collected.
-/

namespace WideColumn

namespace MutationMap

/-- The changes of one row and table, if it is touched. -/
def changes? (m : MutationMap) (key : Bytes) (table : String) : Option (List Mutation) :=
  (m.rows.lookup key).bind fun tables => tables.lookup table

/-- Rows are sorted by key and the tables of each row by name. -/
structure Ordered (m : MutationMap) : Prop where
  rows : m.rows.Increasing compare
  tables : ∀ e ∈ m.rows, e.2.Increasing compare

variable {m : MutationMap}

theorem ordered_empty : Ordered empty :=
  ⟨List.Pairwise.nil, nofun⟩

theorem Ordered.extend (hm : m.Ordered) (key : Bytes) (table : String) (mutations : List Mutation) :
    (m.extend key table mutations).Ordered where
  rows := hm.rows.alter_compare _ _ _
  tables := by
    have halter : ∀ tables : Sorted String (List Mutation), tables.Increasing compare →
        (tables.alter compare table [] fun earlier => earlier ++ mutations).Increasing compare :=
      fun tables htables => htables.alter_compare _ _ _
    exact Sorted.forall_mem_alter hm.tables (halter [] List.Pairwise.nil) halter

/-- The requests of a map are the changes of its rows and tables. -/
theorem Ordered.mem_toList (hm : m.Ordered) {key : Bytes} {table : String}
    {mutations : List Mutation} :
    (key, table, mutations) ∈ m.toList ↔ m.changes? key table = some mutations := by
  simp only [toList, List.mem_flatMap, List.mem_map, changes?, Option.bind_eq_some_iff]
  constructor
  · rintro ⟨⟨key, tables⟩, htables, ⟨table, mutations⟩, hmutations, heq⟩
    cases heq
    exact ⟨tables, hm.rows.lookup_eq_some_iff.2 htables,
      (hm.tables _ htables).lookup_eq_some_iff.2 hmutations⟩
  · rintro ⟨tables, htables, hmutations⟩
    rw [hm.rows.lookup_eq_some_iff] at htables
    rw [(hm.tables _ htables).lookup_eq_some_iff] at hmutations
    exact ⟨(key, tables), htables, (table, mutations), hmutations, rfl⟩

/-- Changes that are added stand behind those of their row and table, and all others stay. -/
theorem Ordered.changes?_extend (hm : m.Ordered) (key : Bytes) (table : String)
    (mutations : List Mutation) (key' : Bytes) (table' : String) :
    (m.extend key table mutations).changes? key' table' =
      if key' = key ∧ table' = table then some ((m.changes? key table).getD [] ++ mutations)
      else m.changes? key' table' := by
  rw [changes?, MutationMap.extend, hm.rows.lookup_alter]
  by_cases hkey : key' = key
  · subst hkey
    have htables : ((m.rows.lookup key').getD []).Increasing compare := by
      cases hfound : m.rows.lookup key' with
      | none => exact List.Pairwise.nil
      | some tables => exact hm.tables _ (hm.rows.lookup_eq_some_iff.1 hfound)
    -- a row that is new has no tables
    have hfresh (table : String) : ((m.rows.lookup key').getD []).lookup table =
        m.changes? key' table := by
      rw [changes?]
      cases m.rows.lookup key' <;> rfl
    rw [if_pos rfl, Option.bind_some, htables.lookup_alter, hfresh, hfresh]
    simp only [true_and]
  · rw [if_neg hkey, if_neg fun h => hkey h.1]
    rfl

end MutationMap

namespace Store

/-- The writes of a batch to one row are those of its changes there, in order. -/
theorem writesTo_batchWrites {m : MutationMap} (hm : m.Ordered) (name : String) (key : Bytes) :
    writesTo name key (batchWrites m) =
      ((m.changes? key name).getD []).flatMap Mutation.writes := by
  -- Each row, and in it each table, is there once, so at most one request goes to the place.
  have hrow : ∀ e ∈ m.rows, (e.2.flatMap fun r => writesTo name key
      ((r.2.flatMap Mutation.writes).map fun w => (e.1, r.1, w))) =
        if e.1 = key then ((e.2.lookup name).map fun ms => ms.flatMap Mutation.writes).getD []
        else [] := by
    intro e he
    simp only [writesTo_map]
    split
    · exact (hm.tables e he).flatMap_lookup name _
    · exact List.flatMap_eq_nil_iff.2 fun _ _ => rfl
  rw [batchWrites, MutationMap.toList, List.flatMap_assoc]
  simp only [List.flatMap_map, writesTo_flatMap]
  rw [List.flatMap_congr hrow, hm.rows.flatMap_lookup key
    fun tables => ((tables.lookup name).map fun ms => ms.flatMap Mutation.writes).getD []]
  rw [MutationMap.changes?]
  cases m.rows.lookup key with
  | none => rfl
  | some tables =>
    show ((tables.lookup name).map _).getD [] = ((tables.lookup name).getD []).flatMap _
    cases tables.lookup name <;> rfl

end Store

/-! ## Collecting -/

/-- A map holds writes to known tables, listed in the order in which they were collected. -/
structure MutationMap.Holds (m : MutationMap) (known : String → Prop)
    (writes : List (Bytes × String × Store.Write)) : Prop where
  ordered : m.Ordered
  known : ∀ request ∈ m.toList, known request.2.1
  writesTo : ∀ name key,
    Store.writesTo name key (Store.batchWrites m) = Store.writesTo name key writes

namespace MutationMap

variable {m : MutationMap} {known : String → Prop} {writes : List (Bytes × String × Store.Write)}

theorem holds_empty (known : String → Prop) : empty.Holds known [] :=
  ⟨ordered_empty, nofun, fun _ _ => rfl⟩

theorem Holds.extend (hm : m.Holds known writes) (key : Bytes) {table : String}
    (htable : known table) (mutations : List Mutation) :
    (m.extend key table mutations).Holds known
      (writes ++ (mutations.flatMap Mutation.writes).map fun w => (key, table, w)) where
  ordered := hm.ordered.extend key table mutations
  known := by
    rintro ⟨key', table', mutations'⟩ hrequest
    rw [(hm.ordered.extend key table mutations).mem_toList, hm.ordered.changes?_extend] at hrequest
    split at hrequest
    · next hplace => exact hplace.2 ▸ htable
    · exact hm.known _ (hm.ordered.mem_toList.2 hrequest)
  writesTo name key' := by
    rw [Store.writesTo_batchWrites (hm.ordered.extend key table mutations),
      hm.ordered.changes?_extend, Store.writesTo_append, ← hm.writesTo, Store.writesTo_map,
      Store.writesTo_batchWrites hm.ordered]
    -- an extension adds to the writes of one place and leaves every other place's as they were
    by_cases hplace : key' = key ∧ name = table
    · obtain ⟨rfl, rfl⟩ := hplace
      rw [if_pos ⟨rfl, rfl⟩, if_pos rfl, if_pos rfl, Option.getD_some, List.flatMap_append]
    · rw [if_neg hplace]
      split
      · next hkey => rw [if_neg fun h => hplace ⟨hkey.symm, h.symm⟩, List.append_nil]
      · rw [List.append_nil]

/-- A batch of accepted writes does what they do in the order in which they were collected. -/
theorem Holds.batch {s : Store} (hs : s.Ordered) (hm : m.Holds known writes)
    (hknown : ∀ name, known name → ∃ t, s.table name = .ok t)
    (haccepted : (Store.writeAll writes s).1 = .ok ()) :
    Store.batch m s = Store.writeAll writes s := by
  rw [Store.batch_of_known fun request hrequest => hknown _ (hm.known request hrequest)]
  exact Store.writeAll_eq_of_writesTo hs (fun name key => (hm.writesTo name key).symm) haccepted

/-- The writes of a batch that is accepted are accepted in the order in which they were
collected. -/
theorem Holds.accepted {s : Store} (hs : s.Ordered) (hm : m.Holds known writes)
    (hanswer : s.answer (.batch m) = .ok ()) : (Store.writeAll writes s).1 = .ok () := by
  rw [Store.writeAll_ok_iff hs.tables]
  rintro ⟨key, name, w⟩ hw
  rw [← Store.mem_writesTo, ← hm.writesTo, Store.mem_writesTo] at hw
  exact ((Store.answer_batch_ok_iff hs.tables).1 hanswer).2 _ hw

end MutationMap

end WideColumn
