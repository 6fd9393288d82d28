import WideColumn.Proofs.Store.Batch

/-!
# What a map of changes holds

Changes are kept by row and table. Adding some makes the map grow by as many, and for the row and
table they are for, and for no other, they stand behind the changes that were there.

- `MutationMap.changesTo`: all changes that a map hands out for a row and table;
- `changesTo_extend` and `size_extend`: what adding changes does to these and to their number.
-/

namespace WideColumn

/-- What is collected from all values of a sorted list grows by what a change adds to one of
them. -/
theorem Sorted.Increasing.length_flatMap_alter {κ α β : Type} [Ord κ] [Std.TransOrd κ]
    {entries : Sorted κ α} (hinc : Increasing compare entries) (key : κ) {fresh : α}
    {change : α → α} {f : α → List β} {more : Nat} (hfresh : (f (change fresh)).length = more)
    (hchange : ∀ e ∈ entries, (f (change e.2)).length = (f e.2).length + more) :
    ((Sorted.alter compare key fresh change entries).flatMap fun e => f e.2).length =
      (entries.flatMap fun e => f e.2).length + more := by
  rcases alter_cases (p := fun _ => True) (fun _ _ => trivial)
    hinc .of_transCmp trivial fresh change
    with ⟨before, k, v, after, hentries, -, halter⟩ | ⟨before, after, hentries, -, -, halter⟩
  · -- the key is there, and its entry is the only one that grows
    have hv := hchange (k, v) (hentries ▸ List.mem_append_right _ List.mem_cons_self)
    rw [halter, hentries]
    simp only [List.flatMap_append, List.flatMap_cons, List.length_append] at hv ⊢
    omega
  · -- a new entry is put between the others
    rw [halter, hentries]
    simp only [List.flatMap_append, List.flatMap_cons, List.length_append]
    omega

namespace MutationMap

variable {m : MutationMap}

/-- All changes of one row and table that a map hands out. -/
def changesTo (m : MutationMap) (key : Bytes) (table : String) : List Mutation :=
  m.toList.flatMap fun request =>
    if request.1 = key ∧ request.2.1 = table then request.2.2 else []

/-- There is one request for each row and table, so its changes are all that are handed out for
them. -/
theorem Ordered.changesTo_eq (hm : m.Ordered) (key : Bytes) (table : String) :
    m.changesTo key table = (m.changes? key table).getD [] := by
  -- Only the row of the key counts, and in it only the table.
  have hrow : ∀ e ∈ m.rows, (e.2.flatMap fun r => if e.1 = key ∧ r.1 = table then r.2 else []) =
      if e.1 = key then ((e.2.lookup table).map id).getD [] else [] := by
    intro e he
    split
    · next hkey =>
      rw [← (hm.tables e he).flatMap_lookup table id]
      simp only [hkey, true_and, id_eq]
    · next hkey => exact List.flatMap_eq_nil_iff.2 fun r _ => if_neg fun h => hkey h.1
  rw [changesTo, toList, List.flatMap_assoc]
  simp only [List.flatMap_map]
  rw [List.flatMap_congr hrow,
    hm.rows.flatMap_lookup key fun tables => ((tables.lookup table).map id).getD [], changes?]
  cases m.rows.lookup key with
  | none => rfl
  | some tables => simp

/-- Changes that are added stand behind those of their row and table, and all others stay. -/
theorem Ordered.changesTo_extend (hm : m.Ordered) (key : Bytes) (table : String)
    (mutations : List Mutation) (key' : Bytes) (table' : String) :
    (m.extend key table mutations).changesTo key' table' =
      m.changesTo key' table' ++ if key' = key ∧ table' = table then mutations else [] := by
  rw [(hm.extend key table mutations).changesTo_eq, hm.changes?_extend, hm.changesTo_eq]
  split
  · next hplace => rw [hplace.1, hplace.2, Option.getD_some]
  · rw [List.append_nil]

@[simp]
theorem changesTo_empty (key : Bytes) (table : String) : empty.changesTo key table = [] := rfl

/-! ## Sizes -/

theorem size_eq (m : MutationMap) :
    m.size = (m.rows.flatMap fun e => e.2.flatMap fun r => r.2).length := by
  rw [size, toList, List.flatMap_assoc]
  simp only [List.flatMap_map]

theorem Ordered.size_extend (hm : m.Ordered) (key : Bytes) (table : String)
    (mutations : List Mutation) :
    (m.extend key table mutations).size = m.size + mutations.length := by
  -- The tables of a row grow by the changes, and so do the rows.
  have htables : ∀ tables : Sorted String (List Mutation), tables.Increasing compare →
      ((tables.alter compare table [] fun earlier => earlier ++ mutations).flatMap
        fun r => r.2).length = (tables.flatMap fun r => r.2).length + mutations.length :=
    fun tables htables => htables.length_flatMap_alter (f := id) table rfl
      fun _ _ => List.length_append
  rw [size_eq, size_eq]
  refine hm.rows.length_flatMap_alter (f := fun tables => tables.flatMap fun r => r.2) key ?_ ?_
  · exact (htables [] List.Pairwise.nil).trans (Nat.zero_add _)
  · exact fun e he => htables e.2 (hm.tables e he)

theorem size_of_isEmpty (h : m.isEmpty = true) : m.size = 0 := by
  rw [size_eq, List.isEmpty_iff.1 h]
  rfl

theorem isEmpty_extend (m : MutationMap) (key : Bytes) (table : String)
    (mutations : List Mutation) :
    (m.extend key table mutations).isEmpty = false :=
  List.isEmpty_eq_false_iff.2 (Sorted.alter_ne_nil _ _ _ _ _)

end MutationMap

end WideColumn
