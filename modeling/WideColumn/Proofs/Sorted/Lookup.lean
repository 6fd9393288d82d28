import Mathlib.Data.List.Nodup
import WideColumn.Proofs.Sorted.Search

/-!
# Sorted lists as maps

A comparator may hold different keys equal, so a sorted list is a map from keys to values only for
those who ask with keys that compare equal to nothing but themselves. For such a key the search by
halving finds what a plain look-up does, and a change of its value leaves all other keys alone.

- `find?_eq_lookup` and `lookup_alter`: searching and changing under exact keys;
- `flatMap_lookup`: collecting what stands under one key;
- `eq_of_lookup`: lists with the same values under all keys are the same;
- the namespace `Increasing`: the same for orders of all keys.
-/

namespace WideColumn.Sorted

variable {κ α : Type} {p : κ → Prop} {order : κ → κ → Ordering} {key k : κ}
  {entries entries' : Sorted κ α}

/-- No key occurs twice. -/
theorem Increasing.nodup_keys (hinc : Increasing order entries) (hkeys : Keys p entries)
    (hordered : OrderedOn p order) : (entries.map (·.1)).Nodup := by
  rw [List.Nodup, List.pairwise_map]
  refine List.Pairwise.imp_of_mem ?_ hinc
  intro a b ha hb hlt hsame
  rw [← hsame, hordered.self (hkeys a ha)] at hlt
  cases hlt

/-- The entries around one have other keys. -/
theorem Increasing.ne_of_split {before after : Sorted κ α} {v : α}
    (hinc : Increasing order (before ++ (key, v) :: after))
    (hkeys : Keys p (before ++ (key, v) :: after)) (hordered : OrderedOn p order) :
    (∀ e ∈ before, e.1 ≠ key) ∧ ∀ e ∈ after, e.1 ≠ key := by
  have hnodup := hinc.nodup_keys hkeys hordered
  rw [List.map_append, List.map_cons, List.nodup_append, List.nodup_cons] at hnodup
  obtain ⟨-, ⟨hafter, -⟩, hbefore⟩ := hnodup
  refine ⟨fun e he => ?_, fun e he hsame => ?_⟩
  · exact hbefore e.1 (List.mem_map_of_mem he) key List.mem_cons_self
  · exact hafter (List.mem_map.2 ⟨e, he, hsame⟩)

/-! ## Reading -/

variable [BEq κ] [LawfulBEq κ]

private theorem lookup_eq_none_of_ne (h : ∀ e ∈ entries, e.1 ≠ key) : entries.lookup key = none :=
  List.lookup_eq_none_iff.2 fun e he => bne_iff_ne.2 (h e he).symm

/-- The value under a key is that of the entry with this key. -/
theorem lookup_eq_some_iff (hinc : Increasing order entries) (hkeys : Keys p entries)
    (hordered : OrderedOn p order) {v : α} : entries.lookup key = some v ↔ (key, v) ∈ entries := by
  rw [List.lookup_eq_some_iff]
  constructor
  · rintro ⟨before, after, rfl, -⟩
    exact List.mem_append_right _ List.mem_cons_self
  · intro hmem
    obtain ⟨before, after, rfl⟩ := List.append_of_mem hmem
    obtain ⟨hbefore, -⟩ := hinc.ne_of_split hkeys hordered
    exact ⟨before, after, rfl, fun e he => bne_iff_ne.2 (hbefore e he).symm⟩

/-- An entry that is found stands between entries with other keys. -/
theorem split_of_lookup (hinc : Increasing order entries) (hkeys : Keys p entries)
    (hordered : OrderedOn p order) {v : α} (hv : entries.lookup key = some v) :
    ∃ before after, entries = before ++ (key, v) :: after ∧ (∀ e ∈ before, e.1 ≠ key) ∧
      ∀ e ∈ after, e.1 ≠ key := by
  obtain ⟨before, after, rfl, -⟩ := List.lookup_eq_some_iff.1 hv
  exact ⟨before, after, rfl, hinc.ne_of_split hkeys hordered⟩

/-- The entries with a key are the one that is found. -/
theorem filter_eq_of_lookup (hinc : Increasing order entries) (hkeys : Keys p entries)
    (hordered : OrderedOn p order) {v : α} (hv : entries.lookup key = some v) :
    entries.filter (fun e => e.1 == key) = [(key, v)] := by
  obtain ⟨before, after, rfl, hbefore, hafter⟩ := split_of_lookup hinc hkeys hordered hv
  have hother : ∀ {others : Sorted κ α}, (∀ e ∈ others, e.1 ≠ key) →
      others.filter (fun e => e.1 == key) = [] := fun h =>
    List.filter_eq_nil_iff.2 fun e he hsame => h e he (beq_iff_eq.1 hsame)
  rw [List.filter_append, List.filter_cons, hother hbefore, hother hafter, beq_self_eq_true]
  rfl

/-- The search finds what a plain look-up does. -/
theorem find?_eq_lookup (hinc : Increasing order entries) (hkeys : Keys p entries)
    (hordered : OrderedOn p order) (hkey : Exact p order key) :
    find? order key entries = entries.lookup key := by
  ext v
  rw [find?_eq_some_iff hkeys hinc hordered hkey.holds, lookup_eq_some_iff hinc hkeys hordered]
  constructor
  · rintro ⟨k, hmem, heq⟩
    rw [← hkey.eq_of_compare k (hkeys _ hmem) heq]
    exact hmem
  · exact fun hmem => ⟨key, hmem, hordered.self hkey.holds⟩

/-- What is collected under one key comes from its value. -/
theorem flatMap_lookup {β : Type} [DecidableEq κ] (hinc : Increasing order entries)
    (hkeys : Keys p entries) (hordered : OrderedOn p order) (key : κ) (f : α → List β) :
    (entries.flatMap fun e => if e.1 = key then f e.2 else []) =
      ((entries.lookup key).map f).getD [] := by
  -- entries with other keys contribute nothing
  have hother : ∀ {entries : Sorted κ α}, (∀ e ∈ entries, e.1 ≠ key) →
      (entries.flatMap fun e => if e.1 = key then f e.2 else []) = [] := fun h =>
    List.flatMap_eq_nil_iff.2 fun e he => if_neg (h e he)
  cases hv : entries.lookup key with
  | none =>
    rw [hother fun e he hsame => bne_iff_ne.1 (List.lookup_eq_none_iff.1 hv e he) hsame.symm]
    rfl
  | some v =>
    obtain ⟨before, after, rfl, hbefore, hafter⟩ := split_of_lookup hinc hkeys hordered hv
    rw [List.flatMap_append, List.flatMap_cons, hother hbefore, hother hafter, if_pos rfl,
      List.nil_append, List.append_nil]
    rfl

/-! ## Changing -/

/-- A change under an exact key changes the value of this key and of no other. -/
theorem lookup_alter [DecidableEq κ] (hinc : Increasing order entries) (hkeys : Keys p entries)
    (hordered : OrderedOn p order) (hkey : Exact p order key) (fresh : α) (change : α → α) (k : κ) :
    (alter order key fresh change entries).lookup k =
      if k = key then some (change ((entries.lookup key).getD fresh)) else entries.lookup k := by
  rcases alter_cases hkeys hinc hordered hkey.holds fresh change with
    ⟨before, k', v, after, rfl, heq, halter⟩ | ⟨before, after, rfl, hbefore, hafter, halter⟩
  · -- the entry that was met has the very key
    obtain rfl := hkey.eq_of_compare k' (hkeys _ (List.mem_append_right _ List.mem_cons_self)) heq
    have hnone : before.lookup k' = none :=
      lookup_eq_none_of_ne (hinc.ne_of_split hkeys hordered).1
    rw [halter, List.lookup_append, List.lookup_append, List.lookup_append, hnone]
    split
    · next hsame =>
      rw [hsame, hnone, List.lookup_cons_self, List.lookup_cons_self]
      rfl
    · next hother =>
      rw [List.lookup_cons, List.lookup_cons, beq_eq_false_iff_ne.2 hother]
  · -- the key is new
    have hself := hordered.self hkey.holds
    have hne {e : κ × α} {o : Ordering} (h : order e.1 key = o) (ho : o ≠ .eq) : e.1 ≠ key := by
      intro hsame
      rw [hsame, hself] at h
      exact ho h.symm
    have hnone : before.lookup key = none :=
      lookup_eq_none_of_ne fun e he => hne (hbefore e he) nofun
    have hnone' : after.lookup key = none :=
      lookup_eq_none_of_ne fun e he => hne (hafter e he) nofun
    rw [halter, List.lookup_append, List.lookup_append, List.lookup_append, hnone, hnone']
    split
    · next hsame =>
      rw [hsame, hnone, List.lookup_cons_self]
      rfl
    · next hother =>
      rw [List.lookup_cons, beq_eq_false_iff_ne.2 hother]

/-! ## Equality -/

/-- Sorted lists with the same values under all keys are the same. -/
theorem eq_of_lookup (hinc : Increasing order entries) (hkeys : Keys p entries)
    (hinc' : Increasing order entries') (hkeys' : Keys p entries') (hordered : OrderedOn p order)
    (h : ∀ k, entries.lookup k = entries'.lookup k) : entries = entries' := by
  have hperm : entries.Perm entries' := by
    refine (List.perm_ext_iff_of_nodup ?_ ?_).2 fun e => ?_
    · exact List.Nodup.of_map _ (hinc.nodup_keys hkeys hordered)
    · exact List.Nodup.of_map _ (hinc'.nodup_keys hkeys' hordered)
    · rw [← lookup_eq_some_iff hinc hkeys hordered, ← lookup_eq_some_iff hinc' hkeys' hordered, h]
  refine hperm.eq_of_pairwise ?_ hinc hinc'
  intro a b ha hb hlt hgt
  rw [hordered.gt_of_lt (hkeys a ha) (hkeys' b hb) hlt] at hgt
  cases hgt

/-! ## Orders of all keys

A comparator that orders all keys asks for no property of them, and if only a key itself compares
equal to it, every key is exact. -/

namespace Increasing

variable [Ord κ] [Std.TransOrd κ]

theorem lookup_eq_some_iff (hinc : Increasing compare entries) {v : α} :
    entries.lookup key = some v ↔ (key, v) ∈ entries :=
  Sorted.lookup_eq_some_iff hinc (p := fun _ => True) (fun _ _ => trivial) .of_transCmp

theorem flatMap_lookup {β : Type} [DecidableEq κ] (hinc : Increasing compare entries) (key : κ)
    (f : α → List β) : (entries.flatMap fun e => if e.1 = key then f e.2 else []) =
      ((entries.lookup key).map f).getD [] :=
  Sorted.flatMap_lookup hinc (p := fun _ => True) (fun _ _ => trivial) .of_transCmp key f

theorem eq_of_lookup (hinc : Increasing compare entries) (hinc' : Increasing compare entries')
    (h : ∀ k, entries.lookup k = entries'.lookup k) : entries = entries' :=
  Sorted.eq_of_lookup hinc (p := fun _ => True) (fun _ _ => trivial) hinc' (fun _ _ => trivial)
    .of_transCmp h

variable [Std.LawfulEqOrd κ]

theorem find?_eq_lookup (hinc : Increasing compare entries) (key : κ) :
    find? compare key entries = entries.lookup key :=
  Sorted.find?_eq_lookup hinc (fun _ _ => trivial) .of_transCmp (exact_of_lawfulEqOrd key)

theorem lookup_alter [DecidableEq κ] (hinc : Increasing compare entries) (key : κ) (fresh : α)
    (change : α → α) (k : κ) :
    (Sorted.alter compare key fresh change entries).lookup k =
      if k = key then some (change ((entries.lookup key).getD fresh)) else entries.lookup k :=
  Sorted.lookup_alter hinc (fun _ _ => trivial) .of_transCmp (exact_of_lawfulEqOrd key)
  fresh change k

end Increasing

end WideColumn.Sorted
