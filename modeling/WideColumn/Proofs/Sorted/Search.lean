import WideColumn.Proofs.OrderedOn
import WideColumn.Sorted

/-!
# Searching sorted lists

Halving finds the place of a key in a list whose keys increase under a comparator that orders them
and the key.

Every step keeps a `Window` around that place: its first entry is not behind the key unless it is
the first of all, and everything behind the window is behind the key. A window of one entry decides
(`located_locate`). What the list operations do is then read off the place:

- `index?_eq_some_iff` and `find?_eq_some_iff`: a key is found where an entry compares equal to it;
- `Increasing.alter`: changing the value under a key keeps the order.
-/

namespace WideColumn.Sorted

variable {κ α : Type}

/-- All keys have a property. -/
def Keys (p : κ → Prop) (entries : Sorted κ α) : Prop :=
  ∀ e ∈ entries, p e.1

section Search

variable {p : κ → Prop} {order : κ → κ → Ordering} {key : κ} {entries : Sorted κ α}

/-! ## Windows -/

theorem Increasing.lt_of_lt (h : Increasing order entries) {i j : Nat} {a b : κ × α}
    (ha : entries[i]? = some a) (hb : entries[j]? = some b) (hij : i < j) :
    order a.1 b.1 = .lt := by
  obtain ⟨hi, rfl⟩ := List.getElem?_eq_some_iff.1 ha
  obtain ⟨hj, rfl⟩ := List.getElem?_eq_some_iff.1 hb
  exact List.pairwise_iff_getElem.1 h i j hi hj hij

/-- The place of a key is among the `size` entries from `base` on. -/
structure Window (order : κ → κ → Ordering) (key : κ) (entries : Sorted κ α) (base size : Nat) :
    Prop where
  pos : 0 < size
  le_length : base + size ≤ entries.length
  reached : base = 0 ∨ ∃ e, entries[base]? = some e ∧ order e.1 key ≠ .gt
  behind : ∀ (i : Nat) (e : κ × α), entries[i]? = some e → base + size ≤ i → order e.1 key = .gt

/-- Halving ends with a window of one entry. -/
theorem Window.narrow (hkeys : Keys p entries) (hinc : Increasing order entries)
    (hordered : OrderedOn p order) (hkey : p key) {base size : Nat}
    (h : Window order key entries base size) :
    Window order key entries (narrow order key entries base size) 1 := by
  -- The induction follows the halvings; the window is what they keep.
  fun_induction Sorted.narrow order key entries base size with
  | case1 base size hsize =>
    have hone : size = 1 := Nat.le_antisymm hsize h.pos
    rw [hone] at h
    exact h
  | case2 base size hsize middle k v hmiddle hgt ih =>
    -- The middle entry and all behind it are behind the key.
    have hpos := h.pos
    have hlength := h.le_length
    refine ih ⟨by omega, by omega, h.reached, fun i e he hi => ?_⟩
    by_cases hsame : i = middle
    · rw [hsame, hmiddle] at he
      cases he
      exact hgt
    · have hlt : order k e.1 = .lt := hinc.lt_of_lt hmiddle he (by omega)
      have hk : p k := hkeys _ (List.mem_of_getElem? hmiddle)
      have he' : p e.1 := hkeys _ (List.mem_of_getElem? he)
      exact hordered.gt_trans he' hk hkey (hordered.gt_of_lt hk he' hlt) hgt
  | case3 base size hsize middle k v hmiddle hgt ih =>
    -- The middle entry is not behind the key, and the window goes on from it.
    have hlength := h.le_length
    refine ih ⟨by omega, by omega, .inr ⟨(k, v), hmiddle, hgt⟩, fun i e he hi => ?_⟩
    exact h.behind i e he (by omega)
  | case4 base size hsize middle hmiddle =>
    -- The middle lies inside the window, so there is an entry.
    have hlength := h.le_length
    rw [List.getElem?_eq_none_iff] at hmiddle
    omega

/-! ## The place of a key -/

/-- An answer of the search is right: the entries in front of the place are before the key, the ones
behind it are after the key, and the entry at the place compares equal to it. -/
inductive Located (order : κ → κ → Ordering) (key : κ) (entries : Sorted κ α) : Bool × Nat → Prop
  | found {before after : Sorted κ α} {k : κ} {v : α}
      (hentries : entries = before ++ (k, v) :: after)
      (heq : order k key = .eq) (hbefore : ∀ e ∈ before, order e.1 key = .lt)
      (hafter : ∀ e ∈ after, order e.1 key = .gt) : Located order key entries (true, before.length)
  | absent {before after : Sorted κ α} (hentries : entries = before ++ after)
      (hbefore : ∀ e ∈ before, order e.1 key = .lt) (hafter : ∀ e ∈ after, order e.1 key = .gt) :
      Located order key entries (false, before.length)

/-- Splitting a list at one of its entries. -/
private theorem eq_take_append_drop {i : Nat} {e : κ × α} (h : entries[i]? = some e) :
    entries = entries.take i ++ e :: entries.drop (i + 1) ∧ (entries.take i).length = i := by
  obtain ⟨hi, rfl⟩ := List.getElem?_eq_some_iff.1 h
  refine ⟨?_, List.length_take_of_le (Nat.le_of_lt hi)⟩
  rw [List.getElem_cons_drop, List.take_append_drop]

theorem located_locate (hkeys : Keys p entries) (hinc : Increasing order entries)
    (hordered : OrderedOn p order) (hkey : p key) :
    Located order key entries (locate order key entries) := by
  rcases Nat.eq_zero_or_pos entries.length with hzero | hpos
  · rw [List.eq_nil_of_length_eq_zero hzero]
    exact @Located.absent _ _ order key [] [] [] rfl nofun nofun
  have hwindow : Window order key entries 0 entries.length :=
    ⟨hpos, Nat.le_of_eq (Nat.zero_add _), .inl rfl, fun i e he hi => by
      rw [List.getElem?_eq_none (by omega)] at he
      cases he⟩
  -- The whole list is a window, and halving leaves the one entry that decides.
  have hone := hwindow.narrow hkeys hinc hordered hkey
  rw [locate]
  generalize narrow order key entries 0 entries.length = base at hone
  obtain ⟨-, hlength, hreached, hbehind⟩ := hone
  obtain ⟨⟨k, v⟩, hbase⟩ : ∃ e, entries[base]? = some e :=
    ⟨entries[base], List.getElem?_eq_getElem (by omega)⟩
  obtain ⟨hsplit, htake⟩ := eq_take_append_drop hbase
  have hafter : ∀ e ∈ entries.drop (base + 1), order e.1 key = .gt := by
    intro e he
    obtain ⟨i, hi⟩ := List.mem_iff_getElem?.1 he
    rw [List.getElem?_drop] at hi
    exact hbehind _ e hi (Nat.le_add_right _ _)
  have hbefore (hle : order k key ≠ .gt) : ∀ e ∈ entries.take base, order e.1 key = .lt := by
    intro e he
    have hmem : e ∈ entries := List.mem_of_mem_take he
    obtain ⟨i, hi⟩ := List.mem_iff_getElem?.1 he
    rw [List.getElem?_take] at hi
    split at hi
    · next hlt =>
      have hek : order e.1 k = .lt := hinc.lt_of_lt hi hbase hlt
      exact hordered.lt_of_lt_of_ne_gt (hkeys e hmem) (hkeys _ (List.mem_of_getElem? hbase)) hkey
        hek hle
    · cases hi
  simp only [hbase]
  cases hk : order k key with
  | eq =>
    have h := Located.found hsplit hk (hbefore (by simp [hk])) hafter
    rw [htake] at h
    exact h
  | lt =>
    have hnext : entries = entries.take (base + 1) ++ entries.drop (base + 1) :=
      (List.take_append_drop _ _).symm
    have hlast : entries.take (base + 1) = entries.take base ++ [(k, v)] := by
      rw [List.take_add_one, hbase]
      rfl
    have hbefore' : ∀ e ∈ entries.take (base + 1), order e.1 key = .lt := by
      intro e he
      rw [hlast, List.mem_append, List.mem_singleton] at he
      rcases he with he | rfl
      · exact hbefore (by simp [hk]) e he
      · exact hk
    have h := Located.absent hnext hbefore' hafter
    rw [List.length_take_of_le hlength] at h
    exact h
  | gt =>
    -- Only the first entry of all can be behind the key.
    have hzero : base = 0 := by
      rcases hreached with hzero | ⟨e, he, hle⟩
      · exact hzero
      · rw [hbase] at he
        cases he
        exact absurd hk hle
    subst hzero
    refine @Located.absent _ _ order key entries [] entries rfl nofun fun e he => ?_
    rw [hsplit, List.take_zero, List.nil_append] at he
    rcases List.mem_cons.1 he with rfl | he
    · exact hk
    · exact hafter e he

/-! ## Reading -/

/-- A key is found where an entry compares equal to it. -/
theorem index?_eq_some_iff (hkeys : Keys p entries) (hinc : Increasing order entries)
    (hordered : OrderedOn p order) (hkey : p key) {i : Nat} :
    index? order key entries = some i ↔ ∃ e, entries[i]? = some e ∧ order e.1 key = .eq := by
  have hlocated := located_locate hkeys hinc hordered hkey
  rw [index?]
  generalize locate order key entries = place at hlocated
  cases hlocated with
  | @found before after k v hentries heq hbefore hafter =>
    have hplace : entries[before.length]? = some (k, v) := by
      rw [hentries, List.getElem?_append_right (Nat.le_refl _), Nat.sub_self]
      rfl
    constructor
    · intro h
      cases h
      exact ⟨(k, v), hplace, heq⟩
    · rintro ⟨e, he, heq'⟩
      -- Every other entry lies before or after the key.
      rcases Nat.lt_trichotomy i before.length with hlt | rfl | hgt
      · rw [hentries, List.getElem?_append_left hlt] at he
        rw [hbefore e (List.mem_of_getElem? he)] at heq'
        cases heq'
      · rfl
      · obtain ⟨n, hn⟩ : ∃ n, i - before.length = n + 1 := ⟨i - before.length - 1, by omega⟩
        rw [hentries, List.getElem?_append_right (Nat.le_of_lt hgt), hn,
          List.getElem?_cons_succ] at he
        rw [hafter e (List.mem_of_getElem? he)] at heq'
        cases heq'
  | absent hentries hbefore hafter =>
    constructor
    · intro h
      cases h
    · rintro ⟨e, he, heq⟩
      have hmem := List.mem_of_getElem? he
      rw [hentries, List.mem_append] at hmem
      rcases hmem with hmem | hmem
      · rw [hbefore e hmem] at heq
        cases heq
      · rw [hafter e hmem] at heq
        cases heq

/-- A key is found if and only if an entry compares equal to it. -/
theorem isSome_index?_iff (hkeys : Keys p entries) (hinc : Increasing order entries)
    (hordered : OrderedOn p order) (hkey : p key) :
    (index? order key entries).isSome = true ↔ ∃ e ∈ entries, order e.1 key = .eq := by
  rw [Option.isSome_iff_exists]
  constructor
  · rintro ⟨i, hi⟩
    obtain ⟨e, he, heq⟩ := (index?_eq_some_iff hkeys hinc hordered hkey).1 hi
    exact ⟨e, List.mem_of_getElem? he, heq⟩
  · rintro ⟨e, hmem, heq⟩
    obtain ⟨i, hi⟩ := List.mem_iff_getElem?.1 hmem
    exact ⟨i, (index?_eq_some_iff hkeys hinc hordered hkey).2 ⟨e, hi, heq⟩⟩

/-- The value under a key is that of the entry that compares equal to it. -/
theorem find?_eq_some_iff (hkeys : Keys p entries) (hinc : Increasing order entries)
    (hordered : OrderedOn p order) (hkey : p key) {v : α} :
    find? order key entries = some v ↔ ∃ k, (k, v) ∈ entries ∧ order k key = .eq := by
  rw [find?]
  constructor
  · -- what is found stands at the place the search gave
    intro h
    split at h
    · next i hi =>
      obtain ⟨e, he, heq⟩ := (index?_eq_some_iff hkeys hinc hordered hkey).1 hi
      rw [he] at h
      cases h
      exact ⟨e.1, List.mem_of_getElem? he, heq⟩
    · cases h
  · -- the search reaches the place the entry stands at
    rintro ⟨k, hmem, heq⟩
    obtain ⟨i, hi⟩ := List.mem_iff_getElem?.1 hmem
    rw [(index?_eq_some_iff hkeys hinc hordered hkey).2 ⟨(k, v), hi, heq⟩]
    simp [hi]

/-- What is found compares equal, in whichever order the entries stand. -/
theorem eq_of_index? {order : κ → κ → Ordering} {entries : Sorted κ α} {key : κ} {i : Nat}
    (h : index? order key entries = some i) : ∃ e, entries[i]? = some e ∧ order e.1 key = .eq := by
  rw [index?] at h
  split at h
  · next j hj =>
    cases h
    rw [locate] at hj
    split at hj
    · cases hj
    · next k v hbase =>
      split at hj
      · next heq =>
        cases hj
        exact ⟨_, hbase, heq⟩
      · cases hj
      · cases hj
  · cases h

/-- An index that is found is one of the list. -/
theorem exists_of_index? {order : κ → κ → Ordering} {entries : Sorted κ α} {key : κ} {i : Nat}
    (h : index? order key entries = some i) :
    ∃ before e after, entries = before ++ e :: after ∧ before.length = i := by
  obtain ⟨e, he, -⟩ := eq_of_index? h
  have hlt : i < entries.length := (List.getElem?_eq_some_iff.1 he).1
  exact ⟨entries.take i, entries[i], entries.drop (i + 1), by simp,
    List.length_take_of_le (Nat.le_of_lt hlt)⟩

/-- Whatever is found is there, in whichever order the entries stand. -/
theorem mem_of_find? {order : κ → κ → Ordering} {entries : Sorted κ α} {key : κ} {v : α}
    (h : find? order key entries = some v) : ∃ k, (k, v) ∈ entries := by
  rw [find?] at h
  split at h
  · obtain ⟨e, he, rfl⟩ := Option.map_eq_some_iff.1 h
    exact ⟨e.1, List.mem_of_getElem? he⟩
  · cases h

/-! ## Changes -/

/-- A change either meets an entry that compares equal to its key, or puts a new one between the
entries before the key and those after it. -/
theorem alter_cases (hkeys : Keys p entries) (hinc : Increasing order entries)
    (hordered : OrderedOn p order) (hkey : p key) (fresh : α) (change : α → α) :
    (∃ before k v after, entries = before ++ (k, v) :: after ∧ order k key = .eq ∧
        alter order key fresh change entries = before ++ (k, change v) :: after) ∨
      ∃ before after, entries = before ++ after ∧ (∀ e ∈ before, order e.1 key = .lt) ∧
        (∀ e ∈ after, order e.1 key = .gt) ∧
        alter order key fresh change entries = before ++ (key, change fresh) :: after := by
  -- the search either found an entry or the place where one belongs
  have hlocated := located_locate hkeys hinc hordered hkey
  rw [alter]
  generalize locate order key entries = place at hlocated
  cases hlocated with
  | @found before after k v hentries heq hbefore hafter =>
    refine .inl ⟨before, k, v, after, hentries, heq, ?_⟩
    subst hentries
    exact List.modifyTailIdx_add _ 0 before ((k, v) :: after)
  | @absent before after hentries hbefore hafter =>
    refine .inr ⟨before, after, hentries, hbefore, hafter, ?_⟩
    subst hentries
    exact List.modifyTailIdx_add _ 0 before after

/-- The order of a list depends on its keys only. -/
theorem increasing_iff_keys :
    Increasing order entries ↔ (entries.map (·.1)).Pairwise fun a b => order a b = .lt := by
  rw [List.pairwise_map]
  exact Iff.rfl

/-- Changing a value in place keeps all keys. -/
theorem map_key_modify (i : Nat) (change : α → α) :
    (entries.modify i fun (k, v) => (k, change v)).map (·.1) = entries.map (·.1) := by
  rcases Nat.lt_or_ge i entries.length with hlt | hge
  · obtain ⟨before, ⟨k, v⟩, after, hentries, -, hmodify⟩ :=
      List.exists_of_modify (fun (k, v) => (k, change v)) hlt
    rw [hmodify, hentries, List.map_append, List.map_append]
    rfl
  · rw [List.modify_eq_self hge]

theorem mem_modify {i : Nat} {change : α → α} {e : κ × α}
    (he : e ∈ entries.modify i fun (k, v) => (k, change v)) :
    e ∈ entries ∨ ∃ v, (e.1, v) ∈ entries ∧ e.2 = change v := by
  rcases Nat.lt_or_ge i entries.length with hlt | hge
  · obtain ⟨before, ⟨k, v⟩, after, hentries, -, hmodify⟩ :=
      List.exists_of_modify (fun (k, v) => (k, change v)) hlt
    rw [hmodify, List.mem_append, List.mem_cons] at he
    rcases he with he | rfl | he
    · exact .inl (hentries ▸ List.mem_append_left _ he)
    · exact .inr ⟨v, hentries ▸ List.mem_append_right _ List.mem_cons_self, rfl⟩
    · exact .inl (hentries ▸ List.mem_append_right _ (List.mem_cons_of_mem _ he))
  · rw [List.modify_eq_self hge] at he
    exact .inl he

/-- Changing the value under a key keeps the order. -/
theorem Increasing.alter (hinc : Increasing order entries) (hkeys : Keys p entries)
    (hordered : OrderedOn p order) (hkey : p key) (fresh : α) (change : α → α) :
    Increasing order (alter order key fresh change entries) := by
  rcases alter_cases hkeys hinc hordered hkey fresh change with
    ⟨before, k, v, after, hentries, -, halter⟩ | ⟨before, after, hentries, hbefore, hafter, halter⟩
  · -- the keys stay as they are
    rw [halter, increasing_iff_keys]
    rw [hentries, increasing_iff_keys] at hinc
    simpa using hinc
  · -- the new entry goes between the smaller and the greater ones
    rw [hentries] at hinc hkeys
    obtain ⟨hinc₁, hinc₂, hcross⟩ := List.pairwise_append.1 hinc
    rw [halter]
    refine List.pairwise_append.2 ⟨hinc₁, List.pairwise_cons.2 ⟨fun e he => ?_, hinc₂⟩, ?_⟩
    · exact hordered.lt_of_gt (hkeys e (List.mem_append_right _ he)) hkey (hafter e he)
    · intro e he e' he'
      rcases List.mem_cons.1 he' with rfl | he'
      · exact hbefore e he
      · exact hcross e he e' he'

theorem Increasing.alter_compare [Ord κ] [Std.TransOrd κ]
    (hinc : Increasing compare entries) (key : κ) (fresh : α) (change : α → α) :
    Increasing compare (Sorted.alter compare key fresh change entries) :=
  hinc.alter (p := fun _ => True) (fun _ _ => trivial) .of_transCmp trivial fresh change

/-- The keys after a change are those before it and the one that was changed. -/
theorem Increasing.mem_keys_alter [Ord κ] [Std.TransOrd κ] [Std.LawfulEqOrd κ]
    (hinc : Increasing compare entries) (key k : κ) (fresh : α) (change : α → α) :
    k ∈ (Sorted.alter compare key fresh change entries).map (·.1) ↔
      k ∈ entries.map (·.1) ∨ k = key := by
  rcases alter_cases (p := fun _ => True) (fun _ _ => trivial)
    hinc .of_transCmp trivial fresh change
    with ⟨before, k', v, after, hentries, heq, halter⟩ | ⟨before, after, hentries, -, -, halter⟩
  · -- the key was there
    obtain rfl : k' = key := Std.LawfulEqOrd.eq_of_compare heq
    rw [halter, hentries, List.map_append, List.map_append, List.map_cons, List.map_cons]
    refine ⟨.inl, ?_⟩
    rintro (hk | rfl)
    · exact hk
    · exact List.mem_append_right _ List.mem_cons_self
  · -- the key was added
    rw [halter, hentries]
    simp only [List.map_append, List.map_cons, List.mem_append, List.mem_cons, or_assoc]
    exact or_congr_right or_comm

/-- After a change each entry was there before, or carries a changed value, or is the new one. -/
theorem mem_alter (hkeys : Keys p entries) (hinc : Increasing order entries)
    (hordered : OrderedOn p order) (hkey : p key) {fresh : α} {change : α → α} {e : κ × α}
    (he : e ∈ alter order key fresh change entries) :
    e ∈ entries ∨ (∃ v, (e.1, v) ∈ entries ∧ order e.1 key = .eq ∧ e.2 = change v) ∨
      e = (key, change fresh) := by
  -- What a change does to the list has two forms, and the key is new in the second one only.
  rcases alter_cases hkeys hinc hordered hkey fresh change with
    ⟨before, k, v, after, hentries, heq, halter⟩ | ⟨before, after, hentries, -, -, halter⟩
  · rw [halter, List.mem_append, List.mem_cons] at he
    rcases he with he | rfl | he
    · exact .inl (hentries ▸ List.mem_append_left _ he)
    · exact .inr (.inl ⟨v, hentries ▸ List.mem_append_right _ List.mem_cons_self, heq, rfl⟩)
    · exact .inl (hentries ▸ List.mem_append_right _ (List.mem_cons_of_mem _ he))
  · rw [halter, List.mem_append, List.mem_cons] at he
    rcases he with he | rfl | he
    · exact .inl (hentries ▸ List.mem_append_left _ he)
    · exact .inr (.inr rfl)
    · exact .inl (hentries ▸ List.mem_append_right _ he)

theorem Keys.alter (hkeys : Keys p entries) (hinc : Increasing order entries)
    (hordered : OrderedOn p order) (hkey : p key) (fresh : α) (change : α → α) :
    Keys p (alter order key fresh change entries) := by
  intro e he
  rcases mem_alter hkeys hinc hordered hkey he with he | ⟨v, hmem, -, -⟩ | rfl
  · exact hkeys e he
  · exact hkeys (e.1, v) hmem
  · exact hkey

/-- A property of all entries holds after a change that keeps it where it compares equal to the key,
if it holds of a new entry. The order of the list has no part in this. -/
theorem forall_entry_alter {order : κ → κ → Ordering} {key : κ} {entries : Sorted κ α}
    {r : κ × α → Prop} {fresh : α} {change : α → α} (hall : ∀ e ∈ entries, r e)
    (hfresh : r (key, change fresh))
    (hchange : ∀ k v, order k key = .eq → r (k, v) → r (k, change v)) :
    ∀ e ∈ alter order key fresh change entries, r e := by
  intro e he
  rw [alter] at he
  split at he
  · -- an entry was met and changed in place
    next i hlocate =>
    have hindex : index? order key entries = some i := by rw [index?, hlocate]
    obtain ⟨⟨k, v⟩, hplace, heq⟩ := eq_of_index? hindex
    obtain ⟨hlt, hentry⟩ := List.getElem?_eq_some_iff.1 hplace
    rw [List.modify_eq_take_cons_drop hlt, hentry, List.mem_append, List.mem_cons] at he
    rcases he with he | rfl | he
    · exact hall e (List.mem_of_mem_take he)
    · exact hchange k v heq (hall (k, v) (List.mem_of_getElem? hplace))
    · exact hall e (List.mem_of_mem_drop he)
  · -- an entry was put in; a place past the end would put in none
    next i _ =>
    rcases Nat.lt_or_ge entries.length i with hlt | hge
    · rw [List.insertIdx_of_length_lt hlt] at he
      exact hall e he
    · rcases (List.mem_insertIdx hge).1 he with rfl | he
      · exact hfresh
      · exact hall e he

/-- A property of all values holds after a change that keeps it, if it holds of a new value. -/
theorem forall_mem_alter {order : κ → κ → Ordering} {key : κ} {entries : Sorted κ α} {q : α → Prop}
    {fresh : α} {change : α → α} (hall : ∀ e ∈ entries, q e.2) (hfresh : q (change fresh))
    (hchange : ∀ v, q v → q (change v)) :
    ∀ e ∈ alter order key fresh change entries, q e.2 :=
  forall_entry_alter (r := fun e => q e.2) hall hfresh fun _ v _ => hchange v

theorem forall_mem_set {order : κ → κ → Ordering} {key : κ} {entries : Sorted κ α} {q : α → Prop}
    {v : α} (hall : ∀ e ∈ entries, q e.2) (hv : q v) : ∀ e ∈ set order key v entries, q e.2 :=
  forall_mem_alter hall hv fun _ _ => hv

/-- There is an entry under a key that was changed. -/
theorem alter_ne_nil (order : κ → κ → Ordering) (key : κ) (fresh : α) (change : α → α)
    (entries : Sorted κ α) : alter order key fresh change entries ≠ [] := by
  cases entries with
  | nil =>
    have hlocate : locate order key ([] : Sorted κ α) = (false, 0) := rfl
    rw [alter, hlocate]
    exact List.cons_ne_nil _ _
  | cons e entries =>
    refine List.ne_nil_of_length_pos ?_
    rw [alter]
    -- either way the list has at least the entry that was changed
    split
    · rw [List.length_modify]
      exact Nat.succ_pos _
    · rw [List.length_insertIdx]
      split
      · exact Nat.succ_pos _
      · exact Nat.succ_pos _

theorem Increasing.set (hinc : Increasing order entries) (hkeys : Keys p entries)
    (hordered : OrderedOn p order) (hkey : p key) (v : α) :
    Increasing order (set order key v entries) :=
  hinc.alter hkeys hordered hkey v fun _ => v

/-- After a value was put under a key each entry was there before, or it is under that key and has
that value. -/
theorem mem_set (hkeys : Keys p entries) (hinc : Increasing order entries)
    (hordered : OrderedOn p order) (hkey : p key) {v : α} {e : κ × α}
    (he : e ∈ set order key v entries) :
    e ∈ entries ∨ ((∃ v', (e.1, v') ∈ entries) ∧ order e.1 key = .eq ∧ e.2 = v) ∨ e = (key, v) := by
  rcases mem_alter hkeys hinc hordered hkey he with he | ⟨v', hmem, heq, hchange⟩ | he
  · exact .inl he
  · exact .inr (.inl ⟨⟨v', hmem⟩, heq, hchange⟩)
  · exact .inr (.inr he)

end Search

end WideColumn.Sorted
