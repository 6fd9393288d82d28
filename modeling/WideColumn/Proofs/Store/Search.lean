import WideColumn.Proofs.DataType.OrderLaws
import WideColumn.Proofs.Sorted.Search

/-!
# Searching for arbitrary bytes

Stored names decode under their comparator, but what they are searched for need not: conditions,
deletions and reads may name any bytes. A comparator is no order on such bytes, so halving may go
astray. It does no harm, for bytes that do not decode compare equal to no name that does.

- `DataType.accepts_of_compare`: what compares equal to bytes that a type reads, the type reads, by
  recursion on the type;
- `Sorted.index?_eq_some_iff_of_names`, `Sorted.find?_eq_some_iff_of_names`: so the search finds
  exactly the names that compare equal, whatever it is given.
-/

namespace WideColumn

namespace DataType

/-! ## Bytes that compare equal -/

theorem eq_of_compareSigned_eq {a b : Bytes} (h : compareSigned a b = .eq) : a = b := by
  by_cases hwidth : a.length = 8 ∧ b.length = 8
  · exact eq_of_compareSigned hwidth.1 hwidth.2 h
  · rw [compareSigned, if_neg hwidth] at h
    exact Std.LawfulEqOrd.eq_of_compare (Ordering.then_eq_eq.1 h).2

mutual

/-- Bytes that compare equal to what a type reads are read by the type. -/
theorem accepts_of_compare : ∀ {type : DataType} {a b : Bytes}, Accepts type a →
    compare type a b = .eq → Accepts type b
  | .composite types, a, b, ha, h => by
    obtain ⟨hframes, hfits⟩ := frames_of_accepts ha
    rw [compare, hframes] at h
    -- A broken frame makes the whole byte strings decide, and otherwise the frames fit one by one.
    rcases fits_of_compareFrames hfits h with hwhole | ⟨gs, hgs, hfits'⟩
    · exact Std.LawfulEqOrd.eq_of_compare hwhole ▸ ha
    · rw [eq_flatMap_of_frames hgs]
      exact accepts_flatMap_bytes (length_component_of_frames hgs) hfits'
  | .long, _, _, ha, h | .counter, _, _, ha, h | .date, _, _, ha, h =>
    eq_of_compareSigned_eq h ▸ ha
  | .timeUuid, _, _, ha, h => eq_of_compareTime h ▸ ha
  | .uuid, _, _, ha, h => eq_of_compareUuid h ▸ ha
  | .bytes, _, _, ha, h | .ascii, _, _, ha, h | .utf8, _, _, ha, h | .integer, _, _, ha, h
  | .boolean, _, _, ha, h | .lexicalUuid, _, _, ha, h | .list _, _, _, ha, h
  | .map _ _, _, _, ha, h => by
    rw [compare] at h
    exact Std.LawfulEqOrd.eq_of_compare h ▸ ha

/-- Frames that compare equal to frames of some types are such frames, unless one of them is
broken. -/
theorem fits_of_compareFrames {whole : Ordering} : ∀ {types : List DataType} {fs : List Frame}
    {gs : List (Option Frame)}, Fits types fs → compareFrames whole types (fs.map some) gs = .eq →
    whole = .eq ∨ ∃ gs', gs = gs'.map some ∧ Fits types gs'
  | _, [], [], hfits, _ => .inr ⟨[], rfl, hfits⟩
  | types, [], _ :: _, _, h => by cases types <;> simp [compareFrames] at h
  | [], _ :: _, _, hfits, _ => hfits.elim fun _ h => h.elim
  | type :: types, _ :: _, [], _, h => by simp [compareFrames] at h
  | type :: types, _ :: _, none :: _, _, h => by
    simp only [List.map_cons, compareFrames] at h
    exact .inl h
  | type :: types, f :: fs, some g :: gs, hfits, h => by
    -- the components agree one by one, and equal components are both ones their type accepts
    simp only [List.map_cons, compareFrames, Ordering.then_eq_eq] at h
    obtain ⟨hcomponent, hrest⟩ := fits_cons hfits
    obtain ⟨w, hw⟩ := accepts_of_compare hcomponent h.1
    rcases fits_of_compareFrames hrest h.2.2 with hwhole | ⟨gs', rfl, ws, hws⟩
    · exact .inl hwhole
    · exact .inr ⟨g :: gs', rfl, w :: ws, hw, hws⟩

end

end DataType

/-! ## Searching -/

namespace Sorted

variable {α : Type} {type : DataType} {entries : Sorted Bytes α} {key : Bytes} {i : Nat} {v : α}

/-- Among names that decode the search finds any bytes where an entry compares equal to them. -/
theorem index?_eq_some_iff_of_names (hkeys : Keys type.Accepts entries)
    (hinc : Increasing type.compare entries) :
    index? type.compare key entries = some i ↔
    ∃ e, entries[i]? = some e ∧ type.compare e.1 key = .eq := by
  refine ⟨eq_of_index?, fun h => ?_⟩
  -- An entry compares equal to the bytes, so they decode.
  obtain ⟨e, he, heq⟩ := h
  have hkey : type.Accepts key :=
    DataType.accepts_of_compare (hkeys e (List.mem_of_getElem? he)) heq
  exact (index?_eq_some_iff hkeys hinc (DataType.orderedOn_compare type) hkey).2 ⟨e, he, heq⟩

theorem find?_eq_some_iff_of_names (hkeys : Keys type.Accepts entries)
    (hinc : Increasing type.compare entries) :
    find? type.compare key entries = some v ↔ ∃ k, (k, v) ∈ entries ∧ type.compare k key = .eq := by
  rw [find?]
  constructor
  · -- what is found stands at the place the search gave
    intro h
    split at h
    · next i hi =>
      obtain ⟨e, he, heq⟩ := eq_of_index? hi
      rw [he] at h
      cases h
      exact ⟨e.1, List.mem_of_getElem? he, heq⟩
    · cases h
  · -- the search reaches the place the entry stands at
    rintro ⟨k, hmem, heq⟩
    obtain ⟨i, hi⟩ := List.mem_iff_getElem?.1 hmem
    rw [(index?_eq_some_iff_of_names hkeys hinc).2 ⟨(k, v), hi, heq⟩]
    simp [hi]

end Sorted

end WideColumn
