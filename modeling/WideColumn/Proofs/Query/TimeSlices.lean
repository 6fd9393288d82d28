import WideColumn.Proofs.Query.Selects
import WideColumn.Proofs.Uuid.Moments

/-!
# Slices over time

A moment at the end of a slice over time-based UUIDs stands for the first UUID of the moment at the
lower end and for the last one at the upper end, whether the end is inclusive or not. The UUIDs of a
moment are those whose ticks are the first ones of its microsecond: the nine ticks behind them
belong to the same microsecond and lie behind the last UUID of the moment.

- `within_moments_iff`: what an inclusive slice between two moments covers;
- `inside_exclusive_moment_iff`: what an exclusive bound of a composite name lets in that ends in a
  moment.
-/

namespace WideColumn

open Store

/-! ## Moments as bounds -/

namespace Uuid

variable {u : Uuid} {micros m : Int}

/-- The UUID that a moment stands for at an end of a slice; `lower` says at which one. -/
def ofMoment (lower : Bool) (micros : Int) : Uuid := if lower then lowest micros else highest micros

private theorem ticksOf_ofMoment (lower : Bool) (micros : Int) :
    ticksOf (ofMoment lower micros).bytes = ticksOfMicros micros := by
  cases lower
  · exact ticksOf_highest micros
  · exact ticksOf_lowest micros

/-- Names before the first UUID of a moment are those with fewer ticks. -/
theorem lt_lowest_iff (hu : u.IsTime) (micros : Int) :
    compareTime u.bytes (lowest micros).bytes = .lt ↔ ticksOf u.bytes < ticksOfMicros micros := by
  rw [DataType.orderedOn_compareTime.swap u.length_bytes (lowest micros).length_bytes,
    Ordering.swap_eq_lt, ← Nat.not_le, ← lowest_le_iff hu, not_not]

/-- Names after the last UUID of a moment are those with more ticks. -/
theorem highest_lt_iff (hu : u.IsTime) (micros : Int) :
    compareTime u.bytes (highest micros).bytes = .gt ↔ ticksOfMicros micros < ticksOf u.bytes := by
  rw [← Nat.not_le, ← le_highest_iff hu, not_not]

private theorem compareTime_eq_eq_iff {v : Uuid} : compareTime u.bytes v.bytes = .eq ↔ u = v := by
  constructor
  · intro h
    cases u
    cases v
    simpa using DataType.eq_of_compareTime h
  · rintro rfl
    exact DataType.orderedOn_compareTime.self u.length_bytes

end Uuid

namespace DataType

/-- Whether the end is inclusive makes no difference for the UUID that a moment stands for. -/
theorem pack_moment {p : Value} {t : Int64} (hp : momentOf? p = some t) (lower inclusive : Bool) :
    pack .timeUuid p (.bound (packBound.sliceEnd lower inclusive)) =
      .ok (Uuid.ofMoment lower t.toInt).bytes := by
  cases lower <;>
    simp [pack, packSimple, hp, packMoment, packBound.sliceEnd, PackContext.bound, Uuid.ofMoment]

private theorem coerce_moment {p : Value} {t : Int64} (hp : momentOf? p = some t)
    (lower inclusive : Bool) :
    coerce .timeUuid (packBound.sliceEnd lower inclusive) p =
      .uuid (Uuid.ofMoment lower t.toInt) := by
  cases lower <;>
    simp [coerce, coerceSimple, coerceMoment, coerceUuid, hp, packBound.sliceEnd, Uuid.ofMoment]

end DataType

private theorem packBound_moment {p : Value} {t : Int64} (hp : DataType.momentOf? p = some t)
    (lower : Bool) :
    packBound .timeUuid lower (.included p) = .ok (Uuid.ofMoment lower t.toInt).bytes := by
  rw [packBound, DataType.pack_moment hp]
  rfl

/-! ## Inclusive bounds -/

theorem Uuid.bytes_ne_nil (u : Uuid) : u.bytes ≠ [] := by
  intro hnil
  have hlength := u.length_bytes
  rw [hnil] at hlength
  cases hlength

/-- An inclusive bound at a moment lets UUIDs in by their ticks. -/
theorem inside_moment_iff {u : Uuid} (hu : u.IsTime) (lower : Bool) (micros : Int) :
    inside (DataType.compare .timeUuid) lower (Uuid.ofMoment lower micros).bytes u.bytes = true ↔
      if lower then Uuid.ticksOfMicros micros ≤ Uuid.ticksOf u.bytes
      else Uuid.ticksOf u.bytes ≤ Uuid.ticksOfMicros micros := by
  rw [inside_of_ne_nil (Uuid.bytes_ne_nil _), DataType.compare]
  cases lower with
  | true => simpa [Uuid.ofMoment] using (not_congr (Uuid.lt_lowest_iff hu micros))
  | false => simpa [Uuid.ofMoment] using (not_congr (Uuid.highest_lt_iff hu micros))

/-- A slice between two moments covers the microseconds between them, the first one as a whole, but
of the last microsecond only the first tick. So the last UUID of a moment comes before UUIDs that
carry the same microsecond. -/
theorem within_moments_iff {u : Uuid} (hu : u.IsTime) {a b : Int64} (ha : Uuid.Counted a.toInt)
    (hb : Uuid.Counted b.toInt) :
    ∃ m low high, u.micros? = some m ∧
      packBound .timeUuid true (.included (.long a)) = .ok low ∧
      packBound .timeUuid false (.included (.long b)) = .ok high ∧
      (within (DataType.compare .timeUuid) low high u.bytes = true ↔
        a.toInt ≤ m ∧ (m < b.toInt ∨ m = b.toInt ∧
          (Uuid.ticksOf u.bytes : Int) = 10 * m + Uuid.epochTicks)) ∧
      Uuid.compareTime (Uuid.lowest m).bytes u.bytes ≠ .gt ∧
      (Uuid.compareTime u.bytes (Uuid.highest m).bytes ≠ .gt ↔
        (Uuid.ticksOf u.bytes : Int) = 10 * m + Uuid.epochTicks) := by
  -- a time UUID counts some microsecond, and its ticks lie within the ten of it
  obtain ⟨m, hm⟩ : ∃ m, u.micros? = some m := by
    simp [Uuid.micros?, Uuid.ticks?_of_isTime hu]
  have hcounted := (Uuid.counted_of_micros? hu hm).ticksOfMicros_eq
  have hlow := ha.ticksOfMicros_eq
  have hhigh := hb.ticksOfMicros_eq
  obtain ⟨hleast, hmost⟩ := (Uuid.micros?_eq_some_iff hu).1 hm
  refine ⟨m, _, _, hm, packBound_moment rfl true, packBound_moment rfl false, ?_, ?_, ?_⟩
  · rw [within_eq_inside, Bool.and_eq_true, inside_moment_iff hu, inside_moment_iff hu, if_pos rfl,
      if_neg Bool.false_ne_true]
    omega
  · -- both ends compare as their ticks do; the rest is arithmetic
    rw [Uuid.lowest_le_iff hu]
    omega
  · rw [Uuid.le_highest_iff hu]
    omega

/-- A UUID that carries the start of 1970 and half a microsecond. -/
def Uuid.halfMicrosecond : Uuid :=
  ⟨Uuid.timeBytes (Uuid.epochTicks + 5) 0x1234 [1, 2, 3, 4, 5, 6], Uuid.length_timeBytes ..⟩

/-- The slice of a UUID's own microsecond does not reach it. -/
theorem within_moments_iff_halfMicrosecond :
    let u := Uuid.halfMicrosecond
    u.IsTime ∧ Uuid.Counted 0 ∧ Uuid.Counted 1 ∧ u.micros? = some 0 ∧
      (∃ low high, packBound .timeUuid true (.included (.long 0)) = .ok low ∧
        packBound .timeUuid false (.included (.long 1)) = .ok high ∧
        within (DataType.compare .timeUuid) low high u.bytes = true) ∧
      ¬ Uuid.compareTime u.bytes (Uuid.highest 0).bytes ≠ .gt := by
  intro u
  have htime : u.IsTime := ⟨by decide +kernel, by decide +kernel⟩
  have hticks : Uuid.ticksOf u.bytes = Uuid.epochTicks + 5 := by decide +kernel
  -- the tick is five past the first one of microsecond 0, so 0 and 1 bracket it
  have hzero : Uuid.Counted (0 : Int64).toInt := by decide
  have hone : Uuid.Counted (1 : Int64).toInt := by decide
  obtain ⟨m, low, high, hm, hlow, hhigh, hwithin, -, hhighest⟩ :=
    within_moments_iff htime hzero hone
  have hmicros : u.micros? = some 0 := by decide +kernel
  cases hmicros.symm.trans hm
  refine ⟨htime, hzero, hone, hmicros, ⟨low, high, hlow, hhigh, hwithin.2 (by decide)⟩, ?_⟩
  rw [hhighest, hticks]
  decide

/-- A UUID whose microsecond both bounds of a slice are made of lies outside the slice. -/
theorem not_within_own_microsecond :
    let u := Uuid.halfMicrosecond
    u.IsTime ∧ u.micros? = some 0 ∧ Uuid.Counted 0 ∧ ∃ low high,
      packBound .timeUuid true (.included (.long 0)) = .ok low ∧
      packBound .timeUuid false (.included (.long 0)) = .ok high ∧
      within (DataType.compare .timeUuid) low high u.bytes = false ∧
      Uuid.compareTime u.bytes (Uuid.highest 0).bytes = .gt := by
  refine ⟨⟨by decide +kernel, by decide +kernel⟩, by decide +kernel, by decide, _, _,
    packBound_moment rfl true, packBound_moment rfl false, by decide +kernel, by decide +kernel⟩

/-! ## Exclusive bounds -/

section Exclusive

variable {types : List DataType} {ps : List Value} {p : Value} {t : Int64}
  (htype : types[ps.length]? = some .timeUuid) (hp : DataType.momentOf? p = some t)

include htype hp

/-- A name with the components in front of a moment is placed by its UUID. -/
theorem boundOrder_moment (lower inclusive : Bool) (u : Uuid) (rest : List Value) :
    DataType.boundOrder (.composite types)
        (.composite (DataType.coerceComponents types .exact ps ++ .uuid u :: rest))
        (DataType.coerce (.composite types) (packBound.sliceEnd lower inclusive)
          (.composite (ps ++ [p]))) =
      Uuid.compareTime u.bytes (Uuid.ofMoment lower t.toInt).bytes := by
  have hlength : types[(DataType.coerceComponents types .exact ps).length]? = some .timeUuid := by
    simpa using htype
  rw [DataType.coerce, DataType.coerceComponents_append_singleton _ p types ps htype,
    DataType.coerce_moment hp, DataType.boundOrder,
    DataType.boundComponents_append_singleton _ _ _ _ _ hlength, DataType.compareTime_bytes]
  rfl

/-- An exclusive bound that ends in a moment lets the UUIDs of the moment in, except for the one
that the moment stands for. -/
theorem inside_exclusive_moment_iff {lower : Bool} {b : Bytes}
    (hb : packBound (.composite types) lower (.excluded (.composite (ps ++ [p]))) = .ok b)
    {v : Value} {name : Bytes} (hname : DataType.pack (.composite types) v .name = .ok name)
    {u : Uuid} (hu : u.IsTime) {rest : List Value}
    (hread : DataType.nameOf (.composite types) name =
      .composite (DataType.coerceComponents types .exact ps ++ .uuid u :: rest)) :
    inside (DataType.compare (.composite types)) lower b name = true ↔
      (if lower then Uuid.ticksOfMicros t.toInt < Uuid.ticksOf u.bytes
        else Uuid.ticksOf u.bytes < Uuid.ticksOfMicros t.toInt) ∨
      Uuid.ticksOf u.bytes = Uuid.ticksOfMicros t.toInt ∧ u ≠ Uuid.ofMoment lower t.toInt := by
  have hpacked : DataType.pack (.composite types) (.composite (ps ++ [p]))
      (.bound (packBound.sliceEnd lower false)) = .ok b := liftMarshal_eq_ok.1 hb
  obtain ⟨first, bs, rfl⟩ :=
    List.exists_cons_of_ne_nil (DataType.pack_composite_ne_nil hpacked (by simp))
  rw [inside_of_packBound hname hb, hread, Bound.admits, DataType.admits, hpacked]
  show (packBound.sliceEnd lower false).admits _ = true ↔ _
  rw [SliceEnd.admits_exclusive_iff, boundOrder_moment htype hp, Ne, Uuid.compareTime_eq_eq_iff]
  -- Other ticks than those of the moment make another UUID.
  have hticks : u = Uuid.ofMoment lower t.toInt →
      Uuid.ticksOf u.bytes = Uuid.ticksOfMicros t.toInt := by
    rintro rfl
    exact Uuid.ticksOf_ofMoment ..
  cases lower with
  | true =>
    have hbefore := not_congr (Uuid.lt_lowest_iff hu t.toInt)
    simp only [Uuid.ofMoment, if_true, hbefore] at hticks ⊢
    grind
  | false =>
    have hbehind := not_congr (Uuid.highest_lt_iff hu t.toInt)
    simp only [Uuid.ofMoment, Bool.false_eq_true, if_false, hbehind] at hticks ⊢
    grind

/-- What a slice query reads that has an exclusive bound ending in a moment, at either end of the
comparator's order and in either direction. Of the names with the components in front of the moment
it reads later ones behind a lower bound, earlier ones before an upper bound, and at both also those
with the ticks of the moment, except for the first or the last UUID of the moment. -/
theorem select_exclusive_moment {q : SliceQuery} {predicate : SlicePredicate} {lower : Bool}
    (hrange : q.names = none) (hq : q.predicate (.composite types) = .ok predicate)
    (hend : (if lower then q.lower else q.upper) = .excluded (.composite (ps ++ [p]))) :
    ∃ low high, packBound (.composite types) true q.lower = .ok low ∧
      packBound (.composite types) false q.upper = .ok high ∧
      (∀ {α : Type} (entries : Sorted Bytes α) (e : Bytes × α),
        (e ∈ select (DataType.compare (.composite types)) predicate entries → e ∈ entries ∧
          within (DataType.compare (.composite types)) low high e.1 = true) ∧
        (entries.length ≤ limitOf q.count → e ∈ entries →
          within (DataType.compare (.composite types)) low high e.1 = true →
          e ∈ select (DataType.compare (.composite types)) predicate entries)) ∧
      ∀ (v : Value) (name : Bytes) (u : Uuid) (rest : List Value),
        DataType.pack (.composite types) v .name = .ok name → u.IsTime →
        DataType.nameOf (.composite types) name =
          .composite (DataType.coerceComponents types .exact ps ++ .uuid u :: rest) →
        (inside (DataType.compare (.composite types)) lower (if lower then low else high) name =
          true ↔
          (if lower then Uuid.ticksOfMicros t.toInt < Uuid.ticksOf u.bytes
            else Uuid.ticksOf u.bytes < Uuid.ticksOfMicros t.toInt) ∨
          Uuid.ticksOf u.bytes = Uuid.ticksOfMicros t.toInt ∧ u ≠ Uuid.ofMoment lower t.toInt) := by
  obtain ⟨low, high, hlow, hhigh, hselect⟩ := exists_bounds_of_predicate hrange hq
  refine ⟨low, high, hlow, hhigh, hselect, fun v name u rest hname hu hread => ?_⟩
  -- the excluded bound is the one at the end that `lower` tells
  have hb : packBound (.composite types) lower (.excluded (.composite (ps ++ [p]))) =
      .ok (if lower then low else high) := by
    cases lower with
    | true => exact (congrArg _ hend.symm).trans hlow
    | false => exact (congrArg _ hend.symm).trans hhigh
  exact inside_exclusive_moment_iff htype hp hb hname hu hread

end Exclusive

/-- A UUID of the start of 1970 that is neither the first nor the last one. -/
def Uuid.of1970 : Uuid := Uuid.ofMicros 0 0x1234 [1, 2, 3, 4, 5, 6]

/-- The packed name made of one UUID. -/
def nameOfUuid (u : Uuid) : Bytes := [0, 16] ++ u.bytes ++ [0]

/-- What comes just after the start of 1970, or just before it. -/
def beside1970 (lower : Bool) : SliceQuery :=
  if lower then { SliceQuery.default with start := .excluded (.composite [.long 0]) }
  else { SliceQuery.default with finish := .excluded (.composite [.long 0]) }

/-- Just after the start of 1970 stands a UUID of that moment, but not the first one. -/
theorem select_exclusive_moment_1970 :
    ∃ predicate, (beside1970 true).predicate (.composite [.timeUuid]) = .ok predicate ∧
      (nameOfUuid Uuid.of1970, ()) ∈
        select (DataType.compare (.composite [.timeUuid]))
        predicate [(nameOfUuid Uuid.of1970, ())] ∧
      (nameOfUuid (Uuid.lowest 0), ()) ∉
        select (DataType.compare (.composite [.timeUuid])) predicate
          [(nameOfUuid (Uuid.lowest 0), ())] := by
  have hq : (beside1970 true).predicate (.composite [.timeUuid]) =
      .ok (.ofRange ⟨[0, 16] ++ (Uuid.lowest 0).bytes ++ [1], [], false, 100⟩) := by decide +kernel
  obtain ⟨low, high, hlow, hhigh, hselect, hinside⟩ :=
    @select_exclusive_moment [.timeUuid] [] (.long 0) 0 rfl rfl _ _ true rfl hq rfl
  cases hhigh
  refine ⟨_, hq, ?_, fun hmem => ?_⟩
  · -- the made UUID has the ticks of the moment and is not the lowest one with them
    refine (hselect _ _).2 (by decide) List.mem_cons_self ?_
    rw [within_eq_inside]
    have hmoment :=
      (hinside (.composite [.uuid Uuid.of1970]) (nameOfUuid Uuid.of1970) Uuid.of1970 []
      (by decide +kernel) (Uuid.isTime_ofMicros ..) (by decide +kernel)).2
      (.inr (by decide +kernel))
    exact Bool.and_eq_true_iff.2 ⟨hmoment, rfl⟩
  · -- the lowest UUID of the moment is the packed bound itself, and the bound is excluded
    have hmoment := ((hselect _ _).1 hmem).2
    rw [within_eq_inside, Bool.and_eq_true] at hmoment
    have hnone := (hinside (.composite [.uuid (Uuid.lowest 0)]) (nameOfUuid (Uuid.lowest 0))
      (Uuid.lowest 0) [] (by decide +kernel) (Uuid.isTime_lowest 0) (by decide +kernel)).1 hmoment.1
    rcases hnone with hlater | ⟨-, hother⟩
    · exact absurd hlater (by decide +kernel)
    · exact hother rfl

/-- A UUID of a moment is read by both slices that exclude the moment. -/
theorem exclusive_moment_selected :
    Uuid.of1970.IsTime ∧ Uuid.ticksOf Uuid.of1970.bytes = Uuid.ticksOfMicros 0 ∧
      ∀ lower, ∃ predicate, (beside1970 lower).predicate (.composite [.timeUuid]) = .ok predicate ∧
        select (DataType.compare (.composite [.timeUuid]))
        predicate [(nameOfUuid Uuid.of1970, ())] =
          [(nameOfUuid Uuid.of1970, ())] := by
  refine ⟨Uuid.isTime_ofMicros .., Uuid.ticksOf_ofMicros .., fun lower => ?_⟩
  cases lower with
  | true =>
    exact ⟨.ofRange ⟨[0, 16] ++ (Uuid.lowest 0).bytes ++ [1], [], false, 100⟩, by decide +kernel⟩
  | false =>
    exact ⟨.ofRange ⟨[], [0, 16] ++ (Uuid.highest 0).bytes ++ [255], false, 100⟩, by decide +kernel⟩

end WideColumn
