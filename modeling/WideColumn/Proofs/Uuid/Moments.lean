import Mathlib.Data.List.Basic
import WideColumn.Proofs.Bytes
import WideColumn.Uuid.Time

/-!
# The UUIDs of a moment

A tick count of sixty bits is cut into three fields and stored low part first, under the bits of the
version. Put together again it is the count that went in, and two time-based UUIDs with one count
have the same three fields, so that only the clock sequence and the node tell them apart.

- `Uuid.Fields`: sixteen bytes cut where the fields of a UUID meet;
- `Uuid.IsTime`: version 1 in the standard layout;
- `Uuid.compareTime_of_isTime`: time-based UUIDs are ordered by ticks, clock sequence and node;
- `Uuid.moment_bounds`: what is read back from the UUID of a moment, and which UUIDs lie between the
  first and the last one of a moment.
-/

namespace WideColumn

namespace Bytes

/-- Byte strings with beginnings of one length are ordered by these and then by their ends. -/
theorem compare_append {a b c d : Bytes} (h : a.length = b.length) :
    compare (a ++ c) (b ++ d) = (compare a b).then (compare c d) := by
  -- By induction on both beginnings at once; the first bytes that differ decide.
  induction a generalizing b with
  | nil =>
    rw [List.eq_nil_of_length_eq_zero h.symm]
    rfl
  | cons x xs ih =>
    cases b with
    | nil => cases h
    | cons y ys =>
      rw [List.cons_append, List.cons_append, List.compare_cons_cons, List.compare_cons_cons,
        ih (Nat.succ.inj h), Ordering.then_assoc]

private theorem eq_of_wordOf {a b : Bytes} (hlen : a.length = b.length) (h : wordOf a = wordOf b) :
    a = b := by
  rw [← wordBytes_wordOf a, ← wordBytes_wordOf b, hlen, h]

end Bytes

/-- A number decides unless it is the same on both sides; behind it stands what is at most equal. -/
theorem compare_then_ne_gt {m n : Nat} {o : Ordering} (h : m = n → o ≠ .gt) :
    (compare m n).then o ≠ .gt ↔ m ≤ n := by
  rcases Nat.lt_trichotomy m n with hlt | heq | hgt
  · simp [Nat.compare_eq_lt.2 hlt, Nat.le_of_lt hlt]
  · simp [heq, h heq]
  · simp [Nat.compare_eq_gt.2 hgt, hgt]

private theorem compare_ne_gt_of_le {m n : Nat} (h : m ≤ n) : compare m n ≠ .gt :=
  fun hgt => Nat.not_lt_of_le h (Nat.compare_eq_gt.1 hgt)

private theorem then_ne_gt {o o' : Ordering} (h : o ≠ .gt) (h' : o' ≠ .gt) : o.then o' ≠ .gt := by
  cases o with
  | lt => simp
  | eq => simpa using h'
  | gt => exact absurd rfl h

namespace Uuid

/-! ## Fields -/

/-- The two bits of sixteen raw bytes that say how the others are laid out. -/
def variantOf (bs : Bytes) : Nat := (bs.getD 8 0).toNat / 0x40

def variant (u : Uuid) : Nat := variantOf u.bytes

/-- A time-based UUID in the standard layout. -/
structure IsTime (u : Uuid) : Prop where
  version : u.version = 1
  variant : u.variant = 2

/-- The fields of a UUID. The high part of a tick count shares its field with the version, and the
clock sequence shares one with the variant. -/
structure Fields where
  low : Bytes
  mid : Bytes
  high : Bytes
  clock : Bytes
  node : Bytes
  length_low : low.length = 4
  length_mid : mid.length = 2
  length_high : high.length = 2
  length_clock : clock.length = 2
  length_node : node.length = 6

namespace Fields

/-- The fields one after the other. -/
def bytes (f : Fields) : Bytes := f.low ++ (f.mid ++ (f.high ++ (f.clock ++ f.node)))

attribute [simp] length_low length_mid length_high length_clock length_node

private theorem ticksOf_bytes (f : Fields) :
    ticksOf f.bytes =
      Bytes.wordOf f.high % 0x1000 * 0x1000000000000 + Bytes.wordOf f.mid * 0x100000000
        + Bytes.wordOf f.low := by
  simp [ticksOf, bytes, List.drop_append, List.drop_eq_nil_of_le]

/-- The version is in the upper bits of the field that also holds the high part of the ticks. -/
theorem versionOf_bytes (f : Fields) : versionOf f.bytes = Bytes.wordOf f.high / 0x1000 := by
  obtain ⟨x, y, hhigh⟩ := List.length_eq_two.1 f.length_high
  have hy : y.toNat < 256 := y.toNat_lt
  simp [versionOf, bytes, List.getD, hhigh, Bytes.wordOf]
  omega

/-- The variant is in the upper bits of the field that also holds the clock sequence. -/
theorem variantOf_bytes (f : Fields) : variantOf f.bytes = Bytes.wordOf f.clock / 0x4000 := by
  obtain ⟨x, y, hclock⟩ := List.length_eq_two.1 f.length_clock
  have hy : y.toNat < 256 := y.toNat_lt
  simp [variantOf, bytes, List.getD, hclock, Bytes.wordOf]
  omega

/-- Fields are compared one after the other. -/
theorem compare_bytes (f g : Fields) :
    compare f.bytes g.bytes =
      (compare f.low g.low).then ((compare f.mid g.mid).then ((compare f.high g.high).then
        ((compare f.clock g.clock).then (compare f.node g.node)))) := by
  unfold bytes
  rw [Bytes.compare_append (by simp), Bytes.compare_append (by simp),
    Bytes.compare_append (by simp),
    Bytes.compare_append (by simp)]

end Fields

/-- The fields of a UUID. -/
def fields (u : Uuid) : Fields where
  low := u.bytes.take 4
  mid := (u.bytes.drop 4).take 2
  high := (u.bytes.drop 6).take 2
  clock := (u.bytes.drop 8).take 2
  node := u.bytes.drop 10
  length_low := by simp [u.length_bytes]
  length_mid := by simp [u.length_bytes]
  length_high := by simp [u.length_bytes]
  length_clock := by simp [u.length_bytes]
  length_node := by simp [u.length_bytes]

@[simp] theorem bytes_fields (u : Uuid) : u.fields.bytes = u.bytes := by
  -- From the last cut to the first one, two neighbours make up what follows the cut before them.
  have hclock : (u.bytes.drop 8).take 2 ++ u.bytes.drop 10 = u.bytes.drop 8 := by
    rw [← List.drop_drop (i := 2) (j := 8), List.take_append_drop]
  have hhigh : (u.bytes.drop 6).take 2 ++ u.bytes.drop 8 = u.bytes.drop 6 := by
    rw [← List.drop_drop (i := 2) (j := 6), List.take_append_drop]
  have hmid : (u.bytes.drop 4).take 2 ++ u.bytes.drop 6 = u.bytes.drop 4 := by
    rw [← List.drop_drop (i := 2) (j := 4), List.take_append_drop]
  simp only [Fields.bytes, fields]
  rw [hclock, hhigh, hmid, List.take_append_drop]

private theorem fields_eq_of_bytes {u : Uuid} {f : Fields} (h : u.bytes = f.bytes) :
    u.fields = f := by
  cases f
  simp_all [fields, Fields.bytes, List.drop_append, List.drop_eq_nil_of_le]

/-- The fields of the UUID with the given ticks, clock sequence and node. -/
def timeFields (ticks clockSeq : Nat) (node : Bytes) : Fields where
  low := Bytes.wordBytes 4 (ticks % 0x100000000)
  mid := Bytes.wordBytes 2 (ticks / 0x100000000 % 0x10000)
  high := Bytes.wordBytes 2 (0x1000 + ticks / 0x1000000000000 % 0x1000)
  clock := Bytes.wordBytes 2 (0x8000 + clockSeq % 0x4000)
  node := Bytes.wordBytes 6 (Bytes.wordOf node)
  length_low := by simp
  length_mid := by simp
  length_high := by simp
  length_clock := by simp
  length_node := by simp

private theorem bytes_timeFields (ticks clockSeq : Nat) (node : Bytes) :
    (timeFields ticks clockSeq node).bytes = timeBytes ticks clockSeq node := by
  simp [Fields.bytes, timeFields, timeBytes]

/-! ## Reading back what was built -/

theorem versionOf_timeBytes (ticks clockSeq : Nat) (node : Bytes) :
    versionOf (timeBytes ticks clockSeq node) = 1 := by
  rw [← bytes_timeFields, Fields.versionOf_bytes]
  simp only [timeFields, Bytes.wordOf_wordBytes]
  omega

private theorem variantOf_timeBytes (ticks clockSeq : Nat) (node : Bytes) :
    variantOf (timeBytes ticks clockSeq node) = 2 := by
  rw [← bytes_timeFields, Fields.variantOf_bytes]
  simp only [timeFields, Bytes.wordOf_wordBytes]
  omega

/-- The three parts of a count of sixty bits are put together to the same count. -/
theorem ticksOf_timeBytes {ticks : Nat} (h : ticks ≤ maxTicks) (clockSeq : Nat) (node : Bytes) :
    ticksOf (timeBytes ticks clockSeq node) = ticks := by
  rw [← bytes_timeFields, Fields.ticksOf_bytes]
  simp only [timeFields, Bytes.wordOf_wordBytes]
  unfold maxTicks at h
  omega

section Made

variable (micros : Int) (clockSeq : Nat) (node : Bytes)

private theorem ticksOfMicros_le : ticksOfMicros micros ≤ maxTicks := Nat.min_le_right ..

theorem isTime_ofMicros : (ofMicros micros clockSeq node).IsTime where
  version := versionOf_timeBytes ..
  variant := variantOf_timeBytes ..

theorem ticksOf_ofMicros : ticksOf (ofMicros micros clockSeq node).bytes = ticksOfMicros micros :=
  ticksOf_timeBytes (ticksOfMicros_le micros) ..

private theorem ticks?_ofMicros : (ofMicros micros clockSeq node).ticks? = some
    (ticksOfMicros micros) := by
  rw [ticks?, if_pos (isTime_ofMicros ..).version, ticksOf_ofMicros]

/-- The ticks of a moment are moved to the nearest count that sixty bits hold. -/
theorem ticksOfMicros_eq :
    (ticksOfMicros micros : Int) = max 0 (min (10 * micros + epochTicks) maxTicks) := by
  unfold ticksOfMicros
  omega

/-- A moment that sixty bits can count is read back. -/
theorem micros?_ofMicros {micros : Int}
    (h : (ticksOfMicros micros : Int) = 10 * micros + epochTicks) :
    (ofMicros micros clockSeq node).micros? = some micros := by
  simp [micros?, ticks?_ofMicros, h]

private theorem fields_ofMicros :
    (ofMicros micros clockSeq node).fields = timeFields (ticksOfMicros micros) clockSeq node :=
  fields_eq_of_bytes (bytes_timeFields ..).symm

private theorem clock_ofMicros :
    Bytes.wordOf (ofMicros micros clockSeq node).fields.clock = 0x8000 + clockSeq % 0x4000 := by
  rw [fields_ofMicros, timeFields, Bytes.wordOf_wordBytes]
  omega

private theorem node_ofMicros {node : Bytes} (h : node.length = 6) :
    (ofMicros micros clockSeq node).fields.node = node := by
  have hword : Bytes.wordBytes node.length (Bytes.wordOf node) = node := Bytes.wordBytes_wordOf node
  rwa [h] at hword

end Made

/-! ## Time-based UUIDs in order -/

/-- Version 1 leaves no room in the upper fields for anything but ticks, so that equal ticks make
equal fields. -/
theorem fields_eq_of_ticksOf {u v : Uuid} (hu : u.IsTime) (hv : v.IsTime)
    (h : ticksOf u.bytes = ticksOf v.bytes) :
    u.fields.low = v.fields.low ∧ u.fields.mid = v.fields.mid ∧ u.fields.high = v.fields.high := by
  have hversion := hu.version
  have hversion' := hv.version
  unfold version at hversion hversion'
  rw [← bytes_fields, Fields.versionOf_bytes] at hversion hversion'
  rw [← bytes_fields, Fields.ticksOf_bytes, ← bytes_fields v, Fields.ticksOf_bytes] at h
  -- Each field holds less than one step of the field above it.
  have hlow := Bytes.wordOf_lt u.fields.low
  have hlow' := Bytes.wordOf_lt v.fields.low
  have hmid := Bytes.wordOf_lt u.fields.mid
  have hmid' := Bytes.wordOf_lt v.fields.mid
  simp only [Fields.length_low, Fields.length_mid] at hlow hlow' hmid hmid'
  refine ⟨?_, ?_, ?_⟩ <;> refine Bytes.eq_of_wordOf (by simp) ?_ <;> omega

/-- Time-based UUIDs are ordered by ticks, then by clock sequence and then by node. -/
theorem compareTime_of_isTime {u v : Uuid} (hu : u.IsTime) (hv : v.IsTime) :
    compareTime u.bytes v.bytes =
      (compare (ticksOf u.bytes) (ticksOf v.bytes)).then
        ((compare (Bytes.wordOf u.fields.clock) (Bytes.wordOf v.fields.clock)).then
          (compare (Bytes.wordOf u.fields.node) (Bytes.wordOf v.fields.node))) := by
  rw [compareTime, if_pos ⟨u.length_bytes, v.length_bytes⟩]
  -- equal ticks mean equal time fields, so only the clock and the node are left to compare
  cases hticks : compare (ticksOf u.bytes) (ticksOf v.bytes) with
  | lt => rfl
  | gt => rfl
  | eq =>
    obtain ⟨hlow, hmid, hhigh⟩ := fields_eq_of_ticksOf hu hv (Nat.compare_eq_eq.1 hticks)
    rw [← bytes_fields u, ← bytes_fields v, Fields.compare_bytes, hlow, hmid, hhigh,
      Bytes.compare_eq_compare_wordOf (a := u.fields.clock) (by simp),
      Bytes.compare_eq_compare_wordOf (a := u.fields.node) (by simp)]
    simp

/-! ## Microseconds -/

theorem ticks?_of_isTime {u : Uuid} (hu : u.IsTime) : u.ticks? = some (ticksOf u.bytes) :=
  if_pos hu.version

section Micros

variable {u : Uuid} {micros m : Int}

/-- Moments whose ticks sixty bits can count. -/
def Counted (micros : Int) : Prop :=
  0 ≤ 10 * micros + epochTicks ∧ 10 * micros + epochTicks ≤ maxTicks

instance : Decidable (Counted micros) := inferInstanceAs (Decidable (_ ∧ _))

theorem Counted.ticksOfMicros_eq (h : Counted micros) :
    (ticksOfMicros micros : Int) = 10 * micros + epochTicks := by
  obtain ⟨hleast, hmost⟩ := h
  rw [Uuid.ticksOfMicros_eq]
  omega

/-- A time-based UUID carries the microsecond that its ticks are in. -/
theorem micros?_eq_some_iff (hu : u.IsTime) :
    u.micros? = some m ↔
      10 * m + epochTicks ≤ ticksOf u.bytes ∧ ticksOf u.bytes < 10 * (m + 1) + epochTicks := by
  simp [micros?, ticks?_of_isTime hu, Int.fdiv_eq_ediv_of_nonneg]
  omega

private theorem ticksOf_le (u : Uuid) : ticksOf u.bytes ≤ maxTicks := by
  have hlow := Bytes.wordOf_lt u.fields.low
  have hmid := Bytes.wordOf_lt u.fields.mid
  rw [Fields.length_low] at hlow
  rw [Fields.length_mid] at hmid
  rw [← bytes_fields, Fields.ticksOf_bytes, maxTicks]
  omega

/-- The first tick of a UUID's microsecond is not before the first one there is. -/
theorem counted_of_micros? (hu : u.IsTime) (h : u.micros? = some m) : Counted m := by
  obtain ⟨hleast, hmost⟩ := (micros?_eq_some_iff hu).1 h
  have hle := ticksOf_le u
  unfold Counted
  -- The epoch is a whole number of microseconds behind the first tick.
  have hwhole : epochTicks % 10 = 0 := by decide
  omega

end Micros

/-! ## The first and the last UUID of a moment -/

/-- The clock sequences of time-based UUIDs, under the bits of the variant. -/
theorem IsTime.clock {u : Uuid} (hu : u.IsTime) :
    0x8000 ≤ Bytes.wordOf u.fields.clock ∧ Bytes.wordOf u.fields.clock ≤ 0xBFFF := by
  have hvariant := hu.variant
  unfold Uuid.variant at hvariant
  rw [← bytes_fields, Fields.variantOf_bytes] at hvariant
  omega

private theorem Fields.node_le (f : Fields) : Bytes.wordOf f.node ≤ 0xFFFFFFFFFFFF := by
  have hlt := Bytes.wordOf_lt f.node
  rw [f.length_node] at hlt
  omega

theorem isTime_lowest (micros : Int) : (lowest micros).IsTime := isTime_ofMicros ..

private theorem isTime_highest (micros : Int) : (highest micros).IsTime := isTime_ofMicros ..

theorem ticksOf_lowest (micros : Int) : ticksOf (lowest micros).bytes = ticksOfMicros micros :=
  ticksOf_ofMicros ..

theorem ticksOf_highest (micros : Int) : ticksOf (highest micros).bytes = ticksOfMicros micros :=
  ticksOf_ofMicros ..

section Ends

variable {u : Uuid} (hu : u.IsTime) (micros : Int)

include hu

/-- Only earlier UUIDs come before the first one of a moment. -/
theorem lowest_le_iff :
    compareTime (lowest micros).bytes u.bytes ≠ .gt ↔ ticksOfMicros micros ≤ ticksOf u.bytes := by
  rw [compareTime_of_isTime (isTime_lowest micros) hu, ticksOf_lowest, lowest, clock_ofMicros,
    node_ofMicros _ _ (by simp)]
  refine compare_then_ne_gt fun _ => then_ne_gt (compare_ne_gt_of_le hu.clock.1) ?_
  exact compare_ne_gt_of_le (Nat.zero_le _)

/-- Only later UUIDs come after the last one of a moment. -/
theorem le_highest_iff :
    compareTime u.bytes (highest micros).bytes ≠ .gt ↔ ticksOf u.bytes ≤ ticksOfMicros micros := by
  rw [compareTime_of_isTime hu (isTime_highest micros), ticksOf_highest, highest, clock_ofMicros,
    node_ofMicros _ _ (by simp)]
  refine compare_then_ne_gt fun _ => then_ne_gt (compare_ne_gt_of_le hu.clock.2) ?_
  exact compare_ne_gt_of_le u.fields.node_le

end Ends

private theorem ticksOfMicros_mono {micros later : Int} (h : micros ≤ later) :
    ticksOfMicros micros ≤ ticksOfMicros later := by
  unfold ticksOfMicros
  omega

/-- The numbers that 128 bits hold in two's complement. -/
def FitsWide (n : Int) : Prop :=
  -0x80000000000000000000000000000000 ≤ n ∧ n < 0x80000000000000000000000000000000

/-- The UUID built for a moment is time-based, keeps the clock sequence and the node, and carries
the ticks of the moment, which are counted without overflow and moved to the nearest count that
sixty bits hold. Ticks that were not moved are read back as the same moment. The first and the last
UUID of the moment have all UUIDs of its ticks between them and no others, and both grow with the
moment. -/
theorem moment_bounds (micros : Int64) (clockSeq : Nat) {node : Bytes} (hnode : node.length = 6) :
    let exact : Int := 10 * micros.toInt + epochTicks
    let ticks : Int := max 0 (min exact maxTicks)
    let made := ofMicros micros.toInt clockSeq node
    FitsWide (10 * micros.toInt) ∧ FitsWide exact ∧
    made.IsTime ∧ Bytes.wordOf made.fields.clock = 0x8000 + clockSeq % 0x4000 ∧
    made.fields.node = node ∧
    (∃ n : Nat, made.ticks? = some n ∧ n = ticks) ∧
    (ticks = exact → made.micros? = some micros.toInt) ∧
    (∀ u : Uuid, u.IsTime → ∃ n : Nat, u.ticks? = some n ∧
      (compareTime (lowest micros.toInt).bytes u.bytes ≠ .gt ↔ ticks ≤ n) ∧
      (compareTime u.bytes (highest micros.toInt).bytes ≠ .gt ↔ n ≤ ticks)) ∧
    ∀ later : Int64, micros ≤ later →
      compareTime (lowest micros.toInt).bytes (lowest later.toInt).bytes ≠ .gt ∧
      compareTime (highest micros.toInt).bytes (highest later.toInt).bytes ≠ .gt := by
  intro exact ticks made
  -- the count of the made UUID is the instant's, kept within the ticks there are
  have hticks : (ticksOfMicros micros.toInt : Int) = ticks := ticksOfMicros_eq _
  have hleast := micros.le_toInt
  have hmost := micros.toInt_lt
  refine ⟨?_, ?_, isTime_ofMicros .., clock_ofMicros .., node_ofMicros _ _ hnode,
    ⟨_, ticks?_ofMicros .., hticks⟩, ?_, ?_, ?_⟩
  · -- no step of the arithmetic leaves the wide integers
    unfold FitsWide
    omega
  · unfold FitsWide
    simp only [exact, epochTicks]
    omega
  · -- nothing was clamped
    intro hexact
    exact micros?_ofMicros _ _ (hticks.trans hexact)
  · -- the least and the greatest UUID with the ticks
    intro u hu
    refine ⟨_, ticks?_of_isTime hu, ?_, ?_⟩
    · rw [lowest_le_iff hu, ← hticks, Int.ofNat_le]
    · rw [le_highest_iff hu, ← hticks, Int.ofNat_le]
  · -- clamping is monotone, and so are both ends
    intro later hlater
    have hmono := ticksOfMicros_mono (Int64.le_iff_toInt_le.1 hlater)
    constructor
    · rw [lowest_le_iff (isTime_lowest _), ticksOf_lowest]
      exact hmono
    · rw [le_highest_iff (isTime_highest _), ticksOf_highest]
      exact hmono

/-- A UUID of the last microsecond before 1970 lies between the ends of its own moment and after the
moment before. -/
theorem moment_bounds_before_1970 :
    let made := ofMicros (-1) 0x5234 [1, 2, 3, 4, 5, 6]
    made.IsTime ∧ Bytes.wordOf made.fields.clock = 0x9234 ∧ made.micros? = some (-1) ∧
      compareTime (lowest (-1)).bytes made.bytes ≠ .gt ∧
      compareTime made.bytes (highest (-1)).bytes ≠ .gt ∧
      ¬ compareTime made.bytes (highest (-2)).bytes ≠ .gt := by
  intro made
  have hlength : ([1, 2, 3, 4, 5, 6] : Bytes).length = 6 := rfl
  obtain ⟨-, -, htime, hclock, -, -, hmicros, hbetween, -⟩ := moment_bounds (-1) 0x5234 hlength
  obtain ⟨-, -, -, -, -, -, -, hbefore, -⟩ := moment_bounds (-2) 0x5234 hlength
  -- the microsecond before 1970 has its ticks within range, so nothing is clamped
  have hcount : made.ticks? = some 0x01B21DD213813FF6 := by decide +kernel
  obtain ⟨n, hn, hlowest, hhighest⟩ := hbetween made htime
  obtain ⟨n', hn', -, hhighest'⟩ := hbefore made htime
  cases hcount.symm.trans hn
  cases hcount.symm.trans hn'
  exact ⟨htime, hclock, hmicros (by decide), hlowest.2 (by decide), hhighest.2 (by decide),
    fun hle => absurd (hhighest'.1 hle) (by decide)⟩

end Uuid
end WideColumn
