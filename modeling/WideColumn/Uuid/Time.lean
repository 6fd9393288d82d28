import WideColumn.Uuid

/-!
# Time-based UUIDs

A version 1 UUID carries a 60-bit count of ticks, each a tenth of a microsecond, since the start of
the Gregorian calendar. The count is split over three fields stored low part first, so the byte
order of such UUIDs is not their order in time; `compareTime` is.

- `Uuid.ofMicros` builds a UUID for a moment given in microseconds since 1970;
- `Uuid.lowest` and `Uuid.highest` are the first and the last UUID of a moment;
- `Uuid.ticks?` and `Uuid.micros?` read the time back.
-/

namespace WideColumn.Uuid

/-- Ticks between the start of the Gregorian calendar and 1970. -/
def epochTicks : Nat := 0x01B21DD213814000

/-- The largest count of ticks that sixty bits hold. -/
def maxTicks : Nat := 0x0FFFFFFFFFFFFFFF

/-! ## Building -/

/-- The tick count of a moment, moved to the nearest end of the sixty-bit range if outside it. -/
def ticksOfMicros (micros : Int) : Nat :=
  min (micros * 10 + epochTicks).toNat maxTicks

/-- The bytes of a version 1 UUID with the given ticks, clock sequence and node. -/
def timeBytes (ticks clockSeq : Nat) (node : Bytes) : Bytes :=
  Bytes.wordBytes 4 (ticks % 0x100000000)
    ++ Bytes.wordBytes 2 (ticks / 0x100000000 % 0x10000)
    ++ Bytes.wordBytes 2 (0x1000 + ticks / 0x1000000000000 % 0x1000)
    ++ Bytes.wordBytes 2 (0x8000 + clockSeq % 0x4000)
    ++ Bytes.wordBytes 6 (Bytes.wordOf node)

@[simp] theorem length_timeBytes (ticks clockSeq : Nat) (node : Bytes) :
    (timeBytes ticks clockSeq node).length = 16 := by
  simp [timeBytes]

/-- The UUID of a moment; the clock sequence gives its low fourteen bits. -/
def ofMicros (micros : Int) (clockSeq : Nat) (node : Bytes) : Uuid :=
  ⟨timeBytes (ticksOfMicros micros) clockSeq node, length_timeBytes ..⟩

/-- The smallest UUID that carries a moment. -/
def lowest (micros : Int) : Uuid := ofMicros micros 0 (Bytes.wordBytes 6 0)

/-- The largest UUID that carries a moment. -/
def highest (micros : Int) : Uuid := ofMicros micros 0x3FFF (Bytes.wordBytes 6 0xFFFFFFFFFFFF)

/-! ## Reading -/

/-- The tick count in sixteen raw bytes, whatever their version. -/
def ticksOf (bs : Bytes) : Nat :=
  Bytes.wordOf ((bs.drop 6).take 2) % 0x1000 * 0x1000000000000
    + Bytes.wordOf ((bs.drop 4).take 2) * 0x100000000
    + Bytes.wordOf (bs.take 4)

/-- The tick count of a version 1 UUID. -/
def ticks? (u : Uuid) : Option Nat :=
  if u.version = 1 then some (ticksOf u.bytes) else none

/-- The moment of a version 1 UUID in whole microseconds since 1970, rounded down. -/
def micros? (u : Uuid) : Option Int :=
  u.ticks?.map fun ticks => Int.fdiv ((ticks : Int) - epochTicks) 10

/-! ## Order in time -/

/-- Orders sixteen raw bytes by tick count and then by bytes, anything else by bytes. -/
def compareTime (a b : Bytes) : Ordering :=
  if a.length = 16 ∧ b.length = 16 then
    (compare (ticksOf a) (ticksOf b)).then (compare a b)
  else compare a b

end WideColumn.Uuid
