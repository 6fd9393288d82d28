import WideColumn.Proofs.DataType.Frames
import WideColumn.Proofs.OrderedOn

/-!
# The order of encodings

Every comparator is a total order on the bytes that its type reads, up to bytes that compare equal.
It is not one on arbitrary bytes: comparators fall back to byte order where the width or the frames
are wrong.

- `Accepts type bs`: the type reads the bytes as a value;
- `orderedOn_compare`: the order, by recursion on the type; composites are ordered by their frames,
  each frame by its component and the sign of its end byte.
-/

namespace WideColumn.DataType

/-- A type reads these bytes as a value. -/
def Accepts (type : DataType) (bs : Bytes) : Prop :=
  ∃ w, unpack type bs = .ok w

/-- What was packed is accepted, bounds of slices included. -/
theorem accepts_of_pack {type : DataType} {v : Value} {ctx : PackContext} {bs : Bytes}
    (h : pack type v ctx = .ok bs) : Accepts type bs :=
  ⟨_, unpack_of_pack type v ctx bs h⟩

/-! ## Simple types -/

theorem length_of_exactly {type : DataType} {width : Nat} {bs bs' : Bytes}
    (h : exactly type width bs = .ok bs') : bs.length = width := by
  rw [exactly, guard_eq_ok] at h
  exact h.1

theorem length_of_accepts_long {type : DataType}
    (htype : type = .long ∨ type = .counter ∨ type = .date)
    {bs : Bytes} (h : Accepts type bs) : bs.length = 8 := by
  obtain ⟨w, hw⟩ := h
  rcases htype with rfl | rfl | rfl
  all_goals
    simp only [unpack, unpackSimple, map_eq_ok] at hw
    obtain ⟨bs', hbs', -⟩ := hw
    exact length_of_exactly hbs'

private theorem length_of_accepts_uuid {type : DataType} (htype : type = .timeUuid ∨ type = .uuid)
    {bs : Bytes} (h : Accepts type bs) : bs.length = 16 := by
  have huuid {w : Value} (h : unpackUuid type bs = .ok w) : bs.length = 16 := by
    rw [unpackUuid, Uuid.ofBytes?] at h
    by_cases hlen : bs.length = 16
    · exact hlen
    · rw [dif_neg hlen] at h
      cases h
  obtain ⟨w, hw⟩ := h
  rcases htype with rfl | rfl
  all_goals exact huuid hw

/-- Eight bytes are ordered by the first of them, sign bit flipped, and then by the others. -/
theorem orderedOn_compareSigned : OrderedOn (fun bs => bs.length = 8) compareSigned := by
  have h : OrderedOn (fun bs : Bytes => bs.length = 8)
      (compareLex (compareOn fun bs : Bytes => bs.getD 0 0 ^^^ 0x80)
        (compareOn fun bs => bs.drop 1)) :=
    .of_transCmp
  refine h.congr fun a b ha hb => ?_
  rw [compareSigned, if_pos ⟨ha, hb⟩, compareLex, compareOn, compareOn]

theorem orderedOn_compareTime : OrderedOn (fun bs => bs.length = 16) Uuid.compareTime := by
  have h : OrderedOn (fun bs : Bytes => bs.length = 16)
      (compareLex (compareOn Uuid.ticksOf) fun a b => Ord.compare a b) :=
    .of_transCmp
  refine h.congr fun a b ha hb => ?_
  rw [Uuid.compareTime, if_pos ⟨ha, hb⟩, compareLex, compareOn]

/-- The ticks of a version 1 UUID, and nothing for the other versions. -/
def versionTicks (bs : Bytes) : Nat := if Uuid.versionOf bs = 1 then Uuid.ticksOf bs else 0

private theorem orderedOn_compareUuid : OrderedOn (fun bs => bs.length = 16) compareUuid := by
  have h : OrderedOn (fun bs : Bytes => bs.length = 16)
      (compareLex (compareOn Uuid.versionOf)
        (compareLex (compareOn versionTicks) fun a b => Ord.compare a b)) :=
    .of_transCmp
  refine h.congr fun a b ha hb => ?_
  rw [compareUuid, if_pos ⟨ha, hb⟩, compareLex, compareLex, compareOn, compareOn]
  -- The moment matters only if both are of version 1; there the ticks decide before the bytes do.
  cases hversion : Ord.compare (Uuid.versionOf a) (Uuid.versionOf b) with
  | lt | gt => rfl
  | eq =>
    have hsame : Uuid.versionOf a = Uuid.versionOf b := Std.LawfulEqOrd.eq_of_compare hversion
    by_cases hone : Uuid.versionOf b = 1
    · rw [hsame, if_pos hone, Uuid.compareTime, if_pos ⟨ha, hb⟩, versionTicks, versionTicks, hsame,
        if_pos hone, if_pos hone]
    · rw [hsame, if_neg hone, versionTicks, versionTicks, hsame, if_neg hone, if_neg hone]
      rfl

/-! ## Composites -/

/-- The order of two frames whose components are of one type. -/
def compareFrame (type : DataType) (f g : Frame) : Ordering :=
  (compare type f.component g.component).then (compareEnds f.endByte g.endByte)

/-- The order of two runs of frames of declared types. -/
def compareComponents : List DataType → List Frame → List Frame → Ordering
  | _, [], [] => .eq
  | _, [], _ :: _ => .lt
  | _, _ :: _, [] => .gt
  | type :: types, f :: fs, g :: gs => (compareFrame type f g).then (compareComponents types fs gs)
  | [], _ :: _, _ :: _ => .eq

/-- Without a broken frame or one too many, runs of frames are ordered frame by frame. -/
theorem compareFrames_map_some (whole : Ordering) : ∀ {types : List DataType} {fs gs : List Frame},
    fs.length ≤ types.length →
    compareFrames whole types (fs.map some) (gs.map some) = compareComponents types fs gs
  | types, [], [], _ => by cases types <;> simp [compareFrames, compareComponents]
  | types, [], _ :: _, _ => by cases types <;> simp [compareFrames, compareComponents]
  | types, _ :: _, [], _ => by cases types <;> simp [compareFrames, compareComponents]
  | [], _ :: _, _ :: _, h => absurd h (by simp)
  | type :: types, f :: fs, g :: gs, h => by
    have hlen : fs.length ≤ types.length := Nat.le_of_succ_le_succ h
    have hrest : compareFrames whole types (fs.map some) (gs.map some) =
        compareComponents types fs gs :=
      compareFrames_map_some whole hlen
    rw [List.map_cons, List.map_cons, compareFrames, hrest, compareComponents, compareFrame,
      Ordering.then_assoc]

/-- The components of frames read as values. -/
def Fits (types : List DataType) (fs : List Frame) : Prop :=
  ∃ ws, Reads types fs ws

theorem fits_cons {type : DataType} {types : List DataType} {f : Frame} {fs : List Frame}
    (h : Fits (type :: types) (f :: fs)) : Accepts type f.component ∧ Fits types fs := by
  obtain ⟨ws, hws⟩ := h
  cases ws with
  | nil => exact hws.elim
  | cons w ws => exact ⟨⟨w, hws.1⟩, ⟨ws, hws.2⟩⟩

/-- The frames of bytes that are nothing but frames. -/
def framesOf (bs : Bytes) : List Frame := (frames bs).filterMap id

theorem framesOf_of_frames {bs : Bytes} {fs : List Frame} (h : frames bs = fs.map some) :
    framesOf bs = fs := by
  rw [framesOf, h, List.filterMap_map]
  exact List.filterMap_some

/-- The bytes that a composite type reads are frames of its components. -/
theorem frames_of_accepts {types : List DataType} {bs : Bytes} (h : Accepts (.composite types) bs) :
    frames bs = (framesOf bs).map some ∧ Fits types (framesOf bs) := by
  obtain ⟨w, hw⟩ := h
  rw [unpack, map_eq_ok] at hw
  obtain ⟨ws, hws, rfl⟩ := hw
  obtain ⟨fs, hfs, hreads⟩ := exists_frames_of_unpackComponents types types.length bs ws hws
  rw [framesOf_of_frames hfs]
  exact ⟨hfs, ws, hreads⟩

/-- Accepted composites are ordered by their frames. -/
theorem compare_composite {types : List DataType} {a b : Bytes} (ha : Accepts (.composite types) a)
    (hb : Accepts (.composite types) b) :
    compare (.composite types) a b = compareComponents types (framesOf a) (framesOf b) := by
  obtain ⟨hfa, ws, hreads⟩ := frames_of_accepts ha
  obtain ⟨hfb, -⟩ := frames_of_accepts hb
  rw [compare, hfa, hfb, compareFrames_map_some _ hreads.length_le]

/-! ## All types -/

mutual

/-- A comparator is a total order on the bytes that its type reads. -/
theorem orderedOn_compare : ∀ type : DataType, OrderedOn (Accepts type) (compare type)
  | .composite types => by
    -- A composite is compared by its frames, which is an order carried over from runs of frames.
    have hframes := (orderedOn_compareComponents types).comap framesOf
    have haccepted := hframes.mono fun a (ha : Accepts (.composite types) a) =>
      (frames_of_accepts ha).2
    exact haccepted.congr fun a b ha hb => compare_composite ha hb
  | .long | .counter | .date =>
    orderedOn_compareSigned.mono fun _ => length_of_accepts_long (by simp)
  | .timeUuid => orderedOn_compareTime.mono fun _ => length_of_accepts_uuid (by simp)
  | .uuid => orderedOn_compareUuid.mono fun _ => length_of_accepts_uuid (by simp)
  | .bytes | .ascii | .utf8 | .integer | .boolean | .lexicalUuid | .list _ | .map _ _ =>
    @OrderedOn.of_transCmp _ _ Ord.compare _

private theorem orderedOn_compareComponents : ∀ types : List DataType,
    OrderedOn (Fits types) (compareComponents types)
  | [] => by
    -- No frame is left without a type, so there is one run only.
    have hnil : ∀ fs, Fits [] fs → fs = [] := by
      rintro fs ⟨ws, hws⟩
      exact List.eq_nil_of_length_eq_zero (Nat.le_zero.1 hws.length_le)
    have hequal : OrderedOn (Fits []) (compareOn fun _ : List Frame => 0) := .of_transCmp
    refine hequal.congr fun fs gs hfs hgs => ?_
    rw [hnil fs hfs, hnil gs hgs]
    rfl
  | type :: types => by
    -- One frame: first its component, then the sign of its end byte.
    have hcomponent := (orderedOn_compare type).comap Frame.component
    have hends : OrderedOn (fun f : Frame => Accepts type f.component)
        (compareOn fun f => endSign f.endByte) :=
      .of_transCmp
    have hhead : OrderedOn (fun f : Frame => Accepts type f.component) (compareFrame type) :=
      hcomponent.lex hends
    exact hhead.lists (orderedOn_compareComponents types) (fun f fs => fits_cons)
      rfl (fun _ _ => rfl) (fun _ _ => rfl) fun _ _ _ _ => rfl

end

end WideColumn.DataType
