import WideColumn.DataType.Basic
import WideColumn.Uuid.Time

/-!
# Comparators

`DataType.compare` orders encodings the way columns are sorted. Signed integers, UUIDs and
composites have an order of their own; all other types sort by bytes.

Composites compare frame by frame: first the components in their own types' orders, then the end
bytes as signed numbers, so that a bound can stand before or after all names that share its
components. Bytes that are not frames sort as bytes.
-/

namespace WideColumn.DataType

/-! ## Signed integers -/

/-- Orders eight-byte words as signed numbers, and all else by length and then by bytes. -/
def compareSigned (a b : Bytes) : Ordering :=
  if a.length = 8 ∧ b.length = 8 then
    (compare (a.getD 0 0 ^^^ 0x80) (b.getD 0 0 ^^^ 0x80)).then (compare (a.drop 1) (b.drop 1))
  else (compare a.length b.length).then (compare a b)

/-! ## UUIDs -/

/-- Orders UUIDs by version, then version 1 by time and the others by bytes. -/
def compareUuid (a b : Bytes) : Ordering :=
  if a.length = 16 ∧ b.length = 16 then
    (compare (Uuid.versionOf a) (Uuid.versionOf b)).then
      (if Uuid.versionOf a = 1 then Uuid.compareTime a b else compare a b)
  else compare a b

/-! ## Frames -/

/-- A component of a packed composite with its end byte. -/
structure Frame where
  component : Bytes
  endByte : UInt8
  deriving DecidableEq, Repr

/-- Splits the first frame off. -/
def Frame.split? (bs : Bytes) : Option (Frame × Bytes) :=
  match bs with
  | l₁ :: l₀ :: rest =>
    match rest.drop (Bytes.wordOf [l₁, l₀]) with
    | endByte :: rest' => some (⟨rest.take (Bytes.wordOf [l₁, l₀]), endByte⟩, rest')
    | [] => none
  | _ => none

theorem Frame.length_split? {bs rest : Bytes} {f : Frame} (h : Frame.split? bs = some (f, rest)) :
    rest.length < bs.length := by
  unfold Frame.split? at h
  split at h
  · next l₁ l₀ tail =>
    split at h
    · next endByte rest' hdrop =>
      have hlen := congrArg List.length hdrop
      simp only [List.length_drop, List.length_cons] at hlen
      simp only [Option.some.injEq, Prod.mk.injEq] at h
      obtain ⟨-, rfl⟩ := h
      simp only [List.length_cons]
      omega
    · simp at h
  · simp at h

/-- The frames of a byte string in order; `none` at the end marks bytes that are no frame. -/
def frames (bs : Bytes) : List (Option Frame) :=
  if bs.isEmpty then []
  else
    match _h : Frame.split? bs with
    | some (f, rest) => some f :: frames rest
    | none => [none]
termination_by bs.length
decreasing_by exact Frame.length_split? _h

/-- The sign of an end byte: minus one from `0x80` on, zero for zero, plus one otherwise. -/
def endSign (b : UInt8) : Int := if b = 0 then 0 else if b < 0x80 then 1 else -1

/-- Orders the end bytes of two equal components: all negative ones are alike, and so are all
positive ones. -/
def compareEnds (a b : UInt8) : Ordering := compare (endSign a) (endSign b)

/-- Orders what is left when all declared types are used up. -/
def compareUntyped (whole : Ordering) : List (Option Frame) → List (Option Frame) → Ordering
  | [], [] => .eq
  | [], _ :: _ => .lt
  | _ :: _, [] => .gt
  | some f :: fs, some g :: gs =>
    (compare f.component g.component).then
      ((compareEnds f.endByte g.endByte).then (compareUntyped whole fs gs))
  | none :: _, _ :: _ => whole
  | _ :: _, none :: _ => whole

/-! ## All types -/

mutual

/-- The order of encodings of a type. -/
def compare (type : DataType) (a b : Bytes) : Ordering :=
  match type with
  | .long | .counter | .date => compareSigned a b
  | .timeUuid => Uuid.compareTime a b
  | .uuid => compareUuid a b
  | .composite types => compareFrames (Ord.compare a b) types (frames a) (frames b)
  | .bytes | .ascii | .utf8 | .integer | .boolean | .lexicalUuid | .list _ | .map _ _ =>
    Ord.compare a b

/-- The order of two runs of frames; `whole` decides when one of them is broken. -/
def compareFrames (whole : Ordering) :
    List DataType → List (Option Frame) → List (Option Frame) → Ordering
  | _, [], [] => .eq
  | _, [], _ :: _ => .lt
  | _, _ :: _, [] => .gt
  | type :: types, some f :: fs, some g :: gs =>
    (compare type f.component g.component).then
      ((compareEnds f.endByte g.endByte).then (compareFrames whole types fs gs))
  | [], fs, gs => compareUntyped whole fs gs
  | _, _, _ => whole

end

end WideColumn.DataType
