import WideColumn.DataType.Order
import WideColumn.Proofs.DataType.RoundTrip

/-!
# The frames of composites

The comparator and the reader split the bytes of a composite on their own. This module shows that
they see the same frames, and that the frames are those the packer wrote.

- `Reads types fs ws`: the components of the frames `fs` read as the values `ws`;
- `exists_frames_of_unpackComponents`: bytes that read as components are frames without a rest;
- `Framed ctx types vs fs`: the frames that packing the components `vs` writes;
- `exists_frames_of_packComponents`: packed components are such frames.
-/

namespace WideColumn.DataType

/-! ## One frame -/

/-- A field and an end byte in front of other bytes are split off as a frame. -/
theorem split?_shortField {field : Bytes} (h : field.length ≤ maxShort) (endByte : UInt8)
    (rest : Bytes) :
    Frame.split? (Bytes.shortField field ++ endByte :: rest) = some (⟨field, endByte⟩, rest) := by
  have hword : Bytes.wordOf (Bytes.wordBytes 2 field.length) = field.length := by
    rw [Bytes.wordOf_wordBytes]
    exact Nat.mod_eq_of_lt (Nat.lt_succ_of_le h)
  -- The two bytes of the length have to be in sight before the frame can be split.
  obtain ⟨l₁, l₀, hbytes⟩ : ∃ l₁ l₀, Bytes.wordBytes 2 field.length = [l₁, l₀] := ⟨_, _, rfl⟩
  rw [hbytes] at hword
  rw [Bytes.shortField, hbytes]
  show Frame.split? (l₁ :: l₀ :: (field ++ endByte :: rest)) = _
  simp only [Frame.split?, hword, List.drop_left, List.take_left]

private theorem frames_shortField {field : Bytes} (h : field.length ≤ maxShort) (endByte : UInt8)
    (rest : Bytes) :
    frames (Bytes.shortField field ++ endByte :: rest) = some ⟨field, endByte⟩ :: frames rest := by
  have hempty : (Bytes.shortField field ++ endByte :: rest).isEmpty = false := by simp
  rw [frames, hempty, if_neg Bool.false_ne_true]
  split
  · next f rest' hsplit =>
    rw [split?_shortField h] at hsplit
    cases hsplit
    rfl
  · next hsplit =>
    rw [split?_shortField h] at hsplit
    cases hsplit

theorem frames_nil : frames [] = [] := by
  rw [frames]
  rfl

private theorem frames_frame {index : Nat} {packed first : Bytes} {endByte : UInt8}
    (h : frame index packed endByte = .ok first) (rest : Bytes) :
    frames (first ++ rest) = some ⟨packed, endByte⟩ :: frames rest := by
  rw [frame, guard_eq_ok] at h
  obtain ⟨hlen, hfirst⟩ := h
  cases hfirst
  rw [List.append_assoc, List.singleton_append, frames_shortField hlen]

/-- A frame as it is written. -/
def Frame.bytes (f : Frame) : Bytes := Bytes.shortField f.component ++ [f.endByte]

/-- A frame that was split off stood in front of the rest. -/
theorem append_of_split? {bs rest : Bytes} {f : Frame} (h : Frame.split? bs = some (f, rest)) :
    bs = f.bytes ++ rest := by
  unfold Frame.split? at h
  split at h
  · next l₁ l₀ tail =>
    split at h
    · next endByte rest' hdrop =>
      cases h
      have htail := List.take_append_drop (Bytes.wordOf [l₁, l₀]) tail
      -- An end byte was left, so the component was there in full.
      have hlen : (tail.take (Bytes.wordOf [l₁, l₀])).length = Bytes.wordOf [l₁, l₀] := by
        have hlong := congrArg List.length hdrop
        rw [List.length_drop, List.length_cons] at hlong
        exact List.length_take_of_le (by omega)
      have hword : Bytes.wordBytes 2 (Bytes.wordOf [l₁, l₀]) = [l₁, l₀] :=
        Bytes.wordBytes_wordOf [l₁, l₀]
      rw [hdrop] at htail
      rw [Frame.bytes, Bytes.shortField, hlen, hword, List.append_assoc, List.append_assoc,
        List.singleton_append, htail]
      rfl
    · cases h
  · cases h

/-- Bytes that are nothing but frames are these frames written one after the other. -/
theorem eq_flatMap_of_frames {fs : List Frame} {bs : Bytes} (h : frames bs = fs.map some) :
    bs = fs.flatMap Frame.bytes := by
  -- By induction on the frames: each was split off the front of what was left.
  induction fs generalizing bs with
  | nil =>
    rw [frames] at h
    split at h
    · next hempty => exact List.isEmpty_iff.1 hempty
    · split at h <;> cases h
  | cons f fs ih =>
    rw [frames] at h
    split at h
    · cases h
    · split at h
      · next f' rest hsplit =>
        obtain ⟨hf, hrest⟩ := List.cons.inj h
        cases hf
        rw [List.flatMap_cons, ← ih hrest]
        exact append_of_split? hsplit
      · cases h

private theorem length_component_of_split? {bs rest : Bytes} {f : Frame}
    (h : Frame.split? bs = some (f, rest)) : f.component.length ≤ maxShort := by
  unfold Frame.split? at h
  split at h
  · next l₁ l₀ tail =>
    split at h
    · cases h
      have hlt : Bytes.wordOf [l₁, l₀] < 256 ^ 2 := Bytes.wordOf_lt [l₁, l₀]
      exact Nat.le_trans (List.length_take_le _ _) (Nat.le_of_lt_succ hlt)
    · cases h
  · cases h

/-- The length of a component fits in its two bytes. -/
theorem length_component_of_frames {fs : List Frame} {bs : Bytes} (h : frames bs = fs.map some) :
    ∀ f ∈ fs, f.component.length ≤ maxShort := by
  induction fs generalizing bs with
  | nil => nofun
  | cons f fs ih =>
    rw [frames] at h
    split at h
    · cases h
    · split at h
      · next f' rest hsplit =>
        obtain ⟨hf, hrest⟩ := List.cons.inj h
        cases hf
        rintro g (_ | ⟨_, hg⟩)
        · exact length_component_of_split? hsplit
        · exact ih hrest g hg
      · cases h

/-- What is split off the front was in front. -/
theorem append_of_takeBytes {type : DataType} {n : Nat} {bs front rest : Bytes}
    (h : takeBytes type n bs = .ok (front, rest)) : bs = front ++ rest ∧ front.length = n := by
  rw [takeBytes, Bytes.takeExact] at h
  by_cases hle : n ≤ bs.length
  · rw [if_pos hle] at h
    cases h
    exact ⟨(List.take_append_drop n bs).symm, List.length_take_of_le hle⟩
  · rw [if_neg hle] at h
    cases h

/-- A word that was read stood in front of the rest. -/
theorem append_of_takeWord {type : DataType} {bs rest : Bytes} {n : Nat}
    (h : takeWord type bs = .ok (n, rest)) : bs = Bytes.wordBytes 2 n ++ rest ∧ n ≤ maxShort := by
  simp only [takeWord, bind_eq_ok, pure_eq_ok, Prod.mk.injEq] at h
  obtain ⟨⟨word, _⟩, hword, rfl, rfl⟩ := h
  obtain ⟨rfl, hwidth⟩ := append_of_takeBytes hword
  have hback := Bytes.wordBytes_wordOf word
  have hlt := Bytes.wordOf_lt word
  rw [hwidth] at hback hlt
  exact ⟨by rw [hback], Nat.le_of_lt_succ hlt⟩

/-- A field that was read stood in front of the rest. -/
theorem append_of_takeField {type : DataType} {bs field rest : Bytes}
    (h : takeField type bs = .ok (field, rest)) :
    bs = Bytes.shortField field ++ rest ∧ field.length ≤ maxShort := by
  rw [takeField, bind_eq_ok] at h
  obtain ⟨⟨length, behind⟩, hlength, hfield⟩ := h
  obtain ⟨rfl, hmax⟩ := append_of_takeWord hlength
  obtain ⟨rfl, rfl⟩ := append_of_takeBytes hfield
  exact ⟨(List.append_assoc ..).symm, hmax⟩

/-! ## Frames that were read -/

/-- The components of frames read as values, one by one. -/
def Reads : List DataType → List Frame → List Value → Prop
  | _, [], [] => True
  | type :: types, f :: fs, w :: ws => unpack type f.component = .ok w ∧ Reads types fs ws
  | _, _, _ => False

/-- Bytes that read as components are frames, and nothing is left over. -/
theorem exists_frames_of_unpackComponents : ∀ (types : List DataType) (declared : Nat) (bs : Bytes)
    (ws : List Value), unpackComponents declared types bs = .ok ws →
    ∃ fs, frames bs = fs.map some ∧ Reads types fs ws
  | [], _, [], ws, h | _ :: _, _, [], ws, h => by
    cases h
    exact ⟨[], frames_nil, trivial⟩
  | [], _, _ :: _, ws, h => by cases h
  | type :: types, declared, b :: bs, ws, h => by
    simp only [unpackComponents, bind_eq_ok, pure_eq_ok] at h
    obtain ⟨⟨field, behind⟩, hfield, ⟨_, rest⟩, hend, first, hfirst, others, hothers, rfl⟩ := h
    obtain ⟨hbs, hlen⟩ := append_of_takeField hfield
    obtain ⟨rfl, hone⟩ := append_of_takeBytes hend
    obtain ⟨endByte, rfl⟩ := List.length_eq_one_iff.1 hone
    obtain ⟨fs, hfs, hreads⟩ :=
      exists_frames_of_unpackComponents types declared rest others hothers
    -- The bytes of the first component are a frame, and the others are frames by recursion.
    refine ⟨⟨field, endByte⟩ :: fs, ?_, hfirst, hreads⟩
    rw [hbs, List.singleton_append, frames_shortField hlen, hfs]
    rfl

theorem Reads.length_le : ∀ {types : List DataType} {fs : List Frame} {ws : List Value},
    Reads types fs ws → fs.length ≤ types.length
  | _, [], _, _ => Nat.zero_le _
  | _ :: _, _ :: _, _ :: _, h => Nat.succ_le_succ (Reads.length_le h.2)

theorem Reads.length_eq : ∀ {types : List DataType} {fs : List Frame} {ws : List Value},
    Reads types fs ws → ws.length = fs.length
  | [], [], [], _ | _ :: _, [], [], _ => rfl
  | [], _ :: _, _, h | _ :: _, [], _ :: _, h | _ :: _, _ :: _, [], h => h.elim
  | _ :: _, _ :: _, _ :: _, h => congrArg Nat.succ (Reads.length_eq h.2)

/-! ## Frames that were written -/

/-- The frames that packing components writes. The last one is packed for the composite's own use
and carries its end byte; those before it are exact names. -/
inductive Framed (ctx : PackContext) : List DataType → List Value → List Frame → Prop
  | nil {types : List DataType} : Framed ctx types [] []
  | cons {type : DataType} {types : List DataType} {v : Value} {vs : List Value} {f : Frame}
      {fs : List Frame}
      (hcomponent : pack type v (if vs.isEmpty then ctx else .name) = .ok f.component)
      (hend : f.endByte = if vs.isEmpty then ctx.endOfComponent else 0)
      (hrest : Framed ctx types vs fs) :
      Framed ctx (type :: types) (v :: vs) (f :: fs)

/-- Packed components are frames, one for each. -/
theorem exists_frames_of_packComponents : ∀ (types : List DataType) (index : Nat) (vs : List Value)
    (ctx : PackContext) (bs : Bytes), vs.length ≤ types.length →
    packComponents types index vs ctx = .ok bs →
    ∃ fs, frames bs = fs.map some ∧ Framed ctx types vs fs
  | types, _, [], ctx, bs, _, h => by
    have hbs : bs = [] := by
      cases types <;> cases h <;> rfl
    subst hbs
    exact ⟨[], frames_nil, .nil⟩
  | [], _, _ :: _, _, _, hlen, _ => absurd hlen (by simp)
  | type :: types, index, v :: vs, ctx, bs, hlen, h => by
    simp only [packComponents, bind_eq_ok, pure_eq_ok] at h
    obtain ⟨packed, hpacked, first, hfirst, rest, hrest, rfl⟩ := h
    -- The rest is framed by induction, and the frame of the first component is put in front of it.
    obtain ⟨fs, hfs, hframed⟩ := exists_frames_of_packComponents types (index + 1) vs ctx rest
      (Nat.le_of_succ_le_succ hlen) hrest
    refine ⟨⟨packed, if vs.isEmpty then ctx.endOfComponent else 0⟩ :: fs, ?_,
      .cons hpacked rfl hframed⟩
    rw [frames_frame hfirst, hfs]
    rfl

/-- A packed composite consists of the frames of its components. Only the bound of a slice may have
none. -/
theorem exists_framed_of_pack {types : List DataType} {v : Value} {ctx : PackContext} {bs : Bytes}
    (h : pack (.composite types) v ctx = .ok bs) :
    ∃ vs fs, v = .composite vs ∧ frames bs = fs.map some ∧ Framed ctx types vs fs ∧
      (vs = [] → ctx.sliceEnd ≠ .exact) := by
  cases v <;> simp only [pack, reduceCtorEq] at h
  case composite vs =>
    -- Without components nothing is written, which only a bound may do.
    cases vs with
    | nil =>
      rw [guard_eq_ok, Bool.and_eq_true, bne_iff_ne] at h
      obtain ⟨⟨-, hbound⟩, hbs⟩ := h
      cases hbs
      exact ⟨[], [], rfl, frames_nil, .nil, fun _ => hbound⟩
    | cons v vs =>
      rw [guard_eq_ok] at h
      obtain ⟨hlen, h⟩ := h
      obtain ⟨fs, hfs, hframed⟩ := exists_frames_of_packComponents types 0 (v :: vs) ctx bs hlen h
      exact ⟨v :: vs, fs, rfl, hfs, hframed, fun hnil => absurd hnil (List.cons_ne_nil v vs)⟩

/-- A bound with components is not empty. -/
theorem pack_composite_ne_nil {types : List DataType} {vs : List Value} {ctx : PackContext}
    {bs : Bytes}
    (h : pack (.composite types) (.composite vs) ctx = .ok bs) (hvs : vs ≠ []) : bs ≠ [] := by
  obtain ⟨ws, fs, hws, hfs, hframed, -⟩ := exists_framed_of_pack h
  cases hws
  rintro rfl
  rw [frames_nil] at hfs
  cases hframed with
  | nil => exact hvs rfl
  | cons => cases hfs

end WideColumn.DataType
