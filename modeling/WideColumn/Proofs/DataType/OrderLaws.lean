import WideColumn.Proofs.DataType.LogicalOrder

/-!
# The laws of comparators

Rows are sorted by comparators, so these have to be total orders on whatever a table lets in: all
encodings that a type reads, the bounds of slices among them. Two encodings may compare equal
without being the same, but exact ones may not.

- `pack_of_exact`: names, keys and values have one encoding;
- `accepts_flatMap_bytes`: a composite type reads frames whatever their end bytes are;
- `compare_laws`: the laws.
-/

namespace WideColumn.DataType

/-! ## Exact encodings -/

theorem packSimple_of_exact {ctx : PackContext} (hctx : ctx.sliceEnd = .exact) (type : DataType)
    (v : Value) : packSimple type v ctx = packSimple type v .name := by
  obtain ⟨isName, sliceEnd⟩ := ctx
  cases hctx
  -- Only a moment looks at its use, and it is no exact name either.
  have hmoment : ∀ micros, packMoment micros ⟨isName, .exact⟩ = packMoment micros .name := by
    intro micros
    cases isName <;> rfl
  cases type <;> simp only [packSimple, hmoment]

theorem endOfComponent_of_exact {ctx : PackContext} (hctx : ctx.sliceEnd = .exact) :
    ctx.endOfComponent = 0 := by
  rw [PackContext.endOfComponent, hctx]
  split <;> rfl

mutual

/-- What is no slice bound is packed like an exact name. -/
theorem pack_of_exact : ∀ (type : DataType) (v : Value) (ctx : PackContext),
    ctx.sliceEnd = .exact → pack type v ctx = pack type v .name
  | .composite types, v, ctx, hctx => by
    cases v <;> simp only [pack]
    case composite vs =>
      cases vs with
      | nil => simp [hctx, PackContext.name]
      | cons v vs => simp only [packComponents_of_exact types 0 (v :: vs) ctx hctx]
  | .list _, v, _, _ => by cases v <;> rfl
  | .map _ _, v, _, _ => by cases v <;> rfl
  | .bytes, v, _, hctx | .ascii, v, _, hctx | .utf8, v, _, hctx | .long, v, _, hctx
  | .integer, v, _, hctx | .boolean, v, _, hctx | .date, v, _, hctx | .lexicalUuid, v, _, hctx
  | .timeUuid, v, _, hctx | .uuid, v, _, hctx | .counter, v, _, hctx =>
    packSimple_of_exact hctx _ v

private theorem packComponents_of_exact : ∀ (types : List DataType) (index : Nat) (vs : List Value)
    (ctx : PackContext), ctx.sliceEnd = .exact →
    packComponents types index vs ctx = packComponents types index vs .name
  | [], _, _, _, _ | _ :: _, _, [], _, _ => rfl
  | type :: types, index, v :: vs, ctx, hctx => by
    have hfirst : pack type v (if vs.isEmpty then ctx else .name) = pack type v .name := by
      split
      · exact pack_of_exact type v ctx hctx
      · rfl
    rw [packComponents, packComponents, ite_self, hfirst, endOfComponent_of_exact hctx,
      packComponents_of_exact types (index + 1) vs ctx hctx]
    rfl

end

/-- Exact encodings that compare equal are the same bytes, whether they are names, keys or
values. -/
theorem eq_of_compare_exact {type : DataType} {v w : Value} {ctx ctx' : PackContext} {a b : Bytes}
    (hctx : ctx.sliceEnd = .exact) (hctx' : ctx'.sliceEnd = .exact) (ha : pack type v ctx = .ok a)
    (hb : pack type w ctx' = .ok b) (h : compare type a b = .eq) : a = b := by
  rw [pack_of_exact type v ctx hctx] at ha
  rw [pack_of_exact type w ctx' hctx'] at hb
  exact eq_of_compare_of_pack type v w a b ha hb h

/-! ## End bytes -/

/-- Frames read as components whatever their end bytes are. -/
theorem unpackComponents_flatMap_bytes (declared : Nat) :
    ∀ {types : List DataType} {fs : List Frame}
    {ws : List Value}, (∀ f ∈ fs, f.component.length ≤ maxShort) → Reads types fs ws →
    unpackComponents declared types (fs.flatMap Frame.bytes) = .ok ws
  | [], [], [], _, _ | _ :: _, [], [], _, _ => rfl
  | [], _ :: _, _, _, h | _ :: _, [], _ :: _, _, h | _ :: _, _ :: _, [], _, h => h.elim
  | type :: types, f :: fs, w :: ws, hshort, h => by
    have hframe : frame 0 f.component f.endByte = .ok f.bytes :=
      if_pos (hshort f List.mem_cons_self)
    have hrest := unpackComponents_flatMap_bytes declared
      (fun f hf => hshort f (List.mem_cons_of_mem _ hf)) h.2
    rw [List.flatMap_cons, unpackComponents_frame declared type types hframe, h.1, hrest]
    rfl

/-- A composite type reads frames whose components fit, with any end bytes. -/
theorem accepts_flatMap_bytes {types : List DataType} {fs : List Frame}
    (hshort : ∀ f ∈ fs, f.component.length ≤ maxShort) (h : Fits types fs) :
    Accepts (.composite types) (fs.flatMap Frame.bytes) := by
  obtain ⟨ws, hreads⟩ := h
  refine ⟨.composite ws, ?_⟩
  rw [unpack, unpackComponents_flatMap_bytes _ hshort hreads]
  rfl

/-! ## Main result -/

/-- A comparator is a total order on the bytes that its type reads. These include everything that
was packed for any use, and composites with any end bytes. Exact encodings compare equal only if
they are the same. -/
theorem compare_laws (type : DataType) :
    (∀ a, Accepts type a → compare type a a = .eq) ∧
    (∀ a b, Accepts type a → Accepts type b → compare type b a = (compare type a b).swap) ∧
    (∀ a b c, Accepts type a → Accepts type b → Accepts type c →
      compare type a b ≠ .gt → compare type b c ≠ .gt →
        compare type a c ≠ .gt ∧
          (compare type a b = .lt ∨ compare type b c = .lt → compare type a c = .lt)) ∧
    (∀ v ctx a, pack type v ctx = .ok a → Accepts type a) ∧
    (∀ types fs, type = .composite types → (∀ f ∈ fs, f.component.length ≤ maxShort) →
      Fits types fs → Accepts type (fs.flatMap Frame.bytes)) ∧
    ∀ v w ctx ctx' a b, ctx.sliceEnd = .exact → ctx'.sliceEnd = .exact →
      pack type v ctx = .ok a → pack type w ctx' = .ok b → compare type a b = .eq → a = b := by
  -- All laws come from the order on the encodings that the type accepts.
  have horder := orderedOn_compare type
  refine ⟨fun a ha => horder.self ha, fun a b ha hb => horder.swap hb ha, ?_,
    fun v ctx a h => accepts_of_pack h, ?_, ?_⟩
  · intro a b c ha hb hc hab hbc
    refine ⟨horder.ne_gt_trans ha hb hc hab hbc, ?_⟩
    rintro (hlt | hlt)
    · exact horder.lt_of_lt_of_ne_gt ha hb hc hlt hbc
    · exact horder.lt_of_ne_gt_of_lt ha hb hc hab hlt
  · rintro types fs rfl hshort hfits
    exact accepts_flatMap_bytes hshort hfits
  · intro v w ctx ctx' a b hctx hctx' ha hb h
    exact eq_of_compare_exact hctx hctx' ha hb h

/-- A name, the bound behind it and a later name, one composite inside another. -/
theorem compare_laws_nested :
    let type := composite [.utf8, .composite [.long]]
    let name := [0, 1, 97, 0, 0, 11, 0, 8, 0, 0, 0, 0, 0, 0, 0, 5, 0, 0]
    let bound := [0, 1, 97, 0, 0, 11, 0, 8, 0, 0, 0, 0, 0, 0, 0, 5, 1, 1]
    let later := [0, 1, 98, 0]
    pack type (.composite [.text "a", .composite [.long 5]]) .name = .ok name ∧
      pack type (.composite [.text "a", .composite [.long 5]]) (.bound (.finish true)) = .ok bound ∧
      pack type (.composite [.text "b"]) .value = .ok later ∧
      compare type name bound = .lt ∧ compare type bound name = .gt ∧
      compare type bound later = .lt ∧ compare type name later = .lt := by
  intro type name bound later
  have hname : pack type (.composite [.text "a", .composite [.long 5]]) .name = .ok name := by
    decide +kernel
  have hbound : pack type (.composite [.text "a", .composite [.long 5]]) (.bound (.finish true)) =
      .ok bound := by
    decide +kernel
  have hlater : pack type (.composite [.text "b"]) .value = .ok later := by decide +kernel
  have hfirst : compare type name bound = .lt := by decide +kernel
  have hsecond : compare type bound later = .lt := by decide +kernel
  -- the bound packs the same components as the name, so only its end byte puts it after
  obtain ⟨-, hswap, htrans, haccepts, -, -⟩ := compare_laws type
  have hreverse := hswap name bound (haccepts _ _ _ hname) (haccepts _ _ _ hbound)
  have hthird := htrans name bound later (haccepts _ _ _ hname) (haccepts _ _ _ hbound)
    (haccepts _ _ _ hlater) (by simp [hfirst]) (by simp [hsecond])
  rw [hfirst] at hreverse
  exact ⟨hname, hbound, hlater, hfirst, hreverse, hsecond, hthird.2 (.inl hfirst)⟩

end WideColumn.DataType
