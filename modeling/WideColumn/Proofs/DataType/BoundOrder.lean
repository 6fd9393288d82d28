import WideColumn.Proofs.DataType.LogicalOrder

/-!
# Names and the bounds of slices

A bound of a composite comparator may leave components out. It is compared with as many components
of a name as it has itself, and the mark in its last end byte says on which side of it the names
stand that it is a prefix of.

- `boundOrder`: the order of a name and a bound by their components;
- `SliceEnd.extensions`: where a bound places the names that extend it;
- `compare_bound`: the comparator puts a packed name and a packed bound in that order.
-/

namespace WideColumn

/-- On which side of a bound the names stand that have its components: after an inclusive lower
bound and before an exclusive one, and the other way round for upper bounds. -/
def SliceEnd.extensions : SliceEnd → Ordering
  | .exact => .eq
  | .start inclusive => if inclusive then .gt else .lt
  | .finish inclusive => if inclusive then .lt else .gt

namespace DataType

mutual

/-- The order of a name and a bound. The last component of a bound is a bound itself. -/
def boundOrder (type : DataType) (name bound : Value) : Ordering :=
  match type with
  | .composite types =>
    match name, bound with
    | .composite vs, .composite ps => boundComponents types vs ps
    | _, _ => .eq
  | type => order type name bound

/-- The order of the components of a name and of a bound. A name that runs out first comes first. A
name that has all components of the bound is neither before nor after it. -/
def boundComponents : List DataType → List Value → List Value → Ordering
  | _, [], [] => .eq
  | _, [], _ :: _ => .lt
  | _, _ :: _, [] => .gt
  | type :: _, v :: _, [p] => boundOrder type v p
  | type :: types, v :: vs, p :: ps => (order type v p).then (boundComponents types vs ps)
  | [], _ :: _, _ :: _ => .eq

end

/-- A bound without nested composites is compared with as many components of a name as it has
itself; a name that is a proper prefix of the bound comes before it. -/
theorem boundComponents_eq_orderComponents : ∀ (types : List DataType) (vs ps : List Value),
    (∀ type ∈ types, type.isComposite = false) → ps ≠ [] →
    boundComponents types vs ps = orderComponents types (vs.take ps.length) ps
  | _, _, [], _, hsome => absurd rfl hsome
  | types, [], p :: ps, _, _ => by cases types <;> simp [boundComponents, orderComponents]
  | [], v :: vs, p :: ps, _, _ => by simp [boundComponents, orderComponents]
  | type :: types, v :: vs, [p], hplain, _ => by
    -- Only inside a composite could the last component of a bound be compared differently.
    have htype : boundOrder type v p = order type v p := by
      have hnot := hplain type List.mem_cons_self
      cases type <;> first | rfl | cases hnot
    have hnone : orderComponents types [] [] = .eq := by cases types <;> rfl
    rw [boundComponents, htype, List.length_singleton, List.take_succ_cons, List.take_zero,
      orderComponents, hnone, Ordering.then_eq]
  | type :: types, v :: vs, p :: q :: ps, hplain, _ => by
    have hrest := boundComponents_eq_orderComponents types vs (q :: ps)
      (fun type htype => hplain type (List.mem_cons_of_mem _ htype)) (List.cons_ne_nil q ps)
    rw [List.length_cons, List.take_succ_cons, orderComponents, ← hrest]
    rfl

/-- A name with the components of a bound but the last one is placed by that one. -/
theorem boundComponents_append_singleton {type : DataType} (p v : Value) (rest : List Value) :
    ∀ (types : List DataType) (vs : List Value), types[vs.length]? = some type →
      boundComponents types (vs ++ v :: rest) (vs ++ [p]) = boundOrder type v p
  | [], vs, htype => by simp at htype
  | first :: types, [], htype => by
    cases htype
    simp [boundComponents]
  | first :: types, q :: vs, htype => by
    have hrest := boundComponents_append_singleton p v rest types vs (by simpa using htype)
    cases vs <;> simp_all [boundComponents, order_self]

private theorem compareEnds_exact (sliceEnd : SliceEnd) :
    compareEnds 0 (PackContext.bound sliceEnd).endOfComponent = sliceEnd.extensions := by
  rcases sliceEnd with _ | inclusive | inclusive
  · rfl
  · cases inclusive <;> rfl
  · cases inclusive <;> rfl

/-- A bound that is no composite is ordered like the name that its type keeps for it. -/
theorem pack_coerce_bound {type : DataType} (htype : type.isComposite = false) {p : Value}
    {sliceEnd : SliceEnd} {b : Bytes} (h : pack type p (.bound sliceEnd) = .ok b) :
    pack type (coerce type sliceEnd p) .name = .ok b := by
  cases type
  case composite => cases htype
  case list item =>
    -- Lists and maps ignore the use they are packed for.
    have hexact : pack (.list item) p .name = .ok b := by cases p <;> exact h
    have hcoerce := pack_coerce (.list item) p .name b rfl hexact
    cases p <;> exact hcoerce
  case map key value =>
    have hexact : pack (.map key value) p .name = .ok b := by cases p <;> exact h
    have hcoerce := pack_coerce (.map key value) p .name b rfl hexact
    cases p <;> exact hcoerce
  all_goals exact packSimple_coerceSimple rfl h .name

private theorem extensions_then {sliceEnd : SliceEnd} (h : sliceEnd ≠ .exact) (o : Ordering) :
    sliceEnd.extensions.then o = sliceEnd.extensions := by
  rcases sliceEnd with _ | inclusive | inclusive
  · exact absurd rfl h
  · cases inclusive <;> rfl
  · cases inclusive <;> rfl

/-- What the comparator says of a name and a bound with the same components. -/
def atBound (type : DataType) (sliceEnd : SliceEnd) : Ordering :=
  if type.isComposite then sliceEnd.extensions else .eq

/-- Bounds that are no composites are names. -/
theorem compare_bound_of_not_composite {type : DataType} (htype : type.isComposite = false)
    {v p : Value} {sliceEnd : SliceEnd} {a b : Bytes} (hv : isNative type v = true)
    (ha : pack type v .name = .ok a) (hb : pack type p (.bound sliceEnd) = .ok b) :
    compare type a b =
    (boundOrder type v (coerce type sliceEnd p)).then (atBound type sliceEnd) := by
  have hp := isNative_of_unpack type b _ (unpack_of_pack type p _ b hb)
  have hcompare := compare_of_pack_native type v _ a b hv hp ha (pack_coerce_bound htype hb)
  have hplain : boundOrder type v (coerce type sliceEnd p) =
      order type v (coerce type sliceEnd p) := by
    cases type <;> first | rfl | cases htype
  rw [atBound, htype, if_neg Bool.false_ne_true, Ordering.then_eq, hplain]
  exact hcompare

mutual

/-- A packed name and a packed bound are ordered by their components and then by the mark of the
bound. -/
theorem compare_bound_native : ∀ (type : DataType) (v p : Value) (sliceEnd : SliceEnd)
    (a b : Bytes),
    sliceEnd ≠ .exact → isNative type v = true → pack type v .name = .ok a →
    pack type p (.bound sliceEnd) = .ok b →
    compare type a b = (boundOrder type v (coerce type sliceEnd p)).then (atBound type sliceEnd)
  | .composite types, v, p, sliceEnd, a, b, hbound, hv, ha, hb => by
    obtain ⟨vs, fs, rfl, hfs, hframed, hsome⟩ := exists_framed_of_pack ha
    obtain ⟨ps, gs, rfl, hgs, hframed', -⟩ := exists_framed_of_pack hb
    -- A name is never empty, though a bound may be.
    have hvs : vs ≠ [] := fun hnil => hsome hnil rfl
    rw [compare_composite (accepts_of_pack ha) (accepts_of_pack hb), framesOf_of_frames hfs,
      framesOf_of_frames hgs]
    exact compareComponents_bound types vs ps sliceEnd fs gs hbound (.inl hvs) hv hframed hframed'
  | .list _, _, _, _, _, _, _, hv, ha, hb | .map _ _, _, _, _, _, _, _, hv, ha, hb
  | .bytes, _, _, _, _, _, _, hv, ha, hb | .ascii, _, _, _, _, _, _, hv, ha, hb
  | .utf8, _, _, _, _, _, _, hv, ha, hb | .long, _, _, _, _, _, _, hv, ha, hb
  | .integer, _, _, _, _, _, _, hv, ha, hb | .boolean, _, _, _, _, _, _, hv, ha, hb
  | .date, _, _, _, _, _, _, hv, ha, hb | .lexicalUuid, _, _, _, _, _, _, hv, ha, hb
  | .timeUuid, _, _, _, _, _, _, hv, ha, hb | .uuid, _, _, _, _, _, _, hv, ha, hb
  | .counter, _, _, _, _, _, _, hv, ha, hb => compare_bound_of_not_composite rfl hv ha hb

private theorem compareComponents_bound : ∀ (types : List DataType) (vs ps : List Value)
    (sliceEnd : SliceEnd) (fs gs : List Frame), sliceEnd ≠ .exact → vs ≠ [] ∨ ps ≠ [] →
    areNative types vs = true → Framed .name types vs fs → Framed (.bound sliceEnd) types ps gs →
    compareComponents types fs gs =
      (boundComponents types vs (coerceComponents types sliceEnd ps)).then sliceEnd.extensions
  | [], vs, ps, _, _, _, _, hsome, _, hf, hg => by
    cases hf
    cases hg
    rcases hsome with h | h <;> exact absurd rfl h
  | type :: types, vs, ps, sliceEnd, fs, gs, hbound, hsome, hv, hf, hg => by
    cases hf with
    | nil =>
      cases hg with
      | nil => rcases hsome with h | h <;> exact absurd rfl h
      | cons => rfl
    | @cons _ _ v vs f fs hcomponent hend hrest =>
      rw [areNative, Bool.and_eq_true] at hv
      rw [ite_self] at hcomponent
      have hzero : f.endByte = 0 := by
        rw [hend]
        cases vs <;> rfl
      cases hg with
      | nil => rfl
      | @cons _ _ p ps g gs hcomponent' hend' hrest' =>
        rw [compareComponents, compareFrame, hzero, hend', coerceComponents]
        cases hrest' with
        | nil =>
          -- The last component of the bound is packed as a bound and carries its mark.
          have hlast := compare_bound_native type v p sliceEnd f.component g.component hbound hv.1
            hcomponent hcomponent'
          have hmark : (atBound type sliceEnd).then sliceEnd.extensions = sliceEnd.extensions := by
            unfold atBound
            split
            · exact extensions_then hbound _
            · rfl
          have hlone : coerceComponents types sliceEnd [] = [] := by cases types <;> rfl
          have hshape : boundComponents (type :: types) (v :: vs) [coerce type sliceEnd p] =
              boundOrder type v (coerce type sliceEnd p) := by
            rw [boundComponents]
          rw [hlone, List.isEmpty_nil, if_pos rfl, if_pos rfl, hshape, compareEnds_exact, hlast,
            Ordering.then_assoc, Ordering.then_assoc, extensions_then hbound, hmark]
        | @cons type' types' q ps g' gs hcomponent'' hend'' hrest'' =>
          -- Any other component is an exact name, and the rest of the bound decides behind it.
          have hp := isNative_of_unpack type g.component _
            (unpack_of_pack type p .name g.component hcomponent')
          have hfirst :=
            compare_of_pack_native type v (coerce type .exact p) f.component g.component
            hv.1 hp hcomponent (pack_coerce type p .name g.component rfl hcomponent')
          have hothers :=
            compareComponents_bound (type' :: types') vs (q :: ps) sliceEnd fs (g' :: gs)
            hbound (.inr (List.cons_ne_nil _ _)) hv.2 hrest (.cons hcomponent'' hend'' hrest'')
          have hends : compareEnds 0 (if (q :: ps).isEmpty = true then
              (PackContext.bound sliceEnd).endOfComponent else 0) = .eq := rfl
          rw [hends, Ordering.then_eq, hfirst, hothers, ← Ordering.then_assoc]
          rfl

end

/-- The comparator puts a packed name and a packed bound in the order of the values they stand for.
A name that has all components of a composite bound is placed by the kind of the bound. -/
theorem compare_bound {type : DataType} {v p : Value} {sliceEnd : SliceEnd} {a b : Bytes}
    (hbound : sliceEnd ≠ .exact) (ha : pack type v .name = .ok a)
    (hb : pack type p (.bound sliceEnd) = .ok b) :
    compare type a b =
      (boundOrder type (coerce type .exact v) (coerce type sliceEnd p)).then
      (atBound type sliceEnd) :=
  compare_bound_native type _ p sliceEnd a b hbound
    (isNative_of_unpack type a _ (unpack_of_pack type v .name a ha))
    (pack_coerce type v .name a rfl ha)
    hb

end DataType

end WideColumn
