import Mathlib.Tactic.Common

/-!
# Comparators that order some keys

Some comparators are orders on well-formed keys only. `OrderedOn p order` says that `order` is a
total order, up to keys that compare equal, on the keys with the property `p`. The laws themselves
are those of `Std.TransCmp`, taken on the subtype of these keys. A key is `Exact` if no other one
compares equal to it.
-/

namespace WideColumn

variable {κ ι : Type}

/-- A comparator is a total order on the keys with a property, up to keys that compare equal. -/
abbrev OrderedOn (p : κ → Prop) (order : κ → κ → Ordering) : Prop :=
  Std.TransCmp fun a b : {a // p a} => order a.1 b.1

namespace OrderedOn

variable {p q : κ → Prop} {order order' : κ → κ → Ordering}

/-! ## Building orders -/

theorem of_transCmp [h : Std.TransCmp order] : OrderedOn p order where
  eq_swap := h.eq_swap
  isLE_trans := h.isLE_trans

theorem congr (h : OrderedOn p order) (hsame : ∀ a b, p a → p b → order' a b = order a b) :
    OrderedOn p order' where
  eq_swap {a b} := by
    rw [hsame a.1 b.1 a.2 b.2, hsame b.1 a.1 b.2 a.2]
    exact h.eq_swap
  isLE_trans {a b c} hab hbc := by
    rw [hsame _ _ a.2 b.2] at hab
    rw [hsame _ _ b.2 c.2] at hbc
    rw [hsame _ _ a.2 c.2]
    exact h.isLE_trans hab hbc

theorem mono (h : OrderedOn p order) (hle : ∀ a, q a → p a) : OrderedOn q order where
  eq_swap {a b} := h.eq_swap (a := ⟨a.1, hle a.1 a.2⟩) (b := ⟨b.1, hle b.1 b.2⟩)
  isLE_trans {a b c} :=
    h.isLE_trans (a := ⟨a.1, hle a.1 a.2⟩) (b := ⟨b.1, hle b.1 b.2⟩) (c := ⟨c.1, hle c.1 c.2⟩)

/-- An order of parts orders the wholes by that part. -/
theorem comap (h : OrderedOn p order) (part : ι → κ) :
    OrderedOn (fun i => p (part i)) fun i j => order (part i) (part j) where
  eq_swap {i j} := h.eq_swap (a := ⟨part i, i.2⟩) (b := ⟨part j, j.2⟩)
  isLE_trans {i j k} :=
    h.isLE_trans (a := ⟨part i, i.2⟩) (b := ⟨part j, j.2⟩) (c := ⟨part k, k.2⟩)

/-- One order, and another one among the keys that it holds equal. -/
theorem lex (h : OrderedOn p order) (h' : OrderedOn p order') :
    OrderedOn p fun a b => (order a b).then (order' a b) :=
  have := h
  have := h'
  inferInstanceAs (Std.TransCmp (compareLex (fun a b : {a // p a} => order a.1 b.1)
    fun a b : {a // p a} => order' a.1 b.1))

/-- Lists that are compared by their heads and, where these are equal, by their tails. A list that
runs out first comes first. -/
theorem lists {head : κ → κ → Ordering} {tail whole : List κ → List κ → Ordering}
    {q r : List κ → Prop} (hhead : OrderedOn p head) (htail : OrderedOn q tail)
    (hr : ∀ a as, r (a :: as) → p a ∧ q as) (hnil : whole [] [] = .eq)
    (hshort : ∀ b bs, whole [] (b :: bs) = .lt) (hlong : ∀ a as, whole (a :: as) [] = .gt)
    (hcons : ∀ a as b bs, whole (a :: as) (b :: bs) = (head a b).then (tail as bs)) :
    OrderedOn r whole where
  eq_swap := by
    rintro ⟨as, has⟩ ⟨bs, hbs⟩
    show whole as bs = (whole bs as).swap
    cases as with
    | nil =>
      cases bs with
      | nil => rw [hnil]; rfl
      | cons b bs => rw [hshort, hlong]; rfl
    | cons a as =>
      cases bs with
      | nil => rw [hshort, hlong]; rfl
      | cons b bs =>
        obtain ⟨ha, has⟩ := hr a as has
        obtain ⟨hb, hbs⟩ := hr b bs hbs
        have hheads : head a b = (head b a).swap := hhead.eq_swap (a := ⟨a, ha⟩) (b := ⟨b, hb⟩)
        have htails : tail as bs = (tail bs as).swap :=
          htail.eq_swap (a := ⟨as, has⟩) (b := ⟨bs, hbs⟩)
        rw [hcons, hcons, hheads, htails, Ordering.swap_then]
  isLE_trans := by
    rintro ⟨as, has⟩ ⟨bs, hbs⟩ ⟨cs, hcs⟩
    show (whole as bs).isLE → (whole bs cs).isLE → (whole as cs).isLE
    intro hab hbc
    -- A list that has run out comes first; of two others, the heads decide and then the tails.
    match as, bs, cs with
    | [], _, [] => rw [hnil]; rfl
    | [], _, c :: cs => rw [hshort]; rfl
    | a :: as, [], _ => rw [hlong] at hab; cases hab
    | a :: as, b :: bs, [] => rw [hlong] at hbc; cases hbc
    | a :: as, b :: bs, c :: cs =>
      obtain ⟨ha, has⟩ := hr a as has
      obtain ⟨hb, hbs⟩ := hr b bs hbs
      obtain ⟨hc, hcs⟩ := hr c cs hcs
      rw [hcons, Ordering.isLE_then_iff_and] at hab hbc ⊢
      -- The outer heads are in order, and they are equal only if all three are.
      refine ⟨@Std.TransCmp.isLE_trans _ _ hhead ⟨a, ha⟩ ⟨b, hb⟩ ⟨c, hc⟩ hab.1 hbc.1, ?_⟩
      rcases hab.2 with hlt | hle
      · exact .inl (@Std.TransCmp.lt_of_lt_of_isLE _ _ hhead ⟨a, ha⟩ ⟨b, hb⟩ ⟨c, hc⟩ hlt hbc.1)
      · rcases hbc.2 with hlt' | hle'
        · exact .inl (@Std.TransCmp.lt_of_isLE_of_lt _ _ hhead ⟨a, ha⟩ ⟨b, hb⟩ ⟨c, hc⟩ hab.1 hlt')
        · exact .inr (@Std.TransCmp.isLE_trans _ _ htail ⟨as, has⟩ ⟨bs, hbs⟩ ⟨cs, hcs⟩ hle hle')

/-! ## Laws -/

variable {a b c : κ}

theorem swap (h : OrderedOn p order) (ha : p a) (hb : p b) : order a b = (order b a).swap :=
  h.eq_swap (a := ⟨a, ha⟩) (b := ⟨b, hb⟩)

theorem self (h : OrderedOn p order) (ha : p a) : order a a = .eq := by
  have hswap := h.swap ha ha
  cases hself : order a a with
  | eq => rfl
  | lt | gt =>
    rw [hself] at hswap
    cases hswap

theorem gt_of_lt (h : OrderedOn p order) (ha : p a) (hb : p b) (hlt : order a b = .lt) :
    order b a = .gt := by
  rw [h.swap hb ha, hlt]
  rfl

theorem lt_of_gt (h : OrderedOn p order) (ha : p a) (hb : p b) (hgt : order a b = .gt) :
    order b a = .lt := by
  rw [h.swap hb ha, hgt]
  rfl

theorem lt_trans (h : OrderedOn p order) (ha : p a) (hb : p b) (hc : p c) (hab : order a b = .lt)
    (hbc : order b c = .lt) : order a c = .lt :=
  @Std.TransCmp.lt_trans _ _ h ⟨a, ha⟩ ⟨b, hb⟩ ⟨c, hc⟩ hab hbc

/-- A key before one that is not after a third is before the third. -/
theorem lt_of_lt_of_ne_gt (h : OrderedOn p order) (ha : p a) (hb : p b) (hc : p c)
    (hab : order a b = .lt) (hbc : order b c ≠ .gt) : order a c = .lt :=
  @Std.TransCmp.lt_of_lt_of_isLE _ _ h ⟨a, ha⟩ ⟨b, hb⟩ ⟨c, hc⟩ hab (Ordering.ne_gt_iff_isLE.1 hbc)

theorem lt_of_ne_gt_of_lt (h : OrderedOn p order) (ha : p a) (hb : p b) (hc : p c)
    (hab : order a b ≠ .gt) (hbc : order b c = .lt) : order a c = .lt :=
  @Std.TransCmp.lt_of_isLE_of_lt _ _ h ⟨a, ha⟩ ⟨b, hb⟩ ⟨c, hc⟩ (Ordering.ne_gt_iff_isLE.1 hab) hbc

theorem ne_gt_trans (h : OrderedOn p order) (ha : p a) (hb : p b) (hc : p c)
    (hab : order a b ≠ .gt) (hbc : order b c ≠ .gt) : order a c ≠ .gt :=
  Ordering.ne_gt_iff_isLE.2 (@Std.TransCmp.isLE_trans _ _ h ⟨a, ha⟩ ⟨b, hb⟩ ⟨c, hc⟩
    (Ordering.ne_gt_iff_isLE.1 hab) (Ordering.ne_gt_iff_isLE.1 hbc))

/-- A key after one that is after a third is after the third. -/
theorem gt_trans (h : OrderedOn p order) (ha : p a) (hb : p b) (hc : p c) (hab : order a b = .gt)
    (hbc : order b c = .gt) : order a c = .gt :=
  h.gt_of_lt hc ha (h.lt_trans hc hb ha (h.lt_of_gt hb hc hbc) (h.lt_of_gt ha hb hab))

end OrderedOn

/-! ## Exact keys -/

/-- Among the keys with a property, a key compares equal to itself only. -/
structure Exact (p : κ → Prop) (order : κ → κ → Ordering) (key : κ) : Prop where
  holds : p key
  eq_of_compare : ∀ k, p k → order k key = .eq → k = key

theorem exact_of_lawfulEqOrd [Ord κ] [Std.LawfulEqOrd κ] (key : κ) :
    Exact (fun _ => True) compare key :=
  ⟨trivial, fun _ _ heq => Std.LawfulEqOrd.eq_of_compare heq⟩

end WideColumn
