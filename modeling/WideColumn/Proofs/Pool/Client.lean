import WideColumn.Pool

/-!
# Steps of a client

A program of a client is a chain of steps that may fail. It answers if every step does, each in the
state that the steps before it have left.

- `Client.bind_eq_ok`, `Client.ofExcept_bind_eq_ok`: chains are taken apart one step at a time;
- `Client.mapM_of_keeps`: a run of steps that all keep a property of the state;
- `Client.exists_mapM_eq_error`: a run with a step that always fails;
- `Client.answersWith`: whether a program answers with what passes a check, told by running it.
-/

namespace WideColumn.Client

variable {ω α β : Type} {s s' : Pool × ω}

theorem bind_eq_ok {x : Client ω α} {f : α → Client ω β} {b : β} :
    (x >>= f) s = .ok b s' ↔ ∃ a s₁, x s = .ok a s₁ ∧ f a s₁ = .ok b s' := by
  show EStateM.bind x f s = _ ↔ _
  rw [EStateM.bind]
  cases x s with
  | ok a s₁ =>
    constructor
    · exact fun h => ⟨a, s₁, rfl, h⟩
    · rintro ⟨a', s₁', h, hf⟩
      cases h
      exact hf
  | error e s₁ =>
    constructor
    · exact nofun
    · rintro ⟨a, s₁, h, -⟩
      cases h

theorem bind_of_ok {x : Client ω α} {f : α → Client ω β} {a : α} {s₁ : Pool × ω}
    (h : x s = .ok a s₁) : (x >>= f) s = f a s₁ := by
  show EStateM.bind x f s = _
  rw [EStateM.bind, h]

theorem bind_of_error {x : Client ω α} {f : α → Client ω β} {e : ClientError} {s₁ : Pool × ω}
    (h : x s = .error e s₁) : (x >>= f) s = .error e s₁ := by
  show EStateM.bind x f s = _
  rw [EStateM.bind, h]

theorem pure_eq_ok {a b : α} : (pure a : Client ω α) s = .ok b s' ↔ a = b ∧ s = s' := by
  show EStateM.Result.ok a s = _ ↔ _
  constructor
  · intro h
    cases h
    exact ⟨rfl, rfl⟩
  · rintro ⟨rfl, rfl⟩
    rfl

/-- A step that only computes leaves the state as it is. -/
theorem ofExcept_eq_ok {x : Except ClientError α} {a : α} :
    (ofExcept x : Client ω α) s = .ok a s' ↔ x = .ok a ∧ s = s' := by
  cases x with
  | ok a' =>
    show (pure a' : Client ω α) s = _ ↔ _
    rw [pure_eq_ok, Except.ok.injEq]
  | error e => exact ⟨nofun, nofun⟩

/-- A step that only computes comes before what uses its result. -/
theorem ofExcept_bind_eq_ok {x : Except ClientError α} {f : α → Client ω β} {b : β} :
    (ofExcept x >>= f) s = .ok b s' ↔ ∃ a, x = .ok a ∧ f a s = .ok b s' := by
  rw [bind_eq_ok]
  constructor
  · rintro ⟨a, s₁, hx, hf⟩
    obtain ⟨rfl, rfl⟩ := ofExcept_eq_ok.1 hx
    exact ⟨a, rfl, hf⟩
  · rintro ⟨a, rfl, hf⟩
    exact ⟨a, s, rfl, hf⟩

/-- Whether a program answers, and with a result and a state that pass a check. -/
def answersWith (x : Client ω α) (s : Pool × ω) (check : α → Pool × ω → Bool) : Bool :=
  match x s with
  | .ok a s' => check a s'
  | .error _ _ => false

theorem exists_of_answersWith {x : Client ω α} {check : α → Pool × ω → Bool}
    (h : answersWith x s check = true) : ∃ a s', x s = .ok a s' ∧ check a s' = true := by
  rw [answersWith] at h
  cases hx : x s with
  | ok a s' =>
    rw [hx] at h
    exact ⟨a, s', rfl, h⟩
  | error e s' =>
    rw [hx] at h
    cases h

/-- Steps that each answer and keep a property of the state do so one after the other. -/
theorem mapM_of_keeps {P : Pool × ω → Prop} {f : α → Client ω β} {g : α → β} {xs : List α}
    (h : ∀ x ∈ xs, ∀ s, P s → ∃ s', P s' ∧ f x s = .ok (g x) s') :
    ∀ {s : Pool × ω}, P s → ∃ s', P s' ∧ xs.mapM f s = .ok (xs.map g) s' := by
  induction xs with
  | nil => exact fun {s} hs => ⟨s, hs, rfl⟩
  | cons x xs ih =>
    intro s hs
    obtain ⟨s₁, hs₁, hfirst⟩ := h x List.mem_cons_self s hs
    obtain ⟨s', hs', hrest⟩ := ih (fun x hx => h x (List.mem_cons_of_mem _ hx)) hs₁
    refine ⟨s', hs', ?_⟩
    rw [List.mapM_cons, bind_of_ok hfirst, bind_of_ok hrest]
    rfl

/-- A run of steps fails if one of them fails whatever the steps before it have left. -/
theorem exists_mapM_eq_error {f : α → Client ω β} {xs : List α} {x : α} (hx : x ∈ xs)
    (hfails : ∀ s, ∃ e s', f x s = .error e s') (s : Pool × ω) :
    ∃ e s', xs.mapM f s = .error e s' := by
  induction xs generalizing s with
  | nil => cases hx
  | cons y ys ih =>
    rw [List.mapM_cons]
    -- The run comes to the element, unless another one fails before it.
    cases hfirst : f y s with
    | error e s₁ => exact ⟨e, s₁, bind_of_error hfirst⟩
    | ok b s₁ =>
      rw [bind_of_ok hfirst]
      rcases List.mem_cons.1 hx with rfl | hx
      · obtain ⟨e, s', hfailed⟩ := hfails s
        rw [hfirst] at hfailed
        cases hfailed
      · obtain ⟨e, s', hrest⟩ := ih hx s₁
        exact ⟨e, s', bind_of_error hrest⟩

end WideColumn.Client
