import WideColumn.Proofs.Pool.Run

/-!
# The attempts of a call

A call is a run of attempts. Each one acquires a session, uses it once and gives it back, and only a
transient failure leads to another one. The relations here keep the whole history of a call, so that
proofs about calls are inductions on its attempts and never go into the loop.

- `Trying`: the attempts made so far, with their sessions and outcomes;
- `Calling`: the ways a call ends, and `calling`: every call ends in one of them;
- `Unmoved`: what neither opening nor closing sessions changes about a network;
- `Passed`: how many sessions a call takes, gives back and gives up as failed.
-/

namespace WideColumn.Pool

section Attempts

variable {ω α : Type} [Network ω]

/-! ## Outcomes -/

/-- Whether an outcome leads to another attempt. -/
def isRetried : Except RpcError α → Bool
  | .ok _ => false
  | .error e => e.isTransient

/-- Gives a session back after an attempt, as a failed one if the failure is transient. -/
def settle (link : Link) (outcome : Except RpcError α) (p : Pool) (w : ω) : Pool × ω :=
  if isRetried outcome then discard link p w else release link p w

/-- The failure of the latest attempt. -/
def lastFailure : List (SessionId × Except RpcError α) → Option RpcError
  | (_, .error e) :: _ => some e
  | _ => none

/-! ## Histories -/

/-- The attempts of a call so far, latest first. Another one is only made if all before it failed
transiently. -/
inductive Trying (r : Rpc α) (p : Pool) (w : ω) :
    List (SessionId × Except RpcError α) → Pool → ω → Prop where
  | start : Trying r p w [] p w
  | attempt {tried : List (SessionId × Except RpcError α)} {p₁ p₂ : Pool} {w₁ w₂ w₃ : ω}
      {link : Link}
      {outcome : Except RpcError α} (h : Trying r p w tried p₁ w₁)
      (hretried : ∀ t ∈ tried, isRetried t.2 = true) (hacquire : p₁.acquire w₁ = (.ok link, p₂, w₂))
      (hperform : Network.perform link.session r w₂ = (outcome, w₃)) :
      Trying r p w ((link.session, outcome) :: tried) (settle link outcome p₂ w₃).1
        (settle link outcome p₂ w₃).2

/-- The ways a call ends. -/
inductive Calling (operation : String) (r : Rpc α) (p : Pool) (w : ω) :
    List (SessionId × Except RpcError α) → Except ClientError α → Pool → ω → Prop where
  /-- All attempts were made and failed transiently. -/
  | exhausted {tried : List (SessionId × Except RpcError α)} {p' : Pool} {w' : ω}
      (h : Trying r p w tried p' w') (hretried : ∀ t ∈ tried, isRetried t.2 = true)
      (hlength : tried.length = p.config.maxRetries) :
      Calling operation r p w tried
        (.error (.retriesExhausted operation p.config.maxRetries (lastFailure tried))) p' w'
  /-- No session was to be had for another attempt. -/
  | refused {tried : List (SessionId × Except RpcError α)} {p₁ p' : Pool} {w₁ w' : ω}
      {e : ClientError} (h : Trying r p w tried p₁ w₁)
      (hretried : ∀ t ∈ tried, isRetried t.2 = true)
      (hlength : tried.length < p.config.maxRetries)
      (hacquire : p₁.acquire w₁ = (.error e, p', w')) :
      Calling operation r p w tried (.error e) p' w'
  /-- The latest attempt was answered, or failed otherwise than transiently. -/
  | concluded {tried : List (SessionId × Except RpcError α)} {id : SessionId}
      {outcome : Except RpcError α} {p' : Pool} {w' : ω}
      (h : Trying r p w ((id, outcome) :: tried) p' w') (hfinal : isRetried outcome = false)
      (hlength : tried.length < p.config.maxRetries) :
      Calling operation r p w ((id, outcome) :: tried) (outcome.mapError .ofRpc) p' w'

variable {r : Rpc α} {p p' : Pool} {w w' : ω} {tried : List (SessionId × Except RpcError α)}

theorem Calling.length_le {operation : String} {answer : Except ClientError α}
    (h : Calling operation r p w tried answer p' w') : tried.length ≤ p.config.maxRetries := by
  cases h with
  | exhausted _ _ hlength => exact Nat.le_of_eq hlength
  | refused _ _ hlength => exact Nat.le_of_lt hlength
  | concluded _ _ hlength => exact hlength

/-- A call whose attempts were all made and failed transiently ends after the last of them. -/
theorem Calling.trying_of_retried {operation : String} {answer : Except ClientError α}
    (h : Calling operation r p w tried answer p' w') (hlength : tried.length = p.config.maxRetries)
    (hretried : ∀ t ∈ tried, isRetried t.2 = true) : Trying r p w tried p' w' := by
  cases h with
  | exhausted h => exact h
  | refused _ _ hless => exact absurd hlength (Nat.ne_of_lt hless)
  | concluded h => exact h

/-- A call within a number of attempts continues the history before it. -/
theorem calling_callWithin {operation : String} :
    ∀ {left : Nat} {tried : List (SessionId × Except RpcError α)} {p₁ p' : Pool} {w₁ w' : ω}
      {answer : Except ClientError α}, Trying r p w tried p₁ w₁ →
      (∀ t ∈ tried, isRetried t.2 = true) → tried.length + left = p.config.maxRetries →
      callWithin operation r p.config.maxRetries left (lastFailure tried) p₁ w₁ = (answer, p', w') →
      ∃ tried', Calling operation r p w tried' answer p' w'
  -- By recursion on the attempts that are left, with the history of those that were made.
  | 0, tried, p₁, p', w₁, w', answer, htrying, hretried, hlength, hcall => by
    cases hcall
    exact ⟨tried, .exhausted htrying hretried hlength⟩
  | left + 1, tried, p₁, p', w₁, w', answer, htrying, hretried, hlength, hcall => by
    have hmore : tried.length < p.config.maxRetries := by omega
    rw [callWithin] at hcall
    cases hacquire : p₁.acquire w₁ with
    | mk acquired rest =>
      obtain ⟨p₂, w₂⟩ := rest
      cases acquired with
      | error e =>
        simp only [hacquire] at hcall
        cases hcall
        exact ⟨tried, .refused htrying hretried hmore hacquire⟩
      | ok link =>
        cases hperform : Network.perform link.session r w₂ with
        | mk outcome w₃ =>
          simp only [hacquire, hperform] at hcall
          have hnext := Trying.attempt htrying hretried hacquire hperform
          cases outcome with
          | ok a =>
            cases hcall
            exact ⟨_, .concluded hnext rfl hmore⟩
          | error e =>
            simp only at hcall
            split at hcall
            · next htransient =>
              -- The session is given up, and the loop goes on with a longer history.
              have hagain : isRetried (.error e : Except RpcError α) = true := htransient
              simp only [settle, hagain, if_true] at hnext
              refine calling_callWithin hnext ?_ ?_ hcall
              · rintro t (_ | ⟨_, ht⟩)
                · exact hagain
                · exact hretried t ht
              · rw [List.length_cons]
                omega
            · next hfinal =>
              have hfinal : isRetried (.error e : Except RpcError α) = false :=
                Bool.eq_false_iff.2 hfinal
              cases hcall
              simp only [settle, hfinal, Bool.false_eq_true, if_false] at hnext
              exact ⟨_, .concluded hnext hfinal hmore⟩

/-- Every call ends in one of these ways. -/
theorem calling {operation : String} {answer : Except ClientError α}
    (h : p.call operation r w = (answer, p', w')) :
    ∃ tried, Calling operation r p w tried answer p' w' :=
  calling_callWithin .start (List.forall_mem_nil _) (Nat.zero_add _) h

/-! ## What opening and closing sessions leave alone -/

/-- A property of a network that opening and closing sessions does not end. -/
structure Unmoved (N : ω → Prop) : Prop where
  closing : ∀ {w : ω}, N w → N (Network.closing w).2
  connect : ∀ {w : ω} (server : String) (login : Login), N w → N (Network.connect server login w).2
  close : ∀ {w : ω} (id : SessionId), N w → N (Network.close id w)

namespace Unmoved

variable {N : ω → Prop} {link : Link}

theorem closeLinks (hN : Unmoved N) (links : List Link) {w : ω} (h : N w) :
    N (Pool.closeLinks links w) := by
  induction links generalizing w with
  | nil => exact h
  | cons link links ih => exact ih (hN.close link.session h)

theorem openingInvariant (hN : Unmoved N) : OpeningInvariant fun (_ : Pool) (w : ω) => N w where
  turned h := h
  asked {_ w w'} h hclosing := by
    have hasked := hN.closing h
    rwa [hclosing] at hasked
  shut {p w w'} h hclosing := by
    have hasked := hN.closing h
    rw [hclosing] at hasked
    exact hN.closeLinks p.free hasked
  refused {p w w' server e} h hconnect := by
    have hrefused := hN.connect server p.config.login h
    rwa [hconnect] at hrefused

theorem opening (hN : Unmoved N) {answer : Except ClientError Link}
    (h : Opening (fun _ w => N w) answer p w) : N w := by
  cases h with
  | @opened p w w' server session h hconnect =>
    have hopened := hN.connect server p.config.login h
    rwa [hconnect] at hopened
  | failed h => exact h

theorem openSlot (hN : Unmoved N) {answer : Except ClientError Link} (h : N w)
    (hslot : Pool.openSlot p w = (answer, p', w')) : N w' := by
  cases answer with
  | ok link => exact hN.opening (hN.openingInvariant.openSlot_ok h hslot)
  | error e =>
    obtain ⟨p₁, h₁, -⟩ := hN.openingInvariant.openSlot_error h hslot
    exact h₁

theorem openLink (hN : Unmoved N) {answer : Except ClientError Link} (h : N w)
    (hlink : Pool.openLink p w = (answer, p', w')) : N w' :=
  hN.opening (hN.openingInvariant.openLink h hlink)

theorem acquire (hN : Unmoved N) {answer : Except ClientError Link} (h : N w)
    (hacquire : p.acquire w = (answer, p', w')) : N w' := by
  cases acquiring hacquire with
  | shut => exact h
  | lent => exact h
  | opened _ _ _ hslot => exact hN.openSlot h hslot
  | failed _ _ _ hslot => exact hN.openSlot h hslot
  | timedOut => exact h

theorem release (hN : Unmoved N) (h : N w) (hrelease : Releasing link p w p' w') : N w' := by
  cases hrelease with
  | shut => exact hN.close link.session h
  | recycled => exact hN.close link.session h
  | kept => exact h

theorem discard (hN : Unmoved N) (h : N w) (hdiscard : Discarding link p w p' w') : N w' := by
  have hclosed : N (Network.close link.session w) := hN.close link.session h
  cases hdiscard with
  | shut => exact hclosed
  | replaced _ hlink => exact hN.openLink hclosed hlink
  | @late fresh _ _ _ hlink => exact hN.close fresh.session (hN.openLink hclosed hlink)
  | unreplaced _ hlink => exact hN.openLink hclosed hlink

theorem settle (hN : Unmoved N) (link : Link) (outcome : Except RpcError α) (p : Pool) {w : ω}
    (h : N w) : N (Pool.settle link outcome p w).2 := by
  rw [Pool.settle]
  split
  · exact hN.discard h (discarding link p w)
  · exact hN.release h (releasing link p w)

end Unmoved

/-! ## How many sessions pass through a pool -/

/-- From one pool to another so many sessions were handed out, came back and failed. -/
structure Passed (handed back failed : Nat) (p p' : Pool) : Prop where
  acquisitions : p'.counters.acquisitions = p.counters.acquisitions + handed
  releases : p'.counters.releases = p.counters.releases + back
  failed : p'.counters.failed = p.counters.failed + failed

namespace Passed

variable {link : Link}

omit [Network ω] in
theorem trans {handed back failed handed' back' failed' : Nat} {p₁ : Pool}
    (h : Passed handed back failed p p₁) (h' : Passed handed' back' failed' p₁ p') :
    Passed (handed + handed') (back + back') (failed + failed') p p' where
  acquisitions := by rw [h'.acquisitions, h.acquisitions, Nat.add_assoc]
  releases := by rw [h'.releases, h.releases, Nat.add_assoc]
  failed := by rw [h'.failed, h.failed, Nat.add_assoc]

/-- Attempts to open a session hand none out and take none back. -/
theorem openingInvariant (ω : Type) [Network ω] (p : Pool) :
    OpeningInvariant fun (p' : Pool) (_ : ω) => Passed 0 0 0 p p' where
  turned h := ⟨h.acquisitions, h.releases, h.failed⟩
  asked h _ := h
  shut h _ := ⟨h.acquisitions, h.releases, h.failed⟩
  refused h _ := h

theorem opening {answer : Except ClientError Link}
    (h : Opening (fun (p' : Pool) (_ : ω) => Passed 0 0 0 p p') answer p' w) :
    Passed 0 0 0 p p' := by
  cases h with
  | opened h => exact ⟨h.acquisitions, h.releases, h.failed⟩
  | failed h => exact h

theorem openSlot {answer : Except ClientError Link}
    (hslot : Pool.openSlot p w = (answer, p', w')) : Passed 0 0 0 p p' := by
  have hinv := openingInvariant ω p
  cases answer with
  | ok link => exact opening (hinv.openSlot_ok ⟨rfl, rfl, rfl⟩ hslot)
  | error e =>
    obtain ⟨p₁, h₁, rfl⟩ := hinv.openSlot_error ⟨rfl, rfl, rfl⟩ hslot
    exact ⟨h₁.acquisitions, h₁.releases, h₁.failed⟩

theorem openLink {answer : Except ClientError Link}
    (hlink : Pool.openLink p w = (answer, p', w')) : Passed 0 0 0 p p' :=
  opening ((openingInvariant ω p).openLink ⟨rfl, rfl, rfl⟩ hlink)

private theorem acquire_ok (hacquire : p.acquire w = (.ok link, p', w')) : Passed 1 0 0 p p' := by
  cases acquiring hacquire with
  | lent => exact ⟨rfl, rfl, rfl⟩
  | @opened _ p₁ _ _ _ _ hslot =>
    have hlent : Passed 1 0 0 p₁ p₁.handOut := ⟨rfl, rfl, rfl⟩
    exact (openSlot hslot).trans hlent

private theorem acquire_error {e : ClientError} (hacquire : p.acquire w = (.error e, p', w')) :
    Passed 0 0 0 p p' := by
  cases acquiring hacquire with
  | shut => exact ⟨rfl, rfl, rfl⟩
  | failed _ _ _ hslot => exact openSlot hslot
  | timedOut => exact ⟨rfl, rfl, rfl⟩

theorem release (hrelease : Releasing link p w p' w') : Passed 0 1 0 p p' := by
  cases hrelease with
  | shut => exact ⟨rfl, rfl, rfl⟩
  | recycled => exact ⟨rfl, rfl, rfl⟩
  | kept => exact ⟨rfl, rfl, rfl⟩

theorem discard (hdiscard : Discarding link p w p' w') : Passed 0 1 1 p p' := by
  have hoff : Passed 0 1 1 p p.writtenOff := ⟨rfl, rfl, rfl⟩
  cases hdiscard with
  | shut => exact ⟨rfl, rfl, rfl⟩
  | replaced _ hlink =>
    have hopened := hoff.trans (openLink hlink)
    exact ⟨hopened.acquisitions, hopened.releases, hopened.failed⟩
  | late _ hlink =>
    have hopened := hoff.trans (openLink hlink)
    exact ⟨hopened.acquisitions, hopened.releases, hopened.failed⟩
  | unreplaced _ hlink =>
    have hopened := hoff.trans (openLink hlink)
    exact ⟨hopened.acquisitions, hopened.releases, hopened.failed⟩

/-- Every attempt hands one session out and takes one back, and the transient failures are counted
as failed sessions. -/
theorem trying (h : Trying r p w tried p' w') :
    Passed tried.length tried.length (tried.countP fun t => isRetried t.2) p p' := by
  induction h with
  | start => exact ⟨rfl, rfl, rfl⟩
  | @attempt tried p₁ p₂ w₁ w₂ w₃ link outcome _ _ hacquire _ ih =>
    have hacquired := ih.trans (acquire_ok hacquire)
    rw [List.length_cons, List.countP_cons, settle]
    split
    · exact hacquired.trans (discard (discarding link p₂ w₃))
    · exact hacquired.trans (release (releasing link p₂ w₃))

theorem calling {operation : String} {answer : Except ClientError α}
    (h : Calling operation r p w tried answer p' w') :
    Passed tried.length tried.length (tried.countP fun t => isRetried t.2) p p' := by
  cases h with
  | exhausted h => exact trying h
  | refused h _ _ hacquire => exact (trying h).trans (acquire_error hacquire)
  | concluded h => exact trying h

end Passed

end Attempts

end WideColumn.Pool
