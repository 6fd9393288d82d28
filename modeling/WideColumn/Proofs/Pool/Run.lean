import Mathlib.Data.List.Perm.Basic
import WideColumn.Proofs.Pool.Outcome

/-!
# Runs of a pool

The users of a pool take sessions and give them back, discard them, make calls and close the pool,
in any order and with whatever the network answers. `Custody` is the state of such a run: the pool,
the sessions that are held, and the network. It also keeps a record of the sessions that were handed
out and of those that failed.

- `Step` and `Custody.step`: the changes that take one session at most out of the pool or into it;
- `Operation` and `Custody.apply`: a step, the filling of the pool, or a call with all its attempts;
- `Custody.exists_steps_apply`: filling and calling are runs of steps;
- `Stepping`: the ways of a step, and `Custody.run_keeps`: what all of them keep, a run keeps at
  each point on its way.
-/

namespace WideColumn.Pool

/-! ## States -/

/-- A pool, its users and the network behind it. -/
structure Custody (ω : Type) where
  pool : Pool
  /-- The sessions that users hold, latest first. -/
  held : List Link
  network : ω
  /-- The sessions that were handed out so far, latest first, each as often as it was. -/
  handed : List SessionId
  /-- The sessions that were discarded or failed transiently in a call, latest first. -/
  failed : List SessionId

namespace Custody

/-- A new pool that nobody has used. -/
def start {ω : Type} (config : PoolConfig) (w : ω) : Custody ω where
  pool := ofConfig config
  held := []
  network := w
  handed := []
  failed := []

end Custody

/-! ## Steps -/

/-- A change that a user makes. Held sessions are named by their places in the list of them; a place
that nothing is at stands for no change. -/
inductive Step where
  /-- One round of filling: opens a free session if the pool is not full. -/
  | grow
  | acquire
  | release (place : Nat)
  | discard (place : Nat)
  /-- A call in a held session. -/
  | perform {α : Type} (place : Nat) (r : Rpc α)
  | close

/-- What the users of a pool ask for. -/
inductive Operation where
  | step (step : Step)
  /-- Opens sessions until the pool is full. -/
  | fill
  /-- A call on some session, and again on others as long as it fails transiently. -/
  | call {α : Type} (name : String) (r : Rpc α)

section Custody

variable {ω : Type} [Network ω]

/-- The sessions that the attempts of a call run in, latest first, and whether they fail
transiently. -/
def attempts {α : Type} (r : Rpc α) : Nat → Pool → ω → List (SessionId × Bool)
  | 0, _, _ => []
  | left + 1, p, w =>
    match p.acquire w with
    | (.error _, _, _) => []
    | (.ok link, p, w) =>
      match Network.perform link.session r w with
      | (.ok _, _) => [(link.session, false)]
      | (.error e, w) =>
        if e.isTransient then
          let (p, w) := discard link p w
          attempts r left p w ++ [(link.session, true)]
        else [(link.session, false)]

namespace Custody

/-- The state after a step. -/
def step (c : Custody ω) : Step → Custody ω
  | .grow =>
    if c.pool.isClosed ∨ c.pool.capacity ≤ c.pool.live then c
    else
      match openSlot c.pool c.network with
      | (.ok link, p, w) => { c with pool := { p with free := p.free ++ [link] }, network := w }
      | (.error _, p, w) => { c with pool := p, network := w }
  | .acquire =>
    match c.pool.acquire c.network with
    | (.ok link, p, w) => { c with
        pool := p, held := link :: c.held, network := w, handed := link.session :: c.handed }
    | (.error _, p, w) => { c with pool := p, network := w }
  | .release place =>
    match c.held[place]? with
    | none => c
    | some link =>
      let (p, w) := Pool.release link c.pool c.network
      { c with pool := p, held := c.held.eraseIdx place, network := w }
  | .discard place =>
    match c.held[place]? with
    | none => c
    | some link =>
      let (p, w) := Pool.discard link c.pool c.network
      { c with
        pool := p, held := c.held.eraseIdx place, network := w, failed := link.session :: c.failed }
  | .perform place r =>
    match c.held[place]? with
    | none => c
    | some link => { c with network := (Network.perform link.session r c.network).2 }
  | .close =>
    let (p, w) := c.pool.close c.network
    { c with pool := p, network := w }

/-- The state after a sequence of steps. -/
def runSteps (c : Custody ω) (steps : List Step) : Custody ω := steps.foldl step c

/-- The state after a call, given its answer and its attempts. -/
def called {β : Type} (c : Custody ω) (answer : β × Pool × ω) (tried : List (SessionId × Bool)) :
    Custody ω where
  pool := answer.2.1
  held := c.held
  network := answer.2.2
  handed := tried.map (·.1) ++ c.handed
  failed := (tried.filter (·.2)).map (·.1) ++ c.failed

/-- The state after an operation. -/
def apply (c : Custody ω) : Operation → Custody ω
  | .step s => c.step s
  | .fill =>
    let (_, p, w) := c.pool.fill c.network
    { c with pool := p, network := w }
  | .call name r =>
    c.called (c.pool.call name r c.network) (attempts r c.pool.config.maxRetries c.pool c.network)

/-- The state after a sequence of operations. -/
def run (c : Custody ω) (operations : List Operation) : Custody ω := operations.foldl apply c

end Custody

/-! ## What steps come to -/

/-- The ways of a step. Its place may have no session, and a full or a closed pool is not filled;
then nothing happens. -/
inductive Stepping (c : Custody ω) : Step → Custody ω → Prop where
  | idle {s : Step} : Stepping c s c
  | grown {link : Link} {p : Pool} {w : ω} (hopen : c.pool.isClosed = false)
      (hroom : c.pool.live < c.pool.capacity)
      (hslot : openSlot c.pool c.network = (.ok link, p, w)) :
      Stepping c .grow { c with pool := { p with free := p.free ++ [link] }, network := w }
  | stunted {e : ClientError} {p : Pool} {w : ω} (hopen : c.pool.isClosed = false)
      (hroom : c.pool.live < c.pool.capacity)
      (hslot : openSlot c.pool c.network = (.error e, p, w)) :
      Stepping c .grow { c with pool := p, network := w }
  | acquired {link : Link} {p : Pool} {w : ω}
      (hacquire : Acquiring c.pool c.network (.ok link) p w) :
      Stepping c .acquire { c with
        pool := p, held := link :: c.held, network := w, handed := link.session :: c.handed }
  | refused {e : ClientError} {p : Pool} {w : ω}
      (hacquire : Acquiring c.pool c.network (.error e) p w) :
      Stepping c .acquire { c with pool := p, network := w }
  | released {place : Nat} {link : Link} {p : Pool} {w : ω} (hlink : c.held[place]? = some link)
      (hrelease : Releasing link c.pool c.network p w) :
      Stepping c (.release place)
        { c with pool := p, held := c.held.eraseIdx place, network := w }
  | discarded {place : Nat} {link : Link} {p : Pool} {w : ω} (hlink : c.held[place]? = some link)
      (hdiscard : Discarding link c.pool c.network p w) :
      Stepping c (.discard place) { c with
        pool := p, held := c.held.eraseIdx place, network := w, failed := link.session :: c.failed }
  | performed {α : Type} {place : Nat} {link : Link} {r : Rpc α}
      (hlink : c.held[place]? = some link) :
      Stepping c (.perform place r)
        { c with network := (Network.perform link.session r c.network).2 }
  | closed : Stepping c .close
      { c with pool := (c.pool.close c.network).1, network := (c.pool.close c.network).2 }

theorem stepping (c : Custody ω) (s : Step) : Stepping c s (c.step s) := by
  cases s with
  | grow =>
    rw [Custody.step]
    split
    · exact .idle
    · next hnone =>
      have hopen : c.pool.isClosed = false := Bool.eq_false_iff.2 fun h => hnone (.inl h)
      have hroom : c.pool.live < c.pool.capacity := Nat.lt_of_not_le fun h => hnone (.inr h)
      split
      · next hslot => exact .grown hopen hroom hslot
      · next hslot => exact .stunted hopen hroom hslot
  | acquire =>
    rw [Custody.step]
    split
    · next hacquire => exact .acquired (acquiring hacquire)
    · next hacquire => exact .refused (acquiring hacquire)
  | release place =>
    rw [Custody.step]
    split
    · exact .idle
    · next link hlink => exact .released hlink (releasing link c.pool c.network)
  | discard place =>
    rw [Custody.step]
    split
    · exact .idle
    · next link hlink => exact .discarded hlink (discarding link c.pool c.network)
  | perform place r =>
    rw [Custody.step]
    split
    · exact .idle
    · next link hlink => exact .performed hlink
  | close => exact .closed

/-- A held session stands before the others that are held. -/
theorem perm_eraseIdx {held : List Link} {place : Nat} {link : Link}
    (h : held[place]? = some link) :
    held.Perm (link :: held.eraseIdx place) := by
  obtain ⟨hplace, rfl⟩ := List.getElem?_eq_some_iff.1 h
  exact (List.getElem_cons_eraseIdx_perm hplace).symm

/-- A step keeps the property unless it closes the pool. -/
theorem Settled.stepping {P : Pool → Prop} (hP : Settled ω P) {c c' : Custody ω} {s : Step}
    (hstep : Stepping c s c') (h : P c.pool) : s = .close ∨ P c'.pool := by
  cases hstep with
  | idle => exact .inr h
  | grown _ _ hslot => exact .inr (hP.framed (hP.openedSlot h hslot) rfl rfl)
  | stunted _ _ hslot => exact .inr (hP.openedSlot h hslot)
  | acquired hacquire => exact .inr (hP.acquire h hacquire)
  | refused hacquire => exact .inr (hP.acquire h hacquire)
  | released _ hrelease => exact .inr (hP.release h hrelease)
  | discarded _ hdiscard => exact .inr (hP.discard h hdiscard)
  | performed => exact .inr h
  | closed => exact .inl rfl

/-! ## Operations are runs of steps -/

namespace Custody

variable {c : Custody ω} {p : Pool} {w : ω} {link : Link} {e : ClientError}

private theorem step_grow_ok (hopen : ¬(c.pool.isClosed ∨ c.pool.capacity ≤ c.pool.live))
    (h : openSlot c.pool c.network = (.ok link, p, w)) :
    c.step .grow = { c with pool := { p with free := p.free ++ [link] }, network := w } := by
  rw [step, if_neg hopen, h]

private theorem step_grow_error (hopen : ¬(c.pool.isClosed ∨ c.pool.capacity ≤ c.pool.live))
    (h : openSlot c.pool c.network = (.error e, p, w)) :
    c.step .grow = { c with pool := p, network := w } := by
  rw [step, if_neg hopen, h]

private theorem step_acquire_ok (h : c.pool.acquire c.network = (.ok link, p, w)) :
    c.step .acquire = { c with
      pool := p, held := link :: c.held, network := w, handed := link.session :: c.handed } := by
  rw [step, h]

private theorem step_acquire_error (h : c.pool.acquire c.network = (.error e, p, w)) :
    c.step .acquire = { c with pool := p, network := w } := by
  rw [step, h]

private theorem runSteps_append (c : Custody ω) (steps steps' : List Step) :
    c.runSteps (steps ++ steps') = (c.runSteps steps).runSteps steps' :=
  List.foldl_append

/-- The attempts of a call are sessions that are acquired, used once and then released or
discarded. -/
theorem exists_steps_callWithin {α : Type} (name : String) (r : Rpc α) (total : Nat) :
    ∀ (left : Nat) (last : Option RpcError) (c : Custody ω), ∃ steps,
      c.runSteps steps =
        c.called (callWithin name r total left last c.pool c.network)
          (attempts r left c.pool c.network)
  | 0, last, c => ⟨[], rfl⟩
  | left + 1, last, c => by
    -- One attempt is at most three steps; a transient failure leads into the recursion.
    rw [callWithin, attempts]
    cases hacquire : c.pool.acquire c.network with
    | mk answer rest =>
      obtain ⟨p, w⟩ := rest
      cases answer with
      | error e => exact ⟨[.acquire], step_acquire_error hacquire⟩
      | ok link =>
        cases hperform : Network.perform link.session r w with
        | mk result w₁ =>
          -- The session stands first among those that are held until its attempt is over.
          have hused : (c.step .acquire).step (.perform 0 r) =
              { pool := p, held := link :: c.held, network := w₁,
                handed := link.session :: c.handed, failed := c.failed } := by
            rw [step_acquire_ok hacquire]
            simp only [step, List.getElem?_cons_zero, hperform]
          cases result with
          | ok a =>
            refine ⟨[.acquire, .perform 0 r, .release 0], ?_⟩
            show ((c.step .acquire).step (.perform 0 r)).step (.release 0) = _
            simp only [hused, hperform]
            rfl
          | error e =>
            by_cases htransient : e.isTransient = true
            · -- The session is discarded and the next attempt follows.
              have hdiscarded : ((c.step .acquire).step (.perform 0 r)).step (.discard 0) =
                  { pool := (Pool.discard link p w₁).1, held := c.held,
                    network := (Pool.discard link p w₁).2, handed := link.session :: c.handed,
                    failed := link.session :: c.failed } := by
                rw [hused]
                rfl
              obtain ⟨steps, hsteps⟩ := exists_steps_callWithin name r total left (some e)
                (((c.step .acquire).step (.perform 0 r)).step (.discard 0))
              refine ⟨[.acquire, .perform 0 r, .discard 0] ++ steps, ?_⟩
              rw [runSteps_append]
              show (((c.step .acquire).step (.perform 0 r)).step (.discard 0)).runSteps steps = _
              rw [hsteps, hdiscarded]
              simp [called, hperform, htransient]
            · refine ⟨[.acquire, .perform 0 r, .release 0], ?_⟩
              show ((c.step .acquire).step (.perform 0 r)).step (.release 0) = _
              simp only [hused, hperform, if_neg htransient]
              rfl

/-- Filling is one round after the other, as long as slots are missing and rounds succeed. -/
theorem exists_steps_fillWithin : ∀ (missing : Nat) (c : Custody ω),
    c.pool.live + missing ≤ c.pool.capacity → ∃ steps,
      c.runSteps steps =
        { c with
          pool := (fillWithin missing c.pool c.network).2.1
          network := (fillWithin missing c.pool c.network).2.2 }
  | 0, c, _ => ⟨[], rfl⟩
  | missing + 1, c, hroom => by
    rw [fillWithin]
    by_cases hclosed : c.pool.isClosed = true
    · rw [if_pos hclosed]
      exact ⟨[], rfl⟩
    · rw [if_neg hclosed]
      have hopen : ¬(c.pool.isClosed ∨ c.pool.capacity ≤ c.pool.live) := by
        rintro (h | h)
        · exact hclosed h
        · omega
      cases hslot : openSlot c.pool c.network with
      | mk answer rest =>
        obtain ⟨p, w⟩ := rest
        cases answer with
        | error e => exact ⟨[.grow], step_grow_error hopen hslot⟩
        | ok link =>
          have hgrown := step_grow_ok hopen hslot
          -- Even if the pool is closed meanwhile, no more slots are taken than were missing.
          obtain ⟨hconfig, hlive⟩ := live_of_openSlot hslot
          have hroom' : (c.step .grow).pool.live + missing ≤ (c.step .grow).pool.capacity := by
            have hcapacity : p.capacity = c.pool.capacity := congrArg PoolConfig.size hconfig
            rw [hgrown]
            show p.live + missing ≤ p.capacity
            omega
          obtain ⟨steps, hsteps⟩ := exists_steps_fillWithin missing (c.step .grow) hroom'
          refine ⟨.grow :: steps, ?_⟩
          show (c.step .grow).runSteps steps = _
          rw [hsteps, hgrown]

/-- Every operation is a run of steps. -/
theorem exists_steps_apply (c : Custody ω) (operation : Operation) :
    ∃ steps, c.apply operation = c.runSteps steps := by
  cases operation with
  | step s => exact ⟨[s], rfl⟩
  | fill =>
    by_cases hroom : c.pool.live ≤ c.pool.capacity
    · obtain ⟨steps, hsteps⟩ :=
        exists_steps_fillWithin (c.pool.capacity - c.pool.live) c (by omega)
      exact ⟨steps, hsteps.symm⟩
    · -- A pool with more sessions than it may have is not filled.
      have hnone : c.pool.capacity - c.pool.live = 0 := by omega
      refine ⟨[], ?_⟩
      show { c with pool := (c.pool.fill c.network).2.1, network := (c.pool.fill c.network).2.2 } =
        c
      rw [Pool.fill, hnone]
      rfl
  | call name r =>
    obtain ⟨steps, hsteps⟩ := exists_steps_callWithin name r c.pool.config.maxRetries
      c.pool.config.maxRetries none c
    exact ⟨steps, hsteps.symm⟩

/-- Every run of operations is a run of steps. -/
theorem exists_steps_run (operations : List Operation) :
    ∀ c : Custody ω, ∃ steps, c.run operations = c.runSteps steps := by
  induction operations with
  | nil => exact fun c => ⟨[], rfl⟩
  | cons operation operations ih =>
    intro c
    obtain ⟨first, hfirst⟩ := c.exists_steps_apply operation
    obtain ⟨rest, hrest⟩ := ih (c.apply operation)
    refine ⟨first ++ rest, ?_⟩
    show (c.apply operation).run operations = _
    rw [hrest, runSteps_append, hfirst]

/-- What every step keeps, a run of steps keeps. -/
theorem runSteps_keeps {inv : Custody ω → Prop}
    (hstep : ∀ {c c' : Custody ω} {s : Step}, Stepping c s c' → inv c → inv c') (steps : List Step)
    {c : Custody ω} (h : inv c) : inv (c.runSteps steps) := by
  induction steps generalizing c with
  | nil => exact h
  | cons s steps ih => exact ih (hstep (stepping c s) h)

/-- What every step keeps, a run of operations keeps. -/
theorem run_keeps {inv : Custody ω → Prop}
    (hstep : ∀ {c c' : Custody ω} {s : Step}, Stepping c s c' → inv c → inv c')
    (operations : List Operation) {c : Custody ω} (h : inv c) : inv (c.run operations) := by
  obtain ⟨steps, hsteps⟩ := exists_steps_run operations c
  rw [hsteps]
  exact runSteps_keeps hstep steps h

theorem config_run (operations : List Operation) (c : Custody ω) :
    (c.run operations).pool.config = c.pool.config := by
  have hstep : ∀ {c₁ c₂ : Custody ω} {s : Step}, Stepping c₁ s c₂ →
      c₁.pool.config = c.pool.config → c₂.pool.config = c.pool.config := by
    intro c₁ c₂ s h hconfig
    rcases (settled_config ω c.pool.config).stepping h hconfig with rfl | hconfig'
    · cases h with
      | idle => exact hconfig
      | closed => exact hconfig
    · exact hconfig'
  exact run_keeps hstep operations rfl

end Custody

end Custody

end WideColumn.Pool
