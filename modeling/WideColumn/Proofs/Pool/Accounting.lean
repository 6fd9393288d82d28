import WideColumn.Cluster
import WideColumn.Proofs.Pool.Run

/-!
# What a pool counts

A pool keeps the number of its sessions apart from the sessions themselves, and counts what it
opens, hands out, takes back and closes. Every step keeps these numbers in agreement, whatever the
network answers.

- `Accounted`: the numbers agree; slots that are taken but not filled yet are counted apart;
- `Accounted.stepping`: every step keeps them in agreement;
- `accounting`: they agree after every run, and no number of sessions was ever taken from a smaller
  one.
-/

namespace WideColumn.Pool

variable {ω : Type} [Network ω]

/-! ## Agreement -/

/-- The numbers of a pool agree with its sessions: the free ones, those that are held, and the slots
whose sessions are still to be opened. -/
structure Accounted (slots held : Nat) (p : Pool) : Prop where
  live : p.live = p.free.length + held + slots
  bounded : p.live ≤ p.capacity
  created : p.counters.created = p.counters.closed + p.free.length + held
  acquisitions : p.counters.acquisitions = p.counters.releases + held
  closed : p.counters.recycled + p.counters.failed ≤ p.counters.closed

section Accounted

variable {slots held : Nat} {p p' : Pool} {w w' : ω} {link : Link}

theorem Accounted.close (h : Accounted slots held p) (w : ω) :
    Accounted slots held (p.close w).1 where
  live := by
    show p.live - p.free.length = 0 + held + slots
    have hlive := h.live
    omega
  bounded := Nat.le_trans (Nat.sub_le _ _) h.bounded
  created := h.created
  acquisitions := h.acquisitions
  closed := Nat.le_trans h.closed (Nat.le_add_right _ _)

/-- Attempts to open a session keep the numbers in agreement. -/
theorem openingInvariant_accounted (ω : Type) [Network ω] (slots held : Nat) :
    OpeningInvariant fun (p : Pool) (_ : ω) => Accounted slots held p where
  turned h := ⟨h.live, h.bounded, h.created, h.acquisitions, h.closed⟩
  asked h _ := h
  shut h _ := h.close _
  refused h _ := h

/-! ## Slots -/

/-- A slot is taken before its session is opened. -/
theorem Accounted.takeSlot (h : Accounted slots held p) (hroom : p.live < p.capacity) :
    Accounted (slots + 1) held { p with live := p.live + 1 } where
  live := congrArg (· + 1) h.live
  bounded := hroom
  created := h.created
  acquisitions := h.acquisitions
  closed := h.closed

/-- A slot is given back, and there is one to give back. -/
theorem Accounted.leaveSlot (h : Accounted (slots + 1) held p) :
    0 < p.live ∧ Accounted slots held { p with live := p.live - 1 } := by
  have hlive := h.live
  have hleft : p.live - 1 = p.free.length + held + slots := by omega
  exact ⟨by omega, hleft, Nat.le_trans (Nat.sub_le _ _) h.bounded, h.created,
    h.acquisitions, h.closed⟩

/-- The session of a slot joins the free ones. -/
theorem Accounted.keepOpened (h : Accounted (slots + 1) held p) :
    Accounted slots held { p.created with free := p.free ++ [link] } := by
  have hlive := h.live
  have hcreated := h.created
  have hlength : (p.free ++ [link]).length = p.free.length + 1 := List.length_append
  refine ⟨?_, h.bounded, ?_, h.acquisitions, h.closed⟩
  · show p.live = (p.free ++ [link]).length + held + slots
    omega
  · show p.counters.created + 1 = p.counters.closed + (p.free ++ [link]).length + held
    omega

/-- The session of a slot is handed out. -/
theorem Accounted.lendOpened (h : Accounted (slots + 1) held p) :
    Accounted slots (held + 1) p.created.handOut := by
  have hlive := h.live
  have hcreated := h.created
  refine ⟨?_, h.bounded, ?_, congrArg (· + 1) h.acquisitions, h.closed⟩
  · show p.live = p.free.length + (held + 1) + slots
    omega
  · show p.counters.created + 1 = p.counters.closed + p.free.length + (held + 1)
    omega

/-- The session of a slot is closed again, and the slot with it. -/
theorem Accounted.dropOpened (h : Accounted (slots + 1) held p) :
    0 < p.live ∧ Accounted slots held ({ p.created with live := p.live - 1 }.count fun c =>
      { c with closed := c.closed + 1 }) := by
  have hlive := h.live
  have hcreated := h.created
  have hleft : p.live - 1 = p.free.length + held + slots := by omega
  refine ⟨by omega, hleft, Nat.le_trans (Nat.sub_le _ _) h.bounded, ?_, h.acquisitions,
    Nat.le_succ_of_le h.closed⟩
  show p.counters.created + 1 = p.counters.closed + 1 + p.free.length + held
  omega

/-- A held session comes back and is closed; its slot stays taken. -/
theorem Accounted.vacate (h : Accounted slots (held + 1) p) {c : PoolCounters}
    (hcreated : c.created = p.counters.created) (hclosed : c.closed = p.counters.closed + 1)
    (hacquisitions : c.acquisitions = p.counters.acquisitions)
    (hreleases : c.releases = p.counters.releases + 1)
    (hcauses : c.recycled + c.failed ≤ p.counters.recycled + p.counters.failed + 1) :
    Accounted (slots + 1) held { p with counters := c } := by
  -- the sums stay what they were: one session less in use, one more slot to fill
  have hlive := h.live
  have hopened := h.created
  have hhanded := h.acquisitions
  have hfew := h.closed
  refine ⟨?_, h.bounded, ?_, ?_, ?_⟩
  · show p.live = p.free.length + held + (slots + 1)
    omega
  · show c.created = c.closed + p.free.length + held
    omega
  · show c.acquisitions = c.releases + held
    omega
  · show c.recycled + c.failed ≤ c.closed
    omega

theorem Accounted.writtenOff (h : Accounted slots (held + 1) p) :
    Accounted (slots + 1) held p.writtenOff :=
  h.vacate rfl rfl rfl rfl (Nat.le_refl _)

/-! ## Steps -/

theorem Accounted.acquire (h : Accounted 0 held p) {answer : Except ClientError Link}
    (hacquire : Acquiring p w answer p' w') :
    match answer with
    | .ok _ => Accounted 0 (held + 1) p'
    | .error _ => Accounted 0 held p' := by
  cases hacquire with
  | shut hclosed => exact h
  | @lent link rest hopen hfree =>
    -- The session only changes from free to held.
    have hlive := h.live
    have hcreated := h.created
    rw [hfree, List.length_cons] at hlive hcreated
    refine ⟨?_, h.bounded, ?_, congrArg (· + 1) h.acquisitions, h.closed⟩
    · show p.live = rest.length + (held + 1) + 0
      omega
    · show p.counters.created = p.counters.closed + rest.length + (held + 1)
      omega
  -- While a session is being opened, its slot is counted apart from those that are filled.
  | opened hopen hfree hroom hslot =>
    cases (openingInvariant_accounted ω 1 held).openSlot_ok (h.takeSlot hroom) hslot with
    | opened h₁ => exact h₁.lendOpened
  | failed hopen hfree hroom hslot =>
    obtain ⟨p₁, h₁, rfl⟩ :=
      (openingInvariant_accounted ω 1 held).openSlot_error (h.takeSlot hroom) hslot
    exact h₁.leaveSlot.2
  | timedOut hopen hfree hfull =>
    exact ⟨h.live, h.bounded, h.created, h.acquisitions, h.closed⟩

theorem Accounted.release (h : Accounted 0 (held + 1) p) (hrelease : Releasing link p w p' w') :
    Accounted 0 held p' := by
  cases hrelease with
  -- A session that is closed leaves its slot empty for a moment, and then the slot goes too.
  | shut hclosed =>
    have hvacated :
        Accounted 1 held (p.returned.count fun c => { c with closed := c.closed + 1 }) :=
      h.vacate rfl rfl rfl rfl (Nat.le_succ _)
    exact hvacated.leaveSlot.2
  | recycled hopen huses =>
    have hvacated : Accounted 1 held (p.returned.count fun c =>
        { c with recycled := c.recycled + 1, closed := c.closed + 1 }) := by
      refine h.vacate rfl rfl rfl rfl ?_
      show p.counters.recycled + 1 + p.counters.failed ≤ _
      omega
    exact hvacated.leaveSlot.2
  | kept hopen huses =>
    have hlive := h.live
    have hcreated := h.created
    have hacquisitions := h.acquisitions
    have hlength : (p.free ++ [{ link with uses := link.uses + 1 }]).length = p.free.length + 1 :=
      List.length_append
    refine ⟨?_, h.bounded, ?_, ?_, h.closed⟩
    · show p.live = (p.free ++ [{ link with uses := link.uses + 1 }]).length + held + 0
      omega
    · show p.counters.created =
        p.counters.closed + (p.free ++ [{ link with uses := link.uses + 1 }]).length + held
      omega
    · show p.counters.acquisitions = p.counters.releases + 1 + held
      omega

theorem Accounted.discard (h : Accounted 0 (held + 1) p) (hdiscard : Discarding link p w p' w') :
    Accounted 0 held p' := by
  have hinv := openingInvariant_accounted ω 1 held
  cases hdiscard with
  -- The slot of the failed session waits for the replacement.
  | shut hclosed => exact h.writtenOff.leaveSlot.2
  | replaced hopen hlink hopen' =>
    cases hinv.openLink h.writtenOff hlink with
    | opened h₁ => exact h₁.keepOpened
  | late hopen hlink hclosed' =>
    cases hinv.openLink h.writtenOff hlink with
    | opened h₁ => exact h₁.dropOpened.2
  | unreplaced hopen hlink =>
    cases hinv.openLink h.writtenOff hlink with
    | failed h₁ => exact h₁.leaveSlot.2

end Accounted

/-! ## Runs -/

namespace Custody

/-- The numbers of the pool agree with its sessions and with those that are held. -/
def Accounted (c : Custody ω) : Prop := Pool.Accounted 0 c.held.length c.pool

omit [Network ω] in
theorem accounted_start (config : PoolConfig) (w : ω) : (start config w).Accounted :=
  ⟨rfl, Nat.zero_le _, rfl, rfl, Nat.le_refl _⟩

/-- Every step keeps the numbers in agreement. -/
theorem Accounted.stepping {c c' : Custody ω} {s : Step} (hstep : Stepping c s c')
    (h : c.Accounted) : c'.Accounted := by
  -- A slot that is being filled is counted as live before there is a session for it.
  have hinv := openingInvariant_accounted ω 1 c.held.length
  cases hstep with
  | idle => exact h
  | grown _ hroom hslot =>
    cases hinv.openSlot_ok (h.takeSlot hroom) hslot with
    | opened h₁ => exact h₁.keepOpened
  | stunted _ hroom hslot =>
    obtain ⟨p₁, h₁, rfl⟩ := hinv.openSlot_error (h.takeSlot hroom) hslot
    exact h₁.leaveSlot.2
  | acquired hacquire => exact Pool.Accounted.acquire h hacquire
  | refused hacquire => exact Pool.Accounted.acquire h hacquire
  | released hlink hrelease =>
    rw [Accounted, (perm_eraseIdx hlink).length_eq] at h
    exact h.release hrelease
  | discarded hlink hdiscard =>
    rw [Accounted, (perm_eraseIdx hlink).length_eq] at h
    exact h.discard hdiscard
  | performed => exact h
  | closed => exact Pool.Accounted.close h c.network

/-! ## Subtractions -/

/-- Nothing is taken from a smaller number: each number of sessions that a step lowers is large
enough where the step lowers it. -/
structure Exact (c : Custody ω) : Prop where
  /-- Closing takes the free sessions off. -/
  free : c.pool.free.length ≤ c.pool.live
  /-- Releasing and discarding take a held session off. -/
  held : c.held ≠ [] → 0 < c.pool.live
  /-- Filling and acquiring give a slot back that could not be filled. -/
  opening : c.pool.isClosed = false → c.pool.live < c.pool.capacity →
    ∀ answer p w, openLink { c.pool with live := c.pool.live + 1 } c.network = (answer, p, w) →
      0 < p.live
  /-- Discarding gives the slot back if its replacement fails or comes too late. -/
  replacing : ∀ link ∈ c.held, ∀ answer p w,
    openLink c.pool.writtenOff (Network.close link.session c.network) = (answer, p, w) → 0 < p.live

/-- A pool with a slot to fill has it after the attempts to fill it. -/
theorem live_pos_of_opening {slots held : Nat} {answer : Except ClientError Link} {p : Pool} {w : ω}
    (h : Opening (fun p (_ : ω) => Pool.Accounted (slots + 1) held p) answer p w) : 0 < p.live := by
  cases h with
  | opened h₁ => exact h₁.leaveSlot.1
  | failed h₁ => exact h₁.leaveSlot.1

theorem Accounted.exact {c : Custody ω} (h : c.Accounted) : c.Exact where
  free := by
    have hlive := h.live
    omega
  held hheld := by
    have hlive := h.live
    have hlength := List.length_pos_iff.2 hheld
    omega
  opening _ hroom answer p w hopen :=
    live_pos_of_opening
      ((openingInvariant_accounted ω 1 c.held.length).openLink (h.takeSlot hroom) hopen)
  replacing link hlink answer p w hopen := by
    -- one of the sessions in use is the one that is replaced
    obtain ⟨others, hothers⟩ := Nat.exists_eq_add_of_lt (List.length_pos_of_mem hlink)
    have hheld : Pool.Accounted 0 (others + 1) c.pool := by
      rw [Accounted, hothers, Nat.zero_add] at h
      exact h
    exact live_pos_of_opening
      ((openingInvariant_accounted ω 1 others).openLink hheld.writtenOff hopen)

end Custody

/-! ## Closed pools -/

/-- A closed pool hands nothing out and stays as it is. -/
theorem acquire_of_isClosed {p : Pool} (h : p.isClosed = true) (w : ω) :
    p.acquire w = (.error .poolClosed, p, w) := by
  rw [acquire, if_pos h]

/-- A closed pool is not filled and stays as it is. -/
theorem fill_of_isClosed {p : Pool} (h : p.isClosed = true) (w : ω) :
    p.fill w = (.error .poolClosed, p, w) := by
  rw [fill]
  cases p.capacity - p.live with
  | zero => rw [fillWithin, if_pos h]
  | succ missing => rw [fillWithin, if_pos h]

section Closed

variable {p p' : Pool} {w w' : ω} {link : Link}

private theorem Acquiring.of_isClosed {answer : Except ClientError Link}
    (h : Acquiring p w answer p' w')
    (hclosed : p.isClosed = true) : answer = .error .poolClosed ∧ p' = p := by
  cases h with
  | shut => exact ⟨rfl, rfl⟩
  | lent hopen => rw [hclosed] at hopen; cases hopen
  | opened hopen => rw [hclosed] at hopen; cases hopen
  | failed hopen => rw [hclosed] at hopen; cases hopen
  | timedOut hopen => rw [hclosed] at hopen; cases hopen

private theorem Releasing.of_isClosed (h : Releasing link p w p' w') (hclosed : p.isClosed = true) :
    p'.isClosed = true ∧ p'.free = p.free := by
  cases h with
  | shut => exact ⟨hclosed, rfl⟩
  | recycled hopen => rw [hclosed] at hopen; cases hopen
  | kept hopen => rw [hclosed] at hopen; cases hopen

private theorem Discarding.of_isClosed (h : Discarding link p w p' w')
    (hclosed : p.isClosed = true) :
    p'.isClosed = true ∧ p'.free = p.free := by
  cases h with
  | shut => exact ⟨hclosed, rfl⟩
  | replaced hopen => rw [hclosed] at hopen; cases hopen
  | late hopen => rw [hclosed] at hopen; cases hopen
  | unreplaced hopen => rw [hclosed] at hopen; cases hopen

end Closed

namespace Custody

/-- A closed pool stays closed, and without free sessions if it had none. -/
theorem stepping_of_isClosed {c c' : Custody ω} {s : Step} (hstep : Stepping c s c')
    (h : c.pool.isClosed = true) :
    c'.pool.isClosed = true ∧ (c.pool.free = [] → c'.pool.free = []) := by
  -- A closed pool lends nothing, and it closes what comes back.
  cases hstep with
  | idle => exact ⟨h, id⟩
  | grown hopen => rw [h] at hopen; cases hopen
  | stunted hopen => rw [h] at hopen; cases hopen
  | acquired hacquire =>
    obtain ⟨hanswer, -⟩ := hacquire.of_isClosed h
    cases hanswer
  | refused hacquire =>
    obtain ⟨-, rfl⟩ := hacquire.of_isClosed h
    exact ⟨h, id⟩
  | released _ hrelease =>
    obtain ⟨hclosed, hfree⟩ := hrelease.of_isClosed h
    exact ⟨hclosed, hfree.trans⟩
  | discarded _ hdiscard =>
    obtain ⟨hclosed, hfree⟩ := hdiscard.of_isClosed h
    exact ⟨hclosed, hfree.trans⟩
  | performed => exact ⟨h, id⟩
  | closed => exact ⟨rfl, fun _ => rfl⟩

/-- A pool that nobody closes while it opens a session stays open under every other step. -/
theorem settled_open (hquiet : Quiet ω) : Settled ω fun p => p.isClosed = false where
  framed h _ hclosed := hclosed.trans h
  shut {_ w _} _ hclosing := by
    have hnever := hquiet w
    rw [hclosing] at hnever
    cases hnever

/-- A closed pool has no free sessions. -/
def Emptied (c : Custody ω) : Prop := c.pool.isClosed = true → c.pool.free = []

theorem Emptied.stepping (hquiet : Quiet ω) {c c' : Custody ω} {s : Step}
    (hstep : Stepping c s c') (h : c.Emptied) : c'.Emptied := by
  intro hclosed
  -- A closed pool gains no sessions, and an open one is only closed by closing it.
  cases hpool : c.pool.isClosed with
  | true => exact (stepping_of_isClosed hstep hpool).2 (h hpool)
  | false =>
    rcases (settled_open hquiet).stepping hstep hpool with rfl | hopen
    · cases hstep with
      | idle => exact h hclosed
      | closed => rfl
    · rw [hopen] at hclosed
      cases hclosed

/-- A pool that was closed once is closed. -/
theorem isClosed_run {operations : List Operation} :
    ∀ {c : Custody ω}, .step .close ∈ operations ∨ c.pool.isClosed = true →
      (c.run operations).pool.isClosed = true := by
  have hstep : ∀ {c c' : Custody ω} {s : Step}, Stepping c s c' → c.pool.isClosed = true →
      c'.pool.isClosed = true := fun h hclosed => (stepping_of_isClosed h hclosed).1
  induction operations with
  | nil => exact fun h => h.resolve_left (List.not_mem_nil)
  | cons operation operations ih =>
    intro c h
    refine ih ?_
    -- The pool is closed by this operation, or by a later one, or was closed already.
    rcases h with h | h
    · rcases List.mem_cons.1 h with rfl | h
      · exact .inr rfl
      · exact .inl h
    · exact .inr (run_keeps hstep [operation] h)

end Custody

/-! ## Main result -/

/-- In every run that starts with a new pool, the numbers of the pool agree with the sessions that
are free and held, and no subtraction goes below zero. Once it is closed, a pool hands out and opens
no session any more, and only the held sessions are left of it.

That no free session is left takes a network on which nobody closes the pool while a session is
being opened. Filling keeps a session that was opened meanwhile among the free ones, although the
pool is closed by then; `discard`, which replaces a session, closes it again. -/
theorem accounting (config : PoolConfig) (w : ω) (operations : List Operation) :
    let start := Custody.start config w
    let c := start.run operations
    let counters := c.pool.counters
    c.pool.live = c.pool.free.length + c.held.length
      ∧ c.pool.live ≤ config.size
      ∧ counters.created = counters.closed + c.pool.live
      ∧ counters.acquisitions = counters.releases + c.held.length
      ∧ counters.recycled + counters.failed ≤ counters.closed
      ∧ (.step .close ∈ operations → c.pool.isClosed = true)
      ∧ (c.pool.isClosed = true → ∀ w : ω,
        c.pool.acquire w = (.error .poolClosed, c.pool, w)
          ∧ c.pool.fill w = (.error .poolClosed, c.pool, w))
      ∧ (Quiet ω → c.pool.isClosed = true → c.pool.free = [] ∧ c.pool.live = c.held.length)
      ∧ (∃ steps, c = start.runSteps steps) ∧ ∀ steps, (start.runSteps steps).Exact := by
  intro start c counters
  have hstart : start.Accounted := Custody.accounted_start config w
  -- The counts are right at the start, and every step keeps them so.
  have haccounted : c.Accounted := Custody.run_keeps Custody.Accounted.stepping operations hstart
  have hconfig : c.pool.config = config := Custody.config_run operations start
  have hlive := haccounted.live
  have hcreated := haccounted.created
  refine ⟨hlive, hconfig ▸ haccounted.bounded, ?_, haccounted.acquisitions, haccounted.closed,
    fun hclose => Custody.isClosed_run (.inl hclose),
    fun hclosed w => ⟨acquire_of_isClosed hclosed w, fill_of_isClosed hclosed w⟩, ?_,
    Custody.exists_steps_run operations start, fun steps => ?_⟩
  · show c.pool.counters.created = c.pool.counters.closed + c.pool.live
    omega
  · -- nobody closes the pool while it opens a session, so once it is closed it stays empty
    intro hquiet hclosed
    have hempty : start.Emptied := fun _ => rfl
    have hfree : c.pool.free = [] :=
      Custody.run_keeps (Custody.Emptied.stepping hquiet) operations hempty hclosed
    rw [hfree, List.length_nil] at hlive
    exact ⟨hfree, by omega⟩
  · exact (Custody.runSteps_keeps Custody.Accounted.stepping steps hstart).exact

/-- Settings of a pool with two sessions, each for two uses. -/
def twoSessions : PoolConfig :=
  { PoolConfig.default with keyspace := "music", poolSize := some 2, recycle := 2 }

/-- A cluster for these settings. -/
def musicCluster : Cluster := .ofKeyspace .standard (.ofName "music")

/-- Both sessions are acquired and one of them is discarded before the pool is closed. -/
theorem accounting_twoSessions :
    let c := (Custody.start twoSessions musicCluster).run
      [.fill, .step .acquire, .step .acquire, .step (.discard 0), .step .close]
    c.pool.isClosed = true ∧ c.pool.free = [] ∧ c.pool.live = 1
      ∧ c.pool.counters.created = c.pool.counters.closed + 1 := by
  obtain ⟨-, -, hcreated, -, -, hclose, -, hquiet, -, -⟩ := accounting twoSessions musicCluster
    [.fill, .step .acquire, .step .acquire, .step (.discard 0), .step .close]
  have hclosed := hclose (by simp)
  obtain ⟨hfree, hlive⟩ := hquiet (fun _ => rfl) hclosed
  -- One session has not come back.
  have hheld : ((Custody.start twoSessions musicCluster).run
      [.fill, .step .acquire, .step .acquire, .step (.discard 0), .step .close]).held.length =
      1 := by
    decide +kernel
  rw [hheld] at hlive
  rw [hlive] at hcreated
  exact ⟨hclosed, hfree, hlive, hcreated⟩

end WideColumn.Pool
