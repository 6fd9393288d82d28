import WideColumn.Pool

/-!
# What pools come to

Acquiring, releasing and discarding a session have several ways each. The lemmas here say once what
these are, and proofs about pools go through them and never into the steps themselves.

- `Opening`: what the attempts to open a session come to, for any `OpeningInvariant`;
- `Acquiring`, `Releasing`, `Discarding`: the ways of the three steps, each with what it depends on,
  the pool and the network after it;
- `Settled`: properties that only closing a pool can end.
-/

namespace WideColumn.Pool

section Outcome

variable {ω : Type} [Network ω]

/-! ## Opening -/

/-- Nobody closes a pool while it opens a session. Filling keeps the session that was being opened,
so without this a closed pool can have a free one. -/
def Quiet (ω : Type) [Network ω] : Prop := ∀ w : ω, (Network.closing w).1 = false

/-- A property of a pool and its network that the attempts to open a session keep as long as none of
them succeeds. The pool may be closed from outside before each of them. -/
structure OpeningInvariant (inv : Pool → ω → Prop) : Prop where
  turned : ∀ {p : Pool} {w : ω}, inv p w → inv p.nextServer.2 w
  asked : ∀ {p : Pool} {w w' : ω}, inv p w → Network.closing w = (false, w') → inv p w'
  shut : ∀ {p : Pool} {w w' : ω}, inv p w → Network.closing w = (true, w') →
    inv (p.close w').1 (p.close w').2
  refused : ∀ {p : Pool} {w w' : ω} {server : String} {e : RpcError}, inv p w →
    Network.connect server p.config.login w = (.error e, w') → inv p w'

/-- The pool once a session is opened. -/
def created (p : Pool) : Pool := p.count fun c => { c with created := c.created + 1 }

theorem nextServer_mem {p : Pool} (h : p.config.servers ≠ []) :
    p.nextServer.1 ∈ p.config.servers := by
  have hlength : 0 < p.config.servers.length := List.length_pos_iff.2 h
  have hplace := Nat.mod_lt p.rotation.toNat hlength
  rw [nextServer, List.getElem?_eq_getElem hplace, Option.getD_some]
  exact List.getElem_mem hplace

/-- The pool and the network when the next server is asked for a session. The rotation has advanced,
and the pool may have been closed from outside. -/
def ready (p : Pool) (w : ω) : Pool × ω :=
  let (closing, w) := Network.closing w
  if closing then p.nextServer.2.close w else (p.nextServer.2, w)

section Asking

variable {p : Pool} {w w' : ω} {total left : Nat}

theorem ready_of_open {w₁ : ω} (h : Network.closing w = (false, w₁)) :
    p.ready w = (p.nextServer.2, w₁) := by
  rw [ready, h]
  rfl

theorem ready_of_closing {w₁ : ω} (h : Network.closing w = (true, w₁)) :
    p.ready w = p.nextServer.2.close w₁ := by
  rw [ready, h]
  rfl

private theorem openWithin_succ (total left : Nat) (p : Pool) (w : ω) :
    openWithin total (left + 1) p w =
      match Network.connect p.nextServer.1 (p.ready w).1.config.login (p.ready w).2 with
      | (.ok session, w') => (.ok ⟨session, p.nextServer.1, 0⟩, (p.ready w).1.created, w')
      | (.error e, w') =>
        if e.isTransient then openWithin total left (p.ready w).1 w'
        else (.error (.ofRpc e), (p.ready w).1, w') := by
  rw [openWithin]
  rfl

/-- A server that accepts is the last one that is asked. -/
theorem openWithin_of_ok {session : SessionId}
    (h : Network.connect p.nextServer.1 (p.ready w).1.config.login (p.ready w).2 =
      (.ok session, w')) :
    openWithin total (left + 1) p w =
      (.ok ⟨session, p.nextServer.1, 0⟩, (p.ready w).1.created, w') := by
  rw [openWithin_succ, h]

/-- A server that fails transiently leads to the next one, and any other failure is the answer. -/
theorem openWithin_of_error {e : RpcError}
    (h : Network.connect p.nextServer.1 (p.ready w).1.config.login (p.ready w).2 = (.error e, w')) :
    openWithin total (left + 1) p w =
      if e.isTransient then openWithin total left (p.ready w).1 w'
      else (.error (.ofRpc e), (p.ready w).1, w') := by
  rw [openWithin_succ, h]

/-- A session is opened at once if the next server accepts and nobody closes the pool. -/
theorem openLink_of_ok {session : SessionId} {w₁ : ω} (hservers : p.config.servers ≠ [])
    (hclosing : Network.closing w = (false, w₁))
    (h : Network.connect p.nextServer.1 p.config.login w₁ = (.ok session, w')) :
    openLink p w = (.ok ⟨session, p.nextServer.1, 0⟩, p.nextServer.2.created, w') := by
  obtain ⟨attempts, hattempts⟩ : ∃ attempts, p.config.servers.length * 2 = attempts + 1 := by
    have hlength : 0 < p.config.servers.length := List.length_pos_iff.2 hservers
    exact ⟨p.config.servers.length * 2 - 1, by omega⟩
  have hready := ready_of_open (p := p) hclosing
  rw [openLink, hattempts, openWithin_of_ok (by rw [hready]; exact h), hready]

end Asking

/-- What opening comes to: a new session with some server, counted by a pool that the attempts
before have left as the invariant says, or a failure that leaves the pool so itself. -/
inductive Opening (inv : Pool → ω → Prop) : Except ClientError Link → Pool → ω → Prop where
  | opened {p : Pool} {w w' : ω} {server : String} {session : SessionId} (h : inv p w)
      (hconnect : Network.connect server p.config.login w = (.ok session, w')) :
      Opening inv (.ok ⟨session, server, 0⟩) p.created w'
  | failed {p : Pool} {w : ω} {e : ClientError} (h : inv p w) : Opening inv (.error e) p w

theorem OpeningInvariant.ready {inv : Pool → ω → Prop} (hinv : OpeningInvariant inv)
    {p : Pool} {w : ω} (h : inv p w) : inv (p.ready w).1 (p.ready w).2 := by
  rcases hclosing : Network.closing w with ⟨_ | _, w'⟩
  · rw [ready_of_open hclosing]
    exact hinv.asked (hinv.turned h) hclosing
  · rw [ready_of_closing hclosing]
    exact hinv.shut (hinv.turned h) hclosing

theorem OpeningInvariant.openWithin {inv : Pool → ω → Prop} (hinv : OpeningInvariant inv)
    {total : Nat} : ∀ {left : Nat} {p p' : Pool} {w w' : ω} {answer : Except ClientError Link},
      inv p w → openWithin total left p w = (answer, p', w') → Opening inv answer p' w'
  | 0, p, p', w, w', answer, h, hopen => by
    cases hopen
    exact .failed h
  | left + 1, p, p', w, w', answer, h, hopen => by
    have hready := hinv.ready h
    rcases hconnect : Network.connect p.nextServer.1 (p.ready w).1.config.login (p.ready w).2 with
      ⟨result, w₁⟩
    cases result with
    | ok session =>
      rw [openWithin_of_ok hconnect] at hopen
      cases hopen
      exact .opened hready hconnect
    | error e =>
      have hrefused := hinv.refused hready hconnect
      rw [openWithin_of_error hconnect] at hopen
      -- Only a transient failure leads to the next server.
      split at hopen
      · exact hinv.openWithin hrefused hopen
      · cases hopen
        exact .failed hrefused

theorem OpeningInvariant.openLink {inv : Pool → ω → Prop} (hinv : OpeningInvariant inv)
    {p p' : Pool} {w w' : ω} {answer : Except ClientError Link} (h : inv p w)
    (hopen : openLink p w = (answer, p', w')) : Opening inv answer p' w' :=
  hinv.openWithin h hopen

section Slots

variable {inv : Pool → ω → Prop} {p p' : Pool} {w w' : ω}

theorem OpeningInvariant.openSlot_ok (hinv : OpeningInvariant inv) {link : Link}
    (h : inv { p with live := p.live + 1 } w) (hopen : openSlot p w = (.ok link, p', w')) :
    Opening inv (.ok link) p' w' := by
  rw [openSlot] at hopen
  cases hlink : Pool.openLink { p with live := p.live + 1 } w with
  | mk answer rest =>
    rw [hlink] at hopen
    cases answer with
    | ok link' =>
      cases hopen
      exact hinv.openLink h hlink
    | error e => cases hopen

theorem OpeningInvariant.openSlot_error (hinv : OpeningInvariant inv) {e : ClientError}
    (h : inv { p with live := p.live + 1 } w) (hopen : openSlot p w = (.error e, p', w')) :
    ∃ p₁, inv p₁ w' ∧ p' = { p₁ with live := p₁.live - 1 } := by
  rw [openSlot] at hopen
  cases hlink : Pool.openLink { p with live := p.live + 1 } w with
  | mk answer rest =>
    rw [hlink] at hopen
    cases answer with
    | ok link => cases hopen
    | error e' =>
      cases hopen
      cases hinv.openLink h hlink with
      | failed h₁ => exact ⟨_, h₁, rfl⟩

end Slots

/-! ## What acquiring, releasing and discarding come to -/

/-- The ways to acquire a session, or to fail at it. -/
inductive Acquiring (p : Pool) (w : ω) : Except ClientError Link → Pool → ω → Prop where
  | shut (hclosed : p.isClosed = true) : Acquiring p w (.error .poolClosed) p w
  | lent {link : Link} {rest : List Link} (hopen : p.isClosed = false)
      (hfree : p.free = link :: rest) :
      Acquiring p w (.ok link) { p with free := rest }.handOut w
  | opened {link : Link} {p' : Pool} {w' : ω} (hopen : p.isClosed = false) (hfree : p.free = [])
      (hroom : p.live < p.capacity) (hslot : openSlot p w = (.ok link, p', w')) :
      Acquiring p w (.ok link) p'.handOut w'
  | failed {e : ClientError} {p' : Pool} {w' : ω} (hopen : p.isClosed = false) (hfree : p.free = [])
      (hroom : p.live < p.capacity) (hslot : openSlot p w = (.error e, p', w')) :
      Acquiring p w (.error e) p' w'
  | timedOut (hopen : p.isClosed = false) (hfree : p.free = []) (hfull : p.capacity ≤ p.live) :
      Acquiring p w (.error (.poolTimeout p.config.poolTimeout.millis))
        (p.count fun c => { c with timeouts := c.timeouts + 1 }) w

theorem acquiring {p p' : Pool} {w w' : ω} {answer : Except ClientError Link}
    (h : p.acquire w = (answer, p', w')) : Acquiring p w answer p' w' := by
  -- The cases are split in the order in which acquiring asks for them.
  rw [acquire] at h
  cases hclosed : p.isClosed with
  | true =>
    rw [if_pos hclosed] at h
    cases h
    exact .shut hclosed
  | false =>
    rw [if_neg (by simp [hclosed])] at h
    cases hfree : p.free with
    | cons link rest =>
      simp only [hfree] at h
      cases h
      exact .lent hclosed hfree
    | nil =>
      simp only [hfree] at h
      split at h
      · next hroom =>
        cases hslot : openSlot p w with
        | mk opened rest =>
          rw [hslot] at h
          cases opened with
          | ok link =>
            cases h
            exact .opened hclosed hfree hroom hslot
          | error e =>
            cases h
            exact .failed hclosed hfree hroom hslot
      · next hfull =>
        cases h
        exact .timedOut hclosed hfree (Nat.le_of_not_lt hfull)

/-- The pool once a session has come back. -/
def returned (p : Pool) : Pool := p.count fun c => { c with releases := c.releases + 1 }

/-- The ways to take a session back. -/
inductive Releasing (link : Link) (p : Pool) (w : ω) : Pool → ω → Prop where
  | shut (hclosed : p.isClosed = true) :
      Releasing link p w
        ({ p.returned with live := p.live - 1 }.count fun c => { c with closed := c.closed + 1 })
        (Network.close link.session w)
  | recycled (hopen : p.isClosed = false) (huses : p.config.recycle ≤ link.uses + 1) :
      Releasing link p w
        ({ p.returned with live := p.live - 1 }.count fun c =>
          { c with recycled := c.recycled + 1, closed := c.closed + 1 })
        (Network.close link.session w)
  | kept (hopen : p.isClosed = false) (huses : link.uses + 1 < p.config.recycle) :
      Releasing link p w
        { p.returned with free := p.free ++ [{ link with uses := link.uses + 1 }] } w

theorem releasing (link : Link) (p : Pool) (w : ω) :
    Releasing link p w (release link p w).1 (release link p w).2 := by
  rw [release]
  dsimp only
  split
  · next hclosed => exact .shut hclosed
  · next hopen =>
    have hopen : p.isClosed = false := Bool.eq_false_iff.2 hopen
    split
    · next huses => exact .recycled hopen huses
    · next huses => exact .kept hopen (Nat.lt_of_not_le huses)

/-- The pool once it has given a session up as failed. -/
def writtenOff (p : Pool) : Pool := p.count fun c =>
  { c with failed := c.failed + 1, releases := c.releases + 1, closed := c.closed + 1 }

/-- The ways to discard a session. -/
inductive Discarding (link : Link) (p : Pool) (w : ω) : Pool → ω → Prop where
  | shut (hclosed : p.isClosed = true) :
      Discarding link p w { p.writtenOff with live := p.live - 1 } (Network.close link.session w)
  | replaced {fresh : Link} {p' : Pool} {w' : ω} (hopen : p.isClosed = false)
      (hlink : openLink p.writtenOff (Network.close link.session w) = (.ok fresh, p', w'))
      (hopen' : p'.isClosed = false) :
      Discarding link p w { p' with free := p'.free ++ [fresh] } w'
  /-- The pool was closed while the replacement was opened. -/
  | late {fresh : Link} {p' : Pool} {w' : ω} (hopen : p.isClosed = false)
      (hlink : openLink p.writtenOff (Network.close link.session w) = (.ok fresh, p', w'))
      (hclosed' : p'.isClosed = true) :
      Discarding link p w
        ({ p' with live := p'.live - 1 }.count fun c => { c with closed := c.closed + 1 })
        (Network.close fresh.session w')
  | unreplaced {e : ClientError} {p' : Pool} {w' : ω} (hopen : p.isClosed = false)
      (hlink : openLink p.writtenOff (Network.close link.session w) = (.error e, p', w')) :
      Discarding link p w { p' with live := p'.live - 1 } w'

theorem discarding (link : Link) (p : Pool) (w : ω) :
    Discarding link p w (discard link p w).1 (discard link p w).2 := by
  rw [discard]
  split
  · next hclosed => exact .shut hclosed
  · next hopen =>
    have hopen : p.isClosed = false := Bool.eq_false_iff.2 hopen
    -- The session is written off before another one is asked for.
    cases hlink : openLink p.writtenOff (Network.close link.session w) with
    | mk answer rest =>
      obtain ⟨p', w'⟩ := rest
      have hlink' := hlink
      rw [writtenOff] at hlink'
      rw [hlink']
      cases answer with
      | error e => exact .unreplaced hopen hlink
      | ok fresh =>
        dsimp only
        split
        · next hclosed' => exact .late hopen hlink hclosed'
        · next hopen' => exact .replaced hopen hlink (Bool.eq_false_iff.2 hopen')

/-! ## What only closing changes -/

/-- A property of a pool that its settings and its being closed decide, and that somebody who closes
the pool while it opens a session does not end. -/
structure Settled (ω : Type) [Network ω] (P : Pool → Prop) : Prop where
  framed : ∀ {p p' : Pool}, P p → p'.config = p.config → p'.isClosed = p.isClosed → P p'
  shut : ∀ {p : Pool} {w w' : ω}, P p → Network.closing w = (true, w') → P (p.close w').1

namespace Settled

variable {P : Pool → Prop} {p p' : Pool} {w w' : ω} {link : Link}

theorem openingInvariant (hP : Settled ω P) : OpeningInvariant fun (p : Pool) (_ : ω) => P p where
  turned h := hP.framed h rfl rfl
  asked h _ := h
  shut h hclosing := hP.shut h hclosing
  refused h _ := h

theorem openedSlot (hP : Settled ω P) {answer : Except ClientError Link} (h : P p)
    (hslot : Pool.openSlot p w = (answer, p', w')) : P p' := by
  have hslotted : P { p with live := p.live + 1 } := hP.framed h rfl rfl
  cases answer with
  | ok link =>
    cases hP.openingInvariant.openSlot_ok hslotted hslot with
    | opened h₁ => exact hP.framed h₁ rfl rfl
  | error e =>
    obtain ⟨p₁, h₁, rfl⟩ := hP.openingInvariant.openSlot_error hslotted hslot
    exact hP.framed h₁ rfl rfl

private theorem openedLink (hP : Settled ω P) {answer : Except ClientError Link} (h : P p)
    (hlink : Pool.openLink p w = (answer, p', w')) : P p' := by
  cases hP.openingInvariant.openLink h hlink with
  | opened h₁ => exact hP.framed h₁ rfl rfl
  | failed h₁ => exact h₁

theorem acquire (hP : Settled ω P) {answer : Except ClientError Link} (h : P p)
    (hacquire : Acquiring p w answer p' w') : P p' := by
  cases hacquire with
  | shut => exact h
  | lent => exact hP.framed h rfl rfl
  | opened _ _ _ hslot => exact hP.framed (hP.openedSlot h hslot) rfl rfl
  | failed _ _ _ hslot => exact hP.openedSlot h hslot
  | timedOut => exact hP.framed h rfl rfl

theorem release (hP : Settled ω P) (h : P p) (hrelease : Releasing link p w p' w') : P p' := by
  cases hrelease with
  | shut => exact hP.framed h rfl rfl
  | recycled => exact hP.framed h rfl rfl
  | kept => exact hP.framed h rfl rfl

theorem discard (hP : Settled ω P) (h : P p) (hdiscard : Discarding link p w p' w') : P p' := by
  have hoff : P p.writtenOff := hP.framed h rfl rfl
  cases hdiscard with
  | shut => exact hP.framed h rfl rfl
  | replaced _ hlink => exact hP.framed (hP.openedLink hoff hlink) rfl rfl
  | late _ hlink => exact hP.framed (hP.openedLink hoff hlink) rfl rfl
  | unreplaced _ hlink => exact hP.framed (hP.openedLink hoff hlink) rfl rfl

end Settled

/-- Nothing changes the settings of a pool. -/
theorem settled_config (ω : Type) [Network ω] (config : PoolConfig) :
    Settled ω fun p => p.config = config where
  framed h hconfig _ := hconfig.trans h
  shut h _ := h

/-- Opening a session leaves the settings as they are and takes one slot at most. -/
theorem live_of_openSlot {p p' : Pool} {w w' : ω} {link : Link}
    (hopen : openSlot p w = (.ok link, p', w')) : p'.config = p.config ∧ p'.live ≤ p.live + 1 := by
  have hinv : OpeningInvariant fun (q : Pool) (_ : ω) =>
      q.config = p.config ∧ q.live ≤ p.live + 1 := {
    turned := fun h => h
    asked := fun h _ => h
    shut := fun {q} _ _ h _ => ⟨h.1, Nat.le_trans (Nat.sub_le q.live q.free.length) h.2⟩
    refused := fun h _ => h }
  cases hinv.openSlot_ok ⟨rfl, Nat.le_refl _⟩ hopen with
  | opened h => exact h

end Outcome

end WideColumn.Pool
