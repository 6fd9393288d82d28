import Mathlib.Data.List.Nodup
import WideColumn.Proofs.Pool.Accounting
import WideColumn.Proofs.Pool.Observed

/-!
# Who has a session

Every session that a pool ever opened is free, held by one user, or closed, and in one of these
places only. A session that is closed is out of use for good, and none is handed out more often than
the settings allow. The network is observed, so that sessions have identities.

- `Owned`: the sessions, their places, what was seen of them, and how often each was handed out;
- one lemma for each way in which a session changes its place: `Owned.enroll`, `Owned.lend`,
  `Owned.takeBack`, `Owned.close`;
- `Owned.stepping`: every step keeps it;
- `ownership`: what it means for every run.
-/

namespace WideColumn.Pool

variable {ω : Type}

/-! ## Places -/

/-- Sessions are free, held or closed, and what is written down of them agrees with how often they
were used. -/
structure Owned (recycle : Nat) (idle held : List Link) (handed failed : List SessionId)
    (o : Observed ω) : Prop where
  numbered : o.opened = (List.range o.sessions.length).reverse
  places : ((idle ++ held).map Link.session ++ o.closed).Perm o.opened
  /-- Nothing happens to a session once it is closed. -/
  ordered : o.events.Pairwise fun later earlier => earlier ≠ .closed later.session
  failed : ∀ id ∈ failed, id ∈ o.closed
  known : ∀ id ∈ handed, id ∈ o.opened
  limit : ∀ id, handed.count id ≤ recycle
  /-- A free session came back as often as it was handed out. -/
  idle : ∀ link ∈ idle, link.uses < recycle ∧ handed.count link.session = link.uses
  /-- A held session was handed out once more than it came back. -/
  held : ∀ link ∈ held, link.uses < recycle ∧ handed.count link.session = link.uses + 1

namespace Owned

variable {recycle : Nat} {idle idle' held held' : List Link} {handed failed : List SessionId}
  {o o' : Observed ω} {link : Link}

private theorem mem_opened (h : Owned recycle idle held handed failed o) {id : SessionId} :
    id ∈ o.opened ↔ id < o.sessions.length := by
  rw [h.numbered, List.mem_reverse, List.mem_range]

private theorem nodup_opened (h : Owned recycle idle held handed failed o) : o.opened.Nodup := by
  rw [h.numbered]
  exact List.nodup_reverse.2 List.nodup_range

private theorem nodup_places (h : Owned recycle idle held handed failed o) :
    ((idle ++ held).map Link.session ++ o.closed).Nodup :=
  h.places.nodup_iff.2 h.nodup_opened

private theorem mem_opened_of_mem (h : Owned recycle idle held handed failed o)
    (hlink : link ∈ idle ++ held) : link.session ∈ o.opened :=
  h.places.mem_iff.1 (List.mem_append_left _ (List.mem_map_of_mem hlink))

/-- A session in use is not closed. -/
theorem not_mem_closed (h : Owned recycle idle held handed failed o)
    (hlink : link ∈ idle ++ held) : link.session ∉ o.closed := by
  have hdisjoint := List.disjoint_of_nodup_append h.nodup_places
  exact fun hclosed => hdisjoint (List.mem_map_of_mem hlink) hclosed

/-- No two sessions in use are the same. -/
theorem session_ne (h : Owned recycle idle held handed failed o) {rest : List Link}
    (hperm : (idle ++ held).Perm (link :: rest)) {other : Link} (hother : other ∈ rest) :
    other.session ≠ link.session := by
  have hnodup : ((link :: rest).map Link.session).Nodup :=
    (hperm.map Link.session).nodup_iff.1 (List.nodup_append.1 h.nodup_places).1
  intro heq
  refine (List.nodup_cons.1 hnodup).1 ?_
  rw [← heq]
  exact List.mem_map_of_mem hother

/-! ## Changes of place -/

theorem unchanged (h : Owned recycle idle held handed failed o) (w : ω) :
    Owned recycle idle held handed failed { o with network := w } :=
  ⟨h.numbered, h.places, h.ordered, h.failed, h.known, h.limit, h.idle, h.held⟩

theorem perm (h : Owned recycle idle held handed failed o) (hidle : idle.Perm idle')
    (hheld : held.Perm held') : Owned recycle idle' held' handed failed o where
  numbered := h.numbered
  places := (((hidle.append hheld).map Link.session).append_right o.closed).symm.trans h.places
  ordered := h.ordered
  failed := h.failed
  known := h.known
  limit := h.limit
  idle link hlink := h.idle link (hidle.mem_iff.2 hlink)
  held link hlink := h.held link (hheld.mem_iff.2 hlink)

/-- A new session is free. -/
theorem enroll (h : Owned recycle idle held handed failed o) (hrecycle : 0 < recycle) (w : ω)
    (session : SessionId) (server : String) :
    Owned recycle (⟨o.sessions.length, server, 0⟩ :: idle) held handed failed
      (o.enroll w session) := by
  -- Sessions are numbered one after the other, so the number is a new one.
  have hfresh : o.sessions.length ∉ o.opened := by
    rw [h.mem_opened]
    exact Nat.lt_irrefl _
  refine ⟨?_, h.places.cons _, ?_, h.failed, ?_, h.limit, ?_, h.held⟩
  · rw [Observed.opened_enroll, h.numbered]
    simp [Observed.enroll, List.range_succ]
  · -- What happened before happened to other sessions.
    refine List.pairwise_cons.2 ⟨fun e he hclosed => hfresh ?_, h.ordered⟩
    rw [hclosed] at he
    exact h.places.mem_iff.1 (List.mem_append_right _ (Observed.mem_closed.2 he))
  · exact fun id hid => List.mem_cons_of_mem _ (h.known id hid)
  · intro link hlink
    rcases List.mem_cons.1 hlink with rfl | hlink
    · exact ⟨hrecycle, List.count_eq_zero.2 fun hid => hfresh (h.known _ hid)⟩
    · exact h.idle link hlink

/-- A free session is handed out. -/
theorem lend (h : Owned recycle (link :: idle) held handed failed o) :
    Owned recycle idle (link :: held) (link.session :: handed) failed o := by
  obtain ⟨huses, hcount⟩ := h.idle link List.mem_cons_self
  -- It is handed out once more, and all the others as often as before.
  have hother : ∀ other ∈ idle ++ held,
      (link.session :: handed).count other.session = handed.count other.session := by
    intro other hmem
    exact List.count_cons_of_ne (h.session_ne (List.Perm.refl _) hmem).symm
  have hlent : (link.session :: handed).count link.session = link.uses + 1 := by
    rw [List.count_cons_self, hcount]
  refine ⟨h.numbered, ?_, h.ordered, h.failed, ?_, ?_, ?_, ?_⟩
  · exact ((List.perm_middle.map Link.session).append_right o.closed).trans h.places
  · intro id hid
    rcases List.mem_cons.1 hid with rfl | hid
    · exact h.mem_opened_of_mem List.mem_cons_self
    · exact h.known id hid
  · intro id
    by_cases hid : link.session = id
    · rw [← hid, hlent]
      exact huses
    · rw [List.count_cons_of_ne hid]
      exact h.limit id
  · intro other hmem
    rw [hother other (List.mem_append_left _ hmem)]
    exact h.idle other (List.mem_cons_of_mem _ hmem)
  · intro other hmem
    rcases List.mem_cons.1 hmem with rfl | hmem
    · exact ⟨huses, hlent⟩
    · rw [hother other (List.mem_append_right _ hmem)]
      exact h.held other hmem

/-- A held session comes back. -/
theorem takeBack (h : Owned recycle idle (link :: held) handed failed o)
    (huses : link.uses + 1 < recycle) :
    Owned recycle ({ link with uses := link.uses + 1 } :: idle) held handed failed o := by
  refine ⟨h.numbered, ?_, h.ordered, h.failed, h.known, h.limit, ?_, ?_⟩
  · have hplaces := ((List.perm_middle.map Link.session).append_right o.closed).symm.trans h.places
    exact hplaces
  · intro other hmem
    rcases List.mem_cons.1 hmem with rfl | hmem
    · exact ⟨huses, (h.held link List.mem_cons_self).2⟩
    · exact h.idle other hmem
  · exact fun other hmem => h.held other (List.mem_cons_of_mem _ hmem)

section Network

variable [Network ω]

/-- A session in use is closed. -/
theorem close (h : Owned recycle idle held handed failed o)
    (hperm : (idle ++ held).Perm (link :: (idle' ++ held'))) (hidle : idle' ⊆ idle)
    (hheld : held' ⊆ held) :
    Owned recycle idle' held' handed failed (Network.close link.session o) := by
  have hlink : link.session ∉ o.closed := h.not_mem_closed (hperm.mem_iff.2 List.mem_cons_self)
  rw [Observed.close_eq]
  refine ⟨h.numbered, ?_, ?_, ?_, h.known, h.limit, ?_, ?_⟩
  · -- The session moves from those in use to those that are closed.
    have hmoved : ((idle' ++ held').map Link.session ++ link.session :: o.closed).Perm
        ((link :: (idle' ++ held')).map Link.session ++ o.closed) := List.perm_middle
    have hplaces := ((hperm.map Link.session).append_right o.closed).symm.trans h.places
    exact hmoved.trans hplaces
  · -- a session is closed once, after it was opened
    refine List.pairwise_cons.2 ⟨fun e he hclosed => hlink ?_, h.ordered⟩
    rw [hclosed] at he
    exact Observed.mem_closed.2 he
  · exact fun id hid => List.mem_cons_of_mem _ (h.failed id hid)
  · exact fun other hmem => h.idle other (hidle hmem)
  · exact fun other hmem => h.held other (hheld hmem)

private theorem close_idle (h : Owned recycle (link :: idle) held handed failed o) :
    Owned recycle idle held handed failed (Network.close link.session o) :=
  h.close (List.Perm.refl _) (List.subset_cons_self _ _) (List.Subset.refl _)

private theorem close_held (h : Owned recycle idle (link :: held) handed failed o) :
    Owned recycle idle held handed failed (Network.close link.session o) :=
  h.close List.perm_middle (List.Subset.refl _) (List.subset_cons_self _ _)

theorem closeLinks {o : Observed ω} (h : Owned recycle idle held handed failed o) :
    Owned recycle [] held handed failed (Pool.closeLinks idle o) := by
  induction idle generalizing o with
  | nil => exact h
  | cons link idle ih => exact ih h.close_idle

/-- A held session is used. -/
theorem perform (h : Owned recycle idle held handed failed o) (hlink : link ∈ held) {α : Type}
    (r : Rpc α) :
    Owned recycle idle held handed failed (Network.perform link.session r o).2 := by
  have hopen : link.session ∉ o.closed := h.not_mem_closed (List.mem_append_right _ hlink)
  -- Only the order of events changes, and the session was not closed before.
  rw [Observed.perform_eq]
  refine ⟨h.numbered, h.places, ?_, h.failed, h.known, h.limit, h.idle, h.held⟩
  refine List.pairwise_cons.2 ⟨fun e he hclosed => hopen ?_, h.ordered⟩
  rw [hclosed] at he
  exact Observed.mem_closed.2 he

end Network

/-- A closed session is noted as failed. -/
theorem fail (h : Owned recycle idle held handed failed o) {id : SessionId} (hid : id ∈ o.closed) :
    Owned recycle idle held handed (id :: failed) o where
  numbered := h.numbered
  places := h.places
  ordered := h.ordered
  failed id' hid' := by
    rcases List.mem_cons.1 hid' with rfl | hid'
    · exact hid
    · exact h.failed id' hid'
  known := h.known
  limit := h.limit
  idle := h.idle
  held := h.held

end Owned

/-! ## Openings -/

section Steps

variable [Network ω] {config : PoolConfig} {held : List Link} {handed failed : List SessionId}
  {p p' : Pool} {o o' : Observed ω} {link : Link}

/-- The sessions of a pool and those that are held, under the settings of the pool. -/
def Keeps (config : PoolConfig) (held : List Link) (handed failed : List SessionId) (p : Pool)
    (o : Observed ω) : Prop :=
  p.config = config ∧ Owned config.recycle p.free held handed failed o

/-- Attempts to open a session leave the sessions in their places, unless the pool is closed
meanwhile. -/
theorem openingInvariant_keeps (ω : Type) [Network ω] (config : PoolConfig) (held : List Link)
    (handed failed : List SessionId) :
    OpeningInvariant fun (p : Pool) (o : Observed ω) => Keeps config held handed failed p o where
  turned h := h
  asked {p o o'} h hclosing := by
    obtain ⟨w, rfl⟩ := Observed.network_of_closing hclosing
    exact ⟨h.1, h.2.unchanged w⟩
  shut {p o o'} h hclosing := by
    obtain ⟨w, rfl⟩ := Observed.network_of_closing hclosing
    exact ⟨h.1, (h.2.unchanged w).closeLinks⟩
  refused h hconnect := by
    obtain ⟨w, rfl⟩ := Observed.connect_error hconnect
    exact ⟨h.1, h.2.unchanged w⟩

/-- A session that was opened stands first among those that are free. -/
theorem Opening.owned (hrecycle : 0 < config.recycle)
    (hopening : Opening (Keeps config held handed failed) (.ok link) p o) :
    p.config = config ∧ Owned config.recycle (link :: p.free) held handed failed o := by
  cases hopening with
  | opened h hconnect =>
    obtain ⟨rfl, w, session, rfl⟩ := Observed.connect_ok hconnect
    exact ⟨h.1, h.2.enroll hrecycle w session _⟩

/-! ## Steps -/

theorem Keeps.acquire (hrecycle : 0 < config.recycle) (h : Keeps config held handed failed p o)
    {answer : Except ClientError Link} (hacquire : Acquiring p o answer p' o') :
    match answer with
    | .ok link => Keeps config (link :: held) (link.session :: handed) failed p' o'
    | .error _ => Keeps config held handed failed p' o' := by
  -- opening a slot keeps the invariant whatever the network does
  have hinv := openingInvariant_keeps ω config held handed failed
  cases hacquire with
  | shut => exact h
  | lent hopen hfree =>
    obtain ⟨hconfig, howned⟩ := h
    rw [hfree] at howned
    exact ⟨hconfig, howned.lend⟩
  | opened hopen hfree hroom hslot =>
    obtain ⟨hconfig, howned⟩ := (hinv.openSlot_ok h hslot).owned hrecycle
    exact ⟨hconfig, howned.lend⟩
  | failed hopen hfree hroom hslot =>
    obtain ⟨p₁, h₁, rfl⟩ := hinv.openSlot_error h hslot
    exact h₁
  | timedOut => exact h

theorem Keeps.release (h : Keeps config (link :: held) handed failed p o)
    (hrelease : Releasing link p o p' o') : Keeps config held handed failed p' o' := by
  obtain ⟨hconfig, howned⟩ := h
  cases hrelease with
  | shut => exact ⟨hconfig, howned.close_held⟩
  | recycled => exact ⟨hconfig, howned.close_held⟩
  | kept hopen huses =>
    rw [hconfig] at huses
    exact ⟨hconfig, (howned.takeBack huses).perm (List.perm_append_singleton _ _).symm (.refl _)⟩

theorem Keeps.discard (hrecycle : 0 < config.recycle)
    (h : Keeps config (link :: held) handed failed p o) (hdiscard : Discarding link p o p' o') :
    Keeps config held handed (link.session :: failed) p' o' := by
  have hinv := openingInvariant_keeps ω config held handed (link.session :: failed)
  -- The session is closed before anything else happens.
  have hoff : Keeps config held handed (link.session :: failed) p.writtenOff
      (Network.close link.session o) :=
    ⟨h.1, h.2.close_held.fail (by rw [Observed.close_eq]; exact List.mem_cons_self)⟩
  -- Its replacement is opened like any other session, and closed again if it comes too late.
  cases hdiscard with
  | shut => exact hoff
  | replaced hopen hlink hopen' =>
    obtain ⟨hconfig, howned⟩ := (hinv.openLink hoff hlink).owned hrecycle
    exact ⟨hconfig, howned.perm (List.perm_append_singleton _ _).symm (.refl _)⟩
  | late hopen hlink hclosed' =>
    obtain ⟨hconfig, howned⟩ := (hinv.openLink hoff hlink).owned hrecycle
    exact ⟨hconfig, howned.close_idle⟩
  | unreplaced hopen hlink =>
    cases hinv.openLink hoff hlink with
    | failed h₁ => exact h₁

end Steps

/-! ## Runs -/

namespace Custody

variable [Network ω]

/-- The sessions of the pool and those that its users hold. -/
def Owned (config : PoolConfig) (c : Custody (Observed ω)) : Prop :=
  Keeps config c.held c.handed c.failed c.pool c.network

omit [Network ω] in
theorem owned_start (config : PoolConfig) (w : ω) :
    (start config (Observed.start w)).Owned config :=
  ⟨rfl, rfl, .refl _, .nil, List.forall_mem_nil _, List.forall_mem_nil _, fun _ => Nat.zero_le _,
    List.forall_mem_nil _, List.forall_mem_nil _⟩

/-- Every step leaves every session in one place. -/
theorem Owned.stepping {config : PoolConfig} (hrecycle : 0 < config.recycle)
    {c c' : Custody (Observed ω)} {s : Step} (hstep : Stepping c s c') (h : c.Owned config) :
    c'.Owned config := by
  have hinv := openingInvariant_keeps ω config c.held c.handed c.failed
  -- One case for each way of a step; those that take a held session take it to the front first.
  cases hstep with
  | idle => exact h
  | grown _ _ hslot =>
    obtain ⟨hconfig, howned⟩ := (hinv.openSlot_ok h hslot).owned hrecycle
    exact ⟨hconfig, howned.perm (List.perm_append_singleton _ _).symm (.refl _)⟩
  | stunted _ _ hslot =>
    obtain ⟨p₁, h₁, rfl⟩ := hinv.openSlot_error h hslot
    exact h₁
  | acquired hacquire => exact Keeps.acquire hrecycle h hacquire
  | refused hacquire => exact Keeps.acquire hrecycle h hacquire
  | released hlink hrelease =>
    have htaken : Keeps config _ c.handed c.failed c.pool c.network :=
      ⟨h.1, h.2.perm (.refl _) (perm_eraseIdx hlink)⟩
    exact htaken.release hrelease
  | discarded hlink hdiscard =>
    have htaken : Keeps config _ c.handed c.failed c.pool c.network :=
      ⟨h.1, h.2.perm (.refl _) (perm_eraseIdx hlink)⟩
    exact htaken.discard hrecycle hdiscard
  | performed hlink => exact ⟨h.1, h.2.perform (List.mem_of_getElem? hlink) _⟩
  | closed => exact ⟨h.1, h.2.closeLinks⟩

/-- What a state says about the sessions that were ever opened. -/
structure Orderly (recycle : Nat) (c : Custody (Observed ω)) : Prop where
  /-- Sessions have identities. -/
  distinct : c.network.opened.Nodup
  /-- Every session is free, held or closed, and so once. -/
  places : (c.pool.free.map Link.session ++ c.held.map Link.session ++ c.network.closed).Perm
    c.network.opened
  /-- Once a session is closed, it is neither used nor closed again. -/
  final : c.network.events.Pairwise fun later earlier => earlier ≠ .closed later.session
  usable : ∀ link ∈ c.pool.free ++ c.held, link.session ∉ c.network.closed
  failed : ∀ id ∈ c.failed, id ∈ c.network.closed
  handed : ∀ id, c.handed.count id ≤ recycle
  uses : ∀ link ∈ c.pool.free ++ c.held, link.uses < recycle

omit [Network ω] in
private theorem Owned.orderly {config : PoolConfig} {c : Custody (Observed ω)}
    (h : c.Owned config) :
    c.Orderly config.recycle where
  distinct := h.2.nodup_opened
  places := by
    have hplaces := h.2.places
    rw [List.map_append] at hplaces
    exact hplaces
  final := h.2.ordered
  usable _ hlink := h.2.not_mem_closed hlink
  failed := h.2.failed
  handed := h.2.limit
  uses link hlink := by
    rcases List.mem_append.1 hlink with hfree | hheld
    · exact (h.2.idle link hfree).1
    · exact (h.2.held link hheld).1

end Custody

/-! ## Main result -/

/-- Valid settings let a session be used. -/
theorem recycle_pos_of_validate {config : PoolConfig} (hvalid : config.validate = .ok ()) :
    0 < config.recycle := by
  refine Nat.pos_of_ne_zero fun hzero => ?_
  simp only [PoolConfig.validate, hzero, if_true] at hvalid
  repeat' split at hvalid
  all_goals cases hvalid

/-- In every run that starts with a new pool of valid settings, each session that was opened is
free, held or closed, in one place only; closed ones are out of use for good, failed ones are
closed, and none is handed out more often than the settings allow. So it is at each point within
filling and calling. -/
theorem ownership [Network ω] {config : PoolConfig} (hvalid : config.validate = .ok ()) (w : ω)
    (operations : List Operation) :
    let start := Custody.start config (Observed.start w)
    let c := start.run operations
    c.Orderly config.recycle
      ∧ (∃ steps, c = start.runSteps steps)
      ∧ ∀ steps, (start.runSteps steps).Orderly config.recycle := by
  intro start c
  have hstart : start.Owned config := Custody.owned_start config w
  have hstep : ∀ {c c' : Custody (Observed ω)} {s : Step}, Stepping c s c' → c.Owned config →
      c'.Owned config := Custody.Owned.stepping (recycle_pos_of_validate hvalid)
  exact ⟨(Custody.run_keeps hstep operations hstart).orderly,
    Custody.exists_steps_run operations start,
    fun steps => (Custody.runSteps_keeps hstep steps hstart).orderly⟩

/-- One session is discarded, another came back, and a third is held when the pool is closed. -/
theorem ownership_twoSessions :
    let c := (Custody.start twoSessions (Observed.start musicCluster)).run
      [.fill, .step .acquire, .step (.discard 0), .step .acquire, .step (.release 0),
        .step .acquire, .step .close]
    c.Orderly 2 ∧ c.held.map Link.session = [2] ∧ c.network.closed = [1, 0] := by
  have hvalid : twoSessions.validate = .ok () := rfl
  exact ⟨(ownership hvalid musicCluster _).1, by decide +kernel, by decide +kernel⟩

end WideColumn.Pool
