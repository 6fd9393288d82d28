import WideColumn.Proofs.Pool.Retry
import WideColumn.Proofs.Pool.Rotation

/-!
# Failing over to the servers that are up

When servers go down, a pool still has free sessions with them, and a call finds out about each only
by trying it. Every such attempt gives up one of these sessions and replaces it by one with a server
that is up. So their number falls with each failed attempt, and a call that may fail that often
reaches the store.

- `Attached`: the sessions of a pool are open in the cluster; every step of a run keeps it;
- `Reached`: the states of a run while others use the cluster, too;
- `Lasting`: a pool with a session or room for one, before a cluster with one of its servers up;
- `stranded`: the number of sessions whose servers are down;
- `failover`: the attempts that a call needs.
-/

namespace WideColumn

/-- Failures of a pool that has no answer of a server to give: it ran out of attempts, of servers or
of time, or it was closed. -/
def ClientError.isPoolFailure : ClientError → Bool
  | .retriesExhausted .. | .noServerAvailable _ | .poolTimeout _ | .poolClosed => true
  | _ => false

namespace Pool

/-! ## Sessions of a pool in a cluster -/

/-- A cluster has these sessions open, each with the server that the pool knows of, and no two of
them are the same. -/
structure Attached (links : List Link) (c : Cluster) : Prop where
  sessions : ∀ link ∈ links, c.sessions[link.session]? = some ⟨link.server, true⟩
  distinct : (links.map Link.session).Nodup

namespace Attached

variable {links links' held : List Link} {link : Link} {c c' : Cluster} {p p' : Pool}

theorem nil (c : Cluster) : Attached [] c := ⟨nofun, .nil⟩

theorem perm (h : Attached links c) (hperm : links.Perm links') : Attached links' c where
  sessions link hlink := h.sessions link (hperm.mem_iff.2 hlink)
  distinct := (hperm.map _).nodup_iff.1 h.distinct

theorem sublist (h : Attached links c) (hsub : links'.Sublist links) : Attached links' c where
  sessions link hlink := h.sessions link (hsub.subset hlink)
  distinct := h.distinct.sublist (hsub.map _)

/-- Whatever else happens to a cluster, only its sessions with the pool matter. -/
theorem elsewhere (h : Attached links c)
    (hsame : ∀ link ∈ links, c'.sessions[link.session]? = c.sessions[link.session]?) :
    Attached links c' where
  sessions link hlink := (hsame link hlink).trans (h.sessions link hlink)
  distinct := h.distinct

theorem enroll (h : Attached links c) {server : String}
    (hsessions : c'.sessions = c.sessions ++ [⟨server, true⟩]) (uses : Nat) :
    Attached (⟨c.sessions.length, server, uses⟩ :: links) c' := by
  -- The new session comes after all others.
  have hknown : ∀ link ∈ links, link.session < c.sessions.length := fun link hlink =>
    (List.getElem?_eq_some_iff.1 (h.sessions link hlink)).1
  constructor
  · rintro link (_ | ⟨_, hlink⟩)
    · rw [hsessions]
      exact List.getElem?_concat_length
    · rw [hsessions, List.getElem?_append_left (hknown link hlink)]
      exact h.sessions link hlink
  · refine List.nodup_cons.2 ⟨fun hmem => ?_, h.distinct⟩
    obtain ⟨link, hlink, hsession⟩ := List.mem_map.1 hmem
    have hless := hknown link hlink
    rw [hsession] at hless
    exact Nat.lt_irrefl _ hless

/-- A session that is closed is none of the others. -/
theorem close (h : Attached (link :: links) c) : Attached links (c.close link.session) := by
  refine (h.sublist (List.sublist_cons_self _ _)).elsewhere fun other hother => ?_
  have hne : link.session ≠ other.session := fun heq =>
    (List.nodup_cons.1 h.distinct).1 (heq ▸ List.mem_map_of_mem hother)
  show (c.sessions.modify link.session _)[other.session]? = _
  simp only [List.getElem?_modify, if_neg hne, h.sessions other (List.mem_cons_of_mem _ hother)]
  rfl

theorem closeLinks (h : Attached (links ++ held) c) : Attached held (Pool.closeLinks links c) := by
  induction links generalizing c with
  | nil => exact h
  | cons link links ih => exact ih h.close

/-- The first session becomes the last of some, and it does not matter how often it was used. -/
theorem putBack (h : Attached (link :: (links ++ held)) c) (uses : Nat) :
    Attached (links ++ [{ link with uses := uses }] ++ held) c := by
  have hused : Attached ({ link with uses := uses } :: (links ++ held)) c := by
    refine ⟨?_, h.distinct⟩
    rintro other (_ | ⟨_, hother⟩)
    · exact h.sessions link List.mem_cons_self
    · exact h.sessions other (List.mem_cons_of_mem _ hother)
  rw [List.append_assoc]
  exact hused.perm List.perm_middle.symm

/-! ### Steps -/

theorem openingInvariant (held : List Link) :
    OpeningInvariant fun (p : Pool) (c : Cluster) => Attached (p.free ++ held) c where
  turned h := h
  asked h hclosing := by
    cases hclosing
    exact h
  shut _ hclosing := by cases hclosing
  refused {p c c' server e} h hconnect := by
    rcases Cluster.sessions_of_connect hconnect with ⟨-, hsessions⟩ | ⟨hok, -⟩
    · exact h.elsewhere fun link _ => congrArg (·[link.session]?) hsessions
    · cases hok

theorem opening {answer : Except ClientError Link}
    (h : Opening (fun p c => Attached (p.free ++ held) c) answer p c) :
    match answer with
    | .ok link => Attached (link :: (p.free ++ held)) c
    | .error _ => Attached (p.free ++ held) c := by
  cases h with
  | opened h hconnect =>
    rcases Cluster.sessions_of_connect hconnect with ⟨⟨e, herror⟩, -⟩ | ⟨hok, hsessions⟩
    · cases herror
    · cases hok
      exact h.enroll hsessions 0
  | failed h => exact h

theorem acquire (h : Attached (p.free ++ held) c) {answer : Except ClientError Link}
    (hacquire : Acquiring p c answer p' c') :
    match answer with
    | .ok link => Attached (p'.free ++ link :: held) c'
    | .error _ => Attached (p'.free ++ held) c' := by
  cases hacquire with
  | shut => exact h
  | lent _ hfree =>
    rw [hfree] at h
    exact h.perm List.perm_middle.symm
  | opened _ _ _ hslot =>
    have hopened := opening ((openingInvariant held).openSlot_ok h hslot)
    exact hopened.perm List.perm_middle.symm
  | failed _ _ _ hslot =>
    obtain ⟨p₁, h₁, rfl⟩ := (openingInvariant held).openSlot_error h hslot
    exact h₁
  | timedOut => exact h

theorem release (h : Attached (p.free ++ link :: held) c) (hrelease : Releasing link p c p' c') :
    Attached (p'.free ++ held) c' := by
  have hfirst : Attached (link :: (p.free ++ held)) c := h.perm List.perm_middle
  cases hrelease with
  | shut => exact hfirst.close
  | recycled => exact hfirst.close
  | kept => exact hfirst.putBack _

theorem discard (h : Attached (p.free ++ link :: held) c) (hdiscard : Discarding link p c p' c') :
    Attached (p'.free ++ held) c' := by
  have hclosed : Attached (p.writtenOff.free ++ held) (c.close link.session) :=
    (h.perm List.perm_middle).close
  have hinv := openingInvariant held
  cases hdiscard with
  | shut => exact hclosed
  | @replaced fresh _ _ _ hlink => exact (opening (hinv.openLink hclosed hlink)).putBack fresh.uses
  | late _ hlink => exact (opening (hinv.openLink hclosed hlink)).close
  | unreplaced _ hlink => exact opening (hinv.openLink hclosed hlink)

theorem perform {α : Type} (h : Attached links c) (id : SessionId) (r : Rpc α) :
    Attached links (c.perform id r).2 := by
  obtain ⟨faults, -, ⟨e, hfailed⟩ | hserved⟩ := Cluster.perform_cases id r c
  · rw [hfailed]
    exact h.elsewhere fun _ _ => rfl
  · rw [hserved]
    exact h.elsewhere fun _ _ => rfl

end Attached

/-! ## Runs on a cluster that others use -/

namespace Custody

variable {c c' : Custody Cluster}

/-- The cluster has the free and the held sessions of the pool open. -/
def Attached (c : Custody Cluster) : Prop := Pool.Attached (c.pool.free ++ c.held) c.network

theorem Attached.stepping {s : Step} (hstep : Stepping c s c') (h : c.Attached) : c'.Attached := by
  have hinv := Pool.Attached.openingInvariant c.held
  cases hstep with
  | idle => exact h
  | @grown link _ _ _ _ hslot =>
    exact (Pool.Attached.opening (hinv.openSlot_ok h hslot)).putBack link.uses
  | stunted _ _ hslot =>
    obtain ⟨p₁, h₁, rfl⟩ := hinv.openSlot_error h hslot
    exact h₁
  | acquired hacquire => exact Pool.Attached.acquire h hacquire
  | refused hacquire => exact Pool.Attached.acquire h hacquire
  | released hlink hrelease =>
    have hheld := Pool.Attached.perm h ((perm_eraseIdx hlink).append_left c.pool.free)
    exact hheld.release hrelease
  | discarded hlink hdiscard =>
    have hheld := Pool.Attached.perm h ((perm_eraseIdx hlink).append_left c.pool.free)
    exact hheld.discard hdiscard
  | performed => exact Pool.Attached.perform h _ _
  | closed => exact Pool.Attached.closeLinks h

/-- The states that a pool can be in. Its users do what they like; between their operations servers
go down and come back, failures are queued, and others use the cluster, but nobody else touches the
sessions of the pool. -/
inductive Reached (config : PoolConfig) : Custody Cluster → Prop where
  | start (w : Cluster) : Reached config (.start config w)
  | apply {c : Custody Cluster} (h : Reached config c) (operation : Operation) :
      Reached config (c.apply operation)
  | elsewhere {c : Custody Cluster} {w : Cluster} (h : Reached config c)
      (hsame : ∀ link ∈ c.pool.free ++ c.held,
        w.sessions[link.session]? = c.network.sessions[link.session]?) :
      Reached config { c with network := w }

private theorem Reached.attached {config : PoolConfig} (h : Reached config c) :
    c.Attached ∧ c.pool.config = config := by
  induction h with
  | start w => exact ⟨.nil w, rfl⟩
  | apply _ operation ih =>
    exact ⟨run_keeps Attached.stepping [operation] ih.1, (config_run [operation] _).trans ih.2⟩
  | elsewhere _ hsame ih => exact ⟨Pool.Attached.elsewhere ih.1 hsame, ih.2⟩

end Custody

/-! ## Attempts on a cluster with servers down -/

/-- A session that is discarded is replaced if another one can be opened. -/
theorem discard_of_openLink {ω : Type} [Network ω] {p p' : Pool} {w w' : ω} {link fresh : Link}
    (hopen : p.isClosed = false)
    (hlink : p.writtenOff.openLink (Network.close link.session w) = (.ok fresh, p', w'))
    (hopen' : p'.isClosed = false) :
    p.discard link w = ({ p' with free := p'.free ++ [fresh] }, w') := by
  have hoff : ¬p.writtenOff.isClosed = true := by
    show ¬p.isClosed = true
    rw [hopen]
    nofun
  rw [writtenOff] at hoff hlink
  rw [discard]
  simp only [hoff, hlink, hopen', Bool.false_eq_true, if_false]

/-- Taking a session back may close it, and changes nothing else about it. -/
theorem release_of_session {p : Pool} {c : Cluster} {link : Link} {server : String}
    (hsession : c.sessions[link.session]? = some ⟨server, true⟩) :
    (p.release link c).2.store = c.store ∧
      ∃ isOpen, (p.release link c).2.sessions[link.session]? = some ⟨server, isOpen⟩ := by
  have hclosed : (c.close link.session).sessions[link.session]? = some ⟨server, false⟩ := by
    simp only [Cluster.close, List.getElem?_modify, if_true, hsession]
    rfl
  have hrelease := releasing link p c
  generalize p.release link c = released at hrelease ⊢
  obtain ⟨p', c'⟩ := released
  cases hrelease with
  | shut => exact ⟨rfl, false, hclosed⟩
  | recycled => exact ⟨rfl, false, hclosed⟩
  | kept => exact ⟨rfl, true, hsession⟩

/-- The number of sessions whose servers are down. -/
def stranded (down : List String) (links : List Link) : Nat :=
  links.countP fun link => down.contains link.server

section Stranded

variable {down : List String} {links : List Link} {link : Link}

private theorem stranded_cons_of_down (hdown : link.server ∈ down) :
    stranded down (link :: links) = stranded down links + 1 :=
  List.countP_cons_of_pos (List.contains_iff_mem.2 hdown)

private theorem stranded_cons_of_up (hup : link.server ∉ down) :
    stranded down (link :: links) = stranded down links :=
  List.countP_cons_of_neg fun hdown => hup (List.contains_iff_mem.1 hdown)

private theorem stranded_concat_of_up (hup : link.server ∉ down) :
    stranded down (links ++ [link]) = stranded down links := by
  rw [stranded, (List.perm_append_singleton link links).countP_eq]
  exact stranded_cons_of_up hup

end Stranded

/-- Nothing but servers that are down stands between a pool and the store. The sessions that are
free or `held` are open, no failure waits, one of the servers is up, and a session is free or there
is room for one. The attempts so far have left the data and the servers of the cluster as they were
`before`. -/
structure Lasting (config : PoolConfig) (before : Cluster) (held : List Link) (p : Pool)
    (c : Cluster) : Prop where
  isOpen : p.isClosed = false
  config : p.config = config
  up : ∃ server ∈ p.config.servers, server ∉ c.down
  words : p.config.servers.length ≤ UInt64.size
  faultless : c.faults = []
  login : c.checkLogin p.config.login = .ok ()
  attached : Attached (p.free ++ held) c
  room : held ≠ [] ∨ p.free ≠ [] ∨ p.live < p.capacity
  down : c.down = before.down
  store : c.store = before.store

namespace Lasting

variable {α : Type} {config : PoolConfig} {before : Cluster} {p : Pool} {c : Cluster} {link : Link}

/-- A session can be had, which is then held. None of those that are free and down is lost on the
way. -/
theorem acquire (h : Lasting config before [] p c) :
    ∃ link p' c', p.acquire c = (.ok link, p', c') ∧ Lasting config before [link] p' c' ∧
      stranded before.down (link :: p'.free) = stranded before.down p.free := by
  have hopen : ¬p.isClosed = true := by rw [h.isOpen]; nofun
  -- The cluster has the sessions open afterwards, whichever session it is.
  have hattached : ∀ {link p' c'}, p.acquire c = (.ok link, p', c') →
      Attached (p'.free ++ [link]) c' := fun hacquire => h.attached.acquire (acquiring hacquire)
  cases hfree : p.free with
  | cons link rest =>
    have hacquire : p.acquire c = (.ok link, { p with free := rest }.handOut, c) := by
      rw [Pool.acquire, if_neg hopen, hfree]
    refine ⟨link, _, c, hacquire, ?_, rfl⟩
    exact { h with attached := hattached hacquire, room := .inl (List.cons_ne_nil _ _) }
  | nil =>
    have hroom : p.live < p.capacity := by
      rcases h.room with hheld | hfree' | hroom
      · exact absurd rfl hheld
      · exact absurd hfree hfree'
      · exact hroom
    obtain ⟨link, p', c', hlink, hopened⟩ :=
      exists_openLink (p := { p with live := p.live + 1 }) h.up h.words h.faultless h.login
    have hacquire : p.acquire c = (.ok link, p'.handOut, c') := by
      rw [Pool.acquire, if_neg hopen, hfree]
      simp only [if_pos hroom, openSlot, hlink]
    have hattached := hattached hacquire
    obtain ⟨rotation, rfl⟩ := hopened.pool
    obtain ⟨calls, rfl⟩ := hopened.cluster
    refine ⟨link, _, _, hacquire, { h with
      attached := hattached, room := .inl (List.cons_ne_nil _ _) }, ?_⟩
    show stranded before.down (link :: p.free) = _
    rw [stranded_cons_of_up (h.down ▸ hopened.up), hfree]

/-- A session that is discarded is replaced by one whose server is up. -/
theorem discard (h : Lasting config before [link] p c) :
    Lasting config before [] (p.discard link c).1 (p.discard link c).2 ∧
      stranded before.down (p.discard link c).1.free = stranded before.down p.free := by
  have hattached := h.attached.discard (discarding link p c)
  have hoff : p.writtenOff.isClosed = false := h.isOpen
  -- Some server is up, so another session is opened in its place.
  obtain ⟨fresh, p', c', hlink, hopened⟩ :=
    exists_openLink (p := p.writtenOff) (c := c.close link.session) h.up h.words h.faultless h.login
  have hopen' : p'.isClosed = false := by
    obtain ⟨rotation, rfl⟩ := hopened.pool
    exact h.isOpen
  have hdiscard : p.discard link c = ({ p' with free := p'.free ++ [fresh] }, c') :=
    discard_of_openLink h.isOpen hlink hopen'
  rw [hdiscard] at hattached ⊢
  obtain ⟨rotation, rfl⟩ := hopened.pool
  obtain ⟨calls, rfl⟩ := hopened.cluster
  refine ⟨{ h with attached := hattached, room := .inr (.inl (List.concat_ne_nil _ _)) }, ?_⟩
  exact stranded_concat_of_up (h.down ▸ hopened.up)

/-- What a call does before it reaches the store does not matter to the attempts after it. -/
theorem record (h : Lasting config before [link] p c) (operation : String) :
    Lasting config before [link] p (c.record operation) :=
  { h with attached := h.attached.elsewhere fun _ _ => rfl }

/-- An attempt that fails transiently was made in a session whose server is down. Such a session had
been free, and it is replaced by one whose server is up. -/
theorem attempt (h : Lasting config before [] p c) {p₂ : Pool} {c₂ c₃ : Cluster} {r : Rpc α}
    {outcome : Except RpcError α} (hacquire : p.acquire c = (.ok link, p₂, c₂))
    (hperform : c₂.perform link.session r = (outcome, c₃)) (hretried : isRetried outcome = true) :
    Lasting config before [] (settle link outcome p₂ c₃).1 (settle link outcome p₂ c₃).2 ∧
      stranded before.down (settle link outcome p₂ c₃).1.free + 1 =
      stranded before.down p.free := by
  obtain ⟨link', p', c', hacquire', hheld, hcount⟩ := h.acquire
  obtain ⟨⟨⟩, rfl, rfl⟩ : Except.ok (ε := ClientError) link' = .ok link ∧ p' = p₂ ∧ c' = c₂ := by
    simpa only [Prod.mk.injEq] using hacquire'.symm.trans hacquire
  -- the session was held by the pool, so it is one of the cluster's
  have hsession := hheld.attached.sessions link (List.mem_append_right _ List.mem_cons_self)
  by_cases hdown : link.server ∈ before.down
  · -- The attempt comes no further than the server, and the session is replaced.
    rw [Cluster.perform_of_down hsession (hheld.down ▸ hdown) r] at hperform
    cases hperform
    obtain ⟨hlasting, hcount'⟩ := (hheld.record r.operation).discard
    rw [settle, if_pos hretried]
    rw [stranded_cons_of_down hdown] at hcount
    exact ⟨hlasting, by rw [hcount', hcount]⟩
  · -- The store has answered, and what it answers is not tried again.
    rw [Cluster.perform_eq hsession (hheld.down ▸ hdown) hheld.faultless r] at hperform
    cases hperform
    cases hanswer : (c'.store.serve r).1 with
    | ok a =>
      rw [hanswer] at hretried
      cases hretried
    | error e =>
      rw [hanswer, isRetried, Store.isTransient_of_serve hanswer] at hretried
      cases hretried

/-- Each failed attempt leaves one session fewer whose server is down. -/
theorem trying (h : Lasting config before [] p c) {p' : Pool} {c' : Cluster} {r : Rpc α}
    {tried : List (SessionId × Except RpcError α)} (htrying : Trying r p c tried p' c')
    (hretried : ∀ t ∈ tried, isRetried t.2 = true) :
    Lasting config before [] p' c' ∧
      stranded before.down p'.free + tried.length = stranded before.down p.free := by
  induction htrying with
  | start => exact ⟨h, rfl⟩
  | attempt _ hbefore hacquire hperform ih =>
    obtain ⟨hlasting, hcount⟩ := ih hbefore
    obtain ⟨hlasting', hcount'⟩ :=
      hlasting.attempt hacquire hperform (hretried _ List.mem_cons_self)
    refine ⟨hlasting', ?_⟩
    rw [List.length_cons]
    omega

/-- An attempt that is not repeated was answered by the store, in a session whose server is up. -/
theorem conclude (h : Lasting config before [] p c) {p₂ : Pool} {c₂ c₃ : Cluster} {r : Rpc α}
    {outcome : Except RpcError α} (hacquire : p.acquire c = (.ok link, p₂, c₂))
    (hperform : c₂.perform link.session r = (outcome, c₃)) (hfinal : isRetried outcome = false) :
    outcome = (before.store.serve r).1 ∧
      (settle link outcome p₂ c₃).2.store = (before.store.serve r).2 ∧
      ∃ session, (settle link outcome p₂ c₃).2.sessions[link.session]? = some session ∧
        session.server ∉ before.down := by
  obtain ⟨link', p', c', hacquire', hheld, -⟩ := h.acquire
  obtain ⟨⟨⟩, rfl, rfl⟩ : Except.ok (ε := ClientError) link' = .ok link ∧ p' = p₂ ∧ c' = c₂ := by
    simpa only [Prod.mk.injEq] using hacquire'.symm.trans hacquire
  have hsession := hheld.attached.sessions link (List.mem_append_right _ List.mem_cons_self)
  by_cases hdown : link.server ∈ before.down
  · -- requests to a server that is down are tried again, and this one was not
    rw [Cluster.perform_of_down hsession (hheld.down ▸ hdown) r] at hperform
    cases hperform
    cases hfinal
  · -- the server is up, so the outcome is what the store answers
    rw [Cluster.perform_eq hsession (hheld.down ▸ hdown) hheld.faultless r, hheld.store] at hperform
    cases hperform
    rw [settle, hfinal]
    obtain ⟨hstore, isOpen, hreleased⟩ := release_of_session (p := p')
      (c := { c'.record r.operation with store := (before.store.serve r).2 }) hsession
    exact ⟨rfl, hstore, _, hreleased, hdown⟩

end Lasting

/-! ## Main result -/

/-- In every state that an open pool can be in, let no failure be queued, the login be right, one of
the servers be up, and a session be free or have room. A call that may fail once for every free
session whose server is down is then answered by the store, in a session whose server is up. It
makes at most one attempt more than there are such sessions, and no more sessions are counted as
failed. The servers are a list in memory, so their number fits in a word. -/
theorem failover {α : Type} {config : PoolConfig} (hwords : config.servers.length ≤ UInt64.size)
    {c : Custody Cluster} (hreached : Custody.Reached config c) (hopen : c.pool.isClosed = false)
    (hfaults : c.network.faults = []) (hlogin : c.network.checkLogin config.login = .ok ())
    (hup : ∃ server ∈ config.servers, server ∉ c.network.down)
    (hroom : c.pool.free ≠ [] ∨ c.pool.live < c.pool.capacity)
    (hretries : stranded c.network.down c.pool.free < config.maxRetries) (name : String)
    (r : Rpc α) :
    let dead := stranded c.network.down c.pool.free
    let answered := c.network.store.serve r
    let result := c.pool.call name r c.network
    result.1 = answered.1.mapError .ofRpc ∧ result.2.2.store = answered.2 ∧
      (∀ e, result.1 = .error e → e.isPoolFailure = false) ∧
      result.2.1.counters.failed ≤ c.pool.counters.failed + dead ∧
      ∃ attempts id session,
        Calling name r c.pool c.network ((id, answered.1) :: attempts)
        result.1 result.2.1 result.2.2 ∧
          attempts.length ≤ dead ∧
          result.2.2.sessions[id]? = some session ∧ session.server ∉ c.network.down := by
  intro dead answered result
  obtain ⟨hattached, hconfig⟩ := hreached.attached
  -- what every attempt preserves, here before the first one
  have hlasting : Lasting config c.network [] c.pool c.network := by
    subst hconfig
    exact {
      isOpen := hopen
      config := rfl
      up := hup
      words := hwords
      faultless := hfaults
      login := hlogin
      attached := hattached.sublist ((List.append_nil _).symm ▸ List.sublist_append_left _ _)
      room := .inr hroom
      down := rfl
      store := rfl }
  obtain ⟨tried, hcalling⟩ : ∃ tried,
      Calling name r c.pool c.network tried result.1 result.2.1 result.2.2 := calling rfl
  have hpassed := Passed.calling hcalling
  generalize result = result' at hcalling hpassed ⊢
  obtain ⟨answer, p', c'⟩ := result'
  have hcalling' := hcalling
  cases hcalling with
  | exhausted htrying hretried hlength =>
    -- There are more attempts than sessions that fail.
    obtain ⟨-, hcount⟩ := hlasting.trying htrying hretried
    rw [hlength, hconfig] at hcount
    omega
  | refused htrying hretried _ hacquire =>
    -- A session can be had for every attempt.
    obtain ⟨hlasting', -⟩ := hlasting.trying htrying hretried
    obtain ⟨link, p₁, c₁, hacquire', -⟩ := hlasting'.acquire
    rw [hacquire] at hacquire'
    cases hacquire'
  | @concluded failed _ _ _ _ htrying hfinal _ =>
    cases htrying with
    | attempt htrying hretried hacquire hperform =>
      obtain ⟨hlasting', hcount⟩ := hlasting.trying htrying hretried
      obtain ⟨rfl, hstore, session, hsession, hserver⟩ :=
        hlasting'.conclude hacquire hperform hfinal
      have hlength : failed.length ≤ dead := by
        show failed.length ≤ stranded c.network.down c.pool.free
        omega
      refine ⟨rfl, hstore, fun e he => ?_, ?_, failed, _, session, hcalling', hlength,
        hsession, hserver⟩
      · -- the store's own errors are not those of the pool
        cases hanswer : answered.1 with
        | ok a =>
          rw [hanswer] at he
          cases he
        | error e' =>
          rw [hanswer] at he
          cases he
          cases e' <;> rfl
      · -- all but the last attempt were retried, and each of them counts one failed session
        have hfailed := hpassed.failed
        rw [List.countP_cons_of_neg (by rw [hfinal]; nofun)] at hfailed
        have hsome := List.countP_le_length (p := fun t => isRetried t.2) (l := failed)
        omega

/-- Settings of a pool with two sessions and two servers. -/
def twoServers : PoolConfig := { twoSessions with servers := ["east:9160", "west:9160"] }

/-- A full pool whose first server goes down. -/
def eastDown : Custody Cluster :=
  let c := (Custody.start twoServers musicCluster).run [.fill]
  { c with network := c.network.setDown "east:9160" }

/-- The first attempt is made in vain, and the second one is answered. -/
theorem failover_eastDown :
    let result :=
      eastDown.pool.call "describe_keyspace" (.describeKeyspace "music") eastDown.network
    stranded eastDown.network.down eastDown.pool.free = 1 ∧ result.1 = .ok (.ofName "music") ∧
      result.2.1.counters.failed ≤ 1 := by
  -- The free session is with the server that went down.
  have hdead : stranded eastDown.network.down eastDown.pool.free = 1 := by decide +kernel
  have hreached : Custody.Reached twoServers eastDown :=
    ((Custody.Reached.start musicCluster).apply .fill).elsewhere fun _ _ => rfl
  obtain ⟨hanswer, -, -, hfailed, -⟩ := failover (by decide) hreached (by decide +kernel)
    (by decide +kernel) (by decide +kernel) ⟨"west:9160", by decide +kernel, by decide +kernel⟩
    (.inl (by decide +kernel)) (by decide +kernel) "describe_keyspace" (.describeKeyspace "music")
  have hcounted : eastDown.pool.counters.failed = 0 := by decide +kernel
  refine ⟨hdead, hanswer, ?_⟩
  rw [hdead, hcounted] at hfailed
  exact hfailed

end Pool

end WideColumn
