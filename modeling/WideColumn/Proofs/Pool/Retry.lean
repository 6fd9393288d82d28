import WideColumn.Proofs.Cluster
import WideColumn.Proofs.Pool.Attempts
import WideColumn.Proofs.Pool.Ownership

/-!
# What a call does to its pool

A call may go through several sessions of a pool, and each attempt changes the pool: sessions are
closed and replaced, and replacing may fail. Whatever comes of it, the call keeps no session for
itself, uses none that failed before, and is counted in full.

- `Report`: what a call with some attempts leaves behind;
- `Connecting`: the next sessions that a call wants to open can be opened, and `Welcoming` clusters
  are like that;
- `Trying.live_of_connecting`: then failed sessions are replaced one by one;
- `call_retries`: the contract of a call.
-/

namespace WideColumn

/-! ## Uses of sessions -/

/-- The session that an event uses. -/
def Event.performed? : Event → Option SessionId
  | .performed id => some id
  | _ => none

/-- The uses of sessions so far, latest first. -/
def Observed.performed {ω : Type} (o : Observed ω) : List SessionId :=
  o.events.filterMap Event.performed?

/-- Opening and closing sessions is not using them. -/
theorem Observed.unmoved_performed (ω : Type) [Network ω] (uses : List SessionId) :
    Pool.Unmoved fun o : Observed ω => o.performed = uses where
  closing h := h
  connect {o} server login h := by
    cases hconnect : Network.connect server login o with
    | mk answer o' =>
      cases answer with
      | ok id =>
        obtain ⟨-, w, session, rfl⟩ := Observed.connect_ok hconnect
        exact h
      | error e =>
        obtain ⟨w, rfl⟩ := Observed.connect_error hconnect
        exact h
  close _ h := h

/-- An observer lets a session through and numbers it. -/
theorem Observed.connect_of_ok {ω : Type} [Network ω] {o : Observed ω} {w : ω} {server : String}
    {login : Login} {session : SessionId}
    (h : Network.connect server login o.network = (.ok session, w)) :
    Network.connect server login o = (.ok o.sessions.length, o.enroll w session) := by
  simp only [Network.connect] at h ⊢
  rw [h]

namespace Pool

section Retry

variable {ω α : Type} [Network ω] {r : Rpc α} {tried : List (SessionId × Except RpcError α)}

/-! ## The numbers of the pool -/

section Accounted

variable {held : Nat} {p p' : Pool} {w w' : ω}

theorem Accounted.settle {link : Link} (h : Accounted 0 (held + 1) p) (outcome : Except RpcError α)
    (w : ω) : Accounted 0 held (Pool.settle link outcome p w).1 := by
  rw [Pool.settle]
  split
  · exact h.discard (discarding link p w)
  · exact h.release (releasing link p w)

theorem Accounted.trying (h : Accounted 0 held p) (htrying : Trying r p w tried p' w') :
    Accounted 0 held p' := by
  induction htrying with
  | start => exact h
  | attempt _ _ hacquire _ ih =>
    have hacquired : Accounted 0 (held + 1) _ := ih.acquire (acquiring hacquire)
    exact hacquired.settle _ _

/-- The numbers of a pool agree with its sessions after a call as before. -/
theorem Accounted.calling {operation : String} {answer : Except ClientError α}
    (h : Accounted 0 held p) (hcalling : Calling operation r p w tried answer p' w') :
    Accounted 0 held p' := by
  cases hcalling with
  | exhausted htrying => exact h.trying htrying
  | refused htrying _ _ hacquire => exact (h.trying htrying).acquire (acquiring hacquire)
  | concluded htrying => exact h.trying htrying

end Accounted

/-! ## The sessions of the pool -/

section Keeps

variable {config : PoolConfig} {held : List Link} {handed failed : List SessionId} {p p' : Pool}
  {o o' : Observed ω}

/-- The sessions of the attempts that failed transiently, latest first. -/
def givenUp (tried : List (SessionId × Except RpcError α)) : List SessionId :=
  (tried.filter fun t => isRetried t.2).map (·.1)

private theorem givenUp_cons (id : SessionId) (outcome : Except RpcError α) :
    givenUp ((id, outcome) :: tried) =
      if isRetried outcome then id :: givenUp tried else givenUp tried := by
  rw [givenUp, List.filter_cons]
  split <;> rfl

private theorem givenUp_of_retried (hretried : ∀ t ∈ tried, isRetried t.2 = true) :
    givenUp tried = tried.map (·.1) := by
  rw [givenUp, List.filter_eq_self.2 hretried]

/-- What is kept of the attempts of a call: every session is in one place, those that were given up
are closed, and no session was tried twice. -/
theorem Keeps.trying (hrecycle : 0 < config.recycle) (h : Keeps config held handed failed p o)
    (htrying : Trying r p o tried p' o') :
    Keeps config held (tried.map (·.1) ++ handed) (givenUp tried ++ failed) p' o' ∧
      (tried.map (·.1)).Nodup := by
  induction htrying with
  | start => exact ⟨h, .nil⟩
  | @attempt tried p₁ p₂ o₁ o₂ o₃ link outcome _ hretried hacquire hperform ih =>
    obtain ⟨hkept, hnodup⟩ := ih
    have hacquired : Keeps config (link :: held) (link.session :: (tried.map (·.1) ++ handed))
        (givenUp tried ++ failed) p₂ o₂ := hkept.acquire hrecycle (acquiring hacquire)
    -- All sessions tried before are closed, and this one is not.
    have hfresh : link.session ∉ tried.map (·.1) := by
      intro hid
      rw [← givenUp_of_retried hretried] at hid
      have hclosed := hacquired.2.failed _ (List.mem_append_left failed hid)
      exact hacquired.2.not_mem_closed (List.mem_append_right _ List.mem_cons_self) hclosed
    have hused : Keeps config (link :: held) (link.session :: (tried.map (·.1) ++ handed))
        (givenUp tried ++ failed) p₂ o₃ := by
      have hperformed := hacquired.2.perform List.mem_cons_self r
      rw [hperform] at hperformed
      exact ⟨hacquired.1, hperformed⟩
    refine ⟨?_, List.nodup_cons.2 ⟨hfresh, hnodup⟩⟩
    rw [settle, givenUp_cons]
    cases isRetried outcome with
    | true => exact hused.discard hrecycle (discarding link p₂ o₃)
    | false => exact hused.release (releasing link p₂ o₃)

theorem Keeps.calling (hrecycle : 0 < config.recycle) (h : Keeps config held handed failed p o)
    {operation : String} {answer : Except ClientError α}
    (hcalling : Calling operation r p o tried answer p' o') :
    Keeps config held (tried.map (·.1) ++ handed) (givenUp tried ++ failed) p' o' ∧
      (tried.map (·.1)).Nodup := by
  cases hcalling with
  | exhausted htrying => exact h.trying hrecycle htrying
  | refused htrying _ _ hacquire =>
    obtain ⟨hkept, hnodup⟩ := h.trying hrecycle htrying
    exact ⟨hkept.acquire hrecycle (acquiring hacquire), hnodup⟩
  | concluded htrying => exact h.trying hrecycle htrying

private theorem performed_of_trying (htrying : Trying r p o tried p' o') :
    o'.performed = tried.map (·.1) ++ o.performed := by
  induction htrying with
  | start => rfl
  | @attempt tried p₁ p₂ o₁ o₂ o₃ link outcome _ _ hacquire hperform ih =>
    have hacquired := (Observed.unmoved_performed ω _).acquire ih hacquire
    refine (Observed.unmoved_performed ω _).settle link outcome p₂ ?_
    have hused := Observed.perform_eq link.session r o₂
    rw [hperform] at hused
    simp only at hused
    rw [hused, List.map_cons, List.cons_append, ← hacquired]
    rfl

/-- Every attempt of a call uses its session once, and nothing else of a call uses one. -/
theorem performed_of_calling {operation : String} {answer : Except ClientError α}
    (hcalling : Calling operation r p o tried answer p' o') :
    o'.performed = tried.map (·.1) ++ o.performed := by
  cases hcalling with
  | exhausted htrying => exact performed_of_trying htrying
  | refused htrying _ _ hacquire =>
    exact (Observed.unmoved_performed ω _).acquire (performed_of_trying htrying) hacquire
  | concluded htrying => exact performed_of_trying htrying

end Keeps

/-! ## Networks that open sessions -/

/-- What becomes of a network between two attempts to open a session: calls are made and sessions
are closed. -/
inductive Between (r : Rpc α) (w : ω) : ω → Prop where
  | unchanged : Between r w w
  | performed {w' : ω} (h : Between r w w') (id : SessionId) :
      Between r w (Network.perform id r w').2
  | closed {w' : ω} (h : Between r w w') (id : SessionId) : Between r w (Network.close id w')

theorem Between.trans {w w₁ w₂ : ω} (h : Between r w w₁) (h' : Between r w₁ w₂) :
    Between r w w₂ := by
  induction h' with
  | unchanged => exact h
  | performed _ id ih => exact ih.performed id
  | closed _ id ih => exact ih.closed id

/-- So many of the next attempts to open a session succeed, whatever calls are made meanwhile, and
nobody closes the pool. -/
def Connecting (config : PoolConfig) (r : Rpc α) : Nat → ω → Prop
  | 0, _ => True
  | left + 1, w => ∀ w₁, Between r w w₁ → (Network.closing w₁).1 = false ∧
      ∀ server ∈ config.servers, ∃ session w₂,
        Network.connect server config.login (Network.closing w₁).2 = (.ok session, w₂) ∧
          Connecting config r left w₂

section Connecting

variable {config : PoolConfig} {left : Nat} {p p' : Pool} {w w' : ω}

theorem Connecting.between (h : Connecting config r left w) (hbetween : Between r w w') :
    Connecting config r left w' := by
  cases left with
  | zero => trivial
  | succ left => exact fun w₁ hw₁ => h w₁ (hbetween.trans hw₁)

/-- What is observed of a network does not change it. -/
theorem Connecting.observed {o : Observed ω} (h : Connecting config r left o.network) :
    Connecting config r left o := by
  induction left generalizing o with
  | zero => trivial
  | succ left ih =>
    intro o₁ ho₁
    -- What happens between two connections happens to the observed network as well.
    have hbetween : Between r o.network o₁.network := by
      induction ho₁ with
      | unchanged => exact .unchanged
      | performed _ id ihb => exact ihb.performed _
      | closed _ id ihb => exact ihb.closed _
    obtain ⟨hclosing, hconnects⟩ := h o₁.network hbetween
    refine ⟨hclosing, fun server hserver => ?_⟩
    obtain ⟨session, w₂, hconnect, hleft⟩ := hconnects server hserver
    exact ⟨_, _, Observed.connect_of_ok hconnect, ih hleft⟩

/-- Then the next server of the rotation opens a session. -/
theorem openLink_of_connecting (hservers : config.servers ≠ []) (hconfig : p.config = config)
    (h : Connecting config r (left + 1) w) :
    ∃ session w', openLink p w =
      (.ok ⟨session, p.nextServer.1, 0⟩, p.nextServer.2.created, w') ∧
        Connecting config r left w' := by
  subst hconfig
  obtain ⟨hclosing, hconnects⟩ := h w .unchanged
  obtain ⟨session, w', hconnect, hleft⟩ := hconnects _ (nextServer_mem hservers)
  refine ⟨session, w', openLink_of_ok hservers ?_ hconnect, hleft⟩
  rw [← hclosing]

/-- Then a session that fails is replaced, if the pool is open. -/
theorem discard_of_connecting (hservers : config.servers ≠ []) (hconfig : p.config = config)
    (hopen : p.isClosed = false) (link : Link)
    (h : Connecting config r (left + 1) (Network.close link.session w)) :
    (discard link p w).1.live = p.live ∧ (discard link p w).1.free ≠ [] ∧
      (discard link p w).1.config = config ∧ Connecting config r left (discard link p w).2 := by
  have hconfig' : p.writtenOff.config = config := hconfig
  obtain ⟨session, w', hopened, hleft⟩ := openLink_of_connecting hservers hconfig' h
  have hdiscard := discarding link p w
  generalize discard link p w = discarded at hdiscard ⊢
  obtain ⟨p', w''⟩ := discarded
  -- Of the ways to discard a session, those without a replacement and those of a closed pool are
  -- out.
  cases hdiscard with
  | shut hclosed =>
    rw [hopen] at hclosed
    cases hclosed
  | replaced _ hlink =>
    rw [hopened] at hlink
    cases hlink
    exact ⟨rfl, List.concat_ne_nil _ _, hconfig, hleft⟩
  | late _ hlink hclosed =>
    rw [hopened] at hlink
    cases hlink
    have hclosed : p.isClosed = true := hclosed
    rw [hopen] at hclosed
    cases hclosed
  | unreplaced _ hlink =>
    rw [hopened] at hlink
    cases hlink

/-- With a free session to begin with, each failed session is replaced before the next attempt,
which takes a free one. -/
theorem Trying.live_of_connecting (hservers : config.servers ≠ []) (hconfig : p.config = config)
    (hfree : p.free ≠ []) {total : Nat} (h : Connecting config r total w)
    (htrying : Trying r p w tried p' w') (hretried : ∀ t ∈ tried, isRetried t.2 = true) :
    ∀ left, tried.length + left = total → p'.live = p.live ∧ p'.free ≠ [] ∧ p'.config = config ∧
      Connecting config r left w' := by
  -- By induction on the attempts. Each one opens one session, so that many fewer need to be opened.
  induction htrying with
  | start =>
    intro left hleft
    obtain rfl : left = total := by simpa using hleft
    exact ⟨rfl, hfree, hconfig, h⟩
  | @attempt tried p₁ p₂ w₁ w₂ w₃ link outcome _ hbefore hacquire hperform ih =>
    intro left hleft
    rw [List.length_cons] at hleft
    obtain ⟨hlive, hfree₁, hconfig₁, hconnecting⟩ := ih hbefore (left + 1) (by omega)
    have hagain : isRetried outcome = true := hretried _ List.mem_cons_self
    rw [settle, if_pos hagain]
    cases acquiring hacquire with
    | opened _ hnone => exact absurd hnone hfree₁
    | @lent _ rest hopen hlent =>
      have hused : Between r w₁ (Network.close link.session w₃) := by
        have hperformed := (Between.unchanged (r := r) (w := w₁)).performed link.session
        rw [hperform] at hperformed
        exact hperformed.closed link.session
      have hconfig₂ : (handOut { p₁ with free := rest }).config = config := hconfig₁
      obtain ⟨hlive', hrest⟩ :=
        discard_of_connecting hservers hconfig₂ hopen link (hconnecting.between hused)
      exact ⟨hlive'.trans hlive, hrest⟩

end Connecting

end Retry

/-! ## Clusters that open sessions -/

/-- A cluster whose servers are up, where no failure waits for a connection and that knows the login
of a pool. -/
structure Welcoming (config : PoolConfig) (c : Cluster) : Prop where
  up : ∀ server ∈ config.servers, server ∉ c.down
  faultless : ∀ fault ∈ c.faults, fault.1 ≠ Cluster.connectOperation
  login : c.checkLogin config.login = .ok ()

namespace Welcoming

variable {α : Type} {config : PoolConfig} {c : Cluster}

theorem perform (h : Welcoming config c) (id : SessionId) (r : Rpc α) :
    Welcoming config (c.perform id r).2 := by
  obtain ⟨faults, hsub, ⟨e, hfailed⟩ | hserved⟩ := Cluster.perform_cases id r c
  · rw [hfailed]
    exact ⟨h.up, fun fault hfault => h.faultless fault (hsub hfault), h.login⟩
  · rw [hserved]
    refine ⟨h.up, fun fault hfault => h.faultless fault (hsub hfault), ?_⟩
    have hlogin := h.login
    simp only [Cluster.checkLogin, Cluster.record, Store.keyspace_serve] at hlogin ⊢
    exact hlogin

theorem between {r : Rpc α} {c' : Cluster} (h : Welcoming config c) (hbetween : Between r c c') :
    Welcoming config c' := by
  induction hbetween with
  | unchanged => exact h
  | performed _ id ih => exact ih.perform id r
  | closed _ id ih => exact ⟨ih.up, ih.faultless, ih.login⟩

theorem connect (h : Welcoming config c) {server : String} (hserver : server ∈ config.servers) :
    ∃ session c', Cluster.connect server config.login c = (.ok session, c') ∧
    Welcoming config c' := by
  -- No failure waits for a connection.
  have hfault : (c.record Cluster.connectOperation).takeFault Cluster.connectOperation =
      (none, c.record Cluster.connectOperation) := by
    rw [Cluster.takeFault]
    split
    · rfl
    · next hfound =>
      have hwaiting := List.find?_some hfound
      exact absurd (eq_of_beq hwaiting) (h.faultless _ (List.mem_of_find?_eq_some hfound))
  have hup : (c.record Cluster.connectOperation).down.contains server = false := by
    simpa [Cluster.record] using h.up server hserver
  have hlogin : (c.record Cluster.connectOperation).checkLogin config.login = .ok () := h.login
  refine ⟨c.sessions.length, { c.record Cluster.connectOperation with
    sessions := c.sessions ++ [⟨server, true⟩] }, ?_, h.up, h.faultless, h.login⟩
  simp only [Cluster.connect, hup, Bool.false_eq_true, if_false, hfault, hlogin]
  rfl

/-- Such a cluster opens all the sessions it is asked for. -/
theorem connecting (r : Rpc α) (left : Nat) (h : Welcoming config c) :
    Connecting config r left c := by
  induction left generalizing c with
  | zero => trivial
  | succ left ih =>
    intro c₁ hc₁
    refine ⟨rfl, fun server hserver => ?_⟩
    obtain ⟨session, c₂, hconnect, hc₂⟩ := (h.between hc₁).connect hserver
    exact ⟨session, c₂, hconnect, ih hc₂⟩

end Welcoming

/-! ## Main result -/

theorem servers_of_validate {config : PoolConfig} (hvalid : config.validate = .ok ()) :
    config.servers ≠ [] := by
  intro hnone
  simp only [PoolConfig.validate, hnone, List.isEmpty_nil, if_true] at hvalid
  split at hvalid <;> cases hvalid

/-- What a call of some attempts does to a pool while others hold sessions, and to the sessions that
were seen. -/
structure Report {ω α : Type} (held : List Link) (tried : List (SessionId × Except RpcError α))
    (p p' : Pool) (o o' : Observed ω) : Prop where
  /-- Every attempt uses its session once, and no other session is used. -/
  performed : o'.performed = tried.map (·.1) ++ o.performed
  passed : Passed tried.length tried.length (tried.countP fun t => isRetried t.2) p p'
  /-- No session is tried again. -/
  distinct : (tried.map (·.1)).Nodup
  /-- All sessions that are in use but not free are held by others. -/
  live : p'.live = p'.free.length + held.length
  places : (p'.free.map Link.session ++ held.map Link.session ++ o'.closed).Perm o'.opened

/-- In every state that a pool of valid settings can be in, a call makes one attempt after the
other, at most as many as the settings allow, until one does not fail transiently or no session is
to be had; it answers and counts accordingly, tries no session twice and keeps none. If a session
was free and all sessions that it wants to open can be opened, a call that uses its attempts up
leaves as many sessions as there were. -/
theorem call_retries {ω α : Type} [Network ω] {config : PoolConfig}
    (hvalid : config.validate = .ok ()) (w : ω) (operations : List Operation) (name : String)
    (r : Rpc α) :
    let c := (Custody.start config (Observed.start w)).run operations
    let result := c.pool.call name r c.network
    ∃ tried, Calling name r c.pool c.network tried result.1 result.2.1 result.2.2 ∧
      tried.length ≤ config.maxRetries ∧
      Report c.held tried c.pool result.2.1 c.network result.2.2 ∧
      (tried.length = config.maxRetries → (∀ t ∈ tried, isRetried t.2 = true) → c.pool.free ≠ [] →
        Connecting config r config.maxRetries c.network.network →
        result.2.1.live = c.pool.live) := by
  intro c result
  have hrecycle := recycle_pos_of_validate hvalid
  have hconfig : c.pool.config = config := Custody.config_run operations _
  -- Operations have led to this pool, so its sessions are counted and each has one owner.
  have haccounted : c.Accounted :=
    Custody.run_keeps Custody.Accounted.stepping operations (Custody.accounted_start config _)
  have howned : c.Owned config :=
    Custody.run_keeps (Custody.Owned.stepping hrecycle) operations (Custody.owned_start config w)
  obtain ⟨tried, hcalling⟩ : ∃ tried,
      Calling name r c.pool c.network tried result.1 result.2.1 result.2.2 := calling rfl
  obtain ⟨hkept, hdistinct⟩ := Keeps.calling hrecycle howned hcalling
  refine ⟨tried, hcalling, hconfig ▸ hcalling.length_le, ?_, ?_⟩
  · exact {
      performed := performed_of_calling hcalling
      passed := .calling hcalling
      distinct := hdistinct
      live := (haccounted.calling hcalling).live
      places := by
        have hplaces := hkept.2.places
        rw [List.map_append] at hplaces
        exact hplaces }
  · -- every attempt was to be tried again, and every session that failed was replaced
    intro hlength hretried hfree hconnecting
    have hall : tried.length + 0 = config.maxRetries := hlength
    have htrying : Trying r c.pool c.network tried result.2.1 result.2.2 :=
      hcalling.trying_of_retried (by rw [hconfig, hlength]) hretried
    exact (htrying.live_of_connecting (servers_of_validate hvalid) hconfig hfree
      hconnecting.observed hretried 0 hall).1

/-- The music cluster, where the next five truncations time out. -/
def busyCluster : Cluster := musicCluster.failNext "truncate" 5 .timedOut

/-- All five attempts of a truncation time out in as many sessions, and the pool is full again. -/
theorem call_retries_busy :
    let c := (Custody.start twoSessions (Observed.start busyCluster)).run [.fill]
    let result := c.pool.call "truncate" (.truncate "albums") c.network
    result.2.1.live = c.pool.live ∧ c.pool.live = 2 ∧ ∃ tried,
      Calling "truncate" (.truncate "albums")
      c.pool c.network tried result.1 result.2.1 result.2.2 ∧
        tried.length = 5 ∧ (tried.map (·.1)).Nodup := by
  intro c result
  have hvalid : twoSessions.validate = .ok () := rfl
  obtain ⟨tried, hcalling, hbound, hreport, hlive⟩ :=
    call_retries hvalid busyCluster [.fill] "truncate" (.truncate "albums")
  -- Five sessions count as failed, so there were five attempts and all of them failed.
  have hfailed : result.2.1.counters.failed = c.pool.counters.failed + 5 := by decide +kernel
  have hcount : tried.countP (fun t => isRetried t.2) = 5 :=
    Nat.add_left_cancel (hreport.passed.failed.symm.trans hfailed)
  have hlength : tried.length = 5 := Nat.le_antisymm hbound (hcount ▸ List.countP_le_length)
  have hretried : ∀ t ∈ tried, isRetried t.2 = true :=
    List.countP_eq_length.1 (hcount.trans hlength.symm)
  have hwelcoming : Welcoming twoSessions c.network.network :=
    ⟨by decide +kernel, by decide +kernel, by decide +kernel⟩
  have hfree : c.pool.free ≠ [] := by decide +kernel
  exact ⟨hlive hlength hretried hfree (hwelcoming.connecting _ _), by
    decide +kernel, tried, hcalling,
    hlength, hreport.distinct⟩

end Pool

end WideColumn
