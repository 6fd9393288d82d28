import WideColumn.Cluster
import WideColumn.Proofs.Pool.Outcome
import WideColumn.Proofs.Store.Refused

/-!
# Calls that reach the store

Between a client and a store there are sessions, servers and queued failures. As long as none of
them stands in the way, a call is answered as the store answers it.

- `Store.serve`: what a call does to a store and answers;
- `Serving`: every call reaches the store, whatever calls came before; `ServingFrom` names the
  store;
- `Healthy`: sessions are open or can be opened, servers are up and no failure waits;
- `Healthy.serving`: a healthy pool serves, for its calls keep it healthy.
-/

namespace WideColumn

/-! ## Answers of the store -/

namespace Store

variable {α : Type}

/-- What a call does to a store and answers. -/
def serve (r : Rpc α) (s : Store) : Except RpcError α × Store :=
  let (answer, c) := Cluster.serve r ⟨s, [], [], [], none, []⟩
  (answer, c.store)

/-- The change that a call asks a store for. -/
def change? : Rpc α → Option Operation
  | .batchMutate mutations _ => some (.batch mutations)
  | .remove key path timestamp _ => some (.remove key path (some timestamp))
  | .removeCounter key path _ => some (.remove key path none)
  | .add key parent counter _ => some (.add key parent counter)
  | .truncate table => some (.truncate table)
  | .getSlice .. | .getCount .. | .multigetSlice .. | .multigetCount .. | .getRangeSlices ..
  | .getIndexedSlices .. | .describeKeyspace .. => none

/-- The store after a call. -/
theorem serve_snd (r : Rpc α) (s : Store) :
    (serve r s).2 = match change? r with
      | some operation => s.apply operation
      | none => s := by
  cases r with
  | remove | removeCounter | add | truncate =>
    simp only [serve, Cluster.serve, Cluster.keep, change?, apply, afterAll]
    split <;> simp only [*]
  | describeKeyspace =>
    simp only [serve, Cluster.serve]
    split <;> rfl
  | _ => rfl

/-- A change is answered if the store accepts it. -/
theorem serve_ok_iff {r : Rpc α} {operation : Operation} (h : change? r = some operation)
    {s : Store} :
    (∃ a, (serve r s).1 = .ok a) ↔ s.answer operation = .ok () := by
  -- A request is answered, or it is a change that is kept. Either way only the store can refuse it.
  have hanswer : ∀ {result : Except Refusal Unit},
      (∃ a, Cluster.answer result = .ok a) ↔ result = .ok () := by
    intro result
    cases result with
    | ok a => exact ⟨fun _ => rfl, fun _ => ⟨a, rfl⟩⟩
    | error refusal => exact ⟨nofun, nofun⟩
  have hkeep : ∀ {c : Cluster} {result : Except Refusal Store},
      (∃ a, (c.keep result).1 = .ok a) ↔ (fun _ => ()) <$> result = .ok () := by
    intro c result
    cases result with
    | ok s => exact ⟨fun _ => rfl, fun _ => ⟨(), rfl⟩⟩
    | error refusal => exact ⟨nofun, nofun⟩
  cases r with
  | batchMutate => cases h; exact hanswer
  | remove | removeCounter | add | truncate => cases h; exact hkeep
  | _ => cases h

/-- Failures that a store answers are not transient. -/
theorem isTransient_of_serve {r : Rpc α} {s : Store} {e : RpcError} (h : (serve r s).1 = .error e) :
    e.isTransient = false := by
  -- Refusals are not transient, in whichever way a request is served.
  have hanswer : ∀ {β : Type} {result : Except Refusal β}, Cluster.answer result = .error e →
      e.isTransient = false := by
    intro β result h
    cases result with
    | ok b => cases h
    | error refusal => cases h; rfl
  have hkeep : ∀ {c : Cluster} {result : Except Refusal Store}, (c.keep result).1 = .error e →
      e.isTransient = false := by
    intro c result h
    cases result with
    | ok s => cases h
    | error refusal => cases h; rfl
  cases r with
  | remove | removeCounter | add | truncate => exact hkeep h
  | describeKeyspace =>
    simp only [serve, Cluster.serve] at h
    split at h <;> cases h
    rfl
  | _ => exact hanswer h

theorem keyspace_serve (r : Rpc α) (s : Store) : (serve r s).2.keyspace = s.keyspace := by
  rw [serve_snd]
  cases change? r with
  | none => rfl
  | some operation => exact keyspace_apply operation s

end Store

/-- A call that reached the store changes nothing else of a cluster. -/
theorem Cluster.serve_eq {α : Type} (r : Rpc α) (c : Cluster) :
    c.serve r = ((c.store.serve r).1, { c with store := (c.store.serve r).2 }) := by
  cases r with
  | remove | removeCounter | add | truncate =>
    simp only [Store.serve, serve, keep]
    split <;> rfl
  | describeKeyspace =>
    simp only [Store.serve, serve]
    split <;> rfl
  | _ => rfl

/-! ## Serving -/

section Serving

variable {α : Type}

/-- The outcome of a call that was answered so. -/
def Client.outcome {σ : Type} (answer : Except RpcError α) (s : σ) :
    EStateM.Result ClientError σ α :=
  match answer with
  | .ok a => .ok a s
  | .error e => .error (.ofRpc e) s

/-- A property of pools and clusters under which every call is answered by the store. -/
structure ServingInvariant (inv : Pool × Cluster → Prop) : Prop where
  call : ∀ {s : Pool × Cluster}, inv s → ∀ {α : Type} (r : Rpc α), ∃ s', inv s' ∧
    s'.2.store = (s.2.store.serve r).2 ∧ Client.call r s = Client.outcome (s.2.store.serve r).1 s'

/-- Every call is answered by the store, whatever calls came before. -/
def Serving (s : Pool × Cluster) : Prop := ∃ inv, ServingInvariant inv ∧ inv s

theorem servingInvariant_serving : ServingInvariant Serving where
  call := by
    rintro s ⟨inv, hinv, hs⟩ α r
    obtain ⟨s', hs', hcall⟩ := hinv.call hs r
    exact ⟨s', ⟨inv, hinv, hs'⟩, hcall⟩

/-- States that serve and have a store. -/
def ServingFrom (store : Store) (s : Pool × Cluster) : Prop := Serving s ∧ s.2.store = store

/-- A call that changes nothing is answered from the store. -/
theorem ServingFrom.call {s : Pool × Cluster} {store : Store} {r : Rpc α} {a : α}
    (hs : ServingFrom store s) (hread : store.serve r = (.ok a, store)) :
    ∃ s', ServingFrom store s' ∧ Client.call r s = .ok a s' := by
  obtain ⟨hserving, rfl⟩ := hs
  obtain ⟨s', hserving', hstore, hcall⟩ := servingInvariant_serving.call hserving r
  rw [hread] at hstore hcall
  exact ⟨s', ⟨hserving', hstore⟩, hcall⟩

/-- A change that the store accepts is made. -/
theorem Serving.change {s : Pool × Cluster} (hs : Serving s) {r : Rpc Unit}
    {operation : Store.Operation}
    (hr : Store.change? r = some operation) (haccepted : s.2.store.answer operation = .ok ()) :
    ∃ s', Serving s' ∧ s'.2.store = s.2.store.apply operation ∧ Client.call r s = .ok () s' := by
  obtain ⟨s', hs', hstore, hcall⟩ := servingInvariant_serving.call hs r
  obtain ⟨a, ha⟩ := (Store.serve_ok_iff hr).2 haccepted
  rw [Store.serve_snd, hr] at hstore
  rw [ha] at hcall
  exact ⟨s', hs', hstore, hcall⟩

/-- A change that was made was accepted by the store. -/
theorem Serving.of_change {s s' : Pool × Cluster} (hs : Serving s) {r : Rpc Unit}
    {operation : Store.Operation} (hr : Store.change? r = some operation)
    (hcall : Client.call r s = .ok () s') :
    s.2.store.answer operation = .ok () ∧ Serving s' ∧
      s'.2.store = s.2.store.apply operation := by
  -- What the store answers is passed on.
  obtain ⟨s₁, hs₁, hstore, hcall₁⟩ := servingInvariant_serving.call hs r
  rw [hcall] at hcall₁
  rw [Store.serve_snd, hr] at hstore
  cases hanswer : (s.2.store.serve r).1 with
  | ok a =>
    rw [hanswer] at hcall₁
    cases hcall₁
    exact ⟨(Store.serve_ok_iff hr).1 ⟨_, hanswer⟩, hs₁, hstore⟩
  | error e =>
    rw [hanswer] at hcall₁
    cases hcall₁

/-! ## Healthy pools -/

/-- Nothing stands between a pool and the store. The free sessions and those that are `held` are
open, their servers are up, no failure waits, and a session is free or there is room for one. -/
structure Healthy (held : List Link) (p : Pool) (c : Cluster) : Prop where
  isOpen : p.isClosed = false
  attempts : 0 < p.config.maxRetries
  servers : p.config.servers ≠ []
  up : ∀ server ∈ p.config.servers, server ∉ c.down
  faultless : c.faults = []
  login : c.checkLogin p.config.login = .ok ()
  bounded : p.live ≤ p.capacity
  counted : p.free.length + held.length ≤ p.live
  sessions : ∀ link ∈ p.free ++ held,
    c.sessions[link.session]? = some ⟨link.server, true⟩ ∧ link.server ∉ c.down
  distinct : ((p.free ++ held).map fun link => link.session).Nodup
  room : held ≠ [] ∨ p.free ≠ [] ∨ p.live < p.capacity

private theorem Cluster.takeFault_of_faultless {c : Cluster} (h : c.faults = [])
    (operation : String) :
    c.takeFault operation = (none, c) := by
  rw [takeFault, h]
  rfl

/-- A call in a session that is open reaches the store if its server is up and no failure waits. -/
theorem Cluster.perform_eq {c : Cluster} {id : SessionId} {server : String}
    (hsession : c.sessions[id]? = some ⟨server, true⟩) (hup : server ∉ c.down)
    (hfaults : c.faults = []) (r : Rpc α) :
    c.perform id r =
      ((c.store.serve r).1, { c.record r.operation with store := (c.store.serve r).2 }) := by
  have henter : c.enter id r.operation = (.ok (), c.record r.operation) := by
    have hfaults' : (c.record r.operation).faults = [] := hfaults
    have hfaultless := takeFault_of_faultless hfaults' r.operation
    simp only [enter, hfaultless]
    simp [record, hsession, hup]
  rw [perform, henter]
  exact serve_eq r _

/-- A server that is up opens a session for a login that is right, if no failure waits. -/
theorem Cluster.connect_eq {c : Cluster} {server : String} {login : Login} (hup : server ∉ c.down)
    (hfaults : c.faults = []) (hlogin : c.checkLogin login = .ok ()) :
    connect server login c = (.ok c.sessions.length,
      { c.record connectOperation with sessions := c.sessions ++ [⟨server, true⟩] }) := by
  have hfaults' : (c.record connectOperation).faults = [] := hfaults
  have hfaultless := takeFault_of_faultless hfaults' connectOperation
  have hlogin' : (c.record connectOperation).checkLogin login = .ok () := hlogin
  simp only [connect, hfaultless, hlogin']
  simp [record, hup]

variable {p : Pool} {c : Cluster} {link : Link}

/-- A slot is filled by a new session with the next server of the rotation. -/
theorem Pool.openSlot_eq (hservers : p.config.servers ≠ [])
    (hup : ∀ server ∈ p.config.servers, server ∉ c.down) (hfaults : c.faults = [])
    (hlogin : c.checkLogin p.config.login = .ok ()) :
    p.openSlot c = (.ok ⟨c.sessions.length, p.nextServer.1, 0⟩,
      { p.nextServer.2 with live := p.live + 1 }.created,
      { c.record Cluster.connectOperation with
        sessions := c.sessions ++ [⟨p.nextServer.1, true⟩] }) := by
  have hlink := openLink_of_ok (p := { p with live := p.live + 1 }) (w := c) hservers rfl
    (Cluster.connect_eq (hup _ (nextServer_mem hservers)) hfaults hlogin)
  rw [openSlot, hlink]
  rfl

/-- A healthy pool hands out a session, which is then held. -/
theorem Healthy.acquire (h : Healthy [] p c) :
    ∃ link p' c', p.acquire c = (.ok link, p', c') ∧ Healthy [link] p' c' ∧
      p'.config = p.config ∧ c'.store = c.store := by
  have hsessions := h.sessions
  have hdistinct := h.distinct
  have hcounted := h.counted
  rw [List.append_nil] at hsessions hdistinct
  have hopen : ¬p.isClosed = true := by rw [h.isOpen]; nofun
  rw [Pool.acquire, if_neg hopen]
  -- The session is a free one, or a new one if there is none; then there is room for it.
  cases hfree : p.free with
  | cons link rest =>
    rw [hfree] at hsessions hdistinct hcounted
    have hperm : (rest ++ [link]).Perm (link :: rest) := List.perm_append_singleton link rest
    refine ⟨link, _, c, rfl, ?_, rfl, rfl⟩
    exact { h with
      counted := hcounted
      sessions := fun link hlink => hsessions link (hperm.mem_iff.1 hlink)
      distinct := (hperm.map _).nodup_iff.2 hdistinct
      room := .inl (List.cons_ne_nil _ _) }
  | nil =>
    have hroom : p.live < p.capacity := by
      rcases h.room with hheld | hfree' | hroom
      · exact absurd rfl hheld
      · exact absurd hfree hfree'
      · exact hroom
    simp only [if_pos hroom, Pool.openSlot_eq h.servers h.up h.faultless h.login]
    refine ⟨_, _, _, rfl, ?_, rfl, rfl⟩
    exact { h with
      bounded := hroom
      counted := by
        show p.free.length + 1 ≤ p.live + 1
        rw [hfree]
        exact Nat.le_add_left 1 p.live
      sessions := fun link hlink => by
        have hlink' : link ∈ p.free ++ [_] := hlink
        rw [hfree, List.nil_append, List.mem_singleton] at hlink'
        subst hlink'
        exact ⟨List.getElem?_concat_length, h.up _ (Pool.nextServer_mem h.servers)⟩
      distinct := by
        show ((p.free ++ [_]).map _).Nodup
        rw [hfree]
        exact List.pairwise_singleton _ _
      room := .inl (List.cons_ne_nil _ _) }

/-- A call in a session that is held is answered by the store. -/
theorem Healthy.perform (h : Healthy [link] p c) (r : Rpc α) :
    ∃ c', Cluster.perform link.session r c = ((c.store.serve r).1, c') ∧ Healthy [link] p c' ∧
      c'.store = (c.store.serve r).2 := by
  obtain ⟨hsession, hup⟩ := h.sessions link (List.mem_append_right _ List.mem_cons_self)
  refine ⟨_, Cluster.perform_eq hsession hup h.faultless r, ?_, rfl⟩
  refine { h with login := ?_ }
  have hlogin := h.login
  simp only [Cluster.checkLogin, Cluster.record, Store.keyspace_serve] at hlogin ⊢
  exact hlogin

/-- A session that is given back is free again or makes room for another one. -/
theorem Healthy.release (h : Healthy [link] p c) :
    Healthy [] (p.release link c).1 (p.release link c).2 ∧
    (p.release link c).2.store = c.store := by
  have hsessions := h.sessions
  have hdistinct := h.distinct
  have hcounted := h.counted
  have hbounded := h.bounded
  rw [List.length_singleton] at hcounted
  have hrelease := Pool.releasing link p c
  generalize p.release link c = released at hrelease
  obtain ⟨p', c'⟩ := released
  cases hrelease with
  | shut hclosed =>
    rw [h.isOpen] at hclosed
    cases hclosed
  | recycled =>
    refine ⟨?_, rfl⟩
    rw [List.map_append, List.nodup_append] at hdistinct
    exact { h with
      bounded := Nat.le_trans (Nat.sub_le p.live 1) hbounded
      counted := Nat.le_sub_of_add_le hcounted
      sessions := fun link' hlink => by
        have hfree : link' ∈ p.free := by
          rw [← List.append_nil p.free]
          exact hlink
        obtain ⟨hsession, hup⟩ := hsessions link' (List.mem_append_left _ hfree)
        -- the session that is closed is not one of the free ones
        have hother : link.session ≠ link'.session := fun h =>
          hdistinct.2.2 _ (List.mem_map_of_mem hfree) _ (List.mem_singleton.2 rfl) h.symm
        refine ⟨?_, hup⟩
        show (c.sessions.modify link.session _)[link'.session]? = _
        simp only [List.getElem?_modify, if_neg hother, hsession]
        rfl
      distinct := by
        show ((p.free ++ []).map _).Nodup
        rw [List.append_nil]
        exact hdistinct.1
      room := .inr (.inr (by
        show p.live - 1 < p.capacity
        omega)) }
  | kept =>
    refine ⟨?_, rfl⟩
    exact { h with
      counted := by
        show (p.free ++ [_]).length + 0 ≤ p.live
        rw [List.length_append]
        exact hcounted
      sessions := fun link' hlink => by
        have hmem : link' ∈ p.free ++ [{ link with uses := link.uses + 1 }] := by simpa using hlink
        rcases List.mem_append.1 hmem with hfree | hback
        · exact hsessions link' (List.mem_append_left _ hfree)
        · rw [List.mem_singleton] at hback
          subst hback
          exact hsessions link (List.mem_append_right _ (List.mem_singleton.2 rfl))
      distinct := by simpa using hdistinct
      room := .inr (.inl (List.concat_ne_nil _ _)) }

private theorem servingInvariant_healthy : ServingInvariant fun s => Healthy [] s.1 s.2 where
  call := by
    rintro ⟨p, c⟩ h α r
    -- The first attempt is lent a session, and the store answers it.
    obtain ⟨link, p₁, c₁, hacquire, hheld, hconfig, hstore⟩ := h.acquire
    obtain ⟨c₂, hperform, hheld₂, hserved⟩ := hheld.perform r
    obtain ⟨hfree, hkept⟩ := hheld₂.release
    obtain ⟨attempts, hattempts⟩ : ∃ attempts, p.config.maxRetries = attempts + 1 :=
      Nat.exists_eq_add_one.2 h.attempts
    refine ⟨p₁.release link c₂, hfree, by rw [hkept, hserved, hstore], ?_⟩
    rw [hstore] at hperform
    have hperform' : Network.perform link.session r c₁ = ((c.store.serve r).1, c₂) := hperform
    simp only [Client.call, Pool.call, hattempts, Pool.callWithin, hacquire, hperform']
    cases hanswer : (c.store.serve r).1 with
    | ok a => rfl
    | error e =>
      simp only [Store.isTransient_of_serve hanswer, Bool.false_eq_true, if_false]
      rfl

/-- A new pool with valid settings is healthy if its servers are up and its login is right. -/
theorem Healthy.of_config {config : PoolConfig} (hvalid : config.validate = .ok ())
    (hup : ∀ server ∈ config.servers, server ∉ c.down) (hfaults : c.faults = [])
    (hlogin : c.checkLogin config.login = .ok ()) : Healthy [] (.ofConfig config) c := by
  -- A valid configuration has servers, room for sessions and attempts to make.
  simp only [PoolConfig.validate, invalid] at hvalid
  split at hvalid
  · cases hvalid
  split at hvalid
  · cases hvalid
  next hservers =>
  split at hvalid
  · cases hvalid
  next hsize =>
  split at hvalid
  · cases hvalid
  next hretries =>
  exact {
    isOpen := rfl
    attempts := Nat.pos_of_ne_zero hretries
    servers := fun h => hservers (List.isEmpty_iff.2 h)
    up := hup
    faultless := hfaults
    login := hlogin
    bounded := Nat.zero_le _
    counted := Nat.le_refl 0
    sessions := nofun
    distinct := List.Pairwise.nil
    room := .inr (.inr (Nat.pos_of_ne_zero hsize)) }

/-- A healthy pool serves. -/
theorem Healthy.serving (h : Healthy [] p c) : Serving (p, c) :=
  ⟨_, servingInvariant_healthy, h⟩

/-- A new pool with default settings in front of the empty tables of a keyspace. -/
def served (keyspace : KeyspaceDef) : Pool × Cluster :=
  (.ofConfig { PoolConfig.default with keyspace := keyspace.name }, .ofKeyspace .standard keyspace)

/-- A new pool in front of the tables that operations have left. -/
def servedRun (keyspace : KeyspaceDef) (operations : List Store.Operation) : Pool × Cluster :=
  ((served keyspace).1,
    { (served keyspace).2 with store := (Store.ofKeyspace .standard keyspace).run operations })

theorem serving_servedRun {keyspace : KeyspaceDef} (hname : keyspace.name.isEmpty = false)
    (operations : List Store.Operation) : Serving (servedRun keyspace operations) := by
  refine (Healthy.of_config ?_ ?_ rfl ?_).serving
  · simp only [PoolConfig.validate, hname]
    rfl
  · exact fun _ _ => List.not_mem_nil
  · -- The operations have not changed the name of the keyspace.
    simp only [Cluster.checkLogin, Store.keyspace_run, Store.ofKeyspace, PoolConfig.login,
      bne_self_eq_false]
    rfl

theorem serving_served {keyspace : KeyspaceDef} (hname : keyspace.name.isEmpty = false) :
    Serving (served keyspace) :=
  serving_servedRun hname []

end Serving

end WideColumn
