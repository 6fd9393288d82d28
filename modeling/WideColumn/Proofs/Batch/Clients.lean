import WideColumn.Proofs.Batch
import WideColumn.Proofs.Handle.SingleWrite

/-!
# Clients at work

The clients of a cluster write through handles, fill batches and send them, one step after the
other. Any of these steps may fail, and between them anything may happen to pools, sessions and
servers. What the store comes to is made by handles all the same.

- `Client.Keeps`: programs that keep a property of the store, whether they answer or fail;
- `Clients`, `Clients.Action` and `Clients.run`: the steps of clients with all their batches;
- `Clients.Sound`: the store was made by handles, and all that waits in batches was collected from
  handles;
- `Clients.Sound.step`, `Clients.sound_run`: every step keeps that, and so does a run.
-/

namespace WideColumn

/-! ## Programs and the store -/

/-- The state that a program leaves, whether it answers or fails. -/
def Client.after {ω α : Type} (program : Client ω α) (s : Pool × ω) : Pool × ω :=
  match program s with
  | .ok _ s' => s'
  | .error _ s' => s'

/-- A program keeps a property of the store, whether it answers or fails. -/
def Client.Keeps {α : Type} (P : Store → Prop) (program : Client Cluster α) : Prop :=
  ∀ s : Pool × Cluster, P s.2.store → P (program.after s).2.store

namespace Client.Keeps

variable {α β : Type} {P : Store → Prop}

theorem pure (a : α) : Keeps P (Pure.pure a : Client Cluster α) := fun _ hs => hs

/-- What is computed beforehand may fail, and then nothing is changed. -/
theorem ofExcept_bind {x : Except ClientError α} {f : α → Client Cluster β}
    (h : ∀ a, x = .ok a → Keeps P (f a)) : Keeps P (Client.ofExcept x >>= f) := by
  intro s hs
  cases x with
  | error e => exact hs
  | ok a => exact h a rfl s hs

/-- A call keeps what the change that it asks for keeps. -/
theorem call {r : Rpc α} {operation : Store.Operation} (hr : Store.change? r = some operation)
    (h : ∀ store, P store → P (store.apply operation)) : Keeps P (Client.call r) := by
  intro s hs
  -- A request that is served changes the store by its operation, or not at all.
  have hserved : P (s.2.store.serve r).2 := by
    rw [Store.serve_snd, hr]
    exact h _ hs
  have hstore := Client.store_of_call r s
  rw [Client.after]
  cases hcall : Client.call r s with
  | ok a s' =>
    rw [hcall] at hstore
    exact hstore.2.symm ▸ hserved
  | error e s' =>
    rw [hcall] at hstore
    -- A call that fails may have reached the store, or it may not.
    rcases hstore with hkept | ⟨-, hstore⟩
    · exact hkept.symm ▸ hs
    · exact hstore.symm ▸ hserved

end Client.Keeps

/-! ## Writes of handles -/

section Writes

variable {registry : Registry} {keyspace : KeyspaceDef} {h : Handle} {m m' : MutationMap}

/-- Sending what handles ask for leads from one store that handles made to another. -/
theorem keeps_call {α : Type} {r : Rpc α} {operation : Store.Operation}
    (hr : Store.change? r = some operation) (hsent : Sent operation) :
    Client.Keeps (Reached registry keyspace) (Client.call r) :=
  .call hr fun _ hreached => hreached.apply hsent

/-- An insertion adds to what handles have collected. -/
theorem Collected.insertMap {key : Value} {columns : NewColumns} {o : WriteOptions}
    (hm : Collected m) (hinsert : h.insertMap key columns o m = .ok m') : Collected m' := by
  obtain ⟨packed, hkey, mutations, hmutations, rfl⟩ := Handle.insertMap_eq_ok.1 hinsert
  exact hm.extend (Change.request_insert hkey hmutations)

private theorem Collected.foldlM_insertMap {rows : List (Value × NewColumns)} {o : WriteOptions} :
    ∀ {m : MutationMap}, Collected m →
      rows.foldlM (fun m (row : Value × NewColumns) => h.insertMap row.1 row.2 o m) m = .ok m' →
      Collected m' := by
  -- By induction on the rows: each adds to what was collected so far.
  induction rows with
  | nil =>
    intro m hm hfold
    cases hfold
    exact hm
  | cons row rows ih =>
    intro m hm hfold
    rw [List.foldlM_cons, bind_eq_ok] at hfold
    obtain ⟨m₁, hfirst, hrest⟩ := hfold
    exact ih (hm.insertMap hfirst) hrest

private theorem keeps_insertAll (rows : List (Value × NewColumns)) (o : WriteOptions) :
    Client.Keeps (Reached registry keyspace) (h.insertAll rows o) := by
  refine .ofExcept_bind fun m hm => ?_
  split
  · exact keeps_call rfl (Collected.empty.foldlM_insertMap hm)
  · exact .pure ()

private theorem keeps_removeCounter (key column : Value) (superColumn : Option Value) :
    Client.Keeps (Reached registry keyspace) (h.removeCounter key column superColumn) :=
  .ofExcept_bind fun _ _ => .ofExcept_bind fun _ _ => .ofExcept_bind fun _ _ =>
    .ofExcept_bind fun _ _ => keeps_call rfl trivial

private theorem keeps_truncate : Client.Keeps (Reached registry keyspace) h.truncate :=
  keeps_call rfl trivial

private theorem Change.keeps_perform (c : Change) :
    Client.Keeps (Reached registry keyspace) c.perform := by
  cases c with
  | insert h key columns o =>
    exact .ofExcept_bind fun m hm => keeps_call rfl (Collected.empty.insertMap hm)
  | remove h key names superColumn o =>
    refine .ofExcept_bind fun _ _ => .ofExcept_bind fun packed hkey =>
      .ofExcept_bind fun path _ => ?_
    -- The deletion goes along a path if it has one, and otherwise in a batch of its own.
    cases path with
    | some path => exact keeps_call rfl trivial
    | none =>
      refine .ofExcept_bind fun deletion hdeletion => keeps_call rfl ?_
      exact Collected.empty.extend (Change.request_remove hkey hdeletion)
  | add h key column amount superColumn =>
    exact .ofExcept_bind fun _ _ => .ofExcept_bind fun _ _ => .ofExcept_bind fun _ _ =>
      .ofExcept_bind fun _ _ => keeps_call rfl trivial

end Writes

/-! ## Batches -/

/-- What waits in a batch was collected from handles, and the store was made by them. -/
def Batch.Sound (registry : Registry) (keyspace : KeyspaceDef) (b : Batch) (s : Pool × Cluster) :
    Prop :=
  Collected b.pending ∧ Reached registry keyspace s.2.store

section Batches

variable {registry : Registry} {keyspace : KeyspaceDef} {b : Batch} {s : Pool × Cluster}

/-- A batch is empty after it was sent, and it changed the store by what was collected or not at
all. -/
theorem Batch.Sound.send (h : b.Sound registry keyspace s) :
    (b.send s).2.1.Sound registry keyspace (b.send s).2.2 := by
  obtain ⟨hcollected, hreached⟩ := h
  rw [Batch.send]
  split
  · exact ⟨hcollected, hreached⟩
  · -- what was collected is sent, and whatever the answer is, the batch is empty
    have hsent : Sent (.batch b.pending) := hcollected
    have hreached' : Reached registry keyspace
        (Client.after (Client.call (.batchMutate b.pending b.level)) s).2.store :=
      keeps_call rfl hsent s hreached
    rw [Client.after] at hreached'
    dsimp only [MutationMap.take]
    cases hcall : Client.call (.batchMutate b.pending b.level) s with
    | ok a s' =>
      rw [hcall] at hreached'
      exact ⟨.empty, hreached'⟩
    | error e s' =>
      rw [hcall] at hreached'
      exact ⟨.empty, hreached'⟩

/-- A batch goes on with a write that was collected, which may make it send itself. -/
theorem Batch.Sound.collect (h : b.Sound registry keyspace s) {queued : Except ClientError Batch}
    (hqueued : ∀ b', queued = .ok b' → Collected b'.pending) :
    (b.collect queued s).2.1.Sound registry keyspace (b.collect queued s).2.2 := by
  cases queued with
  | error e => exact h
  | ok b' =>
    have hb' : b'.Sound registry keyspace s := ⟨hqueued b' rfl, h.2⟩
    rw [Batch.collect, Batch.sendIfFull]
    split
    · exact hb'.send
    · exact hb'

/-- A batch that a change is added to is refused the change or collects it. -/
theorem Batch.Sound.queue (h : b.Sound registry keyspace s) (c : Change) :
    (c.queue b s).2.1.Sound registry keyspace (c.queue b s).2.2 := by
  -- Each change adds mutations that its handle has packed, for one row.
  cases c with
  | insert handle key columns o =>
    refine h.collect fun b' hb' => ?_
    simp only [Batch.queueInsert, bind_eq_ok, pure_eq_ok] at hb'
    obtain ⟨m, hm, rfl⟩ := hb'
    exact h.1.insertMap hm
  | remove handle key names superColumn o =>
    refine h.collect fun b' hb' => ?_
    simp only [Batch.queueRemove, bind_eq_ok, pure_eq_ok] at hb'
    obtain ⟨packed, hkey, deletion, hdeletion, rfl⟩ := hb'
    exact h.1.extend (Change.request_remove hkey hdeletion)
  | add handle key column amount superColumn =>
    refine h.collect fun b' hb' => ?_
    simp only [Batch.queueAdd, bind_eq_ok, pure_eq_ok] at hb'
    obtain ⟨packed, hkey, mutation, hmutation, rfl⟩ := hb'
    exact h.1.extend (Change.request_add hkey hmutation)

end Batches

/-! ## Runs -/

/-- The batches that clients are filling, and the pool and the cluster that they work with. -/
structure Clients where
  batches : List Batch
  servers : Pool × Cluster

namespace Clients

/-- A step of the clients. Batches are named by their places in the list of them; a place that
nothing is at stands for no change. -/
inductive Action where
  /-- An insertion, a removal or an addition that is made at once. -/
  | perform (c : Change)
  /-- An insertion into several rows. -/
  | insertAll (h : Handle) (rows : List (Value × NewColumns)) (o : WriteOptions)
  | removeCounter (h : Handle) (key column : Value) (superColumn : Option Value)
  | truncate (h : Handle)
  | openBatch (level : Consistency) (limit : Option Nat)
  /-- Adds an insertion, a removal or an addition to a batch, which sends itself if it gets full. -/
  | queue (place : Nat) (c : Change)
  | send (place : Nat)
  /-- Anything that does not write: clients read, sessions are opened and closed, failures are
  staged, servers go down or come up, or another pool is used. -/
  | turn (p : Pool) (c : Cluster)

/-- Nothing was written yet. -/
def start (registry : Registry) (keyspace : KeyspaceDef) (config : PoolConfig) : Clients where
  batches := []
  servers := (.ofConfig config, .ofKeyspace registry keyspace)

/-- The clients after a program that writes through a handle. -/
def write (c : Clients) (program : Client Cluster Unit) : Clients :=
  { c with servers := program.after c.servers }

/-- The clients after something was done with a batch. -/
def work (c : Clients) (place : Nat)
    (program : Batch → Pool × Cluster → Except ClientError Unit × Batch × (Pool × Cluster)) :
    Clients :=
  match c.batches[place]? with
  | none => c
  | some b =>
    let (_, b, servers) := program b c.servers
    ⟨c.batches.set place b, servers⟩

/-- The clients after a step, whether it succeeded or failed. -/
def step (c : Clients) : Action → Clients
  | .perform change => c.write change.perform
  | .insertAll h rows o => c.write (h.insertAll rows o)
  | .removeCounter h key column superColumn => c.write (h.removeCounter key column superColumn)
  | .truncate h => c.write h.truncate
  | .openBatch level limit => { c with batches := .empty level limit :: c.batches }
  | .queue place change => c.work place fun b => change.queue b
  | .send place => c.work place Batch.send
  | .turn p cluster => { c with servers := (p, { cluster with store := c.servers.2.store }) }

/-- The clients after a sequence of steps. -/
def run (c : Clients) (actions : List Action) : Clients := actions.foldl step c

/-- What waits in the batches was collected from handles, and the store was made by them. -/
structure Sound (registry : Registry) (keyspace : KeyspaceDef) (c : Clients) : Prop where
  batches : ∀ b ∈ c.batches, Collected b.pending
  store : Reached registry keyspace c.servers.2.store

section Sound

variable {registry : Registry} {keyspace : KeyspaceDef} {c : Clients}

private theorem sound_start (registry : Registry) (keyspace : KeyspaceDef) (config : PoolConfig) :
    (start registry keyspace config).Sound registry keyspace :=
  ⟨nofun, [], nofun, rfl⟩

theorem Sound.write (h : c.Sound registry keyspace) {program : Client Cluster Unit}
    (hprogram : program.Keeps (Reached registry keyspace)) :
    (c.write program).Sound registry keyspace :=
  ⟨h.batches, hprogram _ h.store⟩

private theorem Sound.work (h : c.Sound registry keyspace) {place : Nat}
    {program : Batch → Pool × Cluster → Except ClientError Unit × Batch × (Pool × Cluster)}
    (hprogram : ∀ {b s}, b.Sound registry keyspace s →
      (program b s).2.1.Sound registry keyspace (program b s).2.2) :
    (c.work place program).Sound registry keyspace := by
  rw [Clients.work]
  cases hb : c.batches[place]? with
  | none => exact h
  | some b =>
    obtain ⟨hcollected, hreached⟩ := hprogram ⟨h.batches b (List.mem_of_getElem? hb), h.store⟩
    refine ⟨fun b' hb' => ?_, hreached⟩
    rcases List.mem_or_eq_of_mem_set hb' with hold | rfl
    · exact h.batches b' hold
    · exact hcollected

/-- Whatever clients do next, handles have made the store and collected what waits in batches. -/
theorem Sound.step (h : c.Sound registry keyspace) (action : Action) :
    (c.step action).Sound registry keyspace := by
  cases action with
  | perform change => exact h.write change.keeps_perform
  | insertAll handle rows o => exact h.write (keeps_insertAll rows o)
  | removeCounter handle key column superColumn =>
    exact h.write (keeps_removeCounter key column superColumn)
  | truncate handle => exact h.write keeps_truncate
  -- A new batch is empty; the other steps work on the store or on one batch that is there already.
  | openBatch level limit =>
    refine ⟨fun b hb => ?_, h.store⟩
    rcases List.mem_cons.1 hb with rfl | hb
    · exact .empty
    · exact h.batches b hb
  | queue place change => exact h.work fun hb => hb.queue change
  | send place => exact h.work fun hb => hb.send
  | turn p cluster => exact ⟨h.batches, h.store⟩

theorem sound_run (registry : Registry) (keyspace : KeyspaceDef) (config : PoolConfig)
    (actions : List Action) :
    ((start registry keyspace config).run actions).Sound registry keyspace := by
  have hrun : ∀ {c : Clients}, c.Sound registry keyspace →
      (c.run actions).Sound registry keyspace := by
    induction actions with
    | nil => exact fun h => h
    | cons action actions ih => exact fun h => ih (h.step action)
  exact hrun (sound_start registry keyspace config)

end Sound

end Clients

end WideColumn
