import WideColumn.Handle.Write
import WideColumn.Proofs.Cluster
import WideColumn.Proofs.Pool.Attempts
import WideColumn.Proofs.Pool.Client

/-!
# Single writes under failures

A counter addition, the removal of a row, a super column, a column or a counter, and a truncation
are one change of the store. Whatever fails on the way, such a write is made once if it is answered
and not at all otherwise, for a call that fails transiently has not reached the store.

- `Pool.store_of_calling`: a call fails without touching the store, or the store answers it once;
- `Client.store_of_call`: so a call answers what the store does;
- `Once`: programs that make one change or none, put together from steps;
- `singleWrite_once`: single writes are such programs.
-/

namespace WideColumn

/-! ## Calls and the store -/

/-- Opening and closing sessions does not touch the store. -/
theorem Cluster.unmoved_store (store : Store) :
    Pool.Unmoved fun c : Cluster => c.store = store where
  closing h := h
  connect {c} server login h := by
    obtain ⟨faults, sessions, -, hconnect⟩ := exists_connect server login c
    have hkept : (connect server login c).2.store = c.store := by rw [hconnect]; rfl
    exact hkept.trans h
  close _ h := h

/-- A call fails without touching the store, or the store answers it. -/
theorem Cluster.store_of_perform {α : Type} {id : SessionId} {r : Rpc α} {c c' : Cluster}
    {answer : Except RpcError α} (h : Network.perform id r c = (answer, c')) :
    (c'.store = c.store ∧ ∃ e, answer = .error e) ∨
      (answer = (c.store.serve r).1 ∧ c'.store = (c.store.serve r).2) := by
  have hperform : c.perform id r = (answer, c') := h
  obtain ⟨faults, -, ⟨e, hfailed⟩ | hserved⟩ := perform_cases id r c
  · rw [hfailed] at hperform
    cases hperform
    exact .inl ⟨rfl, e, rfl⟩
  · rw [hserved] at hperform
    cases hperform
    exact .inr ⟨rfl, rfl⟩

namespace Pool

variable {α : Type} {r : Rpc α} {p p' : Pool} {c c' : Cluster}
  {tried : List (SessionId × Except RpcError α)}

/-- Attempts that fail transiently do not touch the store. -/
theorem store_of_trying (h : Trying r p c tried p' c')
    (hretried : ∀ t ∈ tried, isRetried t.2 = true) : c'.store = c.store := by
  -- By induction on the attempts: what made the pool try again was no answer of the store.
  induction h with
  | start => rfl
  | @attempt tried p₁ p₂ c₁ c₂ c₃ link outcome _ hbefore hacquire hperform ih =>
    have hacquired : c₂.store = c.store :=
      (Cluster.unmoved_store c.store).acquire (ih hbefore) hacquire
    refine (Cluster.unmoved_store c.store).settle link outcome p₂ ?_
    rcases Cluster.store_of_perform hperform with ⟨hkept, -⟩ | ⟨hserved, -⟩
    · exact hkept.trans hacquired
    · -- What the store answers is never a transient failure.
      have hlatest : isRetried outcome = true := hretried _ List.mem_cons_self
      cases outcome with
      | ok a => cases hlatest
      | error e =>
        have hnever : e.isTransient = false := Store.isTransient_of_serve hserved.symm
        rw [isRetried, hnever] at hlatest
        cases hlatest

/-- A call fails without touching the store, or the store answers it once. -/
theorem store_of_calling {operation : String} {answer : Except ClientError α}
    (h : Calling operation r p c tried answer p' c') :
    (c'.store = c.store ∧ ∃ e, answer = .error e) ∨
      (answer = (c.store.serve r).1.mapError .ofRpc ∧ c'.store = (c.store.serve r).2) := by
  -- Only the attempt that concludes the call may have been served.
  cases h with
  | exhausted h hretried => exact .inl ⟨store_of_trying h hretried, _, rfl⟩
  | refused h hretried _ hacquire =>
    exact .inl
      ⟨(Cluster.unmoved_store c.store).acquire (store_of_trying h hretried) hacquire, _, rfl⟩
  | @concluded before _ outcome _ _ h hfinal =>
    cases h with
    | @attempt _ p₁ p₂ c₁ c₂ c₃ link _ h hbefore hacquire hperform =>
      have hacquired : c₂.store = c.store :=
        (Cluster.unmoved_store c.store).acquire (store_of_trying h hbefore) hacquire
      have hsettled : (settle link outcome p₂ c₃).2.store = c₃.store :=
        (Cluster.unmoved_store c₃.store).settle link outcome p₂ rfl
      rw [hsettled]
      rcases Cluster.store_of_perform hperform with ⟨hkept, e, rfl⟩ | ⟨hserved, hstore⟩
      · exact .inl ⟨hkept.trans hacquired, _, rfl⟩
      · rw [hacquired] at hserved hstore
        exact .inr ⟨by rw [hserved], hstore⟩

end Pool

/-- What a call answers is the answer of the store, and if it fails, the store has refused it or was
not touched. -/
theorem Client.store_of_call {α : Type} (r : Rpc α) (s : Pool × Cluster) :
    match Client.call r s with
    | .ok a s' => (s.2.store.serve r).1 = .ok a ∧ s'.2.store = (s.2.store.serve r).2
    | .error _ s' => s'.2.store = s.2.store ∨
        (∃ e, (s.2.store.serve r).1 = .error e) ∧ s'.2.store = (s.2.store.serve r).2 := by
  obtain ⟨p, c⟩ := s
  cases hcall : p.call r.operation r c with
  | mk answer rest =>
    obtain ⟨p', c'⟩ := rest
    obtain ⟨tried, hcalling⟩ := Pool.calling hcall
    have hstore := Pool.store_of_calling hcalling
    simp only [Client.call, hcall]
    -- A call gives the answer of the store, unless it fails on the way.
    cases hserved : (c.store.serve r).1 with
    | ok b =>
      rw [hserved] at hstore
      rcases hstore with ⟨hkept, e, rfl⟩ | ⟨rfl, hstore⟩
      · exact .inl hkept
      · exact ⟨rfl, hstore⟩
    | error e =>
      rw [hserved] at hstore
      rcases hstore with ⟨hkept, e', rfl⟩ | ⟨rfl, hstore⟩
      · exact .inl hkept
      · exact .inr ⟨⟨e, rfl⟩, hstore⟩

/-! ## One change or none -/

/-- A change that is not a batch leaves the store as it is if it is refused. -/
theorem Store.apply_of_refused {s : Store} {operation : Operation} {refusal : Refusal}
    (hsingle : ∀ m, operation ≠ .batch m) (h : s.answer operation = .error refusal) :
    s.apply operation = s := by
  cases operation with
  | batch m => exact absurd rfl (hsingle m)
  | add => exact afterAll_of_error h
  | remove => exact afterAll_of_error h
  | truncate => exact afterAll_of_error h

/-- Programs that make one change of these to the store, which accepts it, if they are answered, and
none if they fail. -/
def Once (asks : Store.Operation → Prop) (program : Client Cluster Unit) : Prop :=
  ∀ s : Pool × Cluster,
    match program s with
    | .ok () s' => ∃ operation, asks operation ∧ s.2.store.answer operation = .ok () ∧
        s'.2.store = s.2.store.apply operation
    | .error _ s' => s'.2.store = s.2.store

namespace Once

variable {α : Type} {asks : Store.Operation → Prop}

/-- What is computed beforehand may fail, and then nothing is changed. -/
theorem ofExcept_bind {x : Except ClientError α} {f : α → Client Cluster Unit}
    (h : ∀ a, x = .ok a → Once asks (f a)) : Once asks (Client.ofExcept x >>= f) := by
  intro s
  cases x with
  | error e => exact rfl
  | ok a => exact h a rfl s

/-- A call for a single change makes it once or not at all. -/
theorem call {r : Rpc Unit} {operation : Store.Operation} (hr : Store.change? r = some operation)
    (hsingle : ∀ m, operation ≠ .batch m) (hasks : asks operation) :
    Once asks (Client.call r) := by
  intro s
  -- the store makes the change or leaves everything, and the pool calls it at most once
  have hserved : (s.2.store.serve r).2 = s.2.store.apply operation := by rw [Store.serve_snd, hr]
  have hstore := Client.store_of_call r s
  rw [hserved] at hstore
  cases hcall : Client.call r s with
  | ok a s' =>
    rw [hcall] at hstore
    obtain ⟨hanswer, hstore⟩ := hstore
    exact ⟨operation, hasks, (Store.serve_ok_iff hr).1 ⟨a, hanswer⟩, hstore⟩
  | error e s' =>
    rw [hcall] at hstore
    rcases hstore with hkept | ⟨⟨e, he⟩, hstore⟩
    · exact hkept
    · -- The store refused the change, so it is as before.
      cases hrefused : s.2.store.answer operation with
      | error refusal => exact hstore.trans (Store.apply_of_refused hsingle hrefused)
      | ok =>
        obtain ⟨b, hb⟩ := (Store.serve_ok_iff hr).2 hrefused
        rw [hb] at he
        cases he

end Once

/-! ## Single writes -/

/-- The writes of a handle that are one change of the store. -/
inductive SingleWrite where
  | add (key column : Value) (amount : Int64) (superColumn : Option Value)
  /-- The removal of one column, or without a name of a whole row or super column. -/
  | remove (key : Value) (name superColumn : Option Value) (o : WriteOptions)
  | removeCounter (key column : Value) (superColumn : Option Value)
  | truncate

namespace SingleWrite

/-- Makes a write through a handle. -/
def run {ω : Type} [Network ω] (h : Handle) : SingleWrite → Client ω Unit
  | .add key column amount superColumn => h.add key column amount superColumn
  | .remove key name superColumn o => h.remove key (name.map ([·])) superColumn o
  | .removeCounter key column superColumn => h.removeCounter key column superColumn
  | .truncate => h.truncate

/-- The change of the store that a write asks for: its key and its names are packed. -/
inductive Asks (h : Handle) : SingleWrite → Store.Operation → Prop where
  | add {key column : Value} {superColumn : Option Value} {packed name : Bytes}
      {parent : ColumnParent}
      (amount : Int64) (hkey : h.packKey key = .ok packed)
      (hparent : h.parent superColumn = .ok parent) (hname : h.packLeafName column = .ok name) :
      Asks h (.add key column amount superColumn) (.add packed parent ⟨name, amount⟩)
  | remove {key : Value} {name superColumn : Option Value} {packed : Bytes} {path : ColumnPath}
      (o : WriteOptions) (hkey : h.packKey key = .ok packed)
      (hpath : h.removalPath (name.map ([·])) superColumn = .ok (some path)) :
      Asks h (.remove key name superColumn o) (.remove packed path (some o.timestamp))
  | removeCounter {key column : Value} {superColumn : Option Value} {packed name : Bytes}
      {packedSuper : Option Bytes} (hkey : h.packKey key = .ok packed)
      (hsuper : h.packSuperColumn superColumn = .ok packedSuper)
      (hname : h.packLeafName column = .ok name) :
      Asks h (.removeCounter key column superColumn)
        (.remove packed ⟨h.name, packedSuper, some name⟩ none)
  | truncate : Asks h .truncate (.truncate h.name)

/-- The removal of one column or of none in particular addresses one place. -/
theorem exists_path {h : Handle} {name superColumn : Option Value} {path : Option ColumnPath}
    (hpath : h.removalPath (name.map ([·])) superColumn = .ok path) : ∃ p, path = some p := by
  cases name with
  | none =>
    simp only [Handle.removalPath, Option.map_none, bind_eq_ok, pure_eq_ok] at hpath
    obtain ⟨packedSuper, -, rfl⟩ := hpath
    exact ⟨_, rfl⟩
  | some name =>
    simp only [Handle.removalPath, Option.map_some, bind_eq_ok] at hpath
    obtain ⟨packed, -, hpath⟩ := hpath
    split at hpath
    · cases hpath
      exact ⟨_, rfl⟩
    · simp only [bind_eq_ok, pure_eq_ok] at hpath
      obtain ⟨packedSuper, -, rfl⟩ := hpath
      exact ⟨_, rfl⟩

end SingleWrite

/-- Whatever the pool and the cluster are like, which servers are down and which failures wait: a
single write that is answered has made its change of the store exactly once, however many attempts
it took, and one that fails has not changed the store. -/
theorem singleWrite_once (h : Handle) (write : SingleWrite) (s : Pool × Cluster) :
    match write.run h s with
    | .ok () s' => ∃ operation, write.Asks h operation ∧ s.2.store.answer operation = .ok () ∧
        s'.2.store = s.2.store.apply operation
    | .error _ s' => s'.2.store = s.2.store := by
  revert s
  show Once (write.Asks h) (write.run h)
  -- Every write packs its arguments and then makes one call.
  cases write with
  | add key column amount superColumn =>
    refine .ofExcept_bind fun _ _ => .ofExcept_bind fun packed hkey =>
      .ofExcept_bind fun parent hparent => .ofExcept_bind fun name hname => ?_
    exact .call rfl nofun (.add amount hkey hparent hname)
  | remove key name superColumn o =>
    refine .ofExcept_bind fun _ _ => .ofExcept_bind fun packed hkey =>
      .ofExcept_bind fun path hpath => ?_
    obtain ⟨path, rfl⟩ := SingleWrite.exists_path hpath
    exact .call rfl nofun (.remove o hkey hpath)
  | removeCounter key column superColumn =>
    refine .ofExcept_bind fun _ _ => .ofExcept_bind fun packed hkey =>
      .ofExcept_bind fun packedSuper hsuper => .ofExcept_bind fun name hname => ?_
    exact .call rfl nofun (.removeCounter hkey hsuper hname)
  | truncate => exact .call rfl nofun .truncate

/-- A table of counters. -/
def visits : TableDef :=
  { TableDef.ofName "web" "visits" with
    comparator := "UTF8Type", validation := "CounterColumnType", keyValidation := "UTF8Type" }

/-- A pool in front of that table, where the next two additions time out. -/
def visitsPool : Pool × Cluster :=
  (.ofConfig { PoolConfig.default with keyspace := "web" },
    (Cluster.ofKeyspace .standard ((KeyspaceDef.ofName "web").withTable visits)).failNext "add" 2
      .timedOut)

/-- The third attempt is the one that counts. -/
example :
    (match SingleWrite.run ⟨.ofDef .standard .default visits, .default⟩
        (.add (.text "a") (.text "x") 5 none) visitsPool with
      | .ok () s => (s.2.callCount "add",
          (s.2.store.slice [97] ⟨"visits", none⟩ (.ofNames [[120]])).toOption)
      | .error _ s => (s.2.callCount "add", none)) =
    (3, some [.counter ⟨[120], 5⟩]) := by
  decide +kernel

end WideColumn
