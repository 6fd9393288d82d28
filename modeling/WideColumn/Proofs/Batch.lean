import WideColumn.Batch
import WideColumn.Proofs.Handle.Insert
import WideColumn.Proofs.Handle.Removal

/-!
# Batches and single changes

Changes that are collected in a batch go to the store in another order and another form than changes
that are made one at a time. What they leave behind is the same.

- `Change`: an insertion, a removal or an addition; it is made at once by `perform` and added to a
  batch by `queue`;
- `Change.request`: the mutations of a change, with their row and table;
- `Sent` and `Reached`: what handles send, and the stores that this leads to;
- `done_of_perform`: a change that is made at once is what its mutations are;
- `send_eq_perform`: a batch leaves the store that the single changes leave.
-/

namespace WideColumn

private theorem Handle.Writes.fills {h : Handle} {o : WriteOptions} {w : Store.Write}
    (hw : h.Writes o w) :
    w.Fills := by
  cases w with
  | superColumn name columns => exact hw.2.2.1
  | column | increment | delete => trivial

/-- A change that a handle is asked for. -/
inductive Change where
  | insert (h : Handle) (key : Value) (columns : NewColumns) (o : WriteOptions)
  | remove (h : Handle) (key : Value) (names : Option (List Value)) (superColumn : Option Value)
      (o : WriteOptions)
  | add (h : Handle) (key column : Value) (amount : Int64) (superColumn : Option Value)

namespace Change

/-- Makes a change at once. -/
def perform : Change → Client Cluster Unit
  | .insert h key columns o => h.insert key columns o
  | .remove h key names superColumn o => h.remove key names superColumn o
  | .add h key column amount superColumn => h.add key column amount superColumn

/-- Adds a change to a batch. -/
def queue (b : Batch) :
    Change → Pool × Cluster → Except ClientError Unit × Batch × (Pool × Cluster)
  | .insert h key columns o => b.insert h key columns o
  | .remove h key names superColumn o => b.remove h key names superColumn o.timestamp
  | .add h key column amount superColumn => b.add h key column amount superColumn

/-- Adds changes to a batch, up to the first one that is refused. -/
def queueAll : List Change → Batch → Pool × Cluster →
    Except ClientError Unit × Batch × (Pool × Cluster)
  | [], b, s => (.ok (), b, s)
  | c :: changes, b, s =>
    match c.queue b s with
    | (.ok (), b, s) => queueAll changes b s
    | refused => refused

/-- The mutations of a change, with their row and table. -/
def request : Change → Except ClientError (Bytes × String × List Mutation)
  | .insert h key columns o => do
    let packed ← h.packKey key
    return (packed, h.name, ← h.insertMutations columns o)
  | .remove h key names superColumn o => do
    let packed ← h.packKey key
    return (packed, h.name, [← h.deletion names superColumn o.timestamp])
  | .add h key column amount superColumn => do
    let packed ← h.packKey key
    return (packed, h.name, [← h.counterMutation column amount superColumn])

variable {c : Change} {b : Batch} {key : Bytes} {name : String} {mutations : List Mutation}
  {s s' : Pool × Cluster}

section Request

variable {h : Handle} {key : Value} {packed : Bytes} {mutation : Mutation}

theorem request_insert {columns : NewColumns} {o : WriteOptions} (hkey : h.packKey key = .ok packed)
    (hmutations : h.insertMutations columns o = .ok mutations) :
    (insert h key columns o).request = .ok (packed, h.name, mutations) := by
  simp only [request, hkey, hmutations, ok_bind]
  rfl

theorem request_remove {names : Option (List Value)} {superColumn : Option Value} {o : WriteOptions}
    (hkey : h.packKey key = .ok packed)
    (hdeletion : h.deletion names superColumn o.timestamp = .ok mutation) :
    (remove h key names superColumn o).request = .ok (packed, h.name, [mutation]) := by
  simp only [request, hkey, hdeletion, ok_bind]
  rfl

theorem request_add {column : Value} {amount : Int64} {superColumn : Option Value}
    (hkey : h.packKey key = .ok packed)
    (hmutation : h.counterMutation column amount superColumn = .ok mutation) :
    (add h key column amount superColumn).request = .ok (packed, h.name, [mutation]) := by
  simp only [request, hkey, hmutation, ok_bind]
  rfl

end Request

/-! ## Queueing -/

/-- A batch with a change collected, or the reason why the change is refused. -/
def queued (b : Batch) : Change → Except ClientError Batch
  | .insert h key columns o => b.queueInsert h key columns o
  | .remove h key names superColumn o => b.queueRemove h key names superColumn o.timestamp
  | .add h key column amount superColumn => b.queueAdd h key column amount superColumn

/-- A batch takes up what a change asks for, and refuses a change that is refused. -/
theorem queued_eq (b : Batch) (c : Change) :
    c.queued b = (fun (key, name, mutations) =>
      { b with pending := b.pending.extend key name mutations }) <$> c.request := by
  -- Both sides pack the key first, so a key that is refused is the same failure on both.
  cases c with
  | insert h key columns o =>
    simp only [queued, request, Batch.queueInsert, Handle.insertMap]
    cases h.packKey key with
    | error e => rfl
    | ok packed => cases h.insertMutations columns o <;> rfl
  | remove h key names superColumn o =>
    simp only [queued, request, Batch.queueRemove]
    cases h.packKey key with
    | error e => rfl
    | ok packed => cases h.deletion names superColumn o.timestamp <;> rfl
  | add h key column amount superColumn =>
    simp only [queued, request, Batch.queueAdd]
    cases h.packKey key with
    | error e => rfl
    | ok packed => cases h.counterMutation column amount superColumn <;> rfl

/-- A batch that never gets full waits with what a change asks for. -/
theorem queue_of_request (hlimit : b.limit = none) (hc : c.request = .ok (key, name, mutations)) :
    c.queue b s = (.ok (), { b with pending := b.pending.extend key name mutations }, s) := by
  have hqueue : c.queue b s = b.collect (c.queued b) s := by cases c <;> rfl
  rw [hqueue, queued_eq, hc]
  show Batch.sendIfFull { b with pending := b.pending.extend key name mutations } s = _
  rw [Batch.sendIfFull, Batch.isFull, hlimit]
  rfl

/-- No change asks for a super column without columns. -/
theorem fills_of_request (hc : c.request = .ok (key, name, mutations)) :
    ∀ w ∈ mutations.flatMap Mutation.writes, w.Fills := by
  intro w hw
  -- Only an insertion could bring no columns; the other changes make one write that needs none.
  cases c with
  | insert h key' columns o =>
    simp only [request, bind_eq_ok, pure_eq_ok] at hc
    obtain ⟨packed, -, mutations, hmutations, heq⟩ := hc
    cases heq
    exact ((Handle.of_insertMutations hmutations).2.writes w hw).fills
  | remove h key' names superColumn o =>
    simp only [request, bind_eq_ok, pure_eq_ok, Handle.deletion_eq_ok] at hc
    obtain ⟨packed, -, _, ⟨predicate, -, superColumn, -, rfl⟩, heq⟩ := hc
    cases heq
    obtain rfl := List.mem_singleton.1 hw
    trivial
  | add h key' column amount superColumn =>
    simp only [request, bind_eq_ok, pure_eq_ok, Handle.counterMutation_eq_ok] at hc
    obtain ⟨packed, -, _, ⟨-, leaf, -, superColumn, -, -, rfl⟩, heq⟩ := hc
    cases heq
    cases superColumn <;> obtain rfl := List.mem_singleton.1 hw <;> trivial

end Change

/-! ## Reachable stores -/

/-- The changes of a batch that handles have filled. -/
inductive Collected : MutationMap → Prop where
  | empty : Collected .empty
  | extend {m : MutationMap} {c : Change} {key : Bytes} {name : String} {mutations : List Mutation}
      (hm : Collected m) (hc : c.request = .ok (key, name, mutations)) :
      Collected (m.extend key name mutations)

/-- What handles send: batches that they have filled, and any other operations. -/
def Sent : Store.Operation → Prop
  | .batch m => Collected m
  | .add .. | .remove .. | .truncate _ => True

/-- A store that handles have made out of the empty one of a keyspace. -/
def Reached (registry : Registry) (keyspace : KeyspaceDef) (s : Store) : Prop :=
  ∃ history, (∀ operation ∈ history, Sent operation) ∧
    s = (Store.ofKeyspace registry keyspace).run history

theorem Collected.holds {m : MutationMap} (hm : Collected m) :
    ∃ writes, m.Holds (fun _ => True) writes ∧ ∀ e ∈ writes, e.2.2.Fills := by
  induction hm with
  | empty => exact ⟨[], MutationMap.holds_empty _, nofun⟩
  | extend hm hc ih =>
    obtain ⟨writes, hholds, hfills⟩ := ih
    refine ⟨_, hholds.extend _ trivial _, fun e he => ?_⟩
    rcases List.mem_append.1 he with he | he
    · exact hfills e he
    · obtain ⟨w, hw, rfl⟩ := List.mem_map.1 he
      exact Change.fills_of_request hc w hw

/-- Handles never send a super column without columns. -/
theorem Sent.fills {operation : Store.Operation} (h : Sent operation) {key : Bytes} {name : String}
    {w : Store.Write} (hw : (key, name, w) ∈ operation.writes) : w.Fills := by
  cases operation with
  | batch m =>
    obtain ⟨writes, hholds, hfills⟩ := Collected.holds h
    have hw : (key, name, w) ∈ Store.batchWrites m := hw
    rw [← Store.mem_writesTo, hholds.writesTo, Store.mem_writesTo] at hw
    exact hfills _ hw
  | add | remove =>
    cases List.mem_singleton.1 hw
    trivial
  | truncate => cases hw

section Reached

variable {registry : Registry} {keyspace : KeyspaceDef} {store : Store} {name : String}
  {t : Store.Table}

theorem Reached.apply (h : Reached registry keyspace store) {operation : Store.Operation}
    (hsent : Sent operation) : Reached registry keyspace (store.apply operation) := by
  obtain ⟨history, hhistory, rfl⟩ := h
  refine ⟨history ++ [operation], fun operation' hmem => ?_, ?_⟩
  · rcases List.mem_append.1 hmem with hmem | hmem
    · exact hhistory operation' hmem
    · exact List.mem_singleton.1 hmem ▸ hsent
  · rw [Store.run, Store.run, List.foldl_concat]

theorem Reached.ordered (h : Reached registry keyspace store) : store.Ordered := by
  obtain ⟨history, -, rfl⟩ := h
  exact Store.ordered_run registry keyspace history

theorem Reached.outline (h : Reached registry keyspace store) :
    store.outline = (Store.ofKeyspace registry keyspace).outline := by
  obtain ⟨history, -, rfl⟩ := h
  exact Store.outline_run registry keyspace history

/-- The super columns in a store that handles have made have leaves. -/
theorem Reached.filled (h : Reached registry keyspace store) (ht : store.table name = .ok t) :
    t.Filled := by
  obtain ⟨history, hhistory, rfl⟩ := h
  exact Store.filled_of_run (fun operation hmem key name w => (hhistory operation hmem).fills) ht

theorem Reached.wellFormed (h : Reached registry keyspace store) (ht : store.table name = .ok t)
    (hcells : t.holdsCounters = false) : t.WellFormed := by
  obtain ⟨history, -, rfl⟩ := h
  exact Store.wellFormed_of_cells ht hcells

end Reached

/-! ## Single changes -/

namespace Change

/-- A handle that adds to a counter outside of a super column does not take a table without super
columns for one with super columns. -/
def Fits (store : Store) : Change → Prop
  | .add h _ _ _ superColumn => superColumn = none → ∀ t, store.table h.name = .ok t →
      h.schema.kind.isSuper = true → t.isSuper = true
  | .insert .. | .remove .. => True

/-- What a change asks for was written to a table, and the store has been made by handles still. -/
structure Made (registry : Registry) (keyspace : KeyspaceDef) (key : Bytes) (name : String)
    (mutations : List Mutation) (s s' : Pool × Cluster) : Prop where
  known : ∃ t, s.2.store.table name = .ok t
  written :
    Store.writeAll ((mutations.flatMap Mutation.writes).map fun w => (key, name, w)) s.2.store =
    (.ok (), s'.2.store)
  serving : Serving s'
  reached : Reached registry keyspace s'.2.store

/-- The mutations of a change, which can be made, were written. -/
def Done (registry : Registry) (keyspace : KeyspaceDef) (c : Change) (s s' : Pool × Cluster) :
    Prop :=
  ∃ key name mutations, c.request = .ok (key, name, mutations) ∧
    Made registry keyspace key name mutations s s'

variable {registry : Registry} {keyspace : KeyspaceDef} {c : Change} {key : Bytes} {name : String}
  {mutations : List Mutation} {s s' : Pool × Cluster}

/-- A change that is sent as a batch of its own. -/
theorem made_of_batch (hs : Serving s) (hreached : Reached registry keyspace s.2.store)
    (hc : c.request = .ok (key, name, mutations)) {level : Consistency}
    (hcall : Client.call (.batchMutate (MutationMap.empty.extend key name mutations) level) s =
      .ok () s') : Made registry keyspace key name mutations s s' := by
  obtain ⟨hanswer, hserving, hstore⟩ := hs.of_change rfl hcall
  have hordered := hreached.ordered
  have hempty := MutationMap.holds_empty fun name => ∃ t, s.2.store.table name = .ok t
  -- The store looks for the tables of all requests, also of those without mutations.
  have hknown : ∃ t, s.2.store.table name = .ok t := by
    refine ((Store.answer_batch_ok_iff hordered.tables).1 hanswer).1 (key, name, mutations) ?_
    rw [(MutationMap.ordered_empty.extend key name mutations).mem_toList,
      MutationMap.ordered_empty.changes?_extend, if_pos ⟨rfl, rfl⟩]
    rfl
  have hholds := hempty.extend key hknown mutations
  have hbatch := hholds.batch hordered (fun _ h => h) (hholds.accepted hordered hanswer)
  refine ⟨hknown, ?_, hserving, ?_⟩
  · rw [hstore]
    exact hbatch.symm.trans (Prod.ext hanswer rfl)
  · rw [hstore]
    exact hreached.apply (Collected.empty.extend hc)

/-- A change that is sent as an operation with the effect of one write. -/
theorem made_of_write (hs : Serving s) (hreached : Reached registry keyspace s.2.store)
    {r : Rpc Unit}
    {operation : Store.Operation} (hr : Store.change? r = some operation) (hsent : Sent operation)
    (hcall : Client.call r s = .ok () s') {w : Store.Write}
    (hmutations : mutations.flatMap Mutation.writes = [w])
    (hw : s.2.store.answer operation = .ok () →
      s.2.store.write key name w = .ok (s.2.store.apply operation)) :
    Made registry keyspace key name mutations s s' := by
  obtain ⟨hanswer, hserving, hstore⟩ := hs.of_change hr hcall
  -- A change that was answered was accepted by the store, and so was its one write.
  have hwrite := hw hanswer
  obtain ⟨t, ht, -⟩ := Store.write_eq_ok.1 hwrite
  refine ⟨⟨t, ht⟩, ?_, hserving, ?_⟩
  · rw [hmutations, hstore]
    exact Store.writeAll_singleton hwrite
  · rw [hstore]
    exact hreached.apply hsent

private theorem write_of_add {store : Store} {parent : ColumnParent} {counter : Counter}
    (hanswer : store.answer (.add key parent counter) = .ok ()) :
    store.write key parent.table (.increment parent.superColumn counter) =
      .ok (store.apply (.add key parent counter)) :=
  Store.ok_of_answer hanswer

private theorem done_of_insert (hs : Serving s) (hreached : Reached registry keyspace s.2.store)
    {h : Handle} {key : Value} {columns : NewColumns} {o : WriteOptions}
    (hperform : h.insert key columns o s = .ok () s') :
    (insert h key columns o).Done registry keyspace s s' := by
  obtain ⟨m, hm, hcall⟩ := Client.ofExcept_bind_eq_ok.1 hperform
  obtain ⟨packed, hkey, mutations, hmutations, rfl⟩ := Handle.insertMap_eq_ok.1 hm
  have hc := request_insert hkey hmutations
  exact ⟨_, _, _, hc, made_of_batch hs hreached hc hcall⟩

private theorem done_of_remove (hs : Serving s) (hreached : Reached registry keyspace s.2.store)
    {h : Handle} {key : Value} {names : Option (List Value)} {superColumn : Option Value}
    {o : WriteOptions} (hperform : h.remove key names superColumn o s = .ok () s') :
    (remove h key names superColumn o).Done registry keyspace s s' := by
  obtain ⟨hcells, packed, d, hd⟩ := Handle.of_remove hperform
  obtain ⟨r, operation, hr, hby, hcall⟩ := @Handle.remove_eq_call _ _ _ _ _ _ Cluster _ o hcells hd
  have hc : request (.remove h key names superColumn o) = .ok (packed, h.name, [.delete d]) :=
    request_remove hd.key hd.deletion
  -- The removal goes out along a path or as a batch, and `hby` says that both write the same
  -- deletion.
  have hsent : Sent operation := by
    cases hby with
    | path => trivial
    | batch => exact Collected.empty.extend hc
  rw [hcall] at hperform
  refine ⟨_, _, _, hc, made_of_write hs hreached hr hsent hperform rfl fun hanswer => ?_⟩
  obtain ⟨t, ht, -⟩ := hby.admits hanswer
  exact hby.write ht (hreached.wellFormed ht) (hreached.filled ht) hanswer

private theorem done_of_add (hs : Serving s) (hreached : Reached registry keyspace s.2.store)
    {h : Handle} {key column : Value} {amount : Int64} {superColumn : Option Value}
    (hfits : (add h key column amount superColumn).Fits s.2.store)
    (hperform : h.add key column amount superColumn s = .ok () s') :
    (add h key column amount superColumn).Done registry keyspace s s' := by
  obtain ⟨_, hcounters, hperform⟩ := Client.ofExcept_bind_eq_ok.1 hperform
  obtain ⟨packed, hkey, hperform⟩ := Client.ofExcept_bind_eq_ok.1 hperform
  obtain ⟨parent, hparent, hperform⟩ := Client.ofExcept_bind_eq_ok.1 hperform
  obtain ⟨name, hname, hcall⟩ := Client.ofExcept_bind_eq_ok.1 hperform
  simp only [Handle.parent, bind_eq_ok, pure_eq_ok] at hparent
  obtain ⟨superName, hsuper, rfl⟩ := hparent
  have hr : Store.change? (.add packed ⟨h.name, superName⟩ ⟨name, amount⟩ h.options.writeLevel) =
      some (.add packed ⟨h.name, superName⟩ ⟨name, amount⟩) := rfl
  -- The store only accepts an addition without a super column if the table has none.
  obtain ⟨hanswer, -⟩ := hs.of_change hr hcall
  obtain ⟨t, ht, t', ht', -⟩ := Store.write_eq_ok.1 (write_of_add hanswer)
  obtain ⟨-, hlayout, -⟩ := Store.Table.increment_eq_ok.1 ht'
  have hflat : superName = none → h.schema.kind.isSuper = false := by
    rintro rfl
    have houter : superColumn = none := by
      cases superColumn with
      | none => rfl
      | some superColumn => simp [Handle.packSuperColumn, map_eq_ok] at hsuper
    rw [Bool.eq_false_iff]
    intro hkind
    have hlaid : t.isSuper = false := hlayout
    exact Bool.false_ne_true (hlaid.symm.trans (hfits houter t ht hkind))
  obtain ⟨mutation, hmutation, hwrites⟩ := Handle.exists_counterMutation
    (Handle.checkCounters_eq_ok.1 hcounters) hname hsuper hflat amount
  have hc : request (.add h key column amount superColumn) = .ok (packed, h.name, [mutation]) :=
    request_add hkey hmutation
  refine ⟨_, _, _, hc, made_of_write hs hreached hr trivial hcall ?_ write_of_add⟩
  rw [List.flatMap_singleton, hwrites]

/-- A change that is made at once is what its mutations are. -/
theorem done_of_perform (hs : Serving s) (hreached : Reached registry keyspace s.2.store)
    (hfits : c.Fits s.2.store) (hperform : c.perform s = .ok () s') :
    c.Done registry keyspace s s' := by
  cases c with
  | insert => exact done_of_insert hs hreached hperform
  | remove => exact done_of_remove hs hreached hperform
  | add => exact done_of_add hs hreached hfits hperform

/-- Only the layout of the table counts for a fitting change, not its rows. -/
theorem Fits.of_outline {store store' : Store} (h : store'.outline = store.outline)
    (hfits : c.Fits store) : c.Fits store' := by
  cases c with
  | insert | remove => trivial
  | add h' key column amount superColumn =>
    intro houter t ht hkind
    obtain ⟨t₀, ht₀, hsame⟩ := Store.table_of_outline h.symm ht
    have hsuper : t₀.emptied.isSuper = t.emptied.isSuper := congrArg Store.Table.isSuper hsame
    exact hsuper.symm.trans (hfits houter t₀ ht₀ hkind)

/-- Additions with a handle that was opened in a keyspace with distinct names of tables fit. -/
theorem fits_of_openTable {registry' : Registry} {table : String} {options : HandleOptions}
    {h : Handle} (hdistinct : (keyspace.tables.map fun d => d.name).Nodup) (hs : Serving s)
    (hkeyspace : s.2.store.keyspace = keyspace)
    (hopen : Handle.openTable registry' table options s = .ok h s') {store : Store}
    (hreached : Reached registry keyspace store) (column key : Value) (amount : Int64)
    (superColumn : Option Value) : (add h key column amount superColumn).Fits store := by
  obtain ⟨definition, hdefinition, rfl⟩ := Handle.of_openTable hs hopen
  rw [hkeyspace] at hdefinition
  refine Fits.of_outline hreached.outline fun _ t ht hkind => ?_
  have hname : definition.name = table := KeyspaceDef.name_of_table? hdefinition
  have htable := @Store.table_ofKeyspace registry keyspace hdistinct table definition hdefinition
  have ht' : (Store.ofKeyspace registry keyspace).table table = .ok t := hname ▸ ht
  obtain rfl := Except.ok.inj (htable.symm.trans ht')
  exact (TableKind.isSuper_of _ _).symm.trans hkind

/-- Changes that are made one after the other are taken up by a batch, and their writes have the
same effect. -/
theorem queueAll_of_perform {changes : List Change} :
    ∀ {s : Pool × Cluster} {b : Batch} {writes : List (Bytes × String × Store.Write)}, Serving s →
      Reached registry keyspace s.2.store → (∀ c ∈ changes, c.Fits s.2.store) →
      changes.forM perform s = .ok () s' → b.limit = none →
      b.pending.Holds (fun name => ∃ t, (Store.ofKeyspace registry keyspace).table name = .ok t)
        writes →
      ∃ pending writes', (∀ sb, queueAll changes b sb = (.ok (), { b with pending }, sb)) ∧
        pending.Holds (fun name => ∃ t, (Store.ofKeyspace registry keyspace).table name = .ok t)
          (writes ++ writes') ∧
        Store.writeAll writes' s.2.store = (.ok (), s'.2.store) := by
  -- By induction on the changes. What the batch holds grows by the writes of the first one.
  induction changes with
  | nil =>
    intro s b writes _ _ _ hperform _ hholds
    obtain ⟨-, rfl⟩ := Client.pure_eq_ok.1 hperform
    exact ⟨b.pending, [], fun _ => rfl, (List.append_nil writes).symm ▸ hholds, rfl⟩
  | cons c changes ih =>
    intro s b writes hs hreached hfits hperform hlimit hholds
    obtain ⟨_, s₁, hfirst, hothers⟩ := Client.bind_eq_ok.1 hperform
    obtain ⟨key, name, mutations, hc, hmade⟩ :=
      done_of_perform hs hreached (hfits c List.mem_cons_self) hfirst
    obtain ⟨t, ht⟩ := hmade.known
    obtain ⟨t₀, ht₀, -⟩ := Store.table_of_outline hreached.outline.symm ht
    have houtline : s₁.2.store.outline = s.2.store.outline :=
      hmade.reached.outline.trans hreached.outline.symm
    obtain ⟨pending, writes', hqueue, hholds', hwritten⟩ :=
      @ih s₁ { b with pending := b.pending.extend key name mutations } _ hmade.serving hmade.reached
        (fun c hc => (hfits c (List.mem_cons_of_mem _ hc)).of_outline houtline) hothers hlimit
        (hholds.extend key ⟨t₀, ht₀⟩ mutations)
    refine ⟨pending, _ ++ writes', fun sb => ?_, List.append_assoc writes _ _ ▸ hholds', ?_⟩
    · rw [queueAll, queue_of_request hlimit hc]
      exact hqueue sb
    · rw [Store.writeAll_append hmade.written]
      exact hwritten

end Change

/-- A batch takes up the changes that are accepted one by one, and when it is sent it leaves the
store that the single changes leave. -/
theorem send_eq_perform {registry : Registry} {keyspace : KeyspaceDef} {changes : List Change}
    {s s' sb : Pool × Cluster} (hs : Serving s) (hreached : Reached registry keyspace s.2.store)
    (hfits : ∀ c ∈ changes, c.Fits s.2.store) (hperform : changes.forM Change.perform s = .ok () s')
    (hsb : Serving sb) (hstore : sb.2.store = s.2.store) (level : Consistency) :
    ∃ b s'', Change.queueAll changes (.empty level none) sb = (.ok (), b, sb) ∧
      b.send sb = (.ok (), .empty level none, s'') ∧ s''.2.store = s'.2.store := by
  obtain ⟨pending, writes, hqueue, hholds, hwritten⟩ :=
    Change.queueAll_of_perform hs hreached hfits hperform (b := .empty level none) rfl
      (MutationMap.holds_empty _)
  -- Tables are neither made nor dropped, so what was known when it was queued is known still.
  have hknown : ∀ name, (∃ t, (Store.ofKeyspace registry keyspace).table name = .ok t) →
      ∃ t, s.2.store.table name = .ok t := by
    rintro name ⟨t, ht⟩
    obtain ⟨t', ht', -⟩ := Store.table_of_outline hreached.outline ht
    exact ⟨t', ht'⟩
  -- The batch makes the writes that were collected, which come to what the single changes made.
  have hbatch : s.2.store.batch pending = (.ok (), s'.2.store) :=
    (hholds.batch hreached.ordered hknown (congrArg Prod.fst hwritten)).trans hwritten
  refine ⟨⟨pending, level, none⟩, ?_⟩
  by_cases hempty : pending.isEmpty = true
  · -- there is nothing to send, and nothing was changed
    have hpending : pending = .empty := congrArg MutationMap.mk (List.isEmpty_iff.1 hempty)
    subst hpending
    refine ⟨sb, hqueue sb, rfl, ?_⟩
    rw [hstore]
    exact congrArg Prod.snd hbatch
  · -- otherwise one request brings them to a server with the same store
    obtain ⟨s'', -, hstore'', hcall⟩ := hsb.change (r := .batchMutate pending level) rfl (by
      rw [hstore]
      exact congrArg Prod.fst hbatch)
    refine ⟨s'', hqueue sb, ?_, ?_⟩
    · rw [Batch.send, if_neg (show ¬Batch.isEmpty ⟨pending, level, none⟩ = true from hempty)]
      simp only [MutationMap.take, hcall]
      rfl
    · rw [hstore'', hstore]
      exact congrArg Prod.snd hbatch

def hits : TableDef := { TableDef.ofName "web" "hits" with validation := "CounterColumnType" }

/-- A keyspace with a super table and a table of counters. -/
def siteKeyspace : KeyspaceDef := ((KeyspaceDef.ofName "web").withTable links).withTable hits

def hitsHandle : Handle := ⟨.ofDef .standard .default hits, .default⟩

/-- Changes of two rows in two tables, with the removal of a whole super column between two
insertions. -/
def siteChanges : List Change :=
  [.insert linksHandle (.bytes [114]) givenTwice ⟨5, none, none⟩,
    .add hitsHandle (.bytes [113]) (.bytes [97]) 2 none,
    .remove linksHandle (.bytes [114]) none (some (.text "a")) ⟨6, none, none⟩,
    .insert linksHandle (.bytes [114]) givenTwice ⟨7, none, none⟩,
    .add hitsHandle (.bytes [113]) (.bytes [97]) 3 none]

theorem send_eq_perform_siteChanges :
    ∃ s' b s'', siteChanges.forM Change.perform (served siteKeyspace) = .ok () s' ∧
      Change.queueAll siteChanges (.empty .one none) (served siteKeyspace) =
        (.ok (), b, served siteKeyspace) ∧
      b.send (served siteKeyspace) = (.ok (), .empty .one none, s'') ∧
      s''.2.store = s'.2.store := by
  have hserving : Serving (served siteKeyspace) := serving_served (by decide +kernel)
  have hreached : Reached .standard siteKeyspace (served siteKeyspace).2.store := ⟨[], nofun, rfl⟩
  -- Only additions ask for a handle that fits, and the one here was opened.
  have hfits : ∀ c ∈ siteChanges, c.Fits (served siteKeyspace).2.store := by
    obtain ⟨s₁, -, hopen⟩ :=
      @Handle.exists_openTable .standard "hits" .default (served siteKeyspace) _ ⟨hserving, rfl⟩
        (by decide +kernel) (by decide +kernel) hits (by decide +kernel)
    have hadd := Change.fits_of_openTable (by decide +kernel) hserving rfl hopen hreached
    intro c hc
    simp only [siteChanges, List.mem_cons, List.not_mem_nil, or_false] at hc
    rcases hc with rfl | rfl | rfl | rfl | rfl
    · trivial
    · exact hadd _ _ _ _
    · trivial
    · trivial
    · exact hadd _ _ _ _
  -- That the changes are accepted one by one is found by making them.
  obtain ⟨s', hperform⟩ : ∃ s', siteChanges.forM Change.perform (served siteKeyspace) =
      .ok () s' := by
    have haccepted : (match siteChanges.forM Change.perform (served siteKeyspace) with
        | .ok () _ => true
        | .error _ _ => false) = true := by
      decide +kernel
    split at haccepted
    · next s' h => exact ⟨s', h⟩
    · cases haccepted
  obtain ⟨b, s'', hqueue, hsend, hstore⟩ := send_eq_perform hserving hreached hfits hperform
    hserving rfl .one
  exact ⟨s', b, s'', hperform, hqueue, hsend, hstore⟩

/-- A table of counters that is defined a second time under its name, without super columns. -/
def superHits : TableDef := { hits with layout := .super, subcomparator := some "BytesType" }

def twiceKeyspace : KeyspaceDef := ((KeyspaceDef.ofName "web").withTable superHits).withTable hits

def superHitsHandle : Handle := ⟨.ofDef .standard .default superHits, .default⟩

/-- The addition to a counter at the top of a row. -/
def plainAddition : Change := .add superHitsHandle (.bytes [113]) (.bytes [97]) 1 none

/-- A handle has the first definition of a name and the store the last one. If these differ in
layout, an addition can be accepted at once and yet be refused by a batch. -/
theorem queueAll_plainAddition :
    ∃ s s',
      Handle.openTable .standard "hits" .default (served twiceKeyspace) = .ok superHitsHandle s ∧
      Serving s ∧ Reached .standard twiceKeyspace s.2.store ∧
      [plainAddition].forM Change.perform s = .ok () s' ∧
      Change.queueAll [plainAddition] (.empty .one none) s =
        (.error (.invalidConfig .counterNeedsSuperColumn), .empty .one none, s) := by
  have hserving : Serving (served twiceKeyspace) := serving_served (by decide +kernel)
  obtain ⟨s, ⟨hs, hstore⟩, hopen⟩ :=
    @Handle.exists_openTable .standard "hits" .default (served twiceKeyspace) _ ⟨hserving, rfl⟩
      (by decide +kernel) (by decide +kernel) superHits (by decide +kernel)
  have hreached : Reached .standard twiceKeyspace s.2.store := ⟨[], nofun, hstore⟩
  -- The store has the last definition of the table, which has no super columns.
  have hanswer : s.2.store.answer (.add [113] ⟨"hits", none⟩ ⟨[97], 1⟩) = .ok () := by
    rw [hstore]
    decide +kernel
  obtain ⟨s', -, -, hcall⟩ :=
    hs.change (r := .add [113] ⟨"hits", none⟩ ⟨[97], 1⟩ .one) rfl hanswer
  have hcounters : superHitsHandle.checkCounters true = .ok () := by decide +kernel
  have hkey : superHitsHandle.packKey (.bytes [113]) = .ok [113] := by decide +kernel
  have hparent : superHitsHandle.parent none = .ok ⟨"hits", none⟩ := by decide +kernel
  have hname : superHitsHandle.packLeafName (.bytes [97]) = .ok [97] := by decide +kernel
  refine ⟨s, s', hopen, hs, hreached, ?_, ?_⟩
  · -- made at once, the addition is left to the store
    refine Client.bind_eq_ok.2 ⟨(), s', ?_, rfl⟩
    refine Client.ofExcept_bind_eq_ok.2 ⟨(), hcounters, ?_⟩
    refine Client.ofExcept_bind_eq_ok.2 ⟨_, hkey, ?_⟩
    refine Client.ofExcept_bind_eq_ok.2 ⟨_, hparent, ?_⟩
    exact Client.ofExcept_bind_eq_ok.2 ⟨_, hname, hcall⟩
  · -- for a batch the handle itself asks for a super column
    have hrefused : superHitsHandle.counterMutation (.bytes [97]) 1 none =
        .error (.invalidConfig .counterNeedsSuperColumn) := by
      decide +kernel
    simp only [Change.queueAll, Change.queue, plainAddition, Batch.add, Batch.queueAdd,
      hkey, hrefused]
    rfl

end WideColumn
