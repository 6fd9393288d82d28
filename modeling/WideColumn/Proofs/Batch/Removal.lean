import WideColumn.Proofs.Batch

/-!
# Removals at once and by a batch

A removal that is made at once is refused on a table of counters, by the handle and again by the
store. A batch takes it up for any table, and the store applies the deletions of a batch without a
look at the kind of their table.

- `Batch.removeAndSend`: a removal by a batch of its own;
- `of_removeAndSend` and `exists_removeAndSend`: it writes the deletion if there is one to write;
- `remove_accepted`: both ways accept the same removals from tables of cells, and on tables of
  counters only the batch accepts any.
-/

namespace WideColumn

/-! ## Removals by a batch -/

namespace Batch

/-- Collects a removal and sends the batch. -/
def removeAndSend {ω : Type} [Network ω] (b : Batch) (h : Handle) (key : Value)
    (names : Option (List Value)) (superColumn : Option Value) (timestamp : Int64) :
    Client ω Unit := fun s =>
  match b.remove h key names superColumn timestamp s with
  | (.error e, _, s) => .error e s
  | (.ok (), b, s) =>
    match b.send s with
    | (.error e, _, s) => .error e s
    | (.ok (), _, s) => .ok () s

variable {h : Handle} {key : Value} {names : Option (List Value)} {superColumn : Option Value}
  {timestamp : Int64} {level : Consistency} {limit : Option Nat} {packed : Bytes} {d : Deletion}
  {s s' : Pool × Cluster}

private theorem send_of_not_isEmpty {b : Batch} (h : b.isEmpty = false) (s : Pool × Cluster) :
    b.send s =
      match Client.call (.batchMutate b.pending b.level) s with
      | .ok () s => (.ok (), empty b.level b.limit, s)
      | .error e s => (.error e, empty b.level b.limit, s) := by
  rw [send, h]
  simp only [Bool.false_eq_true, if_false, MutationMap.take]
  cases Client.call (.batchMutate b.pending b.level) s <;> rfl

/-- A new batch sends its first removal, either because it is full then or when it is told to. -/
theorem removeAndSend_eq_call (hd : h.Deletes key names superColumn timestamp packed d)
    (s : Pool × Cluster) :
    (empty level limit).removeAndSend h key names superColumn timestamp s =
      Client.call (.batchMutate (.push .empty packed h.name (.delete d)) level) s := by
  obtain ⟨b, hb⟩ : ∃ b : Batch, b = ⟨.push .empty packed h.name (.delete d), level, limit⟩ :=
    ⟨_, rfl⟩
  have hqueued : (empty level limit).queueRemove h key names superColumn timestamp = .ok b := by
    simp only [queueRemove, hd.key, hd.deletion, ok_bind, hb]
    rfl
  have hpending : b.isEmpty = false := by
    rw [hb]
    rfl
  have hsend := send_of_not_isEmpty hpending s
  rw [removeAndSend, remove, hqueued]
  by_cases hfull : b.isFull = true
  · -- the batch is full and sends itself, so that nothing is left to send
    simp only [collect.eq_def, sendIfFull, if_pos hfull, hsend]
    rw [hb]
    cases Client.call (.batchMutate (.push .empty packed h.name (.delete d)) level) s <;> rfl
  · simp only [collect.eq_def, sendIfFull, if_neg hfull, hsend]
    rw [hb]
    cases Client.call (.batchMutate (.push .empty packed h.name (.delete d)) level) s <;> rfl

/-- A batch that takes up a removal could pack it. -/
theorem deletes_of_removeAndSend
    (haccepted : (empty level limit).removeAndSend h key names superColumn timestamp s =
      .ok () s') :
    ∃ packed d, h.Deletes key names superColumn timestamp packed d := by
  cases hqueued : (empty level limit).queueRemove h key names superColumn timestamp with
  | error e =>
    rw [removeAndSend, remove, hqueued] at haccepted
    cases haccepted
  | ok b =>
    simp only [queueRemove, bind_eq_ok, pure_eq_ok] at hqueued
    obtain ⟨packed, hkey, mutation, hdeletion, -⟩ := hqueued
    obtain ⟨d, -, hd⟩ := Handle.exists_deletes hkey hdeletion
    exact ⟨packed, d, hd⟩

/-- A removal by a batch is the write of its deletion. -/
theorem of_removeAndSend (hs : Serving s)
    (haccepted : (empty level limit).removeAndSend h key names superColumn timestamp s =
      .ok () s') :
    ∃ packed d, h.Deletes key names superColumn timestamp packed d ∧ Serving s' ∧
      s.2.store.write packed h.name (.delete d) = .ok s'.2.store := by
  obtain ⟨packed, d, hd⟩ := deletes_of_removeAndSend haccepted
  rw [removeAndSend_eq_call hd] at haccepted
  obtain ⟨hanswer, hs', hstore⟩ := hs.of_change rfl haccepted
  refine ⟨packed, d, hd, hs', ?_⟩
  rw [hstore, Store.apply_push]
  exact Store.ok_of_answer (Store.answer_push d ▸ hanswer)

/-- A deletion that the store would write is accepted from a batch. -/
theorem exists_removeAndSend (level : Consistency) (limit : Option Nat) (hs : Serving s)
    (hd : h.Deletes key names superColumn timestamp packed d) {store : Store}
    (hwrite : s.2.store.write packed h.name (.delete d) = .ok store) :
    ∃ s', (empty level limit).removeAndSend h key names superColumn timestamp s = .ok () s' ∧
      Serving s' ∧ s'.2.store = store := by
  have hanswer : s.2.store.answer (.batch (.push .empty packed h.name (.delete d))) = .ok () := by
    rw [Store.answer_push, hwrite]
    rfl
  obtain ⟨s', hs', hstore, hcall⟩ :=
    hs.change (r := .batchMutate (.push .empty packed h.name (.delete d)) level) rfl hanswer
  refine ⟨s', (removeAndSend_eq_call hd s).trans hcall, hs', ?_⟩
  rw [hstore, Store.apply_push, hwrite]
  rfl

end Batch

/-! ## Removals at once -/

section Acceptance

variable {h : Handle} {t : Store.Table} {s : Pool × Cluster}

/-- A store refuses to remove cells from a table of counters. -/
theorem Store.remove_of_holdsCounters {store : Store} {path : ColumnPath}
    (ht : store.table path.table = .ok t) (hcounters : t.holdsCounters = true) (packed : Bytes)
    (timestamp : Int64) :
    store.remove packed path (some timestamp) = .error (.holdsCounters t.name) := by
  have hcheck : t.checkCounters false = .error (.holdsCounters t.name) := by
    unfold Table.checkCounters
    rw [hcounters]
  rw [remove, ht]
  show (t.checkCounters false >>= fun _ => _) = _
  rw [hcheck]
  rfl

/-- A handle refuses to remove cells from a table that it knows to be one of counters. -/
theorem Handle.remove_of_holdsCounters (hknows : h.Knows t) (hcounters : t.holdsCounters = true)
    (key : Value) (names : Option (List Value)) (superColumn : Option Value) (o : WriteOptions)
    (s : Pool × Cluster) :
    h.remove key names superColumn o s = .error (.invalidConfig (.counterTable h.name)) s := by
  have hcheck : h.checkCounters false = .error (.invalidConfig (.counterTable h.name)) := by
    unfold checkCounters
    rw [hknows.isCounter, hcounters]
    rfl
  rw [remove, hcheck]
  rfl

/-- A removal of cells that is accepted at once is accepted from a batch too, and the other way
round if the handle knows the table. On a table of counters it is refused at once, but the batch
takes every removal that can be packed and deletes what it addresses. -/
theorem remove_accepted (hs : Serving s) (ht : s.2.store.table h.name = .ok t) (key : Value)
    (names : Option (List Value)) (superColumn : Option Value) (o : WriteOptions)
    (level : Consistency) (limit : Option Nat) :
    let direct := h.remove key names superColumn o s
    let batched := (Batch.empty level limit).removeAndSend h key names superColumn o.timestamp s
    ((∃ s', direct = .ok () s') → ∃ s', batched = .ok () s') ∧
    (∀ s', batched = .ok () s' → ∃ packed d,
      h.Deletes key names superColumn o.timestamp packed d ∧
        s.2.store.write packed h.name (.delete d) = .ok s'.2.store) ∧
    (h.Knows t →
      ((∃ s', batched = .ok () s') ↔
        ∃ packed d, h.Deletes key names superColumn o.timestamp packed d) ∧
      (t.holdsCounters = false → ((∃ s', direct = .ok () s') ↔ ∃ s', batched = .ok () s')) ∧
      (t.holdsCounters = true → direct = .error (.invalidConfig (.counterTable h.name)) s)) ∧
    (t.holdsCounters = true → ∀ packed path timestamp, path.table = h.name →
      s.2.store.remove packed path (some timestamp) = .error (.holdsCounters t.name)) := by
  intro direct batched
  -- A deletion that can be packed and names a super column only where there are some is accepted
  -- from a batch.
  have hbatch : ∀ {packed d}, h.Deletes key names superColumn o.timestamp packed d →
      (d.superColumn.isSome = true → t.isSuper = true) → ∃ s', batched = .ok () s' := by
    intro packed d hd hadmits
    obtain ⟨store, hwrite⟩ := (Store.exists_write_delete_iff ht).2 hadmits
    obtain ⟨s', haccepted, -⟩ := Batch.exists_removeAndSend _ _ hs hd hwrite
    exact ⟨s', haccepted⟩
  -- What is accepted at once was admitted by the store, so it is accepted from a batch as well.
  have hforth : (∃ s', direct = .ok () s') → ∃ s', batched = .ok () s' := by
    rintro ⟨s', hdirect⟩
    obtain ⟨hcells, packed, d, hd⟩ := Handle.of_remove hdirect
    obtain ⟨r, operation, hr, hby, hcall⟩ :=
      @Handle.remove_eq_call _ _ _ _ _ _ Cluster _ o hcells hd
    obtain ⟨hanswer, -⟩ := hs.of_change hr ((hcall s).symm.trans hdirect)
    obtain ⟨t', ht', hadmits⟩ := hby.admits hanswer
    cases ht.symm.trans ht'
    exact hbatch hd hadmits
  refine ⟨hforth, fun s' haccepted => ?_, fun hknows => ⟨⟨?_, ?_⟩, fun hcells => ⟨hforth, ?_⟩, ?_⟩,
    ?_⟩
  · obtain ⟨packed, d, hd, -, hwrite⟩ := Batch.of_removeAndSend hs haccepted
    exact ⟨packed, d, hd, hwrite⟩
  · rintro ⟨s', haccepted⟩
    exact Batch.deletes_of_removeAndSend haccepted
  · rintro ⟨packed, d, hd⟩
    exact hbatch hd (hknows.isSuper_of_deletes hd)
  · -- the handle knows the table, so what a batch can pack goes through at once too
    rintro ⟨s', haccepted⟩
    obtain ⟨packed, d, hd⟩ := Batch.deletes_of_removeAndSend haccepted
    have hkind : h.schema.kind.isCounter = false := hknows.isCounter.trans hcells
    obtain ⟨r, operation, hr, hby, hcall⟩ := @Handle.remove_eq_call _ _ _ _ _ _ Cluster _ o hkind hd
    obtain ⟨s'', -, -, hchange⟩ := hs.change hr (hby.accepted ht hknows hcells)
    exact ⟨s'', (hcall s).trans hchange⟩
  · exact fun hcounters => Handle.remove_of_holdsCounters hknows hcounters key names superColumn o s
  · intro hcounters packed path timestamp hpath
    exact Store.remove_of_holdsCounters (hpath ▸ ht) hcounters packed timestamp

theorem remove_accepted_links :
    (∃ s', linksHandle.remove (.bytes [114]) none (some (.text "a")) ⟨6, none, none⟩
      (served siteKeyspace) = .ok () s') ∧
    ∃ s', (Batch.empty .one none).removeAndSend linksHandle (.bytes [114]) none (some (.text "a")) 6
      (served siteKeyspace) = .ok () s' := by
  have hserving : Serving (served siteKeyspace) := serving_served (by decide +kernel)
  have ht : (served siteKeyspace).2.store.table linksHandle.name = .ok (.ofDef .standard links) :=
    Store.table_ofKeyspace (by decide +kernel) (by decide +kernel)
  have hknows : linksHandle.Knows (.ofDef .standard links) :=
    Handle.knows_ofDef .standard .default links
  have hd : linksHandle.Deletes (.bytes [114]) none (some (.text "a")) 6 [114]
      ⟨some 6, some [97], none⟩ :=
    ⟨by decide +kernel, by decide +kernel⟩
  obtain ⟨-, -, hknown, -⟩ :=
    remove_accepted hserving ht (.bytes [114]) none (some (.text "a")) ⟨6, none, none⟩ .one none
  obtain ⟨hpacked, hcells, -⟩ := hknown hknows
  have hbatched := hpacked.2 ⟨_, _, hd⟩
  exact ⟨(hcells (by decide +kernel)).2 hbatched, hbatched⟩

/-- A counter that is not removed at once is removed by a batch. -/
theorem removeAndSend_counter :
    ∃ s₁ s₂ s₃,
      Handle.openTable .standard "hits" .default (served siteKeyspace) = .ok hitsHandle s₁ ∧
      hitsHandle.add (.bytes [113]) (.bytes [97]) 5 none s₁ = .ok () s₂ ∧
      s₂.2.store.leaf? "hits" [113] none [97] = some (.counter 5) ∧
      hitsHandle.remove (.bytes [113]) (some [.bytes [97]]) none ⟨6, none, none⟩ s₂ =
        .error (.invalidConfig (.counterTable "hits")) s₂ ∧
      (Batch.empty .one none).removeAndSend hitsHandle (.bytes [113])
      (some [.bytes [97]]) none 6 s₂ =
        .ok () s₃ ∧
      s₃.2.store.leaf? "hits" [113] none [97] = none := by
  have hserving : Serving (served siteKeyspace) := serving_served (by decide +kernel)
  obtain ⟨s₁, ⟨hs₁, hstore₁⟩, hopen⟩ :=
    @Handle.exists_openTable .standard "hits" .default (served siteKeyspace) _ ⟨hserving, rfl⟩
      (by decide +kernel) (by decide +kernel) hits (by decide +kernel)
  have hanswer : s₁.2.store.answer (.add [113] ⟨"hits", none⟩ ⟨[97], 5⟩) = .ok () := by
    rw [hstore₁]
    decide +kernel
  obtain ⟨s₂, hs₂, hstore₂, hcall⟩ :=
    hs₁.change (r := .add [113] ⟨"hits", none⟩ ⟨[97], 5⟩ .one) rfl hanswer
  have hadd : hitsHandle.add (.bytes [113]) (.bytes [97]) 5 none s₁ = .ok () s₂ := by
    have hcounters : hitsHandle.checkCounters true = .ok () := by decide +kernel
    have hkey : hitsHandle.packKey (.bytes [113]) = .ok [113] := by decide +kernel
    have hparent : hitsHandle.parent none = .ok ⟨"hits", none⟩ := by decide +kernel
    have hname : hitsHandle.packLeafName (.bytes [97]) = .ok [97] := by decide +kernel
    rw [Handle.add, hcounters, hkey, hparent, hname]
    exact hcall
  have hknows : hitsHandle.Knows (.ofDef .standard hits) :=
    Handle.knows_ofDef .standard .default hits
  have hrefused := Handle.remove_of_holdsCounters hknows (by decide +kernel) (.bytes [113])
    (some [.bytes [97]]) none ⟨6, none, none⟩ s₂
  -- the batch deletes what the path of the single removal would address
  have hd : hitsHandle.Deletes (.bytes [113]) (some [.bytes [97]]) none 6 [113]
      ⟨some 6, none, some (.ofNames [[97]])⟩ :=
    ⟨by decide +kernel, by decide +kernel⟩
  have hwrite : s₂.2.store.write [113] "hits" (.delete ⟨some 6, none, some (.ofNames [[97]])⟩) =
      .ok (s₂.2.store.afterAll (s₂.2.store.write [113] "hits"
        (.delete ⟨some 6, none, some (.ofNames [[97]])⟩))) := by
    refine Store.ok_of_answer ?_
    rw [hstore₂, hstore₁]
    decide +kernel
  obtain ⟨s₃, hsend, -, hstore₃⟩ := Batch.exists_removeAndSend .one none hs₂ hd hwrite
  refine ⟨s₁, s₂, s₃, hopen, hadd, ?_, hrefused, hsend, ?_⟩
  · rw [hstore₂, hstore₁]
    decide +kernel
  · rw [hstore₃, hstore₂, hstore₁]
    decide +kernel

end Acceptance

end WideColumn
