import WideColumn.Handle.Write
import WideColumn.Proofs.Handle.Mutations
import WideColumn.Proofs.Store.Supers

/-!
# Removals through a handle

A handle asks for a removal in one of two forms. If there is a single address, it is sent as the
path to that address; several names are sent as a batch of one deletion. Both stand for the same
deletion.

- `Handle.Deletes`: the row and the deletion that a removal asks for;
- `Handle.RemovesBy`: the operations that a removal is sent as;
- `remove_eq_call`: a removal sends one of them, and `of_remove`: it is refused otherwise;
- `RemovesBy.admits` and `RemovesBy.accepted`: when a store accepts such an operation;
- `RemovesBy.write`: what it does then, which is the write of the deletion.
-/

namespace WideColumn

namespace Handle

variable {h : Handle} {key : Value} {names : Option (List Value)} {superColumn : Option Value}
  {timestamp : Int64} {packed : Bytes} {d : Deletion} {t : Store.Table}

/-! ## Deletions -/

theorem packNames_eq_ok {type : DataType} {names : List Value} {predicate : SlicePredicate} :
    packNames type names = .ok predicate ↔
      names ≠ [] ∧ ∃ packed, names.mapM (packName type) = .ok packed ∧
        SlicePredicate.ofNames packed = predicate := by
  rw [packNames]
  cases names with
  | nil => simp [invalid]
  | cons name names =>
    rw [List.isEmpty_cons, if_neg Bool.false_ne_true, map_eq_ok]
    exact (and_iff_right (List.cons_ne_nil _ _)).symm

theorem mapM_singleton_eq_ok {α β ε : Type} {f : α → Except ε β} {a : α} {bs : List β} :
    [a].mapM f = .ok bs ↔ ∃ b, f a = .ok b ∧ [b] = bs := by
  simp only [List.mapM_cons, List.mapM_nil, bind_eq_ok, pure_eq_ok, exists_eq_left']

theorem deletion_eq_ok {mutation : Mutation} :
    h.deletion names superColumn timestamp = .ok mutation ↔
      ∃ predicate, (match names with
        | some names => some <$> packNames (h.schema.sliceType superColumn.isSome) names
        | none => .ok none) = .ok predicate ∧
      ∃ packed, h.packSuperColumn superColumn = .ok packed ∧
        .delete ⟨some timestamp, packed, predicate⟩ = mutation := by
  cases names <;> simp only [deletion, bind_eq_ok, pure_eq_ok, map_eq_ok, Except.ok.injEq]

/-- A deletion takes away what a path removes. Only a super column that is removed as a whole is
selected by its name for the path and is the place to delete from for the deletion. -/
def DeletesAt (path : ColumnPath) (timestamp : Int64) (d : Deletion) : Prop :=
  Store.deletionAt path (some timestamp) = d ∨ ∃ name, path.superColumn = some name ∧
    Store.deletionAt path (some timestamp) = ⟨some timestamp, none, some (.ofNames [name])⟩ ∧
      d = ⟨some timestamp, some name, none⟩

private theorem deletion_of_removalPath {path : ColumnPath}
    (hpath : h.removalPath names superColumn = .ok (some path)) (timestamp : Int64) :
    path.table = h.name ∧ ∃ d, h.deletion names superColumn timestamp = .ok (.delete d) ∧
      DeletesAt path timestamp d := by
  cases names with
  | none =>
    -- the whole row or a whole super column
    simp only [removalPath, bind_eq_ok, pure_eq_ok, Option.some.injEq] at hpath
    obtain ⟨packed, hpacked, rfl⟩ := hpath
    refine ⟨rfl, _, deletion_eq_ok.2 ⟨none, rfl, packed, hpacked, rfl⟩, ?_⟩
    cases packed with
    | none => exact .inl rfl
    | some name => exact .inr ⟨name, rfl, rfl, rfl⟩
  | some names =>
    rcases names with _ | ⟨column, _ | _⟩
    case nil => cases hpath
    case cons.cons => cases hpath
    case cons.nil =>
      rw [removalPath, bind_eq_ok] at hpath
      obtain ⟨name, hname, hpath⟩ := hpath
      have hpredicate :
          some <$> packNames (h.schema.sliceType superColumn.isSome) [column] =
            .ok (some (.ofNames [name])) := by
        rw [packNames_eq_ok.2
          ⟨List.cons_ne_nil _ _, _, mapM_singleton_eq_ok.2 ⟨name, hname, rfl⟩, rfl⟩]
        rfl
      -- a single name is that of a super column, or of a column in its place
      split at hpath
      · next hsuper =>
        cases hpath
        cases superColumn with
        | some superColumn => simp at hsuper
        | none =>
          exact ⟨rfl, _, deletion_eq_ok.2 ⟨_, hpredicate, none, rfl, rfl⟩, .inl rfl⟩
      · simp only [bind_eq_ok, pure_eq_ok, Option.some.injEq] at hpath
        obtain ⟨packed, hpacked, rfl⟩ := hpath
        refine ⟨rfl, _, deletion_eq_ok.2 ⟨_, hpredicate, packed, hpacked, rfl⟩, .inl ?_⟩
        cases packed <;> rfl

/-- The row and the deletion that a removal asks for. -/
structure Deletes (h : Handle) (key : Value) (names : Option (List Value))
    (superColumn : Option Value) (timestamp : Int64) (packed : Bytes) (d : Deletion) : Prop where
  key : h.packKey key = .ok packed
  deletion : h.deletion names superColumn timestamp = .ok (.delete d)

theorem exists_deletes {mutation : Mutation} (hkey : h.packKey key = .ok packed)
    (hdeletion : h.deletion names superColumn timestamp = .ok mutation) :
    ∃ d, mutation = .delete d ∧ h.Deletes key names superColumn timestamp packed d := by
  obtain ⟨_, -, _, -, rfl⟩ := deletion_eq_ok.1 hdeletion
  exact ⟨_, rfl, hkey, hdeletion⟩

/-- What can be packed for a deletion can be packed for a path. -/
theorem exists_removalPath {mutation : Mutation}
    (hdeletion : h.deletion names superColumn timestamp = .ok mutation) :
    ∃ path?, h.removalPath names superColumn = .ok path? := by
  obtain ⟨predicate, hpredicate, packed, hpacked, -⟩ := deletion_eq_ok.1 hdeletion
  -- No names and a single name make a path; several names do not.
  rcases names with _ | _ | ⟨column, _ | _⟩
  · exact ⟨some ⟨h.name, packed, none⟩, by rw [removalPath, hpacked]; rfl⟩
  · exact ⟨none, rfl⟩
  · obtain ⟨_, hnames, -⟩ := map_eq_ok.1 hpredicate
    obtain ⟨-, _, hpack, -⟩ := packNames_eq_ok.1 hnames
    obtain ⟨name, hname, -⟩ := mapM_singleton_eq_ok.1 hpack
    rw [removalPath, hname, ok_bind, hpacked]
    split
    · exact ⟨_, rfl⟩
    · exact ⟨_, rfl⟩
  · exact ⟨none, rfl⟩

/-! ## Super columns -/

/-- A handle that knows its table packs names of super columns for tables that have them. -/
theorem Knows.isSuper_of_packSuperColumn (hknows : h.Knows t) {packed : Option Bytes}
    (hpacked : h.packSuperColumn superColumn = .ok packed) (hsome : packed.isSome = true) :
    t.isSuper = true := by
  cases superColumn with
  | none =>
    cases hpacked
    cases hsome
  | some superColumn =>
    obtain ⟨name, hname, -⟩ := map_eq_ok.1 hpacked
    rw [← hknows.superType]
    rw [packSuperName] at hname
    -- A handle with a type for super columns has it from a table with super columns.
    cases htype : h.schema.superType with
    | some type => rfl
    | none =>
      rw [htype] at hname
      cases hname

theorem Knows.isSuper_of_deletes (hknows : h.Knows t)
    (hd : h.Deletes key names superColumn timestamp packed d)
    (hsome : d.superColumn.isSome = true) :
    t.isSuper = true := by
  obtain ⟨_, -, _, hpacked, heq⟩ := deletion_eq_ok.1 hd.deletion
  cases heq
  exact hknows.isSuper_of_packSuperColumn hpacked hsome

private theorem Knows.isSuper_of_removalPath (hknows : h.Knows t) {path : ColumnPath}
    (hpath : h.removalPath names superColumn = .ok (some path))
    (hsome : path.superColumn.isSome = true) : t.isSuper = true := by
  rcases names with _ | _ | ⟨column, _ | _⟩
  · simp only [removalPath, bind_eq_ok, pure_eq_ok, Option.some.injEq] at hpath
    obtain ⟨packed, hpacked, rfl⟩ := hpath
    exact hknows.isSuper_of_packSuperColumn hpacked hsome
  · cases hpath
  · rw [removalPath, bind_eq_ok] at hpath
    obtain ⟨name, -, hpath⟩ := hpath
    split at hpath
    · next hsuper =>
      rw [Bool.and_eq_true] at hsuper
      exact hknows.isSuper ▸ hsuper.1
    · simp only [bind_eq_ok, pure_eq_ok, Option.some.injEq] at hpath
      obtain ⟨packed, hpacked, rfl⟩ := hpath
      exact hknows.isSuper_of_packSuperColumn hpacked hsome
  · cases hpath

/-! ## Operations -/

/-- The operations that a removal is sent as: a path that addresses the same, or a batch of one
deletion. A handle that knows its table names super columns only where there are any. -/
inductive RemovesBy (h : Handle) (timestamp : Int64) (packed : Bytes) (d : Deletion) :
    Store.Operation → Prop where
  | path {path : ColumnPath} (htable : path.table = h.name) (hd : DeletesAt path timestamp d)
      (hsuper : ∀ {t}, h.Knows t → path.superColumn.isSome = true → t.isSuper = true) :
      RemovesBy h timestamp packed d (.remove packed path (some timestamp))
  | batch (hsuper : ∀ {t}, h.Knows t → d.superColumn.isSome = true → t.isSuper = true) :
      RemovesBy h timestamp packed d (.batch (.push .empty packed h.name (.delete d)))

section Sent

variable {ω : Type} [Network ω] {o : WriteOptions}

/-- What has a single path is removed by that path. -/
theorem remove_of_path (hcells : h.schema.kind.isCounter = false)
    (hkey : h.packKey key = .ok packed)
    {path : ColumnPath} (hpath : h.removalPath names superColumn = .ok (some path)) (s : Pool × ω) :
    h.remove key names superColumn o s =
      Client.call (.remove packed path o.timestamp (h.writeLevel o)) s := by
  rw [remove, checkCounters_eq_ok.2 hcells, hkey, hpath]
  rfl

/-- What has none is removed by a batch of one deletion. -/
theorem remove_of_no_path (hcells : h.schema.kind.isCounter = false)
    (hd : h.Deletes key names superColumn o.timestamp packed d)
    (hpath : h.removalPath names superColumn = .ok none) (s : Pool × ω) :
    h.remove key names superColumn o s =
      Client.call (.batchMutate (.push .empty packed h.name (.delete d)) (h.writeLevel o)) s := by
  rw [remove, checkCounters_eq_ok.2 hcells, hd.key, hpath, hd.deletion]
  rfl

/-- A removal that can be packed is sent, unless the handle is one of a table of counters. -/
theorem remove_eq_call (hcells : h.schema.kind.isCounter = false)
    (hd : h.Deletes key names superColumn o.timestamp packed d) :
    ∃ r operation, Store.change? r = some operation ∧ h.RemovesBy o.timestamp packed d operation ∧
      ∀ s : Pool × ω, h.remove key names superColumn o s = Client.call r s := by
  obtain ⟨path?, hpath⟩ := exists_removalPath hd.deletion
  cases path? with
  | some path =>
    -- the path is that of the same deletion
    obtain ⟨htable, d', hdeletion, hat⟩ := deletion_of_removalPath hpath o.timestamp
    cases hdeletion.symm.trans hd.deletion
    exact ⟨.remove packed path o.timestamp (h.writeLevel o), _, rfl,
      .path htable hat fun hknows => hknows.isSuper_of_removalPath hpath,
      remove_of_path hcells hd.key hpath⟩
  | none =>
    exact ⟨.batchMutate (.push .empty packed h.name (.delete d)) (h.writeLevel o), _, rfl,
      .batch fun hknows => hknows.isSuper_of_deletes hd, remove_of_no_path hcells hd hpath⟩

end Sent

/-- A removal that succeeds is one of cells, and it could be packed. -/
theorem of_remove {ω : Type} [Network ω] {o : WriteOptions} {s s' : Pool × ω}
    (hremove : h.remove key names superColumn o s = .ok () s') :
    h.schema.kind.isCounter = false ∧
      ∃ packed d, h.Deletes key names superColumn o.timestamp packed d := by
  obtain ⟨_, hcounters, hremove⟩ := Client.ofExcept_bind_eq_ok.1 hremove
  obtain ⟨packed, hkey, hremove⟩ := Client.ofExcept_bind_eq_ok.1 hremove
  obtain ⟨path?, hpath, hremove⟩ := Client.ofExcept_bind_eq_ok.1 hremove
  refine ⟨checkCounters_eq_ok.1 hcounters, packed, ?_⟩
  -- The deletion is the one that the path stands for, or the one that is packed without a path.
  cases path? with
  | some path =>
    obtain ⟨-, d, hdeletion, -⟩ := deletion_of_removalPath hpath o.timestamp
    exact ⟨d, hkey, hdeletion⟩
  | none =>
    obtain ⟨mutation, hdeletion, -⟩ := Client.ofExcept_bind_eq_ok.1 hremove
    obtain ⟨d, -, hd⟩ := exists_deletes hkey hdeletion
    exact ⟨d, hd⟩

end Handle

/-! ## Acceptance and effect -/

section Effect

variable {h : Handle} {timestamp : Int64} {packed : Bytes} {d : Deletion} {t : Store.Table}
  {store : Store} {name : String} {operation : Store.Operation}

private theorem Store.batch_push (w : Deletion) :
    store.batch (.push .empty packed name (.delete w)) =
      writeAll [(packed, name, .delete w)] store := by
  have hlist : (MutationMap.push .empty packed name (.delete w)).toList =
      [(packed, name, [.delete w])] := rfl
  cases ht : store.table name with
  | ok t =>
    refine batch_of_known fun request hrequest => ?_
    rw [hlist, List.mem_singleton] at hrequest
    exact ⟨t, hrequest ▸ ht⟩
  | error e =>
    -- the table is missed before the batch begins, or by its only write
    have hwrite : store.write packed name (.delete w) = .error e := by rw [write, ht]; rfl
    have hunknown : ([(packed, name, [Mutation.delete w])].forM fun request =>
        (store.table request.2.1).map fun _ => ()) = .error e := by
      show ((store.table name).map _ >>= fun _ => _) = _
      rw [ht]
      rfl
    rw [batch, hlist, hunknown, writeAll, hwrite]

/-- A batch of one deletion is answered as its write. -/
theorem Store.answer_push (w : Deletion) :
    store.answer (.batch (.push .empty packed name (.delete w))) =
      (fun _ => ()) <$> store.write packed name (.delete w) := by
  rw [answer, batch_push, writeAll]
  cases store.write packed name (.delete w) <;> rfl

theorem Store.apply_push (w : Deletion) :
    store.apply (.batch (.push .empty packed name (.delete w))) =
      store.afterAll (store.write packed name (.delete w)) := by
  rw [apply, batch_push, writeAll]
  cases store.write packed name (.delete w) <;> rfl

/-- A table takes a deletion unless it has no super columns and one is named. -/
theorem Store.exists_write_delete_iff (ht : store.table name = .ok t) :
    (∃ store', store.write packed name (.delete d) = .ok store') ↔
      (d.superColumn.isSome = true → t.isSuper = true) := by
  simp only [write_eq_ok, ht, Table.write, Table.delete_eq_ok, Except.ok.injEq]
  constructor
  · rintro ⟨_, _, rfl, _, ⟨h, -⟩, -⟩
    exact h
  · exact fun h => ⟨_, t, rfl, _, ⟨h, rfl⟩, rfl⟩

namespace Handle

theorem DeletesAt.isSome {path : ColumnPath} (hat : DeletesAt path timestamp d)
    (hsome : d.superColumn.isSome = true) : path.superColumn.isSome = true := by
  rcases hat with rfl | ⟨name, hname, -, -⟩
  · obtain ⟨table, superColumn, column⟩ := path
    cases superColumn <;> cases column <;> first | rfl | cases hsome
  · rw [hname]
    rfl

/-- An operation is accepted only if there is a table that takes the deletion. -/
theorem RemovesBy.admits (hby : h.RemovesBy timestamp packed d operation)
    (hanswer : store.answer operation = .ok ()) :
    ∃ t, store.table h.name = .ok t ∧ (d.superColumn.isSome = true → t.isSuper = true) := by
  cases hby with
  | path htable hat =>
    obtain ⟨store', hremove, -⟩ := map_eq_ok.1 hanswer
    obtain ⟨t, ht, -, hparent, -⟩ := Store.remove_eq_ok.1 hremove
    exact ⟨t, htable ▸ ht, fun hsome => hparent (hat.isSome hsome)⟩
  | batch =>
    rw [Store.answer_push] at hanswer
    obtain ⟨store', hwrite, -⟩ := map_eq_ok.1 hanswer
    obtain ⟨t, ht, -⟩ := Store.write_eq_ok.1 hwrite
    exact ⟨t, ht, (Store.exists_write_delete_iff ht).1 ⟨store', hwrite⟩⟩

/-- A table of cells accepts what a handle sends that knows it. -/
theorem RemovesBy.accepted (hby : h.RemovesBy timestamp packed d operation)
    (ht : store.table h.name = .ok t) (hknows : h.Knows t) (hcells : t.holdsCounters = false) :
    store.answer operation = .ok () := by
  cases hby with
  | @path path htable hat hsuper =>
    have hparent := hsuper hknows
    -- a path that names a super column was checked against the table's kind before
    have hdelete : (Store.deletionAt path (some timestamp)).superColumn.isSome = true →
        t.isSuper = true := fun h => hparent (DeletesAt.isSome (.inl rfl) h)
    obtain ⟨t', ht'⟩ : ∃ t', t.delete packed (Store.deletionAt path (some timestamp)) = .ok t' :=
      ⟨_, Store.Table.delete_eq_ok.2 ⟨hdelete, rfl⟩⟩
    have hremove : store.remove packed path (some timestamp) = .ok (store.setTable path.table t') :=
      Store.remove_eq_ok.2 ⟨t, htable ▸ ht, hcells, hparent, t', ht', rfl⟩
    rw [Store.answer, hremove]
    rfl
  | batch hsuper =>
    obtain ⟨store', hwrite⟩ := (Store.exists_write_delete_iff ht).2 (hsuper hknows)
    rw [Store.answer_push, hwrite]
    rfl

/-- An accepted operation is the write of the deletion, provided that the super columns of the table
have leaves. -/
theorem RemovesBy.write (hby : h.RemovesBy timestamp packed d operation)
    (ht : store.table h.name = .ok t) (hwell : t.holdsCounters = false → t.WellFormed)
    (hfilled : t.Filled) (hanswer : store.answer operation = .ok ()) :
    store.write packed h.name (.delete d) = .ok (store.apply operation) := by
  cases hby with
  | path htable hat =>
    obtain ⟨t', ht', hcells, hparent, t'', hdelete, hset⟩ :=
      Store.remove_eq_ok.1 (Store.ok_of_answer hanswer)
    rw [htable] at ht' hset
    cases ht.symm.trans ht'
    refine Store.write_eq_ok.2 ⟨t, ht, t'', ?_, hset⟩
    show t.delete packed d = .ok t''
    rcases hat with rfl | ⟨name, hname, hat, rfl⟩
    · exact hdelete
    · -- by its name a super column is deleted as from its place, for all of them have leaves
      have hsuper : t.isSuper = true := hparent (by rw [hname]; rfl)
      rw [Store.Table.delete_superColumn (hwell hcells) hfilled hsuper, ← hat]
      exact hdelete
  | batch =>
    rw [Store.answer_push] at hanswer
    rw [Store.apply_push]
    exact Store.ok_of_answer hanswer

end Handle

end Effect

end WideColumn
