import WideColumn.Proofs.Batch.Removal
import WideColumn.Proofs.Store.DeletionByName

/-!
# The routes of a removal

A removal can be made as a whole or name by name, a super column can be given as the place to remove
from or by its name, and any removal can be sent by a batch. On a table of cells that the handle
knows, all of these routes lead to the same store.

- `Handle.Manages`: a handle and a table of cells that it knows, with leaves in all super columns;
- `Manages.remove`, `Manages.removeEach` and `Manages.removeAndSend`: each route is a write;
- `Handle.Agree`: routes that all are refused or all leave the same store;
- `removal_routes`: the routes of every removal agree in every reachable state.
-/

namespace WideColumn

namespace Handle

variable {h : Handle} {key : Value} {names : Option (List Value)} {superColumn : Option Value}
  {timestamp : Int64} {packed : Bytes} {d : Deletion} {t : Store.Table} {s s' : Pool × Cluster}
  {store store' : Store} {level : Consistency} {limit : Option Nat} {o : WriteOptions}

/-! ## Tables of cells -/

/-- A table of cells that a handle knows. Its super columns have leaves. -/
structure Manages (h : Handle) (store : Store) (t : Store.Table) : Prop where
  ordered : store.Ordered
  table : store.table h.name = .ok t
  knows : h.Knows t
  cells : t.holdsCounters = false
  wellFormed : t.WellFormed
  filled : t.Filled

/-- A deletion leaves such a table. -/
theorem Manages.write (hm : h.Manages store t)
    (hwrite : store.write packed h.name (.delete d) = .ok store') : ∃ t', h.Manages store' t' := by
  have hordered := (Store.row?_write hm.ordered hwrite).1
  obtain ⟨t₀, ht₀, t', ht', rfl⟩ := Store.write_eq_ok.1 hwrite
  cases hm.table.symm.trans ht₀
  have hemptied : t'.emptied = t.emptied := Store.Table.emptied_of_write ht'
  refine ⟨t', hordered, ?_, ?_, ?_, ?_, ?_⟩
  · rw [Store.table_setTable hm.ordered.tables, if_pos rfl]
  · exact hm.knows.of_emptied hemptied
  · have hsame : t'.emptied.holdsCounters = t.emptied.holdsCounters :=
      congrArg Store.Table.holdsCounters hemptied
    exact hsame.trans hm.cells
  · exact Store.Table.WellFormed.write (w := .delete d) hm.wellFormed trivial ht'
  · exact Store.Table.Filled.write (w := .delete d) hm.filled trivial ht'

/-! ## Routes -/

/-- What can be packed is removed at once, as the deletion that it stands for. -/
theorem Manages.remove (hm : h.Manages s.2.store t) (hs : Serving s)
    (hd : h.Deletes key names superColumn o.timestamp packed d) :
    ∃ s', h.remove key names superColumn o s = .ok () s' ∧ Serving s' ∧
      s.2.store.write packed h.name (.delete d) = .ok s'.2.store := by
  obtain ⟨r, operation, hr, hby, hcall⟩ :=
    @remove_eq_call _ _ _ _ _ _ Cluster _ o (hm.knows.isCounter.trans hm.cells) hd
  have hanswer := hby.accepted hm.table hm.knows hm.cells
  obtain ⟨s', hs', hstore, hchange⟩ := hs.change hr hanswer
  refine ⟨s', (hcall s).trans hchange, hs', ?_⟩
  rw [hstore]
  exact hby.write hm.table (fun _ => hm.wellFormed) hm.filled hanswer

/-- It is removed by a batch in the same way. -/
theorem Manages.removeAndSend (level : Consistency) (limit : Option Nat)
    (hm : h.Manages s.2.store t) (hs : Serving s)
    (hd : h.Deletes key names superColumn timestamp packed d) :
    ∃ s', (Batch.empty level limit).removeAndSend h key names superColumn timestamp s = .ok () s' ∧
      Serving s' ∧ s.2.store.write packed h.name (.delete d) = .ok s'.2.store := by
  obtain ⟨store, hwrite⟩ :=
    (Store.exists_write_delete_iff hm.table).2 (hm.knows.isSuper_of_deletes hd)
  obtain ⟨s', hsend, hs', rfl⟩ := Batch.exists_removeAndSend level limit hs hd hwrite
  exact ⟨s', hsend, hs', hwrite⟩

/-- Names that can be packed are deleted by their packed forms. -/
theorem deletion_ofNames {columns : List Value} {listed : List Bytes} {given : Option Bytes}
    (hnonempty : columns ≠ [])
    (hlisted : columns.mapM (packName (h.schema.sliceType superColumn.isSome)) = .ok listed)
    (hgiven : h.packSuperColumn superColumn = .ok given) (timestamp : Int64) :
    h.deletion (some columns) superColumn timestamp =
      .ok (.delete (.ofNames (some timestamp) given listed)) := by
  have hpredicate := packNames_eq_ok.2 ⟨hnonempty, listed, hlisted, rfl⟩
  refine deletion_eq_ok.2 ⟨some (.ofNames listed), ?_, given, hgiven, rfl⟩
  exact map_eq_ok.2 ⟨_, hpredicate, rfl⟩

/-- Names that are removed one after the other are deleted one after the other. -/
theorem Manages.removeEach {columns : List Value} {given : Option Bytes}
    (hkey : h.packKey key = .ok packed) (hgiven : h.packSuperColumn superColumn = .ok given) :
    ∀ {listed : List Bytes} {s : Pool × Cluster} {t : Store.Table}, Serving s →
      h.Manages s.2.store t →
      columns.mapM (packName (h.schema.sliceType superColumn.isSome)) = .ok listed →
      ∃ s', (columns.forM fun column => h.remove key (some [column]) superColumn o) s = .ok () s' ∧
        Serving s' ∧
        Store.writeAll (listed.map fun name =>
          (packed, h.name, .delete (.ofNames (some o.timestamp) given [name]))) s.2.store =
            (.ok (), s'.2.store) := by
  -- By induction on the names. A removal leaves a table for which the others can be removed.
  induction columns with
  | nil =>
    intro listed s t hs _ hlisted
    cases hlisted
    exact ⟨s, rfl, hs, rfl⟩
  | cons column columns ih =>
    intro listed s t hs hm hlisted
    simp only [List.mapM_cons, bind_eq_ok, pure_eq_ok] at hlisted
    obtain ⟨name, hname, others, hothers, rfl⟩ := hlisted
    have hd : h.Deletes key (some [column]) superColumn o.timestamp packed
        (.ofNames (some o.timestamp) given [name]) :=
      ⟨hkey, deletion_ofNames (List.cons_ne_nil _ _) (mapM_singleton_eq_ok.2 ⟨name, hname, rfl⟩)
        hgiven _⟩
    obtain ⟨s₁, hfirst, hs₁, hwrite⟩ := hm.remove hs hd
    obtain ⟨t₁, hm₁⟩ := hm.write hwrite
    obtain ⟨s', hrest, hs', hwrites⟩ := ih hs₁ hm₁ hothers
    refine ⟨s', ?_, hs', ?_⟩
    · show (h.remove key (some [column]) superColumn o >>= fun _ => _) s = _
      rw [Client.bind_of_ok hfirst]
      exact hrest
    · rw [List.map_cons, Store.writeAll, hwrite]
      exact hwrites

/-! ## Refusals -/

/-- A deletion of names fails as the names do, or as their super column does. -/
theorem deletion_eq_error {columns : List Value} {listed : List Bytes} {e : ClientError}
    (hnonempty : columns ≠ [])
    (hlisted : columns.mapM (packName (h.schema.sliceType superColumn.isSome)) = .ok listed)
    (hgiven : h.packSuperColumn superColumn = .error e) (timestamp : Int64) :
    h.deletion (some columns) superColumn timestamp = .error e := by
  have hpredicate := packNames_eq_ok.2 ⟨hnonempty, listed, hlisted, rfl⟩
  simp only [deletion, hpredicate, hgiven]
  rfl

/-- If a deletion fails, its path fails in the same way, unless the removal has no path. -/
theorem removalPath_of_refused {e : ClientError}
    (hdeletion : h.deletion names superColumn timestamp = .error e) :
    h.removalPath names superColumn = .error e ∨ h.removalPath names superColumn = .ok none := by
  rcases names with _ | _ | ⟨column, _ | _⟩
  · left
    cases hgiven : h.packSuperColumn superColumn with
    | ok given => simp [deletion, hgiven, pure, Except.pure, bind, Except.bind] at hdeletion
    | error e' =>
      have hsame : h.deletion none superColumn timestamp = .error e' := by
        rw [deletion, hgiven]
        rfl
      cases hsame.symm.trans hdeletion
      rw [removalPath, hgiven]
      rfl
  · exact .inr rfl
  · left
    cases hname : packName (h.schema.sliceType superColumn.isSome) column with
    | error e' =>
      have hsame : h.deletion (some [column]) superColumn timestamp = .error e' := by
        simp only [deletion, packNames, List.isEmpty_cons, List.mapM_cons, hname]
        rfl
      cases hsame.symm.trans hdeletion
      rw [removalPath, hname]
      rfl
    | ok name =>
      -- the name can be packed, so it is the super column that cannot
      have hlisted := mapM_singleton_eq_ok.2 ⟨name, hname, rfl⟩
      cases hgiven : h.packSuperColumn superColumn with
      | ok given =>
        have hd := deletion_ofNames (List.cons_ne_nil _ _) hlisted hgiven timestamp
        cases hd.symm.trans hdeletion
      | error e' =>
        have hsame := deletion_eq_error (List.cons_ne_nil _ _) hlisted hgiven timestamp
        cases hsame.symm.trans hdeletion
        rw [removalPath, hname, ok_bind, hgiven]
        cases superColumn with
        | none => cases hgiven
        | some superColumn =>
          rw [Option.isNone_some, Bool.and_false]
          rfl
  · exact .inr rfl

/-- The fault of a removal that cannot be packed. -/
inductive Unpacked (h : Handle) (key : Value) (names : Option (List Value))
    (superColumn : Option Value) (timestamp : Int64) (e : ClientError) : Prop where
  | key (hkey : h.packKey key = .error e)
  | deletion {packed : Bytes} (hkey : h.packKey key = .ok packed)
      (hdeletion : h.deletion names superColumn timestamp = .error e)

/-- A removal can be packed or has a fault. -/
theorem deletes_or_unpacked (h : Handle) (key : Value) (names : Option (List Value))
    (superColumn : Option Value) (timestamp : Int64) :
    (∃ packed d, h.Deletes key names superColumn timestamp packed d) ∨
      ∃ e, h.Unpacked key names superColumn timestamp e := by
  cases hkey : h.packKey key with
  | error e => exact .inr ⟨e, .key hkey⟩
  | ok packed =>
    cases hdeletion : h.deletion names superColumn timestamp with
    | error e => exact .inr ⟨e, .deletion hkey hdeletion⟩
    | ok mutation =>
      obtain ⟨d, -, hd⟩ := exists_deletes hkey hdeletion
      exact .inl ⟨packed, d, hd⟩

/-- A removal with a fault is refused before anything is sent. -/
theorem Unpacked.remove {e : ClientError} (hcells : h.schema.kind.isCounter = false)
    (hu : h.Unpacked key names superColumn o.timestamp e) (s : Pool × Cluster) :
    h.remove key names superColumn o s = .error e s := by
  have hcounters : h.checkCounters false = .ok () := checkCounters_eq_ok.2 hcells
  cases hu with
  | key hkey =>
    rw [Handle.remove, hcounters, hkey]
    rfl
  | deletion hkey hdeletion =>
    rcases removalPath_of_refused hdeletion with hpath | hpath
    · rw [Handle.remove, hcounters, hkey, hpath]
      rfl
    · -- without a path, it is the deletion that is packed and sent
      rw [Handle.remove, hcounters, hkey, hpath, hdeletion]
      rfl

theorem Unpacked.removeAndSend {e : ClientError}
    (hu : h.Unpacked key names superColumn timestamp e) (s : Pool × Cluster) :
    (Batch.empty level limit).removeAndSend h key names superColumn timestamp s = .error e s := by
  cases hu with
  | key hkey =>
    rw [Batch.removeAndSend, Batch.remove, Batch.queueRemove, hkey]
    rfl
  | deletion hkey hdeletion =>
    rw [Batch.removeAndSend, Batch.remove, Batch.queueRemove, hkey, hdeletion]
    rfl

/-! ## Agreement -/

/-- Routes of a removal agree if its deletion is what all of them leave, or if it cannot be packed
and all of them are refused for that reason. -/
inductive Agree (h : Handle) (key : Value) (names : Option (List Value))
    (superColumn : Option Value) (timestamp : Int64) (s : Pool × Cluster)
    (routes : List (Client Cluster Unit)) : Prop where
  | refused {e : ClientError} (hunpacked : h.Unpacked key names superColumn timestamp e)
      (hroutes : ∀ route ∈ routes, route s = .error e s)
  | removed {packed : Bytes} {d : Deletion} {store : Store}
      (hd : h.Deletes key names superColumn timestamp packed d)
      (hwrite : s.2.store.write packed h.name (.delete d) = .ok store)
      (hroutes : ∀ route ∈ routes, ∃ s', route s = .ok () s' ∧ Serving s' ∧ s'.2.store = store)

/-- Every removal can be made at once or by a batch. -/
theorem Manages.agree (hm : h.Manages s.2.store t) (hs : Serving s) (key : Value)
    (names : Option (List Value)) (superColumn : Option Value) (o : WriteOptions)
    (level : Consistency) (limit : Option Nat) :
    h.Agree key names superColumn o.timestamp s
      [h.remove key names superColumn o,
        (Batch.empty level limit).removeAndSend h key names superColumn o.timestamp] := by
  rcases deletes_or_unpacked h key names superColumn o.timestamp with ⟨packed, d, hd⟩ | ⟨e, hu⟩
  · -- the deletion can be packed: both routes are answered and write it
    obtain ⟨s', hremove, hs', hwrite⟩ := hm.remove hs hd
    obtain ⟨s'', hsend, hs'', hwrite'⟩ := hm.removeAndSend level limit hs hd
    have hstore : s''.2.store = s'.2.store := Except.ok.inj (hwrite'.symm.trans hwrite)
    refine .removed hd hwrite ?_
    simp only [List.forall_mem_cons]
    exact ⟨⟨s', hremove, hs', rfl⟩, ⟨s'', hsend, hs'', hstore⟩, List.forall_mem_nil _⟩
  · -- it cannot be packed, and both routes fail for that reason
    refine .refused hu ?_
    simp only [List.forall_mem_cons]
    exact ⟨hu.remove (hm.knows.isCounter.trans hm.cells) s, hu.removeAndSend s,
      List.forall_mem_nil _⟩

theorem Agree.cons {routes : List (Client Cluster Unit)} {route : Client Cluster Unit}
    (hagree : h.Agree key names superColumn timestamp s routes)
    (hrefused : ∀ {e}, h.Unpacked key names superColumn timestamp e → route s = .error e s)
    (hremoved : ∀ {packed d store}, h.Deletes key names superColumn timestamp packed d →
      s.2.store.write packed h.name (.delete d) = .ok store →
        ∃ s', route s = .ok () s' ∧ Serving s' ∧ s'.2.store = store) :
    h.Agree key names superColumn timestamp s (route :: routes) := by
  cases hagree with
  | refused hu hroutes => exact .refused hu (List.forall_mem_cons.2 ⟨hrefused hu, hroutes⟩)
  | removed hd hwrite hroutes =>
    exact .removed hd hwrite (List.forall_mem_cons.2 ⟨hremoved hd hwrite, hroutes⟩)

/-- Names that can all be packed can be removed one by one as well. -/
theorem Manages.agree_each (hm : h.Manages s.2.store t) (hs : Serving s) (key : Value)
    {columns : List Value} (superColumn : Option Value) (o : WriteOptions) (level : Consistency)
    (limit : Option Nat) (hnonempty : columns ≠ []) {listed : List Bytes}
    (hlisted : columns.mapM (packName (h.schema.sliceType superColumn.isSome)) = .ok listed) :
    h.Agree key (some columns) superColumn o.timestamp s
      [columns.forM fun column => h.remove key (some [column]) superColumn o,
        h.remove key (some columns) superColumn o,
        (Batch.empty level limit).removeAndSend h key (some columns) superColumn o.timestamp] := by
  refine (hm.agree hs key (some columns) superColumn o level limit).cons ?_ ?_
  · -- the first name is refused for the fault that they have in common
    intro e hu
    obtain ⟨column, others, rfl⟩ := List.exists_cons_of_ne_nil hnonempty
    have hfirst : h.Unpacked key (some [column]) superColumn o.timestamp e := by
      cases hu with
      | key hkey => exact .key hkey
      | deletion hkey hdeletion =>
        obtain ⟨name, hname⟩ := exists_of_mapM hlisted List.mem_cons_self
        refine .deletion hkey ?_
        cases hgiven : h.packSuperColumn superColumn with
        | ok given =>
          cases (deletion_ofNames hnonempty hlisted hgiven _).symm.trans hdeletion
        | error e' =>
          cases (deletion_eq_error hnonempty hlisted hgiven _).symm.trans hdeletion
          exact deletion_eq_error (List.cons_ne_nil _ _) (mapM_singleton_eq_ok.2 ⟨name, hname, rfl⟩)
            hgiven _
    show (h.remove key (some [column]) superColumn o >>= fun _ => _) s = _
    exact Client.bind_of_error (hfirst.remove (hm.knows.isCounter.trans hm.cells) s)
  · intro packed d store hd hwrite
    cases hgiven : h.packSuperColumn superColumn with
    | error e =>
      cases (deletion_eq_error hnonempty hlisted hgiven _).symm.trans hd.deletion
    | ok given =>
      cases (deletion_ofNames hnonempty hlisted hgiven _).symm.trans hd.deletion
      obtain ⟨s', heach, hs', hwrites⟩ := hm.removeEach hd.key hgiven hs hlisted
      have hlayout := hm.knows.isSuper_of_packSuperColumn hgiven
      have hne : listed ≠ [] := by
        rintro rfl
        obtain ⟨column, others, rfl⟩ := List.exists_cons_of_ne_nil hnonempty
        obtain ⟨name, hname⟩ := exists_of_mapM hlisted List.mem_cons_self
        exact List.not_mem_nil ((mem_of_mapM hlisted).2 ⟨column, List.mem_cons_self, hname⟩)
      have hsame := Store.writeAll_ofNames packed (some o.timestamp) hm.ordered hm.table
        hm.wellFormed hlayout hne
      -- the names one by one on the left, the deletion of all of them on the right
      rw [hwrites, Store.writeAll_singleton hwrite] at hsame
      exact ⟨s', heach, hs', congrArg Prod.snd hsame⟩

/-- On a table with super columns, a single name at the top of a row is a super column. -/
theorem remove_superColumn (hsuper : h.schema.kind.isSuper = true)
    (htype : h.schema.superType.isSome = true) (key superColumn : Value) (o : WriteOptions) :
    (h.remove key (some [superColumn]) none o : Client Cluster Unit) =
      h.remove key none (some superColumn) o := by
  obtain ⟨type, htype⟩ := Option.isSome_iff_exists.1 htype
  -- Both calls pack the name by the type of super columns and come to the same path.
  have hpath : h.removalPath (some [superColumn]) none = h.removalPath none (some superColumn) := by
    have hslice : h.schema.sliceType (none : Option Value).isSome = type := by
      rw [TableSchema.sliceType, htype]
      rfl
    have hpacked : h.packSuperColumn (some superColumn) = some <$> packName type superColumn := by
      rw [packSuperColumn, packSuperName, htype]
    rw [removalPath, removalPath, hslice, hsuper, hpacked]
    cases packName type superColumn <;> rfl
  rw [Handle.remove, Handle.remove, hpath]
  cases hremoval : h.removalPath none (some superColumn) with
  | error e => rfl
  | ok path? =>
    cases path? with
    | some path => rfl
    | none =>
      -- A super column that is removed as a whole has a path, so nothing is sent in its place.
      simp only [removalPath, bind_eq_ok, pure_eq_ok, reduceCtorEq, and_false, exists_false]
        at hremoval

end Handle

/-! ## Main result -/

/-- In every reachable state, the routes of a removal from a table of cells agree, if the handle
knows the table and its super columns have leaves. Names can be removed together or one by one, and
a super column from its place or by its name; everything can be removed at once or by a batch. -/
theorem removal_routes {registry : Registry} {keyspace : KeyspaceDef}
    {history : List Store.Operation} {h : Handle} {t : Store.Table} {s : Pool × Cluster}
    (hs : Serving s) (hstore : s.2.store = (Store.ofKeyspace registry keyspace).run history)
    (ht : s.2.store.table h.name = .ok t) (hknows : h.Knows t) (hcells : t.holdsCounters = false)
    (hfilled : t.Filled) (key : Value) (o : WriteOptions) (level : Consistency)
    (limit : Option Nat) :
    (∀ columns superColumn, columns ≠ [] →
      (∀ column ∈ columns, ∃ name,
        packName (h.schema.sliceType superColumn.isSome) column = .ok name) →
      h.Agree key (some columns) superColumn o.timestamp s
        [columns.forM fun column => h.remove key (some [column]) superColumn o,
          h.remove key (some columns) superColumn o,
          (Batch.empty level limit).removeAndSend h key (some columns) superColumn o.timestamp]) ∧
    (t.isSuper = true → ∀ superColumn, h.Agree key none (some superColumn) o.timestamp s
      [h.remove key (some [superColumn]) none o,
        h.remove key none (some superColumn) o,
        (Batch.empty level limit).removeAndSend h key none (some superColumn) o.timestamp]) ∧
    h.Agree key none none o.timestamp s
      [h.remove key none none o,
        (Batch.empty level limit).removeAndSend h key none none o.timestamp] := by
  have hm : h.Manages s.2.store t :=
    { ordered := hstore ▸ Store.ordered_run registry keyspace history
      table := ht
      knows := hknows
      cells := hcells
      wellFormed := Store.wellFormed_of_cells (hstore ▸ ht) hcells
      filled := hfilled }
  refine ⟨fun columns superColumn hnonempty hpacked => ?_, fun hsuper superColumn => ?_,
    hm.agree hs key none none o level limit⟩
  · obtain ⟨listed, hlisted⟩ := exists_mapM_eq_ok hpacked
    exact hm.agree_each hs key superColumn o level limit hnonempty hlisted
  · have hsame :=
      Handle.remove_superColumn (hknows.isSuper.trans hsuper) (hknows.superType.trans hsuper)
      key superColumn o
    have hagree := hm.agree hs key none (some superColumn) o level limit
    -- the new route is the same program as the first of the others
    cases hagree with
    | refused hu hroutes =>
      exact .refused hu (List.forall_mem_cons.2 ⟨hsame ▸ hroutes _ List.mem_cons_self, hroutes⟩)
    | removed hd hwrite hroutes =>
      exact .removed hd hwrite
        (List.forall_mem_cons.2 ⟨hsame ▸ hroutes _ List.mem_cons_self, hroutes⟩)

/-- Two columns of a row, each in a super column of its own. -/
def twoSupers : MutationMap :=
  MutationMap.empty.extend [114] "links"
    [.insert (.superColumn [97] [⟨[0, 0, 0, 0, 0, 0, 0, 1], [120], 1, none⟩]),
      .insert (.superColumn [98] [⟨[0, 0, 0, 0, 0, 0, 0, 2], [121], 1, none⟩])]

theorem removal_routes_twoSupers :
    ∃ s, Serving s ∧ s.2.store = (Store.ofKeyspace .standard linksKeyspace).run [.batch twoSupers] ∧
      linksHandle.Agree (.bytes [114]) (some [.text "a", .text "b"]) none 6 s
        [[.text "a", .text "b"].forM fun column =>
            linksHandle.remove (.bytes [114]) (some [column]) none ⟨6, none, none⟩,
          linksHandle.remove (.bytes [114]) (some [.text "a", .text "b"]) none ⟨6, none, none⟩,
          (Batch.empty .one none).removeAndSend linksHandle (.bytes [114])
            (some [.text "a", .text "b"]) none 6] ∧
      linksHandle.Deletes (.bytes [114]) (some [.text "a", .text "b"]) none 6 [114]
        (.ofNames (some 6) none [[97], [98]]) := by
  have hserving : Serving (served linksKeyspace) := serving_served (by decide +kernel)
  obtain ⟨s, hs, hstore, -⟩ :=
    hserving.change (r := .batchMutate twoSupers .one) rfl (by decide +kernel)
  have hstore' : s.2.store = (Store.ofKeyspace .standard linksKeyspace).run [.batch twoSupers] :=
    hstore
  obtain ⟨t, ht, hemptied⟩ :=
    @Store.table_run .standard linksKeyspace (by decide +kernel) "links" links
      (by decide +kernel) [.batch twoSupers]
  have hknows : linksHandle.Knows t :=
    (Handle.knows_ofDef .standard .default links).of_emptied hemptied
  have hcells : t.holdsCounters = false := hknows.isCounter.symm.trans (by decide +kernel)
  have hwrites : Store.batchWrites twoSupers =
      [([114], "links", .superColumn [97] [⟨[0, 0, 0, 0, 0, 0, 0, 1], [120], 1, none⟩]),
        ([114], "links", .superColumn [98] [⟨[0, 0, 0, 0, 0, 0, 0, 2], [121], 1, none⟩])] := by
    decide +kernel
  -- Both super columns were written with a leaf.
  have hfilled : t.Filled := by
    refine Store.filled_of_run (fun operation hmem key name w hw => ?_) ht
    cases List.mem_singleton.1 hmem
    have hw' : (key, name, w) ∈ Store.batchWrites twoSupers := hw
    rw [hwrites] at hw'
    simp only [List.mem_cons, List.not_mem_nil, or_false, Prod.mk.injEq] at hw'
    rcases hw' with ⟨-, -, rfl⟩ | ⟨-, -, rfl⟩
    · exact List.cons_ne_nil _ _
    · exact List.cons_ne_nil _ _
  -- The names can be packed, as the handle packs texts.
  have hpacked : ∀ column ∈ [Value.text "a", .text "b"], ∃ name,
      packName (linksHandle.schema.sliceType (none : Option Value).isSome) column = .ok name := by
    intro column hmem
    simp only [List.mem_cons, List.not_mem_nil, or_false] at hmem
    rcases hmem with rfl | rfl
    · exact isOk_iff.1 (by decide +kernel)
    · exact isOk_iff.1 (by decide +kernel)
  refine ⟨s, hs, hstore', ?_, by decide +kernel, by decide +kernel⟩
  exact (removal_routes hs hstore' (hstore'.symm ▸ ht) hknows hcells hfilled (.bytes [114])
    ⟨6, none, none⟩ .one none).1 _ none (List.cons_ne_nil _ _) hpacked

/-- A table that is defined a second time under its name, without super columns. -/
def flatLinks : TableDef := { TableDef.ofName "web" "links" with comparator := "UTF8Type" }

def linksTwice : KeyspaceDef := ((KeyspaceDef.ofName "web").withTable links).withTable flatLinks

/-- Two columns of a row of the second table. -/
def twoColumns : MutationMap :=
  MutationMap.empty.extend [114] "links"
    [.insert (.column ⟨[97], [49], 1, none⟩), .insert (.column ⟨[98], [50], 1, none⟩)]

/-- A handle has the first definition of a name and the store the last one. If these differ in
layout, names are removed together, but one by one they are refused. -/
theorem removal_routes_twice :
    ∃ s₁ s₂ s₃ s₄,
      Handle.openTable .standard "links" .default (served linksTwice) = .ok linksHandle s₁ ∧
      Client.call (.batchMutate twoColumns .one) s₁ = .ok () s₂ ∧ Serving s₂ ∧
      (∃ t, s₂.2.store.table "links" = .ok t ∧ t.holdsCounters = false ∧ t.Filled) ∧
      linksHandle.remove (.bytes [114]) (some [.text "a", .text "b"]) none ⟨6, none, none⟩ s₂ =
        .ok () s₃ ∧
      ([.text "a", .text "b"].forM fun column =>
        linksHandle.remove (.bytes [114]) (some [column]) none ⟨6, none, none⟩) s₂ =
          .error (.invalidRequest "links is a standard column family; super_column is not allowed")
          s₄ ∧
      s₃.2.store ≠ s₄.2.store := by
  have hserving : Serving (served linksTwice) := serving_served (by decide +kernel)
  obtain ⟨s₁, ⟨hs₁, hstore₁⟩, hopen⟩ :=
    @Handle.exists_openTable .standard "links" .default (served linksTwice) _ ⟨hserving, rfl⟩
      (by decide +kernel) (by decide +kernel) links (by decide +kernel)
  have hanswer : s₁.2.store.answer (.batch twoColumns) = .ok () := by
    rw [hstore₁]
    decide +kernel
  obtain ⟨s₂, hs₂, hstore₂, hinsert⟩ := hs₁.change (r := .batchMutate twoColumns .one) rfl hanswer
  rw [hstore₁] at hstore₂
  have hfilled : ∃ t, s₂.2.store.table "links" = .ok t ∧ t.holdsCounters = false ∧ t.Filled := by
    have hcontent :
        (fun t : Store.Table => (t.holdsCounters, t.rows)) <$> s₂.2.store.table "links" =
        .ok (false, [([114], .flat [([97], .cell [49] 1 none), ([98], .cell [50] 1 none)])]) := by
      rw [hstore₂]
      decide +kernel
    obtain ⟨t, ht, heq⟩ := map_eq_ok.1 hcontent
    obtain ⟨hcells, hrows⟩ := Prod.mk.inj heq
    refine ⟨t, ht, hcells, fun e he => ?_⟩
    rw [hrows, List.mem_singleton] at he
    subst he
    trivial
  -- together the names go by a batch, which does not name super columns
  have hd : linksHandle.Deletes (.bytes [114]) (some [.text "a", .text "b"]) none 6 [114]
      (.ofNames (some 6) none [[97], [98]]) :=
    ⟨by decide +kernel, by decide +kernel⟩
  have hpath : linksHandle.removalPath (some [.text "a", .text "b"]) none = .ok none := by
    decide +kernel
  have hcells : linksHandle.schema.kind.isCounter = false := by decide +kernel
  have htogether : s₂.2.store.answer
      (.batch (.push .empty [114] "links" (.delete (.ofNames (some 6) none [[97], [98]])))) =
      .ok () := by
    rw [hstore₂]
    decide +kernel
  obtain ⟨s₃, -, hstore₃, hremove⟩ := hs₂.change (r := .batchMutate
    (.push .empty [114] "links" (.delete (.ofNames (some 6) none [[97], [98]]))) .one) rfl htogether
  -- one by one they go as super columns, which the table does not have
  have hpath' : linksHandle.removalPath (some [.text "a"]) none =
      .ok (some ⟨"links", some [97], none⟩) := by
    decide +kernel
  obtain ⟨s₄, -, hstore₄, hrefused⟩ :=
    servingInvariant_serving.call hs₂ (.remove [114] ⟨"links", some [97], none⟩ 6 .one)
  have hanswer' : (s₂.2.store.serve (.remove [114] ⟨"links", some [97], none⟩ 6 .one)).1 =
      .error (.invalidRequest
        "links is a standard column family; super_column is not allowed") := by
    rw [hstore₂]
    decide +kernel
  rw [hanswer'] at hrefused
  refine ⟨s₁, s₂, s₃, s₄, hopen, hinsert, hs₂, hfilled, ?_, ?_, fun hsame => ?_⟩
  · exact (Handle.remove_of_no_path hcells hd hpath s₂).trans hremove
  · refine Client.bind_of_error ?_
    exact (Handle.remove_of_path (o := ⟨6, none, none⟩) hcells hd.key hpath' s₂).trans hrefused
  · have hgone : s₃.2.store.leaf? "links" [114] none [97] = none := by
      rw [hstore₃, hstore₂]
      decide +kernel
    have hkept : s₄.2.store.leaf? "links" [114] none [97] = some (.cell [49] 1 none) := by
      rw [hstore₄, hstore₂]
      decide +kernel
    rw [hsame, hkept] at hgone
    cases hgone

end WideColumn
