import WideColumn.Handle.Write
import WideColumn.Proofs.Handle.Mutations
import WideColumn.Proofs.Store.Batch

/-!
# Writing and reading back

What a handle packs, the store accepts, for both have the types of one definition. A column that was
written is read back by its name, and nothing else in the store has changed.

- `Handle.Answers`: a read of one column by its name;
- `answers_of_leaf?`: it answers the leaf at the packed address;
- `writeAll_insertMutations`: an insertion that passes the checks of the handle is accepted;
- `inserted_of_puts`: what packed columns leave that are written one after the other;
- `insert_reads_back`: what an insertion leaves in every reachable state.
-/

namespace WideColumn

namespace Handle

variable {h : Handle} {t : Store.Table} {s : Pool × Cluster} {key column : Value}
  {superColumn : Option Value} {packed : Bytes}

/-! ## Reading by name -/

/-- A read of a column by its name answers one cell. -/
def Answers (h : Handle) (key : Value) (superColumn : Option Value) (column : Value) (cell : Cell)
    (s : Pool × Cluster) : Prop :=
  ∀ q : SliceQuery, q.names = some [column] → q.superColumn = superColumn →
    ∃ s', h.get? key q s = .ok (some ⟨key, [cell]⟩) s'

/-- A read by name asks for the packed address. -/
theorem sliceRequest_of_address
    (hsuper : h.schema.sliceType superColumn.isSome = h.schema.columnType)
    (hkey : h.packKey key = .ok packed) {address : Option Bytes × Bytes}
    (haddress : h.address superColumn column = .ok address) {q : SliceQuery}
    (hnames : q.names = some [column]) (hq : q.superColumn = superColumn) :
    h.sliceRequest key q =
      .ok (.getSlice packed ⟨h.name, address.1⟩ (.ofNames [address.2]) (h.readLevel q)) := by
  obtain ⟨hpacked, hcolumn⟩ := address_eq_ok.1 haddress
  rw [packLeafName] at hcolumn
  simp only [sliceRequest, parent, predicate, SliceQuery.predicate, hq, hnames, hkey,
    hpacked, hsuper,
    packNames, List.mapM_cons, List.mapM_nil, hcolumn, ok_bind]
  rfl

/-- A name that packs is asked for among the leaves if a leaf is there. -/
theorem sliceType_of_leaf? (hagrees : h.Agrees t) {row : Store.RowData}
    (hrow : Store.RowData.WellFormed t row) {address : Option Bytes × Bytes}
    (haddress : h.address superColumn column = .ok address) {leaf : Store.Leaf}
    (hleaf : row.leaf? address.1 address.2 = some leaf) :
    h.schema.sliceType superColumn.isSome = h.schema.columnType := by
  have hpacked := (address_eq_ok.1 haddress).1
  rw [TableSchema.sliceType, hagrees.superType]
  cases hsuper : t.isSuper with
  | false => rfl
  | true =>
    rw [if_pos rfl]
    cases superColumn with
    | some superColumn => rfl
    | none =>
      -- at the top of a row of super columns there are no leaves
      rw [← Except.ok.inj hpacked] at hleaf
      cases row with
      | flat leaves => cases hsuper.symm.trans hrow.1
      | grouped supers => cases hleaf

/-- A read by name answers the leaf at the packed address. -/
theorem answers_of_leaf? (hagrees : h.Agrees t) (hs : Serving s)
    (ht : s.2.store.table h.name = .ok t) (hwell : t.WellFormed) (hkey : h.packKey key = .ok packed)
    {address : Option Bytes × Bytes} (haddress : h.address superColumn column = .ok address)
    {leaf : Store.Leaf} (hleaf : s.2.store.leaf? h.name packed address.1 address.2 = some leaf)
    {cell : Cell} (hcell : h.decodeEntry (leaf.toEntry address.2) = .ok cell) :
    h.Answers key superColumn column cell s := by
  intro q hnames hq
  obtain ⟨row, hrow, hleaf⟩ := Option.bind_eq_some_iff.1 hleaf
  have hrow' := hwell.row ht row hrow
  rw [Store.row?, ht] at hrow
  have hrequest := sliceRequest_of_address (sliceType_of_leaf? hagrees hrow' haddress hleaf) hkey
    haddress hnames hq
  obtain ⟨hsuper, hexact⟩ := exact_of_address hagrees haddress
  -- A super column is given exactly if the table has them.
  have hcheck : t.checkParent address.1 = .ok () := by
    refine Store.Table.checkParent_eq_ok.2 fun hsome => ?_
    obtain ⟨name, hname⟩ := Option.isSome_iff_exists.1 hsome
    exact (hsuper name hname).1
  -- The slice of one name is the leaf at its address.
  have hread : s.2.store.serve (.getSlice packed ⟨h.name, address.1⟩ (.ofNames [address.2])
      (h.readLevel q)) = (.ok [leaf.toEntry address.2], s.2.store) := by
    have hslice : s.2.store.slice packed ⟨h.name, address.1⟩ (.ofNames [address.2]) =
        .ok [leaf.toEntry address.2] := by
      simp only [Store.slice, ht, hcheck, hrow, ok_bind]
      exact congrArg Except.ok
        (Store.slice_of_leaf? hrow' (fun name hname => (hsuper name hname).2) hexact hleaf)
    simp only [Store.serve, Cluster.serve, hslice]
    rfl
  have hserving : ServingFrom s.2.store s := ⟨hs, rfl⟩
  obtain ⟨s', -, hcall⟩ := hserving.call hread
  -- The read decodes that leaf and nothing else.
  have hdecode : h.decode [leaf.toEntry address.2] = .ok [cell] := by
    rw [decode, List.mapM_cons, hcell]
    rfl
  refine ⟨s', ?_⟩
  rw [get?, Client.bind_of_ok (Client.ofExcept_eq_ok.2 ⟨hrequest, rfl⟩), Client.bind_of_ok hcall]
  have hsome : ¬[leaf.toEntry address.2].isEmpty = true := Bool.false_ne_true
  rw [if_neg hsome, Client.bind_of_ok (Client.ofExcept_eq_ok.2 ⟨hdecode, rfl⟩)]
  rfl

/-! ## Insertions -/

theorem insertMap_eq_ok {columns : NewColumns} {o : WriteOptions} {m m' : MutationMap} :
    h.insertMap key columns o m = .ok m' ↔ ∃ packed, h.packKey key = .ok packed ∧
      ∃ mutations, h.insertMutations columns o = .ok mutations ∧
        m.extend packed h.name mutations = m' := by
  simp only [insertMap, bind_eq_ok, pure_eq_ok]

/-- The writes of an insertion that passes the checks of a handle are accepted by a store whose
table has the types of the handle. -/
theorem writeAll_insertMutations {store : Store} (hinc : store.tables.Increasing compare)
    (ht : store.table h.name = .ok t) (hagrees : h.Agrees t) (hkey : h.packKey key = .ok packed)
    {columns : NewColumns} {o : WriteOptions} {mutations : List Mutation}
    (hmutations : h.insertMutations columns o = .ok mutations) :
    (∀ w ∈ mutations.flatMap Mutation.writes, t.Puts w) ∧
      (Store.writeAll
          ((mutations.flatMap Mutation.writes).map fun w => (packed, h.name, w)) store).1 =
        .ok () := by
  obtain ⟨hcounters, hinserts⟩ := of_insertMutations hmutations
  have hcells : t.holdsCounters = false := hagrees.isCounter.symm.trans hcounters
  have haccepted : ∀ w ∈ mutations.flatMap Mutation.writes,
      t.Puts w ∧ ∀ key, key ≠ [] → t.verdict key w = .ok () :=
    fun w hw => (hinserts.writes w hw).accepted hagrees hcells
  -- A sequence of writes is accepted if each of them is.
  refine ⟨fun w hw => (haccepted w hw).1, (Store.writeAll_ok_iff hinc).2 fun entry hentry => ?_⟩
  obtain ⟨w, hw, rfl⟩ := List.mem_map.1 hentry
  rw [Store.verdict_of_table ht]
  exact (haccepted w hw).2 packed (ne_nil_of_packKey hkey)

section Packed

variable {o : WriteOptions} {pairs : List (Option Value × Value × Value)}
  {puts : List (Option Bytes × Column)}

/-- Of the columns of an insertion the last one for an address is left there. -/
theorem foldl_putAt_packed {before after : List (Option Value × Value × Value)}
    {pair : Option Value × Value × Value}
    (hpacked : (before ++ pair :: after).mapM (h.packPut o) = .ok puts) :
    ∃ superColumn c, h.packPut o pair = .ok (superColumn, c) ∧
      ((∀ later ∈ after, h.address later.1 later.2.1 ≠ .ok (superColumn, c.name)) →
        ∀ leaf, Store.NotNewer o.timestamp leaf →
          puts.foldl (Store.putAt superColumn c.name) leaf = some (.ofColumn c)) := by
  obtain ⟨putsBefore, rest, hbefore, hrest, rfl⟩ := mapM_append_eq_ok.1 hpacked
  simp only [List.mapM_cons, bind_eq_ok, pure_eq_ok] at hrest
  obtain ⟨⟨superColumn, c⟩, hput, putsAfter, hafter, rfl⟩ := hrest
  -- All columns of one insertion have its timestamp.
  have htimestamp : ∀ {pair put}, h.packPut o pair = .ok put → put.2.timestamp = o.timestamp := by
    intro pair put hput
    obtain ⟨_, -, _, -, hc⟩ := packColumn_eq_ok.1 (packPut_eq_ok.1 hput).2
    rw [← hc]
  have hlast : c.timestamp = o.timestamp := htimestamp hput
  refine ⟨superColumn, c, hput, fun hlater leaf hleaf => ?_⟩
  rw [← hlast] at hleaf
  refine Store.foldl_putAt_last (fun put hmem => ?_) (fun put hmem hsame => ?_) hleaf
  · obtain ⟨pair', -, hpair'⟩ := (mem_of_mapM hbefore).1 hmem
    rw [htimestamp hpair', hlast]
  · -- a later column for the same address would be one that was given
    obtain ⟨later, hmem', hlater'⟩ := (mem_of_mapM hafter).1 hmem
    refine hlater later hmem' ?_
    rw [address_of_packPut hlater', ← hsame.1, ← hsame.2]

/-- Columns for other addresses leave a leaf alone. -/
theorem foldl_putAt_other (hpacked : pairs.mapM (h.packPut o) = .ok puts)
    {superColumn : Option Bytes}
    {name : Bytes} (hother : ∀ pair ∈ pairs, h.address pair.1 pair.2.1 ≠ .ok (superColumn, name))
    (leaf : Option Store.Leaf) : puts.foldl (Store.putAt superColumn name) leaf = leaf := by
  refine Store.foldl_putAt_of_ne (fun put hmem hsame => ?_) leaf
  obtain ⟨pair, hmem', hput⟩ := (mem_of_mapM hpacked).1 hmem
  refine hother pair hmem' ?_
  rw [address_of_packPut hput, hsame.1, hsame.2]

end Packed

/-- A column that was packed is decoded to what its name and its value are unpacked to. -/
theorem decodeEntry_of_packColumn (hagrees : h.Agrees t) {o : WriteOptions} {pair : Value × Value}
    {c : Column} (hc : h.packColumn o pair = .ok c) :
    ∃ name value, h.schema.columnType.unpack c.name = .ok name ∧
      (h.schema.validator c.name).unpack c.value = .ok value ∧
      h.decodeEntry ((Store.Leaf.ofColumn c).toEntry c.name) =
        .ok (.column name value o.timestamp o.ttl) := by
  obtain ⟨-, ⟨-, name, hname⟩, value, hvalue⟩ := takes_of_packColumn hagrees hc
  obtain ⟨_, -, _, -, rfl⟩ := packColumn_eq_ok.1 hc
  rw [← hagrees.columnType] at hname
  rw [← hagrees.validator] at hvalue
  refine ⟨name, value, hname, hvalue, ?_⟩
  show h.decodeColumn _ = _
  simp only [decodeColumn, hname, hvalue]
  rfl

/-- What an insertion leaves: for each column the last one with its packed name is read back by
name, unless a cell with a larger timestamp was there, and all other cells are as before. -/
structure Inserted (h : Handle) (key : Value) (columns : NewColumns) (o : WriteOptions)
    (packed : Bytes) (s s' : Pool × Cluster) : Prop where
  reads : ∀ before pair after, columns.pairs = before ++ pair :: after → ∃ superColumn c,
    h.packPut o pair = .ok (superColumn, c) ∧
      ((∀ later ∈ after, h.address later.1 later.2.1 ≠ .ok (superColumn, c.name)) →
        Store.NotNewer o.timestamp (s.2.store.leaf? h.name packed superColumn c.name) →
        ∃ name value, h.schema.columnType.unpack c.name = .ok name ∧
          (h.schema.validator c.name).unpack c.value = .ok value ∧
          h.Answers key pair.1 pair.2.1 (.column name value o.timestamp o.ttl) s')
  rows : ∀ table key', ¬(table = h.name ∧ key' = packed) →
    s'.2.store.row? table key' = s.2.store.row? table key'
  cells : ∀ superColumn name,
    (∀ pair ∈ columns.pairs, h.address pair.1 pair.2.1 ≠ .ok (superColumn, name)) →
      s'.2.store.leaf? h.name packed superColumn name =
      s.2.store.leaf? h.name packed superColumn name

/-- Writing the packed columns of an insertion, one after the other, leaves what it should. -/
theorem inserted_of_puts {columns : NewColumns} {o : WriteOptions} {s' : Pool × Cluster}
    {t' : Store.Table} {puts : List (Option Bytes × Column)} (hagrees : h.Agrees t')
    (hs : Serving s') (ht : s'.2.store.table h.name = .ok t') (hwell : t'.WellFormed)
    (hkey : h.packKey key = .ok packed) (hpacked : columns.pairs.mapM (h.packPut o) = .ok puts)
    (hrows : ∀ table key', ¬(table = h.name ∧ key' = packed) →
      s'.2.store.row? table key' = s.2.store.row? table key')
    (hleaves : ∀ superColumn name, s'.2.store.leaf? h.name packed superColumn name =
      puts.foldl (Store.putAt superColumn name)
        (s.2.store.leaf? h.name packed superColumn name)) :
    h.Inserted key columns o packed s s' where
  reads := by
    intro before pair after hpairs
    rw [hpairs] at hpacked
    obtain ⟨superColumn, c, hput, hlast⟩ := foldl_putAt_packed hpacked
    refine ⟨superColumn, c, hput, fun hlater hleaf => ?_⟩
    obtain ⟨name, value, hname, hvalue, hdecode⟩ :=
      decodeEntry_of_packColumn hagrees (packPut_eq_ok.1 hput).2
    -- Nothing behind the pair was put at its address, so what it put there is left.
    have hleft : s'.2.store.leaf? h.name packed superColumn c.name = some (.ofColumn c) :=
      (hleaves superColumn c.name).trans (hlast hlater _ hleaf)
    exact ⟨name, value, hname, hvalue,
      answers_of_leaf? hagrees hs ht hwell hkey (address_of_packPut hput) hleft hdecode⟩
  rows := hrows
  cells := by
    intro superColumn name hother
    exact (hleaves superColumn name).trans (foldl_putAt_other hpacked hother _)

end Handle

variable {registry : Registry} {keyspace : KeyspaceDef} {name : String} {options : HandleOptions}
  {h : Handle} {s₀ s₁ s : Pool × Cluster} {history : List Store.Operation} {key : Value}
  {columns : NewColumns} {o : WriteOptions} {m : MutationMap}

/-- An insertion that passes the checks of a handle is accepted in every reachable state, and what
was written is read back. -/
theorem insert_reads_back (hdistinct : (keyspace.tables.map fun d => d.name).Nodup)
    (hopening : Serving s₀) (hkeyspace : s₀.2.store.keyspace = keyspace)
    (hopen : Handle.openTable registry name options s₀ = .ok h s₁)
    (hnames : options.packNames = true) (hvalues : options.packValues = true) (hs : Serving s)
    (hstore : s.2.store = (Store.ofKeyspace registry keyspace).run history)
    (hm : h.insertMap key columns o .empty = .ok m) :
    ∃ t packed s', s.2.store.table h.name = .ok t ∧ h.Agrees t ∧ h.packKey key = .ok packed ∧
      h.insert key columns o s = .ok () s' ∧ Serving s' ∧
      s'.2.store = (Store.ofKeyspace registry keyspace).run (history ++ [.batch m]) ∧
      h.Inserted key columns o packed s s' := by
  obtain ⟨packed, hkey, mutations, hmutations, hextend⟩ := Handle.insertMap_eq_ok.1 hm
  obtain ⟨hcounters, hinserts⟩ := Handle.of_insertMutations hmutations
  have hagreeing (history : List Store.Operation) :=
    Handle.agrees_of_openTable hdistinct hopening hkeyspace hopen hnames hvalues history
  have hordered : s.2.store.Ordered := hstore ▸ Store.ordered_run registry keyspace history
  obtain ⟨t, ht, hagrees⟩ := hagreeing history
  have hcells : t.holdsCounters = false := hagrees.isCounter.symm.trans hcounters
  have hwell : t.WellFormed := Store.wellFormed_of_cells ht hcells
  rw [← hstore] at ht
  -- The batch is what its writes are one after the other, and these are accepted.
  obtain ⟨hputs, haccepted⟩ :=
    Handle.writeAll_insertMutations hordered.tables ht hagrees hkey hmutations
  have hempty := MutationMap.holds_empty fun name => ∃ t, s.2.store.table name = .ok t
  have hholds := hempty.extend packed ⟨t, ht⟩ mutations
  rw [hextend, List.nil_append] at hholds
  have hbatch := hholds.batch hordered (fun _ h => h) haccepted
  obtain ⟨s', hs', hstore', hcall⟩ :=
    hs.change (r := .batchMutate m (h.writeLevel o)) rfl
      ((congrArg Prod.fst hbatch).trans haccepted)
  have hreached :
      s'.2.store = (Store.ofKeyspace registry keyspace).run (history ++ [.batch m]) := by
    rw [hstore', hstore, Store.run, Store.run, List.foldl_concat]
  -- The table that is read afterwards has the types of the handle as well.
  obtain ⟨t', ht', hagrees'⟩ := hagreeing (history ++ [.batch m])
  have hwell' : t'.WellFormed :=
    Store.wellFormed_of_cells ht' (hagrees'.isCounter.symm.trans hcounters)
  rw [← hreached] at ht'
  obtain ⟨hrows, hleaves⟩ := Store.leaf?_writeAll hordered ht hwell hcells hputs haccepted
  have hwritten : s'.2.store = (Store.writeAll _ s.2.store).2 :=
    hstore'.trans (congrArg Prod.snd hbatch)
  rw [← hwritten] at hrows hleaves
  refine ⟨t, packed, s', ht, hagrees, hkey, ?_, hs', hreached,
    Handle.inserted_of_puts hagrees' hs' ht' hwell' hkey hinserts.packed hrows hleaves⟩
  rw [Handle.insert, Client.bind_of_ok (Client.ofExcept_eq_ok.2 ⟨hm, rfl⟩)]
  exact hcall

/-- A super table of texts under numbers. -/
def links : TableDef :=
  { TableDef.ofName "web" "links" with
    layout := .super, comparator := "UTF8Type", subcomparator := some "LongType",
    validation := "UTF8Type" }

def linksKeyspace : KeyspaceDef := (KeyspaceDef.ofName "web").withTable links

def linksHandle : Handle := ⟨.ofDef .standard .default links, .default⟩

/-- Two columns of which one is given twice. -/
def givenTwice : NewColumns :=
  .grouped [(.text "a", [(.long 1, .text "x")]), (.text "b", [(.long 1, .text "y")]),
    (.text "a", [(.long 1, .text "z")])]

theorem insert_reads_back_givenTwice :
    ∃ s₁ s', Handle.openTable .standard "links" .default (served linksKeyspace) =
    .ok linksHandle s₁ ∧
      linksHandle.insert (.bytes [114]) givenTwice ⟨5, none, none⟩ s₁ = .ok () s' ∧
      linksHandle.Answers (.bytes [114]) (some (.text "a")) (.long 1)
        (.column (.long 1) (.text "z") 5 none) s' := by
  have hserving : Serving (served linksKeyspace) := serving_served (by decide +kernel)
  obtain ⟨s₁, ⟨hserving₁, hstore⟩, hopen⟩ :=
    @Handle.exists_openTable .standard "links" .default (served linksKeyspace) _ ⟨hserving, rfl⟩
      (by decide +kernel) (by decide +kernel) links (by decide +kernel)
  obtain ⟨m, hm⟩ :
      ∃ m, linksHandle.insertMap (.bytes [114]) givenTwice ⟨5, none, none⟩ .empty = .ok m :=
    isOk_iff.1 (by decide +kernel)
  obtain ⟨t, packed, s', -, -, hkey, hinsert, -, -, hinserted⟩ :=
    @insert_reads_back .standard linksKeyspace "links" .default linksHandle (served linksKeyspace)
      s₁ s₁ [] _ _ _ m (by decide +kernel) hserving rfl hopen rfl rfl hserving₁ hstore hm
  refine ⟨s₁, s', hopen, hinsert, ?_⟩
  obtain ⟨superColumn, c, hput, hreads⟩ := hinserted.reads
    [(some (.text "a"), .long 1, .text "x"), (some (.text "b"), .long 1, .text "y")]
    (some (.text "a"), .long 1, .text "z") [] rfl
  -- The key and the last pair pack to these bytes, and nothing was there before.
  have hkey' : linksHandle.packKey (.bytes [114]) = .ok [114] := by decide +kernel
  cases hkey.symm.trans hkey'
  have hpacked : linksHandle.packPut ⟨5, none, none⟩ (some (.text "a"), .long 1, .text "z") =
      .ok (some [97], ⟨[0, 0, 0, 0, 0, 0, 0, 1], [122], 5, none⟩) := by
    decide +kernel
  cases hput.symm.trans hpacked
  have hnothing : s₁.2.store.leaf? linksHandle.name [114] (some [97]) [0, 0, 0, 0, 0, 0, 0, 1] =
      none := by
    rw [hstore]
    decide +kernel
  obtain ⟨name, value, hname, hvalue, hanswers⟩ := hreads nofun (by rw [hnothing]; nofun)
  have hname' : linksHandle.schema.columnType.unpack [0, 0, 0, 0, 0, 0, 0, 1] = .ok (.long 1) := by
    decide +kernel
  have hvalue' : (linksHandle.schema.validator [0, 0, 0, 0, 0, 0, 0, 1]).unpack [122] =
      .ok (.text "z") := by
    decide +kernel
  cases hname.symm.trans hname'
  cases hvalue.symm.trans hvalue'
  exact hanswers

end WideColumn
