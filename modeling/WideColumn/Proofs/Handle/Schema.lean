import WideColumn.Handle.Read
import WideColumn.Proofs.Pool.Client
import WideColumn.Proofs.Pool.Serving
import WideColumn.Proofs.Store.Rows

/-!
# Handles and the tables behind them

A definition of a table is resolved twice, by a handle and by the store. As long as names and values
are packed by type, both come to the same types.

- `Handle.Agrees`: a handle and a table have the same types;
- `Handle.Knows`: they are of the same kind, whatever the handle packs;
- `agrees_ofDef`: both come to the same types from one definition and one registry;
- `table_ofKeyspace`: in a keyspace with distinct names every definition has its table;
- `of_openTable` and `exists_openTable`: opening finds the definition of the keyspace;
- `agrees_of_openTable` and `knows_of_openTable`: a handle that was opened agrees with its table in
  every reachable state, or knows it at least.
-/

namespace WideColumn

/-! ## Types -/

/-- A handle has the types of a table. -/
structure Handle.Agrees (h : Handle) (t : Store.Table) : Prop where
  isSuper : h.schema.kind.isSuper = t.isSuper
  isCounter : h.schema.kind.isCounter = t.holdsCounters
  columnType : h.schema.columnType = t.leafComparator
  superType : h.schema.superType = if t.isSuper then some t.comparator else none
  validator : h.schema.validator = t.validator

/-- A handle takes a table for what it is, with or without super columns and counters. -/
structure Handle.Knows (h : Handle) (t : Store.Table) : Prop where
  isSuper : h.schema.kind.isSuper = t.isSuper
  isCounter : h.schema.kind.isCounter = t.holdsCounters
  superType : h.schema.superType.isSome = t.isSuper

/-- At the top of a super table a slice selects super columns. -/
theorem Handle.Agrees.sliceType_eq {h : Handle} {t : Store.Table} (hagrees : h.Agrees t)
    (hsuper : t.isSuper = true) : h.schema.sliceType false = t.comparator := by
  rw [TableSchema.sliceType, hagrees.superType, hsuper]
  rfl

private theorem Handle.knows_emptied {h : Handle} {t : Store.Table} :
    h.Knows t.emptied ↔ h.Knows t :=
  ⟨fun ⟨a, b, c⟩ => ⟨a, b, c⟩, fun ⟨a, b, c⟩ => ⟨a, b, c⟩⟩

/-- What a handle knows of a table does not depend on its rows. -/
theorem Handle.Knows.of_emptied {h : Handle} {t t' : Store.Table} (hknows : h.Knows t)
    (hemptied : t'.emptied = t.emptied) : h.Knows t' := by
  apply knows_emptied.1
  rw [hemptied]
  exact knows_emptied.2 hknows

private theorem Handle.agrees_emptied {h : Handle} {t : Store.Table} :
    h.Agrees t.emptied ↔ h.Agrees t :=
  ⟨fun ⟨a, b, c, d, e⟩ => ⟨a, b, c, d, e⟩, fun ⟨a, b, c, d, e⟩ => ⟨a, b, c, d, e⟩⟩

@[simp] theorem TableKind.isSuper_of (isSuper isCounter : Bool) :
    (TableKind.of isSuper isCounter).isSuper = isSuper := by
  cases isSuper <;> cases isCounter <;> rfl

@[simp] theorem TableKind.isCounter_of (isSuper isCounter : Bool) :
    (TableKind.of isSuper isCounter).isCounter = isCounter := by
  cases isSuper <;> cases isCounter <;> rfl

/-- A handle and a table of one definition have the same types if names and values are packed. -/
theorem Handle.agrees_ofDef (registry : Registry) {options : HandleOptions}
    (hnames : options.packNames = true) (hvalues : options.packValues = true)
    (definition : TableDef) :
    Agrees ⟨.ofDef registry options definition, options⟩ (.ofDef registry definition) where
  isSuper := TableKind.isSuper_of _ _
  isCounter := TableKind.isCounter_of _ _
  columnType := by
    simp only [TableSchema.ofDef, TableKind.isSuper_of, hnames, if_true]
    rfl
  superType := by
    simp only [TableSchema.ofDef, TableKind.isSuper_of, hnames, if_true]
    rfl
  validator := by
    -- the validator of counters is resolved from their class name
    have hcounter : (if (registry.resolve definition.validation).isCounter then DataType.counter
        else registry.resolve definition.validation) = registry.resolve definition.validation := by
      cases registry.resolve definition.validation <;> rfl
    funext column
    simp only [TableSchema.validator, TableSchema.ofDef, TableKind.isCounter_of, hvalues, if_true,
      hcounter]
    rfl

/-- So have a handle and any table that comes from the definition, apart from its rows. -/
theorem Handle.agrees_of_emptied {registry : Registry} {options : HandleOptions}
    (hnames : options.packNames = true) (hvalues : options.packValues = true)
    {definition : TableDef}
    {t : Store.Table} (hemptied : t.emptied = (Store.Table.ofDef registry definition).emptied) :
    Agrees ⟨.ofDef registry options definition, options⟩ t := by
  apply agrees_emptied.1
  rw [hemptied]
  exact agrees_emptied.2 (agrees_ofDef registry hnames hvalues definition)

/-- The kind of a table does not depend on what is packed. -/
theorem Handle.knows_ofDef (registry : Registry) (options : HandleOptions) (definition : TableDef) :
    Knows ⟨.ofDef registry options definition, options⟩ (.ofDef registry definition) where
  isSuper := TableKind.isSuper_of _ _
  isCounter := TableKind.isCounter_of _ _
  superType := by
    simp only [TableSchema.ofDef, TableKind.isSuper_of]
    show _ = definition.isSuper
    cases definition.isSuper <;> rfl

/-! ## Keyspaces -/

section Keyspace

variable {registry : Registry} {keyspace : KeyspaceDef}

private theorem Store.lookup_foldl_set (registry : Registry) (name : String)
    {definitions : List TableDef} (hdistinct : (definitions.map fun d => d.name).Nodup) :
    ∀ {tables : Sorted String Store.Table}, tables.Increasing compare →
      (definitions.foldl (fun tables d => tables.set compare d.name (Table.ofDef registry d))
          tables).lookup name =
        ((definitions.find? fun d => d.name == name).map (Table.ofDef registry)).or
          (tables.lookup name) := by
  -- By induction on the definitions: no later one has the name of the first.
  induction definitions with
  | nil => exact fun _ => rfl
  | cons d definitions ih =>
    intro tables hinc
    rw [List.map_cons, List.nodup_cons] at hdistinct
    have hset : (tables.set compare d.name (Table.ofDef registry d)).Increasing compare :=
      hinc.alter_compare _ _ _
    rw [List.foldl_cons, ih hdistinct.2 hset, Sorted.set, hinc.lookup_alter, List.find?_cons]
    by_cases hname : name = d.name
    · have hnone : (definitions.find? fun d => d.name == name) = none := by
        rw [List.find?_eq_none]
        intro d' hd' hsame
        exact hdistinct.1 (hname ▸ beq_iff_eq.1 hsame ▸ List.mem_map_of_mem hd')
      rw [if_pos hname, hnone, hname, beq_self_eq_true]
      rfl
    · rw [if_neg hname, beq_eq_false_iff_ne.2 (Ne.symm hname)]

/-- In a keyspace with distinct names every definition has its table. -/
theorem Store.table_ofKeyspace (hdistinct : (keyspace.tables.map fun d => d.name).Nodup)
    {name : String} {definition : TableDef} (hdefinition : keyspace.table? name = some definition) :
    (ofKeyspace registry keyspace).table name = .ok (Table.ofDef registry definition) := by
  have hinc : (ofKeyspace registry keyspace).tables.Increasing compare :=
    increasing_run registry keyspace []
  refine (table_eq_ok_iff hinc).2 ?_
  rw [← hinc.lookup_eq_some_iff]
  rw [KeyspaceDef.table?] at hdefinition
  show (keyspace.tables.foldl _ []).lookup name = _
  rw [lookup_foldl_set registry name hdistinct List.Pairwise.nil, hdefinition]
  rfl

/-- In every reachable state the table of a definition is as it was in the beginning, apart from its
rows. -/
theorem Store.table_run (hdistinct : (keyspace.tables.map fun d => d.name).Nodup) {name : String}
    {definition : TableDef} (hdefinition : keyspace.table? name = some definition)
    (history : List Operation) :
    ∃ t, ((ofKeyspace registry keyspace).run history).table name = .ok t ∧
      t.emptied = (Table.ofDef registry definition).emptied :=
  table_of_outline (outline_run registry keyspace history) (table_ofKeyspace hdistinct hdefinition)

end Keyspace

/-! ## Opening -/

variable {registry : Registry} {keyspace : KeyspaceDef} {name : String} {options : HandleOptions}
  {h : Handle} {s s' : Pool × Cluster}

/-- A handle is opened with the definition that the keyspace has for its table. -/
theorem Handle.of_openTable (hs : Serving s)
    (hopen : openTable registry name options s = .ok h s') :
    ∃ definition, s.2.store.keyspace.table? name = some definition ∧
      h = ⟨.ofDef registry options definition, options⟩ := by
  rw [openTable] at hopen
  obtain ⟨_, -, hopen⟩ := Client.ofExcept_bind_eq_ok.1 hopen
  obtain ⟨described, s₁, hdescribe, hopen⟩ := Client.bind_eq_ok.1 hopen
  -- The keyspace is described as the store has it.
  obtain ⟨s₂, -, -, hcall⟩ :=
    servingInvariant_serving.call hs (.describeKeyspace s.1.config.keyspace)
  have hdescribed : described = s.2.store.keyspace := by
    have hanswer : Client.outcome (s.2.store.serve (.describeKeyspace s.1.config.keyspace)).1 s₂ =
        .ok described s₁ := hcall.symm.trans hdescribe
    simp only [Store.serve, Cluster.serve] at hanswer
    split at hanswer
    · cases hanswer
      rfl
    · cases hanswer
  subst hdescribed
  cases hdefinition : s.2.store.keyspace.table? name with
  | none =>
    rw [hdefinition] at hopen
    cases hopen
  | some definition =>
    rw [hdefinition] at hopen
    obtain ⟨rfl, -⟩ := Client.pure_eq_ok.1 hopen
    exact ⟨definition, rfl, rfl⟩

/-- A handle of a table that the keyspace defines is opened. -/
theorem Handle.exists_openTable {store : Store} (hs : ServingFrom store s)
    (hkeyspace : store.keyspace.name = s.1.config.keyspace) (hvalid : options.validate = .ok ())
    {definition : TableDef} (hdefinition : store.keyspace.table? name = some definition) :
    ∃ s', ServingFrom store s' ∧
      openTable registry name options s = .ok ⟨.ofDef registry options definition, options⟩ s' := by
  have hread : store.serve (.describeKeyspace s.1.config.keyspace) =
      (.ok store.keyspace, store) := by
    simp only [Store.serve, Cluster.serve, if_pos hkeyspace]
  obtain ⟨s', hs', hcall⟩ := hs.call hread
  have hdescribe : Client.describeKeyspace s = .ok store.keyspace s' := hcall
  refine ⟨s', hs', ?_⟩
  rw [openTable, Client.bind_of_ok (Client.ofExcept_eq_ok.2 ⟨hvalid, rfl⟩),
    Client.bind_of_ok hdescribe, hdefinition]
  rfl

theorem KeyspaceDef.name_of_table? {definition : TableDef}
    (h : keyspace.table? name = some definition) :
    definition.name = name := by
  rw [table?] at h
  simpa using List.find?_some h

/-- If the names of the tables are distinct, a handle comes from the definition of its table, which
is the same in every reachable state. -/
theorem Handle.table_of_openTable (hdistinct : (keyspace.tables.map fun d => d.name).Nodup)
    (hs : Serving s) (hkeyspace : s.2.store.keyspace = keyspace)
    (hopen : openTable registry name options s = .ok h s') (history : List Store.Operation) :
    ∃ definition t, h = ⟨.ofDef registry options definition, options⟩ ∧
      ((Store.ofKeyspace registry keyspace).run history).table h.name = .ok t ∧
      t.emptied = (Store.Table.ofDef registry definition).emptied := by
  obtain ⟨definition, hdefinition, rfl⟩ := of_openTable hs hopen
  rw [hkeyspace] at hdefinition
  -- the definition that was found is stored under the name it was asked for by
  have hname : definition.name = name := KeyspaceDef.name_of_table? hdefinition
  obtain ⟨t, ht, hemptied⟩ :=
    @Store.table_run registry keyspace hdistinct name definition hdefinition
    history
  refine ⟨definition, t, rfl, ?_, hemptied⟩
  show Store.table _ definition.name = _
  rw [hname, ht]

/-- A handle agrees with its table in every reachable state if names and values are packed and the
names of the tables are distinct. -/
theorem Handle.agrees_of_openTable (hdistinct : (keyspace.tables.map fun d => d.name).Nodup)
    (hs : Serving s) (hkeyspace : s.2.store.keyspace = keyspace)
    (hopen : openTable registry name options s = .ok h s') (hnames : options.packNames = true)
    (hvalues : options.packValues = true) (history : List Store.Operation) :
    ∃ t, ((Store.ofKeyspace registry keyspace).run history).table h.name = .ok t ∧ h.Agrees t := by
  obtain ⟨definition, t, rfl, ht, hemptied⟩ :=
    table_of_openTable hdistinct hs hkeyspace hopen history
  exact ⟨t, ht, agrees_of_emptied hnames hvalues hemptied⟩

/-- If the names of the tables are distinct, every handle knows its table in every reachable
state. -/
theorem Handle.knows_of_openTable (hdistinct : (keyspace.tables.map fun d => d.name).Nodup)
    (hs : Serving s) (hkeyspace : s.2.store.keyspace = keyspace)
    (hopen : openTable registry name options s = .ok h s') (history : List Store.Operation)
    {t : Store.Table}
    (ht : ((Store.ofKeyspace registry keyspace).run history).table h.name = .ok t) :
    h.Knows t := by
  obtain ⟨definition, t', rfl, ht', hemptied⟩ :=
    table_of_openTable hdistinct hs hkeyspace hopen history
  obtain rfl := Except.ok.inj (ht'.symm.trans ht)
  exact (knows_ofDef registry options definition).of_emptied hemptied

end WideColumn
