import WideColumn.Proofs.Store.Write

/-!
# Runs of store operations

A store changes by batches, single increments, removals and truncations. Each of them takes effect
as a sequence of writes to tables or empties a table, so what every write to a table keeps, every
run keeps.

- `Operation`, `Store.apply` and `Store.run`: the operations of a store and its reachable states;
- `Operation.writes`: the writes that an operation asks for;
- `TableInvariant`: a property of tables that writes keep;
- `Kept`: the tables are those of the keyspace, apart from their rows, and have the property;
- `TableInvariant.run`: every reachable state is such a store.
-/

namespace WideColumn.Store

/-! ## Operations -/

/-- A change that a store is asked for. -/
inductive Operation where
  | batch (mutations : MutationMap)
  /-- The increment of one counter. -/
  | add (key : Bytes) (parent : ColumnParent) (c : Counter)
  /-- The removal of columns, or of counters if there is no timestamp. -/
  | remove (key : Bytes) (path : ColumnPath) (timestamp : Option Int64)
  | truncate (table : String)

/-- The store after a change that happens as a whole or is refused. -/
def afterAll (s : Store) (result : Except Refusal Store) : Store :=
  match result with
  | .ok s' => s'
  | .error _ => s

/-- The store after an operation, whether it was accepted or refused. -/
def apply (s : Store) : Operation → Store
  | .batch mutations => (batch mutations s).2
  | .add key parent c => s.afterAll (s.add key parent c)
  | .remove key path timestamp => s.afterAll (s.remove key path timestamp)
  | .truncate table => s.afterAll (s.truncate table)

/-- The store after a sequence of operations. -/
def run (s : Store) (operations : List Operation) : Store :=
  operations.foldl apply s

/-- The writes that an operation asks for, each with its row and table. -/
def Operation.writes : Operation → List (Bytes × String × Write)
  | .batch mutations => batchWrites mutations
  | .add key parent c => [(key, parent.table, .increment parent.superColumn c)]
  | .remove key path timestamp => [(key, path.table, .delete (deletionAt path timestamp))]
  | .truncate _ => []

/-- Every write of an operation is allowed for the table it names. -/
def Operation.Allowed (allowed : Table → Write → Prop) (s : Store) (operation : Operation) : Prop :=
  ∀ key name w, (key, name, w) ∈ operation.writes → ∀ t, s.table name = .ok t → allowed t w

theorem keyspace_writeAll (writes : List (Bytes × String × Write)) :
    ∀ s : Store, (writeAll writes s).2.keyspace = s.keyspace := by
  induction writes with
  | nil => exact fun _ => rfl
  | cons first writes ih =>
    intro s
    obtain ⟨key, name, w⟩ := first
    rw [writeAll]
    cases hw : s.write key name w with
    | error e => rfl
    | ok s' =>
      obtain ⟨t, -, t', -, rfl⟩ := write_eq_ok.1 hw
      exact ih _

/-- Operations never change the definition of the keyspace. -/
theorem keyspace_apply (operation : Operation) (s : Store) :
    (s.apply operation).keyspace = s.keyspace := by
  -- a refused operation leaves the store, so only an accepted one is looked at
  have hafter : ∀ {result : Except Refusal Store},
      (∀ s', result = .ok s' → s'.keyspace = s.keyspace) →
      (s.afterAll result).keyspace = s.keyspace := by
    intro result h
    cases result with
    | ok s' => exact h s' rfl
    | error e => rfl
  cases operation with
  | batch mutations =>
    rw [apply, batch]
    split
    · rfl
    · exact keyspace_writeAll _ s
  | add key parent c =>
    refine hafter fun s' hadd => ?_
    obtain ⟨t, -, t', -, rfl⟩ := write_eq_ok.1 hadd
    rfl
  | remove key path timestamp =>
    refine hafter fun s' hremove => ?_
    obtain ⟨t, -, -, -, t', -, rfl⟩ := remove_eq_ok.1 hremove
    rfl
  | truncate name =>
    refine hafter fun s' htruncate => ?_
    obtain ⟨t, -, rfl⟩ := truncate_eq_ok.1 htruncate
    rfl

theorem keyspace_run (operations : List Operation) (s : Store) :
    (s.run operations).keyspace = s.keyspace := by
  induction operations generalizing s with
  | nil => rfl
  | cons operation operations ih => exact (ih _).trans (keyspace_apply operation s)

/-! ## Tables -/

/-- Names of tables are ordered, and different names never compare equal. -/
theorem orderedOn_names : OrderedOn (fun _ : String => True) compare :=
  .of_transCmp

theorem table_eq_ok_iff {s : Store} (hinc : s.tables.Increasing compare) {name : String}
    {t : Table} :
    s.table name = .ok t ↔ (name, t) ∈ s.tables := by
  have hfind : s.tables.find? compare name = some t ↔ (name, t) ∈ s.tables := by
    rw [Sorted.find?_eq_some_iff (fun _ _ => trivial) hinc orderedOn_names trivial]
    constructor
    · rintro ⟨k, hmem, heq⟩
      rw [← Std.LawfulEqOrd.eq_of_compare heq]
      exact hmem
    · intro hmem
      exact ⟨name, hmem, Std.ReflOrd.compare_self⟩
  -- the search answers for the list of tables, and the lookup only wraps its answer
  rw [← hfind, table]
  cases s.tables.find? compare name with
  | none => exact ⟨nofun, nofun⟩
  | some t' => rw [Except.ok.injEq, Option.some.injEq]

/-- A property of tables that holds without rows and that allowed writes keep. What is allowed may
depend on everything but the rows. -/
structure TableInvariant (allowed : Table → Write → Prop) (inv : Table → Prop) : Prop where
  emptied : ∀ t : Table, inv t.emptied
  write : ∀ {t t' : Table} {key : Bytes} {w : Write}, inv t → allowed t.emptied w →
    t.write key w = .ok t' → inv t'

/-- The tables of a store are those of another one, apart from their rows, and have a property. -/
structure Kept (s₀ : Store) (inv : Table → Prop) (s : Store) : Prop where
  origin : s₀.tables.Increasing compare
  increasing : s.tables.Increasing compare
  same : ∀ e ∈ s.tables, (e.1, e.2.emptied) ∈ s₀.tables
  holds : ∀ e ∈ s.tables, inv e.2

section Kept

variable {allowed : Table → Write → Prop} {inv : Table → Prop} {s₀ s s' : Store} {name : String}
  {t t' : Table}

theorem Kept.setTable (h : Kept s₀ inv s) (ht : s.table name = .ok t)
    (hsame : t'.emptied = t.emptied) (hinv : inv t') : Kept s₀ inv (s.setTable name t') := by
  have hmem := (table_eq_ok_iff h.increasing).1 ht
  have horigin : (name, t'.emptied) ∈ s₀.tables := hsame ▸ h.same (name, t) hmem
  -- a table after the change is one from before or the changed one
  have hcases : ∀ e ∈ (s.setTable name t').tables, e ∈ s.tables ∨ e = (name, t') := by
    intro e he
    rcases Sorted.mem_set (fun _ _ => trivial) h.increasing orderedOn_names trivial he with
      he | ⟨-, heq, hvalue⟩ | he
    · exact .inl he
    · exact .inr (Prod.ext (Std.LawfulEqOrd.eq_of_compare heq) hvalue)
    · exact .inr he
  refine ⟨h.origin, h.increasing.set (fun _ _ => trivial) orderedOn_names trivial t', ?_, ?_⟩
  · intro e he
    rcases hcases e he with he | rfl
    · exact h.same e he
    · exact horigin
  · intro e he
    rcases hcases e he with he | rfl
    · exact h.holds e he
    · exact hinv

/-- A write that is allowed for the table of the keyspace keeps the tables. -/
theorem Kept.write (h : Kept s₀ inv s) (hinv : TableInvariant allowed inv) {key : Bytes} {w : Write}
    (hallowed : ∀ t, s₀.table name = .ok t → allowed t w) (ht : s.table name = .ok t)
    (hw : t.write key w = .ok t') : Kept s₀ inv (s.setTable name t') := by
  have hmem := (table_eq_ok_iff h.increasing).1 ht
  have horigin := (table_eq_ok_iff h.origin).2 (h.same (name, t) hmem)
  exact h.setTable ht (Table.emptied_of_write hw)
    (hinv.write (h.holds (name, t) hmem) (hallowed t.emptied horigin) hw)

theorem Kept.writeAll (hinv : TableInvariant allowed inv) :
    ∀ {writes : List (Bytes × String × Write)} {s : Store}, Kept s₀ inv s →
      (∀ key name w, (key, name, w) ∈ writes → ∀ t, s₀.table name = .ok t → allowed t w) →
      Kept s₀ inv (writeAll writes s).2
  | [], s, h, _ => h
  | (key, name, w) :: writes, s, h, hallowed => by
    rw [Store.writeAll]
    -- A failed write ends the batch, and what was written before it stays.
    cases hwrite : s.write key name w with
    | error e => exact h
    | ok s' =>
      obtain ⟨t, ht, t', ht', rfl⟩ := write_eq_ok.1 hwrite
      have hfirst : Kept s₀ inv (s.setTable name t') :=
        h.write hinv (hallowed key name w List.mem_cons_self) ht ht'
      exact hfirst.writeAll hinv fun key name w hmem =>
        hallowed key name w (List.mem_cons_of_mem _ hmem)

/-- One operation keeps the tables, whether it is accepted or refused. -/
theorem Kept.apply (h : Kept s₀ inv s) (hinv : TableInvariant allowed inv) {operation : Operation}
    (hallowed : operation.Allowed allowed s₀) : Kept s₀ inv (s.apply operation) := by
  cases operation with
  | batch mutations =>
    rw [Store.apply, batch]
    split
    · exact h
    · exact h.writeAll hinv hallowed
  | add key parent c =>
    rw [Store.apply]
    -- A refused operation leaves the store as it was.
    cases hadd : s.add key parent c with
    | error e => exact h
    | ok s' =>
      obtain ⟨t, ht, t', ht', rfl⟩ := write_eq_ok.1 hadd
      exact h.write hinv (hallowed key parent.table _ List.mem_cons_self) ht ht'
  | remove key path timestamp =>
    rw [Store.apply]
    cases hremove : s.remove key path timestamp with
    | error e => exact h
    | ok s' =>
      obtain ⟨t, ht, -, -, t', ht', rfl⟩ := remove_eq_ok.1 hremove
      exact h.write hinv (hallowed key path.table _ List.mem_cons_self) ht ht'
  | truncate name =>
    rw [Store.apply]
    cases htruncate : s.truncate name with
    | error e => exact h
    | ok s' =>
      obtain ⟨t, ht, rfl⟩ := truncate_eq_ok.1 htruncate
      exact h.setTable ht rfl (hinv.emptied t)

/-- What one operation keeps, a sequence of operations keeps. -/
theorem Kept.run (hinv : TableInvariant allowed inv) {operations : List Operation}
    (hallowed : ∀ operation ∈ operations, operation.Allowed allowed s₀) :
    ∀ {s : Store}, Kept s₀ inv s → Kept s₀ inv (s.run operations) := by
  -- By induction on the operations, from any state that was reached already.
  induction operations with
  | nil =>
    intro s h
    exact h
  | cons operation operations ih =>
    intro s h
    have hfirst := h.apply hinv (hallowed operation List.mem_cons_self)
    apply ih _ hfirst
    intro operation hmem
    exact hallowed operation (List.mem_cons_of_mem _ hmem)

end Kept

/-! ## Reachable states -/

/-- Adding empty tables to empty tables, or putting them in place of others, keeps them in order. -/
theorem increasing_foldl_set (registry : Registry) {definitions : List TableDef} :
    ∀ {tables : Sorted String Table},
      (tables.Increasing compare ∧ ∀ e ∈ tables, e.2.rows = []) →
      let tables' := definitions.foldl
        (fun tables t => tables.set compare t.name (Table.ofDef registry t)) tables
      tables'.Increasing compare ∧ ∀ e ∈ tables', e.2.rows = [] := by
  induction definitions with
  | nil =>
    intro tables h
    exact h
  | cons d definitions ih =>
    -- A table of that name is replaced by an empty one; otherwise an empty one is added.
    rintro tables ⟨hinc, hrows⟩
    apply ih
    refine ⟨hinc.set (fun _ _ => trivial) orderedOn_names trivial _, ?_⟩
    intro e he
    rcases Sorted.mem_set (fun _ _ => trivial) hinc orderedOn_names trivial he with
      he | ⟨-, -, hvalue⟩ | rfl
    · exact hrows e he
    · rw [hvalue]
      rfl
    · rfl

/-- The tables of a keyspace start without rows. -/
theorem kept_ofKeyspace {inv : Table → Prop} (hinv : ∀ t : Table, inv t.emptied)
    (registry : Registry) (keyspace : KeyspaceDef) :
    Kept (ofKeyspace registry keyspace) inv (ofKeyspace registry keyspace) := by
  obtain ⟨hinc, hrows⟩ :=
    @increasing_foldl_set registry keyspace.tables [] ⟨List.Pairwise.nil, nofun⟩
  have hemptied : ∀ e ∈ (ofKeyspace registry keyspace).tables, e.2.emptied = e.2 := by
    intro e he
    rw [Table.emptied, ← hrows e he]
  refine ⟨hinc, hinc, fun e he => ?_, fun e he => ?_⟩
  · rw [hemptied e he]
    exact he
  · rw [← hemptied e he]
    exact hinv e.2

/-- A table of a keyspace is found under its name. -/
theorem name_of_table {registry : Registry} {keyspace : KeyspaceDef} {name : String} {t : Table}
    (ht : (ofKeyspace registry keyspace).table name = .ok t) : t.name = name := by
  -- each definition is stored under its own name, also when it replaces an earlier one
  have hfold : ∀ (definitions : List TableDef) (tables : Sorted String Table),
      (∀ e ∈ tables, e.2.name = e.1) → ∀ e ∈ definitions.foldl
        (fun tables t => tables.set compare t.name (Table.ofDef registry t)) tables,
        e.2.name = e.1 := by
    intro definitions
    induction definitions with
    | nil => exact fun _ h => h
    | cons d definitions ih =>
      intro tables h
      apply ih
      apply Sorted.forall_entry_alter h
      · rfl
      · intro name t hsame _
        exact (Std.LawfulEqOrd.eq_of_compare hsame).symm
  have hkept := @kept_ofKeyspace (fun _ => True) (fun _ => trivial) registry keyspace
  exact hfold keyspace.tables [] nofun (name, t) ((table_eq_ok_iff hkept.increasing).1 ht)

/-- What allowed writes keep holds of every table in every reachable state. -/
theorem TableInvariant.run {allowed : Table → Write → Prop} {inv : Table → Prop}
    (hinv : TableInvariant allowed inv) (registry : Registry) (keyspace : KeyspaceDef)
    {operations : List Operation}
    (hallowed :
      ∀ operation ∈ operations, operation.Allowed allowed (ofKeyspace registry keyspace)) :
    Kept (ofKeyspace registry keyspace) inv ((ofKeyspace registry keyspace).run operations) :=
  Kept.run hinv hallowed (kept_ofKeyspace hinv.emptied registry keyspace)

end WideColumn.Store
