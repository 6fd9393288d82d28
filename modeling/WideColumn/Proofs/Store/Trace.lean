import WideColumn.Proofs.Store.Run

/-!
# Changes that took effect

What an operation asks for may be refused, and a batch that is refused may have changed something
before. What became of a store is told by the changes that took effect, each of which the store
accepted as a whole in the state that it had then.

- `Step` and `Store.step`: a single write, or the truncation of a table;
- `Moment`: a step that took effect, with the store that it found;
- `Leads`: moments that lead from one store to another;
- `Store.trace`: the moments of a sequence of operations, which lead to the store after it
  (`leads_trace`);
- `Leads.kept`: what the writes among the moments keep;
- `TableInvariant.of_trace`: what the writes to one table keep holds of this table.
-/

namespace WideColumn.Store

/-! ## Steps -/

/-- A change that a store accepts or refuses as a whole. -/
inductive Step where
  | write (key : Bytes) (table : String) (w : Write)
  | truncate (table : String)
  deriving DecidableEq, Repr

/-- The store after a step. -/
def step (s : Store) : Step → Except Refusal Store
  | .write key table w => s.write key table w
  | .truncate table => s.truncate table

/-- A step that took effect, with the store that it found. -/
structure Moment where
  store : Store
  step : Step

/-- The moments lead from one store to another: each of them finds the store that the one before it
left. -/
inductive Leads (s₀ : Store) : List Moment → Store → Prop where
  /-- Nothing happened yet. -/
  | start : Leads s₀ [] s₀
  /-- One more step is accepted. -/
  | next {moments : List Moment} {s s' : Store} {step : Step} (hled : Leads s₀ moments s)
      (hstep : s.step step = .ok s') : Leads s₀ (moments ++ [⟨s, step⟩]) s'

theorem Leads.single {s s' : Store} {step : Step} (hstep : s.step step = .ok s') :
    Leads s [⟨s, step⟩] s' :=
  .next .start hstep

/-- What happened later is put behind what happened before. -/
theorem Leads.append {s₀ s s' : Store} {moments moments' : List Moment} (hled : Leads s₀ moments s)
    (hled' : Leads s moments' s') : Leads s₀ (moments ++ moments') s' := by
  induction hled' with
  | start =>
    rw [List.append_nil]
    exact hled
  | next _ hstep ih =>
    rw [← List.append_assoc]
    exact .next ih hstep

/-! ## Operations -/

/-- The moment of a step that an operation consists of, if the operation is accepted. -/
def whole (s : Store) (step : Step) (result : Except Refusal Store) : List Moment :=
  match result with
  | .ok _ => [⟨s, step⟩]
  | .error _ => []

/-- The moments of a sequence of writes, up to the first that is refused. -/
def writeMoments : List (Bytes × String × Write) → Store → List Moment
  | [], _ => []
  | (key, name, w) :: rest, s =>
    match s.write key name w with
    | .ok s' => ⟨s, .write key name w⟩ :: writeMoments rest s'
    | .error _ => []

/-- The moments of an operation. -/
def Operation.moments (s : Store) : Operation → List Moment
  | .batch mutations =>
    match mutations.toList.forM fun (_, name, _) => (s.table name).map fun _ => () with
    | .error _ => []
    | .ok () => writeMoments (batchWrites mutations) s
  | .add key parent c =>
    s.whole (.write key parent.table (.increment parent.superColumn c)) (s.add key parent c)
  | .remove key path timestamp =>
    s.whole (.write key path.table (.delete (deletionAt path timestamp)))
    (s.remove key path timestamp)
  | .truncate table => s.whole (.truncate table) (s.truncate table)

/-- The moments of a sequence of operations. -/
def trace (s : Store) : List Operation → List Moment
  | [] => []
  | operation :: operations => operation.moments s ++ (s.apply operation).trace operations

section Leads

variable {s s' : Store} {step : Step}

private theorem leads_whole {result : Except Refusal Store}
    (hstep : ∀ s', result = .ok s' → s.step step = .ok s') :
    Leads s (s.whole step result) (s.afterAll result) := by
  cases result with
  | ok s' => exact .single (hstep s' rfl)
  | error e => exact .start

private theorem leads_writeMoments (writes : List (Bytes × String × Write)) :
    ∀ s : Store, Leads s (writeMoments writes s) (writeAll writes s).2 := by
  -- By induction on the writes: the first one that is refused ends both.
  induction writes with
  | nil => exact fun s => .start
  | cons first writes ih =>
    intro s
    obtain ⟨key, name, w⟩ := first
    rw [writeMoments, writeAll]
    cases hw : s.write key name w with
    | error e => exact .start
    | ok s' =>
      have hfirst : Leads s [⟨s, .write key name w⟩] s' := .single hw
      exact hfirst.append (ih s')

/-- An accepted removal writes the deletion that its path stands for. -/
theorem write_of_remove {key : Bytes} {path : ColumnPath} {timestamp : Option Int64}
    (h : s.remove key path timestamp = .ok s') :
    s.write key path.table (.delete (deletionAt path timestamp)) = .ok s' := by
  obtain ⟨t, ht, -, -, t', ht', rfl⟩ := remove_eq_ok.1 h
  exact write_eq_ok.2 ⟨t, ht, t', ht', rfl⟩

/-- The moments of an operation lead to the store after it. -/
theorem leads_moments (s : Store) (operation : Operation) :
    Leads s (operation.moments s) (s.apply operation) := by
  cases operation with
  | batch mutations =>
    rw [Operation.moments, apply, batch]
    cases mutations.toList.forM fun request => (s.table request.2.1).map fun _ => () with
    -- an unknown table refuses the batch before its first write
    | error e => exact .start
    | ok => exact leads_writeMoments _ s
  | add key parent c =>
    apply leads_whole
    exact fun s' hadd => hadd
  | remove key path timestamp =>
    apply leads_whole
    exact fun s' hremove => write_of_remove hremove
  | truncate table =>
    apply leads_whole
    exact fun s' htruncate => htruncate

/-- The moments of a sequence of operations lead to the store after it. -/
theorem leads_trace (s : Store) (operations : List Operation) :
    Leads s (s.trace operations) (s.run operations) := by
  induction operations generalizing s with
  | nil => exact .start
  | cons operation operations ih => exact (leads_moments s operation).append (ih _)

end Leads

/-! ## Writes among the moments -/

/-- The write of a step to a table. -/
def Step.writeTo (table : String) : Step → Option Write
  | .write _ name w => if name = table then some w else none
  | .truncate _ => none

/-- The writes to a table among some moments. -/
def tableWrites (moments : List Moment) (table : String) : List Write :=
  moments.filterMap fun moment => moment.step.writeTo table

/-- One more moment may bring one more write. -/
theorem mem_tableWrites_concat {moments : List Moment} {moment : Moment} {table : String}
    {w : Write} :
    w ∈ tableWrites (moments ++ [moment]) table ↔
      w ∈ tableWrites moments table ∨ w ∈ moment.step.writeTo table := by
  rw [tableWrites, List.filterMap_append, List.mem_append, List.filterMap_cons]
  cases moment.step.writeTo table with
  | none => simp [tableWrites]
  | some w' => simp [tableWrites, eq_comm]

/-- A step that truncates or whose write is allowed keeps the tables. -/
theorem Kept.step {allowed : Table → Write → Prop} {inv : Table → Prop} {s₀ s s' : Store}
    {step : Step} (h : Kept s₀ inv s) (hinv : TableInvariant allowed inv)
    (hallowed : ∀ key name w, step = .write key name w → ∀ t, s₀.table name = .ok t → allowed t w)
    (hstep : s.step step = .ok s') : Kept s₀ inv s' := by
  cases step with
  | write key name w =>
    obtain ⟨t, ht, t', ht', rfl⟩ := write_eq_ok.1 hstep
    exact h.write hinv (hallowed key name w rfl) ht ht'
  | truncate name =>
    obtain ⟨t, ht, rfl⟩ := truncate_eq_ok.1 hstep
    exact h.setTable ht rfl (hinv.emptied t)

/-- What allowed writes keep, moments keep whose writes are allowed. -/
theorem Leads.kept {allowed : Table → Write → Prop} {inv : Table → Prop} {s₀ s s' : Store}
    {moments : List Moment} (hled : Leads s moments s') (hinv : TableInvariant allowed inv)
    (hallowed : ∀ name, ∀ w ∈ tableWrites moments name, ∀ t, s₀.table name = .ok t → allowed t w)
    (h : Kept s₀ inv s) : Kept s₀ inv s' := by
  -- By induction on what happened: the last step finds tables that were kept so far.
  induction hled with
  | start => exact h
  | @next moments s s' step hled hstep ih =>
    have hkept := ih fun name w hw => hallowed name w (mem_tableWrites_concat.2 (.inl hw))
    apply hkept.step hinv _ hstep
    intro key name w heq
    apply hallowed name w
    apply mem_tableWrites_concat.2
    exact .inr (by rw [heq, Step.writeTo, if_pos rfl]; rfl)

/-- What the writes that took effect keep holds of every table in the state after them. -/
theorem TableInvariant.trace {allowed : Table → Write → Prop} {inv : Table → Prop}
    (hinv : TableInvariant allowed inv) (registry : Registry) (keyspace : KeyspaceDef)
    {operations : List Operation}
    (hallowed : ∀ name, ∀ w ∈ tableWrites ((ofKeyspace registry keyspace).trace operations) name,
      ∀ t, (ofKeyspace registry keyspace).table name = .ok t → allowed t w) :
    Kept (ofKeyspace registry keyspace) inv ((ofKeyspace registry keyspace).run operations) :=
  (leads_trace _ operations).kept hinv hallowed (kept_ofKeyspace hinv.emptied registry keyspace)

section Table

variable {registry : Registry} {keyspace : KeyspaceDef} {operations : List Operation}
  {name : String} {t : Table}

/-- Apart from its rows, every table is that of the keyspace. -/
theorem table_of_run (ht : ((ofKeyspace registry keyspace).run operations).table name = .ok t) :
    (ofKeyspace registry keyspace).table name = .ok t.emptied := by
  have hinv : TableInvariant (fun _ _ => True) fun _ => True :=
    ⟨fun _ => trivial, fun _ _ _ => trivial⟩
  have hkept := @TableInvariant.trace _ _ hinv registry keyspace operations
    fun _ _ _ _ _ => trivial
  exact (table_eq_ok_iff hkept.origin).2 (hkept.same _ ((table_eq_ok_iff hkept.increasing).1 ht))

theorem name_of_run (ht : ((ofKeyspace registry keyspace).run operations).table name = .ok t) :
    t.name = name :=
  @name_of_table _ _ name t.emptied (table_of_run ht)

/-- What the writes to one table that took effect keep holds of this table. -/
theorem TableInvariant.of_trace {allowed : Table → Write → Prop} {inv : Table → Prop}
    (hinv : TableInvariant allowed inv)
    (ht : ((ofKeyspace registry keyspace).run operations).table name = .ok t)
    (hallowed : ∀ w ∈ tableWrites ((ofKeyspace registry keyspace).trace operations) name,
      allowed t.emptied w) : inv t := by
  -- The other tables, whose writes need not be allowed, have other names.
  have hnamed : TableInvariant (fun t w => t.name = name → allowed t w) fun t =>
      t.name = name → inv t :=
    ⟨fun t _ => hinv.emptied t, fun {t t' _ w} h hallowed hw hname => by
      have hsame : t'.emptied.name = t.emptied.name :=
        congrArg Table.name (Table.emptied_of_write hw)
      exact hinv.write (h (hsame.symm.trans hname)) (hallowed (hsame.symm.trans hname)) hw⟩
  have hkept := @TableInvariant.trace _ _ hnamed registry keyspace operations
    fun name' w hw t₀ ht₀ hname => by
      obtain rfl : name' = name := (name_of_table ht₀).symm.trans hname
      obtain rfl := Except.ok.inj (ht₀.symm.trans (table_of_run ht))
      exact hallowed w hw
  exact hkept.holds _ ((table_eq_ok_iff hkept.increasing).1 ht) (name_of_run ht)

end Table

end WideColumn.Store
