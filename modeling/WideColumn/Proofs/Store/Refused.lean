import WideColumn.Proofs.Store.Run

/-!
# What a refused operation leaves behind

Increments, removals and truncations that are refused change nothing. A batch that names an unknown
table changes nothing either, but any other fault of a batch is found only when the write that has
it comes up: what stands before that write in the batch stays in the store.

- `Table.verdict` and `Store.verdict`: whether a write is accepted, which rows have no part in;
- `writeAll_error`: the writes of a batch up to the first one that is refused take effect;
- `answer_batch_ok_iff`: what makes a batch acceptable can be told before it is applied;
- `Refused` and `refused_leaves`: what each kind of operation leaves behind in every reachable
  state.
-/

namespace WideColumn.Store

/-! ## Verdicts -/

/-- Whether a table accepts a write. -/
def Table.verdict (t : Table) (key : Bytes) (w : Write) : Except Refusal Unit :=
  (fun _ => ()) <$> t.write key w

/-- The rows of a table have no part in whether it accepts a write. -/
theorem Table.verdict_emptied (t : Table) (key : Bytes) (w : Write) :
    t.emptied.verdict key w = t.verdict key w := by
  cases w with
  -- The checks of a write look at the definition of the table; what follows them cannot fail.
  | column c =>
    simp only [verdict, write, putColumn, map_bind, map_pure, apply_ite (Functor.map _)]
    rfl
  | superColumn name columns =>
    simp only [verdict, write, putSuper, map_bind, map_pure, apply_ite (Functor.map _)]
    rfl
  | increment superColumn c =>
    simp only [verdict, write, increment, map_bind, apply_ite (Functor.map _)]
    cases superColumn <;> rfl
  | delete d =>
    simp only [verdict, write, delete, map_bind]
    cases t.row? key <;> rfl

/-- A table without its rows. -/
def outline (s : Store) (name : String) : Except Refusal Table := Table.emptied <$> s.table name

/-- Whether a store accepts a write to a row of one of its tables. -/
def verdict (s : Store) : Bytes × String × Write → Except Refusal Unit
  | (key, name, w) => (fun _ => ()) <$> s.write key name w

variable {s s' : Store} {name : String} {key : Bytes} {w : Write} {e : Refusal}

private theorem verdict_eq_outline (s : Store) (key : Bytes) (name : String) (w : Write) :
    s.verdict (key, name, w) = s.outline name >>= fun t => t.verdict key w := by
  rw [verdict, outline, write]
  cases s.table name with
  | error e => rfl
  | ok t =>
    show _ = t.emptied.verdict key w
    rw [t.verdict_emptied, Table.verdict]
    show (fun _ => ()) <$> (t.write key w >>= fun t' => pure (s.setTable name t')) = _
    cases t.write key w <;> rfl

/-- Stores with the same outline have the same tables, apart from their rows. -/
theorem table_of_outline {t : Table} (h : s'.outline = s.outline) (ht : s.table name = .ok t) :
    ∃ t', s'.table name = .ok t' ∧ t'.emptied = t.emptied := by
  have hsame := congrFun h name
  rw [outline, outline, ht] at hsame
  exact map_eq_ok.1 hsame

/-- A store accepts a write if the table does. -/
theorem verdict_of_table {t : Table} (ht : s.table name = .ok t) (key : Bytes) (w : Write) :
    s.verdict (key, name, w) = t.verdict key w := by
  rw [verdict_eq_outline, outline, ht]
  exact t.verdict_emptied key w

/-! ## Tables after a write -/

theorem table_ext (h : ∀ t, s.table name = .ok t ↔ s'.table name = .ok t) :
    s.table name = s'.table name := by
  -- Only the name of a missing table is answered.
  have hmissing : ∀ {s : Store} {e : Refusal}, s.table name = .error e →
      e = .unknownTable name := by
    intro s e he
    rw [table] at he
    split at he
    · cases he
    · cases he
      rfl
  cases ht : s.table name with
  | ok t => exact ((h t).1 ht).symm
  | error e =>
    cases ht' : s'.table name with
    | ok t =>
      rw [(h t).2 ht'] at ht
      cases ht
    | error e' => rw [hmissing ht, hmissing ht']

/-- Names that compare as different are. -/
theorem ne_of_compare {a b : String} {o : Ordering} (h : compare a b = o) (ho : o ≠ .eq) :
    a ≠ b := by
  rintro rfl
  exact ho (h.symm.trans Std.ReflOrd.compare_self)

/-- After a table was put in place, the others are as before. -/
theorem mem_setTable (hinc : s.tables.Increasing compare) {t : Table} {entry : String × Table} :
    entry ∈ (s.setTable name t).tables ↔
      (entry.1 ≠ name ∧ entry ∈ s.tables) ∨ entry = (name, t) := by
  have hname : (fun _ : String => True) name := trivial
  -- The entries around the place of the name have other names.
  obtain ⟨before, after, hset, hentries, hbefore, hafter⟩ : ∃ before after,
      (s.setTable name t).tables = before ++ (name, t) :: after ∧
      (∀ entry, entry.1 ≠ name → (entry ∈ s.tables ↔ entry ∈ before ∨ entry ∈ after)) ∧
      (∀ entry ∈ before, entry.1 ≠ name) ∧ ∀ entry ∈ after, entry.1 ≠ name := by
    rcases Sorted.alter_cases (fun _ _ => trivial) hinc orderedOn_names hname t fun _ => t with
      ⟨before, k, v, after, hentries, heq, hset⟩ | ⟨before, after, hentries, hbefore, hafter, hset⟩
    · obtain rfl := Std.LawfulEqOrd.eq_of_compare heq
      rw [hentries] at hinc
      obtain ⟨-, htail, hcross⟩ := List.pairwise_append.1 hinc
      refine ⟨before, after, hset, fun entry hne => ?_, fun entry hmem => ?_, fun entry hmem => ?_⟩
      · rw [hentries, List.mem_append, List.mem_cons]
        constructor
        · rintro (h | rfl | h)
          · exact .inl h
          · exact absurd rfl hne
          · exact .inr h
        · rintro (h | h)
          · exact .inl h
          · exact .inr (.inr h)
      · exact ne_of_compare (hcross entry hmem _ List.mem_cons_self) nofun
      · exact (ne_of_compare (List.rel_of_pairwise_cons htail hmem) nofun).symm
    · refine ⟨before, after, hset, fun entry _ => ?_, fun entry hmem => ?_, fun entry hmem => ?_⟩
      · rw [hentries, List.mem_append]
      · exact ne_of_compare (hbefore entry hmem) nofun
      · exact ne_of_compare (hafter entry hmem) nofun
  rw [hset, List.mem_append, List.mem_cons]
  constructor
  · rintro (h | h | h)
    · exact .inl ⟨hbefore entry h, (hentries entry (hbefore entry h)).2 (.inl h)⟩
    · exact .inr h
    · exact .inl ⟨hafter entry h, (hentries entry (hafter entry h)).2 (.inr h)⟩
  · rintro (⟨hne, h⟩ | h)
    · rcases (hentries entry hne).1 h with h | h
      · exact .inl h
      · exact .inr (.inr h)
    · exact .inr (.inl h)

theorem increasing_setTable (hinc : s.tables.Increasing compare) (name : String) (t : Table) :
    (s.setTable name t).tables.Increasing compare :=
  hinc.set (fun _ _ => trivial) orderedOn_names trivial t

/-- A table that was put in place is found, and so are the others. -/
theorem table_setTable (hinc : s.tables.Increasing compare) (name : String) (t : Table)
    (other : String) :
    (s.setTable name t).table other = if other = name then .ok t else s.table other := by
  have hinc' := increasing_setTable hinc name t
  split
  · -- the entry that was put in is found under its name
    next hsame =>
    rw [hsame]
    exact (table_eq_ok_iff hinc').2 ((mem_setTable hinc).2 (.inr rfl))
  · -- any other table is found where it was
    next hother =>
    refine table_ext fun t' => ?_
    rw [table_eq_ok_iff hinc', table_eq_ok_iff hinc, mem_setTable hinc]
    constructor
    · rintro (⟨-, h⟩ | h)
      · exact h
      · cases h
        exact absurd rfl hother
    · exact fun h => .inl ⟨hother, h⟩

/-- Other rows in a table are no other outline. -/
theorem outline_setTable (hinc : s.tables.Increasing compare) {t t' : Table}
    (ht : s.table name = .ok t) (hsame : t'.emptied = t.emptied) :
    (s.setTable name t').outline = s.outline := by
  funext other
  rw [outline, outline, table_setTable hinc]
  split
  · next hname =>
    rw [hname, ht]
    exact congrArg Except.ok hsame
  · rfl

/-- An accepted write leaves the tables as they are, apart from their rows. -/
theorem outline_write (hinc : s.tables.Increasing compare) (hw : s.write key name w = .ok s') :
    s'.tables.Increasing compare ∧ s'.outline = s.outline := by
  obtain ⟨t, ht, t', ht', rfl⟩ := write_eq_ok.1 hw
  exact ⟨increasing_setTable hinc name t', outline_setTable hinc ht (Table.emptied_of_write ht')⟩

/-- An accepted write has no part in whether others are accepted. -/
theorem verdict_write (hinc : s.tables.Increasing compare) (hw : s.write key name w = .ok s') :
    s'.verdict = s.verdict := by
  funext ⟨key', name', w'⟩
  rw [verdict_eq_outline, verdict_eq_outline, (outline_write hinc hw).2]

/-! ## Batches -/

theorem verdict_of_write (h : s.write key name w = .ok s') : s.verdict (key, name, w) = .ok () := by
  rw [verdict, h]
  rfl

private theorem verdict_of_refused (h : s.write key name w = .error e) :
    s.verdict (key, name, w) = .error e := by
  rw [verdict, h]
  rfl

/-- Writes that are all accepted have been accepted from the beginning, and the other way round. -/
theorem writeAll_ok_iff {writes : List (Bytes × String × Write)} :
    ∀ {s : Store}, s.tables.Increasing compare →
      ((writeAll writes s).1 = .ok () ↔ ∀ w ∈ writes, s.verdict w = .ok ()) := by
  induction writes with
  | nil => exact fun _ => ⟨fun _ => List.forall_mem_nil _, fun _ => rfl⟩
  | cons first writes ih =>
    intro s hinc
    obtain ⟨key, name, w⟩ := first
    rw [writeAll, List.forall_mem_cons]
    -- If the first write is accepted, the verdicts on the others are still those of the beginning.
    cases hw : s.write key name w with
    | error e =>
      rw [verdict_of_refused hw]
      constructor
      · intro h
        cases h
      · rintro ⟨h, -⟩
        cases h
    | ok s' =>
      rw [verdict_of_write hw, ← verdict_write hinc hw]
      show (writeAll writes s').1 = .ok () ↔ _
      rw [ih (outline_write hinc hw).1]
      exact ⟨fun h => ⟨rfl, h⟩, fun h => h.2⟩

/-- The first write that is refused ends a batch, and those before it take effect. Which one that is
can be told from the beginning. -/
theorem writeAll_error {writes : List (Bytes × String × Write)} :
    ∀ {s : Store}, s.tables.Increasing compare → (writeAll writes s).1 = .error e →
      ∃ before w after, writes = before ++ w :: after ∧ (∀ w' ∈ before, s.verdict w' = .ok ()) ∧
        s.verdict w = .error e ∧ writeAll before s = (.ok (), (writeAll writes s).2) := by
  induction writes with
  | nil =>
    intro s hinc h
    cases h
  | cons first writes ih =>
    intro s hinc h
    obtain ⟨key, name, w⟩ := first
    -- Either the first write is the one, or it joins those that take effect.
    rw [writeAll] at h ⊢
    cases hw : s.write key name w with
    | error e' =>
      rw [hw] at h
      cases h
      exact ⟨[], _, writes, rfl, List.forall_mem_nil _, verdict_of_refused hw, rfl⟩
    | ok s' =>
      rw [hw] at h
      obtain ⟨before, w', after, rfl, haccepted, hrefused, hkept⟩ := ih (outline_write hinc hw).1 h
      rw [verdict_write hinc hw] at haccepted hrefused
      refine ⟨(key, name, w) :: before, w', after, rfl,
        List.forall_mem_cons.2 ⟨verdict_of_write hw, haccepted⟩, hrefused, ?_⟩
      rw [writeAll, hw]
      exact hkept

/-- A table is looked up for each request of a batch before anything is written. -/
theorem lookup_eq_ok_iff : ((s.table name).map fun _ => ()) = .ok () ↔
    ∃ t, s.table name = .ok t := by
  cases s.table name with
  | ok t => exact ⟨fun _ => ⟨t, rfl⟩, fun _ => rfl⟩
  | error e =>
    constructor
    · intro h
      cases h
    · rintro ⟨t, h⟩
      cases h

private theorem table_of_lookup (h : ((s.table name).map fun _ => ()) = .error e) :
    s.table name = .error e := by
  cases ht : s.table name with
  | ok t =>
    rw [ht] at h
    cases h
  | error e' =>
    rw [ht] at h
    cases h
    rfl

/-- A batch whose tables are known is applied write by write. -/
theorem batch_of_known {m : MutationMap}
    (h : ∀ request ∈ m.toList, ∃ t, s.table request.2.1 = .ok t) :
    batch m s = writeAll (batchWrites m) s := by
  have hknown : (m.toList.forM fun request => (s.table request.2.1).map fun _ => ()) = .ok () :=
    forM_eq_ok.2 fun request hrequest => lookup_eq_ok_iff.2 (h request hrequest)
  rw [batch, hknown]

theorem writeAll_singleton (h : s.write key name w = .ok s') :
    writeAll [(key, name, w)] s = (.ok (), s') := by
  rw [writeAll, h]
  rfl

/-- Writes behind others that are accepted begin where these end. -/
theorem writeAll_append {writes writes' : List (Bytes × String × Write)} :
    ∀ {s : Store}, writeAll writes s = (.ok (), s') →
      writeAll (writes ++ writes') s = writeAll writes' s' := by
  induction writes with
  | nil =>
    intro s h
    cases h
    rfl
  | cons first writes ih =>
    intro s h
    obtain ⟨key, name, w⟩ := first
    rw [List.cons_append, writeAll]
    rw [writeAll] at h
    -- the first write was accepted, or the whole list would have been refused
    cases hw : s.write key name w with
    | error e =>
      rw [hw] at h
      cases h
    | ok s₁ =>
      rw [hw] at h
      exact ih h

/-! ## Refusals -/

/-- What a store answers to an operation. -/
def answer (s : Store) : Operation → Except Refusal Unit
  | .batch mutations => (batch mutations s).1
  | .add key parent c => (fun _ => ()) <$> s.add key parent c
  | .remove key path timestamp => (fun _ => ()) <$> s.remove key path timestamp
  | .truncate table => (fun _ => ()) <$> s.truncate table

/-- A batch is accepted if its tables are known and each of its writes would be accepted alone. -/
theorem answer_batch_ok_iff (hinc : s.tables.Increasing compare) {m : MutationMap} :
    s.answer (.batch m) = .ok () ↔
      (∀ request ∈ m.toList, ∃ t, s.table request.2.1 = .ok t) ∧
        ∀ w ∈ batchWrites m, s.verdict w = .ok () := by
  simp only [← lookup_eq_ok_iff]
  rw [← writeAll_ok_iff hinc, answer, batch]
  split
  · next hunknown =>
    constructor
    · intro h
      cases h
    · rintro ⟨hknown, -⟩
      cases hunknown.symm.trans (forM_eq_ok.2 hknown)
  · next hknown => exact ⟨fun h => ⟨forM_eq_ok.1 hknown, h⟩, fun h => h.2⟩

/-- What an operation that is refused leaves behind. -/
inductive Refused (s : Store) (e : Refusal) : Operation → Store → Prop where
  | add {key : Bytes} {parent : ColumnParent} {c : Counter} : Refused s e (.add key parent c) s
  | remove {key : Bytes} {path : ColumnPath} {timestamp : Option Int64} :
      Refused s e (.remove key path timestamp) s
  | truncate {table : String} : Refused s e (.truncate table) s
  | unknown {m : MutationMap} {request : Bytes × String × List Mutation}
      (hrequest : request ∈ m.toList) (htable : s.table request.2.1 = .error e) :
      Refused s e (.batch m) s
  /-- The store would have refused the write from the beginning. It keeps those before it. -/
  | halfway {m : MutationMap} {before after : List (Bytes × String × Write)}
      {w : Bytes × String × Write} {s' : Store} (hwrites : batchWrites m = before ++ w :: after)
      (haccepted : ∀ w' ∈ before, s.verdict w' = .ok ()) (hrefused : s.verdict w = .error e)
      (hkept : writeAll before s = (.ok (), s')) :
      Refused s e (.batch m) s'

theorem afterAll_of_error {result : Except Refusal Store}
    (h : (fun _ => ()) <$> result = .error e) : s.afterAll result = s := by
  cases result with
  | ok s' => cases h
  | error e' => rfl

theorem ok_of_answer {result : Except Refusal Store} (h : (fun _ => ()) <$> result = .ok ()) :
    result = .ok (s.afterAll result) := by
  cases result with
  | ok s' => rfl
  | error e => cases h

private theorem refused_of_increasing (hinc : s.tables.Increasing compare) {operation : Operation}
    (h : s.answer operation = .error e) : Refused s e operation (s.apply operation) := by
  cases operation with
  | batch m =>
    rw [answer, batch] at h
    rw [apply, batch]
    split at h
    · -- an unknown table is refused before anything is applied
      next hunknown =>
      cases h
      obtain ⟨request, hrequest, hlookup⟩ := exists_of_forM_eq_error hunknown
      exact .unknown hrequest (table_of_lookup hlookup)
    · -- otherwise the writes before the refused one stay applied
      obtain ⟨before, w, after, hwrites, haccepted, hrefused, hkept⟩ := writeAll_error hinc h
      exact .halfway hwrites haccepted hrefused hkept
  | add key parent c =>
    rw [apply, afterAll_of_error h]
    exact .add
  | remove key path timestamp =>
    rw [apply, afterAll_of_error h]
    exact .remove
  | truncate table =>
    rw [apply, afterAll_of_error h]
    exact .truncate

/-- The tables of every reachable state are in order. -/
theorem increasing_run (registry : Registry) (keyspace : KeyspaceDef) (history : List Operation) :
    ((ofKeyspace registry keyspace).run history).tables.Increasing compare := by
  have hinv : TableInvariant (fun _ _ => True) fun _ => True :=
    ⟨fun _ => trivial, fun _ _ _ => trivial⟩
  exact (hinv.run registry keyspace fun _ _ _ _ _ _ _ _ => trivial).increasing

/-! ## Main result -/

/-- A refused increment, removal or truncation leaves the store as it was, and so does a batch with
an unknown table. Any other refused batch leaves the writes that stand before the first invalid one,
though the store could have told from the beginning that it would refuse that one. -/
theorem refused_leaves {registry : Registry} {keyspace : KeyspaceDef} {history : List Operation}
    {operation : Operation} {e : Refusal}
    (h : ((ofKeyspace registry keyspace).run history).answer operation = .error e) :
    Refused ((ofKeyspace registry keyspace).run history) e operation
      (((ofKeyspace registry keyspace).run history).apply operation) :=
  refused_of_increasing (increasing_run registry keyspace history) h

/-- An empty table of opaque bytes. -/
def standardKeyspace : KeyspaceDef :=
  (KeyspaceDef.ofName "Keyspace1").withTable (.ofName "Keyspace1" "Standard1")

/-- A column and another one without a name, in the same row. -/
def halfValid : MutationMap :=
  (MutationMap.empty.push [107] "Standard1" (.insert (.column ⟨[97], [49], 1, none⟩))).push
    [107] "Standard1" (.insert (.column ⟨[], [50], 1, none⟩))

theorem refused_leaves_halfValid :
    Refused (ofKeyspace .standard standardKeyspace) .emptyColumnName (.batch halfValid)
      ((ofKeyspace .standard standardKeyspace).apply (.batch halfValid)) := by
  have hanswer : ((ofKeyspace .standard standardKeyspace).run []).answer (.batch halfValid) =
      .error .emptyColumnName := by
    decide +kernel
  exact refused_leaves hanswer

/-- The column stays though the batch is refused. -/
theorem apply_halfValid_ne :
    let s := ofKeyspace .standard standardKeyspace
    s.answer (.batch halfValid) = .error .emptyColumnName ∧
      s.slice [107] ⟨"Standard1", none⟩ (.full 100) = .ok [] ∧
      (s.apply (.batch halfValid)).slice [107] ⟨"Standard1", none⟩ (.full 100) =
        .ok [.column ⟨[97], [49], 1, none⟩] ∧
      s.apply (.batch halfValid) ≠ s := by
  intro s
  -- the row is empty before the batch and has a column after it
  have hempty : s.slice [107] ⟨"Standard1", none⟩ (.full 100) = .ok [] := by decide +kernel
  have hkept : (s.apply (.batch halfValid)).slice [107] ⟨"Standard1", none⟩ (.full 100) =
      .ok [.column ⟨[97], [49], 1, none⟩] := by
    decide +kernel
  refine ⟨by decide +kernel, hempty, hkept, fun hsame => ?_⟩
  rw [hsame, hempty] at hkept
  cases hkept

end WideColumn.Store
