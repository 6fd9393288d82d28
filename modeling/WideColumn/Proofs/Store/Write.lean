import WideColumn.Proofs.DataType.TotalOrder
import WideColumn.Proofs.Sorted.Search
import WideColumn.Store

/-!
# What a write does

A write to a table is a row of checks in front of one change of one row. Each of the lemmas below
says for one kind of write which checks it has to pass and what the table is afterwards; proofs
about writes start from them and never look into the checks themselves.

- `putColumn_eq_ok`, `putSuper_eq_ok`, `increment_eq_ok`, `delete_eq_ok`: the four kinds of writes;
- `emptied_of_write`: all of them leave everything but the rows as it was;
- `write_eq_ok` and `remove_eq_ok`: a write to a store is one to the table it names.
-/

namespace WideColumn.Store

namespace Table

variable {t t' : Table} {key : Bytes}

/-! ## Checks -/

theorem checkParent_eq_ok {superColumn : Option Bytes} :
    t.checkParent superColumn = .ok () ↔ (superColumn.isSome = true → t.isSuper = true) := by
  rw [checkParent]
  cases superColumn.isSome <;> cases t.isSuper <;> simp

theorem checkCounters_eq_ok {counters : Bool} :
    t.checkCounters counters = .ok () ↔ t.holdsCounters = counters := by
  unfold checkCounters
  cases t.holdsCounters <;> cases counters <;> simp

private theorem checkName_eq_ok {type : DataType} {name : Bytes} :
    checkName type name = .ok () ↔ name ≠ [] ∧ type.Accepts name := by
  rw [checkName]
  cases name with
  | nil => simp
  | cons b bs =>
    cases hunpack : type.unpack (b :: bs) with
    | ok v => simp [DataType.Accepts, hunpack]
    | error e => simp [DataType.Accepts, hunpack]

private theorem checkKey_eq_ok : checkKey key = .ok () ↔ key ≠ [] := by
  rw [checkKey]
  cases key <;> simp

/-- What a column has to be: a name that decodes under a type, and a value that decodes under the
validator of the name. -/
def Takes (t : Table) (type : DataType) (c : Column) : Prop :=
  (c.name ≠ [] ∧ type.Accepts c.name) ∧ (t.validator c.name).Accepts c.value

private theorem checkColumn_eq_ok {type : DataType} {c : Column} :
    t.checkColumn type c = .ok () ↔ t.Takes type c := by
  rw [checkColumn, bind_eq_ok, Takes, ← checkName_eq_ok]
  constructor
  · rintro ⟨⟨⟩, hname, h⟩
    refine ⟨hname, ?_⟩
    split at h
    · next v hv => exact ⟨v, hv⟩
    · cases h
  · rintro ⟨hname, v, hv⟩
    refine ⟨(), hname, ?_⟩
    rw [hv]
    rfl

private theorem forM_checkColumn_eq_ok {type : DataType} {columns : List Column} :
    columns.forM (t.checkColumn type) = .ok () ↔ ∀ c ∈ columns, t.Takes type c := by
  simp only [forM_eq_ok, checkColumn_eq_ok]

/-! ## Writes to a table -/

theorem putColumn_eq_ok {c : Column} :
    t.putColumn key c = .ok t' ↔
      t.holdsCounters = false ∧ t.isSuper = false ∧ t.Takes t.comparator c ∧ key ≠ [] ∧
        t.alterRow key (onLeaves (Leaves.put t.order c)) = t' := by
  simp only [putColumn, check_eq_ok, refuse_eq_ok, checkCounters_eq_ok, checkColumn_eq_ok,
    checkKey_eq_ok, pure_eq_ok, Bool.not_eq_true]

theorem putSuper_eq_ok {superColumn : Bytes} {columns : List Column} :
    t.putSuper key superColumn columns = .ok t' ↔
      t.holdsCounters = false ∧ t.isSuper = true ∧
        (superColumn ≠ [] ∧ t.comparator.Accepts superColumn) ∧
        (∀ c ∈ columns, t.Takes t.subcomparator c) ∧ key ≠ [] ∧
        t.alterRow key (t.onSuper superColumn fun leaves =>
          columns.foldl (fun leaves c => leaves.put t.suborder c) leaves) = t' := by
  simp only [putSuper, check_eq_ok, refuse_eq_ok, checkCounters_eq_ok, checkName_eq_ok,
    forM_checkColumn_eq_ok, checkKey_eq_ok, pure_eq_ok, Bool.not_eq_true, Bool.not_eq_false']

/-- An increment does not look at the name of its super column. -/
theorem increment_eq_ok {superColumn : Option Bytes} {c : Counter} :
    t.increment key superColumn c = .ok t' ↔
      t.holdsCounters = true ∧ t.isSuper = superColumn.isSome ∧
        (c.name ≠ [] ∧ t.leafComparator.Accepts c.name) ∧ key ≠ [] ∧
        t.alterRow key
          (match superColumn with
          | none => onLeaves (Leaves.increment t.order c)
          | some name => t.onSuper name (Leaves.increment t.suborder c)) = t' := by
  simp only [increment.eq_def, check_eq_ok, refuse_eq_ok, checkCounters_eq_ok, checkName_eq_ok,
    checkKey_eq_ok, checkParent_eq_ok]
  -- Whether a super column is named has to agree with the layout of the table.
  cases superColumn <;> cases t.isSuper <;> simp [pure_eq_ok]

theorem delete_eq_ok {d : Deletion} :
    t.delete key d = .ok t' ↔
      (d.superColumn.isSome = true → t.isSuper = true) ∧
        (match t.row? key with
         | none => t
         | some row => { t with rows := t.rows.set compare key (t.deleteFrom d row) }) = t' := by
  simp only [delete, check_eq_ok, checkParent_eq_ok]
  cases t.row? key <;> simp only [pure_eq_ok]

/-- A table without its rows. -/
def emptied (t : Table) : Table := { t with rows := [] }

/-- A write changes nothing but the rows of its table. -/
theorem emptied_of_write {w : Write} (h : t.write key w = .ok t') : t'.emptied = t.emptied := by
  cases w with
  | column c =>
    obtain ⟨-, -, -, -, rfl⟩ := putColumn_eq_ok.1 h
    rfl
  | superColumn name columns =>
    obtain ⟨-, -, -, -, -, rfl⟩ := putSuper_eq_ok.1 h
    rfl
  | increment superColumn c =>
    obtain ⟨-, -, -, -, rfl⟩ := increment_eq_ok.1 h
    rfl
  | delete d =>
    obtain ⟨-, rfl⟩ := delete_eq_ok.1 h
    cases t.row? key <;> rfl

end Table

/-! ## Writes to a store -/

theorem write_eq_ok {s s' : Store} {key : Bytes} {name : String} {w : Write} :
    s.write key name w = .ok s' ↔
      ∃ t, s.table name = .ok t ∧ ∃ t', t.write key w = .ok t' ∧ s.setTable name t' = s' := by
  simp only [write, bind_eq_ok, pure_eq_ok]

theorem truncate_eq_ok {s s' : Store} {name : String} :
    s.truncate name = .ok s' ↔
      ∃ t, s.table name = .ok t ∧ s.setTable name { t with rows := [] } = s' := by
  simp only [truncate, bind_eq_ok, pure_eq_ok]

/-- A removal is the deletion that its path stands for, in a table of the right kind. -/
theorem remove_eq_ok {s s' : Store} {key : Bytes} {path : ColumnPath} {timestamp : Option Int64} :
    s.remove key path timestamp = .ok s' ↔
      ∃ t, s.table path.table = .ok t ∧ t.holdsCounters = timestamp.isNone ∧
        (path.superColumn.isSome = true → t.isSuper = true) ∧
        ∃ t', t.delete key (deletionAt path timestamp) = .ok t' ∧
        s.setTable path.table t' = s' := by
  rw [remove, bind_eq_ok]
  refine exists_congr fun t => and_congr_right fun _ => ?_
  rw [check_eq_ok, check_eq_ok, Table.checkCounters_eq_ok, Table.checkParent_eq_ok]
  simp only [bind_eq_ok, pure_eq_ok]

end WideColumn.Store
