import WideColumn.Handle.Read
import WideColumn.Proofs.Batch.Clients
import WideColumn.Proofs.Store.Listing

/-!
# Super columns that clients see

Whatever clients write and remove, alone or by batches and with whatever failures, no super column
is left without leaves. So none is read or counted that holds nothing, and the live rows are those
that hold something.

- `Handle.Lists`: the entries that a store has for a query;
- `Handle.of_get?`, `Handle.of_getCount`: a read that is answered shows or counts these entries;
- `Reached.unlisted_of_delete`: a super column that a deletion leaves empty is not listed any more;
- `superColumns_hold_leaves`: all super columns in a run of clients hold leaves.
-/

namespace WideColumn

/-! ## Reads -/

/-- The entries that a store has for a query to the row of a packed key. -/
def Handle.Lists (h : Handle) (store : Store) (q : SliceQuery) (packed : Bytes)
    (entries : List Entry) :
    Prop :=
  ∃ parent predicate, h.parent q.superColumn = .ok parent ∧ h.predicate q = .ok predicate ∧
    store.slice packed parent predicate = .ok entries

section Reads

variable {h : Handle} {key : Value} {q : SliceQuery} {s s' : Pool × Cluster}

/-- A call that is answered is answered by the store. -/
theorem Client.served_of_call {α : Type} {r : Rpc α} {a : α} (hcall : Client.call r s = .ok a s') :
    (s.2.store.serve r).1 = .ok a := by
  have hstore := Client.store_of_call r s
  rw [hcall] at hstore
  exact hstore.1

private theorem Store.of_answer {α : Type} {result : Except Refusal α} {a : α}
    (h : Cluster.answer result = .ok a) : result = .ok a := by
  cases result with
  | ok b =>
    cases h
    rfl
  | error refusal => cases h

/-- A row that is read shows what the store has, and no row is read if the store has nothing. -/
theorem Handle.of_get? {found : Option Row} (hget : h.get? key q s = .ok found s') :
    ∃ packed entries, h.packKey key = .ok packed ∧ h.Lists s.2.store q packed entries ∧
      match found with
      | none => entries = []
      | some row => entries ≠ [] ∧ h.decode entries = .ok row.cells := by
  obtain ⟨r, hr, hget⟩ := Client.ofExcept_bind_eq_ok.1 hget
  simp only [Handle.sliceRequest, bind_eq_ok, pure_eq_ok] at hr
  obtain ⟨packed, hkey, parent, hparent, predicate, hpredicate, rfl⟩ := hr
  -- The entries are those that the store answers for the slice.
  obtain ⟨entries, s₁, hcall, hget⟩ := Client.bind_eq_ok.1 hget
  have hslice : s.2.store.slice packed parent predicate = .ok entries :=
    Store.of_answer (Client.served_of_call hcall)
  refine ⟨packed, entries, hkey, ⟨parent, predicate, hparent, hpredicate, hslice⟩, ?_⟩
  -- A row without entries is not found; those of any other are decoded.
  split at hget
  · next hempty =>
    obtain ⟨rfl, -⟩ := Client.pure_eq_ok.1 hget
    exact List.isEmpty_iff.1 hempty
  · next hsome =>
    obtain ⟨cells, hcells, hget⟩ := Client.ofExcept_bind_eq_ok.1 hget
    obtain ⟨rfl, -⟩ := Client.pure_eq_ok.1 hget
    exact ⟨fun hnil => hsome (List.isEmpty_iff.2 hnil), hcells⟩

/-- A count is the number of the entries that the store has. -/
theorem Handle.of_getCount {n : Nat} (hcount : h.getCount key q s = .ok n s') :
    ∃ packed entries, h.packKey key = .ok packed ∧ h.Lists s.2.store q packed entries ∧
      n = (countWord entries.length).toInt.toNat := by
  obtain ⟨r, hr, hcount⟩ := Client.ofExcept_bind_eq_ok.1 hcount
  simp only [Handle.countRequest, bind_eq_ok, pure_eq_ok] at hr
  obtain ⟨packed, hkey, parent, hparent, predicate, hpredicate, rfl⟩ := hr
  obtain ⟨count, s₁, hcall, hcount⟩ := Client.bind_eq_ok.1 hcount
  -- The store answers the number of the entries of the same slice.
  have hanswer : (fun entries : List Entry => countWord entries.length) <$>
      s.2.store.slice packed parent predicate = .ok count :=
    Store.of_answer (Client.served_of_call hcall)
  obtain ⟨entries, hslice, rfl⟩ := map_eq_ok.1 hanswer
  refine ⟨packed, entries, hkey, ⟨parent, predicate, hparent, hpredicate, hslice⟩, ?_⟩
  obtain ⟨hn, -⟩ := Client.ofExcept_eq_ok.1 hcount
  rw [Handle.columnCount] at hn
  -- A negative count is an error, so this one is the word that was answered.
  split at hn
  · cases hn
  · exact (Except.ok.inj hn).symm

/-- As many cells come out as columns or counters go in, so some do if any go in. -/
theorem ne_nil_of_mapM {α : Type} {decode : α → Except ClientError Cell} {xs : List α}
    {cells : List Cell} (hcells : xs.mapM decode = .ok cells) (hne : xs ≠ []) : cells ≠ [] := by
  obtain ⟨x, hx⟩ := List.exists_mem_of_ne_nil _ hne
  obtain ⟨cell, hcell⟩ := exists_of_mapM hcells hx
  exact List.ne_nil_of_mem ((mem_of_mapM hcells).2 ⟨x, hx, hcell⟩)

/-- If the listed super columns are backed, the cells that they are decoded to have cells inside. -/
theorem Handle.ne_nil_of_decode {store : Store} {table : String} {packed : Bytes}
    {entries : List Entry}
    {cells : List Cell} (hbacked : ∀ entry ∈ entries, store.Backs table packed entry)
    (hdecode : h.decode entries = .ok cells) {name : Value} {inner : List Cell}
    (hmem : .super name inner ∈ cells) : inner ≠ [] := by
  obtain ⟨entry, hentry, hcell⟩ := (mem_of_mapM hdecode).1 hmem
  obtain ⟨row, -, hbacks⟩ := hbacked entry hentry
  -- Only super columns decode to cells with cells inside, and those that are backed have leaves.
  cases entry with
  | column c =>
    simp only [Handle.decodeEntry, Handle.decodeColumn, bind_eq_ok, pure_eq_ok] at hcell
    obtain ⟨_, -, _, -, heq⟩ := hcell
    cases heq
  | counter c =>
    simp only [Handle.decodeEntry, Handle.decodeCounter, bind_eq_ok, pure_eq_ok] at hcell
    obtain ⟨_, -, heq⟩ := hcell
    cases heq
  | superColumn packedName columns =>
    simp only [Handle.decodeEntry, bind_eq_ok, pure_eq_ok] at hcell
    obtain ⟨_, -, cells, hcells, heq⟩ := hcell
    cases heq
    exact ne_nil_of_mapM hcells hbacks.1
  | superCounter packedName counters =>
    simp only [Handle.decodeEntry, bind_eq_ok, pure_eq_ok] at hcell
    obtain ⟨_, -, cells, hcells, heq⟩ := hcell
    cases heq
    exact ne_nil_of_mapM hcells hbacks.1

end Reads

/-! ## Main result -/

section Main

variable {registry : Registry} {keyspace : KeyspaceDef} {store : Store} {name : String}
  {t : Store.Table}

private theorem Reached.leavesWellFormed (h : Reached registry keyspace store)
    (ht : store.table name = .ok t) :
    t.LeavesWellFormed := by
  obtain ⟨history, -, rfl⟩ := h
  exact Store.leavesWellFormed_of_run ht

/-- What a store that handles have made lists is backed by its rows. -/
theorem Reached.backs (hreached : Reached registry keyspace store) {h : Handle} {q : SliceQuery}
    {packed : Bytes} {entries : List Entry} (hlists : h.Lists store q packed entries) :
    ∀ entry ∈ entries, store.Backs h.name packed entry := by
  obtain ⟨parent, predicate, hparent, -, hslice⟩ := hlists
  simp only [Handle.parent, bind_eq_ok, pure_eq_ok] at hparent
  obtain ⟨superColumn, -, rfl⟩ := hparent
  exact Store.backs_of_slice (fun t ht => ⟨hreached.filled ht, hreached.leavesWellFormed ht⟩) hslice

/-- A super column in which a row holds nothing is not backed by it. -/
theorem Store.Backs.exists_holds {entry : Entry} {packed superColumn : Bytes}
    (h : store.Backs name packed entry)
    (hentry : (∃ columns, entry = .superColumn superColumn columns) ∨
      ∃ counters, entry = .superCounter superColumn counters) :
    ∃ column leaf, store.Holds ⟨name, packed, some superColumn, column⟩ leaf := by
  obtain ⟨row, hrow, hbacks⟩ := h
  rcases hentry with ⟨columns, rfl⟩ | ⟨counters, rfl⟩
  · obtain ⟨c, hc⟩ := List.exists_mem_of_ne_nil _ hbacks.1
    exact ⟨_, _, row, hrow, hbacks.2 c hc⟩
  · obtain ⟨c, hc⟩ := List.exists_mem_of_ne_nil _ hbacks.1
    exact ⟨_, _, row, hrow, hbacks.2 c hc⟩

/-- A super column is not listed any more after a deletion that addresses and shadows all it
held. -/
theorem Reached.unlisted_of_delete (hreached : Reached registry keyspace store)
    (hrows : store.RowsOrdered) {h : Handle} (ht : store.table h.name = .ok t)
    {operation : Store.Operation} (hsent : Sent operation) {packed superColumn : Bytes}
    {d : Deletion}
    (hdelete : store.write packed h.name (.delete d) = .ok (store.apply operation))
    (hall : ∀ column leaf, store.Holds ⟨h.name, packed, some superColumn, column⟩ leaf →
      leaf.Shadowed d.timestamp ∧ ∃ row, store.row? h.name packed = some row ∧
        d.Addresses t row (some superColumn) column)
    {q : SliceQuery} {entries : List Entry}
    (hlists : h.Lists (store.apply operation) q packed entries) (columns : List Column)
    (counters : List Counter) :
    Entry.superColumn superColumn columns ∉ entries ∧
      Entry.superCounter superColumn counters ∉ entries := by
  -- Nothing that the super column held is left, and what is listed would be backed by something.
  have hnone : ∀ column leaf,
      ¬(store.apply operation).Holds ⟨h.name, packed, some superColumn, column⟩ leaf := by
    intro column leaf hholds
    obtain ⟨hold, hkept⟩ := (Store.holds_delete_iff hrows ht hdelete).1 hholds
    exact hkept ⟨rfl, rfl, hall column leaf hold⟩
  have hbacked := (hreached.apply hsent).backs hlists
  constructor
  · intro hmem
    obtain ⟨column, leaf, hholds⟩ := (hbacked _ hmem).exists_holds (.inl ⟨columns, rfl⟩)
    exact hnone column leaf hholds
  · intro hmem
    obtain ⟨column, leaf, hholds⟩ := (hbacked _ hmem).exists_holds (.inr ⟨counters, rfl⟩)
    exact hnone column leaf hholds

/-- At any point of a run of clients, all stored super columns hold leaves. So what a store lists
for a query is backed by its rows, and a super column in which nothing is left, however it was
removed, is not listed. A row that is read shows just what is listed, with no empty super column; a
count counts that; and the live rows of a table are those that hold a leaf. -/
theorem superColumns_hold_leaves (registry : Registry) (keyspace : KeyspaceDef)
    (config : PoolConfig) (actions : List Clients.Action) :
    let clients := (Clients.start registry keyspace config).run actions
    let store := clients.servers.2.store
    (∀ name t, store.table name = .ok t → t.Filled) ∧
    (∀ (h : Handle) q packed entries, h.Lists store q packed entries →
      (∀ entry ∈ entries, store.Backs h.name packed entry) ∧
      ∀ superColumn,
        (∀ column leaf, ¬store.Holds ⟨h.name, packed, some superColumn, column⟩ leaf) →
        ∀ columns counters, Entry.superColumn superColumn columns ∉ entries ∧
          Entry.superCounter superColumn counters ∉ entries) ∧
    (∀ (h : Handle) key q row s', h.get? key q clients.servers = .ok (some row) s' →
      (∀ name inner, Cell.super name inner ∈ row.cells → inner ≠ []) ∧
      ∃ packed entries, h.packKey key = .ok packed ∧ h.Lists store q packed entries ∧
        h.decode entries = .ok row.cells) ∧
    (∀ (h : Handle) key q n s', h.getCount key q clients.servers = .ok n s' →
      ∃ packed entries, h.packKey key = .ok packed ∧ h.Lists store q packed entries ∧
        n = (countWord entries.length).toInt.toNat) ∧
    ∀ name, ∃ keys : List Bytes, keys.Nodup ∧ store.liveRowCount name = keys.length ∧
      ∀ key, key ∈ keys ↔
        ∃ superColumn column leaf, store.Holds ⟨name, key, superColumn, column⟩ leaf := by
  intro clients store
  -- Whatever the clients did, the store is one that handles make.
  have hreached : Reached registry keyspace store :=
    (Clients.sound_run registry keyspace config actions).store
  refine ⟨fun name t ht => hreached.filled ht, fun h q packed entries hlists => ?_,
    fun h key q row s' hget => ?_, fun h key q n s' hcount =>
      Handle.of_getCount hcount, fun name => ?_⟩
  · -- an entry that is listed is backed by its row, so a super column that is listed has a leaf
    have hbacked := hreached.backs hlists
    refine ⟨hbacked, fun superColumn hnone columns counters => ⟨fun hmem => ?_, fun hmem => ?_⟩⟩
    · obtain ⟨column, leaf, hholds⟩ := (hbacked _ hmem).exists_holds (.inl ⟨columns, rfl⟩)
      exact hnone column leaf hholds
    · obtain ⟨column, leaf, hholds⟩ := (hbacked _ hmem).exists_holds (.inr ⟨counters, rfl⟩)
      exact hnone column leaf hholds
  · -- what a row shows is decoded from what is listed for it
    obtain ⟨packed, entries, hkey, hlists, -, hdecode⟩ := Handle.of_get? hget
    have hbacked := hreached.backs hlists
    exact ⟨fun name inner => Handle.ne_nil_of_decode hbacked hdecode,
      packed, entries, hkey, hlists, hdecode⟩
  · exact Store.exists_liveKeys hreached.ordered fun t ht => hreached.filled ht

/-- A batch removes the only column of a super column. The row stays, but it is not live. -/
example :
    let key : Value := .bytes [114]
    let columns : NewColumns := .grouped [(.text "a", [(.long 1, .text "x")])]
    let clients :=
      (Clients.start .standard linksKeyspace { PoolConfig.default with keyspace := "web" }).run
      [.perform (.insert linksHandle key columns ⟨5, none, none⟩), .openBatch .one none,
        .queue 0 (.remove linksHandle key (some [.long 1]) (some (.text "a")) ⟨6, none, none⟩),
        .send 0]
    let store := clients.servers.2.store
    (store.rowCount "links", store.liveRowCount "links",
      (store.slice [114] ⟨"links", none⟩ (.full 100)).toOption) = (1, 0, some []) := by
  decide +kernel

end Main

end WideColumn
