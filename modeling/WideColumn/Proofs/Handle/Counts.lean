import WideColumn.Proofs.Handle.Multiget

/-!
# Counts of columns

Reading a row and counting it send the same arguments, and the store lists the same entries for
both. So what they answer can be told from what is listed. A count of several rows asks for the rows
of a piece at once and looks each key up in the answer, which tells the same as asking for them one
by one.

- `Client.Agree`: two programs that both answer, or fail for one reason;
- `Handle.listed`: what the store lists for a query, or why it refuses to;
- `get?_eq_rowListed`, `getCount_eq_countListed`: reads and counts answer from what is listed;
- `multigetCount_eq_countListed`: a count of several rows is a run of counts, whatever the pieces
  are;
- `Handle.Readable`: tables whose rows decode and can be counted;
- `get?_agrees_getCount`, `multigetCount_agrees_getCount`: reads and counts of such rows agree.
-/

namespace WideColumn

/-! ## Programs told by what they compute -/

namespace Client

/-- What a client is told of an answer of the store. -/
def told {α : Type} : Except Refusal α → Except ClientError α
  | .ok a => .ok a
  | .error refusal => .error (.ofRpc (.invalidRequest refusal.message))

private theorem outcome_answer {α : Type} (result : Except Refusal α) (s : Pool × Cluster) :
    outcome (Cluster.answer result) s = ofExcept (told result) s := by
  cases result <;> rfl

private theorem told_eq_ok {α : Type} {result : Except Refusal α} {a : α} :
    told result = .ok a ↔ result = .ok a := by
  cases result <;> simp [told]

section Compute

variable {ω α β : Type} {s s' : Pool × ω}

/-- What is computed from what was computed is computed at once. -/
theorem bind_of_ofExcept {x : Client ω α} {y : Except ClientError α} (h : x s = ofExcept y s')
    (f : α → Except ClientError β) :
    (x >>= fun a => ofExcept (f a)) s = ofExcept (y >>= f) s' := by
  cases y with
  | ok a => exact bind_of_ok h
  | error e => exact bind_of_error h

/-- Steps that compute something from their items and keep a property of the state compute it one
after the other, up to the first that fails. -/
theorem mapM_of_ofExcept {P : Pool × ω → Prop} {f : α → Client ω β} {g : α → Except ClientError β}
    {xs : List α} (h : ∀ x ∈ xs, ∀ s, P s → ∃ s', P s' ∧ f x s = ofExcept (g x) s') :
    ∀ {s : Pool × ω}, P s → ∃ s', P s' ∧ xs.mapM f s = ofExcept (xs.mapM g) s' := by
  -- By induction on the items, from any state: the first failure ends both runs.
  induction xs with
  | nil => exact fun {s} hs => ⟨s, hs, rfl⟩
  | cons x xs ih =>
    intro s hs
    obtain ⟨s₁, hs₁, hfirst⟩ := h x List.mem_cons_self s hs
    rw [List.mapM_cons, List.mapM_cons]
    cases hx : g x with
    | error e =>
      rw [hx] at hfirst
      exact ⟨s₁, hs₁, bind_of_error hfirst⟩
    | ok b =>
      rw [hx] at hfirst
      obtain ⟨s', hs', hrest⟩ := ih (fun x hx => h x (List.mem_cons_of_mem _ hx)) hs₁
      refine ⟨s', hs', ?_⟩
      rw [bind_of_ok hfirst]
      exact bind_of_ofExcept hrest fun bs => .ok (b :: bs)

end Compute

/-- Both programs answered, and their answers fit, or both failed for the same reason. -/
def Agree {σ α β : Type} (fits : α → β → Prop) :
    EStateM.Result ClientError σ α → EStateM.Result ClientError σ β → Prop
  | .ok a _, .ok b _ => fits a b
  | .error e _, .error e' _ => e = e'
  | _, _ => False

private theorem agree_ofExcept {ω α : Type} (x : Except ClientError α) {s s' : Pool × ω} :
    Agree (fun a b => a = b) (ofExcept x s) (ofExcept x s') := by
  cases x <;> rfl

end Client

/-! ## What the store lists -/

/-- Whether a store refuses to list entries is the same for all rows of a table. -/
theorem Store.slice_cases (s : Store) (parent : ColumnParent) (predicate : SlicePredicate) :
    (∃ refusal, ∀ key, s.slice key parent predicate = .error refusal) ∨
      ∃ entries : Bytes → List Entry, ∀ key, s.slice key parent predicate = .ok (entries key) := by
  cases ht : s.table parent.table with
  | error refusal => exact .inl ⟨refusal, fun key => by rw [slice, ht]; rfl⟩
  | ok t =>
    cases hparent : t.checkParent parent.superColumn with
    | error refusal => exact .inl ⟨refusal, fun key => by rw [slice, ht, ok_bind, hparent]; rfl⟩
    | ok => exact .inr ⟨_, slice_eq_entriesOf ht hparent⟩

namespace Handle

/-- The entries that a store lists for a query, or why there are none. -/
def listed (h : Handle) (store : Store) (key : Value) (q : SliceQuery) :
    Except ClientError (List Entry) := do
  let packed ← h.packKey key
  let parent ← h.parent q.superColumn
  let predicate ← h.predicate q
  Client.told (store.slice packed parent predicate)

/-- What a read answers: nothing if nothing is listed, and otherwise what the entries unpack to. -/
def rowListed (h : Handle) (store : Store) (key : Value) (q : SliceQuery) :
    Except ClientError (Option Row) := do
  let entries ← h.listed store key q
  if entries.isEmpty then return none
  return some ⟨key, ← h.decode entries⟩

/-- What a count answers: how many entries are listed. -/
def countListed (h : Handle) (store : Store) (key : Value) (q : SliceQuery) :
    Except ClientError Nat := do
  let entries ← h.listed store key q
  columnCount (countWord entries.length)

section Serving

variable {h : Handle} {store : Store} {s : Pool × Cluster} {key : Value} {q : SliceQuery}

/-- A read and a count cannot be asked for the same reason, or both are asked with what was
packed. -/
theorem request_cases (h : Handle) (store : Store) (key : Value) (q : SliceQuery) :
    (∃ e, h.sliceRequest key q = .error e ∧ h.countRequest key q = .error e ∧
      h.listed store key q = .error e) ∨
    ∃ packed parent predicate, h.packKey key = .ok packed ∧ h.parent q.superColumn = .ok parent ∧
      h.predicate q = .ok predicate ∧
      h.sliceRequest key q = .ok (.getSlice packed parent predicate (h.readLevel q)) ∧
      h.countRequest key q = .ok (.getCount packed parent predicate (h.readLevel q)) ∧
      h.listed store key q = Client.told (store.slice packed parent predicate) := by
  -- Both requests are packed from the same parts and in the same order.
  unfold sliceRequest countRequest listed
  cases h.packKey key with
  | error e => exact .inl ⟨e, rfl, rfl, rfl⟩
  | ok packed =>
    cases h.parent q.superColumn with
    | error e => exact .inl ⟨e, rfl, rfl, rfl⟩
    | ok parent =>
      cases h.predicate q with
      | error e => exact .inl ⟨e, rfl, rfl, rfl⟩
      | ok predicate => exact .inr ⟨packed, parent, predicate, rfl, rfl, rfl, rfl, rfl, rfl⟩

/-- A call that changes nothing is told what the store answers. -/
theorem call_of_answer {α : Type} {r : Rpc α} {result : Except Refusal α} (hs : ServingFrom store s)
    (hread : store.serve r = (Cluster.answer result, store)) :
    ∃ s', ServingFrom store s' ∧ Client.call r s = Client.ofExcept (Client.told result) s' := by
  obtain ⟨hserving, rfl⟩ := hs
  obtain ⟨s', hs', hstore, hcall⟩ := servingInvariant_serving.call hserving r
  rw [hread] at hstore hcall
  exact ⟨s', ⟨hs', hstore⟩, hcall.trans (Client.outcome_answer result s')⟩

/-- Where calls reach the store, a read answers from what is listed for it. -/
theorem get?_eq_rowListed (hs : ServingFrom store s) :
    ∃ s', ServingFrom store s' ∧ h.get? key q s = Client.ofExcept (h.rowListed store key q) s' := by
  rcases request_cases h store key q with ⟨e, hslice, -, hlisted⟩ |
    ⟨packed, parent, predicate, -, -, -, hslice, -, hlisted⟩
  · refine ⟨s, hs, ?_⟩
    rw [get?, rowListed, hslice, hlisted]
    rfl
  · -- a read that can be packed is answered by the store, and the entries are decoded
    have hread : store.serve (.getSlice packed parent predicate (h.readLevel q)) =
        (Cluster.answer (store.slice packed parent predicate), store) := rfl
    obtain ⟨s', hs', hcall⟩ := call_of_answer hs hread
    refine ⟨s', hs', ?_⟩
    rw [get?, rowListed, hlisted, Client.bind_of_ok (Client.ofExcept_eq_ok.2 ⟨hslice, rfl⟩),
      ← Client.bind_of_ofExcept hcall]
    refine congrFun (congrArg _ (funext fun entries => ?_)) s
    split
    · rfl
    · cases h.decode entries <;> rfl

/-- So does a count. -/
theorem getCount_eq_countListed (hs : ServingFrom store s) :
    ∃ s', ServingFrom store s' ∧
      h.getCount key q s = Client.ofExcept (h.countListed store key q) s' := by
  rcases request_cases h store key q with ⟨e, -, hcount, hlisted⟩ |
    ⟨packed, parent, predicate, -, -, -, -, hcount, hlisted⟩
  · refine ⟨s, hs, ?_⟩
    rw [getCount, countListed, hcount, hlisted]
    rfl
  · -- a count that can be packed is answered with the number of the same entries
    have hread : store.serve (.getCount packed parent predicate (h.readLevel q)) =
        (Cluster.answer ((countWord ·.length) <$> store.slice packed parent predicate), store) :=
        rfl
    obtain ⟨s', hs', hcall⟩ := call_of_answer hs hread
    refine ⟨s', hs', ?_⟩
    rw [getCount, countListed, hlisted, Client.bind_of_ok (Client.ofExcept_eq_ok.2 ⟨hcount, rfl⟩),
      Client.bind_of_ofExcept hcall]
    cases store.slice packed parent predicate <;> rfl

end Serving

/-! ## Several rows -/

/-- How many entries a store lists for the row of a packed key. -/
def countAt (store : Store) (parent : ColumnParent) (predicate : SlicePredicate) (packed : Bytes) :
    Except ClientError Nat := do
  let entries ← Client.told (store.slice packed parent predicate)
  columnCount (countWord entries.length)

section Pieces

variable {h : Handle} {store : Store} {s : Pool × Cluster} {q : SliceQuery} {parent : ColumnParent}
  {predicate : SlicePredicate} {keys : List Value} {packed : List Bytes}

/-- The request for a piece counts its rows. -/
theorem countPiece_eq (hs : ServingFrom store s) (level : Consistency)
    (piece : List (Bytes × Value)) :
    ∃ s', ServingFrom store s' ∧
      (do
        let found ← Client.call (.multigetCount (piece.map (·.1)) parent predicate level)
        Client.ofExcept (piece.mapM fun (packed, key) => do
          return (key, ← columnCount ((found.lookup packed).getD 0))) :
        Client Cluster (List (Value × Nat))) s =
      Client.ofExcept (piece.mapM fun k => (k.2, ·) <$> countAt store parent predicate k.1) s' := by
  have hread : store.serve (.multigetCount (piece.map (·.1)) parent predicate level) =
      (Cluster.answer ((piece.map (·.1)).eraseDups.mapM fun key =>
        (fun entries => (key, countWord entries.length)) <$> store.slice key parent predicate),
          store) := rfl
  obtain ⟨s', hs', hcall⟩ := call_of_answer hs hread
  refine ⟨s', hs', ?_⟩
  rw [Client.bind_of_ofExcept hcall]
  congr 1
  rcases store.slice_cases parent predicate with ⟨refusal, hslice⟩ | ⟨entries, hslice⟩
  · -- The refusal is met at the first key, if there is any.
    cases piece with
    | nil => rfl
    | cons k rest =>
      simp only [List.map_cons, List.eraseDups_cons, List.mapM_cons, hslice, countAt]
      rfl
  · have hfound : ((piece.map (·.1)).eraseDups.mapM fun key =>
        (fun entries => (key, countWord entries.length)) <$> store.slice key parent predicate) =
        .ok ((piece.map (·.1)).eraseDups.map fun key => (key, countWord (entries key).length)) := by
      simp only [hslice]
      exact List.mapM_pure
    rw [hfound]
    -- Every key of the piece is among those that were counted.
    refine mapM_congr_of_mem fun k hk => ?_
    have hmem : k.1 ∈ (piece.map (·.1)).eraseDups := List.mem_eraseDups.2 (List.mem_map_of_mem hk)
    simp only [List.lookup_graph _ hmem, Option.getD_some, countAt, hslice]
    rfl

/-- Counts of single rows answer from what is listed for each, up to the first refusal. -/
theorem mapM_getCount_eq_countListed (hs : ServingFrom store s) (keys : List Value) :
    ∃ s', ServingFrom store s' ∧
      (keys.mapM fun key => do return (key, ← h.getCount key q) :
        Client Cluster (List (Value × Nat))) s =
      Client.ofExcept (keys.mapM fun key => (key, ·) <$> h.countListed store key q) s' := by
  refine Client.mapM_of_ofExcept (fun key _ s₁ hs₁ => ?_) hs
  obtain ⟨s', hs', hcount⟩ := @getCount_eq_countListed h store s₁ key q hs₁
  refine ⟨s', hs', ?_⟩
  rw [← bind_pure_comp]
  exact Client.bind_of_ofExcept hcount fun n => .ok (key, n)

/-- Counting packed keys is counting the rows of the keys. -/
theorem mapM_countAt_zip (hpacked : keys.mapM h.packKey = .ok packed)
    (hparent : h.parent q.superColumn = .ok parent) (hpredicate : h.predicate q = .ok predicate) :
    ((packed.zip keys).mapM fun k => (k.2, ·) <$> countAt store parent predicate k.1) =
      keys.mapM fun key => (key, ·) <$> h.countListed store key q := by
  replace hpacked := mapM_eq_ok_iff.1 hpacked
  induction hpacked with
  | nil => rfl
  | @cons first key packed keys hfirst _ ih =>
    have hsame : h.countListed store key q = countAt store parent predicate first := by
      simp only [countListed, listed, hfirst, hparent, hpredicate, ok_bind, countAt]
    rw [List.zip_cons_cons, List.mapM_cons, List.mapM_cons, hsame, ih]

/-- Where calls reach the store, a count of several rows counts one row after the other, up to the
first refusal. -/
theorem multigetCount_eq_countListed (hs : ServingFrom store s) (hsize : 1 ≤ h.options.multigetSize)
    (hpacks : h.Packs keys q packed) :
    ∃ s', ServingFrom store s' ∧ h.multigetCount keys q s =
      Client.ofExcept (keys.mapM fun key => (key, ·) <$> h.countListed store key q) s' := by
  obtain ⟨hpacked, ⟨parent, hparent⟩, predicate, hpredicate⟩ := hpacks
  have hpieces : h.packKeyChunks keys = .ok (chunks h.options.multigetSize (packed.zip keys)) := by
    simp only [packKeyChunks, hpacked, ok_bind]
    rfl
  -- Put together again, the pieces are all packed keys with the keys they stand for.
  have hcounted : List.flatten <$> (chunks h.options.multigetSize (packed.zip keys)).mapM
      (List.mapM fun k => (k.2, ·) <$> countAt store parent predicate k.1) =
        keys.mapM fun key => (key, ·) <$> h.countListed store key q := by
    rw [mapM_flatten, flatten_chunks (Nat.ne_of_gt hsize),
      mapM_countAt_zip hpacked hparent hpredicate]
  obtain ⟨s', hs', hcounts⟩ := Client.mapM_of_ofExcept (fun piece _ s₁ hs₁ =>
    @countPiece_eq store s₁ parent predicate hs₁ (h.readLevel q) piece) hs
  refine ⟨s', hs', ?_⟩
  rw [multigetCount, Client.bind_of_ok (Client.ofExcept_eq_ok.2 ⟨hpieces, rfl⟩),
    Client.bind_of_ok (Client.ofExcept_eq_ok.2 ⟨hparent, rfl⟩),
    Client.bind_of_ok (Client.ofExcept_eq_ok.2 ⟨hpredicate, rfl⟩),
    ← hcounted, ← bind_pure_comp]
  exact Client.bind_of_ofExcept hcounts fun counts => .ok counts.flatten

end Pieces

section Refused

variable {h : Handle} {q : SliceQuery} {keys : List Value}

/-- A count of several rows fails before it sends anything if something cannot be packed. -/
theorem multigetCount_of_refused (hrefused : ¬∃ packed, h.Packs keys q packed)
    (s : Pool × Cluster) :
    ∃ e, h.multigetCount keys q s = .error e s := by
  unfold multigetCount packKeyChunks
  cases hpacked : keys.mapM h.packKey with
  | error e => exact ⟨e, rfl⟩
  | ok packed =>
    cases hparent : h.parent q.superColumn with
    | error e => exact ⟨e, rfl⟩
    | ok parent =>
      cases hpredicate : h.predicate q with
      | error e => exact ⟨e, rfl⟩
      | ok predicate =>
        exact absurd ⟨packed, hpacked, ⟨parent, hparent⟩, predicate, hpredicate⟩ hrefused

/-- Then counts of the single rows fail as well. -/
theorem mapM_getCount_of_refused (hrefused : ¬∃ packed, h.Packs keys q packed) (hkeys : keys ≠ [])
    (s : Pool × Cluster) :
    ∃ e s', (keys.mapM fun key => do return (key, ← h.getCount key q)) s = .error e s' := by
  obtain ⟨key, hkey, e, hrequest⟩ := exists_sliceRequest_eq_error hrefused hkeys
  have hcount : h.countRequest key q = .error e := by
    rcases request_cases h s.2.store key q with ⟨e', hslice, hcount, -⟩ |
      ⟨_, _, _, -, -, -, hslice, -⟩
    · cases hrequest.symm.trans hslice
      exact hcount
    · cases hrequest.symm.trans hslice
  refine Client.exists_mapM_eq_error hkey (fun s₁ => ⟨e, s₁, ?_⟩) s
  rw [getCount, hcount]
  rfl

end Refused

end Handle

/-! ## Cells and counts -/

/-- A row has fewer columns than a count can tell, and so has every super column in it. -/
def Store.RowData.Countable : Store.RowData → Prop
  | .flat leaves => leaves.length < 0x80000000
  | .grouped supers => supers.length < 0x80000000 ∧ ∀ e ∈ supers, e.2.length < 0x80000000

instance : DecidablePred Store.RowData.Countable
  | .flat leaves => inferInstanceAs (Decidable (leaves.length < 0x80000000))
  | .grouped supers => inferInstanceAs
      (Decidable (supers.length < 0x80000000 ∧ ∀ e ∈ supers, e.2.length < 0x80000000))

/-- All stored rows of the table of a handle unpack under its types and can be counted. -/
def Handle.Readable (h : Handle) (store : Store) : Prop :=
  ∀ t, store.table h.name = .ok t → ∀ e ∈ t.rows, h.DecodesCells e.2 ∧ e.2.Countable

section Decide

variable (h : Handle)

instance (leaves : Store.Leaves) : Decidable (h.DecodesLeaves leaves) :=
  decidable_of_iff (∀ e ∈ leaves, (h.decodeEntry (e.2.toEntry e.1)).isOk = true)
    (forall₂_congr fun _ _ => isOk_iff)

instance : DecidablePred h.DecodesCells
  | .flat leaves => inferInstanceAs (Decidable (h.DecodesLeaves leaves))
  | .grouped supers => decidable_of_iff
      (∀ e ∈ supers, (liftMarshal ((h.schema.sliceType false).unpack e.1)).isOk = true ∧
        h.DecodesLeaves e.2)
      (forall₂_congr fun _ _ => and_congr_left' isOk_iff)

/-- It can be told of a store whether its rows are readable. -/
instance (store : Store) : Decidable (h.Readable store) :=
  match ht : store.table h.name with
  | .ok t => decidable_of_iff (∀ e ∈ t.rows, h.DecodesCells e.2 ∧ e.2.Countable)
      ⟨fun hread _ ht' => Except.ok.inj (ht.symm.trans ht') ▸ hread, fun hread => hread t ht⟩
  | .error _ => .isTrue fun _ ht' => nomatch ht.symm.trans ht'

end Decide

private theorem Store.length_select_le {α : Type} (order : Bytes → Bytes → Ordering)
    (predicate : SlicePredicate) (entries : Sorted Bytes α) :
    (Store.select order predicate entries).length ≤ entries.length := by
  rcases sublist_select order predicate entries with hsub | hsub
  · exact hsub.length_le
  · simpa using hsub.length_le

/-- A read lists no more entries than there are. -/
theorem Store.RowData.Countable.length_slice {row : Store.RowData} (hrow : row.Countable)
    (t : Store.Table) (superColumn : Option Bytes) (predicate : SlicePredicate) :
    (t.slice row superColumn predicate).length < 0x80000000 := by
  -- A predicate selects no more than what the row holds on that level.
  cases row with
  | flat leaves =>
    simp only [Store.Table.slice, Store.Leaves.toEntries, List.length_map]
    exact Nat.lt_of_le_of_lt (Store.length_select_le ..) hrow
  | grouped supers =>
    cases superColumn with
    | none =>
      simp only [Store.Table.slice, List.length_map]
      exact Nat.lt_of_le_of_lt (Store.length_select_le ..) hrow.1
    | some superColumn =>
      simp only [Store.Table.slice]
      split
      · next leaves hfind =>
        obtain ⟨name, hmem⟩ := Sorted.mem_of_find? hfind
        simp only [Store.Leaves.toEntries, List.length_map]
        exact Nat.lt_of_le_of_lt (Store.length_select_le ..) (hrow.2 _ hmem)
      · simp

private theorem columnCount_countWord {n : Nat} (h : n < 0x80000000) :
    Handle.columnCount (countWord n) = .ok n := by
  have hmax : maxCount.toInt.toNat = 0x7FFFFFFF := by decide
  have hint : (countWord n).toInt = n := by
    rw [countWord, Nat.min_eq_left (by omega), Int32.toInt_ofNat_of_lt (by omega)]
  have hsign : ¬countWord n < 0 := by
    rw [Int32.lt_iff_toInt_lt, hint]
    simp
  rw [Handle.columnCount, if_neg hsign, hint, Int.toNat_natCast]

section Reads

variable {h : Handle} {store : Store} {s : Pool × Cluster} {key : Value} {q : SliceQuery}

/-- What is listed unpacks and can be counted. -/
theorem Handle.Readable.listed (hreadable : h.Readable store) {entries : List Entry}
    (hlisted : h.listed store key q = .ok entries) :
    (∃ cells, h.decode entries = .ok cells) ∧ entries.length < 0x80000000 := by
  rcases request_cases h store key q with ⟨e, -, -, herror⟩ |
    ⟨packed, parent, predicate, -, hparent, -, -, -, htold⟩
  · cases herror.symm.trans hlisted
  · have hslice : store.slice packed parent predicate = .ok entries :=
      Client.told_eq_ok.1 (htold.symm.trans hlisted)
    simp only [Handle.parent, bind_eq_ok, pure_eq_ok] at hparent
    obtain ⟨superColumn, -, rfl⟩ := hparent
    simp only [Store.slice, bind_eq_ok] at hslice
    obtain ⟨t, ht, -, -, hslice⟩ := hslice
    -- Without the row nothing is listed, and a row that is there can be read and counted.
    cases hrow : t.row? packed with
    | none =>
      rw [hrow] at hslice
      cases hslice
      exact ⟨⟨[], rfl⟩, by simp⟩
    | some row =>
      rw [hrow] at hslice
      cases hslice
      obtain ⟨k, hmem⟩ := Sorted.mem_of_find? hrow
      obtain ⟨hdecodes, hcountable⟩ := hreadable t ht _ hmem
      exact ⟨hdecodes.decode _ _, hcountable.length_slice t _ _⟩

/-- A count is the number of cells that a read of the row answers. -/
theorem get?_agrees_getCount (hserving : Serving s) (hreadable : h.Readable s.2.store) :
    Client.Agree (fun found n => n = (found.map fun row => row.cells.length).getD 0)
      (h.get? key q s) (h.getCount key q s) := by
  obtain ⟨s₁, -, hget⟩ := @Handle.get?_eq_rowListed h s.2.store s key q ⟨hserving, rfl⟩
  obtain ⟨s₂, -, hcount⟩ := @Handle.getCount_eq_countListed h s.2.store s key q ⟨hserving, rfl⟩
  rw [hget, hcount, Handle.rowListed, Handle.countListed]
  cases hlisted : h.listed s.2.store key q with
  | error e => rfl
  | ok entries =>
    -- Every entry that is listed decodes to one cell.
    obtain ⟨⟨cells, hcells⟩, hlength⟩ := hreadable.listed hlisted
    have hsame : cells.length = entries.length := (mapM_eq_ok_iff.1 hcells).length_eq
    simp only [ok_bind, columnCount_countWord hlength, hcells]
    cases entries with
    | nil => rfl
    | cons => exact hsame.symm

/-- A handle that reads so many rows with one request. -/
def Handle.sized (h : Handle) (size : Nat) : Handle :=
  { h with options := { h.options with multigetSize := size } }

/-- A count of several rows answers each key with its count, for pieces of any size. -/
theorem multigetCount_agrees_getCount (hserving : Serving s) {size : Nat} (hsize : 1 ≤ size)
    {keys : List Value} {packed : List Bytes} (hpacks : h.Packs keys q packed) :
    Client.Agree (fun counts counts' => counts = counts') ((h.sized size).multigetCount keys q s)
      ((keys.mapM fun key => do return (key, ← h.getCount key q)) s) := by
  have hs : ServingFrom s.2.store s := ⟨hserving, rfl⟩
  -- What is listed does not depend on the size of the pieces.
  obtain ⟨s₁, -, hmany⟩ : ∃ s₁, ServingFrom s.2.store s₁ ∧ (h.sized size).multigetCount keys q s =
      Client.ofExcept (keys.mapM fun key => (key, ·) <$> h.countListed s.2.store key q) s₁ :=
    @Handle.multigetCount_eq_countListed (h.sized size) _ s q keys packed hs hsize hpacks
  obtain ⟨s₂, -, hsingle⟩ := @Handle.mapM_getCount_eq_countListed h _ s q hs keys
  rw [hmany, hsingle]
  exact Client.agree_ofExcept _

end Reads

end WideColumn
