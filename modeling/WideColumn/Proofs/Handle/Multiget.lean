import WideColumn.Proofs.Handle.Scan

/-!
# Reads of several rows

A read of several rows sends the keys in pieces, one request for each. It answers what reads of the
single rows answer, except that of several keys in one piece that pack alike only the first counts:
the row is taken out of the server's answer once it is read.

- `Handle.answering`: the keys of a piece that count, and `Handle.counted`: those of a whole read;
- `Handle.decodeFound_eq`: the rows of a piece are those of its keys that count;
- `Handle.Packs`: what a read is given can be packed, without which nothing is sent;
- `multiget_eq_reads`: a read of several rows as reads of single ones.
-/

namespace WideColumn

/-! ## Pieces -/

section Pieces

variable {α : Type}

theorem Handle.flatten_chunks {size : Nat} (hsize : size ≠ 0) (xs : List α) :
    (chunks size xs).flatten = xs := by
  -- The recursion of the pieces: one of them is cut off, and the others are those of the rest.
  induction xs using chunks.induct size with
  | case1 xs hend =>
    rw [chunks, dif_pos hend, hend.resolve_right hsize]
    rfl
  | case2 xs hmore ih =>
    rw [chunks, dif_neg hmore, List.flatten_cons, ih, List.take_append_drop]

/-- The keys of a piece that count: of several that pack alike, the first. -/
def Handle.answering : List (Bytes × α) → List (Bytes × α)
  | [] => []
  | first :: rest => first :: (answering rest).filter fun k => k.1 != first.1

private theorem Handle.mem_of_mem_answering {piece : List (Bytes × α)} {k : Bytes × α}
    (hk : k ∈ answering piece) : k ∈ piece := by
  induction piece with
  | nil => exact hk
  | cons first rest ih =>
    rcases List.mem_cons.1 hk with rfl | hk
    · exact List.mem_cons_self
    · exact List.mem_cons_of_mem _ (ih (List.mem_of_mem_filter hk))

/-- If no two keys of a piece pack alike, all of them count. -/
theorem Handle.answering_of_nodup {piece : List (Bytes × α)} (h : (piece.map (·.1)).Nodup) :
    answering piece = piece := by
  induction piece with
  | nil => rfl
  | cons first rest ih =>
    obtain ⟨hfirst, hrest⟩ := List.nodup_cons.1 h
    rw [answering, ih hrest, List.filter_eq_self.2]
    intro k hk
    refine bne_iff_ne.2 fun heq => hfirst ?_
    show first.1 ∈ rest.map (·.1)
    rw [← heq]
    exact List.mem_map_of_mem hk

end Pieces

/-! ## Rows of an answer -/

/-- What the entries of a row are read as: nothing without entries. -/
def Handle.rowOf (h : Handle) (key : Value) (entries : List Entry) : Option Row :=
  if entries.isEmpty then none else (h.decode entries).toOption.map (⟨key, ·⟩)

private theorem lookup_filter_ne {α β : Type} [BEq α] [LawfulBEq α] (entries : List (α × β))
    (a key : α) :
    (entries.filter fun e => e.1 != a).lookup key =
      if key == a then none else entries.lookup key := by
  induction entries with
  | nil => simp
  | cons e entries ih =>
    obtain ⟨k, v⟩ := e
    by_cases hk : k = a
    · subst hk
      rw [List.filter_cons_of_neg (by simp), ih, List.lookup_cons]
      cases key == k <;> rfl
    · rw [List.filter_cons_of_pos (by simpa using hk), List.lookup_cons, List.lookup_cons, ih]
      by_cases hkey : key = k
      · subst hkey
        simp [hk]
      · rw [beq_false_of_ne hkey]

/-- The entries that rows have once those of one row are taken out. -/
def Handle.takenOut (packed : Bytes) (entries : Bytes → List Entry) (key : Bytes) : List Entry :=
  if key == packed then [] else entries key

section TakenOut

variable {h : Handle} {packed : Bytes} {entries : Bytes → List Entry}

private theorem Handle.decode_takenOut
    (hdecodes : ∀ key, ∃ cells, h.decode (entries key) = .ok cells)
    (key : Bytes) : ∃ cells, h.decode (takenOut packed entries key) = .ok cells := by
  rw [takenOut]
  split
  · exact ⟨[], rfl⟩
  · exact hdecodes key

/-- Nothing is taken out of a row without entries. -/
theorem Handle.takenOut_of_nil (hnone : entries packed = []) :
    takenOut packed entries = entries := by
  funext key
  rw [takenOut]
  split
  · next hkey => rw [eq_of_beq hkey, hnone]
  · rfl

/-- An answer without the entries of a row is an answer for rows of which that one has none. -/
theorem Handle.lookup_takenOut {found : List (Bytes × List Entry)} {key : Bytes}
    (hfound : (found.lookup key).getD [] = entries key) :
    ((found.filter fun e => e.1 != packed).lookup key).getD [] = takenOut packed entries key := by
  rw [lookup_filter_ne, takenOut]
  split
  · rfl
  · exact hfound

/-- Keys of a row that was taken out find no entries, as if they were not asked for. -/
theorem Handle.filterMap_takenOut (keys : List (Bytes × Value)) :
    (keys.filter fun k => k.1 != packed).filterMap (fun k => h.rowOf k.2 (entries k.1)) =
      keys.filterMap fun k => h.rowOf k.2 (takenOut packed entries k.1) := by
  rw [List.filterMap_filter]
  refine List.filterMap_congr fun k _ => ?_
  by_cases hk : k.1 = packed
  · simp [takenOut, hk, rowOf]
  · simp [takenOut, hk]

end TakenOut

/-- The rows of a piece are those of the keys that count, if the answer has the entries of all its
rows and these can be read. -/
theorem Handle.decodeFound_eq {h : Handle} {piece : List (Bytes × Value)}
    {found : List (Bytes × List Entry)} {entries : Bytes → List Entry}
    (hdecodes : ∀ key, ∃ cells, h.decode (entries key) = .ok cells)
    (hfound : ∀ k ∈ piece, (found.lookup k.1).getD [] = entries k.1) :
    h.decodeFound piece found =
      .ok ((answering piece).filterMap fun k => h.rowOf k.2 (entries k.1)) := by
  -- By induction on the keys, for any answer and any rows: reading a row takes its entries out.
  induction piece generalizing found entries with
  | nil => rfl
  | cons first rest ih =>
    obtain ⟨packed, key⟩ := first
    have hfirst : (found.lookup packed).getD [] = entries packed := hfound _ List.mem_cons_self
    have hrest : ∀ k ∈ rest, (found.lookup k.1).getD [] = entries k.1 :=
      fun k hk => hfound k (List.mem_cons_of_mem _ hk)
    rw [decodeFound, answering, List.filterMap_cons, filterMap_takenOut]
    split
    · next entry more hlookup =>
      have hentries : entries packed = entry :: more := by rw [← hfirst, hlookup]; rfl
      obtain ⟨cells, hcells⟩ := hdecodes packed
      rw [hentries] at hcells
      rw [ih (decode_takenOut hdecodes) fun k hk => lookup_takenOut (hrest k hk)]
      simp only [hcells, rowOf, hentries]
      rfl
    · next hlookup =>
      -- The row is missing in the answer, or it is there without entries.
      have hentries : entries packed = [] := by
        rw [← hfirst]
        cases hrow : found.lookup packed with
        | none => rfl
        | some row =>
          cases row with
          | nil => rfl
          | cons entry more => exact absurd hrow (hlookup entry more)
      simp only [ih hdecodes hrest, takenOut_of_nil hentries, rowOf, hentries]
      rfl

/-! ## Serving reads -/

namespace Store

/-- The entries of a row that a read selects; a row that was never written has none. -/
def Table.entriesOf (t : Table) (superColumn : Option Bytes) (predicate : SlicePredicate)
    (key : Bytes) : List Entry :=
  match t.row? key with
  | some row => t.slice row superColumn predicate
  | none => []

variable {s : Store} {t : Table} {parent : ColumnParent} {predicate : SlicePredicate}

theorem slice_eq_entriesOf (ht : s.table parent.table = .ok t)
    (hparent : t.checkParent parent.superColumn = .ok ()) (key : Bytes) :
    s.slice key parent predicate = .ok (t.entriesOf parent.superColumn predicate key) := by
  simp only [slice, ht, hparent, ok_bind, Table.entriesOf]
  cases t.row? key <;> rfl

private theorem serve_getSlice (ht : s.table parent.table = .ok t)
    (hparent : t.checkParent parent.superColumn = .ok ()) (key : Bytes) (level : Consistency) :
    s.serve (.getSlice key parent predicate level) =
      (.ok (t.entriesOf parent.superColumn predicate key), s) := by
  simp only [serve, Cluster.serve, slice_eq_entriesOf ht hparent]
  rfl

private theorem serve_multigetSlice (ht : s.table parent.table = .ok t)
    (hparent : t.checkParent parent.superColumn = .ok ()) (keys : List Bytes)
    (level : Consistency) :
    s.serve (.multigetSlice keys parent predicate level) =
      (.ok (keys.eraseDups.map fun key =>
        (key, t.entriesOf parent.superColumn predicate key)), s) := by
  have hread : (keys.eraseDups.mapM fun key => (key, ·) <$> s.slice key parent predicate) =
      .ok (keys.eraseDups.map fun key =>
        (key, t.entriesOf parent.superColumn predicate key)) := by
    simp only [slice_eq_entriesOf ht hparent]
    exact List.mapM_pure
  simp only [serve, Cluster.serve, hread]
  rfl

end Store

/-! ## The keys that count -/

section Counted

variable {h : Handle} {keys : List Value} {packed : List Bytes}

/-- The keys of a read of several rows that count in their pieces, with what they are packed to. -/
def Handle.counted (h : Handle) (packed : List Bytes) (keys : List Value) : List (Bytes × Value) :=
  (chunks h.options.multigetSize (packed.zip keys)).flatMap answering

private theorem Handle.packKey_of_mem_counted (hsize : 1 ≤ h.options.multigetSize)
    (hpacked : keys.mapM h.packKey = .ok packed) {k : Bytes × Value}
    (hk : k ∈ h.counted packed keys) :
    h.packKey k.2 = .ok k.1 := by
  obtain ⟨piece, hpiece, hk⟩ := List.mem_flatMap.1 hk
  have hmem : k ∈ packed.zip keys := by
    rw [← flatten_chunks (Nat.ne_of_gt hsize) (packed.zip keys)]
    exact List.mem_flatten_of_mem hpiece (mem_of_mem_answering hk)
  exact List.forall₂_zip (mapM_eq_ok_iff.1 hpacked) hmem

/-- If no two keys of a piece pack alike, all keys count. -/
theorem Handle.counted_of_pieces (hsize : 1 ≤ h.options.multigetSize)
    (hpacked : keys.mapM h.packKey = .ok packed)
    (hnodup : ∀ piece ∈ chunks h.options.multigetSize (packed.zip keys), (piece.map (·.1)).Nodup) :
    (h.counted packed keys).map (·.2) = keys := by
  have hlength : packed.length = keys.length := (mapM_eq_ok_iff.1 hpacked).length_eq
  have hall : h.counted packed keys = packed.zip keys := by
    rw [counted, List.flatMap_congr fun piece hpiece => answering_of_nodup (hnodup piece hpiece),
      List.flatMap_id', flatten_chunks (Nat.ne_of_gt hsize)]
  rw [hall]
  exact List.map_snd_zip (Nat.le_of_eq hlength.symm)

/-- If no two keys pack alike, all keys count for pieces of any size. -/
theorem Handle.counted_of_nodup (hsize : 1 ≤ h.options.multigetSize)
    (hpacked : keys.mapM h.packKey = .ok packed) (hnodup : packed.Nodup) :
    (h.counted packed keys).map (·.2) = keys := by
  have hlength : packed.length = keys.length := (mapM_eq_ok_iff.1 hpacked).length_eq
  refine counted_of_pieces hsize hpacked fun piece hpiece => ?_
  -- What the keys of a piece are packed to is a part of what all keys are packed to.
  have hpart : (piece.map (·.1)).Sublist
      ((chunks h.options.multigetSize (packed.zip keys)).flatten.map (·.1)) :=
    (List.sublist_flatten_of_mem hpiece).map _
  rw [flatten_chunks (Nat.ne_of_gt hsize), List.map_fst_zip (Nat.le_of_eq hlength)] at hpart
  exact hpart.nodup hnodup

end Counted

/-! ## Reads that are answered -/

section Reads

variable {h : Handle} {q : SliceQuery} {store : Store} {t : Store.Table} {parent : ColumnParent}
  {predicate : SlicePredicate} {s : Pool × Cluster} {keys : List Value} {packed : List Bytes}

/-- A read of one row reads its entries. -/
theorem get?_eq_rowOf (hs : ServingFrom store s) (ht : store.table parent.table = .ok t)
    (hcheck : t.checkParent parent.superColumn = .ok ())
    (hdecodes : ∀ key, ∃ cells,
      h.decode (t.entriesOf parent.superColumn predicate key) = .ok cells)
    (hparent : h.parent q.superColumn = .ok parent) (hpredicate : h.predicate q = .ok predicate)
    {key : Value} {packed : Bytes} (hpacked : h.packKey key = .ok packed) :
    ∃ s', ServingFrom store s' ∧ h.get? key q s =
      .ok (h.rowOf key (t.entriesOf parent.superColumn predicate packed)) s' := by
  have hrequest : h.sliceRequest key q =
      .ok (.getSlice packed parent predicate (h.readLevel q)) := by
    simp only [Handle.sliceRequest, hpacked, hparent, hpredicate, ok_bind]
    rfl
  -- The store answers the slice of the key, and what is found is decoded.
  obtain ⟨s', hs', hcall⟩ := hs.call (Store.serve_getSlice ht hcheck packed (h.readLevel q))
  obtain ⟨cells, hcells⟩ := hdecodes packed
  refine ⟨s', hs', ?_⟩
  rw [Handle.get?, Client.bind_of_ok (Client.ofExcept_eq_ok.2 ⟨hrequest, rfl⟩),
    Client.bind_of_ok hcall, Handle.rowOf]
  split
  · rfl
  · rw [Client.bind_of_ok (Client.ofExcept_eq_ok.2 ⟨hcells, rfl⟩), hcells]
    rfl

/-- The request for a piece reads the rows of the keys that count. -/
theorem readPiece_eq (hs : ServingFrom store s) (ht : store.table parent.table = .ok t)
    (hcheck : t.checkParent parent.superColumn = .ok ())
    (hdecodes : ∀ key, ∃ cells,
      h.decode (t.entriesOf parent.superColumn predicate key) = .ok cells)
    (level : Consistency) (piece : List (Bytes × Value)) :
    ∃ s', ServingFrom store s' ∧
      (do
        let found ← Client.call (.multigetSlice (piece.map (·.1)) parent predicate level)
        Client.ofExcept (h.decodeFound piece found) : Client Cluster (List Row)) s =
      .ok ((Handle.answering piece).filterMap fun k =>
        h.rowOf k.2 (t.entriesOf parent.superColumn predicate k.1)) s' := by
  obtain ⟨s', hs', hcall⟩ := hs.call (Store.serve_multigetSlice ht hcheck (piece.map (·.1)) level)
  refine ⟨s', hs', ?_⟩
  rw [Client.bind_of_ok hcall]
  refine Client.ofExcept_eq_ok.2 ⟨Handle.decodeFound_eq hdecodes fun k hk => ?_, rfl⟩
  -- Every key of the piece was asked for.
  have hmem : k.1 ∈ (piece.map (·.1)).eraseDups := List.mem_eraseDups.2 (List.mem_map_of_mem hk)
  rw [List.lookup_graph _ hmem]
  rfl

/-- A read of several rows whose arguments were packed, as reads of the single rows of the keys that
count. -/
theorem multiget_eq_of_packed (hs : ServingFrom store s) (ht : store.table parent.table = .ok t)
    (hcheck : t.checkParent parent.superColumn = .ok ())
    (hdecodes : ∀ key, ∃ cells,
      h.decode (t.entriesOf parent.superColumn predicate key) = .ok cells)
    (hparent : h.parent q.superColumn = .ok parent) (hpredicate : h.predicate q = .ok predicate)
    (hpacked : keys.mapM h.packKey = .ok packed) (hsize : 1 ≤ h.options.multigetSize) :
    ∃ found s' s'', ((h.counted packed keys).map (·.2)).mapM (h.get? · q) s = .ok found s' ∧
      h.multiget keys q s = .ok found.reduceOption s'' := by
  -- A key is answered by the same row, whether it is read on its own or in a piece.
  let row (k : Bytes × Value) : Option Row :=
    h.rowOf k.2 (t.entriesOf parent.superColumn predicate k.1)
  obtain ⟨s', -, hfound⟩ := Client.mapM_of_keeps (g := row) (fun k hk s₁ hs₁ =>
    get?_eq_rowOf hs₁ ht hcheck hdecodes hparent hpredicate
      (Handle.packKey_of_mem_counted hsize hpacked hk)) hs
  let pieces := Handle.chunks h.options.multigetSize (packed.zip keys)
  obtain ⟨s'', -, hrows⟩ := Client.mapM_of_keeps (fun piece (_ : piece ∈ pieces) s₁ hs₁ =>
    readPiece_eq hs₁ ht hcheck hdecodes (h.readLevel q) piece) hs
  have hpieces : h.packKeyChunks keys = .ok pieces := by
    simp only [Handle.packKeyChunks, hpacked, ok_bind]
    rfl
  refine ⟨(h.counted packed keys).map row, s', s'', ?_, ?_⟩
  · rw [List.mapM_map]
    exact hfound
  · rw [Handle.multiget, Client.bind_of_ok (Client.ofExcept_eq_ok.2 ⟨hpieces, rfl⟩),
      Client.bind_of_ok (Client.ofExcept_eq_ok.2 ⟨hparent, rfl⟩),
      Client.bind_of_ok (Client.ofExcept_eq_ok.2 ⟨hpredicate, rfl⟩), Client.bind_of_ok hrows,
      Handle.counted, List.reduceOption, List.filterMap_map, List.filterMap_flatMap]
    rfl

end Reads

/-! ## Reads that are not sent -/

/-- All that a read of several rows is given can be packed, the keys to these. -/
def Handle.Packs (h : Handle) (keys : List Value) (q : SliceQuery) (packed : List Bytes) : Prop :=
  keys.mapM h.packKey = .ok packed ∧ (∃ parent, h.parent q.superColumn = .ok parent) ∧
    ∃ predicate, h.predicate q = .ok predicate

section Refused

variable {ω : Type} [Network ω] {h : Handle} {q : SliceQuery} {keys : List Value}

/-- A read of several rows fails before it sends anything if something cannot be packed. -/
theorem multiget_of_refused (hrefused : ¬∃ packed, h.Packs keys q packed) (s : Pool × ω) :
    ∃ e, h.multiget keys q s = .error e s := by
  rw [Handle.multiget, Handle.packKeyChunks]
  cases hpacked : keys.mapM h.packKey with
  | error e => exact ⟨e, rfl⟩
  | ok packed =>
    cases hparent : h.parent q.superColumn with
    | error e => exact ⟨e, rfl⟩
    | ok parent =>
      cases hpredicate : h.predicate q with
      | error e => exact ⟨e, rfl⟩
      | ok predicate =>
        exact absurd ⟨packed, hpacked, ⟨parent, hparent⟩, predicate, hpredicate⟩ hrefused

/-- Then the read of some single row cannot be asked for either, if there are any. -/
theorem exists_sliceRequest_eq_error (hrefused : ¬∃ packed, h.Packs keys q packed)
    (hkeys : keys ≠ []) :
    ∃ key ∈ keys, ∃ e, h.sliceRequest key q = .error e := by
  by_contra hnone
  have hrequests : ∀ key ∈ keys, ∃ packed parent predicate, h.packKey key = .ok packed ∧
      h.parent q.superColumn = .ok parent ∧ h.predicate q = .ok predicate := by
    intro key hkey
    cases hrequest : h.sliceRequest key q with
    | error e => exact absurd ⟨key, hkey, e, hrequest⟩ hnone
    | ok request =>
      simp only [Handle.sliceRequest, bind_eq_ok] at hrequest
      obtain ⟨packed, hpacked, parent, hparent, predicate, hpredicate, -⟩ := hrequest
      exact ⟨packed, parent, predicate, hpacked, hparent, hpredicate⟩
  -- The place and the predicate would be accepted for the first key, and every key would be packed.
  obtain ⟨first, hfirst⟩ := List.exists_mem_of_ne_nil keys hkeys
  obtain ⟨-, parent, predicate, -, hparent, hpredicate⟩ := hrequests first hfirst
  obtain ⟨packed, hpacked⟩ : ∃ packed, keys.mapM h.packKey = .ok packed := by
    refine exists_mapM_eq_ok fun key hkey => ?_
    obtain ⟨packed, -, -, hpacked, -⟩ := hrequests key hkey
    exact ⟨packed, hpacked⟩
  exact hrefused ⟨packed, hpacked, ⟨parent, hparent⟩, predicate, hpredicate⟩

/-- So reads of the single rows fail as well, at the first of them that cannot be packed. -/
theorem mapM_get?_of_refused (hrefused : ¬∃ packed, h.Packs keys q packed) (hkeys : keys ≠ [])
    (s : Pool × ω) : ∃ e s', keys.mapM (h.get? · q) s = .error e s' := by
  obtain ⟨key, hkey, e, hrequest⟩ := exists_sliceRequest_eq_error hrefused hkeys
  refine Client.exists_mapM_eq_error hkey (fun s₁ => ⟨e, s₁, ?_⟩) s
  rw [Handle.get?, hrequest]
  rfl

end Refused

/-! ## Main result -/

/-- Without failures, a read of several rows answers in the order of the keys what reads of the
single rows answer for those keys that count in their piece, and leaves out those that find nothing.
If no two keys of a piece pack alike, all keys count; so they do for pieces of any size if no two
keys pack alike. If something cannot be packed, the read of several rows fails, and of the single
reads, if there are any, one does. -/
theorem multiget_eq_reads {h : Handle} {q : SliceQuery} {t : Store.Table} {s : Pool × Cluster}
    {keys : List Value} (hserving : Serving s) (ht : s.2.store.table h.name = .ok t)
    (hsuper : h.schema.superType.isSome = true → t.isSuper = true)
    (hdecodes : ∀ parent predicate, h.parent q.superColumn = .ok parent →
      h.predicate q = .ok predicate → ∀ e ∈ t.rows, ∃ cells,
        h.decode (t.slice e.2 parent.superColumn predicate) = .ok cells)
    (hsize : 1 ≤ h.options.multigetSize) :
    (∀ packed, h.Packs keys q packed →
      let counted := (h.counted packed keys).map (·.2)
      (∃ found s' s'', counted.mapM (h.get? · q) s = .ok found s' ∧
        h.multiget keys q s = .ok found.reduceOption s'') ∧
      ((∀ piece ∈ Handle.chunks h.options.multigetSize (packed.zip keys),
        (piece.map (·.1)).Nodup) → counted = keys) ∧
      (packed.Nodup → counted = keys)) ∧
    ((¬∃ packed, h.Packs keys q packed) →
      (∃ e, h.multiget keys q s = .error e s) ∧
      (keys ≠ [] → ∃ e s', keys.mapM (h.get? · q) s = .error e s')) := by
  refine ⟨?_, fun hrefused =>
    ⟨multiget_of_refused hrefused s, fun hkeys => mapM_get?_of_refused hrefused hkeys s⟩⟩
  rintro packed ⟨hpacked, ⟨parent, hparent⟩, predicate, hpredicate⟩
  obtain ⟨htable, hcheck⟩ := checkParent_of_parent hsuper hparent
  have ht' : s.2.store.table parent.table = .ok t := by rw [htable, ht]
  -- Rows of the table decode, and so does a row that is not there.
  have hread : ∀ key, ∃ cells,
      h.decode (t.entriesOf parent.superColumn predicate key) = .ok cells := by
    intro key
    rw [Store.Table.entriesOf]
    split
    · next row hrow =>
      obtain ⟨name, hmem⟩ := Sorted.mem_of_find? hrow
      exact hdecodes parent predicate hparent hpredicate _ hmem
    · exact ⟨[], rfl⟩
  exact ⟨multiget_eq_of_packed ⟨hserving, rfl⟩ ht' hcheck hread hparent hpredicate hpacked hsize,
    Handle.counted_of_pieces hsize hpacked, Handle.counted_of_nodup hsize hpacked⟩

/-- A handle of the pages that reads so many rows with one request. -/
def pagesBy (size : Nat) : Handle :=
  { pagesHandle with options := { HandleOptions.default with multigetSize := size } }

private theorem serving_servedPages : Serving servedPages :=
  (Healthy.of_config (by decide +kernel) (fun _ _ => List.not_mem_nil)
    rfl (by decide +kernel)).serving

/-- One key is given three times, twice for one piece: two of its reads count. -/
theorem multiget_eq_reads_repeated :
    ∃ found s' s'',
      [.text "a", .text "d", .text "a"].mapM ((pagesBy 2).get? · firstColumns.slice) servedPages =
        .ok found s' ∧
      (pagesBy 2).multiget [.text "a", .text "a", .text "d", .text "a"] firstColumns.slice
        servedPages = .ok found.reduceOption s'' := by
  have htable : servedPages.2.store.table (pagesBy 2).name = .ok fourPages := by
    have hinc : servedPages.2.store.tables.Increasing compare := List.pairwise_singleton _ _
    exact (Store.table_eq_ok_iff hinc).2 (List.mem_singleton.2 rfl)
  have hparent : (pagesBy 2).parent firstColumns.slice.superColumn = .ok ⟨"pages", none⟩ := by
    decide +kernel
  have hpredicate : (pagesBy 2).predicate firstColumns.slice = .ok (.ofNames [[120]]) := by
    decide +kernel
  have hdecodes : ∀ parent predicate, (pagesBy 2).parent firstColumns.slice.superColumn =
      .ok parent →
      (pagesBy 2).predicate firstColumns.slice = .ok predicate → ∀ e ∈ fourPages.rows, ∃ cells,
        (pagesBy 2).decode (fourPages.slice e.2 parent.superColumn predicate) = .ok cells := by
    intro parent predicate hparent' hpredicate' e he
    rw [hparent] at hparent'
    rw [hpredicate] at hpredicate'
    cases hparent'
    cases hpredicate'
    refine isOk_iff.1 ?_
    revert e
    decide +kernel
  have hpacks : (pagesBy 2).Packs [.text "a", .text "a", .text "d", .text "a"] firstColumns.slice
      [[97], [97], [100], [97]] :=
    ⟨by decide +kernel, ⟨_, hparent⟩, _, hpredicate⟩
  -- In the first piece of two the repeated key counts once.
  have hcounted : ((pagesBy 2).counted [[97], [97], [100], [97]]
      [.text "a", .text "a", .text "d", .text "a"]).map (·.2) =
        [.text "a", .text "d", .text "a"] := by
    decide +kernel
  obtain ⟨found, s', s'', hreads, hanswer⟩ := ((multiget_eq_reads serving_servedPages htable
    (by decide +kernel) hdecodes (by decide +kernel)).1 _ hpacks).1
  exact ⟨found, s', s'', hcounted ▸ hreads, hanswer⟩

/-- The number of rows that were read. -/
def rowsRead {σ : Type} : EStateM.Result ClientError σ (List Row) → Option Nat
  | .ok rows _ => some rows.length
  | .error _ _ => none

/-- Both reads of a row find it, but it is there only once if its key is given twice for one piece.
With pieces of one key it is there twice. -/
theorem multiget_repeated_ne :
    let keys : List Value := [.text "a", .text "a"]
    let reads : Client Cluster (List Row) := do
      return (← keys.mapM ((pagesBy 2).get? · firstColumns.slice)).reduceOption
    Serving servedPages ∧ rowsRead (reads servedPages) = some 2 ∧
      rowsRead ((pagesBy 2).multiget keys firstColumns.slice servedPages) = some 1 ∧
      rowsRead ((pagesBy 1).multiget keys firstColumns.slice servedPages) = some 2 :=
  ⟨serving_servedPages, by decide +kernel, by decide +kernel, by decide +kernel⟩

end WideColumn
