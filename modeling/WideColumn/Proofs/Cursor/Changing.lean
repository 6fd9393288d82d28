import Mathlib.Data.List.TakeWhile
import WideColumn.Proofs.Cursor.Pages

/-!
# Paging through a table that changes

Between two pages of a scan rows may be written and deleted, the last row of the page before
included. A cursor goes on from the key of that row, whether or not the row is still there, so what
it hands out stays in order, and a row that is there all the time is not passed over.

- `Source.changing`: pages from a table that has other contents at every request;
- `Follows`: what a cursor over such a table keeps, by one page (`Follows.receive`), by one call
  (`Follows.next`) and by any number of calls (`Follows.calls`);
- `calls_changing`: order, origin and coverage of the rows that a scan hands out.
-/

namespace WideColumn.Cursor

/-! ## Tables that change -/

/-- A table that is read while it changes. Every request is answered from the next of its contents,
or fails; the state is the number of requests so far. -/
def Source.changing (contents : Nat → Except ClientError (List RowSlice)) : Source Nat :=
  fun start count i =>
    match contents i with
    | .ok rows => .ok (page rows start count) (i + 1)
    | .error e => .error e (i + 1)

private theorem Source.changing_eq_ok {contents : Nat → Except ClientError (List RowSlice)}
    {start : Bytes} {count i j : Nat} {rows : List RowSlice} :
    Source.changing contents start count i = .ok rows j ↔
      ∃ all, contents i = .ok all ∧ page all start count = rows ∧ i + 1 = j := by
  rw [Source.changing]
  cases contents i <;> simp

private theorem Source.changing_eq_error {contents : Nat → Except ClientError (List RowSlice)}
    {start : Bytes} {count i j : Nat} {e : ClientError} :
    Source.changing contents start count i = .error e j ↔ contents i = .error e ∧ i + 1 = j := by
  rw [Source.changing]
  cases contents i <;> simp

/-- What calls of `next` answer one after the other, each with a budget of pages of its own. -/
def calls {σ : Type} (source : Source σ) :
    List Nat → Cursor → σ → List (Progress RowSlice) × Cursor × σ
  | [], c, s => ([], c, s)
  | budget :: budgets, c, s =>
    let (answer, c, s) := c.next source budget s
    let (answers, c, s) := calls source budgets c s
    (answer :: answers, c, s)

/-- The rows among the answers. -/
def handedOut (answers : List (Progress RowSlice)) : List RowSlice :=
  answers.filterMap fun answer =>
    match answer with
    | .row row => some row
    | _ => none

/-- One of the answers is a failure. -/
def Failing (answers : List (Progress RowSlice)) : Prop := ∃ e, .failure e ∈ answers

/-- Each of the first `pages` contents has a row of a key, with entries. -/
def Lasting (contents : Nat → Except ClientError (List RowSlice)) (pages : Nat) (key : Bytes) :
    Prop :=
  ∀ i < pages, ∃ rows row, contents i = .ok rows ∧ row ∈ rows ∧ row.key = key ∧ row.entries ≠ []

/-- Among some rows there is one of a key, with entries. -/
def Came (rows : List RowSlice) (key : Bytes) : Prop :=
  ∃ row ∈ rows, row.key = key ∧ row.entries ≠ []

private theorem Lasting.of_succ {contents : Nat → Except ClientError (List RowSlice)} {pages : Nat}
    {key : Bytes} (h : Lasting contents (pages + 1) key) : Lasting contents pages key :=
  fun i hi => h i (Nat.lt_succ_of_lt hi)

private theorem Came.of_append_left {rows rows' : List RowSlice} {key : Bytes} (h : Came rows key) :
    Came (rows ++ rows') key := by
  obtain ⟨row, hrow, hkey⟩ := h
  exact ⟨row, List.mem_append_left _ hrow, hkey⟩

/-! ## What a cursor keeps -/

/-- What holds of a cursor after some answers and `pages` requests to a table that changes. What it
has handed out, together with the rest of its page, is in order and reaches no further than the key
at which it goes on; up to that key, and everywhere once it is through without a failure, no key
that lasts is missing. -/
structure Follows (contents : Nat → Except ClientError (List RowSlice)) (start : Bytes)
    (answers : List (Progress RowSlice)) (pages : Nat) (c : Cursor) : Prop where
  noLimit : c.limit = none
  buffer : 2 ≤ c.bufferSize
  starts : c.start = start
  sorted : SortedByKey (handedOut answers ++ c.page)
  fromStart : ∀ row ∈ handedOut answers ++ c.page, compare row.key start ≠ .lt
  drawn : ∀ row ∈ handedOut answers ++ c.page, ∃ i < pages, ∃ rows,
    contents i = .ok rows ∧ row ∈ rows
  reached : ∀ row ∈ handedOut answers ++ c.page,
    ∃ last, c.resume = some last ∧ compare row.key last ≠ .gt
  resumed : ∀ last, c.resume = some last → compare last start ≠ .lt
  covered : ∀ last, c.resume = some last → ∀ key, compare key start ≠ .lt → compare key last ≠ .gt →
    Lasting contents pages key → Came (handedOut answers ++ c.page) key
  complete : c.isDone = true ∨ c.atLastPage = true → ¬Failing answers →
    0 < pages ∧ ∀ key, compare key start ≠ .lt → Lasting contents pages key →
      Came (handedOut answers ++ c.page) key
  ended : .finished ∈ answers → c.isDone = true
  emptied : c.isDone = true → c.page = []

section Following

variable {contents : Nat → Except ClientError (List RowSlice)} {start : Bytes}
  {answers : List (Progress RowSlice)} {pages : Nat} {c : Cursor}

theorem handedOut_concat (answers : List (Progress RowSlice)) (answer : Progress RowSlice) :
    handedOut (answers ++ [answer]) = handedOut answers ++ handedOut [answer] :=
  List.filterMap_append

theorem Failing.append {more : List (Progress RowSlice)} (h : Failing answers) :
    Failing (answers ++ more) := by
  obtain ⟨e, he⟩ := h
  exact ⟨e, List.mem_append_left _ he⟩

/-- Rows that are passed over have no entries, so no key comes with them. -/
theorem Came.passing {out page : List RowSlice} {key : Bytes} (h : Came (out ++ page) key) :
    Came (out ++ page.dropWhile c.skips) key := by
  obtain ⟨row, hrow, hkey, hentries⟩ := h
  refine ⟨row, ?_, hkey, hentries⟩
  rcases List.mem_append.1 hrow with hrow | hrow
  · exact List.mem_append_left _ hrow
  rw [← List.takeWhile_append_dropWhile (p := c.skips) (l := page), List.mem_append] at hrow
  rcases hrow with hrow | hrow
  · have hskips := List.mem_takeWhile_imp hrow
    simp [skips, hentries] at hskips
  · exact List.mem_append_right _ hrow

/-- Passing over rows without entries, and moving the row behind them to the answers, keeps what
holds of a cursor. -/
theorem Follows.passing (h : Follows contents start answers pages c) (hdone : c.isDone = false)
    {answers' : List (Progress RowSlice)} {c' : Cursor}
    (hsame : c' = { c with page := c'.page, emitted := c'.emitted })
    (hrows : handedOut answers' ++ c'.page = handedOut answers ++ c.page.dropWhile c.skips)
    (hfailing : Failing answers → Failing answers')
    (hended : .finished ∈ answers' → .finished ∈ answers) :
    Follows contents start answers' pages c' := by
  -- What is handed out or still to come only loses the rows that are passed over.
  have hsub : (handedOut answers' ++ c'.page).Sublist (handedOut answers ++ c.page) := by
    rw [hrows]
    exact (List.Sublist.refl _).append (List.dropWhile_sublist _)
  have hresume : c'.resume = c.resume := by rw [hsame]
  have hdone' : c'.isDone = false := by rw [hsame, hdone]
  have hlast : c'.atLastPage = c.atLastPage := by
    rw [hsame]
    rfl
  constructor
  case noLimit => rw [hsame]; exact h.noLimit
  case buffer => rw [hsame]; exact h.buffer
  case starts => rw [hsame]; exact h.starts
  case sorted => exact h.sorted.sublist hsub
  case fromStart => exact fun row hrow => h.fromStart row (hsub.subset hrow)
  case drawn => exact fun row hrow => h.drawn row (hsub.subset hrow)
  case reached => rw [hresume]; exact fun row hrow => h.reached row (hsub.subset hrow)
  case resumed => rw [hresume]; exact h.resumed
  -- Rows that last have entries, so they are not among those that are passed over.
  case covered =>
    rw [hresume, hrows]
    exact fun last hlast key hkey hle hlasting =>
      (h.covered last hlast key hkey hle hlasting).passing
  case complete =>
    rw [hdone', ← hdone, hlast, hrows]
    intro hend hgood
    obtain ⟨hpages, hall⟩ := h.complete hend fun hbad => hgood (hfailing hbad)
    exact ⟨hpages, fun key hkey hlasting => (hall key hkey hlasting).passing⟩
  case ended => rw [hdone', ← hdone]; exact fun hmem => h.ended (hended hmem)
  case emptied => rw [hdone']; nofun

/-- A cursor may end when it is through, or after a failure. -/
theorem Follows.finish (h : Follows contents start answers pages c) (hpage : c.page = [])
    {answer : Progress RowSlice} (hanswer : ∀ row, answer ≠ .row row)
    (hend : (∃ e, answer = .failure e) ∨ c.isDone = true ∨ c.atLastPage = true) :
    Follows contents start (answers ++ [answer]) pages { c with isDone := true } := by
  -- An answer that is no row adds nothing to what was handed out.
  have hout : handedOut (answers ++ [answer]) = handedOut answers := by
    rw [handedOut_concat]
    cases answer with
    | row row => exact absurd rfl (hanswer row)
    | failure e => exact List.append_nil _
    | finished => exact List.append_nil _
    | paused => exact List.append_nil _
  constructor
  case noLimit => exact h.noLimit
  case buffer => exact h.buffer
  case starts => exact h.starts
  case sorted => rw [hout]; exact h.sorted
  case fromStart => rw [hout]; exact h.fromStart
  case drawn => rw [hout]; exact h.drawn
  case reached => rw [hout]; exact h.reached
  case resumed => exact h.resumed
  case covered => rw [hout]; exact h.covered
  -- Only a scan that ended without a failure promises all rows that last.
  case complete =>
    rw [hout]
    intro _ hgood
    rcases hend with ⟨e, rfl⟩ | hend
    · exact absurd ⟨e, List.mem_append_right _ (List.mem_singleton.2 rfl)⟩ hgood
    · exact h.complete hend fun hbad => hgood hbad.append
  case ended => exact fun _ => rfl
  case emptied => exact fun _ => hpage

private theorem Follows.drawn_succ (h : Follows contents start answers pages c) :
    ∀ row ∈ handedOut answers ++ c.page, ∃ i < pages + 1, ∃ rows, contents i = .ok rows ∧
      row ∈ rows := by
  intro row hrow
  obtain ⟨i, hi, hdrawn⟩ := h.drawn row hrow
  exact ⟨i, Nat.lt_succ_of_lt hi, hdrawn⟩

/-- A request more makes no difference to a cursor that has failed. -/
theorem Follows.succ (h : Follows contents start answers pages c) (hfailing : Failing answers) :
    Follows contents start answers (pages + 1) c := by
  refine { h with drawn := h.drawn_succ, covered := ?_, complete := ?_ }
  · exact fun last hlast key hkey hle hlasting => h.covered last hlast key hkey hle hlasting.of_succ
  · exact fun _ hgood => absurd hfailing hgood

/-! ## Fetching a page -/

/-- The key that a page is asked from is not in front of the start key. -/
theorem Follows.requested (h : Follows contents start answers pages c) :
    compare (c.resume.getD c.start) start ≠ .lt := by
  cases hresume : c.resume with
  | none => simp [h.starts]
  | some last => exact h.resumed last hresume

section Fetching

variable {rows : List RowSlice} {count : Nat}

/-- The new rows of a page come behind all rows so far. -/
theorem Follows.behind (h : Follows contents start answers pages c) (hsorted : SortedByKey rows)
    {row new : RowSlice} (hrow : row ∈ handedOut answers ++ c.page)
    (hnew : new ∈ dropRepeated c.resume (Source.page rows (c.resume.getD c.start) count)) :
    compare row.key new.key = .lt := by
  obtain ⟨last, hlast, hle⟩ := h.reached row hrow
  rw [hlast, Option.getD_some] at hnew
  have hgt := ((mem_dropRepeated (sorted_page hsorted) fun _ h => (mem_of_mem_page h).2).1 hnew).2
  exact Std.TransCmp.lt_of_isLE_of_lt (Ordering.ne_gt_iff_isLE.1 hle) hgt

/-- A key that lasts until the page after this one has come with it, if the page is the last one or
reaches as far as the key. -/
theorem Follows.came (h : Follows contents start answers pages c) (hpage : c.page = [])
    (hrows : contents pages = .ok rows) (hsorted : SortedByKey rows) {key : Bytes}
    (hkey : compare key start ≠ .lt) (hlasting : Lasting contents (pages + 1) key)
    (hreach : (Source.page rows (c.resume.getD c.start) count).length < count ∨
      ∃ last ∈ Source.page rows (c.resume.getD c.start) count, compare key last.key ≠ .gt) :
    Came (handedOut answers ++
      dropRepeated c.resume (Source.page rows (c.resume.getD c.start) count)) key := by
  -- The row is there now, so it is on the page unless the scan is already beyond its key.
  obtain ⟨rows', row, hrows', hrow, rfl, hentries⟩ := hlasting pages (Nat.lt_succ_self pages)
  cases hrows.symm.trans hrows'
  cases hresume : c.resume with
  | none =>
    rw [hresume, Option.getD_none, h.starts] at hreach
    rw [Option.getD_none, h.starts]
    have hmem := mem_page hsorted hrow hkey hreach
    exact ⟨row, List.mem_append_right _ hmem, rfl, hentries⟩
  | some last =>
    by_cases hle : compare row.key last = .gt
    · rw [hresume, Option.getD_some] at hreach
      have hbehind : compare last row.key = .lt := Std.OrientedCmp.lt_of_gt hle
      have hmem := mem_page hsorted hrow (by rw [hle]; nofun) hreach
      have hfresh := (mem_dropRepeated (sorted_page hsorted) fun _ h => (mem_of_mem_page h).2).2
        ⟨hmem, hbehind⟩
      exact ⟨row, List.mem_append_right _ hfresh, rfl, hentries⟩
    · -- the key was passed before this page
      have hcame := h.covered last hresume row.key hkey hle hlasting.of_succ
      rw [hpage, List.append_nil] at hcame
      exact hcame.of_append_left

/-- A page without new rows is short, so the scan is over. -/
theorem Follows.receive_nil (h : Follows contents start answers pages c) (hpage : c.page = [])
    (hrows : contents pages = .ok rows) (hsorted : SortedByKey rows) (hcount : 2 ≤ count)
    (hnil : dropRepeated c.resume (Source.page rows (c.resume.getD c.start) count) = []) :
    Follows contents start answers (pages + 1)
      (c.receive count (Source.page rows (c.resume.getD c.start) count)) := by
  -- A page that brings nothing new is shorter than what was asked for, so it is the last one.
  have hshort : (Source.page rows (c.resume.getD c.start) count).length < count :=
    Nat.lt_of_le_of_lt (length_le_of_dropRepeated_eq_nil hnil) hcount
  rw [receive_of_nil hnil]
  constructor
  case noLimit => exact h.noLimit
  case buffer => exact h.buffer
  case starts => exact h.starts
  case sorted => exact h.sorted
  case fromStart => exact h.fromStart
  case drawn => exact h.drawn_succ
  case reached => exact h.reached
  case resumed => exact h.resumed
  case covered =>
    exact fun last hlast key hkey hle hlasting => h.covered last hlast key hkey hle hlasting.of_succ
  case complete =>
    -- The rows of a short last page reach to the end of the table.
    intro _ _
    refine ⟨Nat.succ_pos pages, fun key hkey hlasting => ?_⟩
    have hnow := h.came hpage hrows hsorted hkey hlasting (.inl hshort)
    rw [hnil, List.append_nil] at hnow
    exact hnow.of_append_left
  case ended => exact fun _ => rfl
  case emptied => exact fun _ => hpage

/-- New rows come behind all rows so far, and the scan goes on from the last one. -/
theorem Follows.receive_concat (h : Follows contents start answers pages c) (hpage : c.page = [])
    (hdone : c.isDone = false) (hrows : contents pages = .ok rows) (hsorted : SortedByKey rows)
    {init : List RowSlice} {last : RowSlice}
    (hnew : dropRepeated c.resume (Source.page rows (c.resume.getD c.start) count) =
      init ++ [last]) :
    Follows contents start answers (pages + 1)
      (c.receive count (Source.page rows (c.resume.getD c.start) count)) := by
  have hout : handedOut answers ++ c.page = handedOut answers := by rw [hpage, List.append_nil]
  have hserved := dropRepeated_sublist c.resume (Source.page rows (c.resume.getD c.start) count)
  rw [hnew] at hserved
  have hbehind : ∀ row ∈ handedOut answers, ∀ new ∈ init ++ [last],
      compare row.key new.key = .lt := by
    rw [← hnew]
    exact fun row hrow new => h.behind hsorted (hout.symm ▸ hrow)
  have hcame : ∀ key, compare key start ≠ .lt → Lasting contents (pages + 1) key →
      (Source.page rows (c.resume.getD c.start) count).length < count ∨
        (∃ r ∈ Source.page rows (c.resume.getD c.start) count, compare key r.key ≠ .gt) →
      Came (handedOut answers ++ (init ++ [last])) key := by
    rw [← hnew]
    exact fun key => h.came hpage hrows hsorted
  have hmem : ∀ row ∈ init ++ [last],
      row ∈ Source.page rows (c.resume.getD c.start) count := fun row hrow => hserved.subset hrow
  have hlast : last ∈ init ++ [last] := List.mem_append_right _ (List.mem_singleton.2 rfl)
  have hpages := (sorted_page hsorted).sublist hserved
  have hfrom : ∀ row ∈ init ++ [last], compare row.key start ≠ .lt := fun row hrow =>
    ne_lt_trans (mem_of_mem_page (hmem row hrow)).2 h.requested
  rw [receive_of_concat hnew]
  constructor
  case noLimit => exact h.noLimit
  case buffer => exact h.buffer
  case starts => exact h.starts
  case sorted =>
    exact List.pairwise_append.2 ⟨hout ▸ h.sorted, hpages, hbehind⟩
  case fromStart =>
    intro row hrow
    rcases List.mem_append.1 hrow with hrow | hrow
    · exact h.fromStart row (hout.symm ▸ hrow)
    · exact hfrom row hrow
  case drawn =>
    intro row hrow
    rcases List.mem_append.1 hrow with hrow | hrow
    · exact h.drawn_succ row (hout.symm ▸ hrow)
    · exact ⟨pages, Nat.lt_succ_self pages, rows, hrows, (mem_of_mem_page (hmem row hrow)).1⟩
  case reached =>
    -- all rows up to `last` are in order, and `last` is the key to go on from
    intro row hrow
    refine ⟨last.key, rfl, ?_⟩
    rcases List.mem_append.1 hrow with hrow | hrow
    · rw [hbehind row hrow last hlast]
      decide
    · rcases List.mem_append.1 hrow with hrow | hrow
      · rw [(List.pairwise_append.1 hpages).2.2 row hrow last (List.mem_singleton.2 rfl)]
        decide
      · cases List.mem_singleton.1 hrow
        simp
  case resumed =>
    rintro _ ⟨⟩
    exact hfrom last hlast
  case covered =>
    rintro _ ⟨⟩ key hkey hle hlasting
    exact hcame key hkey hlasting (.inr ⟨last, hmem last hlast, hle⟩)
  case complete =>
    intro hend _
    refine ⟨Nat.succ_pos pages, fun key hkey hlasting => hcame key hkey hlasting (.inl ?_)⟩
    simpa [hdone, atLastPage] using hend
  case ended =>
    intro hended
    rw [h.ended hended] at hdone
    cases hdone
  case emptied =>
    intro hended
    rw [hdone] at hended
    cases hended

/-- A page keeps what holds of a cursor. -/
theorem Follows.receive (h : Follows contents start answers pages c) (hpage : c.page = [])
    (hdone : c.isDone = false) (hrows : contents pages = .ok rows) (hsorted : SortedByKey rows)
    (hcount : 2 ≤ count) :
    Follows contents start answers (pages + 1)
      (c.receive count (Source.page rows (c.resume.getD c.start) count)) := by
  rcases List.eq_nil_or_concat
    (dropRepeated c.resume (Source.page rows (c.resume.getD c.start) count))
    with hnil | ⟨init, last, hnew⟩
  · exact h.receive_nil hpage hrows hsorted hcount hnil
  · rw [List.concat_eq_append] at hnew
    exact h.receive_concat hpage hdone hrows hsorted hnew

end Fetching

/-! ## Calls -/

/-- What has to hold after a step: an answer or the end, and a cursor of which the same holds; or a
request for a page, of at least two rows, when the current one has nothing left. -/
def Stepping (contents : Nat → Except ClientError (List RowSlice)) (start : Bytes)
    (answers : List (Progress RowSlice)) (pages : Nat) : Step → Prop
  | .finished c => Follows contents start (answers ++ [.finished]) pages c
  | .row row c => Follows contents start (answers ++ [.row row]) pages c
  | .fetch key count c =>
    Follows contents start answers pages c ∧ c.page = [] ∧ c.isDone = false ∧
      key = c.resume.getD c.start ∧ 2 ≤ count

theorem Follows.step (h : Follows contents start answers pages c) :
    Stepping contents start answers pages c.step := by
  have hlimit : c.atLimit = false := by rw [atLimit, h.noLimit]; rfl
  rw [Cursor.step, hlimit, Bool.or_false]
  split
  · next hdone => exact h.finish (h.emptied hdone) (by rintro _ ⟨⟩) (.inr (.inl hdone))
  · next hdone =>
    rw [Bool.not_eq_true] at hdone
    -- Rows without entries are passed over; a row behind them is handed out, and without one the
    -- page is used up.
    cases hpage : c.page.dropWhile c.skips with
    | cons row rest =>
      refine h.passing hdone rfl ?_ Failing.append ?_
      · rw [handedOut_concat, hpage, List.append_assoc]
        rfl
      · simp
    | nil =>
      have hempty : Follows contents start answers pages { c with page := [] } :=
        h.passing hdone rfl (by rw [hpage]) id id
      show Stepping contents start answers pages (if c.atLastPage then _ else _)
      split
      · next hlast => exact hempty.finish rfl (by rintro _ ⟨⟩) (.inr (.inr hlast))
      · refine ⟨hempty, rfl, hdone, rfl, ?_⟩
        rw [pageSize, h.noLimit]
        exact h.buffer

/-- One call of `next` keeps what holds of a cursor. -/
theorem Follows.next (hsorted : ∀ i rows, contents i = .ok rows → SortedByKey rows) (budget : Nat) :
    ∀ {pages : Nat} {c : Cursor} {answer : Progress RowSlice} {c' : Cursor} {pages' : Nat},
      Follows contents start answers pages c →
      c.next (Source.changing contents) budget pages = (answer, c', pages') →
      Follows contents start (answers ++ [answer]) pages' c' := by
  intro pages c answer c' pages' h hnext
  have hstep := h.step
  -- By induction along `next`: a call that fetches goes on behind the page.
  induction budget, c, pages using Cursor.next.induct (Source.changing contents) with
  | case1 budget c pages c₁ hc =>
    -- the scan is over
    rw [hc] at hstep
    rw [Cursor.next, hc] at hnext
    cases hnext
    exact hstep
  | case2 budget c pages row c₁ hc =>
    -- there is a row left on the page
    rw [hc] at hstep
    rw [Cursor.next, hc] at hnext
    cases hnext
    exact hstep
  | case3 c pages key count c₁ hc =>
    -- the budget is used up
    rw [hc] at hstep
    obtain ⟨hempty, hpage, hdone, -, -⟩ := hstep
    rw [Cursor.next, hc] at hnext
    cases hnext
    refine hempty.passing hdone rfl ?_ Failing.append ?_
    · rw [handedOut_concat, hpage]
      simp [handedOut]
    · simp
  | case4 c pages key count c₁ hc budget page pages₁ hsource ih =>
    -- the next page comes
    rw [hc] at hstep
    obtain ⟨hempty, hpage, hdone, rfl, hcount⟩ := hstep
    obtain ⟨rows, hrows, rfl, rfl⟩ := Source.changing_eq_ok.1 hsource
    have hreceived := hempty.receive hpage hdone hrows (hsorted pages rows hrows) hcount
    rw [Cursor.next, hc] at hnext
    simp only [hsource] at hnext
    exact ih hreceived hnext hreceived.step
  | case5 c pages key count c₁ hc budget e pages₁ hsource =>
    -- the request for the next page fails
    rw [hc] at hstep
    obtain ⟨hempty, hpage, -⟩ := hstep
    obtain ⟨-, rfl⟩ := Source.changing_eq_error.1 hsource
    rw [Cursor.next, hc] at hnext
    simp only [hsource] at hnext
    cases hnext
    have hfailed : Follows contents start (answers ++ [.failure e]) pages
        { c₁ with isDone := true } := hempty.finish hpage (by rintro _ ⟨⟩) (.inl ⟨e, rfl⟩)
    exact hfailed.succ ⟨e, List.mem_concat_self⟩

/-- Any number of calls keep what holds of a cursor. -/
theorem Follows.calls (hsorted : ∀ i rows, contents i = .ok rows → SortedByKey rows)
    (budgets : List Nat) :
    ∀ {answers : List (Progress RowSlice)} {pages : Nat} {c : Cursor}
      {more : List (Progress RowSlice)} {c' : Cursor} {pages' : Nat},
      Follows contents start answers pages c →
      calls (Source.changing contents) budgets c pages = (more, c', pages') →
      Follows contents start (answers ++ more) pages' c' := by
  induction budgets with
  | nil =>
    intro answers pages c more c' pages' h hcalls
    cases hcalls
    rwa [List.append_nil]
  | cons budget budgets ih =>
    intro answers pages c more c' pages' h hcalls
    rw [Cursor.calls] at hcalls
    cases hcalls
    -- Each call keeps what holds of the cursor, so all of them do.
    have hall := ih (h.next hsorted budget rfl) rfl
    rwa [List.append_assoc] at hall

end Following

/-- A new cursor has handed nothing out and passed nothing over. -/
theorem Follows.of_start (contents : Nat → Except ClientError (List RowSlice)) {c : Cursor}
    (hlimit : c.limit = none) (hbuffer : 2 ≤ c.bufferSize) (hpage : c.page = [])
    (hresume : c.resume = none) (hdone : c.isDone = false) (hfetched : c.fetched = 0) :
    Follows contents c.start [] 0 c where
  noLimit := hlimit
  buffer := hbuffer
  starts := rfl
  sorted := by rw [hpage]; exact List.Pairwise.nil
  fromStart := by simp [hpage, handedOut]
  drawn := by simp [hpage, handedOut]
  reached := by simp [hpage, handedOut]
  resumed := by rw [hresume]; nofun
  covered := by rw [hresume]; nofun
  complete := by simp [hdone, atLastPage, hfetched]
  ended := nofun
  emptied _ := hpage

/-- However a table changes from one page to the next, the rows that a cursor hands out are in
increasing order of their keys, none of them in front of the start key, and each is a row of the
table at the time of one of the requests. If the scan comes to its end without a failure, there was
a request, and every key from the start key on that had a row with entries at the time of every
request is among them. -/
theorem calls_changing {contents : Nat → Except ClientError (List RowSlice)}
    (hsorted : ∀ i rows, contents i = .ok rows → SortedByKey rows) (start : Bytes)
    {bufferSize : Nat} (hbuffer : 2 ≤ bufferSize) (keepEmpty : Bool) (budgets : List Nat) :
    ∃ c₀ answers c pages, ofStart start bufferSize = .ok c₀ ∧
      calls (Source.changing contents) budgets (c₀.withEmptyRows keepEmpty) 0 =
      (answers, c, pages) ∧
      SortedByKey (handedOut answers) ∧
      (∀ row ∈ handedOut answers, compare row.key start ≠ .lt ∧
        ∃ i < pages, ∃ rows, contents i = .ok rows ∧ row ∈ rows) ∧
      (.finished ∈ answers → (∀ e, .failure e ∉ answers) →
        0 < pages ∧ ∀ key, compare key start ≠ .lt →
          (∀ i < pages, ∃ rows row, contents i = .ok rows ∧ row ∈ rows ∧ row.key = key ∧
            row.entries ≠ []) →
          ∃ row ∈ handedOut answers, row.key = key ∧ row.entries ≠ []) := by
  let c₀ : Cursor :=
    { bufferSize, limit := none, keepEmpty, start, page := [], resume := none, lastLength := 0,
      lastRequest := 0, fetched := 0, emitted := 0, isDone := false }
  have hfollows := (Follows.of_start contents (c := c₀) rfl hbuffer rfl rfl rfl rfl).calls hsorted
    budgets rfl
  rw [List.nil_append] at hfollows
  refine ⟨_, _, _, _, if_neg (Nat.not_lt.2 hbuffer), rfl, ?_, ?_, ?_⟩
  · exact hfollows.sorted.sublist (List.sublist_append_left _ _)
  · intro row hrow
    exact ⟨hfollows.fromStart row (List.mem_append_left _ hrow),
      hfollows.drawn row (List.mem_append_left _ hrow)⟩
  · intro hfinished hgood
    -- A scan that has ended without a failure has nothing left on its page, so all that came was
    -- handed out.
    have hdone := hfollows.ended hfinished
    obtain ⟨hpages, hall⟩ := hfollows.complete (.inl hdone) fun ⟨e, he⟩ => hgood e he
    refine ⟨hpages, fun key hkey hlasting => ?_⟩
    have hcame := hall key hkey hlasting
    rw [hfollows.emptied hdone, List.append_nil] at hcame
    exact hcame

/-- Between the first page and the second one the row on the border of them is deleted, and two new
rows come, one in front of the border and one behind it. -/
def borderDeleted : Nat → Except ClientError (List RowSlice)
  | 0 => .ok [⟨[1], [.counter ⟨[9], 1⟩]⟩, ⟨[3], [.counter ⟨[9], 3⟩]⟩, ⟨[5], [.counter ⟨[9], 5⟩]⟩]
  | _ + 1 =>
    .ok [⟨[1], [.counter ⟨[9], 1⟩]⟩, ⟨[2], [.counter ⟨[9], 2⟩]⟩, ⟨[4], [.counter ⟨[9], 4⟩]⟩,
      ⟨[5], [.counter ⟨[9], 5⟩]⟩]

/-- The new row behind the border comes, the other one is missed, and the row that is there all the
time comes too. -/
theorem calls_changing_borderDeleted :
    ∃ c₀ answers c pages, ofStart [] 2 = .ok c₀ ∧
      calls (Source.changing borderDeleted) [2, 2, 2, 2, 2] (c₀.withEmptyRows false) 0 =
        (answers, c, pages) ∧
      SortedByKey (handedOut answers) ∧ 0 < pages ∧
      (handedOut answers).map (fun row => row.key) = [[1], [3], [4], [5]] ∧
      ∃ row ∈ handedOut answers, row.key = [5] ∧ row.entries ≠ [] := by
  have hsorted : ∀ i rows, borderDeleted i = .ok rows → SortedByKey rows := by
    intro i rows hrows
    cases i <;> cases hrows <;> decide +kernel
  obtain ⟨c₀, answers, c, pages, hstart, hcalls, hrows, -, hall⟩ :=
    calls_changing hsorted [] (Nat.le_refl 2) false [2, 2, 2, 2, 2]
  have hanswers : answers = [.row ⟨[1], [.counter ⟨[9], 1⟩]⟩, .row ⟨[3], [.counter ⟨[9], 3⟩]⟩,
      .row ⟨[4], [.counter ⟨[9], 4⟩]⟩, .row ⟨[5], [.counter ⟨[9], 5⟩]⟩, .finished] := by
    cases hstart
    exact congrArg (fun r => r.1) hcalls.symm
  -- The last row is there all the time and none of the calls fails, so it has to come.
  have hlasting : ∀ i < pages, ∃ rows row, borderDeleted i = .ok rows ∧ row ∈ rows ∧
      row.key = [5] ∧ row.entries ≠ [] := by
    intro i _
    cases i with
    | zero => exact ⟨_, ⟨[5], [.counter ⟨[9], 5⟩]⟩, rfl, by decide +kernel, rfl, nofun⟩
    | succ i => exact ⟨_, ⟨[5], [.counter ⟨[9], 5⟩]⟩, rfl, by decide +kernel, rfl, nofun⟩
  obtain ⟨hpages, hcame⟩ := hall (by simp [hanswers]) (by simp [hanswers])
  exact ⟨c₀, answers, c, pages, hstart, hcalls, hrows, hpages, by simp [hanswers, handedOut],
    hcame [5] (by decide) hlasting⟩

end WideColumn.Cursor
