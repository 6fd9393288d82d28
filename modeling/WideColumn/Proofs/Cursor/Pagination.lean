import Mathlib.Tactic.Common
import WideColumn.Cursor.Source

/-!
# Paging through sorted rows

A cursor over a fixed list of rows, sorted by key, hands out every wanted row once and in order,
whatever the size of its pages.

The rows that a cursor has not fetched yet are a tail of the list. `At` ties that tail to the state
of the cursor: everything up to the last fetched key lies in front of it. One call of `next` takes
the first wanted row off the rest of the page and that tail (`next_delivers`), so draining the
cursor hands out all of them (`drain_delivers`). Each full page takes away one row less than it
holds, for its last row is repeated; `pagesFor` counts the pages by that rule.

- `drain_ofRows`: what a drained cursor has handed out, and how many pages it has fetched.
-/

namespace WideColumn.Cursor

/-! ## Draining a cursor -/

/-- Calls `next` until the scan is over, at most `calls` times, and answers the rows handed out. A
failure or a used-up budget of pages gives no answer. -/
def drain {σ : Type} (source : Source σ) (budget : Nat) :
    Nat → Cursor → σ → Option (List RowSlice × Cursor × σ)
  | 0, _, _ => none
  | calls + 1, c, s =>
    match c.next source budget s with
    | (.finished, c, s) => some ([], c, s)
    | (.row row, c, s) =>
      (drain source budget calls c s).map fun (rows, c, s) => (row :: rows, c, s)
    | (.failure _, _, _) | (.paused, _, _) => none

/-- The rows of `rows` that a cursor still has to hand out. -/
def wanted (c : Cursor) (rows : List RowSlice) : List RowSlice :=
  match c.limit with
  | some limit => (rows.filter fun row => !c.skips row).take (limit - c.emitted)
  | none => rows.filter fun row => !c.skips row

/-- The number of pages that `n` rows take without a limit. -/
def pagesFor (bufferSize n : Nat) : Nat :=
  if n < bufferSize then 1 else (n - bufferSize) / (bufferSize - 1) + 2

/-- After a full page the scan goes on at the last row of that page. -/
theorem pagesFor_of_le {bufferSize n : Nat} (hbuffer : 2 ≤ bufferSize) (h : bufferSize ≤ n) :
    pagesFor bufferSize n = pagesFor bufferSize (n - bufferSize + 1) + 1 := by
  -- In terms of the size without the repeated row, there are no subtractions left.
  obtain ⟨size, rfl⟩ : ∃ size, bufferSize = size + 1 := ⟨bufferSize - 1, by omega⟩
  obtain ⟨rest, rfl⟩ : ∃ rest, n = rest + (size + 1) := ⟨n - (size + 1), by omega⟩
  have hpos : 0 < size := by omega
  simp only [pagesFor, Nat.add_sub_cancel]
  rw [if_neg (by omega)]
  by_cases hlast : rest + 1 < size + 1
  · rw [if_pos hlast, Nat.div_eq_of_lt (by omega)]
  · rw [if_neg hlast]
    obtain ⟨more, rfl⟩ : ∃ more, rest = more + size := ⟨rest - size, by omega⟩
    rw [Nat.add_div_right more hpos, Nat.add_assoc more size 1, Nat.add_sub_cancel]

/-! ## Sorted rows -/

/-- Rows with strictly increasing keys. -/
def SortedByKey (rows : List RowSlice) : Prop :=
  rows.Pairwise fun a b => compare a.key b.key = .lt

instance (rows : List RowSlice) : Decidable (SortedByKey rows) :=
  inferInstanceAs (Decidable (rows.Pairwise fun a b => compare a.key b.key = .lt))

/-- The rows from a key on are a tail of sorted rows. -/
theorem exists_eq_append_filter {rows : List RowSlice} (hsorted : SortedByKey rows)
    (start : Bytes) :
    ∃ passed, rows = passed ++ rows.filter fun row => compare row.key start != .lt := by
  -- By induction on the rows: once a key has reached the start, all later keys have.
  induction rows with
  | nil => exact ⟨[], rfl⟩
  | cons row rows ih =>
    obtain ⟨hrow, hrows⟩ := List.pairwise_cons.1 hsorted
    by_cases h : compare row.key start = .lt
    · obtain ⟨passed, hpassed⟩ := ih hrows
      refine ⟨row :: passed, ?_⟩
      rw [List.filter_cons_of_neg (by simp [h]), List.cons_append, ← hpassed]
    · refine ⟨[], ?_⟩
      have hall : ∀ row' ∈ row :: rows, (compare row'.key start != .lt) = true := by
        intro row' hrow'
        rcases List.mem_cons.1 hrow' with rfl | hmem
        · simpa using h
        · rw [bne_iff_ne]
          intro hlt
          exact h (Std.TransCmp.lt_trans (hrow row' hmem) hlt)
      rw [List.nil_append, List.filter_eq_self.2 hall]

/-- The rows from the key of one of them on. -/
theorem filter_key_of_append {passed ahead : List RowSlice} {row : RowSlice}
    (hsorted : SortedByKey (passed ++ row :: ahead)) :
    ((passed ++ row :: ahead).filter fun r => compare r.key row.key != .lt) = row :: ahead := by
  obtain ⟨-, hrest, hcross⟩ := List.pairwise_append.1 hsorted
  -- The passed rows stand in front of the key, and the others at it or behind.
  have hpassed : (passed.filter fun r => compare r.key row.key != .lt) = [] := by
    rw [List.filter_eq_nil_iff]
    intro r hr
    simp [hcross r hr row List.mem_cons_self]
  have hahead : ((row :: ahead).filter fun r => compare r.key row.key != .lt) = row :: ahead := by
    rw [List.filter_eq_self]
    intro r hr
    rcases List.mem_cons.1 hr with rfl | hmem
    · simp
    · have hlt := (List.pairwise_cons.1 hrest).1 r hmem
      rw [bne_iff_ne]
      intro hgt
      rw [Std.OrientedCmp.gt_of_lt hlt] at hgt
      cases hgt
  rw [List.filter_append, hpassed, hahead, List.nil_append]

/-! ## Where a cursor stands -/

/-- The rows `ahead` of a cursor, which it has not fetched yet, are a tail of `rows`. Before the
first page they are the rows from the start key on, later the rows behind the last one fetched. -/
structure At (rows ahead : List RowSlice) (c : Cursor) : Prop where
  buffer : 2 ≤ c.bufferSize
  atEnd : c.isDone = true → c.page = [] ∧ ahead = []
  atLast : c.atLastPage = true → ahead = []
  unfetched : c.isDone = false → c.resume = none →
    c.fetched = 0 ∧ ahead = rows.filter fun row => compare row.key c.start != .lt
  behind : ∀ key, c.resume = some key →
    ∃ passed row, row.key = key ∧ rows = passed ++ row :: ahead

/-- The number of rows that the next page repeats. -/
def repeats (c : Cursor) : Nat := if c.resume.isSome then 1 else 0

private theorem repeats_le_one (c : Cursor) : c.repeats ≤ 1 := by
  unfold repeats
  split <;> omega

/-- The number of pages that a scan without a limit still takes. -/
def pagesLeft (c : Cursor) (ahead : List RowSlice) : Nat :=
  if c.isDone || c.atLastPage then 0 else pagesFor c.bufferSize (ahead.length + c.repeats)

private theorem pagesLeft_of_isDone {c : Cursor} (h : c.isDone = true) (ahead : List RowSlice) :
    c.pagesLeft ahead = 0 := by
  simp [pagesLeft, h]

private theorem pagesLeft_of_atLastPage {c : Cursor} (h : c.atLastPage = true)
    (ahead : List RowSlice) :
    c.pagesLeft ahead = 0 := by
  simp [pagesLeft, h]

/-- What the source answers, apart from the repeated row, is the beginning of the rows ahead. -/
theorem At.served {rows ahead : List RowSlice} {c : Cursor} (hsorted : SortedByKey rows)
    (h : At rows ahead c) (hdone : c.isDone = false) {count : Nat} (hcount : 0 < count) :
    dropRepeated c.resume (Source.page rows (c.resume.getD c.start) count) =
        ahead.take (count - c.repeats) ∧
      (Source.page rows (c.resume.getD c.start) count).length =
        min count (ahead.length + c.repeats) ∧
      ∃ passed, rows = passed ++ ahead := by
  cases hresume : c.resume with
  | none =>
    obtain ⟨-, hahead⟩ := h.unfetched hdone hresume
    have hpage : Source.page rows c.start count = ahead.take count := by
      rw [Source.page, ← hahead]
    have hzero : c.repeats = 0 := by simp [repeats, hresume]
    obtain ⟨passed, hpassed⟩ := exists_eq_append_filter hsorted c.start
    rw [← hahead] at hpassed
    rw [Option.getD_none, hpage, hzero]
    exact ⟨rfl, List.length_take, passed, hpassed⟩
  | some key =>
    -- The source begins with the last row of the page before, which is dropped again.
    obtain ⟨passed, row, rfl, rfl⟩ := h.behind key hresume
    have hpage : Source.page (passed ++ row :: ahead) row.key count =
        row :: ahead.take (count - 1) := by
      rw [Source.page, filter_key_of_append hsorted]
      exact List.take_cons hcount
    have hone : c.repeats = 1 := by simp [repeats, hresume]
    rw [Option.getD_some, hpage, hone]
    refine ⟨?_, ?_, passed ++ [row], ?_⟩
    · simp [dropRepeated]
    · rw [List.length_cons, List.length_take]
      omega
    · simp

/-- An answer without new rows ends the scan. -/
theorem receive_of_nil {c : Cursor} {count : Nat} {served : List RowSlice}
    (h : dropRepeated c.resume served = []) :
    c.receive count served =
      { c with fetched := c.fetched + 1, lastRequest := count, lastLength := served.length,
               isDone := true } := by
  simp only [receive, h, List.getLast?_nil]

theorem receive_of_concat {c : Cursor} {count : Nat} {served rows : List RowSlice} {last : RowSlice}
    (h : dropRepeated c.resume served = rows ++ [last]) :
    c.receive count served =
      { c with fetched := c.fetched + 1, lastRequest := count, lastLength := served.length,
               page := rows ++ [last], resume := some last.key } := by
  simp only [receive, h, List.getLast?_append, List.getLast?_singleton, Option.some_or]

/-- A cursor that got a page with new rows has the rows behind that page ahead. -/
theorem At.of_page {rows passed ahead left init : List RowSlice} {last : RowSlice} {c c' : Cursor}
    (h : At rows ahead c) (hdone : c.isDone = false) (hpassed : rows = passed ++ ahead)
    (hsplit : init ++ [last] ++ left = ahead) {count length : Nat}
    (hc' : c' = { c with fetched := c.fetched + 1, lastRequest := count, lastLength := length,
                         page := init ++ [last], resume := some last.key })
    (hlast : c'.atLastPage = true → left = []) : At rows left c' where
  buffer := by
    rw [hc']
    exact h.buffer
  atEnd hd := by
    rw [hc', hdone] at hd
    cases hd
  atLast := hlast
  unfetched _ hr := by
    rw [hc'] at hr
    cases hr
  behind key hkey := by
    rw [hc'] at hkey
    cases hkey
    -- The page was taken off what is ahead, and what it brings counts as passed.
    refine ⟨passed ++ init, last, rfl, ?_⟩
    rw [hpassed, ← hsplit]
    simp

/-- A page with new rows is one of the pages that were left. It is the last one if it is short. -/
theorem pagesFor_eq_pagesLeft_succ {ahead left : List RowSlice} {c c' : Cursor}
    (hbuffer : 2 ≤ c.bufferSize) (hsame : c'.bufferSize = c.bufferSize) (hdone : c'.isDone = false)
    (hresume : c'.repeats = 1)
    (hlast : c'.atLastPage = decide (ahead.length + c.repeats < c.bufferSize))
    (hleft : left.length = ahead.length - (c.bufferSize - c.repeats)) :
    pagesFor c.bufferSize (ahead.length + c.repeats) = c'.pagesLeft left + 1 := by
  have hrepeats := c.repeats_le_one
  by_cases hshort : ahead.length + c.repeats < c.bufferSize
  · have hend : c'.atLastPage = true := by rw [hlast, decide_eq_true hshort]
    rw [pagesLeft_of_atLastPage hend, pagesFor, if_pos hshort]
  · have hmore : c'.atLastPage = false := by rw [hlast, decide_eq_false hshort]
    -- The last row of the page is repeated, so it counts as one that is still ahead.
    have hrest : ahead.length + c.repeats - c.bufferSize + 1 = left.length + c'.repeats := by
      rw [hleft, hresume]
      omega
    rw [pagesFor_of_le hbuffer (Nat.le_of_not_lt hshort), hrest, pagesLeft, hdone, hmore, hsame]
    rfl

/-- A page moves rows from those ahead to the cursor. A scan without a limit has one page less to
go. -/
theorem At.receive {rows ahead : List RowSlice} {c : Cursor} (hsorted : SortedByKey rows)
    (h : At rows ahead c) (hdone : c.isDone = false) (hlast : c.atLastPage = false)
    (hpage : c.page = []) {count : Nat} (hcount : 2 ≤ count) {c' : Cursor}
    (hc' : c' = c.receive count (Source.page rows (c.resume.getD c.start) count)) :
    ∃ left, At rows left c' ∧ c'.page ++ left = ahead ∧
      (c'.isDone = true ∨ left.length < ahead.length) ∧
      (count = c.bufferSize → c.pagesLeft ahead = c'.pagesLeft left + 1) := by
  obtain ⟨hfresh, hlength, passed, hpassed⟩ := h.served hsorted hdone (Nat.lt_of_succ_lt hcount)
  have hrepeats := c.repeats_le_one
  have hleft : c.pagesLeft ahead = pagesFor c.bufferSize (ahead.length + c.repeats) := by
    simp [pagesLeft, hdone, hlast]
  -- Nothing new means that the scan is over; otherwise the page ends with a last row.
  cases hrows : ahead with
  | nil =>
    rw [hrows, List.take_nil] at hfresh
    rw [receive_of_nil hfresh] at hc'
    have hdone' : c'.isDone = true := by rw [hc']
    refine ⟨[], ?_, by rw [hc', List.append_nil, hpage], .inl hdone', fun _ => ?_⟩
    · subst hc'
      exact ⟨h.buffer, fun _ => ⟨hpage, rfl⟩, fun _ => rfl, nofun, hrows ▸ h.behind⟩
    · have hsmall : c.repeats < c.bufferSize := Nat.lt_of_le_of_lt hrepeats h.buffer
      rw [← hrows, hleft, pagesLeft_of_isDone hdone', hrows, List.length_nil, Nat.zero_add,
        pagesFor, if_pos hsmall]
  | cons first others =>
    rw [← hrows]
    obtain ⟨init, last, hconcat⟩ :
        ∃ init last, ahead.take (count - c.repeats) = init ++ [last] := by
      rcases List.eq_nil_or_concat (ahead.take (count - c.repeats)) with hnil | ⟨init, last, h⟩
      · rw [hrows, List.take_eq_nil_iff] at hnil
        rcases hnil with hnil | hnil
        · omega
        · cases hnil
      · exact ⟨init, last, by rw [h, List.concat_eq_append]⟩
    rw [receive_of_concat (hfresh.trans hconcat)] at hc'
    have hsplit : init ++ [last] ++ ahead.drop (count - c.repeats) = ahead := by
      rw [← hconcat, List.take_append_drop]
    have hpos : 0 < ahead.length := by simp [hrows]
    have hlast' : c'.atLastPage = decide (min count (ahead.length + c.repeats) < count) := by
      rw [hc', ← hlength]
      simp [atLastPage]
    refine ⟨ahead.drop (count - c.repeats), ?_, by rw [hc', hsplit], .inr ?_, fun hbuffer => ?_⟩
    · apply h.of_page hdone hpassed hsplit hc'
      intro hl
      rw [hlast', decide_eq_true_eq] at hl
      exact List.drop_eq_nil_of_le (by omega)
    · rw [List.length_drop]
      omega
    · rw [hleft]
      apply pagesFor_eq_pagesLeft_succ h.buffer
      · rw [hc']
      · rw [hc', hdone]
      · rw [hc', repeats, Option.isSome_some, if_pos rfl]
      · rw [hlast', hbuffer, decide_eq_decide]
        omega
      · rw [List.length_drop, hbuffer]

/-! ## One call -/

/-- What a call of `next` has to answer for a cursor with `ahead` still to fetch and after `asked`
requests: the first wanted row and a cursor that wants the others, or the end if none is wanted. -/
def Delivers {σ : Type} (rows : List RowSlice) (c : Cursor) (ahead : List RowSlice)
    (asked : List (Bytes × Nat)) :
    Progress RowSlice × Cursor × (List (Bytes × Nat) × σ) → Prop
  | (.row row, c', (asked', _)) =>
    ∃ left, At rows left c' ∧ left.length ≤ ahead.length ∧
      c.wanted (c.page ++ ahead) = row :: c'.wanted (c'.page ++ left) ∧
      asked'.length + c.fetched = asked.length + c'.fetched ∧
      c'.limit = c.limit ∧
      (c.limit = none → c.fetched + c.pagesLeft ahead = c'.fetched + c'.pagesLeft left)
  | (.finished, c', (asked', _)) =>
    c'.isDone = true ∧ c.wanted (c.page ++ ahead) = [] ∧
      asked'.length + c.fetched = asked.length + c'.fetched ∧
      (c.limit = none → c.fetched + c.pagesLeft ahead = c'.fetched)
  | _ => False

/-- The first row that is not passed over is the first one that counts. -/
theorem filter_skips (c : Cursor) (page : List RowSlice) :
    (page.filter fun row => !c.skips row) =
      match page.dropWhile c.skips with
      | [] => []
      | row :: rest => row :: rest.filter fun row => !c.skips row := by
  -- By induction on the page: rows in front of the first wanted one are not wanted.
  induction page with
  | nil => rfl
  | cons row page ih =>
    cases h : c.skips row with
    | true => rw [List.filter_cons_of_neg (by simp [h]), List.dropWhile_cons_of_pos h, ih]
    | false =>
      rw [List.filter_cons_of_pos (by simp [h]), List.dropWhile_cons_of_neg (by simp [h])]

private theorem wanted_of_atLimit {c : Cursor} (h : c.atLimit = true) (rows : List RowSlice) :
    c.wanted rows = [] := by
  unfold atLimit at h
  cases hlimit : c.limit with
  | none => simp [hlimit] at h
  | some limit =>
    rw [hlimit, Option.any_some, decide_eq_true_eq] at h
    simp only [wanted, hlimit, Nat.sub_eq_zero_of_le h, List.take_zero]

/-- Rows that are passed over do not change what a cursor wants. -/
theorem wanted_append_of_skipped {c : Cursor} {page : List RowSlice}
    (h : page.dropWhile c.skips = []) (ahead : List RowSlice) :
    c.wanted (page ++ ahead) = c.wanted ahead := by
  have hskipped := filter_skips c page
  rw [h] at hskipped
  simp only [wanted, List.filter_append, hskipped, List.nil_append]

/-- Handing out a row takes it off the rows that a cursor wants. -/
theorem wanted_append_of_row {c : Cursor} (hlimit : c.atLimit = false) {page rest : List RowSlice}
    {row : RowSlice} (h : page.dropWhile c.skips = row :: rest) (ahead : List RowSlice) :
    c.wanted (page ++ ahead) =
      row :: { c with page := rest, emitted := c.emitted + 1 }.wanted (rest ++ ahead) := by
  have hfirst := filter_skips c page
  rw [h] at hfirst
  cases hl : c.limit with
  | none =>
    simp only [wanted, hl, List.filter_append, hfirst, List.cons_append]
    rfl
  | some limit =>
    simp only [atLimit, hl, Option.any_some, decide_eq_false_iff_not, Nat.not_le] at hlimit
    -- The limit leaves room for this row, and one row less afterwards.
    obtain ⟨more, hmore⟩ : ∃ more, limit - c.emitted = more + 1 :=
      ⟨limit - c.emitted - 1, by omega⟩
    have hless : limit - (c.emitted + 1) = more := by omega
    simp only [wanted, hl, List.filter_append, hfirst, List.cons_append, hmore, hless,
      List.take_succ_cons]
    rfl

/-- What a step may do for a cursor with `ahead` still to fetch: take a wanted row off the page, end
the scan when nothing is wanted, or ask for a page when the current one has nothing wanted left. -/
def Steps (rows : List RowSlice) (c : Cursor) (ahead : List RowSlice) : Step → Prop
  | .finished c' =>
    c' = { c with page := c'.page, isDone := true } ∧ c.wanted (c.page ++ ahead) = [] ∧
      (c.limit = none → c.pagesLeft ahead = 0)
  | .row row c' =>
    At rows ahead c' ∧ c' = { c with page := c'.page, emitted := c.emitted + 1 } ∧
      c.wanted (c.page ++ ahead) = row :: c'.wanted (c'.page ++ ahead)
  | .fetch start count c' =>
    At rows ahead c' ∧ c' = { c with page := [] } ∧ c.isDone = false ∧ c.atLastPage = false ∧
      start = c.resume.getD c.start ∧ 2 ≤ count ∧ (c.limit = none → count = c.bufferSize) ∧
      c.wanted (c.page ++ ahead) = c.wanted ahead

theorem At.steps {rows ahead : List RowSlice} {c : Cursor} (h : At rows ahead c) :
    Steps rows c ahead c.step := by
  rw [Cursor.step]
  split
  · next hend =>
    -- The scan is over or at its limit, so nothing of what is ahead is wanted.
    refine ⟨rfl, ?_, fun hlimit => ?_⟩
    · rcases Bool.or_eq_true_iff.1 hend with hdone | hlimit
      · obtain ⟨hpage, hahead⟩ := h.atEnd hdone
        rw [hpage, hahead]
        cases hl : c.limit <;> simp [wanted, hl]
      · exact wanted_of_atLimit hlimit _
    · have hnone : c.atLimit = false := by simp [atLimit, hlimit]
      rw [hnone, Bool.or_false] at hend
      exact pagesLeft_of_isDone hend ahead
  · next hgo =>
    rw [Bool.not_eq_true, Bool.or_eq_false_iff] at hgo
    obtain ⟨hdone, hlimit⟩ := hgo
    cases hpage : c.page.dropWhile c.skips with
    | cons row rest =>
      -- A row is handed out, and the rest of the page stays.
      refine ⟨⟨h.buffer, fun hd => ?_, h.atLast, h.unfetched, h.behind⟩, rfl, ?_⟩
      · rw [hdone] at hd
        cases hd
      · exact wanted_append_of_row hlimit hpage ahead
    | nil =>
      -- The page is used up, which passes over nothing that is wanted.
      have hwanted := wanted_append_of_skipped hpage ahead
      show Steps rows c ahead (if c.atLastPage then _ else _)
      cases hlast : c.atLastPage with
      | true =>
        -- Nothing stands behind the last page.
        rw [if_pos rfl]
        refine ⟨rfl, ?_, fun _ => pagesLeft_of_atLastPage hlast ahead⟩
        rw [hwanted, h.atLast hlast]
        cases hl : c.limit <;> simp [wanted, hl]
      | false =>
        -- Another page is asked for.
        rw [if_neg Bool.false_ne_true]
        refine ⟨⟨h.buffer, fun hd => ?_, h.atLast, h.unfetched, h.behind⟩, rfl, hdone,
          hlast, rfl, ?_,
          fun hnone => ?_, hwanted⟩
        · rw [hdone] at hd
          cases hd
        · unfold pageSize
          split
          · exact Nat.le_max_right _ _
          · exact h.buffer
        · unfold pageSize
          rw [hnone]

/-- The pages that a call may need. -/
def budgetFor (c : Cursor) (ahead : List RowSlice) : Nat :=
  if c.isDone || c.atLastPage then 0 else ahead.length + 1

/-- A page changes nothing about what a cursor wants. -/
theorem wanted_receive (c : Cursor) (count : Nat) (served rows : List RowSlice) :
    (c.receive count served).wanted rows = c.wanted rows := by
  unfold receive
  dsimp only
  split <;> rfl

private theorem fetched_receive (c : Cursor) (count : Nat) (served : List RowSlice) :
    (c.receive count served).fetched = c.fetched + 1 := by
  unfold receive
  dsimp only
  split <;> rfl

private theorem limit_receive (c : Cursor) (count : Nat) (served : List RowSlice) :
    (c.receive count served).limit = c.limit := by
  unfold receive
  dsimp only
  split <;> rfl

variable {σ : Type}

private theorem At.delivers_finished {rows ahead : List RowSlice} {c c' : Cursor}
    (h : At rows ahead c) (hstep : c.step = .finished c') (asked : List (Bytes × Nat)) (s : σ) :
    Delivers rows c ahead asked (.finished, c', (asked, s)) := by
  have hsteps := h.steps
  rw [hstep] at hsteps
  obtain ⟨hc', hwanted, hpages⟩ := hsteps
  have hfetched : c'.fetched = c.fetched := by rw [hc']
  refine ⟨by rw [hc'], hwanted, by rw [hfetched], fun hlimit => ?_⟩
  rw [hpages hlimit, hfetched, Nat.add_zero]

private theorem At.delivers_row {rows ahead : List RowSlice} {c c' : Cursor} {row : RowSlice}
    (h : At rows ahead c) (hstep : c.step = .row row c') (asked : List (Bytes × Nat)) (s : σ) :
    Delivers rows c ahead asked (.row row, c', (asked, s)) := by
  have hsteps := h.steps
  rw [hstep] at hsteps
  obtain ⟨hat, hc', hwanted⟩ := hsteps
  have hfetched : c'.fetched = c.fetched := by rw [hc']
  refine ⟨ahead, hat, Nat.le_refl _, hwanted, by rw [hfetched], by rw [hc'], fun _ => ?_⟩
  rw [hc']
  rfl

/-- What a call delivers after a page, it delivers for the cursor that asked for the page. -/
theorem Delivers.of_fetch {rows ahead left : List RowSlice} {c c' : Cursor}
    {asked : List (Bytes × Nat)} {request : Bytes × Nat}
    {answer : Progress RowSlice × Cursor × (List (Bytes × Nat) × σ)}
    (h : Delivers rows c' left (request :: asked) answer)
    (hwanted : c.wanted (c.page ++ ahead) = c'.wanted (c'.page ++ left))
    (hlength : left.length ≤ ahead.length) (hfetched : c'.fetched = c.fetched + 1)
    (hlimit : c'.limit = c.limit)
    (hpages : c.limit = none → c.pagesLeft ahead = c'.pagesLeft left + 1) :
    Delivers rows c ahead asked answer := by
  -- The answer is that of the cursor behind the page; the page is one more in every count.
  match answer, h with
  | (.row row, c'', (asked', _)), ⟨left', hat, hlen, hrow, hasked, hl, htally⟩ =>
    refine ⟨left', hat, Nat.le_trans hlen hlength, hwanted.trans hrow, ?_, hl.trans hlimit,
      fun hnone => ?_⟩
    · rw [List.length_cons] at hasked
      omega
    · have htally := htally (hlimit.trans hnone)
      have hpages := hpages hnone
      omega
  | (.finished, c'', (asked', _)), ⟨hdone, hnil, hasked, htally⟩ =>
    refine ⟨hdone, hwanted.trans hnil, ?_, fun hnone => ?_⟩
    · rw [List.length_cons] at hasked
      omega
    · have htally := htally (hlimit.trans hnone)
      have hpages := hpages hnone
      omega

/-- A call of `next` with enough pages in its budget hands out the first wanted row, or ends the
scan if none is left. -/
theorem next_delivers {rows : List RowSlice} (hsorted : SortedByKey rows) (budget : Nat) :
    ∀ {c : Cursor} {ahead : List RowSlice} (asked : List (Bytes × Nat)) (s : σ),
      At rows ahead c → c.budgetFor ahead ≤ budget →
      Delivers rows c ahead asked
        (c.next (Source.recorded (Source.ofRows rows)) budget (asked, s)) := by
  -- By induction on the budget: a call that fetches goes on with one page less to fetch.
  induction budget with
  | zero =>
    intro c ahead asked s h hbudget
    rw [next]
    cases hstep : c.step with
    | finished c' => exact h.delivers_finished hstep asked s
    | row row c' => exact h.delivers_row hstep asked s
    | fetch start count c' =>
      -- A cursor that still asks for a page needs a budget.
      have hsteps := h.steps
      rw [hstep] at hsteps
      obtain ⟨-, -, hdone, hlast, -⟩ := hsteps
      simp [budgetFor, hdone, hlast] at hbudget
  | succ budget ih =>
    intro c ahead asked s h hbudget
    rw [next]
    cases hstep : c.step with
    | finished c' => exact h.delivers_finished hstep asked s
    | row row c' => exact h.delivers_row hstep asked s
    | fetch start count c' =>
      have hsteps := h.steps
      rw [hstep] at hsteps
      obtain ⟨hat, hc', hdone, hlast, rfl, hcount, hsize, hwanted⟩ := hsteps
      have hsame : c'.resume.getD c'.start = c.resume.getD c.start := by rw [hc']
      obtain ⟨left, hleft, hsplit, hless, hpages⟩ :=
        hat.receive hsorted (by rw [hc', hdone]) (by rw [hc']; exact hlast) (by rw [hc']) hcount
          (hsame ▸ rfl :
            c'.receive count (Source.page rows (c.resume.getD c.start) count) = _)
      simp only [budgetFor, hdone, hlast, Bool.or_self, Bool.false_eq_true, if_false] at hbudget
      -- The page brought a new row or was the last one, so the rest of the budget is enough.
      have hbudget' : (c'.receive count
          (Source.page rows (c.resume.getD c.start) count)).budgetFor left ≤ budget := by
        unfold budgetFor
        split
        · exact Nat.zero_le _
        · next hgo =>
          rcases hless with hend | hless
          · simp [hend] at hgo
          · omega
      refine (ih _ s hleft hbudget').of_fetch ?_ ?_ ?_ ?_ ?_
      · rw [wanted_receive, hsplit, hwanted, hc']
        rfl
      · have hlen := congrArg List.length hsplit
        rw [List.length_append] at hlen
        omega
      · rw [fetched_receive, hc']
      · rw [limit_receive, hc']
      · intro hnone
        have hpages := hpages (by rw [hsize hnone, hc'])
        rw [hc'] at hpages
        exact hc' ▸ hpages

/-! ## A whole scan -/

theorem budgetFor_le (c : Cursor) (ahead : List RowSlice) :
    c.budgetFor ahead ≤ ahead.length + 1 := by
  unfold budgetFor
  split <;> omega

theorem length_wanted_le (c : Cursor) (rows : List RowSlice) :
    (c.wanted rows).length ≤ rows.length := by
  have hfilter := List.length_filter_le (fun row => !c.skips row) rows
  unfold wanted
  split
  · exact Nat.le_trans (List.length_take_le' _ _) hfilter
  · exact hfilter

/-- Draining a cursor hands out every row it wants, in order, and leaves a cursor that is done. -/
theorem drain_delivers {rows : List RowSlice} (hsorted : SortedByKey rows) {budget calls : Nat} :
    ∀ {c : Cursor} {ahead : List RowSlice} (asked : List (Bytes × Nat)) (s : σ),
      At rows ahead c → ahead.length < budget → (c.wanted (c.page ++ ahead)).length < calls →
      ∃ c' asked' s', drain (Source.recorded (Source.ofRows rows)) budget calls c (asked, s) =
          some (c.wanted (c.page ++ ahead), c', (asked', s')) ∧
        c'.isDone = true ∧ asked'.length + c.fetched = asked.length + c'.fetched ∧
        (c.limit = none → c'.fetched = c.fetched + c.pagesLeft ahead) := by
  -- By induction on the calls: each hands out one of the rows that are wanted.
  induction calls with
  | zero =>
    intro c ahead asked s _ _ hcalls
    exact absurd hcalls (Nat.not_lt_zero _)
  | succ calls ih =>
    intro c ahead asked s h hbudget hcalls
    have hnext :=
      next_delivers hsorted budget asked s h (Nat.le_trans (c.budgetFor_le ahead) hbudget)
    rw [drain]
    match hanswer : c.next (Source.recorded (Source.ofRows rows)) budget (asked, s), hnext with
    | (.finished, c', (asked', s')), ⟨hdone, hnil, hasked, htally⟩ =>
      refine ⟨c', asked', s', ?_, hdone, hasked, fun hnone => (htally hnone).symm⟩
      rw [hnil]
    | (.row row, c', (asked', s')), ⟨left, hat, hlen, hrow, hasked, hlimit, htally⟩ =>
      rw [hrow, List.length_cons] at hcalls
      obtain ⟨c'', asked'', s'', hdrain, hdone, hasked', htally'⟩ :=
        ih asked' s' hat (Nat.lt_of_le_of_lt hlen hbudget) (Nat.lt_of_succ_lt_succ hcalls)
      refine ⟨c'', asked'', s'', ?_, hdone, by omega, fun hnone => ?_⟩
      · rw [hrow]
        show Option.map _ (drain _ budget calls c' (asked', s')) = _
        rw [hdrain]
        rfl
      · rw [htally' (hlimit.trans hnone), htally hnone]

/-- A cursor that has not fetched anything has the rows from its start key on ahead. -/
theorem At.of_start (rows : List RowSlice) {c : Cursor} (hbuffer : 2 ≤ c.bufferSize)
    (hdone : c.isDone = false) (hfetched : c.fetched = 0) (hresume : c.resume = none) :
    At rows (rows.filter fun row => compare row.key c.start != .lt) c where
  buffer := hbuffer
  atEnd h := by rw [hdone] at h; cases h
  atLast h := by simp [atLastPage, hfetched] at h
  unfetched _ _ := ⟨hfetched, rfl⟩
  behind key hkey := by rw [hresume] at hkey; cases hkey

/-- A drained cursor has handed out, once each and in order, the first `limit` rows from the start
key on that have entries, or that exist at all when rows without entries count. It has fetched as
many pages as it made requests. Without a limit that is one page for fewer rows than a page holds;
beyond that each page but the first brings one row less than it holds. -/
theorem drain_ofRows {rows : List RowSlice} (hsorted : SortedByKey rows) (start : Bytes)
    {bufferSize : Nat} (hbuffer : 2 ≤ bufferSize) (limit : Option Nat) (keepEmpty : Bool)
    {budget calls : Nat} (hbudget : rows.length < budget) (hcalls : rows.length < calls) (s : σ) :
    let present := rows.filter fun row => compare row.key start != .lt
    let counted := present.filter fun row => keepEmpty || !row.entries.isEmpty
    ∃ c₀ c requests s',
      ofStart start bufferSize = .ok c₀ ∧
      drain (Source.recorded (Source.ofRows rows)) budget calls
          ((c₀.withLimit limit).withEmptyRows keepEmpty) ([], s) =
        some (match limit with
              | some limit => counted.take limit
              | none => counted, c, (requests, s')) ∧
      c.isDone = true ∧ c.fetched = requests.length ∧
      (limit = none → c.fetched =
        if present.length < bufferSize then 1
        else (present.length - bufferSize) / (bufferSize - 1) + 2) := by
  intro present counted
  have hlength : present.length ≤ rows.length := List.length_filter_le _ rows
  let c : Cursor :=
    { bufferSize, limit, keepEmpty, start, page := [], resume := none, lastLength := 0,
      lastRequest := 0, fetched := 0, emitted := 0, isDone := false }
  have hat : At rows present c := At.of_start rows (c := c) hbuffer rfl rfl rfl
  -- The cursor passes over exactly the rows that do not count.
  have hcounted : (present.filter fun row => !c.skips row) = counted := by
    apply List.filter_congr
    intro row _
    simp only [skips, c, Bool.not_and, Bool.not_not, Bool.or_comm]
  have hwanted : c.wanted (c.page ++ present) =
      match limit with
      | some limit => counted.take limit
      | none => counted := by
    rw [← hcounted]
    cases limit <;> rfl
  have hcalls' : (c.wanted (c.page ++ present)).length < calls := by
    have hle := c.length_wanted_le (c.page ++ present)
    exact Nat.lt_of_le_of_lt (Nat.le_trans hle hlength) hcalls
  obtain ⟨c', asked, s', hdrain, hdone, hasked, htally⟩ :=
    drain_delivers hsorted [] s hat (Nat.lt_of_le_of_lt hlength hbudget) hcalls'
  rw [hwanted] at hdrain
  refine ⟨_, c', asked, s', if_neg (Nat.not_lt.2 hbuffer), hdrain, hdone, ?_, fun hnone => ?_⟩
  · have hfresh : c.fetched = 0 := rfl
    rw [hfresh, List.length_nil, Nat.zero_add, Nat.add_zero] at hasked
    exact hasked.symm
  · rw [htally hnone]
    show 0 + pagesFor bufferSize (present.length + 0) = _
    rw [Nat.zero_add, Nat.add_zero, pagesFor]

/-- Four rows, of which the second is a ghost without entries. -/
def rowsWithGhost : List RowSlice :=
  [⟨[1], [.counter ⟨[9], 1⟩]⟩, ⟨[2], []⟩, ⟨[3], [.counter ⟨[9], 3⟩]⟩, ⟨[4], [.counter ⟨[9], 4⟩]⟩]

/-- Pages of two rows: the ghost lies on the border of two of them, and the last page only repeats
the fourth row. -/
theorem drain_ofRows_rowsWithGhost :
    ∃ c₀ c requests s', ofStart [] 2 = .ok c₀ ∧
      drain (Source.recorded (Source.ofRows rowsWithGhost)) 5 5
          ((c₀.withLimit none).withEmptyRows false) ([], ()) =
        some ([⟨[1], [.counter ⟨[9], 1⟩]⟩, ⟨[3], [.counter ⟨[9], 3⟩]⟩, ⟨[4], [.counter ⟨[9], 4⟩]⟩],
          c, (requests, s')) ∧
      c.isDone = true ∧ c.fetched = requests.length ∧ c.fetched = 4 := by
  have hsorted : SortedByKey rowsWithGhost := by decide +kernel
  obtain ⟨c₀, c, requests, s', hstart, hdrain, hdone, hasked, hpages⟩ :=
    drain_ofRows hsorted [] (Nat.le_refl 2) none false (Nat.lt_succ_self 4) (Nat.lt_succ_self 4) ()
  refine ⟨c₀, c, requests, s', hstart, hdrain, hdone, hasked, (hpages rfl).trans ?_⟩
  decide +kernel

end WideColumn.Cursor
