import WideColumn.Proofs.Cursor.Changing

/-!
# The history of a scan

A source may answer anything: pages in any order, too long or too short ones, or failures. Whatever
it answers, a cursor keeps to some rules about what it asks for and what it hands out.

- `play`: calls of `next`, with the history of all requests and answers in the order they are made;
- `Permitted`: what a request may ask for after the history before it;
- `Lawful`: what may happen after a history;
- `Tracks`: how a cursor remembers the history; kept by a page, by one call and by any number of
  calls;
- `scan_disciplined`: the rules hold over any source.
-/

namespace WideColumn.Cursor

/-! ## Histories -/

/-- A request for a page, with the answer of the source. -/
structure Request where
  start : Bytes
  count : Nat
  answer : Except ClientError (List RowSlice)

/-- What happens between a cursor, its source and whoever calls `next`. -/
inductive Event where
  | requested (r : Request)
  | answered (a : Progress RowSlice)

/-- What happened so far, latest last. -/
abbrev History := List Event

namespace History

/-- What the calls of `next` have answered. -/
def answers (history : History) : List (Progress RowSlice) :=
  history.filterMap fun event =>
    match event with
    | .answered a => some a
    | .requested _ => none

/-- The rows that were handed out. -/
def rows (history : History) : List RowSlice := handedOut history.answers

/-- The latest request. -/
def latest? (history : History) : Option Request :=
  (history.filterMap fun event =>
    match event with
    | .requested r => some r
    | .answered _ => none).getLast?

/-- A call has answered the end of the scan or a failure. -/
def Over (history : History) : Prop :=
  .answered .finished ∈ history ∨ ∃ e, .answered (.failure e) ∈ history

section Concat

variable (history : History) (r : Request) (a : Progress RowSlice)

@[simp]
theorem answers_concat_requested : answers (history ++ [.requested r]) = answers history := by
  simp [answers]

@[simp]
theorem answers_concat_answered : answers (history ++ [.answered a]) = answers history ++ [a] := by
  simp [answers]

@[simp]
theorem rows_concat_requested : rows (history ++ [.requested r]) = rows history := by
  rw [rows, answers_concat_requested, rows]

@[simp]
theorem rows_concat_answered : rows (history ++ [.answered a]) = rows history ++ handedOut [a] := by
  rw [rows, answers_concat_answered, handedOut_concat, rows]

@[simp]
theorem latest?_concat_requested : latest? (history ++ [.requested r]) = some r := by
  simp [latest?]

@[simp]
theorem latest?_concat_answered : latest? (history ++ [.answered a]) = latest? history := by
  simp [latest?]

@[simp]
theorem over_concat_requested : Over (history ++ [.requested r]) ↔ Over history := by
  simp [Over]

private theorem over_concat_answered :
    Over (history ++ [.answered a]) ↔ Over history ∨ a = .finished ∨ ∃ e, a = .failure e := by
  simp only [Over, List.mem_append, List.mem_singleton, Event.answered.injEq]
  grind

end Concat

end History

section Play

variable {σ : Type}

/-- A source beside the history of a scan, to which it adds the requests. -/
def Source.noted (source : Source σ) : Source (History × σ) :=
  fun start count (history, s) =>
    match source start count s with
    | .ok rows s => .ok rows (history ++ [.requested ⟨start, count, .ok rows⟩], s)
    | .error e s => .error e (history ++ [.requested ⟨start, count, .error e⟩], s)

/-- Calls of `next` one after the other, each with a budget of pages of its own, and the history
that they go on with. -/
def play (source : Source σ) : List Nat → Cursor → History × σ → History × Cursor × σ
  | [], c, (history, s) => (history, c, s)
  | budget :: budgets, c, (history, s) =>
    let (answer, c, (history, s)) := c.next (Source.noted source) budget (history, s)
    play source budgets c (history ++ [.answered answer], s)

/-- Taking notes of the requests makes no difference to a call. -/
theorem next_noted (source : Source σ) : ∀ (budget : Nat) (c : Cursor) (history : History) (s : σ),
    ∃ history', c.next (Source.noted source) budget (history, s) =
        ((c.next source budget s).1, (c.next source budget s).2.1, history',
          (c.next source budget s).2.2) ∧ history'.answers = history.answers := by
  intro budget
  -- By induction on the budget: each request adds no answer.
  induction budget with
  | zero =>
    intro c history s
    rw [Cursor.next, Cursor.next]
    cases c.step <;> exact ⟨history, rfl, rfl⟩
  | succ budget ih =>
    intro c history s
    rw [Cursor.next, Cursor.next]
    cases c.step with
    | finished c => exact ⟨history, rfl, rfl⟩
    | row row c => exact ⟨history, rfl, rfl⟩
    | fetch start count c =>
      simp only [Source.noted]
      cases source start count s with
      | error e s => exact ⟨_, rfl, history.answers_concat_requested _⟩
      | ok rows s =>
        obtain ⟨history', hnext, hanswers⟩ :=
          ih (c.receive count rows) (history ++ [.requested ⟨start, count, .ok rows⟩]) s
        exact ⟨history', hnext, hanswers.trans (history.answers_concat_requested _)⟩

/-- Calls whose history is kept are the calls themselves. -/
theorem play_eq_calls (source : Source σ) (budgets : List Nat) :
    ∀ (c : Cursor) (history : History) (s : σ),
      ∃ history', play source budgets c (history, s) =
          (history', (calls source budgets c s).2.1, (calls source budgets c s).2.2) ∧
        history'.answers = history.answers ++ (calls source budgets c s).1 := by
  induction budgets with
  | nil => exact fun c history s => ⟨history, rfl, (List.append_nil _).symm⟩
  | cons budget budgets ih =>
    intro c history s
    -- A call notes its requests and then its answer, and the other calls go on from that history.
    obtain ⟨history₁, hnext, hanswers⟩ := next_noted source budget c history s
    obtain ⟨history', hplay, hanswers'⟩ := ih (c.next source budget s).2.1
      (history₁ ++ [.answered (c.next source budget s).1]) (c.next source budget s).2.2
    refine ⟨history', ?_, ?_⟩
    · rw [play, hnext]
      exact hplay
    · rw [hanswers', History.answers_concat_answered, hanswers, List.append_assoc]
      rfl

end Play

/-! ## The rules -/

/-- What a request may ask for after the history before it, in a scan from a key on with pages of at
most `bufferSize` rows and a limit. -/
structure Permitted (start : Bytes) (bufferSize : Nat) (limit : Option Nat) (before : History)
    (r : Request) : Prop where
  /-- Behind the end of the scan or a failure nothing is asked for. -/
  notOver : ¬before.Over
  first : before.latest? = none → r.start = start
  /-- A request goes on at the last row of the page before, which was not a short one. -/
  next : ∀ r₀, before.latest? = some r₀ → ∃ rows last, r₀.answer = .ok rows ∧
    rows.getLast? = some last ∧ r.start = last.key ∧ r₀.count ≤ rows.length
  atLeast : 2 ≤ r.count
  atMost : r.count ≤ bufferSize
  /-- Rows are still wanted, and one row more than these is asked for at most. -/
  needed : ∀ most, limit = some most →
    before.rows.length < most ∧ r.count ≤ max 2 (most - before.rows.length + 1)

/-- What may happen after a history. Behind the end of the scan or a failure there is nothing but
the answer that the scan is over. -/
inductive Lawful (start : Bytes) (bufferSize : Nat) (limit : Option Nat) (before : History) :
    Event → Prop where
  | requested {r : Request} (h : Permitted start bufferSize limit before r) :
      Lawful start bufferSize limit before (.requested r)
  | answered {a : Progress RowSlice} (h : before.Over → a = .finished) :
      Lawful start bufferSize limit before (.answered a)

/-- The rules that a history keeps to, and what its cursor says about it. -/
structure Disciplined (start : Bytes) (bufferSize : Nat) (limit : Option Nat) (history : History)
    (c : Cursor) : Prop where
  lawful : ∀ before event after, history = before ++ event :: after →
    Lawful start bufferSize limit before event
  ended : .answered .finished ∈ history → c.isDone = true
  counted : c.emitted = history.rows.length
  limited : ∀ most, limit = some most → c.emitted ≤ most

/-- A cut through a history with one event more is the cut in front of that event, or one through
the history without it. -/
theorem cut_concat {history before after : History} {event new : Event}
    (h : history ++ [new] = before ++ event :: after) :
    (before = history ∧ event = new) ∨ ∃ rest, history = before ++ event :: rest := by
  rcases List.eq_nil_or_concat after with rfl | ⟨rest, last, rfl⟩
  · obtain ⟨rfl, heq⟩ := List.append_inj' h rfl
    cases heq
    exact .inl ⟨rfl, rfl⟩
  · rw [List.concat_eq_append, ← List.cons_append, ← List.append_assoc] at h
    exact .inr ⟨rest, (List.append_inj' h rfl).1⟩

/-! ## What a cursor remembers -/

/-- A cursor that is not through remembers where its latest page ended and how long it was. -/
def Recalls (c : Cursor) : Option Request → Prop
  | none => c.resume = none
  | some r => ∃ rows last, r.answer = .ok rows ∧ rows.getLast? = some last ∧
      c.resume = some last.key ∧ 0 < c.fetched ∧ c.lastRequest = r.count ∧
      c.lastLength = rows.length

/-- A cursor in the middle of a scan with a history. -/
structure Tracks (start : Bytes) (bufferSize : Nat) (limit : Option Nat) (history : History)
    (c : Cursor) : Prop where
  starts : c.start = start
  sized : c.bufferSize = bufferSize
  bounded : c.limit = limit
  buffer : 2 ≤ bufferSize
  ends : history.Over → c.isDone = true
  recalls : c.isDone = false → c.Recalls history.latest?
  disciplined : Disciplined start bufferSize limit history c

section Tracks

variable {start : Bytes} {bufferSize : Nat} {limit : Option Nat} {history : History} {c : Cursor}

/-- An event that may happen adds no row to the history, or one that the cursor counts. -/
theorem Disciplined.concat (h : Disciplined start bufferSize limit history c) {event : Event}
    (hevent : Lawful start bufferSize limit history event) {c' : Cursor}
    (hended : .answered .finished ∈ history ++ [event] → c'.isDone = true)
    (hcounted : c'.emitted = (History.rows (history ++ [event])).length)
    (hlimited : ∀ most, limit = some most → c'.emitted ≤ most) :
    Disciplined start bufferSize limit (history ++ [event]) c' where
  lawful before event' after hcut := by
    rcases cut_concat hcut with ⟨rfl, rfl⟩ | ⟨rest, hrest⟩
    · exact hevent
    · exact h.lawful before event' rest hrest
  ended := hended
  counted := hcounted
  limited := hlimited

namespace Tracks

private theorem not_over (h : Tracks start bufferSize limit history c) (hdone : c.isDone = false) :
    ¬history.Over := by
  intro hover
  rw [h.ends hover] at hdone
  cases hdone

/-- An answer changes the page, the count of rows and whether the scan is over. -/
theorem answered (h : Tracks start bufferSize limit history c) {a : Progress RowSlice} {c' : Cursor}
    (hsame : c' = { c with page := c'.page, emitted := c'.emitted, isDone := c'.isDone })
    (hlawful : history.Over → a = .finished)
    (hdone : c'.isDone = false → c.isDone = false ∧ a ≠ .finished ∧ ∀ e, a ≠ .failure e)
    (hcounted : c'.emitted = c.emitted + (handedOut [a]).length)
    (hlimited : ∀ most, c.limit = some most → c'.emitted ≤ most) :
    Tracks start bufferSize limit (history ++ [.answered a]) c' := by
  -- Once the scan is over, the cursor says so.
  have hover : History.Over (history ++ [.answered a]) → c'.isDone = true := by
    rw [History.over_concat_answered]
    intro hover
    by_contra hgoing
    obtain ⟨hbefore, hfinished, hfailure⟩ := hdone (Bool.eq_false_iff.2 hgoing)
    rcases hover with hover | rfl | ⟨e, rfl⟩
    · exact h.not_over hbefore hover
    · exact hfinished rfl
    · exact hfailure e rfl
  constructor
  case starts => rw [hsame]; exact h.starts
  case sized => rw [hsame]; exact h.sized
  case bounded => rw [hsame]; exact h.bounded
  case buffer => exact h.buffer
  case ends => exact hover
  -- A cursor that goes on has handed out a row or paused, and keeps what it knows of the last page.
  case recalls =>
    intro hgoing
    rw [History.latest?_concat_answered, hsame]
    exact h.recalls (hdone hgoing).1
  case disciplined =>
    refine h.disciplined.concat (.answered hlawful) (fun hmem => hover (.inl hmem)) ?_ ?_
    · rw [History.rows_concat_answered, List.length_append, hcounted, h.disciplined.counted]
    · exact fun most hmost => hlimited most (h.bounded.trans hmost)

/-- The rows that were handed out are no more than wanted. -/
theorem within (h : Tracks start bufferSize limit history c) :
    ∀ most, c.limit = some most → c.emitted ≤ most :=
  fun most hmost => h.disciplined.limited most (h.bounded.symm.trans hmost)

/-! ### Requests -/

/-- What a cursor asks for when it is not through is permitted. -/
theorem permitted (h : Tracks start bufferSize limit history c) (hdone : c.isDone = false)
    (hlimit : c.atLimit = false) (hmore : c.atLastPage = false)
    (answer : Except ClientError (List RowSlice)) :
    Permitted start bufferSize limit history ⟨c.resume.getD c.start, c.pageSize, answer⟩ := by
  have hrecalls := h.recalls hdone
  constructor
  case notOver => exact h.not_over hdone
  case first =>
    intro hnone
    rw [hnone] at hrecalls
    show c.resume.getD c.start = start
    rw [show c.resume = none from hrecalls, Option.getD_none, h.starts]
  case next =>
    intro r₀ hr₀
    rw [hr₀] at hrecalls
    obtain ⟨rows, last, hanswer, hlast, hresume, hfetched, hrequest, hlength⟩ := hrecalls
    refine ⟨rows, last, hanswer, hlast, by rw [hresume, Option.getD_some], ?_⟩
    -- a short page would have been the last one
    simp only [atLastPage, hfetched, decide_true, Bool.true_and, decide_eq_false_iff_not] at hmore
    omega
  case atLeast =>
    show 2 ≤ c.pageSize
    have hbuffer := h.sized ▸ h.buffer
    unfold pageSize minBufferSize
    split <;> omega
  case atMost =>
    show c.pageSize ≤ bufferSize
    have hbuffer := h.buffer
    have hsized := h.sized
    unfold pageSize minBufferSize
    split <;> omega
  case needed =>
    intro most hmost
    have hcounted := h.disciplined.counted
    have hcap : c.limit = some most := h.bounded.trans hmost
    simp only [atLimit, hcap, Option.any_some, decide_eq_false_iff_not] at hlimit
    have hsize : c.pageSize = max (min (most - c.emitted + 1) c.bufferSize) 2 := by
      simp only [pageSize, hcap, minBufferSize]
    refine ⟨by omega, ?_⟩
    show c.pageSize ≤ _
    omega

/-- A request that is permitted leaves the count of rows and the latest answers as they are. -/
theorem disciplined_requested (h : Tracks start bufferSize limit history c)
    (hdone : c.isDone = false) {r : Request} (hr : Permitted start bufferSize limit history r)
    {c' : Cursor} (hemitted : c'.emitted = c.emitted) :
    Disciplined start bufferSize limit (history ++ [.requested r]) c' := by
  refine h.disciplined.concat (.requested hr) (fun hmem => ?_) ?_ ?_
  · exact absurd (History.over_concat_requested history r |>.1 (.inl hmem)) (h.not_over hdone)
  · rw [History.rows_concat_requested, hemitted, h.disciplined.counted]
  · rw [hemitted]
    exact h.disciplined.limited

end Tracks

/-- A page ends with its last new row. -/
theorem getLast?_of_dropRepeated {resume : Option Bytes} {rows init : List RowSlice}
    {last : RowSlice}
    (h : dropRepeated resume rows = init ++ [last]) : rows.getLast? = some last := by
  have hsuffix : dropRepeated resume rows <:+ rows := by
    unfold dropRepeated
    split
    · split
      · exact List.suffix_cons _ _
      · exact List.suffix_refl _
    · exact List.suffix_refl _
  obtain ⟨repeated, hrows⟩ := hsuffix
  rw [← hrows, h, ← List.append_assoc, List.getLast?_append, List.getLast?_singleton,
    Option.some_or]

namespace Tracks

/-- A page is remembered by its last row and its length, or ends the scan. -/
theorem receive (h : Tracks start bufferSize limit history c) (hdone : c.isDone = false)
    (hlimit : c.atLimit = false) (hmore : c.atLastPage = false) (rows : List RowSlice) :
    Tracks start bufferSize limit
      (history ++ [.requested ⟨c.resume.getD c.start, c.pageSize, .ok rows⟩])
      ({ c with page := [] }.receive c.pageSize rows) := by
  -- The next request is permitted, since the cursor is neither at its limit nor on the last page.
  have hpermitted := h.permitted hdone hlimit hmore (.ok rows)
  have hnot :
      ¬History.Over (history ++ [.requested ⟨c.resume.getD c.start, c.pageSize, .ok rows⟩]) :=
    fun hover => h.not_over hdone ((History.over_concat_requested _ _).1 hover)
  rcases List.eq_nil_or_concat (dropRepeated { c with page := [] }.resume rows) with
    hnil | ⟨init, last, hnew⟩
  · -- nothing new came, and the scan is over
    rw [receive_of_nil hnil]
    exact ⟨h.starts, h.sized, h.bounded, h.buffer, fun _ => rfl, nofun,
      h.disciplined_requested hdone hpermitted rfl⟩
  · -- the last row of the page is where the next one starts
    rw [List.concat_eq_append] at hnew
    rw [receive_of_concat hnew]
    refine ⟨h.starts, h.sized, h.bounded, h.buffer, fun hover => absurd hover hnot, fun _ => ?_,
      h.disciplined_requested hdone hpermitted rfl⟩
    rw [History.latest?_concat_requested]
    exact ⟨rows, last, rfl, getLast?_of_dropRepeated hnew, rfl, Nat.succ_pos _, rfl, rfl⟩

/-- A failure of the source ends the scan. -/
theorem fail (h : Tracks start bufferSize limit history c) (hdone : c.isDone = false)
    (hlimit : c.atLimit = false) (hmore : c.atLastPage = false) (e : ClientError) :
    Tracks start bufferSize limit
      (history ++ [.requested ⟨c.resume.getD c.start, c.pageSize, .error e⟩] ++
        [.answered (.failure e)]) { c with page := [], isDone := true } := by
  have hpermitted := h.permitted hdone hlimit hmore (.error e)
  have hrefused : Tracks start bufferSize limit
      (history ++ [.requested ⟨c.resume.getD c.start, c.pageSize, .error e⟩])
      { c with page := [], isDone := true } :=
    ⟨h.starts, h.sized, h.bounded, h.buffer, fun _ => rfl, nofun,
      h.disciplined_requested hdone hpermitted rfl⟩
  refine hrefused.answered rfl (fun hover => ?_) nofun rfl h.within
  exact absurd ((History.over_concat_requested _ _).1 hover) (h.not_over hdone)

/-! ### Calls -/

/-- A row is handed out while rows are still wanted. -/
theorem hand (h : Tracks start bufferSize limit history c) (hdone : c.isDone = false)
    (hlimit : c.atLimit = false) (row : RowSlice) (page : List RowSlice) :
    Tracks start bufferSize limit (history ++ [.answered (.row row)])
      { c with page, emitted := c.emitted + 1 } := by
  refine h.answered rfl (fun hover => absurd hover (h.not_over hdone))
    (fun _ => ⟨hdone, nofun, nofun⟩) rfl fun most hmost => ?_
  simp only [atLimit, hmost, Option.any_some, decide_eq_false_iff_not] at hlimit
  exact Nat.lt_of_not_le hlimit

/-- A call goes on with the history. -/
theorem next {σ : Type} {source : Source σ} (budget : Nat) {c c' : Cursor}
    {history history' : History} {s s' : σ} {answer : Progress RowSlice}
    (h : Tracks start bufferSize limit history c)
    (hnext : c.next (Source.noted source) budget (history, s) = (answer, c', history', s')) :
    Tracks start bufferSize limit (history' ++ [.answered answer]) c' := by
  have hmoving := moving c
  rw [Cursor.next] at hnext
  -- What the step decides is looked at first; only a step that fetches makes a request.
  generalize c.step = step at hmoving hnext
  cases hmoving with
  | finished =>
    cases hnext
    exact h.answered rfl (fun _ => rfl) (fun hgoing => Bool.noConfusion hgoing) rfl h.within
  | row hdone hlimit =>
    cases hnext
    exact h.hand hdone hlimit _ _
  | fetch hdone hlimit hmore =>
    cases budget with
    | zero =>
      cases hnext
      exact h.answered rfl (fun hover => absurd hover (h.not_over hdone))
        (fun _ => ⟨hdone, by simp, by simp⟩) rfl h.within
    | succ budget =>
      simp only [Source.noted] at hnext
      cases hserved : source (c.resume.getD c.start) c.pageSize s with
      | error e s₁ =>
        simp only [hserved] at hnext
        cases hnext
        exact h.fail hdone hlimit hmore e
      | ok rows s₁ =>
        simp only [hserved] at hnext
        exact next budget (h.receive hdone hlimit hmore rows) hnext

/-- So does any number of calls. -/
theorem play {σ : Type} {source : Source σ} {budgets : List Nat} :
    ∀ {c c' : Cursor} {history history' : History} {s s' : σ},
      Tracks start bufferSize limit history c →
      Cursor.play source budgets c (history, s) = (history', c', s') →
      Tracks start bufferSize limit history' c' := by
  induction budgets with
  | nil =>
    intro c c' history history' s s' h hplay
    cases hplay
    exact h
  | cons budget budgets ih =>
    intro c c' history history' s s' h hplay
    -- One call keeps what the cursor remembers, and so do the others.
    cases hnext : c.next (Source.noted source) budget (history, s) with
    | mk answer rest =>
      obtain ⟨c₁, history₁, s₁⟩ := rest
      rw [Cursor.play, hnext] at hplay
      exact ih (h.next budget hnext) hplay

/-- A new cursor has no history. -/
theorem ofStart {start : Bytes} {bufferSize : Nat} (hbuffer : 2 ≤ bufferSize) (limit : Option Nat)
    (keepEmpty : Bool) :
    Tracks start bufferSize limit [] { unfetched start bufferSize limit with keepEmpty } where
  starts := rfl
  sized := rfl
  bounded := rfl
  buffer := hbuffer
  ends := by simp [History.Over]
  recalls _ := rfl
  disciplined := by
    refine ⟨fun before event after hcut => ?_, nofun, rfl, fun _ _ => Nat.zero_le _⟩
    cases before <;> cases hcut

end Tracks

end Tracks

/-! ## Any source -/

/-- Over any source, whatever it answers, and for any number of calls of `next`: behind the end of
the scan or a failure, which is the only one, there is nothing but the answer that the scan is over,
and the cursor says so. It counts the rows that it has handed out, never more than the limit. The
first request starts at the start key, and every other at the last row of the page before, which was
not a short one. Each asks for two rows at least and for no more than the buffer holds or the limit
still needs, with one row for the repeated one, and for nothing if the limit is reached. -/
theorem scan_disciplined {σ : Type} (source : Source σ) (start : Bytes) {bufferSize : Nat}
    (hbuffer : 2 ≤ bufferSize) (limit : Option Nat) (keepEmpty : Bool)
    (budgets : List Nat) (s : σ) :
    ∃ c₀ answers history c s', ofStart start bufferSize = .ok c₀ ∧
      calls source budgets ((c₀.withLimit limit).withEmptyRows keepEmpty) s = (answers, c, s') ∧
      play source budgets ((c₀.withLimit limit).withEmptyRows keepEmpty) ([], s) =
      (history, c, s') ∧
      history.answers = answers ∧ Disciplined start bufferSize limit history c := by
  obtain ⟨history, hplay, hanswers⟩ :=
    play_eq_calls source budgets { unfetched start bufferSize limit with keepEmpty } [] s
  have htracks := (Tracks.ofStart hbuffer limit keepEmpty).play hplay
  exact ⟨_, _, history, _, _, ofStart_eq_ok hbuffer start, rfl, hplay, hanswers,
    htracks.disciplined⟩

/-- A row with one counter. -/
def counterRow (key : UInt8) : RowSlice := ⟨[key], [.counter ⟨[9], 1⟩]⟩

/-- A source with two pages out of order and a failure: the last key of each page is where the next
request starts, and behind the failure the scan is over. -/
theorem scan_disciplined_unsorted :
    2 ≤ 2 ∧ ∃ c s', ∃ history : History,
      history = [
        .requested ⟨[5], 2, .ok [counterRow 8, counterRow 3]⟩,
        .answered (.row (counterRow 8)), .answered (.row (counterRow 3)),
        .requested ⟨[3], 2, .ok [counterRow 3, counterRow 7]⟩,
        .answered (.row (counterRow 7)),
        .requested ⟨[7], 2, .error .poolClosed⟩,
        .answered (.failure .poolClosed), .answered .finished] ∧
      calls Source.ofPages [1, 1, 1, 1, 1] (unfetched [5] 2 (some 9))
          [.ok [counterRow 8, counterRow 3], .ok [counterRow 3, counterRow 7], .error .poolClosed] =
        (history.answers, c, s') ∧
      Disciplined [5] 2 (some 9) history c := by
  obtain ⟨c₀, answers, history, c, s', hstart, hcalls, hplay, hanswers, hdisciplined⟩ :=
    scan_disciplined Source.ofPages [5] (Nat.le_refl 2) (some 9) false [1, 1, 1, 1, 1]
      [.ok [counterRow 8, counterRow 3], .ok [counterRow 3, counterRow 7], .error .poolClosed]
  cases hstart
  -- The history is found by running the scan, and the rules hold of it by the theorem.
  refine ⟨Nat.le_refl 2, c, s', history, ?_, hanswers ▸ hcalls, hdisciplined⟩
  exact (congrArg Prod.fst hplay).symm.trans rfl

end WideColumn.Cursor
