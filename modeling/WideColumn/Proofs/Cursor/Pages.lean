import WideColumn.Proofs.Cursor.Pagination

/-!
# Sources that page through fixed rows

A source may do more than to answer pages, as long as the pages it answers are those of a fixed list
of rows. A cursor does the same over such a source as over the rows themselves.

- `Pages`: a source that pages through fixed rows while a property of its state holds;
- `Pages.next`, `Pages.drain`: what a cursor does over the rows, it does over such a source.
-/

namespace WideColumn.Cursor

/-! ## One page -/

theorem ne_lt_trans {a b c : Bytes} (hab : compare a b ≠ .lt) (hbc : compare b c ≠ .lt) :
    compare a c ≠ .lt :=
  Ordering.ne_lt_iff_isGE.2
    (Std.TransCmp.isGE_trans (Ordering.ne_lt_iff_isGE.1 hab) (Ordering.ne_lt_iff_isGE.1 hbc))

section Page

variable {rows : List RowSlice} {start : Bytes} {count : Nat}

theorem sorted_page (hsorted : SortedByKey rows) : SortedByKey (Source.page rows start count) :=
  (hsorted.sublist List.filter_sublist).sublist (List.take_sublist _ _)

theorem mem_of_mem_page {row : RowSlice} (h : row ∈ Source.page rows start count) :
    row ∈ rows ∧ compare row.key start ≠ .lt := by
  have hrow := List.mem_filter.1 (List.mem_of_mem_take h)
  exact ⟨hrow.1, by simpa using hrow.2⟩

/-- A row from the start key on is on the page if the page is short or reaches as far as the row. -/
theorem mem_page (hsorted : SortedByKey rows) {row : RowSlice} (hrow : row ∈ rows)
    (hstart : compare row.key start ≠ .lt)
    (hreach : (Source.page rows start count).length < count ∨
      ∃ last ∈ Source.page rows start count, compare row.key last.key ≠ .gt) :
    row ∈ Source.page rows start count := by
  have hmem : row ∈ rows.filter fun row => compare row.key start != .lt :=
    List.mem_filter.2 ⟨hrow, by simpa using hstart⟩
  -- A row from the start key on is on the page or behind it.
  rw [← List.take_append_drop count (rows.filter _), List.mem_append] at hmem
  rcases hmem with hmem | hmem
  · exact hmem
  rcases hreach with hshort | ⟨last, hlast, hle⟩
  · -- a short page leaves nothing out
    have hlength : (rows.filter fun row => compare row.key start != .lt).length ≤ count := by
      rw [Source.page, List.length_take] at hshort
      omega
    rw [List.drop_eq_nil_of_le hlength] at hmem
    cases hmem
  · -- rows behind a page have larger keys
    have hpages :=
      hsorted.sublist (List.filter_sublist (p := fun row => compare row.key start != .lt))
    rw [← List.take_append_drop count (rows.filter _)] at hpages
    have hlt := (List.pairwise_append.1 hpages).2.2 last hlast row hmem
    exact absurd (Std.OrientedCmp.gt_of_lt hlt) hle

theorem dropRepeated_sublist (resume : Option Bytes) (rows : List RowSlice) :
    (dropRepeated resume rows).Sublist rows := by
  unfold dropRepeated
  split
  · split
    · exact List.sublist_cons_self _ _
    · exact List.Sublist.refl _
  · exact List.Sublist.refl _

theorem length_le_of_dropRepeated_eq_nil {resume : Option Bytes} {rows : List RowSlice}
    (h : dropRepeated resume rows = []) : rows.length ≤ 1 := by
  unfold dropRepeated at h
  split at h
  · split at h
    · simp [h]
    · simp [h]
  · simp [h]

/-- The rows of a page behind the key it starts from are those that are left when the repeated row
is dropped. -/
theorem mem_dropRepeated {key : Bytes} (hsorted : SortedByKey rows)
    (hrows : ∀ row ∈ rows, compare row.key key ≠ .lt) {row : RowSlice} :
    row ∈ dropRepeated (some key) rows ↔ row ∈ rows ∧ compare key row.key = .lt := by
  cases rows with
  | nil => simp [dropRepeated]
  | cons first rest =>
    obtain ⟨hfirst, -⟩ := List.pairwise_cons.1 hsorted
    simp only [dropRepeated, List.mem_cons]
    -- If the first row is that of the key it is dropped, and all others are behind it.
    by_cases hkey : first.key = key
    · rw [if_pos hkey]
      constructor
      · intro h
        exact ⟨.inr h, hkey ▸ hfirst row h⟩
      · rintro ⟨rfl | h, hlt⟩
        · subst hkey
          simp at hlt
        · exact h
    · -- the first row is behind the key, and so are all others
      have hbehind : compare key first.key = .lt := by
        have hne : compare key first.key ≠ .eq := fun h =>
          hkey (Std.LawfulEqCmp.eq_of_compare h).symm
        have hgt : compare key first.key ≠ .gt := fun h =>
          hrows first List.mem_cons_self (Std.OrientedCmp.lt_of_gt h)
        cases hcmp : compare key first.key <;> simp_all
      rw [if_neg hkey, List.mem_cons]
      constructor
      · rintro (rfl | h)
        · exact ⟨.inl rfl, hbehind⟩
        · exact ⟨.inr h, Std.TransCmp.lt_trans hbehind (hfirst row h)⟩
      · exact fun h => h.1

end Page

/-! ## Sources -/

/-- A source that pages through fixed rows, from a start key or from the key of a row on and at most
`most` rows at a time, while `ok` holds of its state. -/
structure Pages {σ : Type} (source : Source σ) (rows : List RowSlice) (start : Bytes) (most : Nat)
    (ok : σ → Prop) : Prop where
  fetch : ∀ {key : Bytes} {count : Nat} {s : σ}, ok s →
    key = start ∨ (∃ row ∈ rows, row.key = key) →
    count ≤ most → ∃ s', ok s' ∧ source key count s = .ok (Source.page rows key count) s'

/-- A cursor that asks for nothing else. -/
structure Asks (rows : List RowSlice) (start : Bytes) (most : Nat) (c : Cursor) : Prop where
  starts : c.start = start
  buffer : 2 ≤ c.bufferSize
  most : c.bufferSize ≤ most
  resumes : ∀ key, c.resume = some key → ∃ row ∈ rows, row.key = key

section Asks

variable {rows : List RowSlice} {start : Bytes} {most : Nat} {c c' : Cursor}

private theorem Asks.pageSize_le (h : Asks rows start most c) : c.pageSize ≤ most := by
  have hbuffer := h.buffer
  have hmost := h.most
  unfold pageSize minBufferSize
  split <;> omega

theorem Asks.key (h : Asks rows start most c) :
    c.resume.getD c.start = start ∨ ∃ row ∈ rows, row.key = c.resume.getD c.start := by
  cases hresume : c.resume with
  | none => exact .inl h.starts
  | some key => exact .inr (h.resumes key hresume)

/-- Changes of the page, of what was handed out and of whether the scan is over make no
difference. -/
theorem Asks.of_same (h : Asks rows start most c) {page : List RowSlice} {emitted : Nat}
    {isDone : Bool} : Asks rows start most { c with page, emitted, isDone } :=
  ⟨h.starts, h.buffer, h.most, h.resumes⟩

/-- A page brings no key that is not one of the rows. -/
theorem Asks.receive (h : Asks rows start most c) (key : Bytes) (count : Nat) :
    Asks rows start most (c.receive count (Source.page rows key count)) := by
  rcases List.eq_nil_or_concat (dropRepeated c.resume (Source.page rows key count)) with
    hnil | ⟨init, last, hnew⟩
  · rw [receive_of_nil hnil]
    exact ⟨h.starts, h.buffer, h.most, h.resumes⟩
  · rw [List.concat_eq_append] at hnew
    rw [receive_of_concat hnew]
    refine ⟨h.starts, h.buffer, h.most, ?_⟩
    rintro _ ⟨⟩
    have hlast : last ∈ dropRepeated c.resume (Source.page rows key count) := by
      rw [hnew]
      exact List.mem_concat_self
    exact ⟨last, (mem_of_mem_page ((dropRepeated_sublist _ _).subset hlast)).1, rfl⟩

end Asks

/-- The ways of a step: the scan is over, a row is handed out, or a page is asked for. -/
inductive Moving (c : Cursor) : Step → Prop where
  | finished {page : List RowSlice} : Moving c (.finished { c with page, isDone := true })
  | row (hdone : c.isDone = false) (hlimit : c.atLimit = false) {row : RowSlice}
      {page : List RowSlice} : Moving c (.row row { c with page, emitted := c.emitted + 1 })
  | fetch (hdone : c.isDone = false) (hlimit : c.atLimit = false) (hmore : c.atLastPage = false) :
      Moving c (.fetch (c.resume.getD c.start) c.pageSize { c with page := [] })

theorem moving (c : Cursor) : Moving c c.step := by
  rw [step]
  split
  · exact .finished
  · next hgoing =>
    simp only [Bool.or_eq_true, not_or, Bool.not_eq_true] at hgoing
    obtain ⟨hdone, hlimit⟩ := hgoing
    split
    · exact .row hdone hlimit
    · split
      · exact .finished
      · next hmore => exact .fetch hdone hlimit (Bool.eq_false_iff.2 hmore)

section Pages

variable {σ : Type} {source : Source σ} {rows : List RowSlice} {start : Bytes} {most : Nat}
  {ok : σ → Prop}

/-- One call of `next` does the same over such a source as over the rows. -/
theorem Pages.next (h : Pages source rows start most ok) (budget : Nat) :
    ∀ {c : Cursor} {s : σ} (asked : List (Bytes × Nat)), Asks rows start most c → ok s →
      ∃ answer c' s' asked', c.next source budget s = (answer, c', s') ∧
        c.next (Source.recorded (Source.ofRows rows)) budget (asked, ()) =
        (answer, c', asked', ()) ∧
        Asks rows start most c' ∧ ok s' := by
  -- By induction on the budget: both sources answer a request with the same page.
  induction budget with
  | zero =>
    intro c s asked hasks hs
    have hmoving := moving c
    rw [Cursor.next, Cursor.next]
    generalize c.step = step at hmoving
    cases hmoving with
    | finished => exact ⟨_, _, _, _, rfl, rfl, hasks.of_same, hs⟩
    | row => exact ⟨_, _, _, _, rfl, rfl, hasks.of_same, hs⟩
    | fetch => exact ⟨_, _, _, _, rfl, rfl, hasks.of_same, hs⟩
  | succ budget ih =>
    intro c s asked hasks hs
    have hmoving := moving c
    rw [Cursor.next, Cursor.next]
    generalize c.step = step at hmoving
    cases hmoving with
    | finished => exact ⟨_, _, _, _, rfl, rfl, hasks.of_same, hs⟩
    | row => exact ⟨_, _, _, _, rfl, rfl, hasks.of_same, hs⟩
    | fetch =>
      obtain ⟨s', hs', hserved⟩ := h.fetch hs hasks.key hasks.pageSize_le
      have hasks' : Asks rows start most { c with page := [] } := hasks.of_same
      obtain ⟨answer, c', s'', asked', hnext, hnext', hrest⟩ :=
        ih ((c.resume.getD c.start, c.pageSize) :: asked)
          (hasks'.receive (c.resume.getD c.start) c.pageSize) hs'
      refine ⟨answer, c', s'', asked', ?_, hnext', hrest⟩
      simp only [hserved]
      exact hnext

/-- Draining a cursor does the same over such a source as over the rows. -/
theorem Pages.drain (h : Pages source rows start most ok) {budget calls : Nat} :
    ∀ {c c' : Cursor} {s : σ} {asked asked' : List (Bytes × Nat)} {out : List RowSlice},
      Asks rows start most c → ok s →
      drain (Source.recorded (Source.ofRows rows)) budget calls c (asked, ()) =
        some (out, c', (asked', ())) →
      ∃ s', ok s' ∧ drain source budget calls c s = some (out, c', s') := by
  -- By induction on the calls: each of them answers the same over both sources.
  induction calls with
  | zero =>
    intro c c' s asked asked' out _ _ hdrain
    cases hdrain
  | succ calls ih =>
    intro c c' s asked asked' out hasks hs hdrain
    obtain ⟨answer, c₁, s₁, asked₁, hnext, hnext', hasks₁, hs₁⟩ := h.next budget asked hasks hs
    rw [Cursor.drain, hnext'] at hdrain
    rw [Cursor.drain, hnext]
    cases answer with
    | finished =>
      cases hdrain
      exact ⟨s₁, hs₁, rfl⟩
    | row row =>
      obtain ⟨⟨rest, c₂, asked₂, ⟨⟩⟩, hrest, hout⟩ := Option.map_eq_some_iff.1 hdrain
      cases hout
      obtain ⟨s', hs', hdrained⟩ := ih hasks₁ hs₁ hrest
      refine ⟨s', hs', ?_⟩
      simp only [hdrained]
      rfl
    | failure e => cases hdrain
    | paused => cases hdrain

end Pages

/-! ## New cursors -/

/-- A cursor that has not fetched anything yet. -/
def unfetched (start : Bytes) (bufferSize : Nat) (limit : Option Nat) : Cursor where
  bufferSize
  limit
  keepEmpty := false
  start
  page := []
  resume := none
  lastLength := 0
  lastRequest := 0
  fetched := 0
  emitted := 0
  isDone := false

theorem ofStart_eq_ok {bufferSize : Nat} (hbuffer : 2 ≤ bufferSize) (start : Bytes) :
    ofStart start bufferSize = .ok (unfetched start bufferSize none) :=
  if_neg (Nat.not_lt.2 hbuffer)

/-- The first rows, as many as a limit allows. -/
def atMost {α : Type} (limit : Option Nat) (rows : List α) : List α :=
  match limit with
  | some limit => rows.take limit
  | none => rows

theorem atMost_sublist {α : Type} (limit : Option Nat) (rows : List α) :
    (atMost limit rows).Sublist rows := by
  cases limit with
  | none => exact List.Sublist.refl _
  | some limit => exact List.take_sublist _ _

theorem map_atMost {α β : Type} (f : α → β) (limit : Option Nat) (rows : List α) :
    (atMost limit rows).map f = atMost limit (rows.map f) := by
  cases limit with
  | none => rfl
  | some limit => exact List.map_take

private theorem wanted_unfetched (start : Bytes) (bufferSize : Nat) (limit : Option Nat)
    (rows : List RowSlice) :
    (unfetched start bufferSize limit).wanted rows =
      atMost limit (rows.filter fun row => !row.entries.isEmpty) := by
  have hskips : (unfetched start bufferSize limit).skips = fun row => row.entries.isEmpty :=
    funext fun row => Bool.and_true _
  rw [wanted, hskips]
  cases limit <;> rfl

/-- Draining a new cursor over a source that pages through fixed rows hands out those with entries,
as many as the limit allows. -/
theorem Pages.drain_unfetched {σ : Type} {source : Source σ} {rows : List RowSlice} {start : Bytes}
    {most : Nat} {ok : σ → Prop} (h : Pages source rows start most ok) (hsorted : SortedByKey rows)
    (hstart : (rows.filter fun row => compare row.key start != .lt) = rows) {bufferSize : Nat}
    (hbuffer : 2 ≤ bufferSize) (hmost : bufferSize ≤ most) (limit : Option Nat) {s : σ} (hs : ok s)
    {budget calls : Nat} (hbudget : rows.length < budget) (hcalls : rows.length < calls) :
    ∃ c' s', ok s' ∧ Cursor.drain source budget calls (unfetched start bufferSize limit) s =
      some (atMost limit (rows.filter fun row => !row.entries.isEmpty), c', s') := by
  have hat := At.of_start rows (c := unfetched start bufferSize limit) hbuffer rfl rfl rfl
  have hahead : (rows.filter fun row =>
      compare row.key (unfetched start bufferSize limit).start != .lt) = rows := hstart
  rw [hahead] at hat
  have hwanted := length_wanted_le (unfetched start bufferSize limit) rows
  obtain ⟨c', asked, ⟨⟩, hdrain, -⟩ :=
    drain_delivers hsorted [] () hat hbudget (Nat.lt_of_le_of_lt hwanted hcalls)
  have hasks : Asks rows start most (unfetched start bufferSize limit) :=
    ⟨rfl, hbuffer, hmost, fun _ hresume => nomatch hresume⟩
  -- What the cursor does over the rows themselves, it does over any source that pages through them.
  obtain ⟨s', hs', hdrained⟩ := h.drain hasks hs hdrain
  refine ⟨c', s', hs', hdrained.trans ?_⟩
  rw [← wanted_unfetched start bufferSize]
  rfl

end WideColumn.Cursor
