import Mathlib.Algebra.BigOperators.Group.List.Basic
import Mathlib.Algebra.Ring.Int.Defs
import WideColumn.Proofs.Store.Counters

/-!
# Counters sum up

A stored counter is the sum of what was added at its address since it was last removed, on every
path by which increments arrive and modulo 2 ^ 64, and so it does not depend on their order.

- `total`: the counter that amounts add up to;
- `Since`: the amounts that were added at an address since its counter was last removed;
- `Leads.at?_eq_total`: what steps leave at an address, by induction on the steps;
- `counters_sum`: what the counters of a table are in every reachable state.
-/

namespace WideColumn.Store

/-! ## Sums -/

/-- The counter that amounts add up to, modulo 2 ^ 64 in two's complement. Without amounts there is
none. -/
def total (amounts : List Int64) : Option Leaf :=
  if amounts = [] then none else some (.counter (Int64.ofInt (amounts.map Int64.toInt).sum))

/-- Adding in 64-bit arithmetic to a sum is the same as adding to what is summed up. -/
theorem total_append (amounts : List Int64) (amount : Option Int64) :
    total (amounts ++ amount.toList) = Leaf.plus (total amounts) amount := by
  cases amount with
  | none => rw [Option.toList_none, List.append_nil, Leaf.plus]
  | some n =>
    rw [Option.toList_some, total, if_neg (by simp), List.map_append, List.sum_append]
    rw [Int64.ofInt_add, List.map_singleton, List.sum_singleton, Int64.ofInt_toInt, total]
    by_cases hnil : amounts = []
    -- the first amount is added to zero
    · rw [if_pos hnil, hnil]
      rfl
    · rw [if_neg hnil]
      rfl

/-- The order of amounts has no part in their sum. -/
theorem total_perm {amounts amounts' : List Int64} (h : amounts.Perm amounts') :
    total amounts = total amounts' := by
  have hnil : amounts = [] ↔ amounts' = [] := by
    rw [← List.length_eq_zero_iff, ← List.length_eq_zero_iff, h.length_eq]
  simp only [total, hnil, (h.map Int64.toInt).sum_eq]

/-! ## Since the last removal -/

/-- The amounts that were added at an address. -/
def amountsAt (a : Address) (moments : List Moment) : List Int64 :=
  moments.filterMap fun moment => moment.step.amountAt a

/-- A moment at which the counter at an address was removed. -/
def Moment.Removes (moment : Moment) (a : Address) : Prop := moment.step.Removes moment.store a

/-- The amounts that were added at an address since its counter was last removed, or since the
beginning if it never was. -/
inductive Since (a : Address) (moments : List Moment) (added : List Int64) : Prop where
  | never (hkept : ∀ moment ∈ moments, ¬moment.Removes a) (hadded : amountsAt a moments = added)
  | removed {before after : List Moment} {last : Moment}
      (hsplit : moments = before ++ last :: after)
      (hlast : last.Removes a) (hkept : ∀ moment ∈ after, ¬moment.Removes a)
      (hadded : amountsAt a after = added)

section Since

variable {a : Address} {moments : List Moment} {moment : Moment} {added added' : List Int64}

private theorem amountsAt_concat (moments : List Moment) (moment : Moment) :
    amountsAt a (moments ++ [moment]) = amountsAt a moments ++ (moment.step.amountAt a).toList := by
  rw [amountsAt, List.filterMap_append, List.filterMap_cons]
  cases moment.step.amountAt a <;> rfl

/-- After a removal nothing has been added yet. -/
theorem since_of_removes (hremoves : moment.Removes a) : Since a (moments ++ [moment]) [] :=
  .removed rfl hremoves nofun rfl

private theorem forall_kept_concat (hkept : ∀ moment ∈ moments, ¬moment.Removes a)
    (hlast : ¬moment.Removes a) :
    ∀ m ∈ moments ++ [moment], ¬m.Removes a := by
  intro m hm
  rcases List.mem_append.1 hm with hm | hm
  · exact hkept m hm
  · rw [List.mem_singleton.1 hm]
    exact hlast

/-- What a step adds that removes nothing is added to the rest. -/
theorem Since.concat (h : Since a moments added) (hkept : ¬moment.Removes a) :
    Since a (moments ++ [moment]) (added ++ (moment.step.amountAt a).toList) := by
  cases h with
  | never hnever hadded =>
    refine .never (forall_kept_concat hnever hkept) ?_
    rw [amountsAt_concat, hadded]
  | @removed before after last hsplit hlast hafter hadded =>
    have hsplit' : moments ++ [moment] = before ++ last :: (after ++ [moment]) := by
      rw [hsplit, List.append_assoc, List.cons_append]
    refine .removed hsplit' hlast (forall_kept_concat hafter hkept) ?_
    rw [amountsAt_concat, hadded]

/-- The two ways in which a moment comes last. -/
theorem Since.of_concat (h : Since a (moments ++ [moment]) added) :
    (moment.Removes a ∧ added = []) ∨ (¬moment.Removes a ∧
      ∃ earlier, Since a moments earlier ∧ added = earlier ++ (moment.step.amountAt a).toList) := by
  -- the last step either removes or adds to what was added since the last removal
  cases h with
  | never hnever hadded =>
    refine .inr ⟨hnever moment (by simp), amountsAt a moments, ?_, ?_⟩
    · exact .never (fun m hm => hnever m (List.mem_append_left _ hm)) rfl
    · rw [← hadded, amountsAt_concat]
  | @removed before after last hsplit hlast hafter hadded =>
    rcases List.eq_nil_or_concat' after with rfl | ⟨after, final, rfl⟩
    · -- the moment is the last removal itself
      obtain ⟨-, heq⟩ := List.append_inj' hsplit rfl
      cases heq
      exact .inl ⟨hlast, hadded.symm⟩
    · -- the last removal stands earlier, so the last step comes after it
      rw [← List.cons_append, ← List.append_assoc] at hsplit
      obtain ⟨hmoments, heq⟩ := List.append_inj' hsplit rfl
      cases heq
      refine .inr ⟨hafter moment (by simp), amountsAt a after, ?_, ?_⟩
      · exact .removed hmoments hlast (fun m hm => hafter m (List.mem_append_left _ hm)) rfl
      · rw [← hadded, amountsAt_concat]

/-- Moments tell what was added since the last removal. -/
theorem Since.unique (h : Since a moments added) (h' : Since a moments added') :
    added = added' := by
  -- By induction on the moments, from the last one.
  induction moments using List.reverseRecOn generalizing added added' with
  | nil =>
    have hnil : ∀ {added}, Since a [] added → added = [] := by
      intro added h
      cases h with
      | never _ hadded => exact hadded.symm
      | removed hsplit => simp at hsplit
    rw [hnil h, hnil h']
  | append_singleton moments moment ih =>
    rcases h.of_concat with ⟨hremoves, rfl⟩ | ⟨hkept, earlier, hearlier, rfl⟩
    · rcases h'.of_concat with ⟨-, rfl⟩ | ⟨hkept', -⟩
      · rfl
      · exact absurd hremoves hkept'
    · rcases h'.of_concat with ⟨hremoves', -⟩ | ⟨-, earlier', hearlier', rfl⟩
      · exact absurd hremoves' hkept
      · rw [ih hearlier hearlier']

end Since

/-! ## Runs -/

/-- The rows of a table have no part in which names are exact. -/
theorem Table.countsExactly_of_emptied {t t' : Table} (h : t.emptied = t'.emptied) {w : Write}
    (hexact : t.CountsExactly w) : t'.CountsExactly w := by
  have hemptied (t : Table) : t.emptied.CountsExactly w ↔ t.CountsExactly w := by
    cases w <;> exact Iff.rfl
  rwa [← hemptied, ← h, hemptied]

/-- Exact names decode. -/
theorem Table.CountsExactly.superNameDecodes {t : Table} {w : Write} (h : t.CountsExactly w) :
    t.SuperNameDecodes w := by
  cases w with
  | increment given c =>
    cases given with
    | none => trivial
    | some name => exact (h.1 name rfl).holds
  | _ => trivial

section Run

variable {s₀ s : Store} {moments : List Moment} {name : String} {t₀ : Table}

/-- Steps that count under exact names keep a table well formed. -/
theorem Leads.exists_table (hled : Leads s₀ moments s) (hs₀ : s₀.Ordered)
    (ht₀ : s₀.table name = .ok t₀) (hwell : t₀.WellFormed)
    (hexact : ∀ w ∈ tableWrites moments name, t₀.CountsExactly w) :
    s.Ordered ∧ ∃ t, s.table name = .ok t ∧ t.emptied = t₀.emptied ∧ t.WellFormed := by
  induction hled with
  | start => exact ⟨hs₀, t₀, ht₀, rfl, hwell⟩
  | @next moments s s' change _ hstep ih =>
    -- one step keeps the definition of the table up to its rows
    obtain ⟨hs, t, ht, hsame, hwell⟩ := ih fun w hw => hexact w (mem_tableWrites_concat.2 (.inl hw))
    refine ⟨hs.step hstep, ?_⟩
    have hnames : ∀ w ∈ change.writeTo name, t.SuperNameDecodes w := by
      intro w hw
      have hexact' := hexact w (mem_tableWrites_concat.2 (.inr hw))
      exact (Table.countsExactly_of_emptied hsame.symm hexact').superNameDecodes
    obtain ⟨t', ht', hsame', hwell'⟩ := exists_table_step hs ht hwell hnames hstep
    exact ⟨t', ht', hsame'.trans hsame, hwell'⟩

/-- If nothing was stored at the address of a counter in the beginning, then what is stored there is
the sum of what was added since the last removal. -/
theorem Leads.at?_eq_total {a : Address} (hled : Leads s₀ moments s) (hs₀ : s₀.Ordered)
    (ht₀ : s₀.table a.table = .ok t₀) (hwell : t₀.WellFormed) (hcounters : t₀.holdsCounters = true)
    (hnone : s₀.at? a = none) (hexact : ∀ w ∈ tableWrites moments a.table, t₀.CountsExactly w) :
    ∃ added, Since a moments added ∧ s.at? a = total added := by
  -- By induction on the steps: a removal starts the sum again, any other step adds to it at most.
  induction hled with
  | start => exact ⟨[], .never nofun rfl, hnone⟩
  | @next moments s s' change hled hstep ih =>
    have hexact' : ∀ w ∈ tableWrites moments a.table, t₀.CountsExactly w := fun w hw =>
      hexact w (mem_tableWrites_concat.2 (.inl hw))
    obtain ⟨added, hsince, hsum⟩ := ih hexact'
    obtain ⟨hs, t, ht, hsame, hwell⟩ := hled.exists_table hs₀ ht₀ hwell hexact'
    have hcounters' : t.holdsCounters = true := (congrArg Table.holdsCounters hsame).trans hcounters
    have hchange : ∀ w ∈ change.writeTo a.table, t.CountsExactly w := fun w hw =>
      Table.countsExactly_of_emptied hsame.symm (hexact w (mem_tableWrites_concat.2 (.inr hw)))
    obtain ⟨hgone, hkept⟩ := at?_step hs ht hwell hcounters' hchange hstep
    by_cases hremoves : change.Removes s a
    · exact ⟨[], since_of_removes hremoves, hgone hremoves⟩
    · refine ⟨added ++ (change.amountAt a).toList, hsince.concat hremoves, ?_⟩
      rw [total_append, hkept hremoves, hsum]

end Run

/-! ## Main result -/

/-- A keyspace begins with tables without rows. -/
theorem begins_ofKeyspace {registry : Registry} {keyspace : KeyspaceDef} {name : String} {t : Table}
    (ht : (ofKeyspace registry keyspace).table name = .ok t) :
    t.WellFormed ∧ ∀ a : Address, a.table = name → (ofKeyspace registry keyspace).at? a = none := by
  -- the tables of a fresh store have no rows at all
  have hkept := @kept_ofKeyspace (fun t => t.rows = []) (fun _ => rfl) registry keyspace
  have hrows : t.rows = [] := hkept.holds (name, t) ((table_eq_ok_iff hkept.increasing).1 ht)
  constructor
  · refine ⟨?_, ?_⟩
    · rw [hrows]
      exact List.Pairwise.nil
    · rw [hrows]
      exact nofun
  · rintro a rfl
    have hrow : (ofKeyspace registry keyspace).row? a.table a.key = none := by
      rw [row?, ht]
      show t.rows.find? compare a.key = none
      rw [hrows]
      rfl
    rw [at?, leaf?, hrow]
    rfl

/-- In every reachable state of a counter table in which all increments came under exact names, what
is stored at an address is the sum, modulo 2 ^ 64 in two's complement, of all amounts that were
added there since the counter was last removed or the table truncated, and nothing if there were
none. So runs that since then added the same amounts there, in whichever order and on whichever
paths, have the same counter, and an increment of one counter leaves all others as they are. -/
theorem counters_sum {registry : Registry} {keyspace : KeyspaceDef} {operations : List Operation}
    {name : String} {t : Table} (ht : (ofKeyspace registry keyspace).table name = .ok t)
    (hcounters : t.holdsCounters = true)
    (hexact : ∀ w ∈ tableWrites ((ofKeyspace registry keyspace).trace operations) name,
      t.CountsExactly w) :
    let s₀ := ofKeyspace registry keyspace
    let s := s₀.run operations
    (∀ a : Address, a.table = name →
      ∃ added, Since a (s₀.trace operations) added ∧ s.at? a = total added) ∧
    (∀ operations', (∀ w ∈ tableWrites (s₀.trace operations') name, t.CountsExactly w) →
      ∀ (a : Address) added added', a.table = name → Since a (s₀.trace operations) added →
        Since a (s₀.trace operations') added' → added.Perm added' →
          (s₀.run operations').at? a = s.at? a) ∧
    ∀ (a a' : Address) amount s', a.table = name →
      t.CountsExactly (.increment a.superColumn ⟨a.column, amount⟩) →
        s.write a.key name (.increment a.superColumn ⟨a.column, amount⟩) = .ok s' → a' ≠ a →
          s'.at? a' = s.at? a' := by
  intro s₀ s
  obtain ⟨hwell, hnone⟩ := begins_ofKeyspace ht
  have hs₀ : s₀.Ordered := ordered_run registry keyspace []
  -- the first part is stated for any operations, since the second compares two such runs
  have hsum : ∀ operations', (∀ w ∈ tableWrites (s₀.trace operations') name, t.CountsExactly w) →
      ∀ a : Address, a.table = name →
        ∃ added, Since a (s₀.trace operations') added ∧
        (s₀.run operations').at? a = total added := by
    rintro operations' hexact' a rfl
    exact (leads_trace s₀ operations').at?_eq_total hs₀ ht hwell hcounters (hnone a rfl) hexact'
  refine ⟨hsum operations hexact,
    fun operations' hexact' a added added' ha hsince hsince' hperm => ?_,
    ?_⟩
  · -- both runs end at the total of what was added, and a total does not see the order
    obtain ⟨added₁, hsince₁, hadded₁⟩ := hsum operations hexact a ha
    obtain ⟨added₂, hsince₂, hadded₂⟩ := hsum operations' hexact' a ha
    rw [hadded₁, hadded₂, hsince₁.unique hsince, hsince₂.unique hsince']
    exact (total_perm hperm).symm
  · -- the table after the run counts exactly by what it was at the start
    rintro a a' amount s' rfl hnames hw hne
    obtain ⟨hs, t', ht', hsame, hwell'⟩ :=
      (leads_trace s₀ operations).exists_table hs₀ ht hwell hexact
    exact at?_increment_of_ne hs ht' hwell' (Table.countsExactly_of_emptied hsame.symm hnames)
      hw hne

/-- The fifth day. -/
def fifthDay : Bytes := [0, 0, 0, 0, 0, 0, 0, 5]

/-- Hits that are counted, removed and counted again, on all paths and beyond the largest number. -/
def hitsAgain : List Operation :=
  [.add [107] ⟨"hits", some fifthDay⟩ ⟨[97], 2⟩,
    .remove [107] ⟨"hits", some fifthDay, some [97]⟩ none,
    .add [107] ⟨"hits", some fifthDay⟩ ⟨[97], 9223372036854775807⟩,
    .batch (.push .empty [107] "hits" (.insert (.superCounter fifthDay [⟨[97], 1⟩, ⟨[98], 4⟩])))]

theorem counters_sum_hitsAgain :
    let s := (ofKeyspace .standard hits).run hitsAgain
    let a : Address := ⟨"hits", [107], some fifthDay, [97]⟩
    let b : Address := ⟨"hits", [107], some fifthDay, [98]⟩
    (∃ added, Since a ((ofKeyspace .standard hits).trace hitsAgain) added ∧ s.at? a = total added) ∧
      s.at? a = some (.counter Int64.minValue) ∧
      ∀ s', s.write [107] "hits" (.increment (some fifthDay) ⟨[97], 1⟩) = .ok s' →
        s'.at? b = some (.counter 4) := by
  intro s a b
  have htypes : (fun t : Table => (t.holdsCounters, t.comparator, t.leafComparator)) <$>
      (ofKeyspace .standard hits).table "hits" = .ok (true, .long, .utf8) := by
    decide +kernel
  obtain ⟨t, ht, heq⟩ := map_eq_ok.1 htypes
  simp only [Prod.mk.injEq] at heq
  obtain ⟨hcounters, hcomparator, hleaf⟩ := heq
  -- what the names are packed from makes them exact
  have hday : Exact t.comparator.Accepts t.comparator.compare fifthDay := by
    rw [hcomparator]
    exact DataType.exact_of_pack (v := .long 5) (by decide +kernel)
  have hname :
      ∀ name ∈ [[97], [98]], Exact t.leafComparator.Accepts t.leafComparator.compare name := by
    rw [hleaf]
    simp only [List.forall_mem_cons]
    exact ⟨DataType.exact_of_pack (v := .text "a") (by decide +kernel),
      DataType.exact_of_pack (v := .text "b") (by decide +kernel), List.forall_mem_nil _⟩
  have hincrement : ∀ name ∈ [[97], [98]], ∀ amount,
      t.CountsExactly (.increment (some fifthDay) ⟨name, amount⟩) := by
    intro name hmem amount
    refine ⟨?_, hname name hmem⟩
    rintro _ ⟨⟩
    exact hday
  have hwrites : tableWrites ((ofKeyspace .standard hits).trace hitsAgain) "hits" =
      [.increment (some fifthDay) ⟨[97], 2⟩,
        .delete (deletionAt ⟨"hits", some fifthDay, some [97]⟩ none),
        .increment (some fifthDay) ⟨[97], 9223372036854775807⟩,
        .increment (some fifthDay) ⟨[97], 1⟩, .increment (some fifthDay) ⟨[98], 4⟩] := by
    decide +kernel
  have hexact : ∀ w ∈ tableWrites ((ofKeyspace .standard hits).trace hitsAgain) "hits",
      t.CountsExactly w := by
    rw [hwrites]
    simp only [List.forall_mem_cons]
    exact ⟨hincrement _ (by simp) _, trivial, hincrement _ (by simp) _, hincrement _ (by simp) _,
      hincrement _ (by simp) _, List.forall_mem_nil _⟩
  obtain ⟨hsum, -, hothers⟩ := counters_sum ht hcounters hexact
  refine ⟨hsum a rfl, by decide +kernel, fun s' hs' => ?_⟩
  rw [hothers a b 1 s' rfl (hincrement [97] (by simp) 1) hs' (by decide)]
  decide +kernel

end WideColumn.Store
