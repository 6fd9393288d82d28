import WideColumn.Proofs.Batch
import WideColumn.Proofs.Mutation

/-!
# Batches lose nothing

A batch takes changes in until it is sent, and it is empty afterwards, whether or not the request
came through. So every mutation that it takes in is in at most one request, and until then it waits.

- `Batch.actBy`: what is done with a batch, over any way to make its requests; `Post.noted` also
  keeps what each request was handed;
- `Acts`: what one step takes in and hands over, in every case;
- `Keeps`: what a batch has taken in is what it has handed over and what still waits; kept by one
  step and by any number of steps;
- `batch_conserves`: the same for the batches of a pool, with the bound on what waits.
-/

namespace WideColumn

/-! ## Changes ask for something -/

theorem NewColumns.pairs_ne_nil {columns : NewColumns} (h : columns.isEmpty = false) :
    columns.pairs ≠ [] := by
  cases columns with
  | flat columns => simpa [isEmpty, pairs] using h
  | grouped supers =>
    intro hnil
    rw [pairs, List.flatMap_eq_nil_iff] at hnil
    have hall : (NewColumns.grouped supers).isEmpty = true :=
      List.all_eq_true.2 fun e he => List.isEmpty_iff.2 (List.map_eq_nil_iff.1 (hnil e he))
    rw [hall] at h
    cases h

/-- An insertion without columns is refused. -/
theorem Handle.ne_nil_of_insertMutations {h : Handle} {columns : NewColumns} {o : WriteOptions}
    {mutations : List Mutation} (hm : h.insertMutations columns o = .ok mutations) :
    mutations ≠ [] := by
  have hgiven : columns.isEmpty = false := by
    simp only [insertMutations, check_eq_ok] at hm
    split at hm
    · cases hm.2
    split at hm
    · cases hm.2
    · next hgiven => exact Bool.eq_false_iff.2 hgiven
  rintro rfl
  obtain ⟨-, hinserts⟩ := of_insertMutations hm
  obtain ⟨pair, hpair⟩ := List.exists_mem_of_ne_nil _ (NewColumns.pairs_ne_nil hgiven)
  obtain ⟨put, hput⟩ := exists_of_mapM hinserts.packed hpair
  cases (mem_of_mapM hinserts.packed).2 ⟨pair, hpair, hput⟩

/-- Every change that is accepted asks for a mutation. -/
theorem Change.ne_nil_of_request {c : Change} {key : Bytes} {name : String}
    {mutations : List Mutation} (hc : c.request = .ok (key, name, mutations)) : mutations ≠ [] := by
  -- Insertions without columns are refused, and the other changes are one mutation.
  cases c with
  | insert h key' columns o =>
    simp only [request, bind_eq_ok, pure_eq_ok] at hc
    obtain ⟨packed, -, mutations, hmutations, heq⟩ := hc
    cases heq
    exact Handle.ne_nil_of_insertMutations hmutations
  | remove h key' names superColumn o =>
    simp only [request, bind_eq_ok, pure_eq_ok] at hc
    obtain ⟨packed, -, deletion, -, heq⟩ := hc
    cases heq
    exact List.cons_ne_nil _ _
  | add h key' column amount superColumn =>
    simp only [request, bind_eq_ok, pure_eq_ok] at hc
    obtain ⟨packed, -, mutation, -, heq⟩ := hc
    cases heq
    exact List.cons_ne_nil _ _

namespace Batch

/-! ## Steps -/

/-- What is done with a batch. -/
inductive Action where
  /-- Adds an insertion, a removal or an addition to a counter. -/
  | queue (c : Change)
  | send

/-- A way to make the request of a batch. -/
abbrev Post (σ : Type) := MutationMap → Consistency → σ → Except ClientError Unit × σ

/-- Makes the request with a call of the pool. -/
def Post.pool {ω : Type} [Network ω] : Post (Pool × ω) := fun mutations level s =>
  match Client.call (.batchMutate mutations level) s with
  | .ok () s => (.ok (), s)
  | .error e s => (.error e, s)

/-- Makes the request in the same way, and keeps what it was handed, latest last. -/
def Post.noted {σ : Type} (post : Post σ) : Post (List MutationMap × σ) :=
  fun mutations level (sent, s) =>
    let (answer, s) := post mutations level s
    (answer, sent ++ [mutations], s)

section Steps

variable {σ : Type} (post : Post σ) (b : Batch)

/-- Sends a batch, unless it is empty. -/
def sendBy (s : σ) : Except ClientError Unit × Batch × σ :=
  if b.isEmpty then (.ok (), b, s)
  else
    let (pending, rest) := b.pending.take
    let (answer, s) := post pending b.level s
    (answer, { b with pending := rest }, s)

/-- Does something with a batch, which is sent when it has reached its size. -/
def actBy : Action → σ → Except ClientError Unit × Batch × σ
  | .queue c, s =>
    match c.queued b with
    | .ok b => if b.isFull then b.sendBy post s else (.ok (), b, s)
    | .error e => (.error e, b, s)
  | .send, s => b.sendBy post s

end Steps

/-- Does one thing after the other with a batch. -/
def runWith {σ : Type} (step : Batch → Action → σ → Except ClientError Unit × Batch × σ) :
    List Action → Batch → σ → List (Except ClientError Unit) × Batch × σ
  | [], b, s => ([], b, s)
  | a :: actions, b, s =>
    let (answer, b, s) := step b a s
    let (answers, b, s) := runWith step actions b s
    (answer :: answers, b, s)

section Pools

variable {ω : Type} [Network ω]

/-- Does something with a batch of a pool. -/
def act (b : Batch) : Action → Pool × ω → Except ClientError Unit × Batch × (Pool × ω)
  | .queue (.insert h key columns o) => b.insert h key columns o
  | .queue (.remove h key names superColumn o) => b.remove h key names superColumn o.timestamp
  | .queue (.add h key column amount superColumn) => b.add h key column amount superColumn
  | .send => b.send

private theorem sendBy_pool (b : Batch) (s : Pool × ω) : b.sendBy Post.pool s = b.send s := by
  rw [sendBy, send]
  split
  · rfl
  · simp only [Post.pool]
    cases Client.call (.batchMutate b.pending.take.1 b.level) s <;> rfl

/-- A batch of a pool makes its requests with calls of the pool. -/
theorem actBy_pool : actBy (Post.pool (ω := ω)) = act := by
  funext b a s
  have hcollect : ∀ c, b.actBy Post.pool (.queue c) s = b.collect (c.queued b) s := by
    intro c
    rw [actBy]
    cases c.queued b with
    | error e => rfl
    | ok b' =>
      show (if b'.isFull then b'.sendBy Post.pool s else (.ok (), b', s)) = b'.sendIfFull s
      rw [sendBy_pool, sendIfFull]
  cases a with
  | queue c => cases c <;> exact hcollect _
  | send => exact sendBy_pool b s

end Pools

/-! ## What is taken in and handed over -/

/-- The mutations for one row and table that an action adds. -/
def Action.accepted (key : Bytes) (table : String) : Action → List Mutation
  | .send => []
  | .queue c =>
    match c.request with
    | .ok (key', table', mutations) => if key = key' ∧ table = table' then mutations else []
    | .error _ => []

/-- What a step makes of a batch, and which maps it hands over to calls. -/
inductive Acts (b : Batch) : Action → Batch → List MutationMap → Prop where
  /-- A refused change leaves everything as it was. -/
  | refused {c : Change} {e : ClientError} (hc : c.request = .error e) : Acts b (.queue c) b []
  /-- A change waits while the batch is not full. -/
  | kept {c : Change} {key : Bytes} {name : String} {mutations : List Mutation}
      (hc : c.request = .ok (key, name, mutations)) {b' : Batch}
      (hb' : b' = { b with pending := b.pending.extend key name mutations })
      (hroom : b'.isFull = false) : Acts b (.queue c) b' []
  /-- A change that makes the batch full goes out at once, with all that waits. -/
  | filled {c : Change} {key : Bytes} {name : String} {mutations : List Mutation}
      (hc : c.request = .ok (key, name, mutations)) :
      Acts b (.queue c) { b with pending := .empty } [b.pending.extend key name mutations]
  /-- An empty batch is not sent. -/
  | idle (hb : b.isEmpty = true) : Acts b .send b []
  | sent (hb : b.isEmpty = false) : Acts b .send { b with pending := .empty } [b.pending]

section Acting

variable {σ : Type} {post : Post σ} {b : Batch} {sent : List MutationMap} {s : σ}

/-- A batch that is sent is empty after that, whatever comes of the request. -/
theorem sendBy_noted (hb : b.isEmpty = false) :
    b.sendBy post.noted (sent, s) = ((b.sendBy post s).1, { b with pending := .empty },
      sent ++ [b.pending], (b.sendBy post s).2.2) := by
  rw [sendBy, sendBy, hb]
  rfl

private theorem actBy_of_error {c : Change} {e : ClientError} (hc : c.request = .error e) :
    b.actBy post (.queue c) s = (.error e, b, s) := by
  rw [actBy, Change.queued_eq, hc]
  rfl

private theorem actBy_of_ok {c : Change} {key : Bytes} {name : String} {mutations : List Mutation}
    (hc : c.request = .ok (key, name, mutations)) {b' : Batch}
    (hb' : b' = { b with pending := b.pending.extend key name mutations }) :
    b.actBy post (.queue c) s = if b'.isFull then b'.sendBy post s else (.ok (), b', s) := by
  rw [actBy, Change.queued_eq, hc, hb']
  rfl

/-- Each step is one of these, and keeping what is handed over makes no difference to it. -/
theorem acts (post : Post σ) (b : Batch) (a : Action) (sent : List MutationMap) (s : σ) :
    ∃ handed, b.actBy post.noted a (sent, s) =
        ((b.actBy post a s).1, (b.actBy post a s).2.1, sent ++ handed, (b.actBy post a s).2.2) ∧
      Acts b a (b.actBy post a s).2.1 handed := by
  -- Whatever the answer to a request is, the batch that made it is empty.
  have hsend : ∀ {b : Batch}, b.isEmpty = false →
      (b.sendBy post s).2.1 = { b with pending := .empty } := by
    intro b hb
    rw [sendBy, hb]
    rfl
  cases a with
  | send =>
    rw [actBy, actBy]
    cases hb : b.isEmpty with
    | true =>
      have hidle : b.sendBy post s = (.ok (), b, s) := if_pos hb
      exact ⟨[], by rw [hidle, List.append_nil, sendBy, if_pos hb], by rw [hidle]; exact .idle hb⟩
    | false =>
      refine ⟨[b.pending], ?_, ?_⟩
      · rw [sendBy_noted hb, hsend hb]
      · rw [hsend hb]
        exact .sent hb
  | queue c =>
    cases hc : c.request with
    | error e =>
      rw [actBy_of_error hc, actBy_of_error hc]
      exact ⟨[], by rw [List.append_nil], .refused hc⟩
    | ok request =>
      obtain ⟨key, name, mutations⟩ := request
      rw [actBy_of_ok hc rfl, actBy_of_ok hc rfl]
      split
      · -- the mutations fill the batch, so it is not empty when it is sent
        have hb : isEmpty { b with pending := b.pending.extend key name mutations } = false :=
          b.pending.isEmpty_extend key name mutations
        refine ⟨[b.pending.extend key name mutations], ?_, ?_⟩
        · rw [sendBy_noted hb, hsend hb]
        · rw [hsend hb]
          exact .filled hc
      · -- there is room left, and nothing is sent
        next hroom =>
        exact ⟨[], by rw [List.append_nil], .kept hc rfl (Bool.eq_false_iff.2 hroom)⟩

/-- A step hands over one map at most, and then nothing waits any more. -/
theorem Acts.handed {a : Action} {b' : Batch} {handed : List MutationMap} (h : Acts b a b' handed) :
    handed.length ≤ 1 ∧ (handed ≠ [] → b'.size = 0) := by
  cases h with
  | refused | kept | idle => exact ⟨Nat.zero_le 1, fun hne => absurd rfl hne⟩
  | filled | sent => exact ⟨Nat.le_refl 1, fun _ => rfl⟩

/-- Nothing waits when a batch was sent. -/
theorem Acts.size_of_send {b' : Batch} {handed : List MutationMap} (h : Acts b .send b' handed) :
    b'.size = 0 := by
  cases h with
  | idle hb => exact MutationMap.size_of_isEmpty hb
  | sent => rfl

end Acting

/-! ## Nothing is lost -/

/-- What a batch has taken in is what it has handed over, in this order, and then what still waits,
for each row and table. Less waits than the batch may hold, and it is empty if nothing waits. -/
structure Conserved (limit : Option Nat) (done : List Action) (sent : List MutationMap)
    (b : Batch) : Prop where
  conserved : ∀ key table,
    (sent.flatMap fun m => m.changesTo key table) ++ b.pending.changesTo key table =
      done.flatMap (Action.accepted key table)
  below : ∀ most, limit = some most → b.size < max most 1
  isEmpty_iff : b.isEmpty = true ↔ b.size = 0

/-- What holds of a batch after some actions and what they have handed over. -/
structure Keeps (limit : Option Nat) (done : List Action) (sent : List MutationMap) (b : Batch) :
    Prop extends Conserved limit done sent b where
  limited : b.limit = limit
  ordered : b.pending.Ordered

section Keeping

variable {limit : Option Nat} {done : List Action} {sent : List MutationMap} {b b' : Batch}

private theorem keeps_empty (level : Consistency) (limit : Option Nat) :
    Keeps limit [] [] (empty level limit) where
  conserved _ _ := rfl
  below _ _ := Nat.lt_of_lt_of_le Nat.one_pos (Nat.le_max_right _ _)
  isEmpty_iff := ⟨fun _ => rfl, fun _ => rfl⟩
  limited := rfl
  ordered := MutationMap.ordered_empty

/-- A batch that was emptied has handed over what it has taken in. -/
theorem Keeps.emptied (h : Keeps limit done sent b) {a : Action} {handed : MutationMap}
    (hhanded : ∀ key table, handed.changesTo key table =
      b.pending.changesTo key table ++ a.accepted key table) :
    Keeps limit (done ++ [a]) (sent ++ [handed]) { b with pending := .empty } where
  conserved key table := by
    simp only [List.flatMap_append, List.flatMap_singleton, MutationMap.changesTo_empty,
      List.append_nil, hhanded, ← List.append_assoc, h.conserved]
  below _ _ := Nat.lt_of_lt_of_le Nat.one_pos (Nat.le_max_right _ _)
  isEmpty_iff := ⟨fun _ => rfl, fun _ => rfl⟩
  limited := h.limited
  ordered := MutationMap.ordered_empty

/-- An action that takes nothing in and hands nothing over. -/
theorem Keeps.idle (h : Keeps limit done sent b) {a : Action}
    (ha : ∀ key table, a.accepted key table = []) : Keeps limit (done ++ [a]) (sent ++ []) b := by
  refine { h with conserved := fun key table => ?_ }
  rw [List.append_nil, h.conserved, List.flatMap_append, List.flatMap_singleton, ha,
    List.append_nil]

private theorem changesTo_of_request (h : Keeps limit done sent b) {c : Change} {key : Bytes}
    {name : String} {mutations : List Mutation} (hc : c.request = .ok (key, name, mutations))
    (key' : Bytes) (table : String) : (b.pending.extend key name mutations).changesTo key' table =
      b.pending.changesTo key' table ++ (Action.queue c).accepted key' table := by
  rw [h.ordered.changesTo_extend, Action.accepted, hc]

/-- One step keeps it. -/
theorem Keeps.step (h : Keeps limit done sent b) {a : Action} {handed : List MutationMap}
    (hacts : Acts b a b' handed) : Keeps limit (done ++ [a]) (sent ++ handed) b' := by
  cases hacts with
  | refused hc => exact h.idle fun key table => by rw [Action.accepted, hc]
  | idle => exact h.idle fun _ _ => rfl
  | sent => exact h.emptied fun _ _ => (List.append_nil _).symm
  | filled hc => exact h.emptied (changesTo_of_request h hc)
  | @kept c key name mutations hc b' hb' hroom =>
    -- The mutations of one change have to be added to what waits. The change brings one at least.
    have hsize : b'.size = b.size + mutations.length := by
      rw [hb']
      exact h.ordered.size_extend key name mutations
    have hsome : 0 < mutations.length := List.length_pos_of_ne_nil (Change.ne_nil_of_request hc)
    constructor
    case limited => rw [hb']; exact h.limited
    case ordered => rw [hb']; exact h.ordered.extend key name mutations
    case toConserved =>
      constructor
      case conserved =>
        intro key' table
        have hpending : b'.pending = b.pending.extend key name mutations := by rw [hb']
        rw [hpending, changesTo_of_request h hc, List.append_nil, ← List.append_assoc, h.conserved,
          List.flatMap_append, List.flatMap_singleton]
      case below =>
        intro most hmost
        have hlimit : b'.limit = some most := by rw [hb', ← hmost]; exact h.limited
        simp only [isFull, hlimit, Option.any_some, decide_eq_false_iff_not] at hroom
        omega
      case isEmpty_iff =>
        have hfilled : b'.isEmpty = false := by
          rw [hb']
          exact b.pending.isEmpty_extend key name mutations
        rw [hfilled]
        exact iff_of_false Bool.false_ne_true (by omega)

/-- Any number of steps keeps it. -/
theorem Keeps.run {σ : Type} (post : Post σ) (actions : List Action) :
    ∀ {done : List Action} {sent : List MutationMap} {b : Batch} {s : σ}, Keeps limit done sent b →
      ∃ sent', runWith (actBy post.noted) actions b (sent, s) =
          ((runWith (actBy post) actions b s).1, (runWith (actBy post) actions b s).2.1, sent',
            (runWith (actBy post) actions b s).2.2) ∧
        Keeps limit (done ++ actions) sent' (runWith (actBy post) actions b s).2.1 := by
  induction actions with
  | nil => exact fun {done sent b s} h => ⟨sent, rfl, (List.append_nil done).symm ▸ h⟩
  | cons a actions ih =>
    intro done sent b s h
    -- The first step hands over what it adds, and the other steps go on from there.
    obtain ⟨handed, hact, hacts⟩ := acts post b a sent s
    obtain ⟨sent', hrun, hkeeps⟩ := ih (s := (b.actBy post a s).2.2) (h.step hacts)
    refine ⟨sent', ?_, ?_⟩
    · rw [runWith, hact]
      simp only [hrun]
      rfl
    · rw [List.append_cons]
      exact hkeeps

end Keeping

end Batch

/-! ## Batches of a pool -/

/-- A batch of a pool, after any actions and whatever has become of its requests. For each row and
table, what its calls were handed, one after the other, and then what still waits are just the
mutations that were accepted, in the order in which they were added. With a limit less than it
waits, or nothing. A change that is refused leaves batch and pool alone, and so does sending when
nothing waits. Any other step makes one call at most, and a batch that has made one is empty, as it
is whenever it was sent. -/
theorem batch_conserves {ω : Type} [Network ω] (level : Consistency) (limit : Option Nat)
    (actions : List Batch.Action) (s : Pool × ω) :
    ∃ answers b sent s',
      Batch.runWith Batch.act actions (.empty level limit) s = (answers, b, s') ∧
      Batch.runWith (Batch.actBy Batch.Post.pool.noted) actions (.empty level limit) ([], s) =
        (answers, b, sent, s') ∧
      Batch.Conserved limit actions sent b ∧
      (∀ c e, c.request = .error e →
        b.actBy Batch.Post.pool.noted (.queue c) (sent, s') = (.error e, b, sent, s')) ∧
      (b.size = 0 → b.actBy Batch.Post.pool.noted .send (sent, s') = (.ok (), b, sent, s')) ∧
      (b.act .send s').2.1.size = 0 ∧
      ∀ a, ∃ handed, b.actBy Batch.Post.pool.noted a (sent, s') =
          ((b.act a s').1, (b.act a s').2.1, sent ++ handed, (b.act a s').2.2) ∧
        handed.length ≤ 1 ∧ (handed ≠ [] → (b.act a s').2.1.size = 0) := by
  obtain ⟨sent, hrun, hkeeps⟩ :=
    (Batch.keeps_empty level limit).run Batch.Post.pool actions (s := s)
  rw [Batch.actBy_pool] at hrun hkeeps
  generalize Batch.runWith Batch.act actions (.empty level limit) s = result at hrun hkeeps ⊢
  obtain ⟨answers, b, s'⟩ := result
  -- One more step would be an action like all others.
  have hacts : ∀ a, ∃ handed, b.actBy Batch.Post.pool.noted a (sent, s') =
      ((b.act a s').1, (b.act a s').2.1, sent ++ handed, (b.act a s').2.2) ∧
        Batch.Acts b a (b.act a s').2.1 handed :=
    fun a => Batch.actBy_pool (ω := ω) ▸ Batch.acts Batch.Post.pool b a sent s'
  refine ⟨answers, b, sent, s', rfl, hrun, hkeeps.toConserved, ?_, ?_, ?_, ?_⟩
  · exact fun c e hc => Batch.actBy_of_error hc
  · exact fun hzero => if_pos (hkeeps.isEmpty_iff.2 hzero)
  · obtain ⟨handed, -, hsend⟩ := hacts .send
    exact hsend.size_of_send
  · intro a
    obtain ⟨handed, hact, hstep⟩ := hacts a
    exact ⟨handed, hact, hstep.handed⟩

end WideColumn
