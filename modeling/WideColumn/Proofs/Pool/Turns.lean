import WideColumn.Proofs.Pool.Outcome

/-!
# Servers in turn

A pool asks its servers one after the other, and its place in the rotation is a word that starts
again at zero when it is full. The number of servers need not divide the number of words, so the
rotation may jump where it starts again; each server still has its turn before all of them could
have had two.

- `Asked`: a network that also keeps the servers that were asked for a session;
- `Pool.turn`, `Pool.exists_turn_eq`: whose turn it is, and when that of a server comes, wherever
  the rotation stands;
- `Pool.Steady`: each server either accepts all along or fails transiently all along;
- `Pool.Asking`: how the attempts to open a session end then, and `Steady.openWithin`: they end so.
-/

namespace WideColumn

/-! ## Networks that keep the servers asked -/

/-- A network and the servers that were asked for a session, latest last. -/
structure Asked (ω : Type) where
  network : ω
  servers : List String

namespace Asked

variable {ω : Type}

/-- A network of which no server was asked yet. -/
def start (w : ω) : Asked ω := ⟨w, []⟩

instance [Network ω] : Network (Asked ω) where
  closing a :=
    ((Network.closing a.network).1, { a with network := (Network.closing a.network).2 })
  connect server login a :=
    ((Network.connect server login a.network).1,
      ⟨(Network.connect server login a.network).2, a.servers ++ [server]⟩)
  perform id r a :=
    ((Network.perform id r a.network).1, { a with network := (Network.perform id r a.network).2 })
  close id a := { a with network := Network.close id a.network }

variable [Network ω]

theorem connect_eq {server : String} {login : Login} {a : Asked ω} {w : ω}
    {result : Except RpcError SessionId}
    (h : Network.connect server login a.network = (result, w)) :
    Network.connect server login a = (result, ⟨w, a.servers ++ [server]⟩) := by
  show ((Network.connect server login a.network).1, Asked.mk _ _) = _
  rw [h]

private theorem closeLinks_eq (links : List Link) (a : Asked ω) :
    Pool.closeLinks links a = { a with network := Pool.closeLinks links a.network } := by
  induction links generalizing a with
  | nil => rfl
  | cons link links ih => exact ih _

private theorem ready_eq (p : Pool) (a : Asked ω) :
    p.ready a = ((p.ready a.network).1, { a with network := (p.ready a.network).2 }) := by
  rcases hclosing : Network.closing a.network with ⟨closing, w⟩
  have hclosing' : Network.closing a = (closing, { a with network := w }) := by
    show ((Network.closing a.network).1, Asked.mk _ _) = _
    rw [hclosing]
  cases closing with
  | false => rw [Pool.ready_of_open hclosing, Pool.ready_of_open hclosing']
  | true =>
    rw [Pool.ready_of_closing hclosing, Pool.ready_of_closing hclosing', Pool.close, Pool.close,
      closeLinks_eq]

private theorem connect_ready {p : Pool} {a : Asked ω} {w : ω} {result : Except RpcError SessionId}
    (h : Network.connect p.nextServer.1 (p.ready a.network).1.config.login (p.ready a.network).2 =
      (result, w)) :
    Network.connect p.nextServer.1 (p.ready a).1.config.login (p.ready a).2 =
      (result, ⟨w, a.servers ++ [p.nextServer.1]⟩) := by
  rw [ready_eq]
  exact connect_eq h

/-- Keeping the servers that are asked makes no difference to what is asked of them. -/
theorem openWithin_network (total : Nat) : ∀ (left : Nat) (p : Pool) (a : Asked ω),
    Pool.openWithin total left p a.network =
      ((Pool.openWithin total left p a).1, (Pool.openWithin total left p a).2.1,
        (Pool.openWithin total left p a).2.2.network)
  | 0, p, a => rfl
  | left + 1, p, a => by
    rcases hconnect : Network.connect p.nextServer.1 (p.ready a.network).1.config.login
      (p.ready a.network).2 with ⟨e | session, w⟩
    · rw [Pool.openWithin_of_error hconnect, Pool.openWithin_of_error (connect_ready hconnect),
        ready_eq]
      split
      · exact openWithin_network total left _ ⟨w, a.servers ++ [p.nextServer.1]⟩
      · rfl
    · rw [Pool.openWithin_of_ok hconnect, Pool.openWithin_of_ok (connect_ready hconnect), ready_eq]

end Asked

namespace Pool

/-! ## Turns -/

/-- The pool after so many turns of the rotation. -/
def turned (p : Pool) (turns : Nat) : Pool :=
  { p with rotation := p.rotation + UInt64.ofNat turns }

/-- The server whose turn comes after so many others. -/
def turn (p : Pool) (turns : Nat) : String := (p.turned turns).nextServer.1

/-- The servers that have the next turns, in order. -/
def turns (p : Pool) (number : Nat) : List String := (List.range number).map p.turn

private theorem turned_zero (p : Pool) : p.turned 0 = p := by
  rw [turned, show p.rotation + UInt64.ofNat 0 = p.rotation from UInt64.add_zero _]

private theorem turned_turned (p : Pool) (earlier later : Nat) :
    (p.turned earlier).turned later = p.turned (earlier + later) := by
  simp only [turned, UInt64.ofNat_add, UInt64.add_assoc]

private theorem turn_zero (p : Pool) : p.turn 0 = p.nextServer.1 := by
  rw [turn, turned_zero]

/-- Whose turn it is depends on the servers and on the place in the rotation. -/
theorem turn_congr {p q : Pool} (hconfig : q.config = p.config)
    (hrotation : q.rotation = p.rotation) (turns : Nat) : q.turn turns = p.turn turns := by
  simp only [turn, turned, nextServer, hconfig, hrotation]

theorem turn_mem {p : Pool} (h : p.config.servers ≠ []) (turns : Nat) :
    p.turn turns ∈ p.config.servers :=
  nextServer_mem (p := p.turned turns) h

/-- Every place has its turn before all of them could have had two. -/
theorem exists_turn {places place : Nat} (rotation : UInt64) (hplace : place < places)
    (hwords : places ≤ UInt64.size) :
    ∃ turns < places * 2, (rotation + UInt64.ofNat turns).toNat % places = place := by
  have hrotation : rotation.toNat < 2 ^ 64 := rotation.toNat_lt
  have hwords : places ≤ 2 ^ 64 := hwords
  have hturn : ∀ turns, (rotation + UInt64.ofNat turns).toNat =
      (rotation.toNat + turns) % 2 ^ 64 := by
    intro turns
    rw [UInt64.toNat_add, UInt64.toNat_ofNat', Nat.add_mod_mod]
  -- `turns` is when the place has its turn if the rotation does not start again before.
  have hrest : rotation.toNat % places < places := Nat.mod_lt _ (by omega)
  obtain ⟨turns, hturns, hround⟩ : ∃ turns < places, (rotation.toNat + turns) % places = place := by
    refine ⟨(place + places - rotation.toNat % places) % places, Nat.mod_lt _ (by omega), ?_⟩
    rw [Nat.add_mod_mod, ← Nat.mod_add_mod,
      show rotation.toNat % places + (place + places - rotation.toNat % places) = place + places by
        omega, Nat.add_mod_right, Nat.mod_eq_of_lt hplace]
  by_cases hfits : rotation.toNat + turns < 2 ^ 64
  · refine ⟨turns, by omega, ?_⟩
    rw [hturn, Nat.mod_eq_of_lt hfits, hround]
  · -- Otherwise it comes to the place after it has started again.
    refine ⟨2 ^ 64 - rotation.toNat + place, by omega, ?_⟩
    rw [hturn, show rotation.toNat + (2 ^ 64 - rotation.toNat + place) = place + 2 ^ 64 by omega,
      Nat.add_mod_right, Nat.mod_eq_of_lt (Nat.lt_of_lt_of_le hplace hwords),
      Nat.mod_eq_of_lt hplace]

/-- Every server of a pool has its turn before all of them could have had two. A list of servers in
memory is never longer than `hwords` allows. -/
theorem exists_turn_eq {p : Pool} {server : String} (hserver : server ∈ p.config.servers)
    (hwords : p.config.servers.length ≤ UInt64.size) :
    ∃ turns < p.config.servers.length * 2, p.turn turns = server := by
  obtain ⟨place, hplace, rfl⟩ := List.mem_iff_getElem.1 hserver
  obtain ⟨turns, hturns, hturn⟩ := exists_turn p.rotation hplace hwords
  refine ⟨turns, hturns, ?_⟩
  show (p.config.servers[(p.rotation + UInt64.ofNat turns).toNat %
    p.config.servers.length]?).getD "" = _
  rw [hturn, List.getElem?_eq_getElem hplace, Option.getD_some]

/-! ## Asking servers in turn -/

section Asking

variable {ω : Type} [Network ω]

/-- The pool after so many turns, up to what somebody who closes it meanwhile changes. -/
structure Rotated (ω : Type) [Network ω] (p : Pool) (turns : Nat) (q : Pool) : Prop where
  config : q.config = p.config
  rotation : q.rotation = p.rotation + UInt64.ofNat turns
  quiet : Quiet ω → q = p.turned turns

namespace Rotated

variable {p q r : Pool} {earlier later : Nat}

theorem refl (p : Pool) : Rotated ω p 0 p where
  config := rfl
  rotation := (UInt64.add_zero _).symm
  quiet _ := p.turned_zero.symm

theorem trans (h : Rotated ω p earlier q) (h' : Rotated ω q later r) :
    Rotated ω p (earlier + later) r where
  config := h'.config.trans h.config
  rotation := by rw [h'.rotation, h.rotation, UInt64.ofNat_add, UInt64.add_assoc]
  quiet hquiet := by rw [h'.quiet hquiet, h.quiet hquiet, turned_turned]

theorem ready (p : Pool) (w : ω) : Rotated ω p 1 (p.ready w).1 := by
  rcases hclosing : Network.closing w with ⟨_ | _, w'⟩
  · rw [ready_of_open hclosing]
    exact ⟨rfl, rfl, fun _ => rfl⟩
  · rw [ready_of_closing hclosing]
    refine ⟨rfl, rfl, fun hquiet => ?_⟩
    have hopen := hquiet w
    rw [hclosing] at hopen
    cases hopen

theorem turn (h : Rotated ω p earlier q) (later : Nat) :
    q.turn later = p.turn (later + earlier) := by
  have hturned : q.turn later = (p.turned earlier).turn later :=
    turn_congr (p := p.turned earlier) h.config h.rotation later
  rw [hturned, Pool.turn, turned_turned, Nat.add_comm, Pool.turn]

/-- The turn that has passed came before those that are left. -/
theorem turns (h : Rotated ω p 1 q) (number : Nat) :
    p.turns (number + 1) = p.nextServer.1 :: q.turns number := by
  rw [Pool.turns, List.range_succ_eq_map, List.map_cons, List.map_map, turn_zero, Pool.turns]
  exact congrArg _ (List.map_congr_left fun i _ => (h.turn i).symm)

end Rotated

/-- Each server has made up its mind: some accept whenever they are asked, and the others fail
transiently whenever they are. This is so in some states of a network, and nothing that happens
before a session is opened leads out of them. -/
structure Steady (login : Login) (accepts : String → Prop) (state : ω → Prop) : Prop where
  accepted : ∀ {w : ω} {server : String}, state w → accepts server →
    ∃ session w', Network.connect server login w = (.ok session, w')
  refused : ∀ {w : ω} {server : String}, state w → ¬accepts server →
    ∃ e w', Network.connect server login w = (.error e, w') ∧ e.isTransient = true ∧ state w'
  asked : ∀ {w w' : ω}, state w → Network.closing w = (false, w') → state w'
  shut : ∀ {w w' : ω} (links : List Link), state w → Network.closing w = (true, w') →
    state (closeLinks links w')

/-- How the attempts to open a session end, and after how many turns: with the first server in turn
that accepts, or, if none of them does, without a session when all attempts are made. -/
inductive Asking (accepts : String → Prop) (state : ω → Prop) (total left : Nat) (p : Pool) :
    Nat → Except ClientError Link → Pool → ω → Prop where
  | accepted {before : Nat} {session : SessionId} {q : Pool} {w w' : ω} (hleft : before < left)
      (hbefore : ∀ i < before, ¬accepts (p.turn i)) (haccepts : accepts (p.turn before))
      (hstate : state w)
      (hconnect : Network.connect (p.turn before) p.config.login w = (.ok session, w'))
      (hrotated : Rotated ω p (before + 1) q) :
      Asking accepts state total left p (before + 1) (.ok ⟨session, p.turn before, 0⟩) q.created w'
  | refused {q : Pool} {w : ω} (hrefused : ∀ i < left, ¬accepts (p.turn i)) (hstate : state w)
      (hrotated : Rotated ω p left q) :
      Asking accepts state total left p left (.error (.noServerAvailable total)) q w

section Steady

variable {accepts : String → Prop} {state : ω → Prop} {total left turns : Nat}
    {p q r : Pool} {w : ω}

/-- A server that refuses is asked before those whose turns come after it. -/
theorem Asking.of_refused {answer : Except ClientError Link}
    (h : Asking accepts state total left q turns answer r w) (hrotated : Rotated ω p 1 q)
    (hrefused : ¬accepts p.nextServer.1) :
    Asking accepts state total (left + 1) p (turns + 1) answer r w := by
  have hbefore : ∀ {number}, (∀ i < number, ¬accepts (q.turn i)) →
      ∀ i < number + 1, ¬accepts (p.turn i)
    | _, _, 0, _ => by
      rw [turn_zero]
      exact hrefused
    | _, h, i + 1, hi => by
      rw [← hrotated.turn]
      exact h i (Nat.lt_of_succ_lt_succ hi)
  cases h with
  | accepted hleft hturns haccepts hstate hconnect hrotated' =>
    have hrotated'' := Nat.add_comm 1 _ ▸ hrotated.trans hrotated'
    -- The turns of the two pools differ by one, and the login is the same.
    rw [hrotated.turn] at haccepts hconnect ⊢
    rw [hrotated.config] at hconnect
    exact .accepted (Nat.succ_lt_succ hleft) (hbefore hturns) haccepts hstate hconnect hrotated''
  | refused hturns hstate hrotated' =>
    exact .refused (hbefore hturns) hstate (Nat.add_comm 1 _ ▸ hrotated.trans hrotated')

theorem Steady.ready {login : Login} (h : Steady login accepts state) (hw : state w) (p : Pool) :
    state (p.ready w).2 := by
  rcases hclosing : Network.closing w with ⟨_ | _, w'⟩
  · rw [ready_of_open hclosing]
    exact h.asked hw hclosing
  · rw [ready_of_closing hclosing]
    exact h.shut _ hw hclosing

/-- The attempts ask the servers in turn, and end with the first one that accepts. -/
theorem Steady.openWithin {total : Nat} : ∀ {left : Nat} {p : Pool} {w : ω} (servers : List String),
    Steady p.config.login accepts state → state w → ∃ turns answer q w',
      Pool.openWithin total left p (⟨w, servers⟩ : Asked ω) =
          (answer, q, ⟨w', servers ++ p.turns turns⟩) ∧
        Asking accepts state total left p turns answer q w'
  | 0, p, w, servers, _, hw => by
    refine ⟨0, _, p, w, ?_, .refused nofun hw (.refl p)⟩
    rw [Pool.openWithin, Pool.turns, List.range_zero, List.map_nil, List.append_nil]
  | left + 1, p, w, servers, h, hw => by
    have hready := h.ready hw p
    have hrotated := Rotated.ready p w
    rw [← hrotated.config] at h
    by_cases haccepts : accepts p.nextServer.1
    · -- The first server accepts, and no other one is asked.
      obtain ⟨session, w', hconnect⟩ := h.accepted hready haccepts
      refine ⟨1, .ok ⟨session, p.nextServer.1, 0⟩, (p.ready w).1.created, w', ?_, ?_⟩
      · rw [openWithin_of_ok (Asked.connect_ready (a := ⟨w, servers⟩) hconnect), Asked.ready_eq,
          hrotated.turns, Pool.turns, List.range_zero, List.map_nil]
      · rw [hrotated.config] at hconnect
        rw [← turn_zero] at haccepts hconnect ⊢
        exact .accepted (Nat.succ_pos left) nofun haccepts hready hconnect hrotated
    · -- The attempts that are left start one turn later.
      obtain ⟨e, w', hconnect, htransient, hw'⟩ := h.refused hready haccepts
      obtain ⟨turns, answer, q, w'', hopen, hasking⟩ :=
        @Steady.openWithin total left _ _ (servers ++ [p.nextServer.1]) h hw'
      refine ⟨turns + 1, answer, q, w'', ?_, hasking.of_refused hrotated haccepts⟩
      rw [openWithin_of_error (Asked.connect_ready (a := ⟨w, servers⟩) hconnect), if_pos htransient,
        Asked.ready_eq, hopen, hrotated.turns, List.append_assoc, List.singleton_append]

/-- Opening a session asks the servers in turn, in twice as many attempts as there are servers at
most. -/
theorem Steady.openLink (h : Steady p.config.login accepts state) (hw : state w) :
    ∃ turns answer q w', p.openLink w = (answer, q, w') ∧
      p.openLink (Asked.start w) = (answer, q, ⟨w', p.turns turns⟩) ∧
      Asking accepts state (p.config.servers.length * 2) (p.config.servers.length * 2) p turns
        answer q w' := by
  obtain ⟨turns, answer, q, w', hopen, hasking⟩ := Steady.openWithin [] h hw
  refine ⟨turns, answer, q, w', ?_, hopen, hasking⟩
  have hnetwork := Asked.openWithin_network (p.config.servers.length * 2)
    (p.config.servers.length * 2) p (Asked.start w)
  rw [Asked.start, hopen] at hnetwork
  exact hnetwork

/-- All servers have a turn, so one that accepts is enough. -/
theorem Asking.exists_ok {answer : Except ClientError Link} {server : String}
    (h : Asking accepts state total (p.config.servers.length * 2) p turns answer q w)
    (hwords : p.config.servers.length ≤ UInt64.size) (hserver : server ∈ p.config.servers)
    (haccepts : accepts server) : ∃ link, answer = .ok link := by
  cases h with
  | accepted => exact ⟨_, rfl⟩
  | refused hrefused =>
    obtain ⟨i, hi, rfl⟩ := exists_turn_eq hserver hwords
    exact absurd haccepts (hrefused i hi)

end Steady

end Asking

end Pool

end WideColumn
