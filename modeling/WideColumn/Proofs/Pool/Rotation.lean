import WideColumn.Proofs.Pool.Accounting
import WideColumn.Proofs.Pool.Serving
import WideColumn.Proofs.Pool.Turns

/-!
# The rotation over the servers

The rotation brings every server its turn, so a pool opens a session as long as one of its servers
accepts it, and when it gives up it has asked them all.

- `Cluster.steady`: which servers of a cluster accept sessions depends on which are up;
- `Pool.exists_openLink`: one server that is up is enough to open a session;
- `Pool.openLink_rotates`: which server opens the session, or what was tried in vain, on any
  network.
-/

namespace WideColumn

/-- A server that is down refuses every connection. -/
theorem Cluster.connect_of_down {c : Cluster} {server : String} (hdown : server ∈ c.down)
    (login : Login) :
    connect server login c =
      (.error (.transport ("connection refused by " ++ server)), c.record connectOperation) := by
  have hcontains : (c.record connectOperation).down.contains server = true := by
    simpa [record] using hdown
  simp only [connect, hcontains, if_true]

/-- A server that is down answers no calls. -/
theorem Cluster.perform_of_down {α : Type} {c : Cluster} {id : SessionId} {server : String}
    (hsession : c.sessions[id]? = some ⟨server, true⟩) (hdown : server ∈ c.down) (r : Rpc α) :
    c.perform id r = (.error (.transport (server ++ " is down")), c.record r.operation) := by
  have hsession' : (c.record r.operation).sessions[id]? = some ⟨server, true⟩ := hsession
  have hcontains : (c.record r.operation).down.contains server = true := by
    simpa [record] using hdown
  simp only [perform, enter, hsession', hcontains, Bool.not_true, Bool.false_eq_true,
    if_false, if_true]

/-- While no failure waits and the login is right, the servers that are up accept sessions and the
others refuse them; meanwhile only calls are counted. -/
theorem Cluster.steady {c : Cluster} {login : Login} (hfaults : c.faults = [])
    (hlogin : c.checkLogin login = .ok ()) :
    Pool.Steady login (· ∉ c.down) fun c' : Cluster => ∃ calls, c' = { c with calls := calls } where
  accepted := by
    rintro _ server ⟨calls, rfl⟩ hup
    exact ⟨_, _, connect_eq (c := { c with calls := calls }) hup hfaults hlogin⟩
  refused := by
    rintro _ server ⟨calls, rfl⟩ hdown
    exact ⟨_, _, connect_of_down (c := { c with calls := calls }) (Decidable.not_not.1 hdown) login,
      rfl, _, rfl⟩
  asked := by
    rintro _ _ hstate hclosing
    cases hclosing
    exact hstate
  shut := by
    rintro _ _ _ _ hclosing
    cases hclosing

namespace Pool

/-! ## Opening a session with some servers down -/

/-- A pool has opened a session with a server that is up. The rotation has advanced, and the new
session is the only news to the cluster. -/
structure Opened (p : Pool) (c : Cluster) (link : Link) (p' : Pool) (c' : Cluster) : Prop where
  up : link.server ∉ c.down
  session : link.session = c.sessions.length
  pool : ∃ rotation, p' = { p with rotation := rotation }.created
  cluster : ∃ calls, c' =
    { c with calls := calls, sessions := c.sessions ++ [⟨link.server, true⟩] }

/-- One server that is up is enough to open a session. -/
theorem exists_openLink {p : Pool} {c : Cluster}
    (hup : ∃ server ∈ p.config.servers, server ∉ c.down)
    (hwords : p.config.servers.length ≤ UInt64.size) (hfaults : c.faults = [])
    (hlogin : c.checkLogin p.config.login = .ok ()) :
    ∃ link p' c', p.openLink c = (.ok link, p', c') ∧ Opened p c link p' c' := by
  obtain ⟨server, hserver, hserverUp⟩ := hup
  obtain ⟨turns, answer, p', c', hopen, -, hasking⟩ :=
    (Cluster.steady hfaults hlogin).openLink ⟨c.calls, rfl⟩
  -- A server that is up has its turn, so the attempts end with a session.
  obtain ⟨link, rfl⟩ := hasking.exists_ok hwords hserver hserverUp
  cases hasking with
  | @accepted before _ _ w _ _ _ hturn hstate hconnect hrotated =>
    obtain ⟨calls, rfl⟩ := hstate
    have hconnect' : Network.connect (p.turn before) p.config.login { c with calls := calls } = _ :=
      Cluster.connect_eq (c := { c with calls := calls }) hturn hfaults hlogin
    rw [hconnect'] at hconnect
    cases hconnect
    rw [hrotated.quiet fun _ => rfl] at hopen
    exact ⟨_, _, _, hopen, hturn, rfl, ⟨_, rfl⟩, ⟨_, rfl⟩⟩

/-! ## Main result -/

/-- Let each server either accept sessions or fail transiently while a pool opens one, wherever the
rotation stands. The servers are asked in turn, and the rotation advances by one with every attempt.
A session is opened if and only if one of the servers accepts, and it is with the first one in turn
that does. Otherwise every server is asked in vain, in twice as many attempts as there are servers.
Nothing else of the pool changes, unless somebody closes it meanwhile. The servers are a list in
memory, so their number fits in a word. -/
theorem openLink_rotates {ω : Type} [Network ω] {p : Pool} {w : ω} {accepts : String → Prop}
    {state : ω → Prop} (hwords : p.config.servers.length ≤ UInt64.size)
    (hsteady : Steady p.config.login accepts state) (hw : state w) :
    ∃ answer p' w' attempts,
      p.openLink w = (answer, p', w') ∧
      p.openLink (Asked.start w) = (answer, p', ⟨w', p.turns attempts⟩) ∧
      p'.config = p.config ∧ p'.rotation = p.rotation + UInt64.ofNat attempts ∧
      ((∃ link, answer = .ok link) ↔ ∃ server ∈ p.config.servers, accepts server) ∧
      (∀ link, answer = .ok link →
        (∃ before, attempts = before + 1 ∧ attempts ≤ p.config.servers.length * 2 ∧
          (∀ i < before, ¬accepts (p.turn i)) ∧ accepts (p.turn before) ∧
          link.server = p.turn before) ∧
        (Quiet ω → p' = (p.turned attempts).created)) ∧
      ∀ e, answer = .error e →
        e = .noServerAvailable (p.config.servers.length * 2) ∧
        attempts = p.config.servers.length * 2 ∧
        (∀ server ∈ p.config.servers, server ∈ p.turns attempts) ∧
        (Quiet ω → p' = p.turned attempts) := by
  obtain ⟨turns, answer, p', w', hopen, hasked, hasking⟩ := hsteady.openLink hw
  refine ⟨answer, p', w', turns, hopen, hasked, ?_⟩
  -- A server that accepts has its turn within the attempts.
  have hsome : (∃ server ∈ p.config.servers, accepts server) → ∃ link, answer = .ok link := by
    rintro ⟨server, hserver, haccepts⟩
    exact hasking.exists_ok hwords hserver haccepts
  cases hasking with
  | @accepted before session q _ _ hleft hbefore haccepts _ _ hrotated =>
    have hservers : p.config.servers ≠ [] := List.ne_nil_of_length_pos (by omega)
    refine ⟨hrotated.config, hrotated.rotation, ⟨fun _ => ?_, hsome⟩, ?_, nofun⟩
    · exact ⟨p.turn before, turn_mem hservers before, haccepts⟩
    · rintro link ⟨⟩
      refine ⟨⟨before, rfl, hleft, hbefore, haccepts, rfl⟩, fun hquiet => ?_⟩
      rw [hrotated.quiet hquiet]
  | refused _ _ hrotated =>
    refine ⟨hrotated.config, hrotated.rotation, ⟨nofun, hsome⟩, nofun, ?_⟩
    rintro e ⟨⟩
    refine ⟨rfl, rfl, fun server hserver => ?_, hrotated.quiet⟩
    obtain ⟨i, hi, rfl⟩ := exists_turn_eq hserver hwords
    exact List.mem_map_of_mem (List.mem_range.2 hi)

/-- A pool at the last place of the rotation, with a server that is listed twice. -/
def lastTurn : Pool :=
  let config := { twoSessions with servers := ["east:9160", "east:9160", "west:9160"] }
  { ofConfig config with rotation := UInt64.ofNat (UInt64.size - 1) }

/-- The last place and the first one belong to the same server, so the only server that is up is not
even among the first three that are asked. -/
theorem openLink_rotates_lastTurn :
    let c := musicCluster.setDown "east:9160"
    lastTurn.rotation + 1 = 0 ∧ ∃ link p' c', lastTurn.openLink c = (.ok link, p', c') ∧
      link.server = "west:9160" ∧ p'.rotation = 3 ∧
      (lastTurn.openLink (Asked.start c)).2.2.servers =
        ["east:9160", "east:9160", "east:9160", "west:9160"] := by
  intro c
  have hup : ∃ server ∈ lastTurn.config.servers, server ∉ c.down :=
    ⟨"west:9160", by decide, by decide⟩
  obtain ⟨answer, p', c', attempts, hopen, hasked, -, hrotation, hiff, hok, -⟩ :=
    openLink_rotates (p := lastTurn) (w := c) (by decide)
      (Cluster.steady (c := c) rfl (by decide +kernel)) ⟨c.calls, rfl⟩
  obtain ⟨link, rfl⟩ := hiff.2 hup
  obtain ⟨⟨before, rfl, -, hbefore, hturn, hserver⟩, -⟩ := hok link rfl
  -- The servers whose turns come first are down, and the fourth is not.
  obtain rfl : before = 3 := by
    have hfirst : ∀ i < 3, lastTurn.turn i ∈ c.down := by decide +kernel
    have hfourth : lastTurn.turn 3 ∉ c.down := by decide +kernel
    rcases Nat.lt_trichotomy before 3 with hless | rfl | hmore
    · exact absurd (hfirst before hless) hturn
    · rfl
    · exact absurd hfourth (hbefore 3 hmore)
  refine ⟨by decide, link, p', c', hopen, ?_, ?_, ?_⟩
  · rw [hserver]
    decide +kernel
  · rw [hrotation]
    decide +kernel
  · rw [hasked]
    show lastTurn.turns 4 = _
    decide +kernel

end Pool

end WideColumn
