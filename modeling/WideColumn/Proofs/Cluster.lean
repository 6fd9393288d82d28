import WideColumn.Proofs.Pool.Serving

/-!
# What a cluster changes at a call

Before a call reaches the store it is counted, and a failure that was queued for it is taken out of
its queue. Nothing else changes there, so most of what is known about a cluster survives its calls.

- `Cluster.exists_enter`, `Cluster.exists_connect`, `Cluster.sessions_of_connect`: what changes
  before the store is reached, and when a session is opened;
- `Cluster.perform_cases`: a call either fails before it reaches the store or is answered by it.
-/

namespace WideColumn.Cluster

variable {α : Type}

/-- Taking a failure changes nothing but the queues. -/
theorem exists_takeFault (c : Cluster) (operation : String) :
    ∃ faults, faults ⊆ c.faults ∧ (c.takeFault operation).2 = { c with faults := faults } := by
  rw [takeFault]
  split
  · exact ⟨c.faults, List.Subset.refl _, rfl⟩
  · exact ⟨_, List.eraseP_subset, rfl⟩

/-- What happens to a call before it reaches the store changes the count and the queues. -/
theorem exists_enter (id : SessionId) (operation : String) (c : Cluster) :
    ∃ faults, faults ⊆ c.faults ∧
      (c.enter id operation).2 = { c.record operation with faults := faults } := by
  obtain ⟨faults, hsub, htaken⟩ := exists_takeFault (c.record operation) operation
  have huntaken : ∃ faults, faults ⊆ c.faults ∧
      c.record operation = { c.record operation with faults := faults } :=
    ⟨c.faults, List.Subset.refl _, rfl⟩
  -- A request is turned away before faults are looked at, or the fault that is due is taken out.
  rw [enter]
  split
  · exact huntaken
  · split
    · exact huntaken
    · split
      · exact huntaken
      · split
        · next hfault =>
          rw [hfault] at htaken
          exact ⟨faults, hsub, htaken⟩
        · next hfault =>
          rw [hfault] at htaken
          exact ⟨faults, hsub, htaken⟩

/-- Opening a session changes the count, the queues and the sessions. -/
theorem exists_connect (server : String) (login : Login) (c : Cluster) :
    ∃ faults sessions, faults ⊆ c.faults ∧ (connect server login c).2 =
      { c.record connectOperation with faults := faults, sessions := sessions } := by
  obtain ⟨faults, hsub, htaken⟩ := exists_takeFault (c.record connectOperation) connectOperation
  -- The same holds of a connection, which may also append a session to the list.
  rw [connect]
  split
  · exact ⟨c.faults, c.sessions, List.Subset.refl _, rfl⟩
  · split
    · next hfault =>
      rw [hfault] at htaken
      exact ⟨faults, c.sessions, hsub, htaken⟩
    · next hfault =>
      rw [hfault] at htaken
      obtain rfl := htaken
      split
      · exact ⟨faults, c.sessions, hsub, rfl⟩
      · exact ⟨faults, _, hsub, rfl⟩

/-- No session is opened if a connection is refused, and otherwise the new one comes after all
others. -/
theorem sessions_of_connect {server : String} {login : Login} {c c' : Cluster}
    {answer : Except RpcError SessionId} (h : connect server login c = (answer, c')) :
    (∃ e, answer = .error e) ∧ c'.sessions = c.sessions ∨
      answer = .ok c.sessions.length ∧ c'.sessions = c.sessions ++ [⟨server, true⟩] := by
  obtain ⟨faults, -, htaken⟩ := exists_takeFault (c.record connectOperation) connectOperation
  -- Every branch but the last refuses the connection and leaves the sessions alone.
  rw [connect] at h
  split at h
  · cases h
    exact .inl ⟨⟨_, rfl⟩, rfl⟩
  · split at h
    · next hfault =>
      rw [hfault] at htaken
      obtain rfl := htaken
      cases h
      exact .inl ⟨⟨_, rfl⟩, rfl⟩
    · next hfault =>
      rw [hfault] at htaken
      obtain rfl := htaken
      split at h
      · cases h
        exact .inl ⟨⟨_, rfl⟩, rfl⟩
      · cases h
        exact .inr ⟨rfl, rfl⟩

/-- A call fails before it reaches the store, or the store answers it. -/
theorem perform_cases (id : SessionId) (r : Rpc α) (c : Cluster) :
    ∃ faults, faults ⊆ c.faults ∧
      ((∃ e, c.perform id r = (.error e, { c.record r.operation with faults := faults })) ∨
        c.perform id r = ((c.store.serve r).1,
          { c.record r.operation with faults := faults, store := (c.store.serve r).2 })) := by
  obtain ⟨faults, hsub, hentered⟩ := exists_enter id r.operation c
  refine ⟨faults, hsub, ?_⟩
  -- What `enter` refuses fails as it is, and what it lets in is served by the store.
  rw [perform]
  split
  · next e c' henter =>
    rw [henter] at hentered
    obtain rfl : c' = _ := hentered
    exact .inl ⟨e, rfl⟩
  · next c' henter =>
    rw [henter] at hentered
    obtain rfl : c' = _ := hentered
    exact .inr (serve_eq r _)

end WideColumn.Cluster
