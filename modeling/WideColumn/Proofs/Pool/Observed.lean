import WideColumn.Network

/-!
# Networks under observation

`Observed` puts an observer in front of any network. It numbers the sessions in the order in which
they are opened, so that each has an identity whatever the network behind calls it, and writes down
when a session is opened, used and closed.
-/

namespace WideColumn

/-- What happens to a session. -/
inductive Event where
  | opened (id : SessionId)
  | performed (id : SessionId)
  | closed (id : SessionId)
  deriving DecidableEq, Repr

namespace Event

def session : Event → SessionId
  | opened id => id
  | performed id => id
  | closed id => id

def opened? : Event → Option SessionId
  | opened id => some id
  | _ => none

def closed? : Event → Option SessionId
  | closed id => some id
  | _ => none

end Event

/-- A network and what was seen of it. -/
structure Observed (ω : Type) where
  network : ω
  /-- What the network behind calls its sessions, in the order of their opening. -/
  sessions : List SessionId
  /-- What happened, latest first. -/
  events : List Event

namespace Observed

variable {ω : Type}

/-- A network of which nothing was seen yet. -/
def start (w : ω) : Observed ω := ⟨w, [], []⟩

/-- What the network behind calls a session. -/
def inner (o : Observed ω) (id : SessionId) : SessionId := o.sessions.getD id id

/-- The sessions that were opened so far, latest first. -/
def opened (o : Observed ω) : List SessionId := o.events.filterMap Event.opened?

/-- The sessions that were closed so far, latest first, each as often as it was. -/
def closed (o : Observed ω) : List SessionId := o.events.filterMap Event.closed?

/-- Writes an event down. -/
def note (o : Observed ω) (w : ω) (e : Event) : Observed ω :=
  { o with network := w, events := e :: o.events }

/-- Writes a new session down. -/
def enroll (o : Observed ω) (w : ω) (session : SessionId) : Observed ω where
  network := w
  sessions := o.sessions ++ [session]
  events := .opened o.sessions.length :: o.events

instance [Network ω] : Network (Observed ω) where
  closing o :=
    let (closing, w) := Network.closing o.network
    (closing, { o with network := w })
  connect server login o :=
    match Network.connect server login o.network with
    | (.ok session, w) => (.ok o.sessions.length, o.enroll w session)
    | (.error e, w) => (.error e, { o with network := w })
  perform id r o :=
    let (answer, w) := Network.perform (o.inner id) r o.network
    (answer, o.note w (.performed id))
  close id o := o.note (Network.close (o.inner id) o.network) (.closed id)

/-! ## What is written down -/

theorem mem_closed {o : Observed ω} {id : SessionId} : id ∈ o.closed ↔ .closed id ∈ o.events := by
  simp only [closed, List.mem_filterMap]
  constructor
  · rintro ⟨e, he, hid⟩
    cases e with
    | closed id' =>
      cases hid
      exact he
    | opened id' => cases hid
    | performed id' => cases hid
  · exact fun h => ⟨_, h, rfl⟩

@[simp] theorem opened_enroll (o : Observed ω) (w : ω) (session : SessionId) :
    (o.enroll w session).opened = o.sessions.length :: o.opened := rfl

@[simp] theorem closed_enroll (o : Observed ω) (w : ω) (session : SessionId) :
    (o.enroll w session).closed = o.closed := rfl

@[simp] theorem opened_note_performed (o : Observed ω) (w : ω) (id : SessionId) :
    (o.note w (.performed id)).opened = o.opened := rfl

@[simp] theorem closed_note_performed (o : Observed ω) (w : ω) (id : SessionId) :
    (o.note w (.performed id)).closed = o.closed := rfl

@[simp] theorem opened_note_closed (o : Observed ω) (w : ω) (id : SessionId) :
    (o.note w (.closed id)).opened = o.opened := rfl

@[simp] theorem closed_note_closed (o : Observed ω) (w : ω) (id : SessionId) :
    (o.note w (.closed id)).closed = id :: o.closed := rfl

/-! ## What a step of the network writes down -/

section Network

variable [Network ω] {o o' : Observed ω}

theorem network_of_closing {closing : Bool} (h : Network.closing o = (closing, o')) :
    ∃ w, o' = { o with network := w } := by
  cases h
  exact ⟨_, rfl⟩

theorem connect_ok {server : String} {login : Login} {id : SessionId}
    (h : Network.connect server login o = (.ok id, o')) :
    id = o.sessions.length ∧ ∃ w session, o' = o.enroll w session := by
  have hconnect : (match Network.connect server login o.network with
      | (.ok session, w) => (.ok o.sessions.length, o.enroll w session)
      | (.error e, w) => (.error e, { o with network := w })) = (Except.ok id, o') := h
  split at hconnect
  · cases hconnect
    exact ⟨rfl, _, _, rfl⟩
  · cases hconnect

theorem connect_error {server : String} {login : Login} {e : RpcError}
    (h : Network.connect server login o = (.error e, o')) : ∃ w, o' = { o with network := w } := by
  have hconnect : (match Network.connect server login o.network with
      | (.ok session, w) => (.ok o.sessions.length, o.enroll w session)
      | (.error e, w) => (.error e, { o with network := w })) = (Except.error e, o') := h
  split at hconnect
  · cases hconnect
  · cases hconnect
    exact ⟨_, rfl⟩

theorem perform_eq (id : SessionId) {α : Type} (r : Rpc α) (o : Observed ω) :
    (Network.perform id r o).2 =
      o.note (Network.perform (o.inner id) r o.network).2 (.performed id) := rfl

theorem close_eq (id : SessionId) (o : Observed ω) :
    Network.close id o = o.note (Network.close (o.inner id) o.network) (.closed id) := rfl

end Network

end Observed

end WideColumn
