import Patchbay.Contact.Basic

/-!
The store of contacts and connections. A write joins the incoming value into the current one; where that
makes a difference, a letter goes to everyone who listens. Letters wait in the store until they are taken.
-/

namespace Patchbay

/-- The contacts of a board, the connections between them, and who listens. `outgoing` lists the connections
out of each contact in the order they were made, and `mail` the letters not yet taken, newest first. -/
structure ContactStore where
  contacts : Dict Contact := ∅
  connections : Dict Connection := ∅
  outgoing : Dict (List ConnectionId) := ∅
  listeners : List (Subscription × Listener) := []
  mail : List Letter := []
  lastConnection : Nat := 0
  lastSubscription : Nat := 0

namespace ContactStore

def empty : ContactStore := {}

/-! ## Contacts -/

def contact (s : ContactStore) (id : ContactId) : Except ContactError Contact :=
  match s.contacts.get? id with
  | some c => .ok c
  | none => .error (.notFound id)

def value (s : ContactStore) (id : ContactId) : Except ContactError Json :=
  (s.contact id).map (·.value)

def contains (s : ContactStore) (id : ContactId) : Bool := s.contacts.contains id

/-- What a contact holds at first: its lattice's bottom, or an initial value joined over it. -/
def initialValue (id : ContactId) (lattice : Lattice) : Option Json → Except ContactError Json
  | some v => (lattice.join lattice.bottom v).mapError (.lattice id)
  | none => .ok lattice.bottom

def register (s : ContactStore) (id : ContactId) (lattice : Lattice) (initial : Option Json) :
    Except ContactError ContactStore :=
  if s.contains id then .error (.duplicate id)
  else do
    let value ← initialValue id lattice initial
    return { s with contacts := s.contacts.insert id { id, lattice, value } }

/-- Sends a change to everyone who listens, in the order of their subscriptions. -/
def notify (s : ContactStore) (change : ContactChange) : ContactStore :=
  { s with mail := s.listeners.foldl (fun mail (_, l) => ⟨l, change⟩ :: mail) s.mail }

/-- Joins a value into a contact, and tells whether that changed it. A join that gives an equivalent value
leaves everything as it was. -/
def update (s : ContactStore) (id : ContactId) (incoming : Json) :
    Except ContactError (ContactStore × Bool) := do
  let c ← s.contact id
  let joined ← (c.lattice.join c.value incoming).mapError (.lattice id)
  if c.lattice.equivalent joined c.value then return (s, false)
  else
    let after : Contact := { c with value := joined, version := c.version + 1 }
    let change : ContactChange :=
      { contact := id, old := c.value, new := joined, version := after.version }
    return ({ s with contacts := s.contacts.insert id after }.notify change, true)

theorem keys_of_update {s s' : ContactStore} {id : ContactId} {v : Json} {b : Bool}
    (h : s.update id v = .ok (s', b)) :
    id ∈ s.contacts.keys ∧ s'.contacts.keys = s.contacts.keys := by
  unfold update contact at h
  split at h
  · rename_i c hc
    refine ⟨Dict.mem_keys_of_get? hc, ?_⟩
    simp only [bind, Except.bind, pure, Except.pure] at h
    split at h
    · simp at h
    · split at h
      · simp only [Except.ok.injEq, Prod.mk.injEq] at h
        rw [← h.1]
      · simp only [Except.ok.injEq, Prod.mk.injEq] at h
        rw [← h.1]
        exact Dict.keys_insert_of_get? _ hc
  · simp [bind, Except.bind] at h

/-! ## Connections -/

def dropConnection (s : ContactStore) (id : ConnectionId) : ContactStore :=
  match s.connections.get? id with
  | none => s
  | some c =>
    { s with
      connections := s.connections.erase id
      outgoing := s.outgoing.modify c.source fun ids => ids.filter (· ≠ id) }

/-- Removes a contact with every connection that touches it. -/
def remove (s : ContactStore) (id : ContactId) : Except ContactError (ContactStore × Contact) := do
  let c ← s.contact id
  let touching := s.connections.values.filter fun x => x.source == id || x.target == id
  let s := (touching.map (·.id)).foldl dropConnection { s with contacts := s.contacts.erase id }
  return ({ s with outgoing := s.outgoing.erase id }, c)

def connectionId (n : Nat) : ConnectionId := "c" ++ Nat.repr n

/-- Connects two contacts on behalf of a wire. Both must be registered; the source is looked up first. -/
def connect (s : ContactStore) (wire : WireId) (source target : ContactId) :
    Except ContactError (ContactStore × ConnectionId) :=
  if !s.contains source then .error (.notFound source)
  else if !s.contains target then .error (.notFound target)
  else
    let n := s.lastConnection + 1
    let id := connectionId n
    let s := { s with
      lastConnection := n
      connections := s.connections.insert id { id, wire, source, target }
      outgoing := s.outgoing.insert source (s.outgoing.getD source [] ++ [id]) }
    .ok (s, id)

def connection (s : ContactStore) (id : ConnectionId) : Except ContactError Connection :=
  match s.connections.get? id with
  | some c => .ok c
  | none => .error (.connectionNotFound id)

def disconnect (s : ContactStore) (id : ConnectionId) :
    Except ContactError (ContactStore × Connection) := do
  let c ← s.connection id
  return (s.dropConnection id, c)

def setActive (s : ContactStore) (id : ConnectionId) (active : Bool) :
    Except ContactError ContactStore := do
  let c ← s.connection id
  return { s with connections := s.connections.insert id { c with active } }

/-- Removes every connection of a wire, and tells how many there were. -/
def removeWire (s : ContactStore) (wire : WireId) : ContactStore × Nat :=
  let owned := (s.connections.values.filter fun c => c.wire == wire).map (·.id)
  (owned.foldl dropConnection s, owned.length)

/-- Lists the target of a connection, if the connection is active and its target not listed yet. -/
def listTarget (s : ContactStore) (out : List ContactId) (conn : ConnectionId) : List ContactId :=
  match s.connections.get? conn with
  | some c => if c.active && !out.contains c.target then out ++ [c.target] else out
  | none => out

/-- The targets of the active connections out of a contact, in the order they were made, each once. -/
def downstream (s : ContactStore) (id : ContactId) : List ContactId :=
  (s.outgoing.getD id []).foldl s.listTarget []

/-! ## Listening -/

def subscribe (s : ContactStore) (l : Listener) : ContactStore × Subscription :=
  let n := s.lastSubscription + 1
  ({ s with lastSubscription := n, listeners := s.listeners ++ [(n, l)] }, n)

/-- Ends a subscription, and tells whether there was one of this number. -/
def unsubscribe (s : ContactStore) (n : Subscription) : ContactStore × Bool :=
  ({ s with listeners := s.listeners.filter fun x => x.1 ≠ n }, s.listeners.any fun x => x.1 == n)

def lettersTo (s : ContactStore) (recipient : Listener → Bool) : List Letter :=
  (s.mail.filter fun m => recipient m.recipient).reverse

def takeMail (s : ContactStore) (recipient : Listener → Bool) : ContactStore × List Letter :=
  ({ s with mail := s.mail.filter fun m => !recipient m.recipient }, s.lettersTo recipient)

/-! ## Text -/

def describe (s : ContactStore) : String :=
  "ContactStore \x7b contacts: " ++ Nat.repr s.contacts.size ++
    ", connections: " ++ Nat.repr s.connections.size ++
    ", listeners: " ++ Nat.repr s.listeners.length ++ " \x7d"

end ContactStore

end Patchbay
