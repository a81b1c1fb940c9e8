import Patchbay.Graph.Basic
import Patchbay.Lattice.Basic

/-!
Contacts hold values, connections lead from one contact to another, and changes tell those who listen what
happened.
-/

namespace Patchbay

abbrev ConnectionId := String

/-- A cell whose values move up a lattice. Its version counts the changes. -/
structure Contact where
  id : ContactId
  lattice : Lattice
  value : Json
  version : Nat := 0

/-- A directed link between two contacts on behalf of a wire. An inactive one carries nothing. -/
structure Connection where
  id : ConnectionId
  wire : WireId
  source : ContactId
  target : ContactId
  active : Bool := true
  deriving DecidableEq

/-- What happened to a contact: its value before and after, and its version after. -/
structure ContactChange where
  contact : ContactId
  old : Json
  new : Json
  version : Nat

inductive Listener where
  | observer (number : Nat)
  | executor (number : Nat)
  deriving DecidableEq

/-- The number of a subscription among all those of one store. -/
abbrev Subscription := Nat

structure Letter where
  recipient : Listener
  change : ContactChange

inductive ContactError where
  | notFound (id : ContactId)
  | duplicate (id : ContactId)
  | connectionNotFound (id : ConnectionId)
  | lattice (id : ContactId) (cause : LatticeError)
  deriving DecidableEq

def ContactError.message : ContactError → String
  | .notFound id => "contact not found: " ++ id
  | .duplicate id => "contact already registered: " ++ id
  | .connectionNotFound id => "connection not found: " ++ id
  | .lattice id cause => "join failed on " ++ id ++ ": " ++ cause.message

end Patchbay
