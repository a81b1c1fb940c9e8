import Patchbay.Board.Basic
import Patchbay.Lattice.Basic

/-!
Aspect manifests: what an aspect is, where it may stand, and how it composes with itself.
-/

namespace Patchbay

inductive AspectScope where
  | wire
  | pin
  | slot
  | board
  | binder
  deriving DecidableEq

/-- Where a shim sits on its wire: in front of the target's input, behind the source's output, or around
the whole wire. -/
inductive JoinPoint where
  | beforeInput
  | afterOutput
  | around
  deriving DecidableEq

/-- What an aspect becomes: a shim made from a template, or tags on the wire's edges. -/
inductive AspectKind where
  | dataPlane (joinPoint : JoinPoint) (shim : TemplateName)
  | controlPlane
  deriving DecidableEq

/-- The description of an aspect. Aspects stand on a wire in ascending `order`. Where several instances
stand on one wire, `compose` joins their parameters. -/
structure Manifest where
  id : AspectId
  kind : AspectKind
  scopes : List AspectScope := [.wire]
  order : Int := 0
  requires : Names := ∅
  forbids : Names := ∅
  schema : Option Json := none
  compose : Option Lattice := none

inductive AspectError where
  | duplicate (id : AspectId)
  | unknown (id : AspectId)
  | invalidParams (id : AspectId) (reason : String)
  deriving DecidableEq

namespace AspectScope

def all : List AspectScope := [.wire, .pin, .slot, .board, .binder]

def name : AspectScope → String
  | .wire => "wire"
  | .pin => "pin"
  | .slot => "slot"
  | .board => "board"
  | .binder => "binder"

def ofName? (s : String) : Option AspectScope := all.find? fun x => x.name == s

end AspectScope

namespace JoinPoint

def all : List JoinPoint := [.beforeInput, .afterOutput, .around]

def name : JoinPoint → String
  | .beforeInput => "before-input"
  | .afterOutput => "after-output"
  | .around => "around"

def ofName? (s : String) : Option JoinPoint := all.find? fun x => x.name == s

end JoinPoint

namespace Manifest

def allows (m : Manifest) (scope : AspectScope) : Bool := m.scopes.contains scope

def shim? (m : Manifest) : Option TemplateName :=
  match m.kind with
  | .dataPlane _ shim => some shim
  | .controlPlane => none

end Manifest

def AspectError.message : AspectError → String
  | .duplicate id => "aspect already registered: " ++ id
  | .unknown id => "unknown aspect: " ++ id
  | .invalidParams id reason => "invalid params for aspect " ++ id ++ ": " ++ reason

end Patchbay
