import Patchbay.Aspect.Registry

/-!
Several instances of one aspect folded into one. An instance that the schema or the lattice refuses is
dropped and leaves no trace in the parameters.
-/

namespace Patchbay

inductive DropReason where
  | invalid (e : AspectError)
  | unjoinable (e : LatticeError)
  deriving DecidableEq

def DropReason.message : DropReason → String
  | .invalid e => e.message
  | .unjoinable e => e.message

/-- Instances of one aspect folded into one: the parameters, the positions of the instances that went into
them, and the positions of those that were dropped. -/
structure Composition where
  params : Json := .null
  contributors : List Nat := []
  dropped : List (Nat × DropReason) := []

namespace Manifest

/-- The parameters with one more instance: joined through the manifest's lattice, or without one simply the
newest. -/
def merge (m : Manifest) (params incoming : Json) : Except LatticeError Json :=
  match m.compose with
  | some l => l.join params incoming
  | none => .ok incoming

/-- The parameters that an instance leaves, or why it is dropped. -/
def admitInstance (m : Manifest) (params incoming : Json) : Except DropReason Json := do
  (m.validate incoming).mapError .invalid
  (m.merge params incoming).mapError .unjoinable

def composeStep (m : Manifest) (c : Composition) (x : AspectInstance × Nat) : Composition :=
  match m.admitInstance c.params x.1.params with
  | .ok params => { c with params, contributors := c.contributors ++ [x.2] }
  | .error reason => { c with dropped := c.dropped ++ [(x.2, reason)] }

/-- Folds instances from the first to the last. Nothing comes of it when all are dropped. -/
def compose? (m : Manifest) (instances : List AspectInstance) : Option Composition :=
  let c := instances.zipIdx.foldl m.composeStep {}
  if c.contributors.isEmpty then none else some c

end Manifest

end Patchbay
