import Patchbay.Json.Basic

/-!
Join-semilattices over JSON values. A lattice says how two values join, which may fail on a value outside
its carrier, and when two values denote the same element.
-/

namespace Patchbay

inductive LatticeError where
  /-- a value of type `found` lies outside the lattice's carrier -/
  | typeMismatch (lattice : String) (found : String)
  /-- no lattice has this name -/
  | unknown (name : String)
  deriving DecidableEq

def LatticeError.message : LatticeError → String
  | .typeMismatch lattice found => lattice ++ " lattice cannot hold " ++ found
  | .unknown name => "unknown lattice: " ++ name

/-- A join-semilattice over JSON values. -/
structure Lattice where
  name : String
  bottom : Json
  join : Json → Json → Except LatticeError Json
  equivalent : Json → Json → Bool

namespace Lattice

/-- The error of a lattice named `name` on a value outside its carrier. -/
def mismatch (name : String) (v : Json) : LatticeError :=
  .typeMismatch name v.typeName

end Lattice

end Patchbay
