import Patchbay.Lattice.Builtin

/-!
Lattices by description and by name: `LatticeSpec` writes a lattice down as data, and a `LatticeRegistry`
looks lattices up.
-/

namespace Patchbay

inductive LatticeSpec where
  | max
  | min
  | setUnion
  | disjunction
  | append
  | record (name : String) (fields : List (String × LatticeSpec))

namespace LatticeSpec

def ofName (name : String) : Except LatticeError LatticeSpec :=
  match name with
  | "max" => .ok .max
  | "min" => .ok .min
  | "set-union" => .ok .setUnion
  | "or" => .ok .disjunction
  | "append" => .ok .append
  | _ => .error (.unknown name)

mutual

def toLattice : LatticeSpec → Lattice
  | .max => Lattice.max
  | .min => Lattice.min
  | .setUnion => Lattice.setUnion
  | .disjunction => Lattice.disjunction
  | .append => Lattice.append
  | .record name fields => Lattice.record name (Dict.ofList (toLattices fields))

def toLattices : List (String × LatticeSpec) → List (String × Lattice)
  | [] => []
  | (k, s) :: rest => (k, toLattice s) :: toLattices rest

end

end LatticeSpec

structure LatticeRegistry where
  lattices : Dict Lattice

namespace LatticeRegistry

def empty : LatticeRegistry := ⟨∅⟩

/-- Registers a lattice under its own name, in place of any other of that name. -/
def register (r : LatticeRegistry) (l : Lattice) : LatticeRegistry :=
  ⟨r.lattices.insert l.name l⟩

def builtin : LatticeRegistry :=
  [Lattice.max, Lattice.min, Lattice.setUnion, Lattice.disjunction].foldl register empty

def get (r : LatticeRegistry) (name : String) : Except LatticeError Lattice :=
  match r.lattices.get? name with
  | some l => .ok l
  | none => .error (.unknown name)

end LatticeRegistry

end Patchbay
