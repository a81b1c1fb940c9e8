import Patchbay.Propagation.Stats

/-!
The settings that all boards of a host share.
-/

namespace Patchbay

/-- The settings that all boards of a host share: the bounds of a propagation call, how many rounds gadgets
run at most, the lattice of pins that name none, and who signs the receipts of the host. -/
structure HostConfig where
  limits : PropagationLimits := {}
  maxRounds : Nat := 64
  defaultLattice : String := "max"
  principal : String := "runtime"
  deriving DecidableEq

open Json JsonForm

instance : JsonForm HostConfig where
  encode c := mkObj <|
    member "limits" c.limits ++ member "max_rounds" c.maxRounds ++
      member "default_lattice" c.defaultLattice ++ member "principal" c.principal
  decode? j := do
    let f ← fields? ["limits", "max_rounds", "default_lattice", "principal"] j
    let base : HostConfig := {}
    return {
      limits := ← optional? f "limits" base.limits
      maxRounds := ← optional? f "max_rounds" base.maxRounds
      defaultLattice := ← optional? f "default_lattice" base.defaultLattice
      principal := ← optional? f "principal" base.principal }

end Patchbay
