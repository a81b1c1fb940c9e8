import Patchbay.Aspect.Manifest
import Patchbay.Aspect.Schema
import Patchbay.Lattice.Registry

/-!
The registry of aspects: which manifests there are, in which order aspects stand on a wire, and which
aspects may stand together.
-/

namespace Patchbay

structure AspectRegistry where
  manifests : Dict Manifest

inductive AspectConflict where
  | unknown (id : AspectId)
  | contested (trait : String) (needer forbidder : AspectId)
  deriving DecidableEq

def AspectConflict.message : AspectConflict → String
  | .unknown id => "unknown aspect: " ++ id
  | .contested trait needer forbidder =>
    needer ++ " requires '" ++ trait ++ "' which " ++ forbidder ++ " forbids"

/-- The place of an aspect among others: known ones first, by ascending order and then by identity. -/
structure AspectRank where
  unknown : Bool
  order : Int
  id : AspectId

namespace AspectRank

def le (a b : AspectRank) : Bool :=
  if a.unknown != b.unknown then b.unknown
  else if a.order ≠ b.order then a.order < b.order
  else a.id ≤ b.id

end AspectRank

namespace AspectRegistry

def empty : AspectRegistry := ⟨∅⟩

def get? (r : AspectRegistry) (id : AspectId) : Option Manifest := r.manifests.get? id

def ids (r : AspectRegistry) : List AspectId := r.manifests.keys

def register (r : AspectRegistry) (m : Manifest) : Except AspectError AspectRegistry :=
  if r.manifests.contains m.id then .error (.duplicate m.id)
  else .ok ⟨r.manifests.insert m.id m⟩

/-! ## Order -/

def rank (r : AspectRegistry) (id : AspectId) : AspectRank :=
  match r.get? id with
  | some m => ⟨false, m.order, id⟩
  | none => ⟨true, 0, id⟩

/-- Aspects in canonical order: by ascending order and then by identity, unknown ones last. -/
def sortIds (r : AspectRegistry) (ids : List AspectId) : List AspectId :=
  ids.mergeSort fun a b => (r.rank a).le (r.rank b)

/-- Instances in the canonical order of their aspects; those of one aspect stay in the order given. -/
def sortInstances (r : AspectRegistry) (instances : List AspectInstance) : List AspectInstance :=
  instances.mergeSort fun a b => (r.rank a.aspect).le (r.rank b.aspect)

/-! ## Compatibility -/

/-- Notes `id` as the one who asks for each of the traits, where none is noted yet. -/
def noteTraits (noted : Dict AspectId) (traits : Names) (id : AspectId) : Dict AspectId :=
  traits.keys.foldl (fun acc t => if acc.contains t then acc else acc.insert t id) noted

def manifestsOf (r : AspectRegistry) (ids : List AspectId) :
    Except AspectConflict (List (AspectId × Manifest)) :=
  ids.mapM fun id =>
    match r.get? id with
    | some m => .ok (id, m)
    | none => .error (.unknown id)

/-- Aspects may stand together when none requires what another, or it itself, forbids. Of several conflicts
the least trait is reported, with the first aspects that require and forbid it. -/
def checkCompatible (r : AspectRegistry) (ids : List AspectId) : Except AspectConflict Unit := do
  let manifests ← r.manifestsOf ids
  let needed : Dict AspectId := manifests.foldl (fun acc (id, m) => noteTraits acc m.requires id) ∅
  let forbidden : Dict AspectId := manifests.foldl (fun acc (id, m) => noteTraits acc m.forbids id) ∅
  needed.entries.forM fun (trait, needer) =>
    match forbidden.get? trait with
    | some forbidder => .error (.contested trait needer forbidder)
    | none => .ok ()

end AspectRegistry

namespace Manifest

/-- Whether parameters satisfy the manifest's schema. Without one all do. -/
def validate (m : Manifest) (params : Json) : Except AspectError Unit :=
  match m.schema with
  | none => .ok ()
  | some schema => (Schema.check schema params).mapError fun v => .invalidParams m.id v.message

end Manifest

/-! ## The aspects at hand -/

namespace Manifest

/-- Lets values pass and notes them. -/
def tap : Manifest where
  id := "tap"
  kind := .dataPlane .afterOutput "tap"
  order := 100
  scopes := [.wire, .pin]

/-- The schema of a rate: an object with a number `rps`. -/
def rateSchema : Json := .mkObj [
  ("type", .str "object"),
  ("properties", .mkObj [("rps", .mkObj [("type", .str "number")])]),
  ("required", .strings ["rps"])]

/-- The lattice of rates: of two, the lower `rps`. -/
def rateLattice : Lattice := .record "rate-limit" (.singleton "rps" .min)

/-- Lets so many values pass a second. -/
def rateLimit : Manifest where
  id := "rate-limit"
  kind := .dataPlane .beforeInput "rate-limit"
  order := 200
  schema := some rateSchema
  compose := some rateLattice

/-- Marks the edges of a wire. -/
def audit : Manifest where
  id := "audit"
  kind := .controlPlane
  scopes := [.wire, .board, .binder]

end Manifest

def AspectRegistry.builtin : AspectRegistry :=
  ⟨.ofList ([Manifest.tap, Manifest.rateLimit, Manifest.audit].map fun m => (m.id, m))⟩

end Patchbay
