import Patchbay.Graph.Basic
import Patchbay.Hash.Sha256
import Patchbay.Json.Printer

/-!
Identities derived from content: the same parts give the same identity, whoever derives it and whenever.
-/

namespace Patchbay

/-- How the parts of an identity are condensed. A digest has no point in it, so that the identity of a
contact tells its node and its pin apart. -/
structure Naming where
  digest : List String → String
  undotted : ∀ parts, '.' ∉ (digest parts).toList

namespace Naming

/-- The naming that condenses the text of the parts, with a NUL between any two. -/
def ofText (condense : String → String) (undotted : ∀ text, '.' ∉ (condense text).toList) : Naming where
  digest parts := condense ("\x00".intercalate parts)
  undotted _ := undotted _

/-- The first sixteen hexadecimal digits of the text's hash. -/
def standard : Naming :=
  .ofText (fun text => .ofList ((Sha256.hexDigest text.toUTF8.toList).take 16)) fun text h => by
    rw [String.toList_ofList] at h
    exact Sha256.not_mem_hexDigest (by decide) (List.mem_of_mem_take h)

/-- The identity of a thing of some kind, from the parts of its content. -/
def identify (n : Naming) (kind : String) (parts : List String) : String :=
  kind ++ n.digest parts

/-- An endpoint in words. Where both a slot and a gadget are named, the slot counts. -/
def endpointKey (e : Endpoint) : String :=
  match e.slot, e.gadget with
  | some slot, _ => "slot:" ++ slot ++ "." ++ e.pin
  | none, some gadget => "gadget:" ++ gadget ++ "." ++ e.pin
  | none, none => "?." ++ e.pin

/-- The identity of a wire declared without one. Its occurrence tells it apart from others between the same
endpoints; that of the first is zero. -/
def wire (n : Naming) (source target : Endpoint) (occurrence : Nat) : WireId :=
  n.identify "w_" <| [endpointKey source, endpointKey target] ++
    if occurrence = 0 then [] else [Nat.repr occurrence]

def gadgetNode (n : Naming) (o : Occupant) : NodeId :=
  n.identify "n_" ["gadget", o.id, o.template, o.params.text]

/-- The identity of the shim that an aspect with the given parameters puts on a wire. -/
def shimNode (n : Naming) (wire : WireId) (aspect : AspectId) (params : Json) : NodeId :=
  n.identify "n_" ["shim", wire, aspect, params.text]

def edge (n : Naming) (wire : WireId) (source : NodeId) (sourcePin : PinName) (target : NodeId)
    (targetPin : PinName) : EdgeId :=
  n.identify "e_" [wire, source, sourcePin, target, targetPin]

end Naming

end Patchbay
