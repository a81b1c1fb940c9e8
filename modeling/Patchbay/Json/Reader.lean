import Patchbay.Json.Token

/-!
Reading a JSON text: one pass over its tokens, with the containers that are still open on a stack.
-/

namespace Patchbay.Json

/-- A container that is still open: the items so far, or the members so far with the key of the one being
read, newest first. -/
inductive Frame where
  | items (done : List Json)
  | members (done : List (String × Json)) (key : String)

/-- What may come next in a text. -/
inductive Reading where
  /-- a value, or where `mayClose` the end of an array without items -/
  | value (stack : List Frame) (mayClose : Bool)
  /-- a key, or where `mayClose` the end of an object without members -/
  | key (done : List (String × Json)) (outer : List Frame) (mayClose : Bool)
  /-- the colon after a key -/
  | colon (key : String) (done : List (String × Json)) (outer : List Frame)
  /-- a comma or the end of an array -/
  | afterItem (done : List Json) (outer : List Frame)
  /-- a comma or the end of an object -/
  | afterMember (done : List (String × Json)) (outer : List Frame)
  /-- nothing more -/
  | finished (v : Json)

namespace Reading

/-- The greatest number of containers that may be open at once. -/
def maxOpen : Nat := 127

def place (v : Json) : List Frame → Reading
  | [] => .finished v
  | Frame.items done :: outer => .afterItem (v :: done) outer
  | Frame.members done k :: outer => .afterMember ((k, v) :: done) outer

def startValue? (stack : List Frame) : Token → Option Reading
  | .scalar v => some (place v stack)
  | .string s => some (place (.str s) stack)
  | .openArray =>
    if stack.length < maxOpen then some (.value (.items [] :: stack) true) else none
  | .openObject => if stack.length < maxOpen then some (.key [] stack true) else none
  | _ => none

/-- Takes one token. Of two members of an object with one key the later one stays. -/
def step? : Reading → Token → Option Reading
  | .value (.items [] :: outer) true, .closeArray => some (place (.arr []) outer)
  | .value stack _, t => startValue? stack t
  | .key _ outer true, .closeObject => some (place (.obj []) outer)
  | .key done outer _, .string k => some (.colon k done outer)
  | .colon k done outer, .colon => some (.value (.members done k :: outer) false)
  | .afterItem done outer, .comma => some (.value (.items done :: outer) false)
  | .afterItem done outer, .closeArray => some (place (.arr done.reverse) outer)
  | .afterMember done outer, .comma => some (.key done outer false)
  | .afterMember done outer, .closeObject => some (place (.obj (Entries.ofList done.reverse)) outer)
  | _, _ => none

end Reading

def read? (s : String) : Option Json := do
  let tokens ← Token.scan? s.toList
  match ← tokens.foldlM Reading.step? (.value [] false) with
  | .finished v => some v
  | _ => none

end Patchbay.Json
