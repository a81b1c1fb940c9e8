import Patchbay.Json.Basic

/-!
The JSON form of a type: how its values are written and which values write one. A record is written as an
object; it is also read from an array that gives its fields in their declared order. Members that a record
does not know are passed over.
-/

namespace Patchbay

/-- How values of `α` are written as JSON and read back. -/
class JsonForm (α : Type) where
  encode : α → Json
  decode? : Json → Option α

namespace JsonForm

variable {α : Type} [JsonForm α]

instance : JsonForm Json := ⟨id, some⟩

instance : JsonForm String := ⟨.str, Json.asString?⟩

instance : JsonForm Bool := ⟨.bool, Json.asBool?⟩

instance : JsonForm Nat := ⟨Json.nat, Json.asNat64?⟩

instance : JsonForm (List α) where
  encode l := .arr (l.map encode)
  decode? j := do (← j.asItems?).mapM decode?

instance : JsonForm (Option α) where
  encode
    | some a => encode a
    | none => .null
  decode?
    | .null => some none
    | j => (decode? j).map some

def decodeMembers? : List (String × Json) → Option (List (String × α))
  | [] => some []
  | (k, j) :: rest => do
    let v ← decode? j
    let rest ← decodeMembers? rest
    return (k, v) :: rest

instance : JsonForm (Dict α) where
  encode d := .ofDict (d.map fun _ => encode)
  decode? j := do return Dict.ofList (← decodeMembers? (← j.asDict?).entries)

/-- A set is written as the array of its names; an array may repeat a name. -/
instance : JsonForm Names where
  encode s := .strings s.keys
  decode? j := do
    let names : List String ← decode? j
    return Names.ofNames names

end JsonForm

namespace Json

/-! ## Writing records -/

def member {α : Type} [JsonForm α] (k : String) (v : α) : List (String × Json) :=
  [(k, JsonForm.encode v)]

def memberUnless {α : Type} [JsonForm α] (skip : Bool) (k : String) (v : α) : List (String × Json) :=
  if skip then [] else member k v

def memberIfSome {α : Type} [JsonForm α] (k : String) : Option α → List (String × Json)
  | some v => member k v
  | none => []

/-! ## Reading records -/

/-- The fields of a record, from an object or from an array in the order of `names`. -/
def fields? (names : List String) : Json → Option (List (String × Json))
  | .obj members => some members
  | .arr items => if items.length ≤ names.length then some (names.zip items) else none
  | _ => none

def required? {α : Type} [JsonForm α] (fields : List (String × Json)) (k : String) : Option α :=
  (Entries.find? k fields).bind JsonForm.decode?

def optional? {α : Type} [JsonForm α] (fields : List (String × Json)) (k : String) (default : α) :
    Option α :=
  match Entries.find? k fields with
  | some j => JsonForm.decode? j
  | none => some default

/-! ## Reading alternatives -/

/-- One of several names, as a string or as an object of one member that is null. -/
def choice? (names : List String) : Json → Option String
  | .str s => if s ∈ names then some s else none
  | .obj [(k, .null)] => if k ∈ names then some k else none
  | _ => none

/-- The name of an alternative. Where `numbered`, its position among the names will do too. -/
def alternative? (numbered : Bool) (names : List String) : Json → Option String
  | .str s => if s ∈ names then some s else none
  | .num (.int (.ofNat n)) => if numbered then names[n]? else none
  | _ => none

/-- An alternative with its fields: an object names it in the member `tag`, an array in its first item.
What is left holds the fields. -/
def tagged? (numbered : Bool) (tag : String) (names : List String) : Json → Option (String × Json)
  | .obj members => do
    let name ← alternative? numbered names (← Entries.find? tag members)
    return (name, .obj (Entries.erase tag members))
  | .arr (head :: rest) => do
    let name ← alternative? numbered names head
    return (name, .arr rest)
  | _ => none

end Json

end Patchbay
