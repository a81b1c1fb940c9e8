import Patchbay.Json.Basic

/-!
Shallow schemas: the type of a value, the members it must have, and the types of its members. A schema that
is no object, and every part of one that does not have the expected shape, accepts anything.
-/

namespace Patchbay

inductive SchemaViolation where
  | wrongType (expected found : String)
  | missingMember (name : String)
  | wrongMemberType (name expected found : String)
  deriving DecidableEq

def SchemaViolation.message : SchemaViolation → String
  | .wrongType expected found => "expected " ++ expected ++ " params, got " ++ found
  | .missingMember name => "missing required field: " ++ name
  | .wrongMemberType name expected found =>
    "field '" ++ name ++ "' expected type '" ++ expected ++ "', got '" ++ found ++ "'"

namespace Schema

/-- Whether a value is of the type of a name. Every value is of a type that is not known. -/
def hasType (v : Json) (name : String) : Bool :=
  match name with
  | "string" | "number" | "boolean" | "array" | "object" | "null" => v.typeName == name
  | "integer" =>
    match v with
    | .num (.int _) => true
    | _ => false
  | _ => true

/-- Whether a value has the type that a schema names, if it names one. -/
def checkType (schema : Dict Json) (v : Json) : Except SchemaViolation Unit :=
  match schema.get? "type" with
  | some (.str name) => if hasType v name then .ok () else .error (.wrongType name v.typeName)
  | _ => .ok ()

def checkRequired (schema : Dict Json) (members : List (String × Json)) :
    Except SchemaViolation Unit :=
  match schema.get? "required" with
  | some (.arr names) => names.forM fun n =>
    match n with
    | .str name =>
      if (Entries.find? name members).isSome then .ok () else .error (.missingMember name)
    | _ => .ok ()
  | _ => .ok ()

/-- Whether a member has the type that its property names, if it names one. -/
def checkMember (members : List (String × Json)) (name : String) (property : Json) :
    Except SchemaViolation Unit :=
  match Entries.find? name members, property.get? "type" with
  | some v, some (.str expected) =>
    if hasType v expected then .ok () else .error (.wrongMemberType name expected v.typeName)
  | _, _ => .ok ()

/-- Whether the members of an object have the types that a schema names, in key order. -/
def checkProperties (schema : Dict Json) (members : List (String × Json)) :
    Except SchemaViolation Unit :=
  match schema.get? "properties" with
  | some (.obj properties) => properties.forM fun (name, p) => checkMember members name p
  | _ => .ok ()

def check (schema v : Json) : Except SchemaViolation Unit :=
  match schema.asDict? with
  | none => .ok ()
  | some schema => do
    checkType schema v
    match v with
    | .obj members => do
      checkRequired schema members
      checkProperties schema members
    | _ => .ok ()

end Schema

end Patchbay
