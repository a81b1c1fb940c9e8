import Patchbay.Gadget.Arithmetic
import Patchbay.Gadget.Script
import Patchbay.Text.Quoted

/-!
The library of gadgets: templates by name, each making an instance from parameters.
-/

namespace Patchbay

abbrev GadgetFactory := Json → Except GadgetError Gadget

structure GadgetLibrary where
  factories : Dict GadgetFactory

namespace GadgetLibrary

def contains (l : GadgetLibrary) (name : TemplateName) : Bool := l.factories.contains name

def create (l : GadgetLibrary) (name : TemplateName) (params : Json) : Except GadgetError Gadget :=
  match l.factories.get? name with
  | some factory => factory params
  | none => .error (.unknownTemplate name)

def register (l : GadgetLibrary) (name : TemplateName) (factory : GadgetFactory) : GadgetLibrary :=
  ⟨l.factories.insert name factory⟩

def shims : GadgetLibrary := ⟨.ofList [
  ("tap", fun _ => .ok Gadget.tap),
  ("rate-limit", Gadget.rateLimitOf),
  ("passthrough", fun _ => .ok Gadget.passthrough)]⟩

def standard : GadgetLibrary :=
  let limit (params : Json) : Int := ((params.get? "limit").bind Json.asInt64?).getD 5
  let delay (params : Json) : Nat := ((params.get? "ms").bind Json.asNat64?).getD 1
  let extra : List (TemplateName × GadgetFactory) := [
    ("add", fun _ => .ok Gadget.adder),
    ("fail", fun _ => .ok Gadget.failing),
    ("inc", fun params => .ok (Gadget.increment (limit params))),
    ("slow", fun params => .ok (Gadget.slow (delay params))),
    ("record", fun _ => .ok Gadget.recorder),
    ("fn", Gadget.scriptedOf)]
  extra.foldl (fun l (name, factory) => l.register name factory) shims

def describe (l : GadgetLibrary) : String :=
  "GadgetLibrary \x7b templates: " ++ Quoted.list (l.factories.keys.map Quoted.string) ++ " \x7d"

end GadgetLibrary

end Patchbay
