import Patchbay.Aspect.Manifest
import Patchbay.Json.Form

/-!
The JSON form of scopes and join points: their names.
-/

namespace Patchbay

open Json

instance : JsonForm AspectScope where
  encode s := .str s.name
  decode? j := (choice? (AspectScope.all.map (·.name)) j).bind AspectScope.ofName?

instance : JsonForm JoinPoint where
  encode p := .str p.name
  decode? j := (choice? (JoinPoint.all.map (·.name)) j).bind JoinPoint.ofName?

end Patchbay
