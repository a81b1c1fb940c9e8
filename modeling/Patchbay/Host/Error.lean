import Patchbay.Binder.Basic
import Patchbay.Gadget.Basic

/-!
What may go wrong at a host.
-/

namespace Patchbay

inductive HostError where
  | boardNotFound (id : BoardId)
  | boardExists (id : BoardId)
  | gadgetNotFound (id : GadgetId)
  | pinNotFound (gadget : GadgetId) (pin : PinName)
  | rejected (reason : String)
  | binder (cause : BinderError)
  | contact (cause : ContactError)
  | gadget (cause : GadgetError)
  | lattice (cause : LatticeError)
  deriving DecidableEq

def HostError.message : HostError → String
  | .boardNotFound id => "board not found: " ++ id
  | .boardExists id => "board already initialized: " ++ id
  | .gadgetNotFound id => "gadget not found on board: " ++ id
  | .pinNotFound id pin => "gadget not found on board: " ++ id ++ "." ++ pin
  | .rejected reason => "plan rejected: " ++ reason
  | .binder cause => "binder error: " ++ cause.message
  | .contact cause => "contact error: " ++ cause.message
  | .gadget cause => "gadget error: " ++ cause.message
  | .lattice cause => "lattice error: " ++ cause.message

end Patchbay
