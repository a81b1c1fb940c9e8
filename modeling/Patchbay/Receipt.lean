import Patchbay.Graph.Diff

/-!
Receipts: what became of a request to change a board, who asked, and why. The receipts of a board, in order,
are its history.
-/

namespace Patchbay

abbrev ReceiptId := String

inductive ReceiptStatus where
  | ok
  | error
  deriving DecidableEq

/-- What became of a request. One that was refused changed nothing, and the reason tells why. -/
structure Receipt where
  id : ReceiptId
  status : ReceiptStatus
  diffs : List GraphDiff
  principal : String
  reason : String
  deriving DecidableEq

namespace Receipt

def granted (id : ReceiptId) (principal reason : String) (diffs : List GraphDiff) : Receipt :=
  { id, status := .ok, diffs, principal, reason }

def refused (id : ReceiptId) (principal reason : String) : Receipt :=
  { id, status := .error, diffs := [], principal, reason }

def isOk (r : Receipt) : Bool := r.status = .ok

end Receipt

end Patchbay
