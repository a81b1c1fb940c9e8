import Patchbay.Naming

/-!
Normal boards: every wire has an identity, and no slot has an empty list of occupants.
-/

namespace Patchbay.Board

/-- How many wires between the same ends can be told apart: their occurrences are counted with 64 bits. -/
def occurrences : Nat := Nat.pow 2 64

/-- The first candidate that is not taken, of so many from the `i`-th on. -/
def firstFree? (taken : Names) (candidate : Nat → WireId) : (left i : Nat) → Option WireId
  | 0, _ => none
  | left + 1, i =>
    if taken.contains (candidate i) then firstFree? taken candidate left (i + 1) else some (candidate i)

/-- The identity for a wire declared without one: the first of its candidates that is not taken. Where all of them are
taken the search goes round and does not end; the first candidate stands for that. -/
def freeWireId (naming : Naming) (taken : Names) (w : Wire) : WireId :=
  let candidate := naming.wire w.source w.target
  (firstFree? taken candidate occurrences 0).getD (candidate 0)

/-- Gives the wires without an identity one that is not taken, in order. -/
def nameWires (naming : Naming) (taken : Names) : List Wire → List Wire
  | [] => []
  | w :: rest =>
    if w.id = "" then
      let id := freeWireId naming taken w
      { w with id } :: nameWires naming (taken.add id) rest
    else w :: nameWires naming taken rest

def givenWireIds (b : Board) : Names :=
  .ofNames ((b.wires.map (·.id)).filter (· ≠ ""))

def normalize (naming : Naming) (b : Board) : Board :=
  { b with
    wires := nameWires naming b.givenWireIds b.wires
    occupants := b.occupants.filter fun _ list => !list.isEmpty }

end Patchbay.Board
