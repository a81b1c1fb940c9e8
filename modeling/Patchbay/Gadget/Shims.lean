import Patchbay.Gadget.Basic
import Patchbay.Json.Printer

/-!
Gadgets that stand in the middle of a wire, with a pin `in` and a pin `out`. One that gives no output stops
the value there.
-/

namespace Patchbay.Gadget

def incoming (inputs : PinValues) : Json := inputs.getD "in" .null

def forward (inputs : PinValues) : PinValues := .singleton "out" (incoming inputs)

def passthrough : Gadget :=
  ofFunction ["in"] ["out"] fun inputs _ => .ok (forward inputs)

def slow (delay : Nat) : Gadget := { passthrough with delay }

/-- Lets every value pass, and notes it. -/
def tap : Gadget where
  inputs := ["in"]
  outputs := ["out"]
  process _ call := {
    result := .ok (forward call.inputs)
    notes := [.tapped call.context.gadget (incoming call.inputs)] }

def recorder : Gadget where
  inputs := ["in"]
  outputs := ["out"]
  process _ call := {
    result := .ok (forward call.inputs)
    notes := [.recorded call.inputs call.context.params] }

/-! ## Limiting a rate -/

def second : Nat := 1000000000

/-- Whether a number of values, taken as a double, is less than a rate. -/
def fewerThan (n : Nat) (rate : Double) : Bool := (Double.ofInt? n).any fun count => count.less rate

/-- Decides about a value at an instant. `window` holds the instants of the values that passed within the
last second, oldest first; a value passes when they are fewer than the rate. -/
def letPass (rate : Double) (window : List Instant) (now : Instant) : Bool × List Instant :=
  let recent := window.dropWhile fun t => second ≤ now - t
  if fewerThan recent.length rate then (true, recent ++ [now]) else (false, recent)

/-- The window that values at the given instants leave behind. -/
def windowAfter (rate : Double) (times : List Instant) : List Instant :=
  times.foldl (fun window now => (letPass rate window now).2) []

/-- Lets so many values pass a second and drops the others. -/
def rateLimit (rate : Double) : Gadget where
  inputs := ["in"]
  outputs := ["out"]
  process earlier call :=
    let window := windowAfter rate (earlier.map (·.time))
    { result := .ok (if (letPass rate window call.time).1 then forward call.inputs else ∅) }

/-- The rate that parameters give: a number `rps` that is not negative. -/
def rate? (params : Json) : Option Double := do
  let rate ← (params.get? "rps").bind Json.asDouble?
  if 0 ≤ rate.units then some rate else none

def rateLimitOf (params : Json) : Except GadgetError Gadget :=
  match rate? params with
  | some rate => .ok (rateLimit rate)
  | none => .error (.invalidParams "rate-limit"
      ("expected \x7b\"rps\": non-negative number\x7d, got " ++ params.text))

end Patchbay.Gadget
