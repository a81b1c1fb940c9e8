import Patchbay.Json.Form

/-!
Elapsed time in whole microseconds, up to the greatest 64-bit number.
-/

namespace Patchbay

/-- A span of time in whole microseconds. -/
structure Elapsed where
  micros : Nat
  micros_le : micros ≤ maxNat64
  deriving DecidableEq

namespace Elapsed

def ofMicros (n : Nat) : Elapsed := ⟨min n maxNat64, Nat.min_le_right ..⟩

def zero : Elapsed := ofMicros 0

/-- The span of whole seconds and nanoseconds, its fraction of a microsecond dropped. -/
def ofSecondsAndNanos (secs nanos : Nat) : Elapsed := ofMicros (secs * 1000000 + nanos / 1000)

/-- The sum of two spans, or the longest span. -/
def add (a b : Elapsed) : Elapsed := ofMicros (a.micros + b.micros)

instance : Add Elapsed := ⟨add⟩

def millis? (a : Elapsed) : Option Double := do (← Double.ofInt? a.micros).divNat? 1000

def display (a : Elapsed) : String := Nat.repr a.micros ++ "µs"

end Elapsed

instance : JsonForm Elapsed where
  encode a := .nat a.micros
  decode? j := do
    let n : Nat ← JsonForm.decode? j
    if h : n ≤ maxNat64 then some ⟨n, h⟩ else none

/-- A span given as whole seconds and nanoseconds. It has no other members, and its seconds stay in the
64-bit range once the nanoseconds that make whole seconds are added. -/
structure SecondsAndNanos where
  secs : Nat
  nanos : Nat

namespace SecondsAndNanos

def decode? (j : Json) : Option SecondsAndNanos := do
  let f ← Json.fields? ["secs", "nanos"] j
  if f.any fun e => e.1 ≠ "secs" && e.1 ≠ "nanos" then none
  else
    let secs : Nat ← Json.required? f "secs"
    let nanos : Nat ← Json.required? f "nanos"
    if nanos < Nat.pow 2 32 ∧ secs + nanos / 1000000000 ≤ maxNat64 then some ⟨secs, nanos⟩ else none

def toElapsed (d : SecondsAndNanos) : Elapsed := .ofSecondsAndNanos d.secs d.nanos

end SecondsAndNanos

end Patchbay
