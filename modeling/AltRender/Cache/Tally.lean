import AltRender.Decimal.Reading

/-!
# `Cache/Tally` — what a cache has done so far

Four counters: checks that found a current entry, checks that did not, entries written, entries
removed.

Nothing is ever taken off a counter. The counts are numbers without bound, as no run of the program
comes near 2 ^ 64 of anything; only the share of hits is a double, which is what a report shows.
What the counters have to do with the renders of a run is said in `Proofs/Render/Account`.
-/

set_option autoImplicit false

namespace AltRender

open AltRender.Decimal

structure Tally where
  hits : Nat
  misses : Nat
  writes : Nat
  evictions : Nat
  deriving DecidableEq, Repr

namespace Tally

def zero : Tally := ⟨0, 0, 0, 0⟩

def addCheck (t : Tally) (hit : Bool) : Tally :=
  if hit then { t with hits := t.hits + 1 } else { t with misses := t.misses + 1 }

def addWrite (t : Tally) : Tally := { t with writes := t.writes + 1 }

def addEvictions (t : Tally) (n : Nat) : Tally := { t with evictions := t.evictions + n }

/-- The double nearest to a natural number. -/
def asFloat (n : Nat) : Float := ofDecimal false n 0

/-- **The share of checks that found a current entry,** 0 if there were none. -/
def hitRatio (t : Tally) : Float :=
  if t.hits + t.misses = 0 then 0.0 else asFloat t.hits / asFloat (t.hits + t.misses)

end Tally

end AltRender
