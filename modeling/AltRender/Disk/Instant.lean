/-!
# `Disk/Instant` — times of files

A file's time is a point on the clock in nanoseconds, counted from the start of 1970 and negative
before it. Sources and cache entries are compared by whole milliseconds, which do not exist before
1970.

The two ways to read a time differ below a millisecond: an entry may count as new enough that was
written up to a millisecond before its source, in the same millisecond. A time too late for 64 bits
counts as the greatest one, which is also the one that stands for no time at all.
-/

set_option autoImplicit false

namespace AltRender.Disk

/-- Nanoseconds since the start of 1970. -/
structure Instant where
  nanoseconds : Int
  deriving DecidableEq, Repr, Inhabited

namespace Instant

/-- The instant a number of milliseconds and then of nanoseconds after the start of 1970. -/
def ofMilliseconds (ms : Int) (extra : Int) : Instant := ⟨ms * 1000000 + extra⟩

/-- The whole milliseconds since the start of 1970, at most the greatest 64-bit number; none before
it. -/
def milliseconds? (t : Instant) : Option UInt64 :=
  if t.nanoseconds < 0 then none
  else some (UInt64.ofNat (min (t.nanoseconds.toNat / 1000000) (Nat.pow 2 64 - 1)))

end Instant

end AltRender.Disk
