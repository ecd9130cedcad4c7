import GraphReasoner.Time.Calendar

/-!
# Instants

An instant is a second of universal time and a nanosecond within it. A leap second shares the number
of the second before it and has a nanosecond of a thousand million or more, so that instants are
ordered by their two fields in turn.

Instants run from the beginning of the year −262143 to the end of the year 262142. A lifetime that
leads past the end stops there: `GraphReasoner.Time.Instant.after` never overflows.

* `GraphReasoner.Time.Instant` – the type and its order;
* `GraphReasoner.Time.Instant.latest` – the last instant;
* `GraphReasoner.Time.Duration` – a length of time, and `GraphReasoner.Time.Instant.after`.
-/

namespace GraphReasoner.Time

/-- A moment of universal time. -/
structure Instant where
  /-- Seconds since the beginning of 1970. -/
  seconds : Int
  /-- Nanoseconds within the second; a thousand million and more in a leap second. -/
  nanos : Nat
deriving DecidableEq, Repr, Inhabited

namespace Instant

/-- The earlier instant comes first: seconds decide, then nanoseconds. -/
protected def compare (a b : Instant) : Ordering :=
  (compare a.seconds b.seconds).then (compare a.nanos b.nanos)

instance : Ord Instant := ⟨Instant.compare⟩

instance : LE Instant :=
  ⟨fun a b => a.seconds < b.seconds ∨ a.seconds = b.seconds ∧ a.nanos ≤ b.nanos⟩

instance : LT Instant :=
  ⟨fun a b => a.seconds < b.seconds ∨ a.seconds = b.seconds ∧ a.nanos < b.nanos⟩

instance (a b : Instant) : Decidable (a ≤ b) :=
  inferInstanceAs (Decidable (_ ∨ _ ∧ _))

instance (a b : Instant) : Decidable (a < b) :=
  inferInstanceAs (Decidable (_ ∨ _ ∧ _))

/-- The number of seconds of a day. -/
def daySeconds : Int := 86400

/-- The first year that has instants. -/
def firstYear : Int := -262143

/-- The last year that has instants. -/
def lastYear : Int := 262142

/-- The number of nanoseconds of a second. -/
def nanosPerSecond : Nat := 1000000000

/-- The last instant: the last nanosecond of the last year. -/
def latest : Instant :=
  ⟨((Date.toDays ⟨lastYear, 12, 31⟩) + 1) * daySeconds - 1, nanosPerSecond - 1⟩

/-- The first second. -/
def earliestSecond : Int :=
  Date.toDays ⟨firstYear, 1, 1⟩ * daySeconds

/-- Whether a second lies within the years that have instants. -/
def inRange (seconds : Int) : Bool :=
  earliestSecond ≤ seconds && seconds ≤ latest.seconds

/-- The earlier of two instants. -/
def earlier (a b : Instant) : Instant :=
  if b < a then b else a

/-- The later of two instants. -/
def later (a b : Instant) : Instant :=
  if a < b then b else a

end Instant

/-- A length of time, to the nanosecond. -/
structure Duration where
  /-- The length in nanoseconds. -/
  nanos : Nat
deriving DecidableEq, Repr, Inhabited

namespace Duration

/-- A number of whole seconds. -/
def ofSeconds (n : Nat) : Duration :=
  ⟨n * Instant.nanosPerSecond⟩

/-- A number of milliseconds. -/
def ofMillis (n : Nat) : Duration :=
  ⟨n * 1000000⟩

/-- The greatest length that is counted: as many milliseconds as a signed word of 64 bits holds. -/
def greatest : Duration :=
  ofMillis 9223372036854775807

end Duration

namespace Instant

/-- The instant a length of time later, or the last instant when the length is not counted or leads
past the end. -/
def after (t : Instant) (d : Duration) : Instant :=
  if Duration.greatest.nanos < d.nanos then latest
  else
    let nanos := t.nanos + d.nanos
    let seconds := t.seconds + (nanos / nanosPerSecond : Nat)
    if inRange seconds then ⟨seconds, nanos % nanosPerSecond⟩ else latest

/-- The number of whole seconds from one instant to a later one. -/
def secondsUntil (a b : Instant) : Int :=
  ((b.seconds - a.seconds) * nanosPerSecond + b.nanos - a.nanos).tdiv nanosPerSecond

end Instant

end GraphReasoner.Time
