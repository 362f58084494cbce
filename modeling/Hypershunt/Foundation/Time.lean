import Mathlib.Algebra.Order.Ring.Nat

/-!
# Instants and durations

Clock readings and lengths of time in nanoseconds. Instants count from an arbitrary origin that is
never later than any reading, which is all a monotonic clock promises.
-/

namespace Hypershunt

/-- A reading of the monotonic clock. -/
abbrev Instant := ℕ

/-- A length of time. -/
abbrev Duration := ℕ

/-- A wall-clock reading, in whole seconds since the Unix epoch. -/
abbrev SystemTime := ℕ

/-- `Instant::saturating_duration_since`: zero when `earlier` is in fact later. -/
def Instant.saturatingDurationSince (now earlier : Instant) : Duration := now - earlier

def Duration.fromSecs (secs : ℕ) : Duration := secs * 10 ^ 9

/-- The whole seconds of a length of time. -/
def Duration.asSecs (d : Duration) : ℕ := d / 10 ^ 9

/-- Lengths of time have this many whole seconds at most, and a fraction of one more. -/
def Duration.limit : Duration := Duration.fromSecs (2 ^ 64)

/-- `Duration::checked_add`: nothing where the sum is too large, and there `+` panics. -/
def Duration.checkedAdd (a b : Duration) : Option Duration :=
  if a + b < Duration.limit then some (a + b) else none

/-- Seconds are signed 64-bit numbers; adding a length that leads past the last one panics. -/
def Instant.limit : Instant := Duration.fromSecs (2 ^ 63)

/-- The dates of HTTP headers, as the `httpdate` crate reads and writes them. -/
structure HttpDate where
  parseHttpDate : String → Option SystemTime
  fmtHttpDate : SystemTime → String

/-- Dates that are neither read nor written: enough for messages without any. -/
def HttpDate.blank : HttpDate := ⟨fun _ ↦ none, fun _ ↦ ""⟩

end Hypershunt
