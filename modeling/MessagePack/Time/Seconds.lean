import MessagePack.Number.Binary
import MessagePack.Time.Timestamp

/-! Timestamps as double-precision numbers of seconds. -/
namespace MessagePack.Timestamp

open Number

/-- The seconds and the fraction are rounded each and then their sum. -/
def toDouble (time : Timestamp) : UInt64 :=
  let f := Format.double
  let seconds := f.signedUnits (f.ofInt time.seconds.toInt)
  let fraction := f.units (f.nearest (time.nanos.toNat * f.one) nanosPerSecond)
  let sum := seconds + fraction
  .ofNat (f.withSign (sum < 0) (f.nearest sum.natAbs 1))

/-- Seconds past either end of the range stop there, and no number is the epoch. -/
def clampSeconds (seconds : Int) : Int64 :=
  .ofInt (max Int64.minValue.toInt (min Int64.maxValue.toInt seconds))

/-- Whole seconds rounded down. What is above them is rounded to a double, then its
nanoseconds are, and a fraction that reaches a whole second is kept just below it. -/
def ofDouble (seconds : UInt64) : Timestamp :=
  let f := Format.double
  match f.decode seconds.toNat with
  | .nan => ⟨0, 0⟩
  | .infinite negative => ⟨if negative then .minValue else .maxValue, 0⟩
  | .finite negative units =>
    let value : Int := if negative then -units else units
    let above := f.units (f.nearest (value % f.one).toNat 1)
    let nanos := f.units (f.nearest (above * nanosPerSecond) 1) / f.one
    ⟨clampSeconds (value / f.one), .ofNat (min nanos (nanosPerSecond - 1))⟩

end MessagePack.Timestamp
