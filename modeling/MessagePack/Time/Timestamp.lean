/-! Points in time: the timestamps of the wire, and the clock of the host, which counts
a signed 64-bit number of seconds and a fraction below one second from the epoch. -/
namespace MessagePack

def nanosPerSecond : Nat := 1000000000

/-- A timestamp as the wire carries it. Nothing keeps a decoded fraction below one second. -/
structure Timestamp where
  seconds : Int64
  nanos : UInt32
  deriving DecidableEq, Repr

/-- Earlier seconds come first, then smaller fractions. -/
def Timestamp.compare (a b : Timestamp) : Ordering :=
  (Ord.compare a.seconds b.seconds).then (Ord.compare a.nanos b.nanos)

structure SystemTime where
  seconds : Int64
  nanos : UInt32
  nanos_lt : nanos.toNat < nanosPerSecond
  deriving DecidableEq, Repr

/-- How far a time lies from the epoch, on which side of it. -/
structure Distance where
  before : Bool
  seconds : UInt64
  nanos : UInt32
  deriving DecidableEq, Repr

namespace SystemTime

/-- Nanoseconds from the epoch. -/
def sinceEpoch (time : SystemTime) : Int :=
  time.seconds.toInt * nanosPerSecond + time.nanos.toNat

def distance (time : SystemTime) : Distance :=
  let nanos := time.sinceEpoch.natAbs
  ⟨time.sinceEpoch < 0, .ofNat (nanos / nanosPerSecond), .ofNat (nanos % nanosPerSecond)⟩

/-- The time at a distance from the epoch, if the clock reaches that far. -/
def ofDistance? (distance : Distance) : Option SystemTime :=
  let nanos : Int := distance.seconds.toNat * nanosPerSecond + distance.nanos.toNat
  let nanos := if distance.before then -nanos else nanos
  let seconds := nanos / nanosPerSecond
  if Int64.minValue.toInt ≤ seconds ∧ seconds ≤ Int64.maxValue.toInt then
    some ⟨.ofInt seconds, .ofNat (nanos % nanosPerSecond).toNat, by
      have := Int.emod_lt_of_pos nanos (b := nanosPerSecond) (by decide)
      have := Int.emod_nonneg nanos (b := nanosPerSecond) (by decide)
      simp only [nanosPerSecond, UInt32.toNat_ofNat'] at *
      omega⟩
  else none

end SystemTime

namespace Timestamp

/-- The width of the seconds in the form that packs them with the fraction. -/
def secondsBits : Nat := 34

/-- A number of seconds, none past the ends of its word. -/
def seconds? (value : Int) : Option Int64 :=
  if Int64.minValue.toInt ≤ value ∧ value ≤ Int64.maxValue.toInt then some (.ofInt value) else none

/-- Before the epoch the distance is turned into whole seconds rounded down and a
fraction above them. There is no answer where a step goes past the ends of its word. -/
def ofSystemTime? (time : SystemTime) : Option Timestamp :=
  match time.distance with
  | ⟨false, seconds, nanos⟩ => some ⟨seconds.toInt64, nanos⟩
  | ⟨true, seconds, nanos⟩ => do
    let seconds ← seconds? (-seconds.toInt64.toInt)
    if nanos = 0 then some ⟨seconds, 0⟩
    else
      let seconds ← seconds? (seconds.toInt - 1)
      some ⟨seconds, .ofNat nanosPerSecond - nanos⟩

/-- A time that has a timestamp. -/
def ofSystemTime (time : SystemTime) (held : (ofSystemTime? time).isSome) : Timestamp :=
  (ofSystemTime? time).get held

/-- A fraction of a second or more is no time of the clock. -/
def toSystemTime? (time : Timestamp) : Option SystemTime :=
  if h : time.nanos.toNat < nanosPerSecond then some ⟨time.seconds, time.nanos, h⟩ else none

end Timestamp
end MessagePack
