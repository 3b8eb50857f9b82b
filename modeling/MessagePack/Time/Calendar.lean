import MessagePack.Text.Ascii
import MessagePack.Time.Timestamp

/-! Timestamps as dates of the Gregorian calendar, extended to all years, in UTC. -/
namespace MessagePack.Calendar

structure Date where
  year : Int
  month : Nat
  day : Nat
  deriving DecidableEq, Repr

/-- The date a number of days after 1970-01-01. Years are counted from 1 March in here, so
that a leap day ends its year, and in periods of 400 years, which have 146097 days. -/
def Date.ofDays (days : Int) : Date :=
  let days := days + 719468
  let period := days / 146097
  let day := (days % 146097).toNat
  let year := (day - day / 1460 + day / 36524 - day / 146096) / 365
  let day := day - (365 * year + year / 4 - year / 100)
  let month := (5 * day + 2) / 153
  let date := day - (153 * month + 2) / 5 + 1
  let year : Int := year + period * 400
  if month < 10 then ⟨year, month + 3, date⟩ else ⟨year + 1, month - 9, date⟩

/-- Years that are not of four digits have a sign. -/
def yearText (year : Int) : List Char :=
  let digits := padLeft '0' 4 (decimal year.natAbs)
  if year < 0 then '-' :: digits
  else if 9999 < year then '+' :: digits
  else digits

def two (value : Nat) : List Char := padLeft '0' 2 (decimal value)

def secondsPerDay : Nat := 86400

def Date.text (date : Date) : List Char :=
  yearText date.year ++ '-' :: two date.month ++ '-' :: two date.day

def clockText (second : Nat) : List Char :=
  two (second / 3600) ++ ':' :: two (second / 60 % 60) ++ ':' :: two (second % 60)

def firstYear : Int := -262143
def lastYear : Int := 262142

/-- A timestamp as date and time with microseconds, these only if there is a fraction.
Outside the range of years its seconds are given alone. -/
def text (time : Timestamp) : List Char :=
  let seconds := time.seconds.toInt
  let date := Date.ofDays (seconds / secondsPerDay)
  if date.year < firstYear ∨ lastYear < date.year then signedDecimal seconds ++ ['s']
  else
    let fraction :=
      if time.nanos = 0 then []
      else '.' :: padLeft '0' 6 (decimal (time.nanos.toNat / 1000))
    date.text ++ ' ' :: clockText (seconds % secondsPerDay).toNat ++ fraction

end MessagePack.Calendar
