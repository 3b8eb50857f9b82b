/-! Binary floating-point numbers as bit patterns. A finite magnitude of a format is a
whole number of units, the unit being the smallest positive number `2 ^ -scale`, so
all arithmetic here is exact integer arithmetic followed by one rounding to nearest,
ties to even. Magnitudes are coded by the exponent and fraction bits together, whose
order is that of the magnitudes; the code of infinity comes right after the largest. -/
namespace MessagePack.Number

/-- An interchange format, by the widths of its fraction and exponent fields. -/
structure Format where
  fraction : Nat
  exponent : Nat
  deriving DecidableEq, Repr

/-- What a bit pattern stands for, the magnitude counted in units of its format. -/
inductive Datum where
  | nan
  | infinite (negative : Bool)
  | finite (negative : Bool) (units : Nat)
  deriving DecidableEq, Repr

/-- The whole number nearest to a quotient; of two equally near the even one. -/
def roundHalfEven (num den : Nat) : Nat :=
  let quotient := num / den
  match compare (2 * (num % den)) den with
  | .lt => quotient
  | .gt => quotient + 1
  | .eq => quotient + quotient % 2

namespace Format

def single : Format := ⟨23, 8⟩
def double : Format := ⟨52, 11⟩

def infinity (f : Format) : Nat := ((1 <<< f.exponent) - 1) <<< f.fraction

def signBit (f : Format) : Nat := 1 <<< (f.fraction + f.exponent)

def quietNan (f : Format) : Nat := f.infinity + (1 <<< (f.fraction - 1))

def scale (f : Format) : Nat := (1 <<< (f.exponent - 1)) - 2 + f.fraction

def one (f : Format) : Nat := 1 <<< f.scale

/-- The units of a coded finite magnitude. -/
def units (f : Format) (code : Nat) : Nat :=
  let exponent := code >>> f.fraction
  let fraction := code % (1 <<< f.fraction)
  if exponent = 0 then fraction else ((1 <<< f.fraction) + fraction) <<< (exponent - 1)

/-- The code of the magnitude nearest to `num / den` units. -/
def nearest (f : Format) (num den : Nat) : Nat :=
  let shift := Nat.log2 (num / den) - f.fraction
  min ((shift <<< f.fraction) + roundHalfEven num (den <<< shift)) f.infinity

def withSign (f : Format) (negative : Bool) (code : Nat) : Nat :=
  if negative then f.signBit + code else code

def decode (f : Format) (bits : Nat) : Datum :=
  let negative := decide (f.signBit ≤ bits)
  let code := bits % f.signBit
  if code < f.infinity then .finite negative (f.units code)
  else if code = f.infinity then .infinite negative
  else .nan

/-- The bits of a datum of format `source`, rounded to this format. -/
def encode (f source : Format) : Datum → Nat
  | .nan => f.quietNan
  | .infinite negative => f.withSign negative f.infinity
  | .finite negative units => f.withSign negative (f.nearest (units * f.one) source.one)

def convert (source target : Format) (bits : Nat) : Nat := target.encode source (source.decode bits)

/-- The bits nearest to a whole number; zero has no sign. -/
def ofInt (f : Format) (value : Int) : Nat :=
  f.withSign (value < 0) (f.nearest (value.natAbs * f.one) 1)

/-- The signed units of a coded finite number. -/
def signedUnits (f : Format) (bits : Nat) : Int :=
  let magnitude := f.units (bits % f.signBit)
  if f.signBit ≤ bits then -magnitude else magnitude

end Format

/-- The whole number that a datum equals, if it equals one. -/
def Datum.integer? (f : Format) : Datum → Option Int
  | .finite negative units =>
    if units % f.one = 0 then
      let whole : Int := units / f.one
      some (if negative then -whole else whole)
    else none
  | _ => none

def singleToDouble (bits : UInt32) : UInt64 := .ofNat (Format.single.convert .double bits.toNat)

def doubleToSingle (bits : UInt64) : UInt32 := .ofNat (Format.double.convert .single bits.toNat)

def doubleOfInt (value : Int) : UInt64 := .ofNat (Format.double.ofInt value)

end MessagePack.Number
