import MessagePack.Number.Binary
import MessagePack.Text.Ascii

/-! The shortest decimal text of a binary floating-point number. A magnitude of `units`
units of `2 ^ -scale` is the whole number `units * 5 ^ scale` in units of
`10 ^ -scale`, so its decimal expansion is finite and exact. Of the decimals that
round to the number one with the fewest digits is taken, of these the nearest, and of
two equally near the larger. The point is always written out, never an exponent. -/
namespace MessagePack.Number

/-- The digits `digits * 10 ^ (places - scale)`. -/
structure Digits where
  digits : Nat
  places : Nat
  deriving DecidableEq, Repr

namespace Format

/-- The decimals that round to a finite magnitude, in quarters of `10 ^ -scale`: they lie
half way to the neighbours, which are nearer below a power of two. The ends belong to
them when the last bit of the code is 0. -/
def interval (f : Format) (code : Nat) : Nat × Nat :=
  let exponent := code >>> f.fraction
  let gap := 1 <<< (exponent - 1)
  let below := if code % (1 <<< f.fraction) = 0 ∧ 1 < exponent then gap else 2 * gap
  let quarter := 4 * f.units code
  ((quarter - below) * Nat.pow 5 f.scale, (quarter + 2 * gap) * Nat.pow 5 f.scale)

/-- Whether `value`, in units of `10 ^ -scale`, rounds to the magnitude. -/
def covers (f : Format) (code value : Nat) : Bool :=
  let (low, high) := f.interval code
  if code % 2 = 0 then low ≤ 4 * value ∧ 4 * value ≤ high
  else low < 4 * value ∧ 4 * value < high

/-- The best decimal that leaves off `places` places, if one rounds to the magnitude. -/
def atPlaces? (f : Format) (code places : Nat) : Option Digits :=
  let exact := f.units code * Nat.pow 5 f.scale
  let step := Nat.pow 10 places
  let down := exact / step
  let up := down + 1
  let downFits := f.covers code (down * step)
  let upFits := f.covers code (up * step)
  if upFits ∧ (¬downFits ∨ step ≤ 2 * (exact - down * step)) then some ⟨up, places⟩
  else if downFits then some ⟨down, places⟩
  else none

/-- Tries fewer and fewer places left off; with none the decimal is exact. -/
def shortestFrom (f : Format) (code : Nat) : Nat → Digits
  | 0 => ⟨f.units code * Nat.pow 5 f.scale, 0⟩
  | places + 1 => (f.atPlaces? code (places + 1)).getD (f.shortestFrom code places)

def shortest (f : Format) (code : Nat) : Digits :=
  f.shortestFrom code ((Nat.toDigits 10 (f.units code * Nat.pow 5 f.scale)).length - 1)

end Format

def dropTrailingZeros (digits : List Char) : List Char :=
  (digits.reverse.dropWhile (· = '0')).reverse

/-- Digits with a point before the last `scale - places` of them, or zeros behind. -/
def Digits.text (scale : Nat) (decimal : Digits) : List Char :=
  let value := decimal.digits * Nat.pow 10 (decimal.places - scale)
  let behind := scale - decimal.places
  let whole := MessagePack.decimal (value / Nat.pow 10 behind)
  let fraction := dropTrailingZeros
    (padLeft '0' behind (MessagePack.decimal (value % Nat.pow 10 behind)))
  if behind = 0 ∨ fraction = [] then whole else whole ++ '.' :: fraction

def Format.text (f : Format) (bits : Nat) : List Char :=
  let sign := if f.signBit ≤ bits then ['-'] else []
  match f.decode bits with
  | .nan => "NaN".toList
  | .infinite _ => sign ++ "inf".toList
  | .finite _ 0 => sign ++ ['0']
  | .finite _ _ => sign ++ (f.shortest (bits % f.signBit)).text f.scale

end MessagePack.Number
