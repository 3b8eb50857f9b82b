import Mathlib.Tactic
import MessagePack.Number.Binary

/-! What bit patterns stand for, as exact numbers, and the numbers that rounding leaves as they are.
A magnitude that a format has is the nearest one to itself, so converting it into a wider format and
back again, or making a whole number of it and a real of that, changes nothing. -/
namespace MessagePack.Number

/-- The exact number of a bit pattern. -/
inductive Meaning where
  | nan
  | infinite (negative : Bool)
  | finite (negative : Bool) (magnitude : ℚ)

/-- The number, where it is one. Both zeros are the same number. -/
def Meaning.value? : Meaning → Option ℚ
  | .finite negative magnitude => some (if negative then -magnitude else magnitude)
  | _ => none

/-- The number of a datum, which has its units from the format. -/
def Datum.meaning (f : Format) : Datum → Meaning
  | .nan => .nan
  | .infinite negative => .infinite negative
  | .finite negative units => .finite negative (units / 2 ^ f.scale)

namespace Format

/-- The fields of a pattern, and what they say: a sign, an exponent with a bias, and a fraction
above one, or above zero at the least exponent. -/
def meaning (f : Format) (bits : Nat) : Meaning :=
  let negative := decide (bits / 2 ^ (f.fraction + f.exponent) % 2 = 1)
  let exponent := bits / 2 ^ f.fraction % 2 ^ f.exponent
  let fraction : ℚ := (bits % 2 ^ f.fraction : Nat) / 2 ^ f.fraction
  let bias : ℤ := 2 ^ (f.exponent - 1) - 1
  if exponent = 2 ^ f.exponent - 1 then if fraction = 0 then .infinite negative else .nan
  else if exponent = 0 then .finite negative (fraction * 2 ^ (1 - bias))
  else .finite negative ((1 + fraction) * 2 ^ (exponent - bias))

variable {f : Format} {bits code : Nat} {negative : Bool}

/-! ### Codes -/

theorem infinity_eq (f : Format) : f.infinity = (2 ^ f.exponent - 1) * 2 ^ f.fraction := by
  rw [infinity, Nat.shiftLeft_eq, Nat.one_shiftLeft]

theorem signBit_eq (f : Format) : f.signBit = 2 ^ f.exponent * 2 ^ f.fraction := by
  rw [signBit, Nat.one_shiftLeft, Nat.pow_add, Nat.mul_comm]

theorem one_eq (f : Format) : f.one = 2 ^ f.scale := by rw [one, Nat.one_shiftLeft]

theorem one_pos (f : Format) : 0 < f.one := by
  rw [one_eq]
  exact Nat.two_pow_pos _

theorem infinity_lt_signBit (f : Format) : f.infinity < f.signBit := by
  rw [infinity_eq, signBit_eq]
  have positive := Nat.two_pow_pos f.exponent
  exact Nat.mul_lt_mul_of_pos_right (by omega) (Nat.two_pow_pos _)

theorem units_of_lt (small : code < 2 ^ f.fraction) : f.units code = code := by
  simp only [units, Nat.shiftRight_eq_div_pow, Nat.one_shiftLeft]
  rw [if_pos (Nat.div_eq_of_lt small), Nat.mod_eq_of_lt small]

theorem fields_of_split (shift : Nat) {rest : Nat} (below : rest < 2 ^ f.fraction) :
    (shift * 2 ^ f.fraction + (2 ^ f.fraction + rest)) / 2 ^ f.fraction = shift + 1 ∧
    (shift * 2 ^ f.fraction + (2 ^ f.fraction + rest)) % 2 ^ f.fraction = rest := by
  have split : shift * 2 ^ f.fraction + (2 ^ f.fraction + rest) =
      rest + 2 ^ f.fraction * (shift + 1) := by ring
  rw [split, Nat.add_mul_div_left _ _ (Nat.two_pow_pos _), Nat.div_eq_of_lt below,
    Nat.add_mul_mod_self_left, Nat.mod_eq_of_lt below]
  exact ⟨Nat.zero_add _, rfl⟩

theorem units_of_split (shift : Nat) {rest : Nat} (below : rest < 2 ^ f.fraction) :
    f.units (shift * 2 ^ f.fraction + (2 ^ f.fraction + rest)) =
      (2 ^ f.fraction + rest) * 2 ^ shift := by
  obtain ⟨exponent, fraction⟩ := fields_of_split shift below
  simp only [units, Nat.shiftRight_eq_div_pow, Nat.one_shiftLeft]
  rw [exponent, fraction, if_neg (Nat.succ_ne_zero shift), Nat.shiftLeft_eq, Nat.add_sub_cancel]

theorem code_cases (f : Format) (code : Nat) :
    code < 2 ^ f.fraction ∨ ∃ shift rest, rest < 2 ^ f.fraction ∧
      code = shift * 2 ^ f.fraction + (2 ^ f.fraction + rest) := by
  rcases Nat.lt_or_ge code (2 ^ f.fraction) with small | large
  · exact .inl small
  · have positive := Nat.two_pow_pos f.fraction
    have whole := Nat.div_add_mod' code (2 ^ f.fraction)
    obtain ⟨shift, exponent⟩ : ∃ shift, code / 2 ^ f.fraction = shift + 1 :=
      ⟨_, (Nat.succ_pred_eq_of_pos (Nat.div_pos large positive)).symm⟩
    rw [exponent, Nat.add_mul, Nat.one_mul] at whole
    exact .inr ⟨shift, _, Nat.mod_lt code positive, by omega⟩

/-! ### Rounding -/

theorem roundHalfEven_mul (quotient : Nat) {den : Nat} (some : 0 < den) :
    roundHalfEven (quotient * den) den = quotient := by
  rw [roundHalfEven, Nat.mul_div_cancel _ some, Nat.mul_mod_left, Nat.mul_zero,
    Nat.compare_eq_lt.mpr some]

theorem nearest_units (below : code < f.infinity) {den : Nat} (some : 0 < den) :
    f.nearest (f.units code * den) den = code := by
  rw [nearest, Nat.mul_div_cancel _ some]
  rcases f.code_cases code with small | ⟨shift, rest, within, rfl⟩
  · have none : Nat.log2 code - f.fraction = 0 := by
      rcases Nat.eq_zero_or_pos code with rfl | positive
      · rw [Nat.log2_zero, Nat.zero_sub]
      · exact Nat.sub_eq_zero_of_le ((Nat.log2_lt positive.ne').mpr small).le
    rw [units_of_lt small, none, Nat.shiftLeft_zero, Nat.zero_shiftLeft, roundHalfEven_mul _ some,
      Nat.zero_add, Nat.min_eq_left below.le]
  · have power := Nat.two_pow_pos shift
    have leading := Nat.two_pow_pos f.fraction
    have log : Nat.log2 ((2 ^ f.fraction + rest) * 2 ^ shift) = f.fraction + shift := by
      rw [Nat.log2_eq_iff (Nat.mul_pos (by omega) power).ne', Nat.pow_add, Nat.add_right_comm,
        Nat.pow_add, Nat.pow_succ]
      exact ⟨Nat.mul_le_mul_right _ (by omega), Nat.mul_lt_mul_of_pos_right (by omega) power⟩
    have size : 0 < den <<< shift := by
      rw [Nat.shiftLeft_eq]
      exact Nat.mul_pos some power
    rw [units_of_split shift within, log, Nat.add_sub_cancel_left, Nat.mul_assoc,
      Nat.mul_comm (2 ^ shift), ← Nat.shiftLeft_eq den, roundHalfEven_mul _ size, Nat.shiftLeft_eq,
      Nat.min_eq_left below.le]

/-- A number of units that has no more bits than a significand, but for zeros behind them, is a
magnitude of the format where it is below the infinite. -/
theorem exists_code {significand shift : Nat} (wide : 2 ≤ f.exponent)
    (narrow : significand < 2 ^ (f.fraction + 1))
    (below : significand * 2 ^ shift < 2 ^ (f.fraction + (2 ^ f.exponent - 2))) :
    ∃ code, code < f.infinity ∧ f.units code = significand * 2 ^ shift := by
  rcases Nat.lt_or_ge significand (2 ^ f.fraction) with small | normal
  · cases shift with
    | zero =>
      have exponents : 2 ^ 2 ≤ 2 ^ f.exponent := Nat.pow_le_pow_right (by decide) wide
      rw [Nat.pow_zero, Nat.mul_one]
      refine ⟨significand, ?_, units_of_lt small⟩
      rw [infinity_eq]
      exact small.trans_le (Nat.le_mul_of_pos_left _ (by omega))
    | succ shift =>
      -- The significand has room for one zero more.
      have same : significand * 2 ^ (shift + 1) = 2 * significand * 2 ^ shift := by ring
      rw [same] at below ⊢
      exact exists_code wide (by rw [Nat.pow_succ]; omega) below
  · obtain ⟨rest, rfl⟩ := Nat.exists_eq_add_of_le normal
    rw [Nat.pow_succ] at narrow
    have within : rest < 2 ^ f.fraction := by omega
    refine ⟨shift * 2 ^ f.fraction + (2 ^ f.fraction + rest), ?_, units_of_split shift within⟩
    have least : 2 ^ (f.fraction + shift) < 2 ^ (f.fraction + (2 ^ f.exponent - 2)) := by
      rw [Nat.pow_add]
      exact (Nat.mul_le_mul_right _ normal).trans_lt below
    have exponent : shift + 2 ≤ 2 ^ f.exponent - 1 := by
      have := (Nat.pow_lt_pow_iff_right (by decide)).mp least
      omega
    rw [infinity_eq]
    refine Nat.lt_of_lt_of_le ?_ (Nat.mul_le_mul_right _ exponent)
    rw [Nat.add_mul]
    omega
termination_by shift

/-! ### Patterns -/

theorem decode_withSign (negative : Bool) (low : code < f.signBit) :
    f.decode (f.withSign negative code) =
      if code < f.infinity then .finite negative (f.units code)
      else if code = f.infinity then .infinite negative else .nan := by
  have sign : decide (f.signBit ≤ f.withSign negative code) = negative := by
    cases negative with
    | true => simp [withSign]
    | false => simpa [withSign] using low
  have magnitude : f.withSign negative code % f.signBit = code := by
    cases negative <;> simp [withSign, Nat.mod_eq_of_lt low]
  simp only [decode, sign, magnitude]

theorem decode_finite (negative : Bool) (below : code < f.infinity) :
    f.decode (f.withSign negative code) = .finite negative (f.units code) := by
  rw [decode_withSign negative (below.trans f.infinity_lt_signBit), if_pos below]

theorem decode_infinite (f : Format) (negative : Bool) :
    f.decode (f.withSign negative f.infinity) = .infinite negative := by
  rw [decode_withSign negative f.infinity_lt_signBit, if_neg (lt_irrefl _), if_pos rfl]

theorem exists_withSign (short : bits < 2 * f.signBit) :
    ∃ negative code, code < f.signBit ∧ bits = f.withSign negative code := by
  by_cases sign : f.signBit ≤ bits
  · refine ⟨true, bits - f.signBit, by omega, ?_⟩
    rw [withSign, if_pos rfl]
    omega
  · exact ⟨false, bits, by omega, rfl⟩

theorem decode_cases (short : bits < 2 * f.signBit) :
    (∃ negative code, code < f.infinity ∧ bits = f.withSign negative code) ∨
    (∃ negative, bits = f.withSign negative f.infinity) ∨ f.decode bits = .nan := by
  obtain ⟨negative, code, low, rfl⟩ := exists_withSign short
  rcases Nat.lt_trichotomy code f.infinity with finite | rfl | other
  · exact .inl ⟨negative, code, finite, rfl⟩
  · exact .inr (.inl ⟨negative, rfl⟩)
  · refine .inr (.inr ?_)
    rw [decode_withSign negative low, if_neg other.not_gt, if_neg other.ne']

theorem withSign_lt (negative : Bool) (low : code < f.signBit) :
    f.withSign negative code < 2 * f.signBit := by
  cases negative <;> simp only [withSign, if_true, if_false, Bool.false_eq_true] <;> omega

/-! ### Meaning -/

theorem fields_withSign (negative : Bool) (low : code < f.signBit) :
    f.withSign negative code / 2 ^ (f.fraction + f.exponent) % 2 = negative.toNat ∧
    f.withSign negative code / 2 ^ f.fraction % 2 ^ f.exponent = code / 2 ^ f.fraction ∧
    f.withSign negative code % 2 ^ f.fraction = code % 2 ^ f.fraction := by
  have sign : 2 ^ (f.fraction + f.exponent) = f.signBit := by rw [signBit, Nat.one_shiftLeft]
  have split : f.signBit = 2 ^ f.fraction * 2 ^ f.exponent := by rw [signBit_eq, Nat.mul_comm]
  have exponent : code / 2 ^ f.fraction < 2 ^ f.exponent := by
    rwa [Nat.div_lt_iff_lt_mul (Nat.two_pow_pos _), ← signBit_eq]
  cases negative with
  | true =>
    rw [withSign, if_pos rfl, sign]
    refine ⟨?_, ?_, ?_⟩
    · rw [Nat.add_div_left _ (by omega), Nat.div_eq_of_lt low]
      rfl
    · rw [split, Nat.mul_add_div (Nat.two_pow_pos _), Nat.add_mod_left, Nat.mod_eq_of_lt exponent]
    · rw [split, Nat.mul_add_mod]
  | false =>
    rw [withSign, if_neg (by decide), sign]
    exact ⟨by rw [Nat.div_eq_of_lt low]; rfl, Nat.mod_eq_of_lt exponent, rfl⟩

theorem cast_scale (wide : 2 ≤ f.exponent) :
    (f.scale : ℤ) = 2 ^ (f.exponent - 1) - 1 - 1 + f.fraction := by
  have least : 2 ≤ 2 ^ (f.exponent - 1) := Nat.le_self_pow (by omega) 2
  rw [scale, Nat.one_shiftLeft, Nat.cast_add, Nat.cast_sub least]
  push_cast
  ring

theorem div_mul_zpow (significand : ℚ) {places shift size : ℕ} {exponent : ℤ}
    (same : exponent - places = shift - size) :
    significand / 2 ^ places * 2 ^ exponent = significand * 2 ^ shift / 2 ^ size := by
  have power : (2 : ℚ) ^ exponent = 2 ^ shift * 2 ^ places / 2 ^ size := by
    rw [← zpow_natCast, ← zpow_natCast, ← zpow_natCast, ← zpow_add₀ two_ne_zero,
      ← zpow_sub₀ two_ne_zero]
    congr 1
    omega
  rw [power]
  field_simp

theorem meaning_finite (wide : 2 ≤ f.exponent) (negative : Bool) (below : code < f.infinity) :
    f.meaning (f.withSign negative code) = .finite negative (f.units code / 2 ^ f.scale) := by
  obtain ⟨sign, exponent, fraction⟩ :=
    fields_withSign negative (below.trans f.infinity_lt_signBit)
  have negates : decide (negative.toNat = 1) = negative := by cases negative <;> rfl
  have size := cast_scale wide
  rw [infinity_eq] at below
  rw [meaning, sign, exponent, fraction, negates]
  rcases f.code_cases code with small | ⟨shift, rest, within, rfl⟩
  · have exponents : 2 ^ 2 ≤ 2 ^ f.exponent := Nat.pow_le_pow_right (by decide) wide
    have same : (1 : ℤ) - (2 ^ (f.exponent - 1) - 1) - f.fraction = (0 : ℕ) - f.scale := by
      rw [size]
      push_cast
      ring
    rw [Nat.div_eq_of_lt small, Nat.mod_eq_of_lt small, units_of_lt small, if_neg (by omega),
      if_pos rfl, div_mul_zpow _ same, pow_zero, mul_one]
  · obtain ⟨exponent, fraction⟩ := fields_of_split shift within
    have finite : shift + 1 ≠ 2 ^ f.exponent - 1 := by
      intro last
      rw [← last, Nat.add_mul] at below
      omega
    have significand : (1 : ℚ) + rest / 2 ^ f.fraction =
        (2 ^ f.fraction + rest : ℕ) / 2 ^ f.fraction := by
      push_cast
      field_simp
    have same : ((shift + 1 : ℕ) : ℤ) - (2 ^ (f.exponent - 1) - 1) - f.fraction =
        shift - f.scale := by
      rw [size]
      push_cast
      ring
    rw [exponent, fraction, units_of_split shift within, if_neg finite,
      if_neg (Nat.succ_ne_zero shift), significand, div_mul_zpow _ same]
    push_cast
    rfl

theorem meaning_withSign (wide : 2 ≤ f.exponent) (negative : Bool) (low : code < f.signBit) :
    f.meaning (f.withSign negative code) = (f.decode (f.withSign negative code)).meaning f := by
  rw [decode_withSign negative low]
  by_cases below : code < f.infinity
  · rw [if_pos below, meaning_finite wide negative below, Datum.meaning]
  · obtain ⟨sign, exponent, fraction⟩ := fields_withSign negative low
    have negates : decide (negative.toNat = 1) = negative := by cases negative <;> rfl
    have positive := Nat.two_pow_pos f.exponent
    have last : code / 2 ^ f.fraction = 2 ^ f.exponent - 1 := by
      rw [infinity_eq] at below
      apply Nat.div_eq_of_lt_le (Nat.le_of_not_lt below)
      rwa [Nat.sub_add_cancel positive, ← signBit_eq]
    have whole := Nat.div_add_mod' code (2 ^ f.fraction)
    rw [last, ← infinity_eq] at whole
    rw [if_neg below, meaning, sign, exponent, fraction, negates, if_pos last]
    by_cases none : code % 2 ^ f.fraction = 0
    · rw [none, if_pos (by simp), if_pos (by omega), Datum.meaning]
    · rw [if_neg (by simp [none]), if_neg (by omega), Datum.meaning]

theorem meaning_eq (wide : 2 ≤ f.exponent) (short : bits < 2 * f.signBit) :
    f.meaning bits = (f.decode bits).meaning f := by
  obtain ⟨negative, code, low, rfl⟩ := exists_withSign short
  exact meaning_withSign wide negative low

/-- Two patterns of one number, the zeros of both signs being two, are one pattern. -/
theorem decode_inj {other : Nat} (short : bits < 2 * f.signBit) (brief : other < 2 * f.signBit)
    (number : f.decode bits ≠ .nan) (same : f.decode other = f.decode bits) : other = bits := by
  have units {code other : Nat} (below : code < f.infinity) (under : other < f.infinity)
      (same : f.units other = f.units code) : other = code := by
    have nearest := nearest_units under Nat.one_pos
    rwa [same, nearest_units below Nat.one_pos, eq_comm] at nearest
  rcases decode_cases short with ⟨negative, code, below, rfl⟩ | ⟨negative, rfl⟩ | nan
  · rw [decode_finite negative below] at same
    rcases decode_cases brief with ⟨_, _, under, rfl⟩ | ⟨_, rfl⟩ | nan
    · rw [decode_finite _ under] at same
      obtain ⟨rfl, equal⟩ := Datum.finite.inj same
      rw [units below under equal]
    · rw [decode_infinite] at same
      cases same
    · cases nan.symm.trans same
  · rw [decode_infinite] at same
    rcases decode_cases brief with ⟨_, _, under, rfl⟩ | ⟨_, rfl⟩ | nan
    · rw [decode_finite _ under] at same
      cases same
    · rw [decode_infinite] at same
      cases same
      rfl
    · cases nan.symm.trans same
  · exact absurd nan number

theorem meaning_inj {other : Nat} (wide : 2 ≤ f.exponent) (short : bits < 2 * f.signBit)
    (brief : other < 2 * f.signBit) (number : f.meaning bits ≠ .nan)
    (same : f.meaning other = f.meaning bits) : other = bits := by
  rw [meaning_eq wide short] at number same
  rw [meaning_eq wide brief] at same
  apply decode_inj short brief
  · intro nan
    rw [nan] at number
    exact number rfl
  · generalize f.decode bits = datum at number same ⊢
    generalize f.decode other = second at same ⊢
    cases datum <;> cases second <;> simp_all [Datum.meaning]

end Format

/-! ### Wider formats -/

/-- A format that has all numbers of another one. -/
structure Format.Within (source target : Format) : Prop where
  exponent : 2 ≤ source.exponent ∧ 2 ≤ target.exponent
  fraction : source.fraction ≤ target.fraction
  scale : source.scale ≤ target.scale
  range : source.fraction + 2 ^ source.exponent + (target.scale - source.scale) ≤
    target.fraction + (2 ^ target.exponent - 2)

namespace Format.Within

variable {source target : Format} {bits code : Nat}

theorem single_double : Within single double := by
  constructor <;> decide

/-- The same magnitude in the smaller units of the wider format. -/
theorem exists_units (within : source.Within target) (below : code < source.infinity) :
    ∃ wide, wide < target.infinity ∧
      target.units wide = source.units code * 2 ^ (target.scale - source.scale) := by
  have leading := Nat.two_pow_pos source.fraction
  have room : 2 ^ (source.fraction + 1) ≤ 2 ^ (target.fraction + 1) :=
    Nat.pow_le_pow_right (by decide) (Nat.succ_le_succ within.fraction)
  obtain ⟨significand, shift, narrow, split, few⟩ : ∃ significand shift,
      significand < 2 ^ (source.fraction + 1) ∧ source.units code = significand * 2 ^ shift ∧
      shift + 1 ≤ 2 ^ source.exponent := by
    rcases source.code_cases code with small | ⟨shift, rest, inside, rfl⟩
    · exact ⟨code, 0, by rw [Nat.pow_succ]; omega, by rw [units_of_lt small]; omega,
        Nat.two_pow_pos _⟩
    · refine ⟨_, shift, by rw [Nat.pow_succ]; omega, units_of_split shift inside, ?_⟩
      by_contra large
      have := Nat.mul_le_mul_right (2 ^ source.fraction) (Nat.le_of_not_le large)
      rw [infinity_eq, Nat.sub_mul] at below
      rw [Nat.add_mul] at this
      omega
  rw [split, Nat.mul_assoc, ← Nat.pow_add]
  apply exists_code within.exponent.2 (narrow.trans_le room)
  have power := Nat.two_pow_pos (shift + (target.scale - source.scale))
  calc
    _ < 2 ^ (source.fraction + 1) * 2 ^ (shift + (target.scale - source.scale)) :=
      Nat.mul_lt_mul_of_pos_right narrow power
    _ = 2 ^ (source.fraction + 1 + (shift + (target.scale - source.scale))) :=
      (Nat.pow_add ..).symm
    _ ≤ _ := Nat.pow_le_pow_right (by decide) (by have := within.range; omega)

/-- A number is converted into the same number, and back into the same bits. -/
theorem convert (within : source.Within target) (short : bits < 2 * source.signBit)
    (number : source.meaning bits ≠ .nan) :
    source.convert target bits < 2 * target.signBit ∧
      target.meaning (source.convert target bits) = source.meaning bits ∧
      target.convert source (source.convert target bits) = bits := by
  rcases decode_cases short with ⟨negative, code, below, rfl⟩ | ⟨negative, rfl⟩ | nan
  · obtain ⟨wide, under, units⟩ := within.exists_units below
    have lift : target.one = 2 ^ (target.scale - source.scale) * source.one := by
      rw [one_eq, one_eq, ← Nat.pow_add, Nat.sub_add_cancel within.scale]
    have same : source.units code * target.one = target.units wide * source.one := by
      rw [lift, units, Nat.mul_assoc]
    have there : source.convert target (source.withSign negative code) =
        target.withSign negative wide := by
      simp only [Format.convert, decode_finite negative below, encode]
      rw [same, nearest_units under source.one_pos]
    have back : target.convert source (target.withSign negative wide) =
        source.withSign negative code := by
      simp only [Format.convert, decode_finite negative under, encode]
      rw [← same, nearest_units below target.one_pos]
    rw [there]
    refine ⟨withSign_lt negative (under.trans target.infinity_lt_signBit), ?_, back⟩
    have scale : (2 : ℚ) ^ target.scale = 2 ^ (target.scale - source.scale) * 2 ^ source.scale := by
      rw [← pow_add, Nat.sub_add_cancel within.scale]
    rw [meaning_finite within.exponent.2 negative under,
      meaning_finite within.exponent.1 negative below, units, scale]
    push_cast
    rw [mul_comm, mul_div_mul_left _ _ (pow_ne_zero _ two_ne_zero)]
  · have there : source.convert target (source.withSign negative source.infinity) =
        target.withSign negative target.infinity := by
      simp only [Format.convert, decode_infinite, encode]
    have back : target.convert source (target.withSign negative target.infinity) =
        source.withSign negative source.infinity := by
      simp only [Format.convert, decode_infinite, encode]
    rw [there]
    refine ⟨withSign_lt negative target.infinity_lt_signBit, ?_, back⟩
    rw [meaning_withSign within.exponent.2 negative target.infinity_lt_signBit,
      meaning_withSign within.exponent.1 negative source.infinity_lt_signBit,
      decode_infinite, decode_infinite, Datum.meaning, Datum.meaning]
  · rw [meaning_eq within.exponent.1 short, nan] at number
    exact absurd rfl number

end Format.Within

/-! ### Whole numbers -/

namespace Format

variable {f : Format} {bits : Nat} {value : Int}

theorem cast_div_eq_iff (units : Nat) {size : Nat} (some : 0 < size) (value : ℤ) :
    (units : ℚ) / size = value ↔ units % size = 0 ∧ (units : ℤ) / size = value := by
  have nonzero : (size : ℚ) ≠ 0 := Nat.cast_ne_zero.mpr some.ne'
  rw [div_eq_iff nonzero]
  constructor
  · intro same
    have whole : (units : ℤ) = value * size := by exact_mod_cast same
    have divides : size ∣ units := Int.natCast_dvd_natCast.mp ⟨value, by rw [whole, Int.mul_comm]⟩
    refine ⟨Nat.mod_eq_zero_of_dvd divides, ?_⟩
    rw [whole, Int.mul_ediv_cancel _ (Nat.cast_ne_zero.mpr some.ne')]
  · rintro ⟨whole, rfl⟩
    obtain ⟨count, rfl⟩ := Nat.dvd_of_mod_eq_zero whole
    push_cast
    rw [Int.mul_ediv_cancel_left _ (Nat.cast_ne_zero.mpr some.ne')]
    push_cast
    ring

theorem integer?_eq_some_iff (wide : 2 ≤ f.exponent) (short : bits < 2 * f.signBit) :
    (f.decode bits).integer? f = some value ↔ (f.meaning bits).value? = some (value : ℚ) := by
  rw [meaning_eq wide short]
  generalize f.decode bits = datum
  cases datum with
  | nan => simp [Datum.integer?, Datum.meaning, Meaning.value?]
  | infinite => simp [Datum.integer?, Datum.meaning, Meaning.value?]
  | finite negative units =>
    have exact (value : ℤ) := cast_div_eq_iff units f.one_pos value
    have size : (f.one : ℚ) = 2 ^ f.scale := by rw [one_eq]; push_cast; rfl
    simp only [size] at exact
    simp only [Datum.integer?, Datum.meaning, Meaning.value?, Option.some.injEq]
    cases negative with
    | true =>
      have negated := exact (-value)
      push_cast at negated
      simp only [if_true, neg_eq_iff_eq_neg, negated]
      split <;> simp_all [neg_eq_iff_eq_neg]
    | false =>
      simp only [Bool.false_eq_true, if_false, exact]
      split <;> simp_all

theorem units_eq_zero_iff (code : Nat) : f.units code = 0 ↔ code = 0 := by
  rcases f.code_cases code with small | ⟨shift, rest, below, rfl⟩
  · rw [units_of_lt small]
  · have leading := Nat.two_pow_pos f.fraction
    have power := Nat.two_pow_pos shift
    rw [units_of_split shift below, Nat.mul_eq_zero]
    omega

/-- What is whole has units of a count of whole ones, and the count is the number but for its
sign. -/
theorem exists_count {negative : Bool} {code : Nat} (below : code < f.infinity)
    (whole : (f.decode (f.withSign negative code)).integer? f = some value) :
    ∃ count : Nat, f.units code = f.one * count ∧
      value = if negative then -(count : ℤ) else count := by
  rw [decode_finite negative below] at whole
  simp only [Datum.integer?] at whole
  split at whole
  · rename_i divides
    obtain ⟨count, units⟩ := Nat.dvd_of_mod_eq_zero divides
    have size : (f.units code : ℤ) / f.one = count := by
      rw [units, Nat.cast_mul, Int.mul_ediv_cancel_left _ (Nat.cast_ne_zero.mpr f.one_pos.ne')]
    rw [size, Option.some.injEq] at whole
    exact ⟨count, units, whole.symm⟩
  · cases whole

/-- The pattern of a whole number is made of it again, but for the zero with a sign. -/
theorem ofInt_integer? (short : bits < 2 * f.signBit)
    (whole : (f.decode bits).integer? f = some value) :
    f.ofInt value = if bits = f.signBit then 0 else bits := by
  rcases decode_cases short with ⟨negative, code, below, rfl⟩ | ⟨negative, rfl⟩ | nan
  · obtain ⟨count, units, number⟩ := exists_count below whole
    have low := below.trans f.infinity_lt_signBit
    have magnitude : f.nearest (value.natAbs * f.one) 1 = code := by
      have same : value.natAbs = count := by rw [number]; split <;> simp
      have nearest := nearest_units below Nat.one_pos
      rwa [units, Nat.mul_one, Nat.mul_comm, ← same] at nearest
    have zero : count = 0 ↔ code = 0 := by
      have none := units_eq_zero_iff (f := f) code
      rwa [units, Nat.mul_eq_zero, or_iff_right f.one_pos.ne'] at none
    have sign : value < 0 ↔ negative = true ∧ code ≠ 0 := by
      rw [ne_eq, ← zero, number]
      cases negative with
      | true =>
        simp only [if_true, true_and]
        omega
      | false => simp
    rw [ofInt, magnitude]
    by_cases none : code = 0 <;> cases negative <;> simp [withSign, sign, none]
    omega
  · rw [decode_infinite] at whole
    cases whole
  · rw [nan] at whole
    cases whole

end Format

/-! ### Words -/

open Format

theorem singleToDouble_exact {bits : UInt32} (number : single.meaning bits.toNat ≠ .nan) :
    double.meaning (singleToDouble bits).toNat = single.meaning bits.toNat ∧
      doubleToSingle (singleToDouble bits) = bits := by
  obtain ⟨short, same, back⟩ := Within.single_double.convert bits.toNat_lt number
  have word : (singleToDouble bits).toNat = single.convert double bits.toNat :=
    UInt64.toNat_ofNat_of_lt' short
  rw [doubleToSingle, word, back]
  exact ⟨same, UInt32.ofNat_toNat⟩

theorem singleToDouble_nan {bits : UInt32} (nan : single.meaning bits.toNat = .nan) :
    double.meaning (singleToDouble bits).toNat = .nan := by
  rw [meaning_eq (by decide) bits.toNat_lt] at nan
  have none : single.decode bits.toNat = .nan := by
    cases decoded : single.decode bits.toNat <;> simp_all [Datum.meaning]
  have word : singleToDouble bits = .ofNat double.quietNan := by
    rw [singleToDouble, Format.convert, none, encode]
  have quiet : double.decode (UInt64.ofNat double.quietNan).toNat = .nan := by decide
  rw [word, meaning_eq (by decide) (UInt64.toNat_lt _), quiet, Datum.meaning]

/-- A double that narrowing and widening give back is the same number as the float. -/
theorem narrows_iff (bits : UInt64) (narrow : UInt32) :
    (double.decode bits.toNat ≠ .nan ∧ singleToDouble (doubleToSingle bits) = bits ∧
      doubleToSingle bits = narrow) ↔
    double.meaning bits.toNat ≠ .nan ∧ single.meaning narrow.toNat = double.meaning bits.toNat := by
  have numbers : double.meaning bits.toNat ≠ .nan ↔ double.decode bits.toNat ≠ .nan := by
    rw [meaning_eq (by decide) bits.toNat_lt]
    cases double.decode bits.toNat <;> simp [Datum.meaning]
  constructor
  · rintro ⟨number, same, rfl⟩
    rw [← numbers] at number
    refine ⟨number, ?_⟩
    have float : single.meaning (doubleToSingle bits).toNat ≠ .nan := by
      intro nan
      have wide := singleToDouble_nan nan
      rw [same] at wide
      exact number wide
    have exact := (singleToDouble_exact float).1
    rw [same] at exact
    exact exact.symm
  · rintro ⟨number, same⟩
    obtain ⟨exact, back⟩ := singleToDouble_exact (same ▸ number)
    have wide : singleToDouble narrow = bits :=
      UInt64.toNat_inj.mp (meaning_inj (f := double) (by decide) bits.toNat_lt
        (UInt64.toNat_lt _) number (exact.trans same))
    rw [wide] at back
    exact ⟨numbers.mp number, by rw [back, wide], back⟩

end MessagePack.Number
