import MessagePack.Proofs.TimestampForms
import MessagePack.Proofs.ValueReturn

/-! Times of the clock. Both the clock and a timestamp count whole seconds from the epoch and a
fraction above them. On the way from one to the other there is only a distance, with a sign of its
own, and before the epoch it is counted backwards; still the numbers come out as they were, at both
ends of the clock. -/
namespace MessagePack

theorem bmod_word {value : Int} (lower : -0x8000000000000000 ≤ value)
    (upper : value < 0x8000000000000000) : value.bmod (2 ^ 64) = value :=
  Int.bmod_eq_of_le (by omega) (by omega)

namespace SystemTime

theorem sinceEpoch_inj {a b : SystemTime} (same : a.sinceEpoch = b.sinceEpoch) : a = b := by
  obtain ⟨seconds, nanos, below⟩ := a
  obtain ⟨others, more, less⟩ := b
  simp only [sinceEpoch, nanosPerSecond] at same below less
  have whole : seconds = others := Int64.toInt_inj.mp (by omega)
  have fraction : nanos = more := UInt32.toNat_inj.mp (by omega)
  subst whole fraction
  rfl

/-- The nanoseconds from the epoch that the clock has room for. -/
def Reaches (nanos : Int) : Prop :=
  -0x8000000000000000 * nanosPerSecond ≤ nanos ∧ nanos < 0x8000000000000000 * nanosPerSecond

theorem reaches (time : SystemTime) : Reaches time.sinceEpoch := by
  have lower := time.seconds.le_toInt
  have upper := time.seconds.toInt_lt
  have below := time.nanos_lt
  simp only [Reaches, sinceEpoch, nanosPerSecond] at *
  omega

/-! ### Distances -/

/-- How far a number of nanoseconds lies from zero, on which side of it. -/
def distanceOf (nanos : Int) : Distance :=
  ⟨nanos < 0, .ofNat (nanos.natAbs / nanosPerSecond), .ofNat (nanos.natAbs % nanosPerSecond)⟩

theorem distance_eq (time : SystemTime) : time.distance = distanceOf time.sinceEpoch := rfl

theorem before_iff (time : SystemTime) : time.distance.before = true ↔ time.sinceEpoch < 0 := by
  simp [distance_eq, distanceOf]

def total (distance : Distance) : Int :=
  let nanos : Int := distance.seconds.toNat * nanosPerSecond + distance.nanos.toNat
  if distance.before then -nanos else nanos

theorem seconds_distanceOf {nanos : Int} (reaches : Reaches nanos) :
    (distanceOf nanos).seconds.toNat = nanos.natAbs / nanosPerSecond := by
  apply UInt64.toNat_ofNat_of_lt'
  simp only [Reaches, nanosPerSecond, UInt64.size] at *
  omega

theorem nanos_distanceOf (nanos : Int) :
    (distanceOf nanos).nanos.toNat = nanos.natAbs % nanosPerSecond := by
  apply UInt32.toNat_ofNat_of_lt'
  simp only [nanosPerSecond, UInt32.size]
  omega

theorem total_distanceOf {nanos : Int} (reaches : Reaches nanos) :
    total (distanceOf nanos) = nanos := by
  simp only [total, seconds_distanceOf reaches, nanos_distanceOf]
  simp only [distanceOf, nanosPerSecond, decide_eq_true_eq]
  split <;> omega

theorem ofDistance?_of_reaches {distance : Distance} (reaches : Reaches (total distance)) :
    ∃ time, ofDistance? distance = some time ∧ time.sinceEpoch = total distance := by
  simp only [Reaches, nanosPerSecond] at reaches
  have lower : Int64.minValue.toInt ≤ total distance / nanosPerSecond := by
    change -0x8000000000000000 ≤ total distance / (1000000000 : Nat)
    omega
  have upper : total distance / nanosPerSecond ≤ Int64.maxValue.toInt := by
    change total distance / (1000000000 : Nat) ≤ 0x7fffffffffffffff
    omega
  refine ⟨_, if_pos ⟨lower, upper⟩, ?_⟩
  change (Int64.ofInt (total distance / nanosPerSecond)).toInt * nanosPerSecond +
    (UInt32.ofNat (total distance % nanosPerSecond).toNat).toNat = total distance
  have fraction : (total distance % nanosPerSecond).toNat < UInt32.size := by
    simp only [nanosPerSecond, UInt32.size]
    omega
  have whole : (Int64.ofInt (total distance / nanosPerSecond)).toInt =
      total distance / nanosPerSecond := by
    rw [Int64.toInt_ofInt]
    simp only [nanosPerSecond]
    exact bmod_word (by omega) (by omega)
  rw [whole, UInt32.toNat_ofNat_of_lt' fraction]
  simp only [nanosPerSecond]
  omega

/-- The time that lies so many nanoseconds after another, as far as the clock reaches. -/
def after? (time : SystemTime) (nanos : Nat) : Option SystemTime :=
  ofDistance? (distanceOf (time.sinceEpoch + nanos))

theorem after?_of_reaches {time : SystemTime} {nanos : Nat}
    (reaches : Reaches (time.sinceEpoch + nanos)) :
    ∃ later, time.after? nanos = some later ∧ later.sinceEpoch = time.sinceEpoch + nanos := by
  have total := total_distanceOf reaches
  rw [← total] at reaches
  obtain ⟨later, found, place⟩ := ofDistance?_of_reaches reaches
  exact ⟨later, found, place.trans total⟩

end SystemTime

/-! ### Steps on the way -/

namespace SystemTime

def earliest : SystemTime := ⟨.minValue, 0, by decide⟩

/-- Each step of the way to a timestamp gives the number that it would give without any bounds. -/
structure Exact (time : SystemTime) : Prop where
  seconds : time.distance.seconds.toNat = time.sinceEpoch.natAbs / nanosPerSecond
  nanos : time.distance.nanos.toNat = time.sinceEpoch.natAbs % nanosPerSecond
  cast : time.distance.seconds.toInt64.toInt = time.distance.seconds.toNat
  /-- Before the epoch, without a fraction and with one. -/
  negated : (-time.distance.seconds.toInt64).toInt = -time.distance.seconds.toNat
  floored : time.distance.before = true → time.distance.nanos ≠ 0 →
    (-time.distance.seconds.toInt64 - 1).toInt = -time.distance.seconds.toNat - 1
  complement : (UInt32.ofNat nanosPerSecond - time.distance.nanos).toNat +
    time.distance.nanos.toNat = nanosPerSecond

theorem toInt_toInt64 (word : UInt64) : word.toInt64.toInt = (word.toNat : Int).bmod (2 ^ 64) := by
  rw [Int64.toInt, UInt64.toBitVec_toInt64, BitVec.toInt_eq_toNat_bmod, UInt64.toNat_toBitVec]

theorem sinceEpoch_of_ne {time : SystemTime} (other : time ≠ earliest) :
    -0x8000000000000000 * nanosPerSecond < time.sinceEpoch := by
  refine Int.lt_iff_le_and_ne.mpr ⟨time.reaches.1, fun first => ?_⟩
  exact other (sinceEpoch_inj (first.symm.trans (by decide)))

theorem exact_of_ne {time : SystemTime} (other : time ≠ earliest) : time.Exact := by
  have seconds := seconds_distanceOf time.reaches
  have nanos := nanos_distanceOf time.sinceEpoch
  rw [← distance_eq] at seconds nanos
  have upper := time.reaches.2
  have lower := sinceEpoch_of_ne other
  have sign := time.before_iff
  simp only [nanosPerSecond] at upper lower seconds nanos
  have cast : time.distance.seconds.toInt64.toInt = time.distance.seconds.toNat := by
    rw [toInt_toInt64]
    exact bmod_word (by omega) (by omega)
  have negated : (-time.distance.seconds.toInt64).toInt = -time.distance.seconds.toNat := by
    rw [Int64.toInt_neg, cast]
    exact bmod_word (by omega) (by omega)
  refine ⟨seconds, nanos, cast, negated, fun before some => ?_, ?_⟩
  · have fraction : time.distance.nanos.toNat ≠ 0 := fun none => some (UInt32.toNat_inj.mp none)
    have := sign.mp before
    rw [Int64.toInt_sub, Int64.toInt_one, negated]
    exact bmod_word (by omega) (by omega)
  · have below : time.distance.nanos ≤ .ofNat nanosPerSecond := by
      rw [UInt32.le_iff_toNat_le]
      change time.distance.nanos.toNat ≤ 1000000000
      omega
    rw [UInt32.toNat_sub_of_le _ _ below]
    exact Nat.sub_add_cancel (UInt32.le_iff_toNat_le.mp below)

end SystemTime

namespace Timestamp

theorem seconds?_toInt (seconds : Int64) : seconds? seconds.toInt = some seconds := by
  have lower := seconds.le_toInt
  have upper := seconds.toInt_lt
  refine (if_pos ⟨lower, ?_⟩).trans (congrArg some (Int64.ofInt_toInt _))
  exact Int.le_of_lt_add_one upper

open SystemTime in
/-- The numbers are those of the clock, unless the distance is of more seconds than a signed word
can say. -/
theorem ofSystemTime?_eq (time : SystemTime) :
    ofSystemTime? time = if time = earliest then none else some ⟨time.seconds, time.nanos⟩ := by
  split
  · rename_i first
    rw [first]
    decide +kernel
  rename_i other
  have below := time.nanos_lt
  have sign := time.before_iff
  obtain ⟨whole, fraction, cast, negated, floored, complement⟩ := exact_of_ne other
  have same {seconds : Int64} {nanos : UInt32} (whole : seconds.toInt = time.seconds.toInt)
      (fraction : nanos.toNat = time.nanos.toNat) :
      (⟨seconds, nanos⟩ : Timestamp) = ⟨time.seconds, time.nanos⟩ := by
    rw [Int64.toInt_inj.mp whole, UInt32.toNat_inj.mp fraction]
  simp only [sinceEpoch, nanosPerSecond] at *
  unfold ofSystemTime?
  generalize time.distance = distance at *
  obtain ⟨before, seconds, nanos⟩ := distance
  dsimp only at *
  cases before with
  | false =>
    simp only [Bool.false_eq_true, false_iff] at sign
    exact congrArg some (same (by omega) (by omega))
  | true =>
    have negative := sign.mp rfl
    have negation : seconds? (-seconds.toInt64.toInt) = some (-seconds.toInt64) := by
      rw [cast, ← negated, seconds?_toInt]
    simp only [negation, Option.bind_eq_bind, Option.bind_some]
    split
    · rename_i none
      subst none
      have zero : (0 : UInt32).toNat = 0 := rfl
      exact congrArg some (same (by omega) (by omega))
    · rename_i some
      have floored := floored rfl some
      have more : nanos.toNat ≠ 0 := fun none => some (UInt32.toNat_inj.mp none)
      have less : seconds? ((-seconds.toInt64).toInt - 1) =
          Option.some (-seconds.toInt64 - 1) := by
        rw [negated, ← floored, seconds?_toInt]
      rw [less]
      exact congrArg Option.some (same (by omega) (by simp only [nanosPerSecond]; omega))

theorem ofSystemTime?_isSome_iff (time : SystemTime) :
    (ofSystemTime? time).isSome ↔ time ≠ .earliest := by
  rw [ofSystemTime?_eq]
  split <;> simp [*]

theorem ofSystemTime_eq {time : SystemTime} (held : (ofSystemTime? time).isSome) :
    ofSystemTime time held = ⟨time.seconds, time.nanos⟩ := by
  apply Option.some.inj
  rw [ofSystemTime, Option.some_get, ofSystemTime?_eq,
    if_neg ((ofSystemTime?_isSome_iff time).mp held)]

/-- The clock at the whole seconds, and at the nanoseconds after that, each as far as it
reaches. -/
def bySteps? (time : Timestamp) : Option SystemTime :=
  if nanosPerSecond ≤ time.nanos.toNat then none
  else do
    let whole ← SystemTime.ofDistance?
      ⟨time.seconds.toInt < 0, .ofNat time.seconds.toInt.natAbs, 0⟩
    whole.after? time.nanos.toNat

/-- Where the fraction is below a second the clock reaches all the way. -/
theorem bySteps?_eq (time : Timestamp) : time.bySteps? = time.toSystemTime? := by
  have lower := time.seconds.le_toInt
  have upper := time.seconds.toInt_lt
  unfold bySteps? toSystemTime?
  by_cases valid : time.nanos.toNat < nanosPerSecond
  · rw [if_neg (Nat.not_le_of_lt valid), dif_pos valid]
    have seconds : (UInt64.ofNat time.seconds.toInt.natAbs).toNat = time.seconds.toInt.natAbs :=
      UInt64.toNat_ofNat_of_lt' (by simp only [UInt64.size]; omega)
    have zero : (0 : UInt32).toNat = 0 := rfl
    have total : SystemTime.total ⟨time.seconds.toInt < 0, .ofNat time.seconds.toInt.natAbs, 0⟩ =
        time.seconds.toInt * nanosPerSecond := by
      simp only [SystemTime.total, seconds, zero, decide_eq_true_eq, nanosPerSecond]
      split <;> omega
    simp only [nanosPerSecond] at valid total
    obtain ⟨whole, found, start⟩ := SystemTime.ofDistance?_of_reaches
      (show SystemTime.Reaches (SystemTime.total _) by
        rw [total]
        simp only [SystemTime.Reaches, nanosPerSecond]
        omega)
    obtain ⟨later, arrived, place⟩ := SystemTime.after?_of_reaches
      (show SystemTime.Reaches (whole.sinceEpoch + time.nanos.toNat) by
        rw [start, total]
        simp only [SystemTime.Reaches, nanosPerSecond]
        omega)
    rw [found]
    change whole.after? time.nanos.toNat = _
    rw [arrived]
    refine congrArg some (SystemTime.sinceEpoch_inj ?_)
    rw [place, start, total]
    rfl
  · rw [if_pos (Nat.not_lt.mp valid), dif_neg valid]

theorem compare_ofSystemTime {a b : SystemTime} (left : (ofSystemTime? a).isSome)
    (right : (ofSystemTime? b).isSome) :
    (ofSystemTime a left).compare (ofSystemTime b right) =
      Ord.compare a.sinceEpoch b.sinceEpoch := by
  have below := a.nanos_lt
  have less := b.nanos_lt
  have first : a.sinceEpoch = a.seconds.toInt * nanosPerSecond + a.nanos.toNat := rfl
  have second : b.sinceEpoch = b.seconds.toInt * nanosPerSecond + b.nanos.toNat := rfl
  simp only [nanosPerSecond] at below less first second
  simp only [ofSystemTime_eq, compare]
  rcases Int.lt_trichotomy a.seconds.toInt b.seconds.toInt with earlier | same | later
  · rw [Std.compare_eq_lt.mpr (Int64.lt_iff_toInt_lt.mpr earlier),
      Std.compare_eq_lt.mpr (show a.sinceEpoch < b.sinceEpoch by omega)]
    rfl
  · rw [Int64.toInt_inj.mp same, Std.compare_self, Ordering.eq_then]
    rcases Nat.lt_trichotomy a.nanos.toNat b.nanos.toNat with smaller | equal | larger
    · rw [Std.compare_eq_lt.mpr (UInt32.lt_iff_toNat_lt.mpr smaller),
        Std.compare_eq_lt.mpr (show a.sinceEpoch < b.sinceEpoch by omega)]
    · rw [UInt32.toNat_inj.mp equal, show a.sinceEpoch = b.sinceEpoch by omega,
        Std.compare_self, Std.compare_self]
    · rw [Std.compare_eq_gt.mpr (UInt32.lt_iff_toNat_lt.mpr larger),
        Std.compare_eq_gt.mpr (show b.sinceEpoch < a.sinceEpoch by omega)]
  · rw [Std.compare_eq_gt.mpr (Int64.lt_iff_toInt_lt.mpr later),
      Std.compare_eq_gt.mpr (show b.sinceEpoch < a.sinceEpoch by omega)]
    rfl

theorem valid_ofSystemTime {time : SystemTime} (held : (ofSystemTime? time).isSome) :
    (ofSystemTime time held).Valid := by
  rw [ofSystemTime_eq]
  exact time.nanos_lt

theorem toSystemTime?_ofSystemTime {time : SystemTime} (held : (ofSystemTime? time).isSome) :
    (ofSystemTime time held).toSystemTime? = some time := by
  rw [ofSystemTime_eq]
  exact dif_pos time.nanos_lt

theorem exists_ofSystemTime {time : SystemTime} (other : time ≠ .earliest) :
    ∃ stamp, ofSystemTime? time = some stamp ∧ stamp.Valid ∧ stamp.toSystemTime? = some time ∧
      stamp.seconds.toInt * nanosPerSecond + stamp.nanos.toNat = time.sinceEpoch := by
  have held := (ofSystemTime?_isSome_iff time).mpr other
  refine ⟨ofSystemTime time held, (Option.some_get held).symm, valid_ofSystemTime held,
    toSystemTime?_ofSystemTime held, ?_⟩
  rw [ofSystemTime_eq]
  rfl

theorem toSystemTime?_of_valid {stamp : Timestamp} (valid : stamp.Valid) :
    ∃ time, stamp.toSystemTime? = some time ∧
      (time ≠ .earliest → ofSystemTime? time = some stamp) := by
  refine ⟨⟨stamp.seconds, stamp.nanos, valid⟩, dif_pos valid, fun other => ?_⟩
  rw [ofSystemTime?_eq, if_neg other]

theorem toSystemTime?_of_not_valid {time : Timestamp} (invalid : ¬time.Valid) :
    time.toSystemTime? = none := dif_neg invalid

end Timestamp

namespace Packer

/-- Memory takes a time of the clock, and whoever reads on there has it back. -/
def ReturnsClockTime (packer : Packer Growable) (time : SystemTime) : Prop :=
  ∃ held, packer.Returns (.systemTime time held) fun taken _ _ unpacker => ∃ stamp,
    unpacker.next.1 = .ok (.timestamp stamp) ∧ stamp.toSystemTime? = some time ∧
      unpacker.next.2.offset = taken

variable {packer : Packer Growable} {draft : Draft} {ceiling : Nat}

theorem Holds.returnsClockTime (holds : packer.Holds draft ceiling) (clean : packer.fault = none)
    (native : packer.dialect.order.verify = .ok ()) (plain : packer.dialect.compatible = false)
    (allocation : Granted ceiling (packer.buffer.packed.length + 15)) {time : SystemTime}
    (other : time ≠ .earliest) : packer.ReturnsClockTime time := by
  have held := (Timestamp.ofSystemTime?_isSome_iff time).mpr other
  have valid := Timestamp.valid_ofSystemTime held
  have encoded : (Value.systemTime time held).encode packer.dialect =
      .ok (Encode.timestamp packer.dialect.order (.ofSystemTime time held)) := by
    simp [Value.encode, Timestamp.encode, plain, Nat.not_le.mpr valid]
  have short : (Encode.timestamp packer.dialect.order (.ofSystemTime time held)).length ≤ 15 := by
    rw [Encode.length_timestamp _ valid]
    exact Timestamp.least_le _
  refine ⟨held, ?_⟩
  apply holds.returns clean native encoded (allocation.mono (Nat.add_le_add_left short _))
    (Item.reads_bare (Encode.reads_timestamp valid) rfl)
  intro σ _ _ unpacker after _ _ _ read _ place
  rw [read]
  exact ⟨_, rfl, Timestamp.toSystemTime?_ofSystemTime held, place⟩

end Packer

open Timestamp in
/-- The clock. Every time of it but the first one is a timestamp with a fraction below a second, by
steps of which none goes wrong, and is had back from it; of the first one the way to a timestamp is
cut off. Every timestamp with such a fraction is that of a time, and no other is. Both come in the
same order. A time that is packed in memory, behind anything, is unpacked as that time, in memory or
from a stream. -/
theorem clock_kept (time : SystemTime) (stamp : Timestamp) :
    ((time ≠ .earliest → time.Exact ∧ ∃ stamp, ofSystemTime? time = some stamp ∧ stamp.Valid ∧
        stamp.toSystemTime? = some time ∧
        stamp.seconds.toInt * nanosPerSecond + stamp.nanos.toNat = time.sinceEpoch) ∧
      (ofSystemTime? time = none ↔ time = .earliest)) ∧
    (stamp.toSystemTime? = stamp.bySteps? ∧
      (stamp.Valid → ∃ time, stamp.toSystemTime? = some time ∧
        (time ≠ .earliest → ofSystemTime? time = some stamp)) ∧
      (¬stamp.Valid → stamp.toSystemTime? = none)) ∧
    (∀ (other : SystemTime) (left : (ofSystemTime? time).isSome)
      (right : (ofSystemTime? other).isSome),
      (ofSystemTime time left).compare (ofSystemTime other right) =
        Ord.compare time.sinceEpoch other.sinceEpoch ∧
      (((ofSystemTime time left).compare (ofSystemTime other right)).isLE ↔
        time.sinceEpoch ≤ other.sinceEpoch)) ∧
    ∀ size ceiling dialect calls,
      let packer := (((Packer.growable size dialect).withCeiling ceiling).run calls).2
      packer.fault = none → packer.dialect.compatible = false → time ≠ .earliest →
        Granted ceiling (packer.buffer.packed.length + 15) → packer.ReturnsClockTime time := by
  refine ⟨⟨fun other => ⟨SystemTime.exact_of_ne other, exists_ofSystemTime other⟩, ?_⟩,
    ⟨stamp.bySteps?_eq.symm, toSystemTime?_of_valid, toSystemTime?_of_not_valid⟩,
    fun other left right => ⟨compare_ofSystemTime left right, ?_⟩, ?_⟩
  · rw [ofSystemTime?_eq, ite_eq_left_iff]
    simp
  · rw [compare_ofSystemTime]
    exact Int.isLE_compare
  · intro size ceiling dialect calls packer clean plain other allocation
    obtain ⟨⟨draft, holds⟩, native⟩ := Packer.ready_growable clean
    exact holds.returnsClockTime clean native plain allocation other

/-- The second time of the clock, a timestamp just below a second, and one just not below. -/
theorem clock_kept_ends :
    let packer := (((Packer.growable 1 ⟨true, .native⟩).withCeiling 64).run
      [.pack .nil, .setCompatible false]).2
    let time : SystemTime := ⟨.minValue, 1, by decide⟩
    let stamp : Timestamp := ⟨-1, 999999999⟩
    let other : Timestamp := ⟨0, 1000000000⟩
    (packer.fault = none ∧ packer.dialect.compatible = false ∧ time ≠ .earliest ∧
      Granted 64 (packer.buffer.packed.length + 15)) ∧
    packer.ReturnsClockTime time ∧
    time.Exact ∧ time.distance = ⟨true, 0x7fffffffffffffff, 999999999⟩ ∧
    (stamp.Valid ∧ ∃ time, stamp.toSystemTime? = some time ∧
      (time ≠ .earliest → Timestamp.ofSystemTime? time = some stamp)) ∧
    ¬other.Valid ∧ other.toSystemTime? = none := by
  intro packer time stamp other
  obtain ⟨times, stamps, _, packs⟩ := clock_kept time stamp
  have clean : packer.fault = none := by decide
  have later : time ≠ .earliest := by decide
  have granted : Granted 64 (packer.buffer.packed.length + 15) := by decide
  have valid : stamp.Valid := by decide
  have invalid : ¬other.Valid := by decide
  exact ⟨⟨clean, rfl, later, granted⟩,
    packs 1 64 ⟨true, .native⟩ [.pack .nil, .setCompatible false] clean rfl later granted,
    (times.1 later).1, by decide +kernel, ⟨valid, stamps.2.1 valid⟩,
    invalid, (clock_kept time other).2.1.2.2 invalid⟩

/-- The first time of the clock is a timestamp as well as any other, but the seconds that lie
between it and the epoch are more than a signed word can say. -/
theorem clock_cut_off :
    (⟨.minValue, 0⟩ : Timestamp).toSystemTime? = some .earliest ∧
      ¬SystemTime.earliest.Exact ∧ Timestamp.ofSystemTime? .earliest = none := by
  have many : SystemTime.earliest.distance.seconds.toInt64.toInt ≠
      SystemTime.earliest.distance.seconds.toNat := by
    decide +kernel
  exact ⟨by decide +kernel, fun exact => many exact.cast, by decide +kernel⟩

end MessagePack
