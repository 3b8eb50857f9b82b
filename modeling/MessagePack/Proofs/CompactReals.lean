import MessagePack.Proofs.TypedIntegers
import MessagePack.Proofs.OldFormat
import MessagePack.Proofs.ExactReals

/-! Reals in the least form. A real is packed as an integer where it is one of the range, and a
double as a float where a float is the same number. All of them come back bit by bit but one: the
zero with a sign is the integer zero, which has none, so it comes back as the other zero. -/
namespace MessagePack

open Number Format

namespace Number

def Meaning.Whole (meaning : Meaning) (low high value : Int) : Prop :=
  meaning.value? = some (value : ℚ) ∧ low ≤ value ∧ value ≤ high

def SameNumber (bits : UInt64) (narrow : UInt32) : Prop :=
  double.meaning bits.toNat ≠ .nan ∧ single.meaning narrow.toNat = double.meaning bits.toNat

/-- What a double is packed as: an integer of the range, or else the float that is the same number,
or else itself. -/
structure CompactDouble (bits : UInt64) (item : Item) : Prop where
  integer : ∀ value, item = .integer value ↔
    (double.meaning bits.toNat).Whole (-0x80000000) 0xffffffff value
  float : ∀ narrow, item = .float narrow ↔ SameNumber bits narrow ∧
    ∀ value, ¬(double.meaning bits.toNat).Whole (-0x80000000) 0xffffffff value
  double : ∀ wide, item = .double wide ↔ wide = bits ∧ (∀ narrow, ¬SameNumber bits narrow) ∧
    ∀ value, ¬(double.meaning bits.toNat).Whole (-0x80000000) 0xffffffff value

/-- What a float is packed as: an integer of the range, or else itself. -/
structure CompactFloat (bits : UInt32) (item : Item) : Prop where
  integer : ∀ value, item = .integer value ↔
    (single.meaning bits.toNat).Whole (-0x8000) 0xffff value
  float : ∀ narrow, item = .float narrow ↔ narrow = bits ∧
    ∀ value, ¬(single.meaning bits.toNat).Whole (-0x8000) 0xffff value

def negativeZero : UInt64 := 0x8000000000000000

def negativeZeroFloat : UInt32 := 0x80000000

section

variable {f : Format} {bits : Nat} {low high value : Int}

theorem Meaning.Whole.eq {meaning : Meaning} {other : Int} (whole : meaning.Whole low high value)
    (second : meaning.Whole low high other) : value = other := by
  have same := whole.1.symm.trans second.1
  exact_mod_cast Option.some.inj same

theorem integer?_of_whole (found : Value.whole? f low high bits = some value) :
    (f.decode bits).integer? f = some value := by
  obtain ⟨whole, same, inside⟩ := Option.bind_eq_some_iff.mp found
  split at inside <;> cases inside
  exact same

theorem whole?_eq_some_iff (wide : 2 ≤ f.exponent) (short : bits < 2 * f.signBit) :
    Value.whole? f low high bits = some value ↔ (f.meaning bits).Whole low high value := by
  rw [Meaning.Whole, ← integer?_eq_some_iff wide short]
  constructor
  · intro found
    exact ⟨integer?_of_whole found, Value.whole?_bounds found⟩
  · rintro ⟨whole, bounds⟩
    rw [Value.whole?, whole]
    exact if_pos bounds

theorem whole?_eq_none (wide : 2 ≤ f.exponent) (short : bits < 2 * f.signBit)
    (none : Value.whole? f low high bits = none) (value : Int) :
    ¬(f.meaning bits).Whole low high value := by
  rw [← whole?_eq_some_iff wide short, none]
  nofun

end

/-! ### Items -/

theorem asDouble_integer {bits : UInt64} {value low high : Int}
    (found : Value.whole? double low high bits.toNat = some value) :
    (Item.integer value).asDouble = .ok (if bits = negativeZero then 0 else bits) := by
  have whole := ofInt_integer? (f := double) bits.toNat_lt (integer?_of_whole found)
  have sign : bits.toNat = double.signBit ↔ bits = negativeZero := by
    rw [← UInt64.toNat_inj]
    rfl
  rw [Item.asDouble, doubleOfInt, whole]
  simp only [sign]
  split
  · rfl
  · rw [UInt64.ofNat_toNat]

/-- The integer is made a double first, which is the one that the float is widened to. -/
theorem asFloat_integer {bits : UInt32} {value low high : Int}
    (found : Value.whole? single low high bits.toNat = some value) :
    (Item.integer value).asFloat = .ok (if bits = negativeZeroFloat then 0 else bits) := by
  have whole := (whole?_eq_some_iff (by decide) bits.toNat_lt).mp found
  have number : single.meaning bits.toNat ≠ .nan := by
    intro nan
    have none := whole.1
    rw [nan] at none
    cases none
  obtain ⟨same, back⟩ := singleToDouble_exact number
  have wide : Value.whole? double low high (singleToDouble bits).toNat = some value := by
    rw [whole?_eq_some_iff (by decide) (UInt64.toNat_lt _), same]
    exact whole
  have double := asDouble_integer wide
  rw [Item.asDouble, Except.ok.injEq] at double
  rw [Item.asFloat, Item.asDouble, double, Except.map]
  · by_cases zero : singleToDouble bits = negativeZero
    · have sign : bits = negativeZeroFloat := by
        rw [← back, zero]
        decide +kernel
      rw [if_pos zero, if_pos sign]
      decide +kernel
    · have sign : bits ≠ negativeZeroFloat := by
        rintro rfl
        exact zero (by decide +kernel)
      rw [if_neg zero, if_neg sign, back]
  · nofun

theorem compactDouble_integer {bits : UInt64} {value : Int}
    (found : Value.whole? double (-0x80000000) 0xffffffff bits.toNat = some value) :
    CompactDouble bits (.integer value) := by
  have whole := (whole?_eq_some_iff (by decide) bits.toNat_lt).mp found
  constructor
  · intro other
    rw [Item.integer.injEq]
    exact ⟨fun same => same ▸ whole, whole.eq⟩
  · intro narrow
    exact iff_of_false (by simp) fun both => both.2 value whole
  · intro wide
    exact iff_of_false (by simp) fun all => all.2.2 value whole

section

variable {bits : UInt64}
  (found : Value.whole? double (-0x80000000) 0xffffffff bits.toNat = none)

include found

theorem ne_negativeZero : bits ≠ negativeZero := by
  rintro rfl
  have whole : Value.whole? double (-0x80000000) 0xffffffff negativeZero.toNat = some 0 := by
    decide +kernel
  cases whole.symm.trans found

theorem compactDouble_float (number : double.decode bits.toNat ≠ .nan)
    (same : singleToDouble (doubleToSingle bits) = bits) :
    CompactDouble bits (.float (doubleToSingle bits)) := by
  have none := whole?_eq_none (by decide) bits.toNat_lt found
  constructor
  · intro value
    exact iff_of_false (by simp) (none value)
  · intro narrow
    rw [Item.float.injEq]
    exact ⟨fun equal => ⟨(narrows_iff bits narrow).mp ⟨number, same, equal⟩, none⟩,
      fun both => ((narrows_iff bits narrow).mpr both.1).2.2⟩
  · intro wide
    exact iff_of_false (by simp) fun all =>
      all.2.1 _ ((narrows_iff bits _).mp ⟨number, same, rfl⟩)

theorem compactDouble_double
    (wide : ¬(double.decode bits.toNat ≠ .nan ∧ singleToDouble (doubleToSingle bits) = bits)) :
    CompactDouble bits (.double bits) := by
  have none := whole?_eq_none (by decide) bits.toNat_lt found
  have other (narrow : UInt32) : ¬SameNumber bits narrow := fun same =>
    wide (by
      obtain ⟨number, back, _⟩ := (narrows_iff bits narrow).mpr same
      exact ⟨number, back⟩)
  constructor
  · intro value
    exact iff_of_false (by simp) (none value)
  · intro narrow
    exact iff_of_false (by simp) fun both => other narrow both.1
  · intro second
    rw [Item.double.injEq]
    exact ⟨fun equal => ⟨equal.symm, other, none⟩, fun all => all.1.symm⟩

end

/-- A compact double is read as what it is packed as, which is the same double again but where it
is the zero with a sign. -/
theorem reads_compactDouble (order : ByteOrder) (bits : UInt64) :
    ∃ item, (Item.scan order).Reads (Encode.compactDouble order bits) item ∧
      CompactDouble bits item ∧
      item.asDouble = .ok (if bits = negativeZero then 0 else bits) := by
  rcases Encode.compactDouble_cases order bits with
    ⟨value, found, packed⟩ | ⟨found, ⟨⟨number, same⟩, packed⟩ | ⟨wide, packed⟩⟩
  · rw [packed]
    exact ⟨_, Value.reads_whole order found (by decide) (by decide), compactDouble_integer found,
      asDouble_integer found⟩
  · rw [packed, if_neg (ne_negativeZero found)]
    exact ⟨_, (Scalar.float _).reads order, compactDouble_float found number same,
      congrArg Except.ok same⟩
  · rw [packed, if_neg (ne_negativeZero found)]
    exact ⟨_, (Scalar.double bits).reads order, compactDouble_double found wide, rfl⟩

theorem reads_compactFloat (order : ByteOrder) (bits : UInt32) :
    ∃ item, (Item.scan order).Reads (Encode.compactFloat order bits) item ∧
      CompactFloat bits item ∧
      item.asFloat = .ok (if bits = negativeZeroFloat then 0 else bits) := by
  rcases Encode.compactFloat_cases order bits with ⟨value, found, packed⟩ | ⟨found, packed⟩
  · have whole := (whole?_eq_some_iff (by decide) bits.toNat_lt).mp found
    rw [packed]
    refine ⟨_, Value.reads_whole order found (by decide) (by decide), ?_, asFloat_integer found⟩
    constructor
    · intro other
      rw [Item.integer.injEq]
      exact ⟨fun same => same ▸ whole, whole.eq⟩
    · intro narrow
      exact iff_of_false (by simp) fun both => both.2 value whole
  · have none := whole?_eq_none (by decide) bits.toNat_lt found
    have sign : bits ≠ negativeZeroFloat := by
      rintro rfl
      have whole : Value.whole? single (-0x8000) 0xffff negativeZeroFloat.toNat = some 0 := by
        decide +kernel
      cases whole.symm.trans found
    rw [packed, if_neg sign]
    refine ⟨.float bits, (Scalar.float bits).reads order, ?_, rfl⟩
    constructor
    · intro value
      exact iff_of_false (by simp) (none value)
    · intro narrow
      rw [Item.float.injEq]
      exact ⟨fun equal => ⟨equal.symm, none⟩, fun both => both.1.symm⟩

end Number

/-! ### There and back -/

/-- The accessor gives the number and stands behind it, and the item that it was made of is one of
the form. -/
structure Unpacker.ReadsNumber [Inlet σ] (view : Item → Except Fault α) (number : α)
    (form : Item → Prop) (taken : Nat) (unpacker : Unpacker σ) : Prop where
  back : Gives (unpacker.nextAs view) number taken
  form : ∃ item, unpacker.next.1 = .ok item ∧ form item

namespace Packer

open Unpacker

variable {packer : Packer Growable} {draft : Draft} {ceiling : Nat}

section

variable (holds : packer.Holds draft ceiling) (clean : packer.fault = none)
  (native : packer.dialect.order.verify = .ok ())
  (allocation : Granted ceiling (packer.buffer.packed.length + 9))

include holds clean native allocation

theorem Holds.readsNumber {α : Type} {value : Value} {bytes : List UInt8} {item : Item}
    (encoded : value.encode packer.dialect = .ok bytes) (short : value.needed packer.dialect ≤ 9)
    (reads : (Item.scan packer.dialect.order).Reads bytes item) {view : Item → Except Fault α}
    {number : α} (viewed : view item = .ok number) {form : Item → Prop} (formed : form item) :
    packer.Returns value fun taken _ _ unpacker => unpacker.ReadsNumber view number form taken := by
  rw [← Value.length_encode encoded] at short
  apply holds.returns clean native encoded (allocation.mono (Nat.add_le_add_left short _)) reads
  intro σ _ _ unpacker after _ _ _ read _ place
  have answered : unpacker.next.1 = .ok item := congrArg Prod.fst read
  have gives := gives_of_next answered viewed
  rw [read, place] at gives
  exact ⟨gives, item, answered, formed⟩

theorem Holds.readsNumber_double (bits : UInt64) :
    packer.Returns (.compactDouble bits) fun taken _ _ unpacker =>
      unpacker.ReadsNumber Item.asDouble (if bits = negativeZero then 0 else bits)
        (CompactDouble bits) taken := by
  obtain ⟨item, reads, form, view⟩ := reads_compactDouble packer.dialect.order bits
  have short : (Value.compactDouble bits).needed packer.dialect ≤ 9 := Room.compactDouble_le bits
  exact holds.readsNumber clean native allocation rfl short reads view form

theorem Holds.readsNumber_float (bits : UInt32) :
    packer.Returns (.compactFloat bits) fun taken _ _ unpacker => unpacker.ReadsNumber Item.asFloat
      (if bits = negativeZeroFloat then 0 else bits) (CompactFloat bits) taken := by
  obtain ⟨item, reads, form, view⟩ := reads_compactFloat packer.dialect.order bits
  have short : (Value.compactFloat bits).needed packer.dialect ≤ 9 := Room.compactFloat_le bits
  exact holds.readsNumber clean native allocation rfl short reads view form

end

end Packer

/-- Reals. Whatever memory holds already, a real goes behind it in the least form, as an integer of
the range or, of doubles, as a float only where it is the same number. Read back in memory or from
any stream it is the same bit by bit, be it a number, infinite or none, but for the zero with a
sign, which comes back as the other one. -/
theorem reals_kept (ceiling size : Nat) (dialect : Dialect) (calls : List Packer.Call) :
    let packer := (((Packer.growable size dialect).withCeiling ceiling).run calls).2
    packer.fault = none → Granted ceiling (packer.buffer.packed.length + 9) →
      (∀ bits : UInt64, packer.Returns (.compactDouble bits) fun taken _ _ unpacker =>
        unpacker.ReadsNumber Item.asDouble (if bits = negativeZero then 0 else bits)
          (CompactDouble bits) taken) ∧
      ∀ bits : UInt32, packer.Returns (.compactFloat bits) fun taken _ _ unpacker =>
        unpacker.ReadsNumber Item.asFloat (if bits = negativeZeroFloat then 0 else bits)
          (CompactFloat bits) taken := by
  intro packer clean allocation
  obtain ⟨⟨draft, holds⟩, native⟩ := Packer.ready_growable clean
  exact ⟨holds.readsNumber_double clean native allocation,
    holds.readsNumber_float clean native allocation⟩

/-- The largest integer of the range and the least positive double, behind another item. -/
theorem reals_kept_ends :
    let packer := (((Packer.growable 1 ⟨true, .native⟩).withCeiling 64).run [.pack .nil]).2
    (packer.fault = none ∧ Granted 64 (packer.buffer.packed.length + 9)) ∧
      packer.Returns (.compactDouble 0x41efffffffe00000) (fun taken _ _ unpacker =>
        unpacker.ReadsNumber Item.asDouble 0x41efffffffe00000 (CompactDouble 0x41efffffffe00000)
          taken) ∧
      (packer.pack (.compactDouble 0x41efffffffe00000)).2.buffer.packed =
        [0xc0, 0xce, 0xff, 0xff, 0xff, 0xff] ∧
      packer.Returns (.compactDouble 1) (fun taken _ _ unpacker =>
        unpacker.ReadsNumber Item.asDouble 1 (CompactDouble 1) taken) := by
  intro packer
  have clean : packer.fault = none := by decide
  have granted : Granted 64 (packer.buffer.packed.length + 9) := by decide
  have kept := reals_kept 64 1 ⟨true, .native⟩ [.pack .nil] clean granted
  exact ⟨⟨clean, granted⟩, kept.1 0x41efffffffe00000, by decide +kernel, kept.1 1⟩

/-- The zeros with a sign are packed as the integer zero, and the sign does not come back. -/
theorem zeros_not_kept :
    let packer := Packer.growable 16 ⟨false, .native⟩
    let double := packer.pack (.compactDouble negativeZero)
    let float := packer.pack (.compactFloat negativeZeroFloat)
    (double.1 = .ok () ∧ double.2.buffer.packed = [0x00] ∧
      ((Unpacker.ofBytes [0x00] .native).nextAs Item.asDouble).1 = .ok 0 ∧ negativeZero ≠ 0) ∧
    float.1 = .ok () ∧ float.2.buffer.packed = [0x00] ∧
      ((Unpacker.ofBytes [0x00] .native).nextAs Item.asFloat).1 = .ok 0 ∧
      negativeZeroFloat ≠ 0 := by
  decide +kernel

end MessagePack
