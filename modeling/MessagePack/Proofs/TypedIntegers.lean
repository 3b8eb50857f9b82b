import MessagePack.Proofs.TimestampForms
import MessagePack.Proofs.ValueReturn

/-! Integers as the caller wants them. The wire has ten forms for a number, and the caller may ask
for it in a type of any width, with a sign or without. Whatever the form, the type takes the number
as it is or not at all. -/
namespace MessagePack

/-! ### Words -/

/-- A word of so many bits is the number in two's complement. -/
def FitsSigned (width : Nat) (value : Int) : Prop := ∃ word : BitVec width, word.toInt = value

def FitsUnsigned (width : Nat) (value : Int) : Prop :=
  ∃ word : BitVec width, (word.toNat : Int) = value

theorem fitsSigned_iff {width : Nat} (some : 0 < width) (value : Int) :
    FitsSigned width value ↔
      -(1 <<< (width - 1) : Nat) ≤ value ∧ value < (1 <<< (width - 1) : Nat) := by
  have half : 2 ^ width = 2 * 2 ^ (width - 1) := by
    rw [Nat.mul_comm, ← Nat.pow_succ, Nat.succ_eq_add_one, Nat.sub_add_cancel some]
  simp only [Nat.one_shiftLeft, Nat.cast_pow, Nat.cast_ofNat]
  constructor
  · rintro ⟨word, rfl⟩
    exact ⟨word.le_toInt, word.toInt_lt⟩
  · rintro ⟨lower, upper⟩
    refine ⟨.ofInt width value, ?_⟩
    rw [BitVec.toInt_ofInt, half]
    apply Int.bmod_eq_of_le <;> push_cast <;> omega

theorem fitsUnsigned_iff (width : Nat) (value : Int) :
    FitsUnsigned width value ↔ 0 ≤ value ∧ value < (1 <<< width : Nat) := by
  simp only [Nat.one_shiftLeft]
  constructor
  · rintro ⟨word, rfl⟩
    exact ⟨Int.natCast_nonneg _, Int.ofNat_lt.mpr word.isLt⟩
  · rintro ⟨positive, below⟩
    refine ⟨.ofNat width value.toNat, ?_⟩
    rw [BitVec.toNat_ofNat, Nat.mod_eq_of_lt (by omega), Int.toNat_of_nonneg positive]

theorem toInt_ofNat_word {width word : Nat} (below : word < wordCount width) :
    (BitVec.ofNat (8 * width) word).toInt = twosComplement width word := by
  rw [wordCount, Nat.one_shiftLeft] at below
  rw [BitVec.toInt_eq_toNat_cond, BitVec.toNat_ofNat, Nat.mod_eq_of_lt below, twosComplement,
    wordCount, Nat.one_shiftLeft]

/-! ### Forms -/

/-- The forms of integers on the wire, and the numbers that they say. -/
inductive Integer.Form : List UInt8 → Int → Prop where
  | positive (small : Fin 128) : Form [.ofNat small] small.val
  | negative (small : Fin 32) : Form [.ofNat (0xe0 + small)] (small.val - 32)
  | unsigned (i : Fin 4) {field : List UInt8} (length : field.length = 2 ^ i.val) :
    Form (.ofNat (0xcc + i) :: field) (ofBigEndian field)
  | signed (i : Fin 4) {field : List UInt8} (length : field.length = 2 ^ i.val) :
    Form (.ofNat (0xd0 + i) :: field) (BitVec.ofNat (8 * field.length) (ofBigEndian field)).toInt

variable {order : ByteOrder} {closing : Fault} {bytes form : List UInt8} {value : Int}

namespace Header

theorem ne_integer_of_scanExt {tag : Tag} {length : Nat} :
    ((scanExt order tag length).read closing bytes).1 ≠ .ok (.integer value) := by
  intro answered
  have kind := (kind_of_scanExt (Prod.ext answered rfl)).2
  simp only [Header.kind, Kind.ofExtType] at kind
  split at kind <;> split at kind <;> cases kind

/-- An integer is read from one of its forms. -/
theorem integer_of_read (native : order.verify = .ok ())
    (answered : ((scan order).read closing bytes).1 = .ok (.integer value)) :
    ∃ form, Integer.Form form value ∧ form <+: bytes := by
  obtain ⟨tag, others, rfl, rest⟩ := tag_of_read answered
  have field {i : Fin 4} (complete : Tag.width i.val ≤ others.length) :
      (others.take (Tag.width i.val)).length = 2 ^ i.val := by
    rw [List.length_take_of_le complete, Tag.width, Nat.one_shiftLeft]
  cases tag with
  | positive small =>
    cases rest
    exact ⟨_, .positive small, others, rfl⟩
  | negative small =>
    cases rest
    exact ⟨_, .negative small, others, rfl⟩
  | unsigned i =>
    obtain ⟨complete, last⟩ := Scan.read_take_eq_ok (Prod.ext rest rfl)
    cases last
    rw [ByteOrder.load_eq native]
    refine ⟨_, .unsigned i (field complete), others.drop (Tag.width i.val), ?_⟩
    simp [Tag.toByte]
  | signed i =>
    obtain ⟨complete, last⟩ := Scan.read_take_eq_ok (Prod.ext rest rfl)
    cases last
    have below := ofBigEndian_lt (others.take (Tag.width i.val))
    have number := toInt_ofNat_word below
    rw [List.length_take_of_le complete] at number
    rw [ByteOrder.load_eq native, ← number]
    have form := Integer.Form.signed i (field complete)
    rw [List.length_take_of_le complete] at form
    refine ⟨_, form, others.drop (Tag.width i.val), ?_⟩
    simp [Tag.toByte]
  | fixExt i => exact absurd rest ne_integer_of_scanExt
  | ext i =>
    obtain ⟨_, ext⟩ := Scan.read_take_eq_ok (Prod.ext rest rfl)
    exact absurd ext ne_integer_of_scanExt
  | bin | str | array | map | float | double =>
    obtain ⟨_, last⟩ := Scan.read_take_eq_ok (Prod.ext rest rfl)
    cases last
  | _ => cases rest

end Header

theorem Item.integer_of_read (native : order.verify = .ok ())
    (answered : ((scan order).read closing bytes).1 = .ok (.integer value)) :
    ∃ form, Integer.Form form value ∧ form <+: bytes := by
  obtain ⟨header, _, fields, payload⟩ := Scan.read_bind_eq_ok answered
  cases header with
  | integer own =>
    cases payload
    exact Header.integer_of_read native (congrArg Prod.fst fields)
  | str | bin | ext =>
    obtain ⟨_, last⟩ := Scan.read_take_eq_ok (Prod.ext payload rfl)
    cases last
  | _ => cases payload

namespace Integer

/-- Every form is read, the shortest or not. -/
theorem Form.reads (spells : Form form value) (native : order.verify = .ok ()) :
    (Item.scan order).Reads form (.integer value) := by
  have load (bytes : List UInt8) : order.load bytes = ofBigEndian bytes :=
    ByteOrder.load_eq native bytes
  suffices header : (Header.scan order).Reads form (.integer value) from Item.reads_bare header rfl
  cases spells with
  | positive small =>
    have header : (Header.scan order).Reads (Encode.bare (.positive small)) (.integer small.val) :=
      Encode.reads_bare rfl
    exact header
  | negative small =>
    have header : (Header.scan order).Reads (Encode.bare (.negative small))
        (.integer (small.val - 32)) := Encode.reads_bare rfl
    exact header
  | @unsigned i field length =>
    have width : field.length = Tag.width i.val := by rw [length, Tag.width, Nat.one_shiftLeft]
    have reads : (Header.scanAfter order (.unsigned i)).Reads (field ++ []) _ :=
      .take width (.done _)
    rw [List.append_nil, load] at reads
    have header : (Header.scan order).Reads ((Tag.unsigned i).toByte :: field) _ :=
      Encode.reads_of_tag reads
    exact header
  | @signed i field length =>
    have width : field.length = Tag.width i.val := by rw [length, Tag.width, Nat.one_shiftLeft]
    have reads : (Header.scanAfter order (.signed i)).Reads (field ++ []) _ :=
      .take width (.done _)
    rw [List.append_nil, load, ← width, ← toInt_ofNat_word (ofBigEndian_lt field)] at reads
    have header : (Header.scan order).Reads ((Tag.signed i).toByte :: field) _ :=
      Encode.reads_of_tag reads
    exact header

/-- What the forms say is what words of 64 bits say, with a sign or without. -/
theorem exists_form_iff (value : Int) :
    (∃ form, Form form value) ↔ FitsSigned 64 value ∨ FitsUnsigned 64 value := by
  have eight (i : Fin 4) : 2 ^ i.val ≤ 8 :=
    Nat.pow_le_pow_right (by decide) (Nat.le_of_lt_succ i.isLt)
  constructor
  · rintro ⟨form, spells⟩
    cases spells with
    | positive small =>
      rw [fitsUnsigned_iff]
      omega
    | negative small =>
      rw [fitsSigned_iff (by decide)]
      omega
    | @unsigned i field length =>
      have below := ofBigEndian_lt field
      have wide : wordCount field.length ≤ wordCount 8 := by
        simp only [wordCount, Nat.one_shiftLeft]
        exact Nat.pow_le_pow_right (by decide) (Nat.mul_le_mul_left 8 (length ▸ eight i))
      rw [fitsUnsigned_iff]
      exact .inr ⟨Int.natCast_nonneg _, Int.ofNat_lt.mpr (Nat.lt_of_lt_of_le below wide)⟩
    | @signed i field length =>
      exact .inl ⟨_, BitVec.toInt_signExtend_of_le (Nat.mul_le_mul_left 8 (length ▸ eight i))⟩
  · intro fits
    rw [fitsSigned_iff (by decide), fitsUnsigned_iff] at fits
    have lower : -0x8000000000000000 ≤ value := by omega
    have upper : value < 0x10000000000000000 := by omega
    have reads : (Header.scan .portable).Reads _ _ := Encode.reads_integer lower upper
    have whole := congrArg Prod.fst (reads .endOfInput [])
    obtain ⟨form, spells, _⟩ := Header.integer_of_read rfl whole
    exact ⟨form, spells⟩

end Integer

/-! ### Accessors -/

namespace Unpacker

/-- A call has given the value and led to the place, and all is well. -/
structure Gives (result : Except Fault α × Unpacker σ) (value : α) (place : Nat) : Prop where
  answer : result.1 = .ok value
  offset : result.2.offset = place
  status : result.2.status = .ok ()

/-- A call has failed. The fault stays, and there is no item at hand. -/
structure Fails (result : Except Fault α × Unpacker σ) (fault : Fault) : Prop where
  answer : result.1 = .error fault
  status : result.2.status = .error fault
  item : result.2.item? = none

/-- The next item is a number, which is given or refused as its type demands. -/
structure Narrows [Inlet σ] (value : Int) (place : Nat) (unpacker : Unpacker σ) : Prop where
  signed : ∀ width, 0 < width → FitsSigned width value →
    Gives (unpacker.nextAs (Item.asSigned width)) value place
  signedRange : ∀ width, 0 < width → ¬FitsSigned width value →
    Fails (unpacker.nextAs (Item.asSigned width)) .valueError
  unsigned : ∀ width, FitsUnsigned width value →
    Gives (unpacker.nextAs (Item.asUnsigned width)) value.toNat place
  unsignedSign : ∀ width, value < 0 →
    Fails (unpacker.nextAs (Item.asUnsigned width)) .typeError
  unsignedRange : ∀ width, 0 ≤ value → ¬FitsUnsigned width value →
    Fails (unpacker.nextAs (Item.asUnsigned width)) .valueError

variable [Inlet σ] {unpacker : Unpacker σ} {item : Item}

section

variable {α : Type} {view : Item → Except Fault α}

theorem nextAs_of_next (read : unpacker.next.1 = .ok item) :
    unpacker.nextAs view = unpacker.next.2.settle (view item) := by
  have split : unpacker.next = (.ok item, unpacker.next.2) := Prod.ext read rfl
  rw [nextAs, split]

theorem gives_of_next (read : unpacker.next.1 = .ok item) {value : α}
    (viewed : view item = .ok value) :
    Gives (unpacker.nextAs view) value unpacker.next.2.offset := by
  have heeds := unpacker.heeds_nextAs view
  have clean := clean_of_attempt read
  rw [nextAs_of_next read, viewed] at heeds ⊢
  refine ⟨rfl, rfl, ?_⟩
  rw [heeds.status, status, clean]
  rfl

theorem fails_of_next (read : unpacker.next.1 = .ok item) {fault : Fault}
    (viewed : view item = .error fault) : Fails (unpacker.nextAs view) fault := by
  have heeds := unpacker.heeds_nextAs view
  have clean := clean_of_attempt read
  rw [nextAs_of_next read, viewed] at heeds ⊢
  refine ⟨rfl, ?_, rfl⟩
  rw [heeds.status, status, clean]
  rfl

end

theorem narrows_of_next {value : Int} (read : unpacker.next.1 = .ok (.integer value)) :
    unpacker.Narrows value unpacker.next.2.offset := by
  constructor
  · intro width some fits
    apply gives_of_next read
    exact if_pos ((fitsSigned_iff some value).mp fits)
  · intro width some out
    apply fails_of_next read
    exact if_neg (mt (fitsSigned_iff some value).mpr out)
  · intro width fits
    obtain ⟨positive, below⟩ := (fitsUnsigned_iff width value).mp fits
    apply gives_of_next read
    rw [Item.asUnsigned, if_neg (Int.not_lt.mpr positive), if_pos below]
  · intro width negative
    apply fails_of_next read
    exact if_pos negative
  · intro width positive out
    apply fails_of_next read
    have above : ¬value < (1 <<< width : Nat) := fun below =>
      out ((fitsUnsigned_iff width value).mpr ⟨positive, below⟩)
    rw [Item.asUnsigned, if_neg (Int.not_lt.mpr positive), if_neg above]

/-- The next item, an integer or another one, is given or refused as its bytes and the type
demand. -/
def Integers (input : List UInt8) (unpacker : Unpacker σ) : Prop :=
  ∀ item, unpacker.next.1 = .ok item →
    (∀ value, item = .integer value → ∃ form, Integer.Form form value ∧
      form <+: input.drop unpacker.offset ∧
      unpacker.Narrows value (unpacker.offset + form.length)) ∧
    ((∀ value, item ≠ .integer value) → ∀ width,
      Fails (unpacker.nextAs (Item.asSigned width)) .typeError ∧
        Fails (unpacker.nextAs (Item.asUnsigned width)) .typeError)

variable {input : List UInt8} {holds : Incoming → σ → Prop} {ended : σ → Prop}

theorem integers (keeps : Inlet.Maintains input holds ended)
    (held : holds unpacker.buffer unpacker.handler)
    (native : unpacker.fault = none → unpacker.order.verify = .ok ()) :
    unpacker.Integers input := by
  intro item read
  constructor
  · rintro value rfl
    have native := native (clean_of_attempt read)
    obtain ⟨taken, answered, moved⟩ := (keeps.next held).2 _ read
    obtain ⟨form, spells, more, begins⟩ :=
      Item.integer_of_read native (congrArg Prod.fst (answered .endOfInput))
    -- What is read of the form ends where the form ends.
    have whole := spells.reads native .endOfInput more
    rw [begins, answered .endOfInput] at whole
    have narrows := narrows_of_next read
    rw [moved, (Prod.mk.inj whole).2] at narrows
    exact ⟨form, spells, ⟨more, begins⟩, narrows⟩
  · intro other width
    cases item with
    | integer value => exact absurd rfl (other value)
    | _ => exact ⟨fails_of_next read rfl, fails_of_next read rfl⟩

theorem integers_pursue (keeps : Inlet.Maintains input holds ended)
    (held : holds unpacker.buffer unpacker.handler)
    (native : unpacker.fault = none → unpacker.order.verify = .ok ()) (requests : List Request) :
    (unpacker.pursue requests).Integers input := by
  obtain ⟨stays, _, order⟩ := keeps.pursue held requests
  refine integers keeps stays fun clean => ?_
  rw [order]
  exact native (clean_of_pursue clean)

end Unpacker

/-! ### There and back -/

theorem Header.least_integer_short (value : Int) : (Header.integer value).least ≤ 9 := by
  simp only [least]
  repeat' split
  all_goals omega

namespace Packer

open Unpacker

variable {packer : Packer Growable} {draft : Draft} {ceiling : Nat}

theorem Holds.returns_integer (holds : packer.Holds draft ceiling) (clean : packer.fault = none)
    (native : packer.dialect.order.verify = .ok ())
    (allocation : Granted ceiling (packer.buffer.packed.length + 9)) {value : Value} {number : Int}
    {bytes : List UInt8} (encoded : value.encode packer.dialect = .ok bytes)
    (length : bytes.length = (Header.integer number).least)
    (reads : (Header.scan packer.dialect.order).Reads bytes (.integer number))
    {sees : Nat → (σ : Type) → [Inlet σ] → Unpacker σ → Prop}
    (seen : ∀ (σ : Type) [Inlet σ] (unpacker : Unpacker σ),
      unpacker.Narrows number bytes.length → sees bytes.length σ unpacker) :
    packer.Returns value sees := by
  have short : bytes.length ≤ 9 := length.trans_le (Header.least_integer_short number)
  apply holds.returns clean native encoded (allocation.mono (Nat.add_le_add_left short _))
    (Item.reads_bare reads rfl)
  intro σ _ _ unpacker after _ _ _ read _ place
  have narrows := narrows_of_next (congrArg Prod.fst read)
  rw [read, place] at narrows
  exact seen σ unpacker narrows

end Packer

open Unpacker in
/-- Integers. In memory and on any stream, after any requests, the next item is an integer in one of
its forms, and every accessor of some width gives just this number and stands behind it, or fails
for its sign or its size; or it is no integer, and all fail for its type. The forms are those of the
words of 64 bits, with a sign or without, and wherever one lies ahead it is read as what it says. So
a word that memory has taken, behind anything, is had back. -/
theorem integers_exact (front : List UInt8) (input : Input) {capacity : Nat}
    (short : capacity < Position.modulus) (fits : front.length < Position.modulus)
    (ceiling : Nat) (order : ByteOrder) :
    (∀ requests, ((ofBytes front order).pursue requests).Integers front ∧
      (((ofInput input capacity order).withCeiling ceiling).pursue requests).Integers
        input.pending ∧
      (((new (.ofBytes front) (Source.mk input) order).withCeiling ceiling).pursue
        requests).Integers (front ++ input.pending)) ∧
    (∀ value, (∃ form, Integer.Form form value) ↔ FitsSigned 64 value ∨ FitsUnsigned 64 value) ∧
    (∀ form value rest, Integer.Form form value → order.verify = .ok () →
      Roomy (form ++ rest) ceiling → OnEverySource (form ++ rest) order ceiling fun _ _ unpacker =>
        unpacker.next.1 = .ok (.integer value) ∧ unpacker.Narrows value form.length) ∧
    ∀ dialect size calls,
      let packer := (((Packer.growable size dialect).withCeiling ceiling).run calls).2
      packer.fault = none → Granted ceiling (packer.buffer.packed.length + 9) →
        (∀ value, packer.Returns (.signed value) fun taken _ _ unpacker =>
          Gives (unpacker.nextAs (Item.asSigned 64)) value.toInt taken) ∧
        ∀ value, packer.Returns (.unsigned value) fun taken _ _ unpacker =>
          Gives (unpacker.nextAs (Item.asUnsigned 64)) value.toNat taken := by
  refine ⟨fun requests => ⟨?_, ?_, ?_⟩, Integer.exists_form_iff, ?_, ?_⟩
  · exact integers_pursue (Exhausted.maintains front) (.ofBytes front) native_of_new requests
  · exact integers_pursue (Source.maintains [] input ceiling)
      (covers_ofInput input ceiling order short) native_of_new requests
  · exact integers_pursue (Source.maintains front input ceiling)
      (covers_ofBytes input ceiling order fits) native_of_new requests
  · intro form value rest spells native roomy
    apply onEverySource roomy
    intro σ _ _ unpacker follows
    obtain ⟨after, read, _, place⟩ := follows.next_of_reads native (spells.reads native)
    have narrows := narrows_of_next (congrArg Prod.fst read)
    rw [read, place] at narrows
    exact ⟨congrArg Prod.fst read, narrows⟩
  · intro dialect size calls packer clean allocation
    obtain ⟨⟨draft, holds⟩, native⟩ := Packer.ready_growable clean
    refine ⟨fun value => ?_, fun value => ?_⟩
    · have upper : value.toInt < 0x10000000000000000 := Int.lt_trans value.toInt_lt (by decide)
      apply holds.returns_integer clean native allocation rfl (Encode.length_integer _ _)
        (Encode.reads_integer value.le_toInt upper)
      intro σ _ unpacker narrows
      exact narrows.signed 64 (by decide) ⟨value.toBitVec, rfl⟩
    · apply holds.returns_integer clean native allocation rfl (Encode.length_natural _ _)
        (Encode.reads_natural value.toNat_lt)
      intro σ _ unpacker narrows
      exact narrows.unsigned 64 ⟨value.toBitVec, rfl⟩

open Unpacker in
/-- The largest signed word of two bytes in a form of eight, cut off from its tag and brought byte
by byte. -/
theorem integers_exact_wide :
    let input := Input.ofBytes [0, 0, 0, 0, 0, 0, 0x7f, 0xff] (.paced (fun _ => 1) true none)
    let unpacker := ((Unpacker.new (.ofBytes [0x91, 0xd3]) (Source.mk input) .native).withCeiling
      32).pursue [.call .next]
    let packer := (((Packer.growable 1 ⟨true, .native⟩).withCeiling 32).run [.pack .nil]).2
    let form : List UInt8 := [0xd3, 0, 0, 0, 0, 0, 0, 0x7f, 0xff]
    (0 < Position.modulus ∧ [0x91, 0xd3].length < Position.modulus) ∧
    unpacker.Integers ([0x91, 0xd3] ++ input.pending) ∧ unpacker.next.1 = .ok (.integer 0x7fff) ∧
    (Integer.Form form 0x7fff ∧ Roomy (form ++ []) 32) ∧
    OnEverySource (form ++ []) .native 32 (fun _ _ unpacker =>
      unpacker.next.1 = .ok (.integer 0x7fff) ∧ unpacker.Narrows 0x7fff form.length) ∧
    (FitsSigned 16 0x7fff ∧ ¬FitsSigned 8 0x7fff) ∧
    (packer.fault = none ∧ Granted 32 (packer.buffer.packed.length + 9)) ∧
    packer.Returns (.signed .minValue) fun taken _ _ unpacker =>
      Gives (unpacker.nextAs (Item.asSigned 64)) (-0x8000000000000000) taken := by
  intro input unpacker packer form
  obtain ⟨read, _, forms, packs⟩ := integers_exact [0x91, 0xd3] input
    (show 0 < Position.modulus by decide) (by decide) 32 .native
  have spells : Integer.Form form 0x7fff := by
    have eight : form.tail.length = 2 ^ (3 : Fin 4).val := rfl
    have number : (BitVec.ofNat (8 * form.tail.length) (ofBigEndian form.tail)).toInt = 0x7fff := by
      decide +kernel
    have signed := Integer.Form.signed 3 eight
    rwa [number] at signed
  have roomy : Roomy (form ++ []) 32 := roomy_of_le (by decide) (by decide)
  have clean : packer.fault = none := by decide
  have granted : Granted 32 (packer.buffer.packed.length + 9) := by decide
  exact ⟨by decide, (read [.call .next]).2.2, by cbv, ⟨spells, roomy⟩,
    forms form _ [] spells rfl roomy, by simp [fitsSigned_iff], ⟨clean, granted⟩,
    (packs ⟨true, .native⟩ 1 [.pack .nil] clean granted).1 .minValue⟩

end MessagePack
