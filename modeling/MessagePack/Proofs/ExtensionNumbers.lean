import MessagePack.Proofs.TypedIntegers
import MessagePack.Proofs.ByteOrders
import MessagePack.Proofs.DumpScripts

/-! Numbers in extensions. What is packed is the word of the least width that the number fits. What
is read is the payload of the item at hand, whatever has happened to the buffer since it came, and
reading it takes nothing away. -/
namespace MessagePack

/-! ### Words -/

/-- The payload is the word of the least width that the number fits, in two's complement. -/
def LeastWord (value : Int) (payload : List UInt8) : Prop :=
  ∃ width ∈ [1, 2, 4, 8], FitsSigned (8 * width) value ∧
    (∀ other ∈ [1, 2, 4, 8], FitsSigned (8 * other) value → width ≤ other) ∧
    payload = toBigEndian width (BitVec.ofInt (8 * width) value).toNat

variable {value : Int} {payload : List UInt8}

theorem ofBigEndian_word {width word : Nat} (below : word < wordCount width) :
    ofBigEndian (toBigEndian width word) = word := by
  rw [ofBigEndian_toBigEndian, Nat.mod_eq_of_lt below]

theorem LeastWord.toInt (least : LeastWord value payload) : payload.length ∈ [1, 2, 4, 8] ∧
    (BitVec.ofNat (8 * payload.length) (ofBigEndian payload)).toInt = value := by
  obtain ⟨width, listed, ⟨word, rfl⟩, _, rfl⟩ := least
  have below : word.toNat < wordCount width := by
    rw [wordCount, Nat.one_shiftLeft]
    exact word.isLt
  rw [length_toBigEndian, BitVec.ofInt_toInt, ofBigEndian_word below, BitVec.ofNat_toNat,
    BitVec.setWidth_eq]
  exact ⟨listed, rfl⟩

theorem toNat_ofInt_word (width : Nat) (value : Int) :
    (BitVec.ofInt (8 * width) value).toNat = ofTwosComplement width value := by
  rw [BitVec.toNat_ofInt, ofTwosComplement, wordCount, Nat.one_shiftLeft]

theorem width_integerClass (lower : -0x8000000000000000 ≤ value)
    (upper : value < 0x8000000000000000) :
    let width := Tag.width (Encode.integerClass value).val
    width ∈ [1, 2, 4, 8] ∧ FitsSigned (8 * width) value ∧
      ∀ other ∈ [1, 2, 4, 8], FitsSigned (8 * other) value → width ≤ other := by
  have bounds {width : Nat} (some : 0 < width) := fitsSigned_iff some value
  simp only [List.forall_mem_cons, Encode.integerClass]
  -- Each class is settled against all four widths at once.
  repeat' split
  all_goals
    simp [Tag.width, bounds]
    omega

theorem leastWord_integerClass (lower : -0x8000000000000000 ≤ value)
    (upper : value < 0x8000000000000000) :
    LeastWord value (toBigEndian (Tag.width (Encode.integerClass value).val)
      (ofTwosComplement (Tag.width (Encode.integerClass value).val) value)) := by
  obtain ⟨listed, fits, least⟩ := width_integerClass lower upper
  exact ⟨_, listed, fits, least, by rw [toNat_ofInt_word]⟩

/-! ### The extension at hand -/

theorem ExtNumber.integer_of_mem {order : ByteOrder} (native : order.verify = .ok ())
    (listed : payload.length ∈ [1, 2, 4, 8]) : integer order payload =
      .ok (BitVec.ofNat (8 * payload.length) (ofBigEndian payload)).toInt := by
  rw [toInt_ofNat_word (ofBigEndian_lt payload), ← ByteOrder.load_eq native]
  simp only [List.mem_cons, List.not_mem_nil, or_false] at listed
  rcases listed with width | width | width | width <;> simp only [integer_eq, width]

theorem ExtNumber.integer_of_not_mem {order : ByteOrder}
    (other : payload.length ∉ [0, 1, 2, 4, 8]) : integer order payload = .error .valueError := by
  unfold integer
  split <;> simp_all

namespace Unpacker

section

variable {unpacker : Unpacker σ} {type : Int8}

/-- The numbers that a payload is read as. One that is had leaves everything as it is. -/
structure Numbers (payload : List UInt8) (unpacker : Unpacker σ) : Prop where
  integer : payload.length ∈ [1, 2, 4, 8] → unpacker.extInteger =
    (.ok (BitVec.ofNat (8 * payload.length) (ofBigEndian payload)).toInt, unpacker)
  zero : payload = [] → unpacker.extInteger = (.ok 0, unpacker)
  noInteger : payload.length ∉ [0, 1, 2, 4, 8] → Fails unpacker.extInteger .valueError
  float : payload.length = 4 → unpacker.extFloat = (.ok (.ofNat (ofBigEndian payload)), unpacker)
  noFloat : payload.length ≠ 4 → Fails unpacker.extFloat .valueError
  double : payload.length = 8 →
    unpacker.extDouble = (.ok (.ofNat (ofBigEndian payload)), unpacker)
  noDouble : payload.length ≠ 8 → Fails unpacker.extDouble .valueError

theorem fails_settle (clean : unpacker.fault = none) (fault : Fault) :
    Fails (unpacker.settle (.error fault : Except Fault α)) fault := by
  refine ⟨rfl, ?_, rfl⟩
  simp only [settle, status, clean]
  rfl

theorem numbers_of_item (clean : unpacker.fault = none)
    (native : unpacker.order.verify = .ok ())
    (held : unpacker.item? = some (.ext type payload)) (user : 0 ≤ type) :
    unpacker.Numbers payload := by
  have load : unpacker.order.load payload = ofBigEndian payload := ByteOrder.load_eq native payload
  have integer : unpacker.extInteger = _ := currentExt_of_item clean held user ExtNumber.integer
  have float : unpacker.extFloat = _ := currentExt_of_item clean held user ExtNumber.float
  have double : unpacker.extDouble = _ := currentExt_of_item clean held user ExtNumber.double
  constructor
  · intro listed
    rw [integer, ExtNumber.integer_of_mem native listed]
    rfl
  · rintro rfl
    exact integer
  · intro other
    rw [integer, ExtNumber.integer_of_not_mem other]
    exact fails_settle clean _
  · intro four
    rw [float, ExtNumber.float_eq, if_pos four, load]
    rfl
  · intro other
    rw [float, ExtNumber.float_eq, if_neg other]
    exact fails_settle clean _
  · intro eight
    rw [double, ExtNumber.double_eq, if_pos eight, load]
    rfl
  · intro other
    rw [double, ExtNumber.double_eq, if_neg other]
    exact fails_settle clean _

end

/-! ### Runs -/

/-- The requests that read a number from the extension at hand. -/
def Request.Numeric : Request → Prop
  | .extInteger | .extFloat | .extDouble => True
  | .call _ => False

theorem currentExt_cases (unpacker : Unpacker σ) (read : ByteOrder → List UInt8 → Except Fault α) :
    (unpacker.currentExt read).2.offset = unpacker.offset ∧
      ∀ value, (unpacker.currentExt read).1 = .ok value →
        (unpacker.currentExt read).2 = unpacker := by
  have settled (answer : Except Fault α) :
      (unpacker.settle answer).2.offset = unpacker.offset ∧
        ∀ value, (unpacker.settle answer).1 = .ok value →
          (unpacker.settle answer).2 = unpacker := by
    cases answer with
    | ok value => exact ⟨rfl, fun _ _ => rfl⟩
    | error fault => exact ⟨rfl, nofun⟩
  unfold currentExt attempt
  split
  · exact ⟨rfl, nofun⟩
  · dsimp only
    split <;> exact settled _

variable [Inlet σ]

theorem reply_snd (request : Request) (unpacker : Unpacker σ) :
    (unpacker.reply request).2 = unpacker.request request := by
  cases request <;> rfl

theorem order_request (request : Request) (unpacker : Unpacker σ) :
    (unpacker.request request).order = unpacker.order := by
  rw [← reply_snd]
  exact order_deed (.request request)

theorem spares_move (move : Move) (unpacker : Unpacker σ) :
    unpacker.Spares (unpacker.move move) := by
  cases move with
  | lookAhead => exact unpacker.spares_lookAhead
  | _ => exact ⟨rfl, rfl, rfl⟩

theorem spares_moves (moves : List Move) (unpacker : Unpacker σ) :
    unpacker.Spares (unpacker.moves moves) := by
  induction moves generalizing unpacker with
  | nil => exact .refl unpacker
  | cons move moves ih => exact (unpacker.spares_move move).trans (ih _)

theorem native_act {unpacker : Unpacker σ}
    (native : unpacker.fault = none → unpacker.order.verify = .ok ()) (act : Act)
    (clean : (unpacker.act act).fault = none) : (unpacker.act act).order.verify = .ok () := by
  cases act with
  | request request =>
    have order : (unpacker.act (.request request)).order = unpacker.order :=
      order_request request unpacker
    rw [order]
    exact native (clean_of_request clean)
  | move move =>
    have spares : unpacker.Spares (unpacker.act (.move move)) := unpacker.spares_move move
    rw [spares.order]
    exact native (spares.fault.symm.trans clean)

theorem native_acts {unpacker : Unpacker σ}
    (native : unpacker.fault = none → unpacker.order.verify = .ok ()) (acts : List Act)
    (clean : (unpacker.acts acts).fault = none) : (unpacker.acts acts).order.verify = .ok () := by
  induction acts generalizing unpacker with
  | nil => exact native clean
  | cons act acts ih => exact ih (native_act native act) clean

theorem Request.Numeric.reply {request : Request} (numeric : request.Numeric)
    (unpacker : Unpacker σ) :
    (unpacker.reply request).2.offset = unpacker.offset ∧
      ∀ answer, (unpacker.reply request).1 = .ok answer →
        (unpacker.reply request).2 = unpacker := by
  have mapped {α : Type} (read : ByteOrder → List UInt8 → Except Fault α) (f : α → Answer) :
      (unpacker.currentExt read).2.offset = unpacker.offset ∧
        ∀ answer, (unpacker.currentExt read).1.map f = .ok answer →
          (unpacker.currentExt read).2 = unpacker := by
    obtain ⟨offset, same⟩ := unpacker.currentExt_cases read
    refine ⟨offset, fun answer answered => ?_⟩
    cases had : (unpacker.currentExt read).1 with
    | ok value => exact same value had
    | error fault =>
      rw [had] at answered
      cases answered
  cases request with
  | call => exact numeric.elim
  | extInteger => exact mapped ExtNumber.integer .integer
  | extFloat => exact mapped ExtNumber.float .float
  | extDouble => exact mapped ExtNumber.double .double

theorem replies_numeric (requests : List Request) (numeric : ∀ request ∈ requests, request.Numeric)
    (unpacker : Unpacker σ) :
    (unpacker.replies requests).2.offset = unpacker.offset ∧
      ((∀ request ∈ requests, ∃ answer, (unpacker.reply request).1 = .ok answer) →
        unpacker.replies requests =
          (requests.map fun request => (unpacker.reply request).1, unpacker)) := by
  induction requests generalizing unpacker with
  | nil => exact ⟨rfl, fun _ => rfl⟩
  | cons request requests ih =>
    obtain ⟨own, others⟩ := List.forall_mem_cons.mp numeric
    obtain ⟨offset, same⟩ := own.reply unpacker
    constructor
    · exact (ih others _).1.trans offset
    · -- The first leaves all as it is, so the others find what they would have found before it.
      intro answers
      obtain ⟨⟨answer, first⟩, answers⟩ := List.forall_mem_cons.mp answers
      simp only [replies, same answer first, (ih others unpacker).2 answers, List.map_cons]

theorem numbers_of_next [Inlet.Honest σ] {unpacker after : Unpacker σ} {seen : List UInt8}
    {type : Int8} (shows : unpacker.buffer.Shows seen)
    (native : unpacker.fault = none → unpacker.order.verify = .ok ())
    (read : unpacker.next = (.ok (.ext type payload), after)) (user : 0 ≤ type) :
    after.Numbers payload ∧ ∀ moves, (after.moves moves).item? = some (.ext type payload) →
      (after.moves moves).Numbers payload := by
  obtain ⟨begun, clean⟩ := clean_of_next read
  have order := unpacker.order_next
  rw [read] at order
  have native : after.order.verify = .ok () := order ▸ native begun
  refine ⟨numbers_of_item clean native (item_of_next shows read) user, fun moves held => ?_⟩
  have spares := after.spares_moves moves
  exact numbers_of_item (spares.fault.trans clean) (spares.order ▸ native) held user

end Unpacker

/-! ### There and back -/

namespace Packer

open Unpacker

/-- Memory takes the value, and whoever reads on there, from a buffer whose capacity is a word, has
an extension of the type with a payload as is said, of which the number is had and nothing
changed. -/
def Carries (packer : Packer Growable) (packed : Value) (type : Int8)
    (carried : List UInt8 → Prop)
    (number : (σ : Type) → Unpacker σ → Except Fault α × Unpacker σ) (value : α) : Prop :=
  packer.Returns packed fun taken σ _ unpacker =>
    unpacker.buffer.capacity < Position.modulus → ∃ payload after, carried payload ∧
      unpacker.next = (.ok (.ext type payload), after) ∧ after.offset = taken ∧
      number σ after = (.ok value, after)

variable {packer : Packer Growable} {draft : Draft} {ceiling : Nat}

section

variable {type : Int8} (holds : packer.Holds draft ceiling) (clean : packer.fault = none)
  (native : packer.dialect.order.verify = .ok ())
  (allocation : Granted ceiling (packer.buffer.packed.length + 10)) (user : 0 ≤ type)

include holds clean native allocation user

theorem Holds.carries {packed : Value} {i : Fin 5} {word : Nat} (narrow : Tag.width i.val ≤ 8)
    (encoded : packed.encode packer.dialect = .ok (Encode.extWord packer.dialect.order type i word))
    {carried : List UInt8 → Prop} (own : carried (toBigEndian (Tag.width i.val) word))
    {number : (σ : Type) → Unpacker σ → Except Fault α × Unpacker σ} {value : α}
    (had : ∀ (σ : Type) (after : Unpacker σ),
      after.Numbers (toBigEndian (Tag.width i.val) word) → number σ after = (.ok value, after)) :
    packer.Carries packed type carried number value := by
  have other : type ≠ timestampType := by
    rintro rfl
    exact absurd user (by decide)
  -- The header is written by hand, and is the one that an extension of this length would have.
  have store := ByteOrder.store_eq native (Tag.width i.val) word
  have bytes : Encode.extWord packer.dialect.order type i word =
      Encode.bare (.fixExt i) ++ [type.toUInt8] ++ toBigEndian (Tag.width i.val) word := by
    simp [Encode.extWord, Encode.bare, store]
  have short : (Encode.bare (.fixExt i) ++ [type.toUInt8] ++
      toBigEndian (Tag.width i.val) word).length ≤ 10 := by
    simp [Encode.bare]
    omega
  have header : (Header.scan packer.dialect.order).Reads _ _ := Encode.reads_fixExt i other
  have reads := Item.reads_payload header
    (congrArg some (length_toBigEndian (Tag.width i.val) word).symm)
  rw [bytes] at encoded
  apply holds.returns clean native encoded (allocation.mono (Nat.add_le_add_left short _)) reads
  intro σ _ _ unpacker after whole pending window read host place capacity
  obtain ⟨seen, shows⟩ := (window.sound capacity).shows
  have numbers := numbers_of_item (clean_of_next read).2 host (item_of_next shows read) user
  exact ⟨_, after, own, read, place, had σ after numbers⟩

variable (plain : packer.dialect.compatible = false)

include plain

theorem Holds.carries_integer (value : Int64) :
    packer.Carries (.extInteger type value) type (LeastWord value.toInt)
      (fun _ after => after.extInteger) value.toInt := by
  have encoded : (Value.extInteger type value).encode packer.dialect =
      .ok (Encode.extInteger packer.dialect.order type value.toInt) := by
    simp [Value.encode, plain]
  have least := leastWord_integerClass value.le_toInt value.toInt_lt
  obtain ⟨listed, number⟩ := least.toInt
  have narrow : Tag.width (Encode.integerClass value.toInt).val ≤ 8 := by
    simp at listed
    omega
  apply holds.carries clean native allocation user narrow encoded least
  intro σ after numbers
  have had := numbers.integer listed
  rwa [number] at had

theorem Holds.carries_float (bits : UInt32) :
    packer.Carries (.extFloat type bits) type (· = toBigEndian 4 bits.toNat)
      (fun _ after => after.extFloat) bits := by
  have encoded : (Value.extFloat type bits).encode packer.dialect =
      .ok (Encode.extWord packer.dialect.order type 2 bits.toNat) := by
    simp [Value.encode, plain]
  refine holds.carries clean native allocation user (by decide) encoded ?_ ?_
  · rfl
  · intro σ after numbers
    have had := numbers.float (length_toBigEndian ..)
    rwa [ofBigEndian_word bits.toNat_lt, UInt32.ofNat_toNat] at had

theorem Holds.carries_double (bits : UInt64) :
    packer.Carries (.extDouble type bits) type (· = toBigEndian 8 bits.toNat)
      (fun _ after => after.extDouble) bits := by
  have encoded : (Value.extDouble type bits).encode packer.dialect =
      .ok (Encode.extWord packer.dialect.order type 3 bits.toNat) := by
    simp [Value.encode, plain]
  refine holds.carries clean native allocation user (by decide) encoded ?_ ?_
  · rfl
  · intro σ after numbers
    have had := numbers.double (length_toBigEndian ..)
    rwa [ofBigEndian_word bits.toNat_lt, UInt64.ofNat_toNat] at had

end

end Packer

open Unpacker in
/-- Numbers in extensions. Whatever has been asked of an unpacker and done to its buffer before, the
user's extension that is read next is read as the numbers that its payload is the word of, now and
as long as it is at hand. Such requests move nothing, and any that succeed can be made again and
again. A number that memory has taken, behind anything, lies in its least word, and is had back in
memory and from any stream. -/
theorem numbers_carried [Inlet σ] [Inlet.Honest σ] {buffer : Incoming} (sound : buffer.Sound)
    (handler : σ) (order : ByteOrder) :
    (∀ acts type payload after,
      ((new buffer handler order).acts acts).next = (.ok (.ext type payload), after) → 0 ≤ type →
        after.Numbers payload ∧ ∀ moves, (after.moves moves).item? = some (.ext type payload) →
          (after.moves moves).Numbers payload) ∧
    (∀ (unpacker : Unpacker σ) requests, (∀ request ∈ requests, request.Numeric) →
      (unpacker.replies requests).2.offset = unpacker.offset ∧
        ((∀ request ∈ requests, ∃ answer, (unpacker.reply request).1 = .ok answer) →
          unpacker.replies requests =
            (requests.map fun request => (unpacker.reply request).1, unpacker))) ∧
    ∀ ceiling size dialect calls type,
      let packer := (((Packer.growable size dialect).withCeiling ceiling).run calls).2
      packer.fault = none → packer.dialect.compatible = false →
        Granted ceiling (packer.buffer.packed.length + 10) → 0 ≤ type →
        (∀ value, packer.Carries (.extInteger type value) type (LeastWord value.toInt)
          (fun _ after => after.extInteger) value.toInt) ∧
        (∀ bits, packer.Carries (.extFloat type bits) type (· = toBigEndian 4 bits.toNat)
          (fun _ after => after.extFloat) bits) ∧
        ∀ bits, packer.Carries (.extDouble type bits) type (· = toBigEndian 8 bits.toNat)
          (fun _ after => after.extDouble) bits := by
  refine ⟨?_, ?_, ?_⟩
  · intro acts type payload after read user
    obtain ⟨seen, shows⟩ := sound.shows
    have shows : (new buffer handler order).buffer.Shows seen := shows
    exact numbers_of_next (shows_acts shows acts) (native_acts native_of_new acts) read user
  · intro unpacker requests numeric
    exact replies_numeric requests numeric unpacker
  · intro ceiling size dialect calls type packer clean plain allocation user
    obtain ⟨⟨draft, holds⟩, native⟩ := Packer.ready_growable clean
    exact ⟨holds.carries_integer clean native allocation user plain,
      holds.carries_float clean native allocation user plain,
      holds.carries_double clean native allocation user plain⟩

open Unpacker in
/-- The least number of two bytes, behind another one on a stream that brings a byte at a time, and
the largest that one byte has no room for. -/
theorem numbers_carried_word :
    let input := Input.ofBytes [0x01, 0xd5, 0x07, 0x80, 0x00] (.paced (fun _ => 1) true none)
    let unpacker := (new (.ofCapacity 3) (Source.mk input) .portable).acts
      [.request (.call .next), .move .setBarrier]
    let after := unpacker.next.2
    let moved := after.moves [.lookAhead, .growToward 9]
    let packer := (((Packer.growable 1 ⟨true, .native⟩).withCeiling 64).run
      [.pack .nil, .setCompatible false]).2
    ((Incoming.ofCapacity 3).Sound ∧ unpacker.next = (.ok (.ext 7 [0x80, 0x00]), after)) ∧
    (after.Numbers [0x80, 0x00] ∧ moved.item? = some (.ext 7 [0x80, 0x00]) ∧
      moved.Numbers [0x80, 0x00]) ∧
    after.replies [.extInteger, .extInteger] =
      ([.ok (.integer (-0x8000)), .ok (.integer (-0x8000))], after) ∧
    (packer.fault = none ∧ packer.dialect.compatible = false ∧
      Granted 64 (packer.buffer.packed.length + 10) ∧ (0 : Int8) ≤ 7) ∧
    packer.Carries (.extInteger 7 128) 7 (LeastWord 128) (fun _ after => after.extInteger) 128 ∧
    (packer.pack (.extInteger 7 128)).2.buffer.packed = [0xc0, 0xd5, 0x07, 0x00, 0x80] := by
  intro input unpacker after moved packer
  have sound : (Incoming.ofCapacity 3).Sound := (Incoming.Window.ofCapacity [] 3).sound (by decide)
  obtain ⟨numbers, replies, packs⟩ := numbers_carried sound (Source.mk input) .portable
  have answered : unpacker.next.1 = .ok (.ext 7 [0x80, 0x00]) := by cbv
  have read : unpacker.next = (.ok (.ext 7 [0x80, 0x00]), after) := by
    rw [← answered]
  have user : (0 : Int8) ≤ 7 := by decide
  obtain ⟨own, still⟩ :=
    numbers [.request (.call .next), .move .setBarrier] _ _ _ read user
  have held : moved.item? = some (.ext 7 [0x80, 0x00]) := by
    simp only [moved, after, unpacker, input]
    cbv
  have had : (after.reply .extInteger).1 = .ok (.integer (-0x8000)) := by
    have number := own.integer (by decide)
    simp only [reply, number]
    decide +kernel
  have numeric : ∀ request ∈ [Request.extInteger, .extInteger], request.Numeric := by
    simp [Request.Numeric]
  have twice := (replies after _ numeric).2 (by simp [had])
  simp only [List.map_cons, List.map_nil, had] at twice
  have clean : packer.fault = none := by decide
  have granted : Granted 64 (packer.buffer.packed.length + 10) := by decide
  exact ⟨⟨sound, read⟩, ⟨own, held, still _ held⟩, twice, ⟨clean, rfl, granted, user⟩,
    (packs 64 1 ⟨true, .native⟩ [.pack .nil, .setCompatible false] 7 clean rfl granted user).1 128,
    by decide +kernel⟩

end MessagePack
