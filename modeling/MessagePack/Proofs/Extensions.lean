import MessagePack.Proofs.ExtensionNumbers

/-! Extensions there and back. The packer chooses the header by the length of the payload alone, and
the reader has one type by which it takes an extension for something else. So every extension is
read as what was packed, unless it has the type that is kept for timestamps. Of that type it is read
as the timestamp of its payload, and refused if no timestamp is as long. -/
namespace MessagePack

/-! ### Values -/

/-- The type and payload of a value that goes into an extension. -/
inductive Value.Sends : Value → Int8 → List UInt8 → Prop where
  | ext (type : Int8) (payload : List UInt8) : Sends (.ext type payload) type payload
  | integer (type : Int8) {value : Int64} {payload : List UInt8}
    (least : LeastWord value.toInt payload) : Sends (.extInteger type value) type payload
  | float (type : Int8) (bits : UInt32) :
    Sends (.extFloat type bits) type (toBigEndian 4 bits.toNat)
  | double (type : Int8) (bits : UInt64) :
    Sends (.extDouble type bits) type (toBigEndian 8 bits.toNat)

variable {order : ByteOrder} {type : Int8} {payload output : List UInt8}

theorem LeastWord.eq_integerClass {value : Int64} (least : LeastWord value.toInt payload) :
    payload = toBigEndian (Tag.width (Encode.integerClass value.toInt).val)
      (ofTwosComplement (Tag.width (Encode.integerClass value.toInt).val) value.toInt) := by
  obtain ⟨width, listed, fits, shortest, rfl⟩ := least
  obtain ⟨known, within, minimal⟩ := width_integerClass value.le_toInt value.toInt_lt
  have same := Nat.le_antisymm (shortest _ known within) (minimal _ listed fits)
  rw [same, toNat_ofInt_word]

theorem Encode.extWord_eq (native : order.verify = .ok ()) (type : Int8) {i : Fin 5}
    (narrow : i.val ≤ 3) (word : Nat) :
    let payload := toBigEndian (Tag.width i.val) word
    extWord order type i word = extHeader order type payload.length ++ payload ∧
      payload.length < 0x100000000 := by
  intro payload
  have length : payload.length = Tag.width i.val := length_toBigEndian ..
  have header : extHeader order type (Tag.width i.val) = [(Tag.fixExt i).toByte, type.toUInt8] := by
    match i, narrow with
    | 0, _ | 1, _ | 2, _ | 3, _ => rfl
  rw [extWord, length, header, ByteOrder.store_eq native]
  exact ⟨rfl, Nat.lt_of_le_of_lt (Tag.width_le narrow) (by decide)⟩

/-- All of them are packed as a header and the payload, whose length is a word. -/
theorem Value.Sends.encode {value : Value} {dialect : Dialect} (sends : value.Sends type payload)
    (native : dialect.order.verify = .ok ()) (encoded : value.encode dialect = .ok output) :
    output = Encode.extHeader dialect.order type payload.length ++ payload ∧
      payload.length < 0x100000000 := by
  cases sends <;> simp only [Value.encode] at encoded
  case ext =>
    split at encoded
    · cases encoded
    · split at encoded <;> cases encoded
      exact ⟨rfl, of_decide_eq_true (Decidable.not_not.mp ‹_›)⟩
  all_goals split at encoded <;> cases encoded
  case integer value least _ =>
    obtain rfl := least.eq_integerClass
    have narrow : (Encode.integerClass value.toInt).val ≤ 3 := by
      unfold Encode.integerClass
      repeat' split
      all_goals decide
    exact Encode.extWord_eq native type narrow _
  case float => exact Encode.extWord_eq native type (i := 2) (by decide) _
  case double => exact Encode.extWord_eq native type (i := 3) (by decide) _

/-! ### Headers -/

/-- The header that is packed says a length, and has a tag of timestamps for their lengths alone. -/
theorem Encode.extHeader_cases (native : order.verify = .ok ()) (type : Int8) {length : Nat}
    (fits : length < 0x100000000) :
    ∃ tag, ExtHeader tag length type (extHeader order type length) ∧
      ((tag, length) ∈ Timestamp.forms → length ∈ [4, 8, 12]) := by
  have sized {i : Fin 3} (within : length < wordCount (Tag.width i.val)) :
      ExtHeader (.ext i) length type
        (withField order (.ext i) (Tag.width i.val) length ++ [type.toUInt8]) := by
    have header := ExtHeader.sized i (toBigEndian (Tag.width i.val) length) type
      (length_toBigEndian ..)
    rwa [ofBigEndian_word within, ← ByteOrder.store_eq native] at header
  simp only [extHeader]
  split
  · exact ⟨_, .fixed 0 type, by decide⟩
  · exact ⟨_, .fixed 1 type, by decide⟩
  · exact ⟨_, .fixed 2 type, by decide⟩
  · exact ⟨_, .fixed 3 type, by decide⟩
  · exact ⟨_, .fixed 4 type, by decide⟩
  · have forms {i : Fin 3} (form : (Tag.ext i, length) ∈ Timestamp.forms) :
        length ∈ [4, 8, 12] := by
      simp [Timestamp.forms] at form
      simp [form.2]
    repeat' split
    · exact ⟨_, sized (i := 0) ‹_›, forms⟩
    · exact ⟨_, sized (i := 1) ‹_›, forms⟩
    · exact ⟨_, sized (i := 2) fits, forms⟩

/-- Where a timestamp has the length, the header and the payload are one of its forms. -/
theorem Timestamp.form_of_length (native : order.verify = .ok ())
    (timed : payload.length ∈ [4, 8, 12]) :
    ∃ time, Form (Encode.extHeader order timestampType payload.length ++ payload) time := by
  simp only [List.mem_cons, List.not_mem_nil, or_false] at timed
  rcases timed with length | length | length
  · rw [length]
    exact ⟨_, .seconds length⟩
  · rw [length]
    exact ⟨_, .packed length⟩
  · have four : (payload.take 4).length = 4 := List.length_take_of_le (by omega)
    have eight : (payload.drop 4).length = 8 := by rw [List.length_drop, length]
    have wide := Form.wide four eight
    have twelve : order.store 1 12 = [0x0c] := by rw [ByteOrder.store_eq native]; rfl
    rw [List.take_append_drop] at wide
    simp only [length, Encode.extHeader, Encode.withField, twelve]
    exact ⟨_, wide⟩

/-! ### There and back -/

namespace Unpacker

/-- What is read where an extension has been packed: the extension, if its type is not that of
timestamps. Of that type it is the timestamp that the bytes are a form of, and nothing where the
length is that of no form. -/
structure Receives [Inlet σ] (output : List UInt8) (type : Int8) (payload : List UInt8)
    (unpacker : Unpacker σ) : Prop where
  extension : type ≠ timestampType → ∃ after,
    unpacker.next = (.ok (.ext type payload), after) ∧ after.offset = output.length
  timestamp : type = timestampType → payload.length ∈ [4, 8, 12] → ∃ time after,
    Timestamp.Form output time ∧ unpacker.next = (.ok (.timestamp time), after) ∧
      after.offset = output.length
  refused : type = timestampType → payload.length ∉ [4, 8, 12] →
    unpacker.next.1 = .error .wrongTimestampLength

/-- On every source an extension is received from the bytes, whatever lies behind them. -/
def Delivers (output : List UInt8) (type : Int8) (payload : List UInt8) : Prop :=
  ∀ order rest ceiling, order.verify = .ok () → Roomy (output ++ rest) ceiling →
    OnEverySource (output ++ rest) order ceiling fun _ _ unpacker =>
      unpacker.Receives output type payload

theorem Follows.next_of_refused [Inlet σ] [Feed σ] {unpacker : Unpacker σ} {bytes : List UInt8}
    {closing fault : Fault} {order : ByteOrder}
    (follows : unpacker.Follows (.start bytes closing order)) (native : order.verify = .ok ())
    (refused : ((Item.scan order).read closing bytes).1 = .error fault) :
    unpacker.next.1 = .error fault := by
  have clean : (Reading.start bytes closing order).fault = none := by
    simp only [Reading.start, native]
  rw [follows.next.1, Reading.next, Reading.attempt_of_clean clean, Reading.fst_settle]
  exact refused

theorem delivers (native : order.verify = .ok ()) (type : Int8)
    (fits : payload.length < 0x100000000) :
    Delivers (Encode.extHeader order type payload.length ++ payload) type payload := by
  intro other rest ceiling alike roomy
  apply onEverySource roomy
  intro σ _ _ unpacker follows
  have same := Item.scan_native native alike
  constructor
  · intro own
    have header : (Header.scan order).Reads _ _ := Encode.reads_extHeader fits own
    have reads := Item.reads_payload header rfl
    rw [same] at reads
    obtain ⟨after, read, _, place⟩ := follows.next_of_reads alike reads
    exact ⟨after, read, place⟩
  · rintro rfl timed
    obtain ⟨time, form⟩ := Timestamp.form_of_length native timed
    have reads := Item.reads_bare (form.reads alike) rfl
    obtain ⟨after, read, _, place⟩ := follows.next_of_reads alike reads
    exact ⟨time, after, form, read, place⟩
  · rintro rfl odd
    obtain ⟨tag, header, forms⟩ := Encode.extHeader_cases native timestampType fits
    apply follows.next_of_refused alike
    rw [Item.read_odd_iff alike]
    refine ⟨tag, _, _, header, ?_, fun form => odd (forms form)⟩
    rw [List.append_assoc]
    exact List.prefix_append ..

end Unpacker

namespace Packer

open Unpacker

theorem delivers_of_pack [Outlet σ] (buffer : Outgoing) (handler : σ) (dialect : Dialect)
    (calls : List Call) {value : Value} (sends : value.Sends type payload) {after : Packer σ} :
    let packer := ((new buffer handler dialect).run calls).2
    packer.pack value = (.ok (), after) → ∃ output, value.encode packer.dialect = .ok output ∧
      packer.emit output = (.ok (), after) ∧ Delivers output type payload := by
  intro packer packed
  obtain ⟨clean, output, encoded, emitted⟩ := pack_eq_ok packed
  have native : packer.dialect.order.verify = .ok () := by
    have kept : packer.dialect.order = dialect.order := order_run calls _
    rw [kept]
    exact native_of_clean clean
  obtain ⟨rfl, fits⟩ := sends.encode native encoded
  exact ⟨_, encoded, emitted, delivers native type fits⟩

/-- Extensions. What is packed for one, whatever handler takes it and whatever was called before, is
received on every source, and nothing but it: as the extension of that type and payload, unless it
has the type of timestamps. In memory it lies behind what was packed before. -/
theorem extensions_delivered {value : Value} (sends : value.Sends type payload) (dialect : Dialect)
    (calls : List Call) :
    (∀ (σ : Type) [Outlet σ] (buffer : Outgoing) (handler : σ) after,
      let packer := ((new buffer handler dialect).run calls).2
      packer.pack value = (.ok (), after) → ∃ output, value.encode packer.dialect = .ok output ∧
        packer.emit output = (.ok (), after) ∧ Delivers output type payload) ∧
    ∀ ceiling size after,
      let packer := (((growable size dialect).withCeiling ceiling).run calls).2
      packer.pack value = (.ok (), after) → ∃ output,
        after.buffer.packed = packer.buffer.packed ++ output ∧ Delivers output type payload := by
  constructor
  · intro σ _ buffer handler after
    exact delivers_of_pack buffer handler dialect calls sends
  · intro ceiling size after packer packed
    obtain ⟨output, _, emitted, delivered⟩ :=
      delivers_of_pack _ Growable.mk dialect calls sends packed
    obtain ⟨⟨_, holds⟩, _⟩ := ready_growable (attempt_eq_ok packed).1
    exact ⟨output, holds.packed_emit emitted, delivered⟩

/-- Three bytes of the type next to that of timestamps, behind another item. -/
theorem extensions_delivered_three :
    let packer := (((growable 1 ⟨true, .native⟩).withCeiling 64).run
      [.pack .nil, .setCompatible false]).2
    let result := packer.pack (.ext (-2) [0x01, 0x02, 0x03])
    (Value.ext (-2) [0x01, 0x02, 0x03]).Sends (-2) [0x01, 0x02, 0x03] ∧
      result = (.ok (), result.2) ∧
      ∃ output, result.2.buffer.packed = [0xc0] ++ output ∧
        Delivers output (-2) [0x01, 0x02, 0x03] := by
  intro packer result
  have sends := Value.Sends.ext (-2) [0x01, 0x02, 0x03]
  have packed : result = (.ok (), result.2) := Prod.ext (by decide +kernel) rfl
  have front : packer.buffer.packed = [0xc0] := by decide +kernel
  obtain ⟨output, lies, delivered⟩ := (extensions_delivered sends ⟨true, .native⟩
    [.pack .nil, .setCompatible false]).2 64 1 result.2 packed
  exact ⟨sends, packed, output, front ▸ lies, delivered⟩

/-- Of the type of timestamps, three bytes are refused and a float is read as a time. -/
theorem extensions_not_delivered :
    let packer := growable 16 ⟨false, .native⟩
    let bytes := packer.pack (.ext (-1) [0x01, 0x02, 0x03])
    let float := packer.pack (.extFloat (-1) 0x3f800000)
    (bytes.1 = .ok () ∧ bytes.2.buffer.packed = [0xc7, 0x03, 0xff, 0x01, 0x02, 0x03] ∧
      (ofBytes bytes.2.buffer.packed .native).next.1 = .error .wrongTimestampLength) ∧
    float.1 = .ok () ∧ float.2.buffer.packed = [0xd6, 0xff, 0x3f, 0x80, 0x00, 0x00] ∧
      (ofBytes float.2.buffer.packed .native).next.1 = .ok (.timestamp ⟨0x3f800000, 0⟩) := by
  decide +kernel

end Packer
end MessagePack
