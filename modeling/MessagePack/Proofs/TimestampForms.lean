import MessagePack.Dump.Scalar
import MessagePack.Proofs.ShortestForms
import MessagePack.Proofs.LookAheadAgreement

/-! Timestamps that have been read. Two of the three forms on the wire have room for a fraction
of a second or more, and such a fraction is read like any other. It is refused when it is packed
again and when it is made a time of the clock, and a dump prints it with a digit too many. -/
namespace MessagePack

namespace Timestamp

def Valid (time : Timestamp) : Prop := time.nanos.toNat < nanosPerSecond

instance : DecidablePred Valid := fun _ => inferInstanceAs (Decidable (_ < _))

/-- The forms of timestamps on the wire, and what is read of them. -/
inductive Form : List UInt8 → Timestamp → Prop where
  | seconds {field : List UInt8} (length : field.length = 4) :
    Form (0xd6 :: 0xff :: field) ⟨.ofInt (ofBigEndian field), 0⟩
  | packed {field : List UInt8} (length : field.length = 8) :
    Form (0xd7 :: 0xff :: field) (.ofPacked (ofBigEndian field))
  | wide {nanos seconds : List UInt8} (four : nanos.length = 4) (eight : seconds.length = 8) :
    Form (0xc7 :: 0x0c :: 0xff :: (nanos ++ seconds))
      ⟨.ofInt (ofBigEndian seconds), .ofNat (ofBigEndian nanos)⟩

/-- The bytes begin with a timestamp whose fraction reaches a second. -/
inductive Excess : List UInt8 → Prop where
  | packed {field : List UInt8} (rest : List UInt8) (length : field.length = 8)
    (large : nanosPerSecond ≤ ofBigEndian field >>> secondsBits) :
    Excess (0xd7 :: 0xff :: field ++ rest)
  | wide {nanos : List UInt8} (rest : List UInt8) (length : nanos.length = 4)
    (large : nanosPerSecond ≤ ofBigEndian nanos) : Excess (0xc7 :: 0x0c :: 0xff :: nanos ++ rest)

variable {form bytes : List UInt8} {time : Timestamp}

/-- The fraction is what the nanoseconds of the form say. -/
theorem Form.valid_iff (spells : Form form time) (begins : form <+: bytes) :
    time.Valid ↔ ¬Excess bytes := by
  obtain ⟨more, rfl⟩ := begins
  cases spells with
  | seconds length =>
    refine ⟨fun _ excess => ?_, fun _ => Nat.zero_lt_of_ne_zero (by decide)⟩
    cases excess
  | @packed field length =>
    have below := ofBigEndian_lt field
    have words : wordCount field.length = 0x10000000000000000 := by rw [length]; rfl
    have fits : ofBigEndian field >>> secondsBits < UInt32.size := by
      rw [secondsBits, Nat.shiftRight_eq_div_pow, UInt32.size]
      omega
    have nanos : (ofPacked (ofBigEndian field)).nanos.toNat = ofBigEndian field >>> secondsBits :=
      UInt32.toNat_ofNat_of_lt' fits
    rw [Valid, nanos, ← Nat.not_le, not_iff_not]
    refine ⟨fun large => .packed more length large, fun excess => ?_⟩
    generalize whole : 0xd7 :: 0xff :: field ++ more = bytes at excess
    cases excess with
    | packed rest same large =>
      simp only [List.cons_append, List.cons.injEq, true_and] at whole
      rw [(List.append_inj whole (length.trans same.symm)).1]
      exact large
    | wide => cases whole
  | @wide nanos seconds four eight =>
    have below := ofBigEndian_lt nanos
    have fits : ofBigEndian nanos < UInt32.size := by
      rw [four] at below
      exact below
    have same : (UInt32.ofNat (ofBigEndian nanos)).toNat = ofBigEndian nanos :=
      UInt32.toNat_ofNat_of_lt' fits
    rw [Valid, same, ← Nat.not_le, not_iff_not]
    constructor
    · intro large
      have excess := Excess.wide (seconds ++ more) four large
      simp only [List.cons_append, List.append_assoc] at excess ⊢
      exact excess
    · intro excess
      generalize whole : 0xc7 :: 0x0c :: 0xff :: (nanos ++ seconds) ++ more = bytes at excess
      cases excess with
      | packed => cases whole
      | wide rest same large =>
        simp only [List.cons_append, List.cons.injEq, true_and, List.append_assoc] at whole
        rw [(List.append_inj whole (four.trans same.symm)).1]
        exact large

end Timestamp

/-! ### Reading -/

variable {order : ByteOrder} {closing : Fault} {bytes : List UInt8} {time : Timestamp}

/-- Behind the type byte there are the fields of the form that tag and length announce. -/
theorem Timestamp.form_of_scan (native : order.verify = .ok ()) {tag : Tag} {length : Nat}
    (answered : ((scan order tag length).read closing bytes).1 = .ok time) :
    (∀ i, tag = .ext i → i = 0 ∧ length = 12) ∧
    ∃ form, Form form time ∧
      form <+: tag.toByte :: ((if tag = .ext 0 then [0x0c] else []) ++ 0xff :: bytes) := by
  unfold scan at answered
  split at answered
  · obtain ⟨enough, last⟩ := Scan.read_take_eq_ok (Prod.ext answered rfl)
    cases last
    rw [ByteOrder.load_eq native]
    refine ⟨nofun, _, .seconds (List.length_take_of_le enough), bytes.drop 4, ?_⟩
    simp only [List.cons_append, List.take_append_drop]
    rfl
  · obtain ⟨enough, last⟩ := Scan.read_take_eq_ok (Prod.ext answered rfl)
    cases last
    rw [ByteOrder.load_eq native]
    refine ⟨nofun, _, .packed (List.length_take_of_le enough), bytes.drop 8, ?_⟩
    simp only [List.cons_append, List.take_append_drop]
    rfl
  · obtain ⟨enough, last⟩ := Scan.read_take_eq_ok (Prod.ext answered rfl)
    cases last
    have twelve : (bytes.take 12).length = 12 := List.length_take_of_le enough
    have four : ((bytes.take 12).take 4).length = 4 := List.length_take_of_le (by omega)
    have eight : ((bytes.take 12).drop 4).length = 8 := by rw [List.length_drop, twelve]
    rw [ByteOrder.load_eq native, ByteOrder.load_eq native]
    refine ⟨?_, _, .wide four eight, bytes.drop 12, ?_⟩
    · rintro i ⟨⟩
      exact ⟨rfl, rfl⟩
    · simp only [List.take_append_drop, List.cons_append]
      rfl
  · cases answered

namespace Header

theorem timestamp_of_scanExt {tag : Tag} {length : Nat}
    (answered : ((scanExt order tag length).read closing bytes).1 = .ok (.timestamp time)) :
    ∃ fields, bytes = 0xff :: fields ∧
      ((Timestamp.scan order tag length).read closing fields).1 = .ok time := by
  obtain ⟨complete, rest⟩ := Scan.read_take_eq_ok (Prod.ext answered rfl)
  obtain ⟨byte, fields, rfl⟩ := List.exists_cons_of_length_pos complete
  change ((if byte.toInt8 = timestampType then
      (Timestamp.scan order tag length).bind fun time => .done (.timestamp time)
    else .done (.ext byte.toInt8 length) : Scan Header).read closing fields).1 = _ at rest
  by_cases timestamp : byte.toInt8 = timestampType
  · rw [if_pos timestamp] at rest
    obtain ⟨_, _, read, last⟩ := Scan.read_bind_eq_ok rest
    cases last
    have byte : byte = 0xff := congrArg Int8.toUInt8 timestamp
    exact ⟨fields, by rw [byte], congrArg Prod.fst read⟩
  · rw [if_neg timestamp] at rest
    cases rest

theorem form_of_read (native : order.verify = .ok ())
    (answered : ((scan order).read closing bytes).1 = .ok (.timestamp time)) :
    ∃ form, Timestamp.Form form time ∧ form <+: bytes := by
  obtain ⟨tag, others, rfl, rest⟩ := tag_of_read answered
  cases tag with
  | fixExt i =>
    obtain ⟨fields, rfl, read⟩ := timestamp_of_scanExt rest
    exact (Timestamp.form_of_scan native read).2
  | ext i =>
    obtain ⟨_, ext⟩ := Scan.read_take_eq_ok (Prod.ext rest rfl)
    obtain ⟨fields, split, read⟩ := timestamp_of_scanExt ext
    obtain ⟨narrow, form⟩ := Timestamp.form_of_scan native read
    obtain ⟨rfl, twelve⟩ := narrow i rfl
    obtain ⟨byte, others, rfl⟩ := List.exists_cons_of_length_pos ‹_›
    have length : byte = 0x0c := by
      rw [ByteOrder.load_eq native] at twelve
      exact UInt8.toNat_inj.mp ((Nat.zero_add _).symm.trans twelve)
    cases split
    rw [length]
    exact form
  | reserved => cases rest
  | bin | str | array | map | float | double | unsigned | signed =>
    obtain ⟨_, last⟩ := Scan.read_take_eq_ok (Prod.ext rest rfl)
    cases last
  | _ => cases rest

end Header

theorem Item.timestamp_of_scanPayload {header : Header}
    (answered : ((scanPayload header).read closing bytes).1 = .ok (.timestamp time)) :
    header = .timestamp time := by
  cases header with
  | str | bin | ext =>
    obtain ⟨_, last⟩ := Scan.read_take_eq_ok (Prod.ext answered rfl)
    cases last
  | timestamp own =>
    cases answered
    rfl
  | _ => cases answered

theorem Item.form_of_read (native : order.verify = .ok ())
    (answered : ((scan order).read closing bytes).1 = .ok (.timestamp time)) :
    ∃ form, Timestamp.Form form time ∧ form <+: bytes := by
  obtain ⟨header, _, fields, payload⟩ := Scan.read_bind_eq_ok answered
  cases timestamp_of_scanPayload payload
  exact Header.form_of_read native (congrArg Prod.fst fields)

namespace Timestamp

/-- Every form is read, whatever its fields say. -/
theorem Form.reads {form : List UInt8} (spells : Form form time) (native : order.verify = .ok ()) :
    (Header.scan order).Reads form (.timestamp time) := by
  have load (bytes : List UInt8) : order.load bytes = ofBigEndian bytes :=
    ByteOrder.load_eq native bytes
  cases spells with
  | @seconds field length =>
    have fields : (scan order (.fixExt 2) 4).Reads (field ++ []) _ := .take length (.done _)
    rw [List.append_nil, load] at fields
    have header : (Header.scan order).Reads ((Tag.fixExt 2).toByte :: _) _ :=
      Encode.reads_of_tag (Encode.reads_timestamp_scanExt fields)
    exact header
  | @packed field length =>
    have fields : (scan order (.fixExt 3) 8).Reads (field ++ []) _ := .take length (.done _)
    rw [List.append_nil, load] at fields
    have header : (Header.scan order).Reads ((Tag.fixExt 3).toByte :: _) _ :=
      Encode.reads_of_tag (Encode.reads_timestamp_scanExt fields)
    exact header
  | @wide nanos seconds four eight =>
    have length : (nanos ++ seconds).length = 12 := by rw [List.length_append, four, eight]
    have fields : (scan order (.ext 0) 12).Reads (nanos ++ seconds ++ []) _ :=
      .take length (.done _)
    rw [List.append_nil, load, load, List.take_left' four, List.drop_left' four] at fields
    have twelve : order.store 1 0x0c = [0x0c] := by cases order <;> rfl
    have header : (Header.scan order).Reads ((Tag.ext 0).toByte :: (order.store 1 0x0c ++ _)) _ :=
      Encode.reads_of_tag ((Scan.reads_field order (by decide)).bind
        (Encode.reads_timestamp_scanExt fields))
    rw [twelve] at header
    exact header

theorem Form.first {form : List UInt8} (spells : Form form time) (native : order.verify = .ok ())
    (rest : List UInt8) :
    Unpacker.first order (form ++ rest) = (.ok (.timestamp time), form.length) := by
  rw [Unpacker.first_eq native]
  exact Item.reads_bare (spells.reads native) rfl .endOfInput rest

theorem form_of_reads (native : order.verify = .ok ())
    (reads : (Header.scan order).Reads bytes (.timestamp time)) : Form bytes time := by
  have whole := reads .endOfInput []
  rw [List.append_nil] at whole
  obtain ⟨form, spells, more, rfl⟩ := Header.form_of_read native (congrArg Prod.fst whole)
  have front := spells.reads native .endOfInput more
  have taken := (Prod.mk.inj (front.symm.trans whole)).2
  have none : more = [] := List.eq_nil_of_length_eq_zero <| by
    rw [List.length_append] at taken
    omega
  rwa [none, List.append_nil]

theorem exists_form (time : Timestamp) : ∃ form, Form form time :=
  ⟨_, form_of_reads rfl (@Encode.reads_wide .portable time)⟩

end Timestamp

namespace Unpacker

/-- The next timestamp lies where the unpacker is, in one of the forms, and is valid unless the
form says more than a fraction. -/
def ReadsTimestamps [Inlet σ] (input : List UInt8) (unpacker : Unpacker σ) : Prop :=
  ∀ time, unpacker.next.1 = .ok (.timestamp time) ∨
      unpacker.nextHeader.1 = .ok (.timestamp time) →
    (∃ form, Timestamp.Form form time ∧ form <+: input.drop unpacker.offset) ∧
      (time.Valid ↔ ¬Timestamp.Excess (input.drop unpacker.offset))

theorem clean_of_attempt {unpacker : Unpacker σ} {value : α}
    {call : Unpacker σ → Except Fault α × Unpacker σ}
    (answered : (unpacker.attempt call).1 = .ok value) : unpacker.fault = none := by
  cases failed : unpacker.fault with
  | none => rfl
  | some fault =>
    rw [attempt_of_fault failed] at answered
    cases answered

variable [Inlet σ] {input : List UInt8} {holds : Incoming → σ → Prop} {ended : σ → Prop}
  {unpacker : Unpacker σ}

theorem readsTimestamps (keeps : Inlet.Maintains input holds ended)
    (held : holds unpacker.buffer unpacker.handler)
    (native : unpacker.fault = none → unpacker.order.verify = .ok ()) :
    unpacker.ReadsTimestamps input := by
  intro time read
  have opened : ∃ form, Timestamp.Form form time ∧ form <+: input.drop unpacker.offset := by
    rcases read with item | header
    · obtain ⟨_, answered, _⟩ := (keeps.next held).2 _ item
      exact Item.form_of_read (native (clean_of_attempt item))
        (congrArg Prod.fst (answered .endOfInput))
    · have clean := clean_of_attempt header
      have called := attempt_eq_ok (Prod.ext header rfl)
      obtain ⟨_, opening⟩ := keeps.header held
      split at called
      · cases called
      · rename_i opened
        have answer := congrArg Prod.fst called
        cases answer
        rw [opened] at opening
        obtain ⟨_, answered, _⟩ := opening _ rfl
        exact Header.form_of_read (native clean) (congrArg Prod.fst (answered .endOfInput))
  obtain ⟨form, spells, begins⟩ := opened
  exact ⟨⟨form, spells, begins⟩, spells.valid_iff begins⟩

theorem readsTimestamps_pursue (keeps : Inlet.Maintains input holds ended)
    (held : holds unpacker.buffer unpacker.handler)
    (native : unpacker.fault = none → unpacker.order.verify = .ok ()) (requests : List Request) :
    (unpacker.pursue requests).ReadsTimestamps input := by
  obtain ⟨stays, _, order⟩ := keeps.pursue held requests
  refine readsTimestamps keeps stays fun clean => ?_
  rw [order]
  exact native (clean_of_pursue clean)

end Unpacker
/-! ### Packing -/

namespace Packer

/-- Memory takes a valid timestamp in one of its forms. Any other is refused. -/
def TakesValidTimes (packer : Packer Growable) (time : Timestamp) : Prop :=
  let packing := packer.pack (.timestamp time)
  time.Valid ∧ packing.1 = .ok () ∧
      (∃ form, Timestamp.Form form time ∧
        packing.2.buffer.packed = packer.buffer.packed ++ form) ∨
    ¬time.Valid ∧ packing.1 = .error .valueError ∧ packing.2.buffer = packer.buffer

variable {packer : Packer Growable} {draft : Draft} {ceiling : Nat}

theorem Holds.takesValidTimes (holds : packer.Holds draft ceiling) (clean : packer.fault = none)
    (native : packer.dialect.order.verify = .ok ()) (plain : packer.dialect.compatible = false)
    (allocation : Granted ceiling (packer.buffer.packed.length + 15)) (time : Timestamp) :
    packer.TakesValidTimes time := by
  by_cases valid : time.Valid
  · have encoded : (Value.timestamp time).encode packer.dialect =
        .ok (Encode.timestamp packer.dialect.order time) := by
      rw [Value.encode, Timestamp.encode, plain, if_neg (by decide), if_neg (Nat.not_le.mpr valid)]
    have short : (Encode.timestamp packer.dialect.order time).length ≤ 15 := by
      rw [Encode.length_timestamp _ valid]
      exact time.least_le
    have drafted : draft.call (.pack (.timestamp time)) =
        (.ok (), { draft with
          text := draft.text ++ Encode.timestamp packer.dialect.order time }) := by
      have own : draft.fault = none := holds.fault.symm.trans clean
      simp only [Draft.call, Draft.attempt, ← holds.dialect, encoded, own]
    have outcome := holds.pack (.timestamp time)
    rw [drafted] at outcome
    rcases outcome with ⟨granted, stays⟩ | ⟨_, refused⟩
    · refine .inl ⟨valid, granted, _, Timestamp.form_of_reads native
        (Encode.reads_timestamp valid), ?_⟩
      rw [stays.packed_eq, holds.packed_eq]
    · refine absurd (allocation.mono ?_) refused
      rw [holds.packed_eq, List.length_append]
      omega
  · refine .inr ⟨valid, ?_⟩
    have refused : (Value.timestamp time).encode packer.dialect = .error .valueError := by
      rw [Value.encode, Timestamp.encode, plain, if_neg (by decide), if_pos (Nat.not_lt.mp valid)]
    simp only [Packer.pack_eq, Packer.attempt, clean, refused]
    exact ⟨trivial, trivial⟩

end Packer

/-! ### Clock and dump -/

theorem Timestamp.isSome_toSystemTime? (time : Timestamp) :
    time.toSystemTime?.isSome ↔ time.Valid := by
  unfold toSystemTime? Valid
  split <;> simp [*]

theorem length_padLeft (filler : Char) (width : Nat) (text : List Char) :
    (padLeft filler width text).length = max width text.length := by
  rw [padLeft, List.length_append, List.length_replicate]
  omega

/-- The seconds are of a year that dates are written for. -/
def Calendar.Reaches (time : Timestamp) : Prop :=
  let year := (Date.ofDays (time.seconds.toInt / secondsPerDay)).year
  firstYear ≤ year ∧ year ≤ lastYear

/-- A fraction is printed behind the whole seconds, in microseconds. -/
theorem Dump.scalar_timestamp {time : Timestamp} (fraction : time.nanos ≠ 0)
    (reaches : Calendar.Reaches time) :
    ∃ digits, (∀ digit ∈ digits, digit.isDigit) ∧
      scalar (.timestamp time) =
        ascii ('\'' :: Calendar.text ⟨time.seconds, 0⟩ ++ '.' :: digits ++ ['\'']) ∧
      (digits.length = 6 ↔ time.Valid) := by
  refine ⟨padLeft '0' 6 (decimal (time.nanos.toNat / 1000)), ?_, ?_, ?_⟩
  · intro digit member
    rcases List.mem_append.mp member with filler | own
    · rw [List.eq_of_mem_replicate filler]
      rfl
    · exact Nat.isDigit_of_mem_toDigits (by decide) (by decide) own
  · unfold Calendar.Reaches at reaches
    simp only [scalar, Calendar.text]
    rw [if_neg (by omega), if_neg fraction, if_neg (by omega), if_pos trivial]
    simp only [List.append_nil, List.cons_append, List.append_assoc]
  · have few : (decimal (time.nanos.toNat / 1000)).length ≤ 6 ↔
        time.nanos.toNat / 1000 < 10 ^ 6 := Nat.length_toDigits_le_iff (by decide) (by decide)
    rw [length_padLeft, Timestamp.Valid, nanosPerSecond]
    omega

/-! ### Validity -/

open Unpacker in
/-- Timestamps that are read. In memory and on any stream, after any requests, the next timestamp
is in one of the three forms of the wire, and is valid just where the form does not say a fraction
of a second or more. Every form is read, whatever it says, and no timestamp is without one. It is
the valid ones that memory takes again, in a form of theirs, that are times of the clock, and that
a dump prints with six digits behind the point. -/
theorem timestamps_read (front : List UInt8) (input : Input) {capacity : Nat}
    (short : capacity < Position.modulus) (fits : front.length < Position.modulus)
    (ceiling : Nat) (order : ByteOrder) :
    (∀ requests, ((ofBytes front order).pursue requests).ReadsTimestamps front ∧
      (((ofInput input capacity order).withCeiling ceiling).pursue requests).ReadsTimestamps
        input.pending ∧
      (((new (.ofBytes front) (Source.mk input) order).withCeiling ceiling).pursue
        requests).ReadsTimestamps (front ++ input.pending)) ∧
    ∀ time : Timestamp,
      (∃ form, time.Form form) ∧
      (∀ form rest, order.verify = .ok () → time.Form form →
        first order (form ++ rest) = (.ok (.timestamp time), form.length)) ∧
      (∀ dialect : Dialect, ∀ size calls,
        let packer := (((Packer.growable size dialect).withCeiling ceiling).run calls).2
        packer.fault = none → packer.dialect.compatible = false →
          Granted ceiling (packer.buffer.packed.length + 15) → packer.TakesValidTimes time) ∧
      (time.toSystemTime?.isSome ↔ time.Valid) ∧
      (time.nanos ≠ 0 → Calendar.Reaches time → ∃ digits, (∀ digit ∈ digits, digit.isDigit) ∧
        Dump.scalar (.timestamp time) =
          ascii ('\'' :: Calendar.text ⟨time.seconds, 0⟩ ++ '.' :: digits ++ ['\'']) ∧
        (digits.length = 6 ↔ time.Valid)) := by
  refine ⟨fun requests => ⟨?_, ?_, ?_⟩, fun time => ⟨time.exists_form, ?_, ?_,
    time.isSome_toSystemTime?, Dump.scalar_timestamp⟩⟩
  · exact readsTimestamps_pursue (Exhausted.maintains front) (.ofBytes front) native_of_new requests
  · exact readsTimestamps_pursue (Source.maintains [] input ceiling)
      (covers_ofInput input ceiling order short) native_of_new requests
  · exact readsTimestamps_pursue (Source.maintains front input ceiling)
      (covers_ofBytes input ceiling order fits) native_of_new requests
  · intro form rest native spells
    exact spells.first native rest
  · intro dialect size calls packer clean plain allocation
    obtain ⟨draft, holds⟩ := (Packer.holds_growable size ceiling dialect).run_clean clean
    refine holds.takesValidTimes clean ?_ plain allocation time
    rw [Packer.order_run]
    exact Packer.native_of_clean clean

/-- A thousand nanoseconds behind the header of an array, cut off from it and brought byte by
byte. -/
theorem timestamps_read_bytewise :
    let input := Input.ofBytes [0xff, 0x00, 0x00, 0x0f, 0xa0, 0x00, 0x00, 0x00, 0x01]
      (.paced (fun _ => 1) true none)
    let unpacker := ((Unpacker.new (.ofBytes [0x91, 0xd7]) (Source.mk input) .native).withCeiling
      32).pursue [.call .next]
    let packer := (((Packer.growable 1 ⟨true, .native⟩).withCeiling 32).run
      [.pack .nil, .setCompatible false]).2
    let time : Timestamp := ⟨1, 1000⟩
    (0 < Position.modulus ∧ [0x91, 0xd7].length < Position.modulus) ∧
    unpacker.ReadsTimestamps ([0x91, 0xd7] ++ input.pending) ∧
    unpacker.next.1 = .ok (.timestamp time) ∧
    (packer.fault = none ∧ packer.dialect.compatible = false ∧
      Granted 32 (packer.buffer.packed.length + 15)) ∧
    packer.TakesValidTimes time ∧ time.toSystemTime?.isSome ∧
    (time.nanos ≠ 0 ∧ Calendar.Reaches time) ∧ ∃ digits, digits.length = 6 ∧
      Dump.scalar (.timestamp time) =
        ascii ('\'' :: Calendar.text ⟨1, 0⟩ ++ '.' :: digits ++ ['\'']) := by
  intro input unpacker packer time
  obtain ⟨read, others⟩ := timestamps_read [0x91, 0xd7] input (show 0 < Position.modulus by decide)
    (by decide) 32 .native
  obtain ⟨_, _, packs, clock, dump⟩ := others time
  have valid : time.Valid := by decide
  have clean : packer.fault = none := by decide
  have granted : Granted 32 (packer.buffer.packed.length + 15) := by decide
  have reaches : Calendar.Reaches time := ⟨by decide, by decide⟩
  obtain ⟨digits, _, printed, six⟩ := dump (by decide) reaches
  exact ⟨by decide, (read [.call .next]).2.2, by cbv, ⟨clean, rfl, granted⟩,
    packs ⟨true, .native⟩ 1 [.pack .nil, .setCompatible false] clean rfl granted,
    clock.mpr valid, ⟨by decide, reaches⟩, digits, six.mpr valid, printed⟩

/-- Thirty bits say as much as this. What is read is not valid, memory refuses it, it is no time
of the clock, and a dump prints seven digits. -/
theorem not_valid_allBits :
    let unpacker := Unpacker.ofBytes [0xd7, 0xff, 0xff, 0xff, 0xff, 0xfc, 0, 0, 0, 0] .native
    let packer := (Packer.growable 0 ⟨false, .native⟩).withCeiling 2048
    let time : Timestamp := ⟨0, 1073741823⟩
    unpacker.next.1 = .ok (.timestamp time) ∧ unpacker.nextHeader.1 = .ok (.timestamp time) ∧
      ¬time.nanos.toNat < nanosPerSecond ∧
      (packer.pack (.timestamp time)).1 = .error .valueError ∧ time.toSystemTime? = none ∧
      Dump.scalar (.timestamp time) = asciiString "'1970-01-01 00:00:00.1073741'" := by
  intro unpacker packer time
  have item : unpacker.next.1 = .ok (.timestamp time) := by cbv
  have header : unpacker.nextHeader.1 = .ok (.timestamp time) := by cbv
  have printed : Dump.scalar (.timestamp time) = asciiString "'1970-01-01 00:00:00.1073741'" := by
    decide +kernel
  exact ⟨item, header, by decide, rfl, rfl, printed⟩

end MessagePack
