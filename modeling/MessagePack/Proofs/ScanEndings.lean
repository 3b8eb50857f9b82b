import MessagePack.Proofs.ItemExtents
import MessagePack.Proofs.WireForms

/-! How a scan ends. It reads what it needs, or it refuses what it has read, or it comes to a
request that the input does not meet. The first two are settled by the bytes taken until
then, whatever follows these. Behind its tag an item refuses nothing but a timestamp of no
known form, and where the input runs out in the middle of it there are bytes to complete
it with. -/
namespace MessagePack

namespace Scan

/-- The scan comes to `answer` with just `bytes`, whatever follows. It `Reads` them if that is
a value. -/
def Settles (bytes : List UInt8) (answer : Except Fault α) (scan : Scan α) : Prop :=
  ∀ closing rest, scan.read closing (bytes ++ rest) = (answer, bytes.length)

theorem Reads.settles {bytes : List UInt8} {value : α} {scan : Scan α}
    (reads : scan.Reads bytes value) : scan.Settles bytes (.ok value) := reads

theorem Settles.take {count : Nat} {leading : Bool} {next : List UInt8 → Scan α}
    {bytes more : List UInt8} {answer : Except Fault α} (length : bytes.length = count)
    (settles : (next bytes).Settles more answer) :
    (Scan.take count leading next).Settles (bytes ++ more) answer := by
  intro closing rest
  have complete : count ≤ (bytes ++ more ++ rest).length := by simp; omega
  rw [read, if_pos complete, List.append_assoc, List.take_left' length, List.drop_left' length,
    settles closing rest, List.length_append, length]

theorem Settles.read {scan : Scan α} {bytes : List UInt8} {taken : Nat} {answer : Except Fault α}
    (within : taken ≤ bytes.length) (settles : scan.Settles (bytes.take taken) answer)
    (closing : Fault) : scan.read closing bytes = (answer, taken) := by
  have whole := settles closing (bytes.drop taken)
  rwa [List.take_append_drop, List.length_take_of_le within] at whole

theorem reads_of_read {scan : Scan α} {closing : Fault} {bytes : List UInt8} {taken : Nat}
    {value : α} (answered : scan.read closing bytes = (.ok value, taken)) :
    taken ≤ bytes.length ∧ scan.Reads (bytes.take taken) value := by
  induction scan generalizing bytes taken with
  | done value =>
    cases answered
    exact ⟨Nat.zero_le _, .done value⟩
  | fail fault => cases answered
  | take count leading next ih =>
    simp only [read] at answered
    split at answered
    · rename_i complete
      generalize rest : (next (bytes.take count)).read closing (bytes.drop count) = result
        at answered
      obtain ⟨answer, others⟩ := result
      cases answered
      obtain ⟨inside, reads⟩ := ih _ rest
      rw [List.length_drop] at inside
      refine ⟨by omega, ?_⟩
      rw [List.take_add]
      exact .take (List.length_take_of_le complete) reads
    · cases answered

/-- The scan runs out of bytes at a request for a part of an item, and there are bytes that
let it go on to a value. -/
def Pends (bytes : List UInt8) (scan : Scan α) : Prop :=
  (∀ closing, (scan.read closing bytes).1 = .error (shortfall closing false)) ∧
    ∃ more value, scan.Reads (bytes ++ more) value

/-- Every request is for a part of an item and can be met, however much of it is there, so
that the scan comes to a value; and nothing is refused but the form of a timestamp. -/
def Completes : Scan α → Prop
  | .done _ => True
  | .fail fault => fault = .wrongTimestampLength
  | .take count leading next => leading = false ∧
      (∀ part : List UInt8, part.length < count →
        ∃ more value bytes, (part ++ more).length = count ∧
          (next (part ++ more)).Reads bytes value) ∧
      ∀ bytes : List UInt8, bytes.length = count → (next bytes).Completes

/-- Nothing is refused, so that every request can be met by any bytes. -/
def Accepts : Scan α → Prop
  | .done _ => True
  | .fail _ => False
  | .take count leading next => leading = false ∧
      ∀ bytes : List UInt8, bytes.length = count → (next bytes).Accepts

theorem Accepts.bind {scan : Scan α} {f : α → Scan β} (first : scan.Accepts)
    (second : ∀ value, (f value).Accepts) : (scan.bind f).Accepts := by
  induction scan with
  | done value => exact second value
  | fail fault => exact first.elim
  | take count leading next ih =>
    exact ⟨first.1, fun bytes length => ih bytes (first.2 bytes length)⟩

theorem Accepts.reads {scan : Scan α} (accepts : scan.Accepts) :
    ∃ bytes value, scan.Reads bytes value := by
  induction scan with
  | done value => exact ⟨[], value, .done value⟩
  | fail fault => exact accepts.elim
  | take count leading next ih =>
    have length : (List.replicate count (0 : UInt8)).length = count := List.length_replicate
    obtain ⟨bytes, value, reads⟩ := ih _ (accepts.2 _ length)
    exact ⟨_, value, .take length reads⟩

theorem Accepts.completes {scan : Scan α} (accepts : scan.Accepts) : scan.Completes := by
  induction scan with
  | done value => trivial
  | fail fault => exact accepts.elim
  | take count leading next ih =>
    refine ⟨accepts.1, ?_, fun bytes length => ih bytes (accepts.2 bytes length)⟩
    intro part short
    have length : (part ++ List.replicate (count - part.length) (0 : UInt8)).length = count := by
      simp; omega
    obtain ⟨bytes, value, reads⟩ := (accepts.2 _ length).reads
    exact ⟨_, value, bytes, length, reads⟩

theorem Completes.reads_take {count : Nat} {leading : Bool} {next : List UInt8 → Scan α}
    (completes : (Scan.take count leading next).Completes) (positive : 0 < count) :
    ∃ bytes value, (Scan.take count leading next).Reads bytes value := by
  obtain ⟨more, value, bytes, length, reads⟩ := completes.2.1 [] positive
  exact ⟨_, value, .take length reads⟩

/-- The three ways in which a scan of a part of an item can end. -/
theorem Completes.cases {scan : Scan α} (completes : scan.Completes) (bytes : List UInt8) :
    (∃ taken value, taken ≤ bytes.length ∧ scan.Reads (bytes.take taken) value) ∨
    (∃ taken, taken ≤ bytes.length ∧
      scan.Settles (bytes.take taken) (.error .wrongTimestampLength)) ∨
    scan.Pends bytes := by
  induction scan generalizing bytes with
  | done value => exact .inl ⟨0, value, Nat.zero_le _, .done value⟩
  | fail fault =>
    cases completes
    exact .inr (.inl ⟨0, Nat.zero_le _, fun _ _ => rfl⟩)
  | take count leading next ih =>
    obtain ⟨rfl, met, rest⟩ := completes
    by_cases complete : count ≤ bytes.length
    · have length : (bytes.take count).length = count := List.length_take_of_le complete
      have within {taken : Nat} (inside : taken ≤ (bytes.drop count).length) :
          count + taken ≤ bytes.length := by
        rw [List.length_drop] at inside
        omega
      rcases ih _ (rest _ length) (bytes.drop count) with
        ⟨taken, value, inside, reads⟩ | ⟨taken, inside, refuses⟩ | ⟨short, more, value, reads⟩
      · refine .inl ⟨count + taken, value, within inside, ?_⟩
        rw [List.take_add]
        exact .take length reads
      · refine .inr (.inl ⟨count + taken, within inside, ?_⟩)
        rw [List.take_add]
        exact .take length refuses
      · refine .inr (.inr ⟨fun closing => ?_, more, value, ?_⟩)
        · rw [read, if_pos complete]
          exact short closing
        · have reads : (Scan.take count false next).Reads _ value := .take length reads
          rwa [← List.append_assoc, List.take_append_drop] at reads
    · obtain ⟨more, value, others, length, reads⟩ := met bytes (Nat.lt_of_not_le complete)
      refine .inr (.inr ⟨fun closing => ?_, more ++ others, value, ?_⟩)
      · rw [read, if_neg complete]
      · rw [← List.append_assoc]
        exact .take length reads

theorem Accepts.read_ne {scan : Scan α} (accepts : scan.Accepts) {closing : Fault}
    (other : closing ≠ .wrongTimestampLength) (bytes : List UInt8) :
    (scan.read closing bytes).1 ≠ .error .wrongTimestampLength := by
  induction scan generalizing bytes with
  | done value => simp [read]
  | fail fault => exact accepts.elim
  | take count leading next ih =>
    rw [read]
    split
    · exact ih _ (accepts.2 _ (List.length_take_of_le ‹_›)) _
    · cases leading <;> cases closing <;> simp_all [shortfall, shortage]

theorem accepts_field (order : ByteOrder) (width : Nat) : (Scan.field order width).Accepts :=
  ⟨rfl, fun _ _ => trivial⟩

theorem read_take_cons (closing : Fault) (leading : Bool) (next : List UInt8 → Scan α)
    (byte : UInt8) (bytes : List UInt8) :
    (Scan.take 1 leading next).read closing (byte :: bytes) =
      (((next [byte]).read closing bytes).1, 1 + ((next [byte]).read closing bytes).2) := by
  simp [read]

theorem bind_assoc (scan : Scan α) (f : α → Scan β) (g : β → Scan γ) :
    (scan.bind f).bind g = scan.bind fun value => (f value).bind g := by
  induction scan with
  | done value => rfl
  | fail fault => rfl
  | take count leading next ih => simp only [bind, ih]

theorem accepts_payload (header : Header) : (Item.scanPayload header).Accepts := by
  unfold Item.scanPayload
  cases header.payloadLength? with
  | none => trivial
  | some length => exact ⟨rfl, fun _ _ => trivial⟩

end Scan

open Scan

/-! ### Items -/

theorem ByteOrder.load_eq {order : ByteOrder} (native : order.verify = .ok ())
    (bytes : List UInt8) : order.load bytes = ofBigEndian bytes := by
  cases order with
  | little =>
    have again := toBigEndian_ofBigEndian bytes.reverse
    rw [List.length_reverse] at again
    simp only [load, Layout.host, Layout.load, swapBytes]
    rw [again, List.reverse_reverse]
  | big => cases native
  | portable => exact Bytewise.load_eq bytes

/-- The bytes of an extension up to its type. -/
inductive ExtHeader : Tag → (length : Nat) → (type : Int8) → List UInt8 → Prop where
  | fixed (i : Fin 5) (type : Int8) :
    ExtHeader (.fixExt i) (Tag.width i.val) type [(Tag.fixExt i).toByte, type.toUInt8]
  | sized (i : Fin 3) (field : List UInt8) (type : Int8) (width : field.length = Tag.width i.val) :
    ExtHeader (.ext i) (ofBigEndian field) type ((Tag.ext i).toByte :: (field ++ [type.toUInt8]))

/-- The bytes begin with an extension of the type of timestamps that has none of their forms. -/
def OddTimestamp (bytes : List UInt8) : Prop :=
  ∃ tag length header, ExtHeader tag length timestampType header ∧ header <+: bytes ∧
    (tag, length) ∉ Timestamp.forms

namespace Timestamp

def Fitting (tag : Tag) (length : Nat) : Prop := ∀ i, tag = .fixExt i → length = Tag.width i.val

theorem scan_cases (order : ByteOrder) {tag : Tag} {length : Nat} (fitting : Fitting tag length) :
    (tag, length) ∈ forms ∧ (scan order tag length).Accepts ∨
    (tag, length) ∉ forms ∧ scan order tag length = .fail .wrongTimestampLength := by
  unfold scan
  split
  · rw [fitting 2 rfl]
    exact .inl ⟨by decide, (accepts_field order 4).bind fun _ => trivial⟩
  · rw [fitting 3 rfl]
    exact .inl ⟨by decide, (accepts_field order 8).bind fun _ => trivial⟩
  · exact .inl ⟨by decide, rfl, fun _ _ => trivial⟩
  · rename_i second third wide
    refine .inr ⟨fun member => ?_, rfl⟩
    simp only [forms, List.mem_cons, Prod.mk.injEq, List.not_mem_nil, or_false] at member
    rcases member with ⟨form, _⟩ | ⟨form, _⟩ | ⟨form, size⟩
    · exact second form
    · exact third form
    · exact wide form size

end Timestamp

namespace Header

variable {order : ByteOrder} {tag : Tag} {length : Nat}

/-- What follows the type of an extension: a timestamp or a payload. -/
def scanTyped (order : ByteOrder) (tag : Tag) (length : Nat) (type : Int8) : Scan Item :=
  if type = timestampType then
    (Timestamp.scan order tag length).bind fun time => .done (.timestamp time)
  else .take length false fun payload => .done (.ext type payload)

theorem scanExt_bind (order : ByteOrder) (tag : Tag) (length : Nat) :
    (scanExt order tag length).bind Item.scanPayload =
      .take 1 false fun bytes => scanTyped order tag length (bytes.headD 0).toInt8 := by
  simp only [scanExt, Scan.extType, Scan.bind_eq, Scan.bind, Scan.take.injEq, true_and]
  funext bytes
  unfold scanTyped
  split
  · rw [Scan.bind_assoc]
    rfl
  · rfl

theorem accepts_scanTyped {type : Int8} (other : type ≠ timestampType) :
    (scanTyped order tag length type).Accepts := by
  rw [scanTyped, if_neg other]
  exact ⟨rfl, fun _ _ => trivial⟩

theorem scanTyped_timestamp (order : ByteOrder) (fitting : Timestamp.Fitting tag length) :
    (tag, length) ∈ Timestamp.forms ∧ (scanTyped order tag length timestampType).Accepts ∨
    (tag, length) ∉ Timestamp.forms ∧
      scanTyped order tag length timestampType = .fail .wrongTimestampLength := by
  rw [scanTyped, if_pos rfl]
  rcases Timestamp.scan_cases order fitting with ⟨form, accepts⟩ | ⟨odd, refused⟩
  · exact .inl ⟨form, accepts.bind fun _ => trivial⟩
  · exact .inr ⟨odd, by rw [refused]; rfl⟩

theorem completes_scanExt (order : ByteOrder) (fitting : Timestamp.Fitting tag length) :
    ((scanExt order tag length).bind Item.scanPayload).Completes := by
  rw [scanExt_bind]
  refine ⟨rfl, fun part short => ?_, fun bytes _ => ?_⟩
  · -- nothing of the type is there, and 0 is the type of an extension like any other
    obtain rfl := List.eq_nil_of_length_eq_zero (Nat.lt_one_iff.mp short)
    have plain : (scanTyped order tag length 0).Accepts := accepts_scanTyped (by decide)
    obtain ⟨bytes, value, reads⟩ := plain.reads
    exact ⟨[0], value, bytes, rfl, reads⟩
  · dsimp only
    by_cases timestamp : (bytes.headD 0).toInt8 = timestampType
    · rw [timestamp]
      rcases scanTyped_timestamp order fitting with ⟨_, accepts⟩ | ⟨_, refused⟩
      · exact accepts.completes
      · rw [refused]
        rfl
    · exact (accepts_scanTyped timestamp).completes

/-- An extension of the type of timestamps that has none of their forms is refused as soon as
its type has been read. -/
theorem settles_scanExt (order : ByteOrder) (fitting : Timestamp.Fitting tag length)
    (odd : (tag, length) ∉ Timestamp.forms) :
    ((scanExt order tag length).bind Item.scanPayload).Settles [timestampType.toUInt8]
      (.error .wrongTimestampLength) := by
  rw [scanExt_bind]
  change Scan.Settles ([timestampType.toUInt8] ++ []) _ _
  apply Scan.Settles.take rfl
  rcases scanTyped_timestamp order fitting with ⟨form, _⟩ | ⟨_, refused⟩
  · exact absurd form odd
  · change (scanTyped order tag length timestampType).Settles _ _
    rw [refused]
    exact fun _ _ => rfl

theorem odd_of_scanExt (fitting : Timestamp.Fitting tag length) {bytes : List UInt8}
    (refused : (((scanExt order tag length).bind Item.scanPayload).read .endOfInput bytes).1 =
      .error .wrongTimestampLength) :
    [timestampType.toUInt8] <+: bytes ∧ (tag, length) ∉ Timestamp.forms := by
  rw [scanExt_bind] at refused
  cases bytes with
  | nil => cases refused
  | cons byte bytes =>
    rw [Scan.read_take_cons] at refused
    by_cases timestamp : byte.toInt8 = timestampType
    · have same : timestampType.toUInt8 = byte := by rw [← timestamp]; rfl
      refine ⟨⟨bytes, by rw [same]; rfl⟩, fun form => ?_⟩
      rcases scanTyped_timestamp order fitting with ⟨_, accepts⟩ | ⟨odd, _⟩
      · rw [← timestamp] at accepts
        exact accepts.read_ne (by decide) _ refused
      · exact odd form
    · exact absurd refused ((accepts_scanTyped timestamp).read_ne (by decide) _)

/-! ### Tags -/

theorem accepts_scanAfter (order : ByteOrder) {tag : Tag} (given : tag ≠ .reserved)
    (plain : ∀ i, tag ≠ .ext i ∧ ∀ j, tag ≠ .fixExt j) :
    ((scanAfter order tag).bind Item.scanPayload).Accepts := by
  refine Accepts.bind ?_ accepts_payload
  cases tag with
  | reserved => exact absurd rfl given
  | ext i => exact absurd rfl (plain i).1
  | fixExt i => exact absurd rfl ((plain 0).2 i)
  | bin | str | array | map | float | double | unsigned | signed =>
    exact (accepts_field order _).bind fun _ => trivial
  | _ => trivial

theorem scanAfter_ext (order : ByteOrder) (i : Fin 3) :
    (scanAfter order (.ext i)).bind Item.scanPayload = .take (Tag.width i.val) false fun bytes =>
      (scanExt order (.ext i) (order.load bytes)).bind Item.scanPayload := rfl

theorem scanAfter_fixExt (order : ByteOrder) (i : Fin 5) :
    (scanAfter order (.fixExt i)).bind Item.scanPayload =
      (scanExt order (.fixExt i) (Tag.width i.val)).bind Item.scanPayload := rfl

theorem fitting_ext (i : Fin 3) (length : Nat) : Timestamp.Fitting (.ext i) length := by
  rintro j ⟨⟩

theorem fitting_fixExt (i : Fin 5) : Timestamp.Fitting (.fixExt i) (Tag.width i.val) := by
  rintro j ⟨⟩
  rfl

theorem completes_scanAfter (order : ByteOrder) {tag : Tag} (given : tag ≠ .reserved) :
    ((scanAfter order tag).bind Item.scanPayload).Completes := by
  cases tag with
  | reserved => exact absurd rfl given
  | fixExt i => exact completes_scanExt order (fitting_fixExt i)
  | ext i =>
    have rest (length : Nat) := completes_scanExt order (fitting_ext i length)
    refine ⟨rfl, fun part short => ?_, fun bytes _ => rest _⟩
    have size : (part ++ List.replicate (Tag.width i.val - part.length) (0 : UInt8)).length =
        Tag.width i.val := by simp; omega
    obtain ⟨bytes, value, reads⟩ := (rest _).reads_take Nat.one_pos
    exact ⟨_, value, bytes, size, reads⟩
  | _ => exact (accepts_scanAfter order given (by simp)).completes

end Header

namespace Item

variable {order : ByteOrder} {bytes : List UInt8}

/-- An item that has been begun, and whose tag is given to items, ends in one of three ways. -/
theorem scan_cases (order : ByteOrder) (begun : bytes ≠ []) (given : bytes.head? ≠ some 0xc1) :
    (∃ taken item, taken ≤ bytes.length ∧ (Item.scan order).Reads (bytes.take taken) item) ∨
    (∃ taken, taken ≤ bytes.length ∧
      (Item.scan order).Settles (bytes.take taken) (.error .wrongTimestampLength)) ∨
    (Item.scan order).Pends bytes := by
  obtain ⟨byte, rest, rfl⟩ := List.exists_cons_of_ne_nil begun
  have tag : Tag.ofByte byte ≠ .reserved := by
    intro reserved
    have same : byte = 0xc1 := by rw [← Tag.toByte_ofByte byte, reserved]; rfl
    exact given (congrArg some same)
  have next {more : List UInt8} {answer : Except Fault Item}
      (settles : ((Header.scanAfter order (.ofByte byte)).bind scanPayload).Settles more answer) :
      (Item.scan order).Settles (byte :: more) answer := by
    rw [scan_eq]
    exact Scan.Settles.take (rfl : [byte].length = 1) settles
  rcases (Header.completes_scanAfter order tag).cases rest with
    ⟨taken, item, inside, reads⟩ | ⟨taken, inside, refuses⟩ | ⟨short, more, item, reads⟩
  · exact .inl ⟨taken + 1, item, Nat.succ_le_succ inside, next reads⟩
  · exact .inr (.inl ⟨taken + 1, Nat.succ_le_succ inside, next refuses⟩)
  · refine .inr (.inr ⟨fun closing => ?_, more, item, next reads⟩)
    rw [scan_eq, Scan.read_take_cons]
    exact short closing

theorem settles_reserved (order : ByteOrder) :
    (Item.scan order).Settles [0xc1] (.error .malformedInput) := by
  rw [scan_eq]
  exact Scan.Settles.take (rfl : [(0xc1 : UInt8)].length = 1) fun _ _ => rfl

/-- What is refused for the form of its timestamp is settled by its header. -/
theorem settles_odd (native : order.verify = .ok ()) (odd : OddTimestamp bytes) :
    ∃ taken, taken ≤ bytes.length ∧
      (Item.scan order).Settles (bytes.take taken) (.error .wrongTimestampLength) := by
  obtain ⟨tag, length, header, begins, ⟨rest, rfl⟩, form⟩ := odd
  refine ⟨header.length, by simp, ?_⟩
  rw [List.take_left, scan_eq]
  cases begins with
  | fixed i =>
    apply Scan.Settles.take (rfl : [(Tag.fixExt i).toByte].length = 1)
    rw [List.headD_cons, Tag.ofByte_toByte, Header.scanAfter_fixExt]
    exact Header.settles_scanExt order (Header.fitting_fixExt i) form
  | sized i field type width =>
    apply Scan.Settles.take (rfl : [(Tag.ext i).toByte].length = 1)
    rw [List.headD_cons, Tag.ofByte_toByte, Header.scanAfter_ext]
    apply Scan.Settles.take width
    rw [ByteOrder.load_eq native]
    exact Header.settles_scanExt order (Header.fitting_ext i _) form

theorem odd_of_read (native : order.verify = .ok ())
    (refused : ((Item.scan order).read .endOfInput bytes).1 = .error .wrongTimestampLength) :
    OddTimestamp bytes := by
  cases bytes with
  | nil => cases refused
  | cons byte rest =>
    rw [scan_eq, Scan.read_take_cons, List.headD_cons] at refused
    dsimp only at refused
    generalize tagged : Tag.ofByte byte = tag at refused
    have same : tag.toByte = byte := by rw [← tagged, Tag.toByte_ofByte]
    cases tag with
    | reserved => cases refused
    | fixExt i =>
      obtain ⟨⟨more, rfl⟩, form⟩ := Header.odd_of_scanExt (Header.fitting_fixExt i) refused
      exact ⟨_, _, _, .fixed i timestampType, ⟨more, by rw [same]; rfl⟩, form⟩
    | ext i =>
      rw [Header.scanAfter_ext, Scan.read] at refused
      split at refused
      · rename_i complete
        obtain ⟨⟨more, behind⟩, form⟩ := Header.odd_of_scanExt (Header.fitting_ext i _) refused
        have width : (rest.take (Tag.width i.val)).length = Tag.width i.val :=
          List.length_take_of_le complete
        rw [ByteOrder.load_eq native] at form
        refine ⟨_, _, _, .sized i _ timestampType width, ⟨more, ?_⟩, form⟩
        rw [same, List.cons_append, List.append_assoc, behind, List.take_append_drop]
      · cases refused
    | _ =>
      refine absurd refused (Scan.Accepts.read_ne ?_ (by decide) rest)
      exact Header.accepts_scanAfter order (by simp) (by simp)

theorem read_odd_iff (native : order.verify = .ok ()) :
    ((Item.scan order).read .endOfInput bytes).1 = .error .wrongTimestampLength ↔
      OddTimestamp bytes := by
  constructor
  · exact odd_of_read native
  · intro odd
    obtain ⟨taken, inside, settles⟩ := settles_odd native odd
    rw [settles.read inside]

end Item
end MessagePack
