import Mathlib.Tactic
import MessagePack.Proofs.ScanEndings
import MessagePack.Proofs.StreamWindow

/-! Looking ahead and then reading. What the bytes tell about an item before it is read is what
it turns out to be; and a look at them costs nothing, since it moves neither the offset nor the
barrier and what it makes a stream give is kept. -/
namespace MessagePack

theorem ofBigEndian_cons (byte : UInt8) (bytes : List UInt8) :
    ofBigEndian (byte :: bytes) = byte.toNat * wordCount bytes.length + ofBigEndian bytes := by
  rw [← bytes.reverse_reverse]
  induction bytes.reverse with
  | nil => simp [ofBigEndian]
  | cons last bytes ih =>
    rw [List.reverse_cons, ← List.cons_append, ofBigEndian_concat, ih, ofBigEndian_concat,
      List.length_append, List.length_singleton, wordCount_succ]
    grind

theorem twosComplement_nonneg_iff (byte : UInt8) (bytes : List UInt8) :
    0 ≤ twosComplement (bytes.length + 1) (ofBigEndian (byte :: bytes)) ↔ byte < 0x80 := by
  have below := ofBigEndian_lt bytes
  have small : byte < 0x80 ↔ byte.toNat < 0x80 := UInt8.lt_iff_toNat_lt
  have within := ofBigEndian_lt (byte :: bytes)
  rw [List.length_cons] at within
  have half : 2 * ofBigEndian (byte :: bytes) < wordCount (bytes.length + 1) ↔
      byte.toNat < 0x80 := by
    rw [ofBigEndian_cons, wordCount_succ]
    constructor
    · intro less
      apply Nat.lt_of_not_le
      intro more
      have := Nat.mul_le_mul_right (wordCount bytes.length) more
      omega
    · intro less
      have := Nat.mul_le_mul_right (wordCount bytes.length) (Nat.le_of_lt_succ less)
      omega
  rw [small, ← half, twosComplement]
  split <;> omega

namespace Scan

theorem read_take_eq_ok {closing : Fault} {count taken : Nat} {leading : Bool}
    {next : List UInt8 → Scan α} {bytes : List UInt8} {value : α}
    (answered : (Scan.take count leading next).read closing bytes = (.ok value, taken)) :
    count ≤ bytes.length ∧ ((next (bytes.take count)).read closing (bytes.drop count)).1 =
      .ok value := by
  simp only [read] at answered
  split at answered
  · exact ⟨‹_›, congrArg Prod.fst answered⟩
  · cases answered

theorem read_bind_eq_ok {closing : Fault} {scan : Scan α} {f : α → Scan β} {bytes : List UInt8}
    {value : β} (answered : ((scan.bind f).read closing bytes).1 = .ok value) :
    ∃ mid taken, scan.read closing bytes = (.ok mid, taken) ∧
      ((f mid).read closing (bytes.drop taken)).1 = .ok value := by
  rw [read_bind] at answered
  generalize scan.read closing bytes = result at answered ⊢
  rcases result with ⟨fault | mid, taken⟩
  · cases answered
  · exact ⟨mid, taken, rfl, answered⟩

end Scan

namespace Header

variable {order : ByteOrder} {closing : Fault} {bytes : List UInt8} {header : Header}

theorem tag_of_read (answered : ((scan order).read closing bytes).1 = .ok header) :
    ∃ tag others, bytes = tag.toByte :: others ∧
      ((scanAfter order tag).read closing others).1 = .ok header := by
  rw [scan_eq] at answered
  obtain ⟨complete, rest⟩ := Scan.read_take_eq_ok (Prod.ext answered rfl)
  obtain ⟨byte, others, rfl⟩ := List.exists_cons_of_length_pos complete
  exact ⟨.ofByte byte, others, by rw [Tag.toByte_ofByte], rest⟩

theorem kind_of_scanExt {tag : Tag} {length taken : Nat}
    (answered : (scanExt order tag length).read closing bytes = (.ok header, taken)) :
    1 ≤ bytes.length ∧ header.kind = .ofExtType (bytes.headD 0).toInt8 := by
  obtain ⟨complete, rest⟩ := Scan.read_take_eq_ok answered
  obtain ⟨byte, others, rfl⟩ := List.exists_cons_of_length_pos complete
  refine ⟨complete, ?_⟩
  change ((if byte.toInt8 = timestampType then
      (Timestamp.scan order tag length).bind fun time => .done (.timestamp time)
    else .done (.ext byte.toInt8 length) : Scan Header).read closing others).1 = _ at rest
  rw [List.headD_cons]
  by_cases timestamp : byte.toInt8 = timestampType
  · rw [if_pos timestamp] at rest
    obtain ⟨time, _, _, last⟩ := Scan.read_bind_eq_ok rest
    cases last
    rw [timestamp]
    rfl
  · rw [if_neg timestamp] at rest
    cases rest
    rw [Kind.ofExtType, if_neg timestamp]
    rfl

theorem kind_of_nonneg {value : Int} (nonneg : 0 ≤ value) :
    (Header.integer value).kind = .positiveInteger := if_pos nonneg

theorem kind_of_neg {value : Int} (negative : value < 0) :
    (Header.integer value).kind = .negativeInteger := if_neg (Int.not_le.mpr negative)

theorem kind_of_signed (native : order.verify = .ok ()) {width : Nat} (some : 0 < width)
    (complete : width ≤ bytes.length) :
    (Header.integer (twosComplement width (order.load (bytes.take width)))).kind =
      if bytes.getD 0 0 < 0x80 then .positiveInteger else .negativeInteger := by
  rw [ByteOrder.load_eq native]
  obtain ⟨byte, others, rfl⟩ := List.exists_cons_of_length_pos (Nat.lt_of_lt_of_le some complete)
  obtain ⟨size, rfl⟩ : ∃ size, width = size + 1 := Nat.exists_eq_add_one.mpr some
  have sign := twosComplement_nonneg_iff byte (others.take size)
  rw [List.length_take_of_le (Nat.le_of_succ_le_succ complete)] at sign
  rw [List.take_succ_cons, List.getD_cons_zero]
  by_cases positive : byte < 0x80
  · rw [if_pos positive]
    exact kind_of_nonneg (sign.mpr positive)
  · rw [if_neg positive]
    exact kind_of_neg (Int.not_le.mp (mt sign.mp positive))

/-- What the bytes behind a tag tell of a header that they are read as. -/
theorem kind_of_scanAfter (native : order.verify = .ok ()) {tag : Tag} {taken : Nat}
    (answered : (scanAfter order tag).read closing bytes = (.ok header, taken)) :
    match Kind.Clue.ofTag tag with
    | .known kind => header.kind = kind
    | .extType count => count ≤ bytes.length + 1 ∧
      header.kind = .ofExtType (bytes.getD (count - 2) 0).toInt8
    | .sign count => count ≤ bytes.length + 1 ∧
      header.kind = if bytes.getD 0 0 < 0x80 then .positiveInteger else .negativeInteger := by
  cases tag with
  | reserved => cases answered
  | positive value =>
    cases answered
    exact kind_of_nonneg (Int.natCast_nonneg _)
  | negative value =>
    cases answered
    exact kind_of_neg (by omega)
  | unsigned i =>
    obtain ⟨_, rest⟩ := Scan.read_take_eq_ok answered
    cases rest
    exact kind_of_nonneg (Int.natCast_nonneg _)
  | signed i =>
    obtain ⟨complete, rest⟩ := Scan.read_take_eq_ok answered
    cases rest
    exact ⟨by omega, kind_of_signed native (Tag.width_le (Nat.zero_le _)) complete⟩
  | ext i =>
    obtain ⟨complete, rest⟩ := Scan.read_take_eq_ok answered
    obtain ⟨some, kind⟩ := kind_of_scanExt (Prod.ext rest rfl)
    rw [List.length_drop] at some
    refine ⟨by omega, kind.trans ?_⟩
    have place : (bytes.drop (Tag.width i.val)).headD 0 =
        bytes.getD (2 + Tag.width i.val - 2) 0 := by
      rw [Nat.add_sub_cancel_left, List.headD_eq_head?_getD, List.head?_drop,
        List.getD_eq_getElem?_getD]
    exact congrArg (fun byte => Kind.ofExtType byte.toInt8) place
  | fixExt i =>
    obtain ⟨some, kind⟩ := kind_of_scanExt answered
    refine ⟨by omega, kind.trans ?_⟩
    cases bytes <;> rfl
  | str | bin | array | map | float | double =>
    obtain ⟨_, rest⟩ := Scan.read_take_eq_ok answered
    cases rest
    rfl
  | _ =>
    cases answered
    rfl

end Header

theorem Item.kind_of_scanPayload {header : Header} {closing : Fault} {bytes : List UInt8}
    {item : Item} (answered : ((scanPayload header).read closing bytes).1 = .ok item) :
    item.kind = header.kind := by
  unfold scanPayload at answered
  cases announced : header.payloadLength? with
  | none =>
    rw [announced] at answered
    cases answered
    exact header.kind_withPayload []
  | some length =>
    rw [announced] at answered
    obtain ⟨_, last⟩ := Scan.read_take_eq_ok (Prod.ext answered rfl)
    cases last
    exact header.kind_withPayload _

/-- An item that is read is of the kind that its bytes tell. -/
theorem Item.kind_of_read {order : ByteOrder} (native : order.verify = .ok ()) {closing : Fault}
    {bytes : List UInt8} {item : Item}
    (answered : ((Item.scan order).read closing bytes).1 = .ok item) :
    Kind.Told bytes ∧ Kind.ahead bytes = item.kind := by
  rw [scan_eq] at answered
  obtain ⟨complete, rest⟩ := Scan.read_take_eq_ok (Prod.ext answered rfl)
  obtain ⟨byte, others, rfl⟩ := List.exists_cons_of_length_pos complete
  change (((Header.scanAfter order (.ofByte byte)).bind scanPayload).read closing others).1 = _
    at rest
  obtain ⟨header, taken, fields, payload⟩ := Scan.read_bind_eq_ok rest
  have told := Header.kind_of_scanAfter native fields
  have some : byte :: others ≠ [] := List.cons_ne_nil byte others
  have bounds := Kind.Clue.bounds (.ofByte byte)
  rw [Kind.Told, Kind.ahead_of_ne some, List.headD_cons, kind_of_scanPayload payload]
  cases clue : Kind.Clue.ofTag (.ofByte byte) with
  | known kind =>
    rw [clue] at told
    exact ⟨⟨some, trivial⟩, told.symm⟩
  | extType count =>
    rw [clue] at told bounds
    obtain ⟨reach, told⟩ := told
    refine ⟨⟨some, reach⟩, (if_pos reach).trans ?_⟩
    obtain ⟨place, rfl⟩ : ∃ place, count = place + 2 := Nat.exists_eq_add_of_le' bounds.1
    exact told.symm
  | sign count =>
    rw [clue] at told
    obtain ⟨reach, told⟩ := told
    exact ⟨⟨some, reach⟩, (if_pos reach).trans told.symm⟩

theorem Item.kind_ne (item : Item) : item.kind ≠ .notAnItem := by
  cases item with
  | integer value =>
    rw [kind, header, Header.kind]
    split <;> simp
  | _ => simp [kind, header, Header.kind]

namespace Unpacker

variable [Inlet σ]

/-- A look ahead changes nothing that counts: bytes may have come from the handler into the
buffer, but the input goes on with the same bytes. If the next call reads an item it is of the
kind that has been answered. -/
structure Foresees (pending : σ → List UInt8) (unpacker : Unpacker σ) : Prop where
  status : unpacker.lookAhead.2.status = unpacker.status
  offset : unpacker.lookAhead.2.offset = unpacker.offset
  ahead : unpacker.lookAhead.2.buffer.unread ++ pending unpacker.lookAhead.2.handler =
    unpacker.buffer.unread ++ pending unpacker.handler
  mark : unpacker.lookAhead.2.buffer.mark = unpacker.buffer.mark
  kind : unpacker.lookAhead.1 ≠ .notAnItem → ∀ item, unpacker.lookAhead.2.next.1 = .ok item →
    item.kind = unpacker.lookAhead.1
  found : ∀ item, unpacker.lookAhead.2.next.1 = .ok item → unpacker.lookAhead.1 ≠ .notAnItem

variable {input : List UInt8} {holds : Incoming → σ → Prop} {ended : σ → Prop}
  {unpacker : Unpacker σ} {pending : σ → List UInt8}

/-- What is read after a look is of the kind that was seen, if nothing is read but what lies in
the buffer once the handler has ended. -/
theorem kind_of_next (keeps : Inlet.Maintains input holds ended)
    (held : holds unpacker.buffer unpacker.handler) (clean : unpacker.fault = none)
    (native : unpacker.order.verify = .ok ())
    (last : ∀ {after : Unpacker σ}, holds after.buffer after.handler → ended after.handler →
      ∀ item, after.next.1 = .ok item → after.next.2.offset ≤ after.offset + after.buffer.remaining)
    {item : Item} (read : unpacker.lookAhead.2.next.1 = .ok item) :
    item.kind = unpacker.lookAhead.1 := by
  obtain ⟨rests, seen⟩ := keeps.lookAhead held
  obtain ⟨same, reach⟩ := seen clean
  obtain ⟨taken, answered, moved⟩ := (keeps.next rests.holds).2 item read
  rw [rests.order] at answered
  rw [same]
  generalize unpacker.lookAhead.2 = after at rests reach read answered moved
  obtain ⟨others, window⟩ := keeps.window rests.holds
  have split : input.drop after.offset = after.buffer.unread ++ others := window.rest_eq
  have length := keeps.length_unread rests.holds
  rw [split] at answered
  rcases reach with spent | told
  · have within := last rests.holds spent item read
    have inside : taken ≤ after.buffer.unread.length := by omega
    obtain ⟨_, reads⟩ := Scan.reads_of_read (answered .endOfInput)
    rw [List.take_append_of_le_length inside] at reads
    have whole := reads .endOfInput []
    rw [List.append_nil] at whole
    obtain ⟨told, kind⟩ := Item.kind_of_read native (congrArg Prod.fst whole)
    rw [← kind, ← Kind.ahead_append told (after.buffer.unread.drop taken), List.take_append_drop]
  · obtain ⟨_, kind⟩ := Item.kind_of_read native (congrArg Prod.fst (answered .endOfInput))
    rw [← kind, Kind.ahead_append told]

theorem foresees (keeps : Inlet.Maintains input holds ended)
    (window : ∀ {buffer handler}, holds buffer handler → buffer.Window input (pending handler))
    (held : holds unpacker.buffer unpacker.handler) (clean : unpacker.fault = none)
    (native : unpacker.order.verify = .ok ())
    (last : ∀ {after : Unpacker σ}, holds after.buffer after.handler → ended after.handler →
      ∀ item, after.next.1 = .ok item →
        after.next.2.offset ≤ after.offset + after.buffer.remaining) :
    Foresees pending unpacker := by
  obtain ⟨rests, _⟩ := keeps.lookAhead held
  have kind {item : Item} (read : unpacker.lookAhead.2.next.1 = .ok item) :=
    kind_of_next keeps held clean native last read
  refine ⟨?_, rests.offset, ?_, rests.mark, fun _ item read => kind read, fun item read => ?_⟩
  · rw [status, status, rests.fault]
  · have offset := rests.offset
    simp only [Unpacker.offset] at offset
    rw [← (window rests.holds).rest_eq, ← (window held).rest_eq, offset]
  · rw [← kind read]
    exact item.kind_ne

theorem foresees_pursue (keeps : Inlet.Maintains input holds ended)
    (window : ∀ {buffer handler}, holds buffer handler → buffer.Window input (pending handler))
    (held : holds unpacker.buffer unpacker.handler)
    (native : unpacker.fault = none → unpacker.order.verify = .ok ())
    (last : ∀ {after : Unpacker σ}, holds after.buffer after.handler → ended after.handler →
      ∀ item, after.next.1 = .ok item →
        after.next.2.offset ≤ after.offset + after.buffer.remaining)
    {requests : List Request} (fine : (unpacker.pursue requests).status = .ok ()) :
    Foresees pending (unpacker.pursue requests) := by
  obtain ⟨stays, _, order⟩ := keeps.pursue held requests
  have clean : (unpacker.pursue requests).fault = none := by
    rw [status] at fine
    split at fine
    · assumption
    · cases fine
  refine foresees keeps window stays clean ?_ last
  rw [order]
  exact native (clean_of_pursue clean)

omit [Inlet σ] in
theorem native_of_new {buffer : Incoming} {handler : σ} {order : ByteOrder}
    (clean : (new buffer handler order).fault = none) : order.verify = .ok () := by
  simp only [new] at clean
  split at clean
  · assumption
  · cases clean

end Unpacker

/-! ### Memory and streams -/

theorem Exhausted.maintains (bytes : List UInt8) :
    Inlet.Maintains bytes (fun buffer (_ : Exhausted) => buffer.Window bytes [])
      fun _ => True where
  window held := ⟨[], held⟩
  within held _ window := window [] held
  refill held short := ⟨held, rfl, rfl, ⟨nofun, fun enough => absurd enough
    (Nat.not_le_of_lt short)⟩, fun _ _ => trivial⟩

namespace Unpacker

theorem offset_next_exhausted {bytes : List UInt8} {unpacker : Unpacker Exhausted}
    (window : unpacker.buffer.Window bytes []) :
    unpacker.next.2.offset ≤ unpacker.offset + unpacker.buffer.remaining := by
  have still : unpacker.next.2.buffer.Window bytes [] :=
    ((Exhausted.maintains bytes).next window).1.holds
  have after := still.offset_add
  have before := window.offset_add
  simp only [offset]
  omega

theorem offset_next_over {front : List UInt8} {begun : Input} {ceiling : Nat}
    {unpacker : Unpacker Source}
    (covers : Source.Covers front begun ceiling unpacker.buffer unpacker.handler)
    (spent : unpacker.handler.input.Over) :
    unpacker.next.2.offset ≤ unpacker.offset + unpacker.buffer.remaining := by
  have keeps := Source.maintains_over front begun ceiling unpacker.handler.input.given
  obtain ⟨still, _, same⟩ := (keeps.next ⟨covers, spent, rfl⟩).1.holds
  have before := covers.window.offset_add
  have after := still.window.offset_add
  have given := covers.reached.given
  have taken := still.reached.given
  simp only [offset]
  omega

theorem foresees_ofBytes (bytes : List UInt8) (order : ByteOrder) {requests : List Request}
    (fine : ((ofBytes bytes order).pursue requests).status = .ok ()) :
    Foresees (fun _ => []) ((ofBytes bytes order).pursue requests) :=
  foresees_pursue (Exhausted.maintains bytes) id (.ofBytes bytes) native_of_new
    (fun window _ _ _ => offset_next_exhausted window) fine

theorem foresees_source {front : List UInt8} {begun : Input} {ceiling : Nat}
    {buffer : Incoming} {order : ByteOrder}
    (covers : Source.Covers front begun ceiling buffer (Source.mk begun))
    (lasting : begun.Lasting) (roomy : Roomy (front ++ begun.pending) ceiling)
    {requests : List Request}
    (fine : ((new buffer (Source.mk begun) order).pursue requests).status = .ok ()) :
    Foresees (·.input.pending) ((new buffer (Source.mk begun) order).pursue requests) :=
  foresees_pursue (Source.maintains front begun ceiling) (fun covers => covers.window) covers
    native_of_new (fun covers spent _ _ => offset_next_over covers (spent lasting roomy)) fine

/-! ### Sequences of calls -/

def withoutLooks (calls : List Call) : List Call := calls.filter (· ≠ .lookAhead)

def seenBeside (calls : List Call) (outcomes : List Outcome) : List Outcome :=
  ((outcomes.zip calls).filter (·.2 ≠ .lookAhead)).map (·.1)

/-- Looks may be put in anywhere, and no other call shows it. -/
def Overlooks [Inlet σ] (unpacker : Unpacker σ) : Prop :=
  ∀ calls, seenBeside calls (unpacker.outcomes calls) = unpacker.outcomes (withoutLooks calls)

theorem seenBeside_outcomes (reading : Reading) (calls : List Call) :
    seenBeside calls (reading.outcomes calls) = reading.outcomes (withoutLooks calls) := by
  induction calls generalizing reading with
  | nil => rfl
  | cons call calls ih =>
    rw [seenBeside, Reading.outcomes, List.zip_cons_cons]
    by_cases look : call = .lookAhead
    · rw [withoutLooks, List.filter_cons_of_neg (by simp [look]),
        List.filter_cons_of_neg (by simp [look]), look]
      exact ih reading
    · rw [withoutLooks, List.filter_cons_of_pos (by simp [look]),
        List.filter_cons_of_pos (by simp [look]), List.map_cons, Reading.outcomes]
      exact congrArg _ (ih _)

theorem Follows.overlooks [Inlet σ] [Feed σ] {unpacker : Unpacker σ} {reading : Reading}
    (follows : unpacker.Follows reading) : unpacker.Overlooks := by
  intro calls
  rw [follows.outcomes, follows.outcomes]
  exact seenBeside_outcomes reading calls

/-- Looking ahead. At any time, in memory or on a stream whose end lasts, a look changes
nothing, and sees of what kind the next item is, if there is one to be read. Nor is there any
other call that shows that there has been a look, in memory or on a stream that delivers: its
bytes do not depend on when it is asked for them. -/
theorem looks_agree (front : List UInt8) (input : Input)
    (size : (front ++ input.pending).length ≤ longest) {ceiling : Nat}
    (allocation : 2 * max (front ++ input.pending).length 1 ≤ ceiling) (capacity : Nat)
    (short : capacity < Position.modulus) (order : ByteOrder) :
    let memory := ofBytes (front ++ input.pending) order
    let stream := (ofInput input capacity order).withCeiling ceiling
    let behind := (new (.ofBytes front) (Source.mk input) order).withCeiling ceiling
    (∀ requests, (memory.pursue requests).status = .ok () →
      Foresees (fun _ => []) (memory.pursue requests)) ∧
    (input.Lasting → ∀ requests,
      ((stream.pursue requests).status = .ok () →
        Foresees (·.input.pending) (stream.pursue requests)) ∧
      ((behind.pursue requests).status = .ok () →
        Foresees (·.input.pending) (behind.pursue requests))) ∧
    memory.Overlooks ∧
    ∀ closing, input.Delivers closing → stream.Overlooks ∧ behind.Overlooks := by
  have whole : Roomy (front ++ input.pending) ceiling := roomy_of_le size allocation
  rw [List.length_append] at size allocation
  have alone : Roomy input.pending ceiling := roomy_of_le (by omega) (by omega)
  have fits : front.length < Position.modulus := by
    have : longest < Position.modulus := by decide
    omega
  refine ⟨fun _ => foresees_ofBytes _ order, fun lasting requests => ⟨?_, ?_⟩,
    (follows_ofBytes _ order).overlooks, fun closing delivers => ⟨?_, ?_⟩⟩
  · exact foresees_source (covers_ofInput input ceiling order short) lasting alone
  · exact foresees_source (covers_ofBytes input ceiling order fits) lasting whole
  · exact (follows_ofInput delivers alone capacity order).overlooks
  · exact (follows_ofBytes_input front delivers whole order).overlooks

/-- A map whose key is cut off from it, with a pause before every byte of the rest. -/
theorem looks_agree_bytewise :
    let input := Input.ofBytes [0xa1, 0x6b, 0xcd, 0x01, 0x00] (.paced (fun _ => 1) true none)
    let unpacker := (new (.ofBytes [0x81]) (Source.mk input) .portable).withCeiling 12
    let requests : List Request := [.call .next, .call .setBarrier, .call (.nextAs .strLength)]
    (([0x81] ++ input.pending).length ≤ longest ∧
      2 * max ([0x81] ++ input.pending).length 1 ≤ 12 ∧ 0 < Position.modulus) ∧
    (input.Lasting ∧ input.Delivers .endOfInput ∧
      (unpacker.pursue requests).status = .ok ()) ∧
    Foresees (·.input.pending) (unpacker.pursue requests) ∧ unpacker.Overlooks := by
  intro input unpacker requests
  have delivers : input.Delivers .endOfInput :=
    Input.delivers_paced _ (fun _ => Nat.one_pos) true
  have granted : 2 * max ([0x81] ++ input.pending).length 1 ≤ 12 := by decide
  have fine : (unpacker.pursue requests).status = .ok () := by cbv
  obtain ⟨_, foresees, _, overlooks⟩ := looks_agree [0x81] input (by decide) granted 0
    (by decide) .portable
  exact ⟨by decide, ⟨delivers.lasting, delivers, fine⟩,
    (foresees delivers.lasting requests).2 fine, (overlooks _ delivers).2⟩

/-- A stream that ends for good with the third call may have given more bytes by then if there
has been a look, since a look asks for more of them at once. -/
theorem not_overlooks_threeCalls :
    let plan : Input.Plan :=
      ⟨fun call _ room => .deliver (if call < 3 then room else 0), fun _ => 0⟩
    let input := Input.ofBytes [0xc7, 0x03, 0x05, 0xaa, 0xbb, 0xcc] plan
    let unpacker := (ofInput input 2 .portable).withCeiling 12
    input.Lasting ∧ unpacker.status = .ok () ∧ unpacker.next.1 = .error .bufferUnderflow ∧
      unpacker.lookAhead.2.next.1 = .ok (.ext 5 [0xaa, 0xbb, 0xcc]) ∧ ¬unpacker.Overlooks := by
  intro plan input unpacker
  have quits : plan.Quits := by
    rintro call given room offered idle later other after _
    have done : ¬call < 3 := by
      intro early
      rcases idle with nothing | ⟨text, failed⟩
      · rw [show plan.beat call given room = .deliver room from
          congrArg Input.Beat.deliver (if_pos early)] at nothing
        cases nothing
        exact Nat.lt_irrefl 0 offered
      · cases failed
    exact .inl (congrArg Input.Beat.deliver (if_neg (by omega)))
  have alone : unpacker.next.1 = .error .bufferUnderflow := by cbv
  have looked : unpacker.lookAhead.2.next.1 = .ok (.ext 5 [0xaa, 0xbb, 0xcc]) := by cbv
  refine ⟨Input.lasting_of_quits quits, rfl, alone, looked, fun overlooks => ?_⟩
  have beside : (seenBeside [.lookAhead, .next]
      (unpacker.outcomes [.lookAhead, .next])).map (·.answer) =
        [.ok (.item (.ext 5 [0xaa, 0xbb, 0xcc]))] := by cbv
  have plain : (unpacker.outcomes [.next]).map (·.answer) = [.error .bufferUnderflow] := by cbv
  rw [overlooks] at beside
  cases beside.symm.trans plain

end Unpacker
end MessagePack
