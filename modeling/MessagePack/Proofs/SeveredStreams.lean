import MessagePack.Proofs.UnmarkedMemory
import MessagePack.Proofs.ItemPrefixes

/-! Streams that break off. A stream that fails where another would end is read like that
other one up to the bytes that are missing: an item that is there is answered, one that is
malformed is told to be so, and only a call that has to have more bytes meets the failure.
It is never taken for the end of the input nor for an item cut short. -/
namespace MessagePack

/-- What a call ends in whose bytes are missing, once the stream fails there. -/
def Fault.severed : Fault → Fault
  | .endOfInput | .bufferUnderflow => .errorInHandler
  | fault => fault

namespace Scan

/-- A scan that gives up on nothing but the form of an item. -/
def Judges : Scan α → Prop
  | .done _ => True
  | .fail fault => fault = .malformedInput ∨ fault = .wrongTimestampLength
  | .take _ _ next => ∀ bytes, (next bytes).Judges

theorem Judges.bind {scan : Scan α} {f : α → Scan β} (first : scan.Judges)
    (second : ∀ value, (f value).Judges) : (scan.bind f).Judges := by
  induction scan with
  | done value => exact second value
  | fail fault => exact first
  | take count leading next ih => exact fun bytes => ih bytes (first bytes)

theorem judges_field (order : ByteOrder) (width : Nat) : (field order width).Judges :=
  fun _ => trivial

theorem Judges.read {scan : Scan α} (judges : scan.Judges) (bytes : List UInt8) :
    scan.read .errorInHandler bytes =
      ((scan.read .endOfInput bytes).1.mapError Fault.severed,
        (scan.read .endOfInput bytes).2) := by
  induction scan generalizing bytes with
  | done value => rfl
  | fail fault => rcases judges with rfl | rfl <;> rfl
  | take count leading next ih =>
    simp only [Scan.read]
    split
    · rw [ih _ (judges _)]
    · cases leading <;> rfl

theorem Judges.read_ne {scan : Scan α} (judges : scan.Judges) (bytes : List UInt8) :
    (scan.read .endOfInput bytes).1 ≠ .error .errorInHandler := by
  induction scan generalizing bytes with
  | done value => rintro ⟨⟩
  | fail fault => rcases judges with rfl | rfl <;> rintro ⟨⟩
  | take count leading next ih =>
    simp only [Scan.read]
    split
    · exact ih _ (judges _) _
    · cases leading <;> rintro ⟨⟩

end Scan

open Scan

theorem Timestamp.judges_scan (order : ByteOrder) (tag : Tag) (length : Nat) :
    (Timestamp.scan order tag length).Judges := by
  simp only [Timestamp.scan]
  split
  · exact (judges_field order _).bind fun _ => trivial
  · exact (judges_field order _).bind fun _ => trivial
  · exact fun _ => trivial
  · exact .inr rfl

namespace Header

theorem judges_scanExt (order : ByteOrder) (tag : Tag) (length : Nat) :
    (scanExt order tag length).Judges := by
  intro bytes
  dsimp only [Scan.bind]
  split
  · exact (Timestamp.judges_scan order tag length).bind fun _ => trivial
  · trivial

theorem judges_scan (order : ByteOrder) : (scan order).Judges := by
  intro bytes
  change (scanAfter order (.ofByte (bytes.headD 0))).Judges
  cases Tag.ofByte (bytes.headD 0) with
  | reserved => exact .inl rfl
  | ext i => exact (judges_field order _).bind fun _ => judges_scanExt order _ _
  | fixExt i => exact judges_scanExt order _ _
  | bin | str | array | map | float | double | unsigned | signed =>
    exact (judges_field order _).bind fun _ => trivial
  | _ => trivial

end Header

theorem Item.judges_scan (order : ByteOrder) : (Item.scan order).Judges := by
  refine (Header.judges_scan order).bind fun header => ?_
  cases header.payloadLength? with
  | none => trivial
  | some length => exact fun _ => trivial

/-! ### Answers -/

/-- What is seen of a call when the stream fails where it would have ended. -/
def Unpacker.Outcome.severed (outcome : Unpacker.Outcome) : Unpacker.Outcome where
  answer := outcome.answer.mapError Fault.severed
  offset := outcome.offset
  status := outcome.status.mapError Fault.severed

namespace Reading

variable {reading : Reading}

def severed (reading : Reading) : Reading :=
  { reading with closing := .errorInHandler, fault := reading.fault.map Fault.severed }

theorem severed_start (input : List UInt8) (order : ByteOrder) :
    (start input .endOfInput order).severed = start input .errorInHandler order := by
  rw [start, start, severed]
  cases order <;> rfl

theorem closing_next (reading : Reading) : reading.next.2.closing = reading.closing := by
  rw [next, attempt]
  cases reading.fault with
  | some fault => rfl
  | none =>
    dsimp only [perform]
    cases (Item.scan reading.order).read reading.closing reading.rest with
    | mk answer taken => cases answer <;> rfl

theorem settle_severed (answer : Except Fault α) (reading : Reading) :
    settle (answer.mapError Fault.severed) reading.severed =
      ((settle answer reading).1.mapError Fault.severed, (settle answer reading).2.severed) := by
  cases answer with
  | ok value => rfl
  | error fault =>
    cases failed : reading.fault <;> simp only [settle, severed, failed] <;> rfl

theorem next_severed (closing : reading.closing = .endOfInput) :
    reading.severed.next = (reading.next.1.mapError Fault.severed, reading.next.2.severed) := by
  cases failed : reading.fault with
  | some fault =>
    have stuck : reading.severed.fault = some fault.severed := by rw [severed, failed]; rfl
    rw [next, next, attempt, attempt, stuck, failed]
    rfl
  | none =>
    have clean : reading.severed.fault = none := by rw [severed, failed]; rfl
    have met := (Item.judges_scan reading.order).read reading.rest
    have performed : reading.severed.perform (Item.scan reading.order) =
        ((reading.perform (Item.scan reading.order)).1.mapError Fault.severed,
          (reading.perform (Item.scan reading.order)).2.severed) := by
      rw [perform, perform, closing]
      exact congrArg (fun result => (result.1, reading.severed.advance result.2)) met
    rw [next, next, attempt_of_clean clean, attempt_of_clean failed]
    refine (congrArg (fun result => settle result.1 result.2) performed).trans ?_
    exact settle_severed _ _

theorem outcomes_severed (closing : reading.closing = .endOfInput) (count : Nat) :
    reading.severed.outcomes (.replicate count .next) =
      (reading.outcomes (.replicate count .next)).map Unpacker.Outcome.severed := by
  induction count generalizing reading with
  | zero => rfl
  | succ count ih =>
    have stays := reading.closing_next.trans closing
    have status : reading.next.2.severed.status = reading.next.2.status.mapError Fault.severed := by
      simp only [Reading.status, severed]
      cases reading.next.2.fault <;> rfl
    have answer : (reading.next.1.mapError Fault.severed).map Unpacker.Answer.item =
        (reading.next.1.map Unpacker.Answer.item).mapError Fault.severed := by
      cases reading.next.1 <;> rfl
    rw [List.replicate_succ, outcomes_next, outcomes_next, next_severed closing, ih stays, status,
      answer]
    rfl

theorem next_ne (closing : reading.closing = .endOfInput)
    (quiet : reading.fault ≠ some .errorInHandler) :
    reading.next.1 ≠ .error .errorInHandler ∧
      reading.next.2.fault ≠ some .errorInHandler := by
  rw [next, attempt]
  cases failed : reading.fault with
  | some fault =>
    have other : fault ≠ .errorInHandler := fun same => quiet (failed.trans (congrArg some same))
    exact ⟨fun same => other (Except.error.inj same), fun same => quiet same⟩
  | none =>
    have other := (Item.judges_scan reading.order).read_ne reading.rest
    dsimp only
    rw [perform, closing]
    generalize (Item.scan reading.order).read .endOfInput reading.rest = result at other
    obtain ⟨answer, taken⟩ := result
    refine ⟨by rw [fst_settle]; exact other, ?_⟩
    cases answer with
    | ok item => exact quiet
    | error fault =>
      have noted : (settle (.error fault : Except Fault Item) (reading.advance taken)).2.fault =
          some fault := by
        simp only [settle, advance, failed]
        rfl
      rw [noted]
      exact fun same => other (congrArg Except.error (Option.some.inj same))

theorem outcomes_ne (closing : reading.closing = .endOfInput)
    (quiet : reading.fault ≠ some .errorInHandler) (count : Nat) :
    ∀ outcome ∈ reading.outcomes (.replicate count .next),
      outcome.answer ≠ .error .errorInHandler := by
  induction count generalizing reading with
  | zero => exact nofun
  | succ count ih =>
    obtain ⟨answer, stays⟩ := next_ne closing quiet
    rw [List.replicate_succ, outcomes_next, List.forall_mem_cons]
    refine ⟨?_, ih (reading.closing_next.trans closing) stays⟩
    cases first : reading.next.1 with
    | ok item => exact nofun
    | error fault => exact fun same => answer (first.trans (congrArg _ (Except.error.inj same)))

/-- Items that lie there are read, whatever is said at the end of the input. -/
theorem answers_whole {pieces : List Unpacker.Piece} (clean : reading.fault = none)
    (native : reading.order.verify = .ok ())
    (whole : ∀ piece ∈ pieces, piece.Whole reading.order)
    (ahead : pieces.flatMap Unpacker.Piece.bytes <+: reading.rest) :
    (reading.outcomes (.replicate pieces.length .next)).map (·.answer) =
      pieces.map fun piece => .ok (.item piece.item) := by
  induction pieces generalizing reading with
  | nil => rfl
  | cons piece pieces ih =>
    obtain ⟨more, ahead⟩ := ahead
    rw [List.flatMap_cons, List.append_assoc] at ahead
    have own := (whole piece List.mem_cons_self).reads native
    have first := next_of_reads clean own ahead.symm
    have rest : (reading.advance piece.bytes.length).rest =
        pieces.flatMap Unpacker.Piece.bytes ++ more := by
      rw [rest_advance, ← ahead, List.drop_left]
    have stays : (reading.advance piece.bytes.length).fault = none := clean
    have others := ih stays native
      (fun piece member => whole piece (List.mem_cons_of_mem _ member)) ⟨more, rest.symm⟩
    rw [List.length_cons, List.replicate_succ, answers_cons first, others, List.map_cons]

end Reading

/-! ### The text of the failure -/

def Input.Plan.Fails (plan : Input.Plan) (text : String) : Prop :=
  ∃ call given room, plan.beat call given room = .fail text

/-- What the buffer holds of a failure: its text if that is the answer, and else nothing. -/
def Incoming.HoldsFailure (buffer : Incoming) (plan : Input.Plan) (answer : Except Fault α) :
    Prop :=
  match answer with
  | .error .errorInHandler => ∃ text, buffer.failure = some text ∧ plan.Fails text
  | _ => buffer.failure = none

theorem Incoming.holdsFailure_of_ne {buffer : Incoming} {plan : Input.Plan}
    {answer : Except Fault α} (other : answer ≠ .error .errorInHandler) :
    buffer.HoldsFailure plan answer ↔ buffer.failure = none := by
  unfold HoldsFailure
  split
  · exact absurd rfl other
  · exact Iff.rfl

theorem Input.plan_read (input : Input) (room : Nat) : (input.read room).2.plan = input.plan := by
  simp only [read]
  split
  · rfl
  · split <;> rfl

theorem Input.fails_of_read {input next : Input} {room : Nat} {text : String}
    (read : input.read room = (.failed text, next)) : input.plan.Fails text := by
  simp only [Input.read] at read
  split at read
  · cases read
  · split at read
    · rename_i beat
      cases read
      exact ⟨_, _, _, beat⟩
    · cases read

/-- A stream that gives at least one byte a call, and fails behind the last, delivers. -/
theorem Input.delivers_failing (bytes : List UInt8) {chunk : Nat → Nat}
    (positive : ∀ call, 0 < chunk call) (pausing : Bool) (text : String) :
    (ofBytes bytes (.paced chunk pausing (some (bytes.length, text)))).Delivers
      .errorInHandler := by
  intro call given room offered
  simp only [ofBytes, Nat.zero_add]
  split
  · rename_i more
    refine ⟨min (chunk call) (bytes.length - given), ?_, if_neg (Nat.not_le_of_lt more)⟩
    have := positive call
    omega
  · rename_i spent
    refine .inr ⟨?_, text, if_pos (Nat.le_of_not_lt spent)⟩
    trivial

namespace Source

theorem failure_openRoom (buffer : Incoming) (needed : Nat) :
    (openRoom buffer needed).2.failure = buffer.failure := by
  rcases openRoom_cases buffer needed with same | ⟨_, region, same, _⟩
  · rw [same]
  · rw [same]

theorem openRoom_ne (buffer : Incoming) (needed : Nat) :
    (openRoom buffer needed).1 ≠ .error .errorInHandler := by
  unfold openRoom
  split
  · cases grows : buffer.growToward needed with
    | mk status grown =>
      rintro ⟨⟩
      obtain ⟨_, fault, _⟩ := Incoming.growToward_eq_error grows
      cases fault
  · exact nofun

/-- The text of a call that fails is kept, and no refill makes one up. -/
theorem holdsFailure_readUntil (input : Input) {buffer : Incoming} (needed : Nat)
    (quiet : buffer.failure = none) :
    (readUntil input buffer needed).handler.input.plan = input.plan ∧
      (readUntil input buffer needed).buffer.HoldsFailure input.plan
        (readUntil input buffer needed).status := by
  have unopened {buffer grown : Incoming} {status : Status} (quiet : buffer.failure = none)
      (opened : openRoom buffer needed = (status, grown)) : grown.failure = none := by
    have same := failure_openRoom buffer needed
    rw [opened] at same
    exact same.trans quiet
  have goesOn {input next : Input} {room : Nat} {outcome : Input.Outcome}
      (read : input.read room = (outcome, next)) : next.plan = input.plan := by
    have same := input.plan_read room
    rwa [read] at same
  fun_induction readUntil input buffer needed with
  | case1 input buffer enough => exact ⟨rfl, quiet⟩
  | case2 input buffer short fault grown opened =>
    have other := openRoom_ne buffer needed
    rw [opened] at other
    exact ⟨rfl, (Incoming.holdsFailure_of_ne other).mpr (unopened quiet opened)⟩
  | case3 input buffer short _ grown opened text next read =>
    exact ⟨goesOn read, text, rfl, Input.fails_of_read read⟩
  | case4 input buffer short _ grown opened next read =>
    exact ⟨goesOn read, unopened quiet opened⟩
  | case5 input buffer short _ grown opened byte bytes next read ih =>
    have stays := goesOn read
    have opens : grown.failure = none := unopened quiet opened
    obtain ⟨plan, failureHeld⟩ := ih opens
    exact ⟨plan.trans stays, stays ▸ failureHeld⟩
  | case6 input buffer short _ grown opened next read ih =>
    have stays := goesOn read
    obtain ⟨plan, failureHeld⟩ := ih (unopened quiet opened)
    exact ⟨plan.trans stays, stays ▸ failureHeld⟩

end Source

namespace Unpacker

variable {plan : Input.Plan} {unpacker : Unpacker Source}

/-- In the middle of a call the source goes by its plan, and the buffer holds the text that
belongs to the answer. -/
structure Explains (script : Input.Plan) (answer : Except Fault α) (unpacker : Unpacker Source) :
    Prop where
  clean : unpacker.fault = none
  plan : unpacker.handler.input.plan = script
  failureHeld : unpacker.buffer.HoldsFailure script answer

namespace Explains

theorem recast {fault : Fault} (explains : Explains plan (.error fault : Except Fault α) unpacker) :
    Explains plan (.error fault : Except Fault β) unpacker := by
  by_cases failed : fault = .errorInHandler
  · subst failed
    exact ⟨explains.clean, explains.plan, explains.failureHeld⟩
  · have own : (.error fault : Except Fault α) ≠ .error .errorInHandler :=
      fun same => failed (Except.error.inj same)
    have other : (.error fault : Except Fault β) ≠ .error .errorInHandler :=
      fun same => failed (Except.error.inj same)
    exact ⟨explains.clean, explains.plan,
      (Incoming.holdsFailure_of_ne other).mpr
        ((Incoming.holdsFailure_of_ne own).mp explains.failureHeld)⟩

theorem demand (explains : Explains plan (.ok () : Status) unpacker)
    (needed : Nat) (leading : Bool) :
    Explains plan (unpacker.demand needed leading).1 (unpacker.demand needed leading).2 := by
  have other : (.error (Scan.shortage leading) : Status) ≠ .error .errorInHandler := by
    cases leading <;> rintro ⟨⟩
  have blank : unpacker.buffer.compact.failure = none := by
    simp only [Incoming.compact]
    split <;> exact explains.failureHeld
  have refilled : Explains plan (unpacker.refill needed).1 (unpacker.refill needed).2 := by
    obtain ⟨stays, failureHeld⟩ := Source.holdsFailure_readUntil unpacker.handler.input needed blank
    rw [explains.plan] at stays failureHeld
    exact ⟨explains.clean, stays, failureHeld⟩
  unfold Unpacker.demand
  split
  · exact explains
  · generalize unpacker.refill needed = result at refilled
    obtain ⟨fault | _, after⟩ := result
    · cases fault with
      | endOfInput =>
        exact ⟨refilled.clean, refilled.plan,
          (Incoming.holdsFailure_of_ne other).mpr refilled.failureHeld⟩
      | _ => exact refilled
    · dsimp only
      split
      · exact refilled
      · exact ⟨refilled.clean, refilled.plan,
          (Incoming.holdsFailure_of_ne other).mpr refilled.failureHeld⟩

theorem take (explains : Explains plan (.ok () : Status) unpacker)
    (count : Nat) (leading : Bool) :
    Explains plan (unpacker.take count leading).1 (unpacker.take count leading).2 := by
  have demanded := explains.demand count leading
  unfold Unpacker.take
  generalize unpacker.demand count leading = result at demanded
  obtain ⟨fault | _, after⟩ := result
  · exact demanded.recast
  · exact ⟨demanded.clean, demanded.plan, demanded.failureHeld⟩

theorem perform {scan : Scan α} (judges : scan.Judges)
    (explains : Explains plan (.ok () : Status) unpacker) :
    Explains plan (Unpacker.perform scan unpacker).1 (Unpacker.perform scan unpacker).2 := by
  induction scan generalizing unpacker with
  | done value => exact ⟨explains.clean, explains.plan, explains.failureHeld⟩
  | fail fault =>
    rcases judges with rfl | rfl <;> exact ⟨explains.clean, explains.plan, explains.failureHeld⟩
  | take count leading next ih =>
    have taken := explains.take count leading
    rw [Unpacker.perform]
    generalize unpacker.take count leading = result at taken
    obtain ⟨fault | bytes, after⟩ := result
    · exact taken.recast
    · exact ih bytes (judges bytes) ⟨taken.clean, taken.plan, taken.failureHeld⟩

theorem readPayload (explains : Explains plan (.ok () : Status) unpacker)
    (header : Header) :
    Explains plan (unpacker.readPayload header).1 (unpacker.readPayload header).2 := by
  unfold Unpacker.readPayload
  cases header.payloadLength? with
  | none => exact ⟨explains.clean, explains.plan, explains.failureHeld⟩
  | some length =>
    have taken := explains.take length false
    dsimp only
    generalize unpacker.take length false = result at taken
    obtain ⟨fault | payload, after⟩ := result
    · exact taken.recast
    · exact ⟨taken.clean, taken.plan, taken.failureHeld⟩

end Explains

/-- Between calls the buffer holds the text that belongs to the fault that stands. -/
structure Candid (script : Input.Plan) (unpacker : Unpacker Source) : Prop where
  plan : unpacker.handler.input.plan = script
  failureHeld : unpacker.buffer.HoldsFailure script unpacker.status

theorem Explains.settle {answer : Except Fault α} (explains : Explains plan answer unpacker) :
    (unpacker.settle answer).2.Candid plan := by
  have clean := explains.clean
  cases answer with
  | ok value =>
    refine ⟨explains.plan, ?_⟩
    rw [Unpacker.settle, status, clean]
    exact explains.failureHeld
  | error fault =>
    refine ⟨explains.plan, ?_⟩
    simp only [Unpacker.settle, status, clean]
    exact explains.recast.failureHeld

theorem Candid.next (candid : unpacker.Candid plan) : unpacker.next.2.Candid plan := by
  unfold Unpacker.next Unpacker.attempt
  cases clean : unpacker.fault with
  | some fault => exact candid
  | none =>
    have failureHeld := candid.failureHeld
    rw [status, clean] at failureHeld
    have begun : Explains plan (.ok () : Status) { unpacker with last := none } :=
      ⟨clean, candid.plan, failureHeld⟩
    have read := begun.perform (Header.judges_scan unpacker.order)
    dsimp only
    generalize Unpacker.perform (Header.scan unpacker.order) { unpacker with last := none } =
      result at read
    obtain ⟨fault | header, after⟩ := result
    · exact read.recast.settle
    · have found : Explains plan (.ok () : Status) after :=
        ⟨read.clean, read.plan, read.failureHeld⟩
      exact (found.readPayload header).settle

theorem Candid.pursue (candid : unpacker.Candid plan) (count : Nat) :
    (unpacker.pursue (.replicate count (.call .next))).Candid plan := by
  induction count generalizing unpacker with
  | zero => exact candid
  | succ count ih => exact ih candid.next

theorem candid_ofInput (input : Input) (capacity : Nat) (order : ByteOrder) :
    (ofInput input capacity order).Candid input.plan := by
  refine ⟨rfl, (Incoming.holdsFailure_of_ne ?_).mpr rfl⟩
  cases order <;> exact nofun

/-- Failing streams. A stream that fails behind the bytes that it brings is read as those bytes
are in memory, call by call, but that a call that is short of bytes meets the failure. Then, and
only then, the buffer holds the text of it, and what is whole in those bytes is read before. -/
theorem severed_input {input : Input} (delivers : input.Delivers .errorInHandler)
    {bytes : List UInt8} {cut : Nat} (front : input.pending = bytes.take cut)
    (size : bytes.length ≤ longest) (capacity : Nat) (order : ByteOrder) (count : Nat) :
    let stream := ofInput input capacity order
    let memory := ofBytes (bytes.take cut) order
    stream.outcomes (.replicate count .next) =
        (memory.outcomes (.replicate count .next)).map Outcome.severed ∧
      (∀ outcome ∈ memory.outcomes (.replicate count .next),
        outcome.answer ≠ .error .errorInHandler) ∧
      (stream.pursue (.replicate count (.call .next))).Candid input.plan ∧
      ∀ pieces : List Piece, order.verify = .ok () → (∀ piece ∈ pieces, piece.Whole order) →
        pieces.flatMap Piece.bytes <+: bytes.take cut →
        (stream.outcomes (.replicate pieces.length .next)).map (·.answer) =
          pieces.map fun piece => .ok (.item piece.item) := by
  have within : (bytes.take cut).length ≤ longest := Nat.le_trans (List.length_take_le' _ _) size
  have tracks := tracks_ofInput delivers
    (by rw [front]; exact (roomy_of_le within (Nat.le_refl _)).position) capacity order
  rw [front] at tracks
  have follows := follows_ofBytes (bytes.take cut) order
  dsimp only
  refine ⟨?_, ?_, (candid_ofInput input capacity order).pursue count, ?_⟩
  · rw [tracks.outcomes, follows.outcomes, ← Reading.outcomes_severed rfl, Reading.severed_start]
  · rw [follows.outcomes]
    refine Reading.outcomes_ne rfl ?_ count
    cases order <;> exact nofun
  · intro pieces native whole ahead
    rw [tracks.outcomes]
    refine Reading.answers_whole ?_ native whole ahead
    rw [Reading.start, native]

/-- A text that the stream fails in the middle of, behind a number that it is whole before. -/
theorem severed_input_text :
    let input := Input.ofBytes [0x05, 0xa2] (.paced (fun _ => 1) true (some (2, "reset")))
    let stream := ofInput input 1 .portable
    input.Delivers .errorInHandler ∧
      (stream.outcomes [.next, .next, .next]).map (·.answer) =
        [.ok (.item (.integer 5)), .error .errorInHandler, .error .errorInHandler] := by
  intro input stream
  have delivers : input.Delivers .errorInHandler :=
    Input.delivers_failing _ (fun _ => Nat.one_pos) true "reset"
  have front : input.pending = [0x05, 0xa2, 0x68, 0x69].take 2 := rfl
  have severed := (severed_input delivers front (by decide) 1 .portable 3).1
  exact ⟨delivers, congrArg (List.map (·.answer)) severed⟩

end Unpacker
end MessagePack
