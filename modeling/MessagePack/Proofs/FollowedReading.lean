import MessagePack.Proofs.WholeReading
import MessagePack.Proofs.InputWindow

/-! Unpackers that follow a reading. A handler is a feed if it brings the bytes that it has
pending, all of them and in their order, before it says that there are no more. However
these bytes arrive, and wherever the window on them lies, an unpacker over a feed answers
what the reading of the whole input answers, and stays at the same position. -/
namespace MessagePack

/-- A reply that leaves the buffer a window on the input, at the same place in it, and that
has got the bytes asked for if the input has them. -/
structure Inlet.Reply.BringsPending (reply : Inlet.Reply σ) (buffer : Incoming) (needed : Nat)
    (input pending : List UInt8) (closing : Fault) : Prop where
  window : reply.buffer.Window input pending
  offset : reply.buffer.offset = buffer.offset
  mark : reply.buffer.mark = buffer.mark
  ceiling : reply.buffer.region.ceiling = buffer.region.ceiling
  status : reply.status =
    if needed ≤ (input.drop buffer.offset).length then .ok () else .error closing
  enough : reply.status = .ok () → needed ≤ reply.buffer.remaining

theorem Inlet.Reply.BringsPending.of_same {reply : Inlet.Reply σ} {moved buffer : Incoming}
    {needed : Nat} {input pending : List UInt8} {closing : Fault}
    (brings : reply.BringsPending moved needed input pending closing)
    (offset : moved.offset = buffer.offset) (mark : moved.mark = buffer.mark)
    (ceiling : moved.region.ceiling = buffer.region.ceiling) :
    reply.BringsPending buffer needed input pending closing where
  window := brings.window
  offset := brings.offset.trans offset
  mark := brings.mark.trans mark
  ceiling := brings.ceiling.trans ceiling
  status := by rw [← offset]; exact brings.status
  enough := brings.enough

/-- Handlers of which it is known what they are still to bring. -/
class Feed (σ : Type) [Inlet σ] where
  pending : σ → List UInt8
  /-- The handler brings all that is pending, and says `closing` at the end of the input. -/
  Faithful (handler : σ) (input : List UInt8) (closing : Fault) (ceiling : Nat) : Prop
  refill_brings {handler : σ} {buffer : Incoming} {input : List UInt8} {closing : Fault}
      {needed : Nat} (window : buffer.Window input (pending handler))
      (faithful : Faithful handler input closing buffer.region.ceiling)
      (short : buffer.remaining < needed) (request : needed ≤ Scan.largest) :
    let reply := Refiller.refill handler buffer needed
    reply.BringsPending buffer needed input (pending reply.handler) closing ∧
      Faithful reply.handler input closing buffer.region.ceiling

namespace Unpacker

variable [Inlet σ] [Feed σ]

omit [Feed σ] in
theorem skipPending_zero (unpacker : Unpacker σ) :
    unpacker.skipPending 0 = (.ok .whole, unpacker) := by
  rw [skipPending]

omit [Feed σ] in
theorem skipPending_succ (pending : Nat) (unpacker : Unpacker σ) :
    unpacker.skipPending (pending + 1) =
      match perform (Extent.scan unpacker.order) unpacker with
      | (.error fault, after) => (.error fault, after)
      | (.ok items, after) =>
        if pending + items < UInt64.size then after.skipPending (pending + items)
        else (.ok .overflow, after) := by
  rw [skipPending]
  split <;> rename_i step <;> rw [step]

/-- The unpacker stands where the reading stands. -/
structure Follows (unpacker : Unpacker σ) (reading : Reading) : Prop where
  window : unpacker.buffer.Window reading.input (Feed.pending unpacker.handler)
  faithful : Feed.Faithful unpacker.handler reading.input reading.closing
    unpacker.buffer.region.ceiling
  offset : unpacker.offset = reading.position
  mark : unpacker.buffer.mark = reading.mark
  fault : unpacker.fault = reading.fault
  order : unpacker.order = reading.order

/-- Two results with the same answer, the unpacker of the one following the reading of the
other. -/
def Agrees (result : α × Unpacker σ) (expected : α × Reading) : Prop :=
  result.1 = expected.1 ∧ result.2.Follows expected.2

theorem Agrees.split {result : α × Unpacker σ} {expected : α × Reading}
    (agrees : Agrees result expected) :
    ∃ after, result = (expected.1, after) ∧ after.Follows expected.2 := by
  obtain ⟨same, follows⟩ := agrees
  exact ⟨result.2, Prod.ext same rfl, follows⟩

namespace Follows

variable {unpacker : Unpacker σ} {reading : Reading}

theorem rest_eq (follows : unpacker.Follows reading) :
    reading.rest = reading.input.drop unpacker.buffer.offset :=
  congrArg reading.input.drop follows.offset.symm

theorem remaining_le (follows : unpacker.Follows reading) :
    unpacker.buffer.remaining ≤ reading.rest.length := by
  rw [follows.rest_eq, follows.window.length_drop]
  exact Nat.le_add_right _ _

theorem withLast (follows : unpacker.Follows reading) (last : Option Decoded) :
    ({ unpacker with last } : Unpacker σ).Follows reading :=
  ⟨follows.window, follows.faithful, follows.offset, follows.mark, follows.fault, follows.order⟩

theorem withFault (follows : unpacker.Follows reading) (fault : Option Fault)
    (last : Option Decoded) :
    ({ unpacker with fault, last } : Unpacker σ).Follows { reading with fault } :=
  ⟨follows.window, follows.faithful, follows.offset, follows.mark, rfl, follows.order⟩

/-! ### Requests -/

theorem demand (follows : unpacker.Follows reading) {needed : Nat}
    (request : needed ≤ Scan.largest) (leading : Bool) :
    (unpacker.demand needed leading).2.Follows reading ∧
      if needed ≤ reading.rest.length then
        (unpacker.demand needed leading).1 = .ok () ∧
          needed ≤ (unpacker.demand needed leading).2.buffer.remaining
      else
        (unpacker.demand needed leading).1 =
          .error (Scan.shortfall reading.closing leading) := by
  simp only [Unpacker.demand]
  by_cases enough : needed ≤ unpacker.buffer.remaining
  · rw [if_pos enough, if_pos (Nat.le_trans enough follows.remaining_le)]
    exact ⟨follows, rfl, enough⟩
  rw [if_neg enough]
  obtain ⟨served, faithful⟩ := Feed.refill_brings follows.window follows.faithful
    (Nat.lt_of_not_le enough) request
  have after : (unpacker.refill needed).2.Follows reading := {
    window := served.window
    faithful := by rw [← served.ceiling] at faithful; exact faithful
    offset := served.offset.trans follows.offset
    mark := served.mark.trans follows.mark
    fault := follows.fault
    order := follows.order }
  have status : (unpacker.refill needed).1 =
      if needed ≤ reading.rest.length then .ok () else .error reading.closing := by
    rw [follows.rest_eq]
    exact served.status
  have room : (unpacker.refill needed).1 = .ok () →
    needed ≤ (unpacker.refill needed).2.buffer.remaining := served.enough
  generalize unpacker.refill needed = result at after status room
  obtain ⟨answer, between⟩ := result
  dsimp only at after status room ⊢
  by_cases complete : needed ≤ reading.rest.length
  · rw [if_pos complete] at status ⊢
    subst status
    simp only [if_pos (room rfl)]
    exact ⟨after, trivial, room rfl⟩
  · rw [if_neg complete] at status ⊢
    subst status
    simp only [Scan.shortfall]
    cases reading.closing <;> exact ⟨after, rfl⟩

theorem take_of_le (follows : unpacker.Follows reading) {count : Nat}
    (request : count ≤ Scan.largest) (leading : Bool) (complete : count ≤ reading.rest.length) :
    ∃ after, unpacker.take count leading = (.ok (reading.rest.take count), after) ∧
      after.Follows (reading.advance count) := by
  obtain ⟨after, outcome⟩ := follows.demand request leading
  rw [if_pos complete] at outcome
  obtain ⟨granted, enough⟩ := outcome
  simp only [Unpacker.take]
  generalize unpacker.demand count leading = result at after granted enough
  obtain ⟨answer, between⟩ := result
  dsimp only at after granted enough
  subst granted
  refine ⟨{ between with buffer := between.buffer.advance count }, ?_, ?_⟩
  · have rest : reading.rest = reading.input.drop between.buffer.offset := after.rest_eq
    rw [rest, ← after.window.front_eq enough]
    rfl
  · exact {
      window := after.window.advance enough
      faithful := after.faithful
      offset := (after.window.offset_advance count).trans (congrArg (· + count) after.offset)
      mark := after.mark
      fault := after.fault
      order := after.order }

theorem take_of_lt (follows : unpacker.Follows reading) {count : Nat}
    (request : count ≤ Scan.largest) (leading : Bool) (missing : reading.rest.length < count) :
    ∃ after, unpacker.take count leading =
        (.error (Scan.shortfall reading.closing leading), after) ∧ after.Follows reading := by
  obtain ⟨after, outcome⟩ := follows.demand request leading
  rw [if_neg (Nat.not_le_of_lt missing)] at outcome
  simp only [Unpacker.take]
  generalize unpacker.demand count leading = result at after outcome
  obtain ⟨answer, between⟩ := result
  dsimp only at after outcome
  subst outcome
  exact ⟨between, rfl, after⟩

theorem peek (follows : unpacker.Follows reading) (count : Nat)
    (request : count ≤ Scan.largest) :
    Agrees (unpacker.peek count)
      (if count ≤ reading.rest.length then some (reading.rest.take count) else none, reading) := by
  obtain ⟨after, outcome⟩ := follows.demand request true
  simp only [Unpacker.peek]
  generalize unpacker.demand count true = result at after outcome
  obtain ⟨answer, between⟩ := result
  dsimp only at after outcome
  by_cases complete : count ≤ reading.rest.length
  · rw [if_pos complete] at outcome ⊢
    obtain ⟨rfl, enough⟩ := outcome
    have front := after.window.front_eq enough
    rw [← after.rest_eq] at front
    exact ⟨congrArg some front, after⟩
  · rw [if_neg complete] at outcome ⊢
    subst outcome
    exact ⟨rfl, after⟩

theorem perform {post : α → Prop} {scan : Scan α} (follows : unpacker.Follows reading)
    (obeys : scan.Obeys Scan.largest post) :
    Agrees (Unpacker.perform scan unpacker) (reading.perform scan) := by
  induction scan generalizing unpacker reading with
  | done value => exact ⟨rfl, follows⟩
  | fail fault => exact ⟨rfl, follows⟩
  | take count leading next ih =>
    obtain ⟨request, continues⟩ := obeys
    rw [Unpacker.perform]
    by_cases complete : count ≤ reading.rest.length
    · obtain ⟨after, taken, stays⟩ := follows.take_of_le request leading complete
      rw [taken, Reading.perform_take_of_le leading next complete]
      exact ih _ stays (continues _ (List.length_take_of_le complete))
    · have missing := Nat.lt_of_not_le complete
      obtain ⟨after, refused, stays⟩ := follows.take_of_lt request leading missing
      rw [refused, Reading.perform_take_of_lt leading next missing]
      exact ⟨rfl, stays⟩

theorem performOrder {post : α → Prop} {scan : ByteOrder → Scan α}
    (follows : unpacker.Follows reading) (obeys : ∀ order, (scan order).Obeys Scan.largest post) :
    Agrees (Unpacker.perform (scan unpacker.order) unpacker)
      (reading.perform (scan reading.order)) := by
  have agrees := follows.perform (obeys reading.order)
  rwa [← follows.order] at agrees ⊢

/-! ### Calls -/

theorem settle (follows : unpacker.Follows reading) (answer : Except Fault α) :
    Agrees (unpacker.settle answer) (reading.settle answer) := by
  cases answer with
  | ok value => exact ⟨rfl, follows⟩
  | error fault =>
    refine ⟨rfl, ?_⟩
    dsimp only [Unpacker.settle, Reading.settle]
    rw [follows.fault]
    exact follows.withFault _ none

theorem attempt (follows : unpacker.Follows reading)
    {call : Unpacker σ → Except Fault α × Unpacker σ}
    {expected : Reading → Except Fault α × Reading}
    (agrees : Agrees (call unpacker) (expected reading)) :
    Agrees (unpacker.attempt call) (reading.attempt expected) := by
  simp only [Unpacker.attempt, Reading.attempt]
  rw [follows.fault]
  cases reading.fault with
  | some fault => exact ⟨rfl, follows⟩
  | none =>
    obtain ⟨same, stays⟩ := agrees
    dsimp only
    rw [same]
    exact stays.settle _

theorem nextHeader (follows : unpacker.Follows reading) :
    Agrees unpacker.nextHeader reading.nextHeader := by
  apply follows.attempt
  obtain ⟨after, read, stays⟩ :=
    ((follows.withLast none).performOrder Header.obeys_scan).split
  dsimp only at read ⊢
  rw [read]
  generalize reading.perform (Header.scan reading.order) = expected at stays ⊢
  rcases expected with ⟨fault | header, after'⟩
  · exact ⟨rfl, stays⟩
  · exact ⟨rfl, stays.withLast _⟩

theorem readPayload (follows : unpacker.Follows reading) {header : Header} (fits : header.Fits) :
    Agrees (unpacker.readPayload header)
      (reading.perform <| match header.payloadLength? with
        | none => .done (header.withPayload [])
        | some length => .take length false fun payload => .done (header.withPayload payload)) := by
  have payload {header : Header} {length : Nat} (announced : header.payloadLength? = some length)
      (request : length ≤ Scan.largest) :
      Agrees (unpacker.readPayload header)
        (reading.perform
          (.take length false fun payload => .done (header.withPayload payload))) := by
    simp only [Unpacker.readPayload]
    rw [announced]
    dsimp only
    by_cases complete : length ≤ reading.rest.length
    · obtain ⟨after, taken, stays⟩ := follows.take_of_le request false complete
      rw [taken, Reading.perform_take_of_le _ _ complete]
      exact ⟨rfl, stays.withLast _⟩
    · have missing := Nat.lt_of_not_le complete
      obtain ⟨after, refused, stays⟩ := follows.take_of_lt request false missing
      rw [refused, Reading.perform_take_of_lt _ _ missing]
      exact ⟨rfl, stays⟩
  cases header with
  | str length | bin length | ext type length => exact payload rfl (Nat.le_of_lt fits)
  | _ => exact ⟨rfl, follows.withLast _⟩

theorem next (follows : unpacker.Follows reading) : Agrees unpacker.next reading.next := by
  apply follows.attempt
  obtain ⟨after, read, stays⟩ :=
    ((follows.withLast none).performOrder Header.obeys_scan).split
  have fits {header : Header} {after : Reading}
      (answered : reading.perform (Header.scan reading.order) = (.ok header, after)) :
      header.Fits := by
    obtain ⟨same, _⟩ := Prod.mk.inj answered
    exact (Header.obeys_scan reading.order).read (Prod.ext same rfl)
  change Agrees _ (reading.perform ((Header.scan reading.order).bind _))
  rw [Reading.perform_bind]
  dsimp only at read ⊢
  rw [read]
  generalize reading.perform (Header.scan reading.order) = expected at stays fits ⊢
  rcases expected with ⟨fault | header, after'⟩
  · exact ⟨rfl, stays⟩
  · exact stays.readPayload (fits rfl)

theorem nextAs (follows : unpacker.Follows reading) (view : Item → Except Fault α) :
    Agrees (unpacker.nextAs view) (reading.nextAs view) := by
  obtain ⟨after, read, stays⟩ := follows.next.split
  rw [Unpacker.nextAs, Reading.nextAs, read]
  generalize reading.next = expected at stays ⊢
  rcases expected with ⟨fault | item, after'⟩
  · exact ⟨rfl, stays⟩
  · exact stays.settle _

theorem skipPending (follows : unpacker.Follows reading) (pending : Nat) :
    Agrees (unpacker.skipPending pending) (reading.skipPending pending) := by
  induction pending, unpacker using Unpacker.skipPending.induct generalizing reading with
  | case1 unpacker =>
    rw [Unpacker.skipPending_zero, Reading.skipPending_zero]
    exact ⟨rfl, follows⟩
  | case2 unpacker pending fault between failed =>
    have agrees := follows.performOrder Extent.obeys_scan
    rw [failed] at agrees
    rw [Unpacker.skipPending_succ, Reading.skipPending_succ, failed]
    generalize reading.perform (Extent.scan reading.order) = expected at agrees ⊢
    obtain ⟨answer, after⟩ := expected
    obtain ⟨rfl, stays⟩ := agrees
    exact ⟨rfl, stays⟩
  | case3 unpacker pending items between stepped room ih =>
    have agrees := follows.performOrder Extent.obeys_scan
    rw [stepped] at agrees
    rw [Unpacker.skipPending_succ, Reading.skipPending_succ, stepped]
    generalize reading.perform (Extent.scan reading.order) = expected at agrees ⊢
    obtain ⟨answer, after⟩ := expected
    obtain ⟨rfl, stays⟩ := agrees
    dsimp only
    rw [if_pos room, if_pos room]
    exact ih stays
  | case4 unpacker pending items between stepped full =>
    have agrees := follows.performOrder Extent.obeys_scan
    rw [stepped] at agrees
    rw [Unpacker.skipPending_succ, Reading.skipPending_succ, stepped]
    generalize reading.perform (Extent.scan reading.order) = expected at agrees ⊢
    obtain ⟨answer, after⟩ := expected
    obtain ⟨rfl, stays⟩ := agrees
    dsimp only
    rw [if_neg full, if_neg full]
    exact ⟨rfl, stays⟩

theorem skip (follows : unpacker.Follows reading) (count : UInt64) :
    Agrees (unpacker.skip count) (reading.skip count) :=
  follows.attempt ((follows.withLast none).skipPending count.toNat)

/-- What a byte ahead tells about the kind of an item does not depend on the bytes behind. -/
theorem peekKind (follows : unpacker.Follows reading) {count place : Nat}
    (request : count ≤ Scan.largest) (within : place < count) (tell : UInt8 → Kind) :
    Agrees
      (match unpacker.peek count with
        | (none, after) => (Kind.notAnItem, after)
        | (some bytes, after) => (tell (bytes.getD place 0), after))
      (if count ≤ reading.rest.length then tell (reading.rest.getD place 0) else .notAnItem,
        reading) := by
  obtain ⟨after, peeked, stays⟩ := (follows.peek count request).split
  rw [peeked]
  by_cases complete : count ≤ reading.rest.length
  · have byte : (reading.rest.take count).getD place 0 = reading.rest.getD place 0 := by
      rw [List.getD_eq_getElem?_getD, List.getElem?_take_of_lt within,
        List.getD_eq_getElem?_getD]
    simp only [if_pos complete, byte]
    exact ⟨rfl, stays⟩
  · simp only [if_neg complete]
    exact ⟨rfl, stays⟩

/-- A clue needs no more of the input than a tag and the widest field behind it. -/
theorem lookAhead (follows : unpacker.Follows reading) :
    Agrees unpacker.lookAhead (reading.lookAhead, reading) := by
  simp only [Unpacker.lookAhead, Reading.lookAhead]
  rw [follows.fault]
  by_cases stopped : reading.fault.isSome
  · rw [if_pos stopped, if_pos stopped]
    exact ⟨rfl, follows⟩
  rw [if_neg stopped, if_neg stopped]
  obtain ⟨after, peeked, stays⟩ := (follows.peek 1 (by decide)).split
  rw [peeked]
  by_cases opened : 1 ≤ reading.rest.length
  · have some : reading.rest ≠ [] := List.ne_nil_of_length_pos opened
    have head : (reading.rest.take 1).headD 0 = reading.rest.headD 0 := by
      cases reading.rest <;> simp
    have bounds := Kind.Clue.bounds (.ofByte (reading.rest.headD 0))
    simp only [if_pos opened, Kind.ahead_of_ne some, head]
    cases clue : Kind.Clue.ofTag (.ofByte (reading.rest.headD 0)) with
    | known kind => exact ⟨rfl, stays⟩
    | extType count =>
      rw [clue] at bounds
      have request : count ≤ Scan.largest := Nat.le_trans bounds.2 (by decide)
      exact stays.peekKind request (by omega) fun byte => .ofExtType byte.toInt8
    | sign count =>
      rw [clue] at bounds
      have request : count ≤ Scan.largest := Nat.le_trans bounds.2 (by decide)
      exact stays.peekKind request (by omega) fun byte =>
        if byte < 0x80 then .positiveInteger else .negativeInteger
  · have none : reading.rest = [] := List.eq_nil_of_length_eq_zero (by omega)
    rw [if_neg opened, Kind.ahead, if_pos none]
    exact ⟨rfl, stays⟩

theorem setBarrier (follows : unpacker.Follows reading) :
    unpacker.setBarrier.Follows reading.setBarrier where
  window := follows.window.setBarrier
  faithful := follows.faithful
  offset := follows.offset
  mark := (Incoming.mark_setBarrier _).trans (congrArg some follows.offset)
  fault := follows.fault
  order := follows.order

theorem clearBarrier (follows : unpacker.Follows reading) :
    unpacker.clearBarrier.Follows reading.clearBarrier where
  window := follows.window.clearBarrier
  faithful := follows.faithful
  offset := follows.offset
  mark := rfl
  fault := follows.fault
  order := follows.order

theorem rescan (follows : unpacker.Follows reading) :
    Agrees unpacker.rescan reading.rescan := by
  apply follows.attempt
  rw [← follows.mark]
  cases back : unpacker.buffer.rescan? with
  | none =>
    rw [Incoming.Window.mark_eq_none_iff.mpr back]
    exact ⟨rfl, follows⟩
  | some buffer =>
    obtain ⟨window, marked, same, region⟩ := follows.window.rescan? back
    rw [marked]
    exact ⟨rfl, {
      window := window
      faithful := by rw [region]; exact follows.faithful
      offset := rfl
      mark := same.trans marked
      fault := follows.fault
      order := follows.order }⟩

end Follows
end Unpacker
end MessagePack
