import MessagePack.Proofs.UnpackingCalls
import MessagePack.Proofs.ItemExtents
import MessagePack.Unpack.ExtNumber

/-! What lasts through every call, whatever it answers. A handler may stop half way, so that a
request is not met; it has then brought what it has brought. Where a call does succeed, it has
read the input from its offset on. -/
namespace MessagePack

namespace Kind

variable {bytes : List UInt8} {count : Nat}

theorem ahead_of_extType (some : 0 < count)
    (clued : bytes ≠ [] → Clue.ofTag (.ofByte (bytes.headD 0)) = .extType count) :
    ahead bytes = if count ≤ bytes.length then .ofExtType (bytes.getD (count - 1) 0).toInt8
      else .notAnItem := by
  by_cases none : bytes = []
  · rw [ahead, if_pos none, none, if_neg (by simp; omega)]
  · rw [ahead_of_ne none, clued none]

/-- The bytes reach as far as the kind of an item depends on them. -/
def Told (bytes : List UInt8) : Prop :=
  bytes ≠ [] ∧ match Clue.ofTag (.ofByte (bytes.headD 0)) with
    | .known _ => True
    | .extType count | .sign count => count ≤ bytes.length

theorem Told.of_extType (reach : count ≤ bytes.length) (some : 0 < count)
    (clued : bytes ≠ [] → Clue.ofTag (.ofByte (bytes.headD 0)) = .extType count) : Told bytes := by
  have begun : bytes ≠ [] := List.ne_nil_of_length_pos (by omega)
  refine ⟨begun, ?_⟩
  rw [clued begun]
  exact reach

theorem Told.of_sign (reach : count ≤ bytes.length) (some : 0 < count)
    (clued : bytes ≠ [] → Clue.ofTag (.ofByte (bytes.headD 0)) = .sign count) : Told bytes := by
  have begun : bytes ≠ [] := List.ne_nil_of_length_pos (by omega)
  refine ⟨begun, ?_⟩
  rw [clued begun]
  exact reach

/-- Bytes behind those that tell the kind do not alter it. -/
theorem ahead_append (told : Told bytes) (more : List UInt8) :
    ahead (bytes ++ more) = ahead bytes := by
  obtain ⟨some, reach⟩ := told
  have head : (bytes ++ more).headD 0 = bytes.headD 0 := by
    obtain ⟨byte, others, rfl⟩ := List.exists_cons_of_ne_nil some
    rfl
  have getD {place : Nat} (inside : place < bytes.length) :
      (bytes ++ more).getD place 0 = bytes.getD place 0 := by
    rw [List.getD_eq_getElem?_getD, List.getElem?_append_left inside,
      List.getD_eq_getElem?_getD]
  have bounds := Clue.bounds (.ofByte (bytes.headD 0))
  rw [ahead_of_ne some, ahead_of_ne (List.append_ne_nil_of_left_ne_nil some more), head]
  cases clue : Clue.ofTag (.ofByte (bytes.headD 0)) with
  | known kind => rfl
  | extType count =>
    rw [clue] at reach bounds
    have longer : count ≤ (bytes ++ more).length := by
      rw [List.length_append]
      omega
    dsimp only
    rw [if_pos longer, if_pos reach, getD (by omega)]
  | sign count =>
    rw [clue] at reach bounds
    have longer : count ≤ (bytes ++ more).length := by
      rw [List.length_append]
      omega
    dsimp only
    rw [if_pos longer, if_pos reach, getD (by omega)]

theorem ahead_of_sign (some : 0 < count)
    (clued : bytes ≠ [] → Clue.ofTag (.ofByte (bytes.headD 0)) = .sign count) :
    ahead bytes = if count ≤ bytes.length then
        if bytes.getD 1 0 < 0x80 then .positiveInteger else .negativeInteger
      else .notAnItem := by
  by_cases none : bytes = []
  · rw [ahead, if_pos none, none, if_neg (by simp; omega)]
  · rw [ahead_of_ne none, clued none]

end Kind

/-- A condition on a buffer and its handler that every refill leaves true, and that makes the
buffer a window on the input. A refill moves nothing, and reports whether the bytes that were
asked for are there. A handler that has not brought them has `ended`. -/
structure Inlet.Maintains [Inlet σ] (input : List UInt8) (holds : Incoming → σ → Prop)
    (ended : σ → Prop) : Prop where
  window : ∀ {buffer handler}, holds buffer handler → ∃ pending, buffer.Window input pending
  /-- The cursor and the barrier are free to move within the window. -/
  within : ∀ {buffer other handler}, holds buffer handler → other.region = buffer.region →
    (∀ pending, buffer.Window input pending → other.Window input pending) → holds other handler
  refill : ∀ {buffer handler needed}, holds buffer handler → buffer.remaining < needed →
    let reply := Refiller.refill handler buffer needed
    holds reply.buffer reply.handler ∧ reply.buffer.offset = buffer.offset ∧
      reply.buffer.mark = buffer.mark ∧
      (reply.status = .ok () ↔ needed ≤ reply.buffer.remaining) ∧
      (needed ≤ Scan.largest → reply.status ≠ .ok () → ended reply.handler)

namespace Unpacker

/-- The condition still holds, and the barrier is where it was. -/
structure Stays (holds : Incoming → σ → Prop) (before after : Unpacker σ) : Prop where
  holds : holds after.buffer after.handler
  mark : after.buffer.mark = before.buffer.mark
  order : after.order = before.order

/-- Nothing has been read either, and no fault has been met. -/
structure Rests (holds : Incoming → σ → Prop) (before after : Unpacker σ) : Prop
    extends Stays holds before after where
  offset : after.offset = before.offset
  fault : after.fault = before.fault

variable {holds : Incoming → σ → Prop}

theorem Stays.trans {before between after : Unpacker σ} (first : Stays holds before between)
    (second : Stays holds between after) : Stays holds before after :=
  ⟨second.holds, second.mark.trans first.mark, second.order.trans first.order⟩

theorem Rests.trans {before between after : Unpacker σ} (first : Rests holds before between)
    (second : Rests holds between after) : Rests holds before after where
  toStays := first.toStays.trans second.toStays
  offset := second.offset.trans first.offset
  fault := second.fault.trans first.fault

theorem Stays.withLast {before after : Unpacker σ} {last : Option Decoded}
    (stays : Stays holds { before with last } after) : Stays holds before after :=
  ⟨stays.holds, stays.mark, stays.order⟩

theorem Stays.settle {unpacker : Unpacker σ} (held : holds unpacker.buffer unpacker.handler)
    (answer : Except Fault α) : Stays holds unpacker (unpacker.settle answer).2 := by
  cases answer <;> exact ⟨held, rfl, rfl⟩

theorem Stays.attempt {unpacker : Unpacker σ} (held : holds unpacker.buffer unpacker.handler)
    {call : Unpacker σ → Except Fault α × Unpacker σ}
    (stays : Stays holds unpacker (call unpacker).2) :
    Stays holds unpacker (unpacker.attempt call).2 := by
  simp only [Unpacker.attempt]
  split
  · exact ⟨held, rfl, rfl⟩
  · exact stays.trans (.settle stays.holds _)

end Unpacker

namespace Inlet.Maintains

open Unpacker

variable [Inlet σ] {input : List UInt8} {holds : Incoming → σ → Prop} {ended : σ → Prop}
  {unpacker : Unpacker σ}

/-! ### Requests -/

theorem demand (keeps : Maintains input holds ended) (held : holds unpacker.buffer unpacker.handler)
    (needed : Nat) (leading : Bool) :
    Rests holds unpacker (unpacker.demand needed leading).2 ∧
      ((unpacker.demand needed leading).1 = .ok () ↔
        needed ≤ (unpacker.demand needed leading).2.buffer.remaining) ∧
      (needed ≤ Scan.largest → (unpacker.demand needed leading).1 ≠ .ok () →
        ended (unpacker.demand needed leading).2.handler) := by
  simp only [Unpacker.demand]
  by_cases enough : needed ≤ unpacker.buffer.remaining
  · rw [if_pos enough]
    exact ⟨⟨⟨held, rfl, rfl⟩, rfl, rfl⟩, ⟨fun _ => enough, fun _ => rfl⟩,
      fun _ refused => absurd rfl refused⟩
  rw [if_neg enough]
  obtain ⟨held, offset, mark, met, spent⟩ := keeps.refill held (Nat.lt_of_not_le enough)
  have rests : Rests holds unpacker (unpacker.refill needed).2 :=
    ⟨⟨held, mark, rfl⟩, offset, rfl⟩
  have status : (unpacker.refill needed).1 = .ok () ↔
    needed ≤ (unpacker.refill needed).2.buffer.remaining := met
  have spent : needed ≤ Scan.largest → (unpacker.refill needed).1 ≠ .ok () →
    ended (unpacker.refill needed).2.handler := spent
  generalize unpacker.refill needed = result at rests status spent ⊢
  obtain ⟨answer, after⟩ := result
  cases answer with
  | ok _ =>
    have enough := status.mp rfl
    dsimp only at enough ⊢
    rw [if_pos enough]
    exact ⟨rests, ⟨fun _ => enough, fun _ => rfl⟩, fun _ refused => absurd rfl refused⟩
  | error fault =>
    have short : ¬needed ≤ after.buffer.remaining := fun enough => by cases status.mpr enough
    have gone : needed ≤ Scan.largest → ended after.handler := fun request =>
      spent request (by simp)
    cases fault <;>
      exact ⟨rests, ⟨by simp, fun enough => absurd enough short⟩, fun request _ => gone request⟩

/-- What is read is the input from the offset on. -/
theorem take (keeps : Maintains input holds ended) (held : holds unpacker.buffer unpacker.handler)
    (count : Nat) (leading : Bool) :
    Stays holds unpacker (unpacker.take count leading).2 ∧
      ∀ bytes, (unpacker.take count leading).1 = .ok bytes →
        count ≤ (input.drop unpacker.offset).length ∧
          bytes = (input.drop unpacker.offset).take count ∧
          (unpacker.take count leading).2.offset = unpacker.offset + count := by
  obtain ⟨rests, met, _⟩ := keeps.demand held count leading
  simp only [Unpacker.take]
  generalize unpacker.demand count leading = result at rests met ⊢
  obtain ⟨answer, after⟩ := result
  cases answer with
  | error fault => exact ⟨rests.toStays, by simp⟩
  | ok _ =>
    have enough := met.mp rfl
    dsimp only at enough rests ⊢
    obtain ⟨pending, window⟩ := keeps.window rests.holds
    have front := window.front_eq enough
    have length := window.length_drop
    have offset := rests.offset
    simp only [Unpacker.offset] at offset ⊢
    rw [offset] at front length
    refine ⟨⟨keeps.within rests.holds rfl fun _ window => window.advance enough, rests.mark,
      rests.order⟩, ?_⟩
    rintro _ ⟨⟩
    refine ⟨by omega, front, ?_⟩
    rw [window.offset_advance, offset]

theorem peek (keeps : Maintains input holds ended) (held : holds unpacker.buffer unpacker.handler)
    (count : Nat) :
    Rests holds unpacker (unpacker.peek count).2 ∧
      ((unpacker.peek count).1 = none → (unpacker.peek count).2.buffer.remaining < count ∧
        (count ≤ Scan.largest → ended (unpacker.peek count).2.handler)) ∧
      ∀ bytes, (unpacker.peek count).1 = some bytes →
        count ≤ (unpacker.peek count).2.buffer.remaining ∧
          bytes = (unpacker.peek count).2.buffer.unread.take count := by
  obtain ⟨rests, met, spent⟩ := keeps.demand held count true
  simp only [Unpacker.peek]
  generalize unpacker.demand count true = result at rests met spent ⊢
  obtain ⟨answer, after⟩ := result
  cases answer with
  | error fault =>
    refine ⟨rests, fun _ => ⟨?_, fun request => spent request (by simp)⟩, by simp⟩
    apply Nat.lt_of_not_le
    intro enough
    cases met.mpr enough
  | ok _ =>
    refine ⟨rests, by simp, ?_⟩
    rintro _ ⟨⟩
    have enough := met.mp rfl
    obtain ⟨pending, window⟩ := keeps.window rests.holds
    refine ⟨enough, ?_⟩
    have length : count ≤ after.buffer.unread.length := by
      rw [Incoming.unread, Region.length_slice_of_le window.stop_le]
      exact enough
    dsimp only [Unpacker.front]
    rw [window.front_eq enough, window.rest_eq, List.take_append_of_le_length length]

/-- What a scan makes of the input that lies there whole, it makes of it in a window. -/
theorem perform (keeps : Maintains input holds ended) (scan : Scan α)
    (held : holds unpacker.buffer unpacker.handler) :
    Stays holds unpacker (Unpacker.perform scan unpacker).2 ∧
      ∀ value, (Unpacker.perform scan unpacker).1 = .ok value →
        ∃ taken, (∀ closing, scan.read closing (input.drop unpacker.offset) = (.ok value, taken)) ∧
          (Unpacker.perform scan unpacker).2.offset = unpacker.offset + taken := by
  induction scan generalizing unpacker with
  | done value =>
    refine ⟨⟨held, rfl, rfl⟩, ?_⟩
    rintro _ ⟨⟩
    exact ⟨0, fun _ => rfl, rfl⟩
  | fail fault => exact ⟨⟨held, rfl, rfl⟩, by simp [Unpacker.perform]⟩
  | take count leading next ih =>
    obtain ⟨stays, read⟩ := keeps.take held count leading
    simp only [Unpacker.perform]
    generalize unpacker.take count leading = result at stays read ⊢
    obtain ⟨answer, after⟩ := result
    cases answer with
    | error fault => exact ⟨stays, by simp⟩
    | ok bytes =>
      obtain ⟨complete, rfl, moved⟩ := read bytes rfl
      obtain ⟨goesOn, rest⟩ := ih _ stays.holds
      refine ⟨stays.trans goesOn, fun value answered => ?_⟩
      obtain ⟨taken, others, offset⟩ := rest value answered
      dsimp only at moved
      refine ⟨count + taken, fun closing => ?_, ?_⟩
      · rw [Scan.read, if_pos complete, List.drop_drop, ← moved, others]
      · rw [offset, moved, Nat.add_assoc]

/-! ### Calls -/

theorem header (keeps : Maintains input holds ended)
    (held : holds unpacker.buffer unpacker.handler) :
    let opening := Unpacker.perform (Header.scan unpacker.order) { unpacker with last := none }
    Stays holds unpacker opening.2 ∧
      ∀ header, opening.1 = .ok header →
        ∃ taken, (∀ closing, (Header.scan unpacker.order).read closing
          (input.drop unpacker.offset) = (.ok header, taken)) ∧
          opening.2.offset = unpacker.offset + taken := by
  have same : holds ({ unpacker with last := none } : Unpacker σ).buffer unpacker.handler := held
  obtain ⟨stays, read⟩ := keeps.perform (Header.scan unpacker.order) same
  exact ⟨stays.withLast, read⟩

theorem nextHeader (keeps : Maintains input holds ended)
    (held : holds unpacker.buffer unpacker.handler) :
    Stays holds unpacker unpacker.nextHeader.2 := by
  apply Stays.attempt held
  obtain ⟨stays, _⟩ := keeps.header held
  generalize Unpacker.perform (Header.scan unpacker.order) { unpacker with last := none } =
    result at stays ⊢
  rcases result with ⟨fault | header, after⟩
  · exact stays
  · exact ⟨stays.holds, stays.mark, stays.order⟩

theorem readPayload (keeps : Maintains input holds ended)
    (held : holds unpacker.buffer unpacker.handler) (header : Header) :
    Stays holds unpacker (unpacker.readPayload header).2 ∧
      ∀ item, (unpacker.readPayload header).1 = .ok item →
        ∃ taken, (∀ closing, (Item.scanPayload header).read closing
          (input.drop unpacker.offset) = (.ok item, taken)) ∧
          (unpacker.readPayload header).2.offset = unpacker.offset + taken := by
  simp only [Unpacker.readPayload, Item.scanPayload]
  cases announced : header.payloadLength? with
  | none =>
    refine ⟨⟨held, rfl, rfl⟩, ?_⟩
    rintro _ ⟨⟩
    exact ⟨0, fun _ => rfl, rfl⟩
  | some length =>
    obtain ⟨stays, read⟩ := keeps.take held length false
    dsimp only
    generalize unpacker.take length false = result at stays read ⊢
    rcases result with ⟨fault | payload, after⟩
    · exact ⟨stays, by simp⟩
    · obtain ⟨complete, rfl, moved⟩ := read payload rfl
      refine ⟨⟨stays.holds, stays.mark, stays.order⟩, ?_⟩
      rintro _ ⟨⟩
      refine ⟨length, fun closing => ?_, moved⟩
      rw [Scan.read, if_pos complete]
      rfl

/-- An item that is read is what the input holds from the offset on. -/
theorem next (keeps : Maintains input holds ended) (held : holds unpacker.buffer unpacker.handler) :
    Stays holds unpacker unpacker.next.2 ∧
      ∀ item, unpacker.next.1 = .ok item →
        ∃ taken, (∀ closing, (Item.scan unpacker.order).read closing
          (input.drop unpacker.offset) = (.ok item, taken)) ∧
          unpacker.next.2.offset = unpacker.offset + taken := by
  obtain ⟨begins, header⟩ := keeps.header held
  constructor
  · apply Stays.attempt held
    generalize Unpacker.perform (Header.scan unpacker.order) { unpacker with last := none } =
    result at begins ⊢
    rcases result with ⟨fault | header, between⟩
    · exact begins
    · exact begins.trans (keeps.readPayload begins.holds header).1
  · intro item answered
    have called := attempt_eq_ok (show unpacker.next = (.ok item, unpacker.next.2) from
      Prod.ext answered rfl)
    generalize unpacker.next.2 = after at called ⊢
    generalize Unpacker.perform (Header.scan unpacker.order) { unpacker with last := none } =
    result at begins header called
    rcases result with ⟨fault | opened, between⟩
    · cases called
    obtain ⟨front, read, moved⟩ := header opened rfl
    obtain ⟨rest, others, offset⟩ :=
      (keeps.readPayload begins.holds opened).2 item (congrArg Prod.fst called)
    dsimp only at moved called offset others
    rw [called] at offset
    refine ⟨front + rest, fun closing => ?_, ?_⟩
    · change ((Header.scan unpacker.order).bind Item.scanPayload).read closing _ = _
      rw [Scan.read_bind, read]
      dsimp only
      rw [List.drop_drop, ← moved, others]
    · rw [offset, moved, Nat.add_assoc]

theorem nextAs (keeps : Maintains input holds ended) (held : holds unpacker.buffer unpacker.handler)
    (view : Item → Except Fault α) : Stays holds unpacker (unpacker.nextAs view).2 := by
  obtain ⟨stays, _⟩ := keeps.next held
  rw [Unpacker.nextAs]
  generalize unpacker.next = result at stays
  rcases result with ⟨fault | item, after⟩
  · exact stays
  · exact stays.trans (.settle stays.holds _)

theorem skipPending (keeps : Maintains input holds ended)
    (held : holds unpacker.buffer unpacker.handler) (pending : Nat) :
    Stays holds unpacker (unpacker.skipPending pending).2 := by
  induction pending, unpacker using Unpacker.skipPending.induct with
  | case1 unpacker =>
    rw [Unpacker.skipPending_zero]
    exact ⟨held, rfl, rfl⟩
  | case2 unpacker pending fault between failed =>
    obtain ⟨stays, _⟩ := keeps.perform (Extent.scan unpacker.order) held
    rw [Unpacker.skipPending_succ, failed]
    rw [failed] at stays
    exact stays
  | case3 unpacker pending items between stepped room ih =>
    obtain ⟨stays, _⟩ := keeps.perform (Extent.scan unpacker.order) held
    rw [Unpacker.skipPending_succ, stepped]
    rw [stepped] at stays
    dsimp only
    rw [if_pos room]
    exact stays.trans (ih stays.holds)
  | case4 unpacker pending items between stepped full =>
    obtain ⟨stays, _⟩ := keeps.perform (Extent.scan unpacker.order) held
    rw [Unpacker.skipPending_succ, stepped]
    rw [stepped] at stays
    dsimp only
    rw [if_neg full]
    exact stays

theorem skip (keeps : Maintains input holds ended) (held : holds unpacker.buffer unpacker.handler)
    (count : UInt64) : Stays holds unpacker (unpacker.skip count).2 := by
  have same : holds ({ unpacker with last := none } : Unpacker σ).buffer unpacker.handler := held
  exact Stays.attempt held (keeps.skipPending same count.toNat).withLast

omit [Inlet σ] in
theorem currentExt (held : holds unpacker.buffer unpacker.handler)
    (read : ByteOrder → List UInt8 → Except Fault α) :
    Stays holds unpacker (unpacker.currentExt read).2 := by
  apply Stays.attempt held
  split <;> exact ⟨held, rfl, rfl⟩

theorem rescan (keeps : Maintains input holds ended)
    (held : holds unpacker.buffer unpacker.handler) :
    Stays holds unpacker unpacker.rescan.2 := by
  apply Stays.attempt held
  split
  · exact ⟨held, rfl, rfl⟩
  · rename_i buffer back
    obtain ⟨pending, window⟩ := keeps.window held
    obtain ⟨_, _, same, region⟩ := window.rescan? back
    exact ⟨keeps.within held region fun _ window => (window.rescan? back).1, same, rfl⟩

theorem setBarrier (keeps : Maintains input holds ended)
    (held : holds unpacker.buffer unpacker.handler) :
    holds unpacker.setBarrier.buffer unpacker.setBarrier.handler :=
  keeps.within held rfl fun _ window => window.setBarrier

theorem clearBarrier (keeps : Maintains input holds ended)
    (held : holds unpacker.buffer unpacker.handler) :
    holds unpacker.clearBarrier.buffer unpacker.clearBarrier.handler :=
  keeps.within held rfl fun _ window => window.clearBarrier

/-! ### Looking ahead -/

theorem length_unread (keeps : Maintains input holds ended)
    (held : holds unpacker.buffer unpacker.handler) :
    unpacker.buffer.unread.length = unpacker.buffer.remaining := by
  obtain ⟨pending, window⟩ := keeps.window held
  rw [Incoming.unread, Region.length_slice_of_le window.stop_le]
  rfl

theorem headD_unread (keeps : Maintains input holds ended) {after : Unpacker σ}
    (held : holds unpacker.buffer unpacker.handler) (rests : Rests holds unpacker after)
    (some : unpacker.buffer.unread ≠ []) (still : after.buffer.unread ≠ []) :
    after.buffer.unread.headD 0 = unpacker.buffer.unread.headD 0 := by
  obtain ⟨pending, window⟩ := keeps.window held
  obtain ⟨later, moved⟩ := keeps.window rests.holds
  have same : after.buffer.unread ++ later = unpacker.buffer.unread ++ pending := by
    have offset := rests.offset
    simp only [Unpacker.offset] at offset
    rw [← window.rest_eq, ← moved.rest_eq, offset]
  obtain ⟨byte, bytes, opened⟩ := List.exists_cons_of_ne_nil some
  obtain ⟨first, others, begun⟩ := List.exists_cons_of_ne_nil still
  rw [opened, begun] at same ⊢
  exact (List.cons.inj same).1

theorem peekKind (keeps : Maintains input holds ended)
    (held : holds unpacker.buffer unpacker.handler)
    {count place : Nat} (request : count ≤ Scan.largest) (within : place < count)
    (tell : UInt8 → Kind) :
    let result := match unpacker.peek count with
      | (none, after) => (Kind.notAnItem, after)
      | (some bytes, after) => (tell (bytes.getD place 0), after)
    Rests holds unpacker result.2 ∧
      (result.1 = if count ≤ result.2.buffer.unread.length then
        tell (result.2.buffer.unread.getD place 0) else .notAnItem) ∧
      (result.2.buffer.unread.length < count → ended result.2.handler) := by
  obtain ⟨rests, missing, found⟩ := keeps.peek held count
  have length := keeps.length_unread rests.holds
  generalize unpacker.peek count = result at rests missing found length ⊢
  rcases result with ⟨_ | bytes, after⟩ <;> dsimp only at rests missing found length ⊢
  · obtain ⟨short, spent⟩ := missing rfl
    rw [if_neg (by omega)]
    exact ⟨rests, rfl, fun _ => spent request⟩
  · obtain ⟨enough, rfl⟩ := found bytes rfl
    rw [if_pos (by omega), List.getD_eq_getElem?_getD, List.getElem?_take_of_lt within,
      List.getD_eq_getElem?_getD]
    exact ⟨rests, rfl, by omega⟩

/-- What is answered is what the bytes tell that are unread then, and they tell all if there
are more to be had. -/
theorem lookAhead (keeps : Maintains input holds ended)
    (held : holds unpacker.buffer unpacker.handler) :
    Rests holds unpacker unpacker.lookAhead.2 ∧
      (unpacker.fault = none →
        unpacker.lookAhead.1 = .ahead unpacker.lookAhead.2.buffer.unread ∧
          (ended unpacker.lookAhead.2.handler ∨
            Kind.Told unpacker.lookAhead.2.buffer.unread)) := by
  simp only [Unpacker.lookAhead]
  cases clean : unpacker.fault with
  | some fault => exact ⟨⟨⟨held, rfl, rfl⟩, rfl, rfl⟩, by simp⟩
  | none =>
    obtain ⟨rests, missing, found⟩ := keeps.peek held 1
    have length := keeps.length_unread rests.holds
    rw [if_neg (by simp)]
    generalize unpacker.peek 1 = result at rests missing found length ⊢
    rcases result with ⟨_ | bytes, after⟩ <;> dsimp only at rests missing found length ⊢
    · obtain ⟨short, spent⟩ := missing rfl
      have none : after.buffer.unread = [] := List.eq_nil_of_length_eq_zero (by omega)
      rw [none, Kind.ahead, if_pos rfl]
      exact ⟨rests, fun _ => ⟨rfl, .inl (spent (by decide))⟩⟩
    obtain ⟨enough, rfl⟩ := found bytes rfl
    have some : after.buffer.unread ≠ [] := List.ne_nil_of_length_pos (by omega)
    have head : (after.buffer.unread.take 1).headD 0 = after.buffer.unread.headD 0 := by
      cases after.buffer.unread <;> simp
    rw [head]
    have bounds := Kind.Clue.bounds (.ofByte (after.buffer.unread.headD 0))
    -- The bytes that are peeked at again begin with the same tag.
    have tagged {last : Unpacker σ} (still : Rests holds after last)
        (begun : last.buffer.unread ≠ []) :
        Kind.Clue.ofTag (.ofByte (last.buffer.unread.headD 0)) =
          Kind.Clue.ofTag (.ofByte (after.buffer.unread.headD 0)) := by
      rw [keeps.headD_unread rests.holds still some begun]
    cases clue : Kind.Clue.ofTag (.ofByte (after.buffer.unread.headD 0)) with
    | known kind =>
      refine ⟨rests, fun _ => ⟨?_, .inr ⟨some, ?_⟩⟩⟩
      · rw [Kind.ahead_of_ne some, clue]
      · rw [clue]
        trivial
    | extType count =>
      rw [clue] at bounds tagged
      have request : count ≤ Scan.largest := Nat.le_trans bounds.2 (by decide)
      obtain ⟨still, kind, spent⟩ := keeps.peekKind rests.holds request
        (by omega : count - 1 < count) fun byte => .ofExtType byte.toInt8
      refine ⟨rests.trans still, fun _ => ⟨kind.trans ?_, ?_⟩⟩
      · symm
        exact Kind.ahead_of_extType (by omega) (tagged still)
      · refine (Classical.em _).imp spent fun reach => ?_
        exact .of_extType (Nat.le_of_not_lt reach) (by omega) (tagged still)
    | sign count =>
      rw [clue] at bounds tagged
      have request : count ≤ Scan.largest := Nat.le_trans bounds.2 (by decide)
      obtain ⟨still, kind, spent⟩ := keeps.peekKind rests.holds request
        (by omega : 1 < count)
        fun byte => if byte < 0x80 then .positiveInteger else .negativeInteger
      refine ⟨rests.trans still, fun _ => ⟨kind.trans ?_, ?_⟩⟩
      · symm
        exact Kind.ahead_of_sign (by omega) (tagged still)
      · refine (Classical.em _).imp spent fun reach => ?_
        exact .of_sign (Nat.le_of_not_lt reach) (by omega) (tagged still)

end Inlet.Maintains

/-! ### Runs -/

namespace Unpacker

/-- A call, or one that reads a number from the current extension. -/
inductive Request where
  | call (call : Call)
  | extInteger
  | extFloat
  | extDouble
  deriving DecidableEq, Repr

variable [Inlet σ]

def request (request : Request) (unpacker : Unpacker σ) : Unpacker σ :=
  match request with
  | .call call => (unpacker.call call).2
  | .extInteger => unpacker.extInteger.2
  | .extFloat => unpacker.extFloat.2
  | .extDouble => unpacker.extDouble.2

def pursue : List Request → Unpacker σ → Unpacker σ
  | [], unpacker => unpacker
  | request :: requests, unpacker => (unpacker.request request).pursue requests

omit [Inlet σ] in
theorem attempt_of_fault {unpacker : Unpacker σ} {fault : Fault}
    (failed : unpacker.fault = some fault) (call : Unpacker σ → Except Fault α × Unpacker σ) :
    unpacker.attempt call = (.error fault, unpacker) := by
  rw [Unpacker.attempt, failed]

theorem fault_request {unpacker : Unpacker σ} {fault : Fault}
    (failed : unpacker.fault = some fault) (request : Request) :
    (unpacker.request request).fault = some fault := by
  have attempt {α : Type} (call : Unpacker σ → Except Fault α × Unpacker σ) :
      (unpacker.attempt call).2.fault = some fault := by
    rw [attempt_of_fault failed]
    exact failed
  cases request with
  | extInteger | extFloat | extDouble => exact attempt _
  | call call =>
    cases call with
    | next => exact show unpacker.next.2.fault = some fault from attempt _
    | nextHeader => exact show unpacker.nextHeader.2.fault = some fault from attempt _
    | skip count => exact show (unpacker.skip count).2.fault = some fault from attempt _
    | rescan => exact show unpacker.rescan.2.fault = some fault from attempt _
    | nextAs view =>
      have refused : unpacker.next = (.error fault, unpacker) := attempt_of_fault failed _
      simp only [Unpacker.request, Unpacker.call, Unpacker.nextAs, refused]
      exact failed
    | lookAhead =>
      simp only [Unpacker.request, Unpacker.call, Unpacker.lookAhead, failed]
      exact failed
    | _ => exact failed

theorem clean_of_request {unpacker : Unpacker σ} {request : Request}
    (clean : (unpacker.request request).fault = none) : unpacker.fault = none := by
  cases failed : unpacker.fault with
  | none => rfl
  | some fault => cases clean.symm.trans (fault_request failed request)

theorem clean_of_pursue {unpacker : Unpacker σ} {requests : List Request}
    (clean : (unpacker.pursue requests).fault = none) : unpacker.fault = none := by
  induction requests generalizing unpacker with
  | nil => exact clean
  | cons request requests ih => exact clean_of_request (ih clean)

/-- Where the barrier was set that stands after a request. -/
def markAfter (request : Request) (unpacker : Unpacker σ) (mark : Option Nat) : Option Nat :=
  match request with
  | .call .setBarrier => some unpacker.offset
  | .call .clearBarrier => none
  | _ => mark

def marks : List Request → Unpacker σ → (mark : Option Nat) → Option Nat
  | [], _, mark => mark
  | request :: requests, unpacker, mark =>
    (unpacker.request request).marks requests (unpacker.markAfter request mark)

end Unpacker

namespace Inlet.Maintains

open Unpacker

variable [Inlet σ] {input : List UInt8} {holds : Incoming → σ → Prop} {ended : σ → Prop}
  {unpacker : Unpacker σ}

/-- What one request preserves. -/
theorem request (keeps : Maintains input holds ended)
    (held : holds unpacker.buffer unpacker.handler)
    (request : Request) :
    holds (unpacker.request request).buffer (unpacker.request request).handler ∧
      (unpacker.request request).buffer.mark =
        unpacker.markAfter request unpacker.buffer.mark ∧
      (unpacker.request request).order = unpacker.order := by
  have split {after : Unpacker σ} (stays : Stays holds unpacker after) :
      holds after.buffer after.handler ∧ after.buffer.mark = unpacker.buffer.mark ∧
        after.order = unpacker.order :=
    ⟨stays.holds, stays.mark, stays.order⟩
  cases request with
  | extInteger | extFloat | extDouble => exact split (currentExt held _)
  | call call =>
    cases call with
    | next => exact split (keeps.next held).1
    | nextHeader => exact split (keeps.nextHeader held)
    | nextAs view => exact split (keeps.nextAs held _)
    | skip count => exact split (keeps.skip held count)
    | lookAhead => exact split (keeps.lookAhead held).1.toStays
    | setBarrier =>
      obtain ⟨pending, window⟩ := keeps.window held
      exact ⟨keeps.setBarrier held, Incoming.mark_setBarrier _, rfl⟩
    | clearBarrier => exact ⟨keeps.clearBarrier held, rfl, rfl⟩
    | rescan => exact split (keeps.rescan held)
    | status => exact split ⟨held, rfl, rfl⟩

theorem pursue (keeps : Maintains input holds ended) (held : holds unpacker.buffer unpacker.handler)
    (requests : List Request) :
    holds (unpacker.pursue requests).buffer (unpacker.pursue requests).handler ∧
      (unpacker.pursue requests).buffer.mark =
        unpacker.marks requests unpacker.buffer.mark ∧
      (unpacker.pursue requests).order = unpacker.order := by
  induction requests generalizing unpacker with
  | nil => exact ⟨held, rfl, rfl⟩
  | cons first requests ih =>
    obtain ⟨stays, mark, order⟩ := keeps.request held first
    obtain ⟨ends, marks, orders⟩ := ih stays
    rw [mark] at marks
    exact ⟨ends, marks, orders.trans order⟩

end Inlet.Maintains
end MessagePack
