import MessagePack.Proofs.CallInvariants

/-! Two unpackers that differ in their handlers alone. If the handlers bring the same whenever
they are asked, no request tells the unpackers apart. With one handler on both sides this says
what a condition on a buffer and its handler must withstand to last through every request. -/
namespace MessagePack

/-- A tie between two handlers of one buffer that lasts while items are read. -/
structure Inlet.Match [Inlet σ] [Inlet τ] (rel : Incoming → σ → τ → Prop) : Prop where
  advance : ∀ {buffer handler other count}, rel buffer handler other → count ≤ buffer.remaining →
    rel (buffer.advance count) handler other
  refill : ∀ {buffer handler other needed}, rel buffer handler other →
    buffer.remaining < needed →
    let reply := Refiller.refill handler buffer needed
    let answer := Refiller.refill other buffer needed
    answer.status = reply.status ∧ answer.buffer = reply.buffer ∧
      rel reply.buffer reply.handler answer.handler

/-- A condition that lasts while items are read. -/
structure Inlet.Lasts [Inlet σ] (holds : Incoming → σ → Prop) : Prop where
  advance : ∀ {buffer handler count}, holds buffer handler → count ≤ buffer.remaining →
    holds (buffer.advance count) handler
  refill : ∀ {buffer handler needed}, holds buffer handler → buffer.remaining < needed →
    holds (Refiller.refill handler buffer needed).buffer (Refiller.refill handler buffer needed).handler

/-- What a handler brings is what another would bring that it can be taken for. -/
def Inlet.Passes [Inlet σ] [Inlet τ] (guise : σ → τ) : Prop :=
  ∀ handler buffer needed,
    let reply := Refiller.refill handler buffer needed
    Refiller.refill (guise handler) buffer needed = ⟨reply.status, guise reply.handler, reply.buffer⟩

theorem Inlet.Lasts.along [Inlet σ] [Inlet τ] {holds : Incoming → σ → Prop} {guise : σ → τ}
    (lasts : Lasts holds) (passes : Passes guise) :
    Match fun buffer handler other => other = guise handler ∧ holds buffer handler where
  advance tied enough := ⟨tied.1, lasts.advance tied.2 enough⟩
  refill {buffer handler _ needed} tied lack := by
    obtain ⟨rfl, held⟩ := tied
    rw [passes handler buffer needed]
    exact ⟨rfl, rfl, rfl, lasts.refill held lack⟩

theorem Inlet.Lasts.ties [Inlet σ] {holds : Incoming → σ → Prop} (lasts : Lasts holds) :
    Match fun buffer handler other => other = id handler ∧ holds buffer handler :=
  lasts.along fun _ _ _ => rfl

namespace Unpacker

variable {rel : Incoming → σ → τ → Prop} {unpacker : Unpacker σ} {twin : Unpacker τ}

/-- The same unpacker but for the handler. -/
structure Matches (rel : Incoming → σ → τ → Prop) (unpacker : Unpacker σ) (twin : Unpacker τ) :
    Prop where
  buffer : twin.buffer = unpacker.buffer
  order : twin.order = unpacker.order
  fault : twin.fault = unpacker.fault
  last : twin.last = unpacker.last
  rel : rel unpacker.buffer unpacker.handler twin.handler

theorem Matches.self {holds : Incoming → σ → Prop}
    (held : holds unpacker.buffer unpacker.handler) :
    unpacker.Matches (fun buffer handler other => other = id handler ∧ holds buffer handler)
      unpacker :=
  ⟨rfl, rfl, rfl, rfl, rfl, held⟩

/-- The same answer, and the same unpacker but for the handler. -/
def Agree (rel : Incoming → σ → τ → Prop) (result : α × Unpacker σ) (answer : α × Unpacker τ) :
    Prop :=
  answer.1 = result.1 ∧ result.2.Matches rel answer.2

theorem Agree.split {result : α × Unpacker σ} {answer : α × Unpacker τ}
    (agree : Agree rel result answer) :
    ∃ value after other, result = (value, after) ∧ answer = (value, other) ∧
      after.Matches rel other := by
  obtain ⟨value, after⟩ := result
  obtain ⟨_, other⟩ := answer
  obtain ⟨rfl, stays⟩ := agree
  exact ⟨_, after, other, rfl, rfl, stays⟩

namespace Matches

theorem withLast (same : unpacker.Matches rel twin) (last : Option Decoded) :
    ({ unpacker with last } : Unpacker σ).Matches rel { twin with last } :=
  ⟨same.buffer, same.order, same.fault, rfl, same.rel⟩

theorem item_eq (same : unpacker.Matches rel twin) : twin.item? = unpacker.item? := by
  simp only [item?, same.last, same.buffer]

theorem settle (same : unpacker.Matches rel twin) (answer : Except Fault α) :
    Agree rel (unpacker.settle answer) (twin.settle answer) := by
  cases answer with
  | ok value => exact ⟨rfl, same⟩
  | error fault =>
    refine ⟨rfl, same.buffer, same.order, ?_, rfl, same.rel⟩
    simp only [Unpacker.settle, same.fault]

theorem attempt (same : unpacker.Matches rel twin)
    {call : Unpacker σ → Except Fault α × Unpacker σ}
    {other : Unpacker τ → Except Fault α × Unpacker τ}
    (agree : Agree rel (call unpacker) (other twin)) :
    Agree rel (unpacker.attempt call) (twin.attempt other) := by
  simp only [Unpacker.attempt, same.fault]
  split
  · exact ⟨rfl, same⟩
  · obtain ⟨answer, stays⟩ := agree
    rw [answer]
    exact stays.settle _

theorem currentExt (same : unpacker.Matches rel twin)
    (read : ByteOrder → List UInt8 → Except Fault α) :
    Agree rel (unpacker.currentExt read) (twin.currentExt read) := by
  refine same.attempt ?_
  rw [same.item_eq, same.order]
  split <;> exact ⟨rfl, same⟩

theorem move (same : unpacker.Matches rel twin) {buffer : Incoming}
    (held : rel buffer unpacker.handler twin.handler) :
    ({ unpacker with buffer } : Unpacker σ).Matches rel { twin with buffer } :=
  ⟨rfl, same.order, same.fault, same.last, held⟩

theorem rescan (same : unpacker.Matches rel twin)
    (back : ∀ buffer, unpacker.buffer.rescan? = some buffer →
      rel buffer unpacker.handler twin.handler) :
    Agree rel unpacker.rescan twin.rescan := by
  refine same.attempt ?_
  rw [same.buffer]
  split
  · exact ⟨rfl, same⟩
  · rename_i buffer found
    exact ⟨rfl, (same.move (back buffer found)).withLast none⟩

end Matches
end Unpacker

namespace Inlet.Match

open Unpacker

variable [Inlet σ] [Inlet τ] {rel : Incoming → σ → τ → Prop} {unpacker : Unpacker σ}
  {twin : Unpacker τ}

theorem demand (ties : Match rel) (same : unpacker.Matches rel twin) (needed : Nat)
    (leading : Bool) :
    Agree rel (unpacker.demand needed leading) (twin.demand needed leading) := by
  simp only [Unpacker.demand, Unpacker.refill, same.buffer]
  by_cases enough : needed ≤ unpacker.buffer.remaining
  · rw [if_pos enough, if_pos enough]
    exact ⟨rfl, same⟩
  rw [if_neg enough, if_neg enough]
  obtain ⟨status, buffer, tied⟩ := ties.refill same.rel (Nat.lt_of_not_le enough)
  rw [status, buffer]
  have refilled : ({ unpacker with
      handler := (Refiller.refill unpacker.handler unpacker.buffer needed).handler
      buffer := (Refiller.refill unpacker.handler unpacker.buffer needed).buffer } :
        Unpacker σ).Matches rel { twin with
      handler := (Refiller.refill twin.handler unpacker.buffer needed).handler
      buffer := (Refiller.refill unpacker.handler unpacker.buffer needed).buffer } :=
    ⟨rfl, same.order, same.fault, same.last, tied⟩
  cases (Refiller.refill unpacker.handler unpacker.buffer needed).status with
  | ok _ =>
    dsimp only
    split <;> exact ⟨rfl, refilled⟩
  | error fault => cases fault <;> exact ⟨rfl, refilled⟩

theorem take (ties : Match rel) (same : unpacker.Matches rel twin) (count : Nat)
    (leading : Bool) : Agree rel (unpacker.take count leading) (twin.take count leading) := by
  obtain ⟨fault | _, after, other, made, remade, stays⟩ := (ties.demand same count leading).split
  · simp only [Unpacker.take, made, remade]
    exact ⟨rfl, stays⟩
  · simp only [Unpacker.take, made, remade, front, stays.buffer]
    exact ⟨rfl, stays.move (ties.advance stays.rel (remaining_of_demand made))⟩

theorem peek (ties : Match rel) (same : unpacker.Matches rel twin) (count : Nat) :
    Agree rel (unpacker.peek count) (twin.peek count) := by
  obtain ⟨fault | _, after, other, made, remade, stays⟩ := (ties.demand same count true).split
  · simp only [Unpacker.peek, made, remade]
    exact ⟨rfl, stays⟩
  · simp only [Unpacker.peek, made, remade, front, stays.buffer]
    exact ⟨rfl, stays⟩

theorem perform (ties : Match rel) (same : unpacker.Matches rel twin) (scan : Scan α) :
    Agree rel (Unpacker.perform scan unpacker) (Unpacker.perform scan twin) := by
  induction scan generalizing unpacker twin with
  | done value => exact ⟨rfl, same⟩
  | fail fault => exact ⟨rfl, same⟩
  | take count leading next ih =>
    obtain ⟨fault | bytes, after, other, made, remade, stays⟩ :=
      (ties.take same count leading).split
    · simp only [Unpacker.perform, made, remade]
      exact ⟨rfl, stays⟩
    · simp only [Unpacker.perform, made, remade]
      exact ih bytes stays

theorem header (ties : Match rel) (same : unpacker.Matches rel twin) :
    Agree rel (Unpacker.perform (Header.scan unpacker.order) { unpacker with last := none })
      (Unpacker.perform (Header.scan twin.order) { twin with last := none }) := by
  rw [congrArg Header.scan same.order]
  exact ties.perform (same.withLast none) _

theorem nextHeader (ties : Match rel) (same : unpacker.Matches rel twin) :
    Agree rel unpacker.nextHeader twin.nextHeader := by
  refine same.attempt ?_
  obtain ⟨fault | header, after, other, made, remade, stays⟩ := (ties.header same).split
  · simp only [made, remade]
    exact ⟨rfl, stays⟩
  · simp only [made, remade]
    exact ⟨rfl, stays.withLast _⟩

theorem readPayload (ties : Match rel) (same : unpacker.Matches rel twin) (header : Header) :
    Agree rel (unpacker.readPayload header) (twin.readPayload header) := by
  simp only [Unpacker.readPayload]
  cases header.payloadLength? with
  | none => exact ⟨rfl, same.withLast _⟩
  | some length =>
    obtain ⟨fault | payload, after, other, made, remade, stays⟩ :=
      (ties.take same length false).split
    · simp only [made, remade]
      exact ⟨rfl, stays⟩
    · have place : other.offset = after.offset := congrArg Incoming.offset stays.buffer
      simp only [made, remade, place]
      exact ⟨rfl, stays.withLast _⟩

theorem next (ties : Match rel) (same : unpacker.Matches rel twin) :
    Agree rel unpacker.next twin.next := by
  refine same.attempt ?_
  obtain ⟨fault | header, after, other, made, remade, stays⟩ := (ties.header same).split
  · simp only [made, remade]
    exact ⟨rfl, stays⟩
  · simp only [made, remade]
    exact ties.readPayload stays header

theorem nextAs (ties : Match rel) (same : unpacker.Matches rel twin)
    (view : Item → Except Fault α) : Agree rel (unpacker.nextAs view) (twin.nextAs view) := by
  obtain ⟨fault | item, after, other, made, remade, stays⟩ := (ties.next same).split
  · simp only [Unpacker.nextAs, made, remade]
    exact ⟨rfl, stays⟩
  · simp only [Unpacker.nextAs, made, remade]
    exact stays.settle _

theorem skipPending (ties : Match rel) (same : unpacker.Matches rel twin) (pending : Nat) :
    Agree rel (unpacker.skipPending pending) (twin.skipPending pending) := by
  fun_induction Unpacker.skipPending pending unpacker generalizing twin with
  | case1 unpacker =>
    rw [skipPending_zero]
    exact ⟨rfl, same⟩
  | case2 unpacker pending fault after stepped =>
    have step := ties.perform same (Extent.scan unpacker.order)
    rw [stepped, ← same.order] at step
    obtain ⟨_, _, other, made, remade, stays⟩ := step.split
    cases made
    rw [skipPending_succ, remade]
    exact ⟨rfl, stays⟩
  | case3 unpacker pending items after stepped room ih =>
    have step := ties.perform same (Extent.scan unpacker.order)
    rw [stepped, ← same.order] at step
    obtain ⟨_, _, other, made, remade, stays⟩ := step.split
    cases made
    rw [skipPending_succ, remade]
    dsimp only
    rw [if_pos room]
    exact ih stays
  | case4 unpacker pending items after stepped full =>
    have step := ties.perform same (Extent.scan unpacker.order)
    rw [stepped, ← same.order] at step
    obtain ⟨_, _, other, made, remade, stays⟩ := step.split
    cases made
    rw [skipPending_succ, remade]
    dsimp only
    rw [if_neg full]
    exact ⟨rfl, stays⟩

theorem skip (ties : Match rel) (same : unpacker.Matches rel twin) (count : UInt64) :
    Agree rel (unpacker.skip count) (twin.skip count) :=
  same.attempt (ties.skipPending (same.withLast none) count.toNat)

theorem peekKind (ties : Match rel) (same : unpacker.Matches rel twin) (count : Nat)
    (tell : List UInt8 → Kind) :
    Agree rel
      (match unpacker.peek count with
        | (none, unpacker) => (.notAnItem, unpacker)
        | (some bytes, unpacker) => (tell bytes, unpacker))
      (match twin.peek count with
        | (none, twin) => (.notAnItem, twin)
        | (some bytes, twin) => (tell bytes, twin)) := by
  obtain ⟨found, after, other, made, remade, stays⟩ := (ties.peek same count).split
  rw [made, remade]
  cases found <;> exact ⟨rfl, stays⟩

theorem lookAhead (ties : Match rel) (same : unpacker.Matches rel twin) :
    Agree rel unpacker.lookAhead twin.lookAhead := by
  simp only [Unpacker.lookAhead, same.fault]
  split
  · exact ⟨rfl, same⟩
  obtain ⟨found, after, other, made, remade, stays⟩ := (ties.peek same 1).split
  rw [made, remade]
  cases found with
  | none => exact ⟨rfl, stays⟩
  | some bytes =>
    dsimp only
    split
    · exact ⟨rfl, stays⟩
    · exact ties.peekKind stays _ _
    · exact ties.peekKind stays _ _

end Inlet.Match

namespace Unpacker

variable [Inlet σ] [Inlet τ] {rel : Incoming → σ → τ → Prop} {unpacker : Unpacker σ}
  {twin : Unpacker τ}

/-- What one request preserves, where the tie lasts though the barrier be set, cleared or gone
back to. -/
theorem Matches.request (same : unpacker.Matches rel twin) (ties : Inlet.Match rel)
    (request : Request)
    (set : request = .call .setBarrier → ∀ {buffer handler other}, rel buffer handler other →
      rel buffer.setBarrier handler other)
    (clear : ∀ {buffer handler other}, rel buffer handler other →
      rel buffer.clearBarrier handler other)
    (back : ∀ {buffer handler other found}, rel buffer handler other →
      buffer.rescan? = some found → rel found handler other) :
    (unpacker.request request).Matches rel (twin.request request) := by
  cases request with
  | extInteger | extFloat | extDouble => exact (same.currentExt _).2
  | call call =>
    cases call with
    | next => exact (ties.next same).2
    | nextHeader => exact (ties.nextHeader same).2
    | nextAs view => exact (ties.nextAs same _).2
    | skip count => exact (ties.skip same count).2
    | lookAhead => exact (ties.lookAhead same).2
    | setBarrier =>
      simp only [Unpacker.request, Unpacker.call, Unpacker.setBarrier, same.buffer]
      exact same.move (set rfl same.rel)
    | clearBarrier =>
      simp only [Unpacker.request, Unpacker.call, Unpacker.clearBarrier, same.buffer]
      exact same.move (clear same.rel)
    | rescan => exact (same.rescan fun _ => back same.rel).2
    | status => exact same

theorem Matches.pursue (same : unpacker.Matches rel twin) (ties : Inlet.Match rel)
    (requests : List Request)
    (set : .call .setBarrier ∈ requests → ∀ {buffer handler other}, rel buffer handler other →
      rel buffer.setBarrier handler other)
    (clear : ∀ {buffer handler other}, rel buffer handler other →
      rel buffer.clearBarrier handler other)
    (back : ∀ {buffer handler other found}, rel buffer handler other →
      buffer.rescan? = some found → rel found handler other) :
    (unpacker.pursue requests).Matches rel (twin.pursue requests) := by
  induction requests generalizing unpacker twin with
  | nil => exact same
  | cons request requests ih =>
    refine ih (same.request ties request (fun sets => ?_) clear back) fun later => ?_
    · exact set (by rw [sets]; exact List.mem_cons_self)
    · exact set (List.mem_cons_of_mem request later)

end Unpacker
end MessagePack
