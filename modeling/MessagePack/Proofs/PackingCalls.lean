import MessagePack.Pack.Memory
import MessagePack.Proofs.ClaimedRoom
import MessagePack.Proofs.PackedBytes

/-! Sequences of calls to a packer, and the text that they write. A draft is the text with
nothing between it and the writer: no buffer, no handler, no room to run out of. A channel
is a handler that loses and reorders nothing; what a packer over a channel has passed on
and what it still holds are together the text of the draft. -/
namespace MessagePack

namespace Packer

inductive Call where
  | pack (value : Value)
  | insert (bytes : List UInt8)
  | flush
  | setCompatible (compatible : Bool)
  | setBarrier
  | clearBarrier
  /-- Writes over pinned bytes, if there are so many. -/
  | patch (position : Nat) (bytes : List UInt8)
  deriving DecidableEq, Repr

variable [Outlet σ]

def call (call : Call) (packer : Packer σ) : Status × Packer σ :=
  match call with
  | .pack value => packer.pack value
  | .insert bytes => packer.insert bytes
  | .flush => packer.flush
  | .setCompatible compatible => (.ok (), packer.setCompatible compatible)
  | .setBarrier => (.ok (), { packer with buffer := packer.buffer.setBarrier })
  | .clearBarrier => (.ok (), { packer with buffer := packer.buffer.clearBarrier })
  | .patch position bytes =>
    (.ok (), { packer with buffer := (packer.buffer.patch? position bytes).getD packer.buffer })

def run : List Call → Packer σ → List Status × Packer σ
  | [], packer => ([], packer)
  | call :: calls, packer =>
    let (answer, packer) := packer.call call
    let (answers, packer) := packer.run calls
    (answer :: answers, packer)

omit [Outlet σ] in
/-- The same packer with an allocator that grants as much as `ceiling` bytes. -/
def withCeiling (packer : Packer σ) (ceiling : Nat) : Packer σ :=
  { packer with buffer := packer.buffer.withCeiling ceiling }

end Packer

structure Draft where
  text : List UInt8
  /-- Where the barrier stands. -/
  mark : Option Nat
  dialect : Dialect
  /-- The first fault, if there was one. -/
  fault : Option Fault
  deriving DecidableEq, Repr

namespace Draft

def start (dialect : Dialect) : Draft where
  text := []
  mark := none
  dialect := dialect
  fault :=
    match dialect.order.verify with
    | .ok _ => none
    | .error fault => some fault.toFault

def attempt (draft : Draft) (answer : Except Fault (List UInt8)) : Status × Draft :=
  match draft.fault with
  | some fault => (.error fault, draft)
  | none =>
    match answer with
    | .ok bytes => (.ok (), { draft with text := draft.text ++ bytes })
    | .error fault => (.error fault, { draft with fault := some fault })

def pinned (draft : Draft) : List UInt8 := (draft.mark.map draft.text.drop).getD []

def patch (draft : Draft) (position : Nat) (bytes : List UInt8) : Draft :=
  let mark := draft.mark.getD draft.text.length
  if position + bytes.length ≤ draft.text.length - mark then
    { draft with
      text := draft.text.take (mark + position) ++ bytes ++
        draft.text.drop (mark + position + bytes.length) }
  else draft

def call (call : Packer.Call) (draft : Draft) : Status × Draft :=
  match call with
  | .pack value => draft.attempt (value.encode draft.dialect)
  | .insert bytes => draft.attempt (.ok bytes)
  | .flush => draft.attempt (.ok [])
  | .setCompatible compatible =>
    (.ok (), { draft with dialect := { draft.dialect with compatible } })
  | .setBarrier => (.ok (), { draft with mark := some draft.text.length })
  | .clearBarrier => (.ok (), { draft with mark := none })
  | .patch position bytes => (.ok (), draft.patch position bytes)

def run : List Packer.Call → Draft → List Status × Draft
  | [], draft => ([], draft)
  | call :: calls, draft =>
    let (answer, draft) := draft.call call
    let (answers, draft) := draft.run calls
    (answer :: answers, draft)

theorem length_call_le (call : Packer.Call) (draft : Draft) :
    draft.text.length ≤ (draft.call call).2.text.length := by
  have attempt (answer : Except Fault (List UInt8)) :
      draft.text.length ≤ (draft.attempt answer).2.text.length := by
    simp only [Draft.attempt]
    split
    · exact Nat.le_refl _
    · cases answer <;> simp
  cases call with
  | pack value => exact attempt _
  | insert bytes => exact attempt _
  | flush => exact attempt _
  | setCompatible | setBarrier | clearBarrier => exact Nat.le_refl _
  | patch position bytes =>
    simp only [Draft.call, patch]
    split
    · simp only [List.length_append, List.length_take, List.length_drop]
      omega
    · exact Nat.le_refl _

theorem call_flush (draft : Draft) : (draft.call .flush).2 = draft := by
  simp only [Draft.call, attempt]
  split
  · rfl
  · rename_i clean
    rw [List.append_nil]

theorem fault_call {draft : Draft} {fault : Fault} (failed : draft.fault = some fault)
    (call : Packer.Call) : (draft.call call).2.fault = some fault := by
  have attempt (answer : Except Fault (List UInt8)) :
      (draft.attempt answer).2.fault = some fault := by
    simp only [Draft.attempt]
    rw [failed]
    exact failed
  cases call with
  | pack value => exact attempt _
  | insert bytes => exact attempt _
  | flush => exact attempt _
  | patch position bytes =>
    simp only [Draft.call, patch]
    split <;> exact failed
  | _ => exact failed

theorem run_append (draft : Draft) (front back : List Packer.Call) :
    (draft.run (front ++ back)).2 = ((draft.run front).2.run back).2 := by
  induction front generalizing draft with
  | nil => rfl
  | cons call front ih => exact ih _

theorem call_eq_ok {draft : Draft} {call : Packer.Call} (clean : (draft.call call).2.fault = none) :
    draft.fault = none ∧ (draft.call call).1 = .ok () := by
  have before : draft.fault = none := by
    cases failed : draft.fault with
    | none => rfl
    | some fault => rw [fault_call failed] at clean; cases clean
  refine ⟨before, ?_⟩
  have attempt {answer : Except Fault (List UInt8)}
      (clean : (draft.attempt answer).2.fault = none) :
      (draft.attempt answer).1 = .ok () := by
    simp only [Draft.attempt] at clean ⊢
    rw [before] at clean ⊢
    cases answer with
    | ok bytes => rfl
    | error fault => cases clean
  cases call with
  | pack value => exact attempt clean
  | insert bytes => exact attempt clean
  | flush => exact attempt clean
  | _ => rfl

theorem run_eq_ok {draft : Draft} {calls : List Packer.Call}
    (clean : (draft.run calls).2.fault = none) :
    draft.fault = none ∧ (draft.run calls).1 = calls.map fun _ => .ok () := by
  induction calls generalizing draft with
  | nil => exact ⟨clean, rfl⟩
  | cons call calls ih =>
    have rest : ((draft.call call).2.run calls).2.fault = none := clean
    obtain ⟨between, answers⟩ := ih rest
    obtain ⟨before, answer⟩ := call_eq_ok between
    refine ⟨before, ?_⟩
    simp only [Draft.run, List.map_cons]
    rw [answer, answers]

theorem run_filter_flush (calls : List Packer.Call) (draft : Draft) :
    (draft.run (calls.filter (· ≠ .flush))).2 = (draft.run calls).2 := by
  induction calls generalizing draft with
  | nil => rfl
  | cons call calls ih =>
    by_cases flushes : call = .flush
    · subst flushes
      simp only [ne_eq, not_true_eq_false, decide_false, Bool.false_eq_true, not_false_eq_true,
        List.filter_cons_of_neg, Draft.run, call_flush]
      exact ih draft
    · rw [List.filter_cons_of_pos (by simpa using flushes)]
      exact ih _

theorem length_run_le (calls : List Packer.Call) (draft : Draft) :
    draft.text.length ≤ (draft.run calls).2.text.length := by
  induction calls generalizing draft with
  | nil => exact Nat.le_refl _
  | cons call calls ih => exact Nat.le_trans (draft.length_call_le call) (ih _)

end Draft

/-- A text of this length can be held whole: twice its length is a position, and as much
as that is granted. -/
def Granted (ceiling length : Nat) : Prop := 2 * length ≤ Position.modulus ∧ 2 * length ≤ ceiling

instance (ceiling length : Nat) : Decidable (Granted ceiling length) :=
  inferInstanceAs (Decidable (_ ∧ _))

theorem Granted.mono {ceiling longer length : Nat} (granted : Granted ceiling longer)
    (shorter : length ≤ longer) : Granted ceiling length := by
  simp only [Granted] at *
  omega

/-- A reply after which the bytes passed on and those still held make the same text. -/
structure Outlet.Reply.KeepsText (reply : Outlet.Reply σ) (buffer : Outgoing)
    (before after : List UInt8) : Prop where
  sound : reply.buffer.Sound
  front : reply.buffer.start = buffer.start
  ceiling : reply.buffer.region.ceiling = buffer.region.ceiling
  text : after ++ reply.buffer.packed = before ++ buffer.packed
  mark : reply.buffer.mark.map (after.length + ·) = buffer.mark.map (before.length + ·)

/-- Handlers of which it is known what they have passed on. -/
class Channel (σ : Type) [Outlet σ] where
  delivered : σ → List UInt8
  /-- The handler passes on all that it is given. -/
  Faithful (handler : σ) : Prop
  makeRoom {handler : σ} {buffer : Outgoing} {needed : Nat} (sound : buffer.Sound)
      (front : buffer.start = 0) (faithful : Faithful handler) (short : buffer.remaining < needed) :
    let reply := Outlet.makeRoom handler buffer needed
    reply.KeepsText buffer (delivered handler) (delivered reply.handler) ∧ Faithful reply.handler ∧
      (reply.status = .ok () ∧ needed ≤ reply.buffer.remaining ∨
        reply.status = .error .allocationError ∧
          ¬Granted buffer.region.ceiling (buffer.packed.length + needed))
  flush {handler : σ} {buffer : Outgoing} (sound : buffer.Sound) (faithful : Faithful handler)
      (can : Outlet.canFlush handler = true) :
    let reply := Outlet.flush handler buffer
    reply.KeepsText buffer (delivered handler) (delivered reply.handler) ∧ Faithful reply.handler ∧
      reply.status = .ok () ∧ Outlet.canWrite reply.handler = Outlet.canWrite handler ∧
      (buffer.barrier = none → reply.buffer.packed = [])
  write {handler : σ} (buffer : Outgoing) (bytes : List UInt8) (faithful : Faithful handler)
      (can : Outlet.canWrite handler = true) :
    let reply := Outlet.write handler buffer bytes
    reply.status = .ok () ∧ reply.buffer = buffer ∧ Faithful reply.handler ∧
      delivered reply.handler = delivered handler ++ bytes

namespace Packer

variable [Outlet σ] [Channel σ]

/-- What the packer has passed on and what it holds are together the text of the draft. -/
structure Holds (packer : Packer σ) (draft : Draft) (ceiling : Nat) : Prop where
  sound : packer.buffer.Sound
  front : packer.buffer.start = 0
  ceiling : packer.buffer.region.ceiling = ceiling
  faithful : Channel.Faithful packer.handler
  text : Channel.delivered packer.handler ++ packer.buffer.packed = draft.text
  mark : packer.buffer.mark.map ((Channel.delivered packer.handler).length + ·) = draft.mark
  dialect : packer.dialect = draft.dialect
  fault : packer.fault = draft.fault

/-- The packer does what the draft does, unless the text is more than is granted. -/
def Agrees (ceiling : Nat) (result : α × Packer σ) (expected : α × Draft) : Prop :=
  result.1 = expected.1 ∧ result.2.Holds expected.2 ceiling ∨
  result.2.fault = some .allocationError ∧ ¬Granted ceiling expected.2.text.length

namespace Holds

variable {packer : Packer σ} {draft : Draft} {ceiling : Nat}

theorem pinned_eq (holds : packer.Holds draft ceiling) : packer.buffer.pinned = draft.pinned := by
  rw [holds.sound.pinned_eq, Draft.pinned, ← holds.mark, ← holds.text]
  cases packer.buffer.mark with
  | none => rfl
  | some mark => simp [List.drop_append]

theorem settle (holds : packer.Holds draft ceiling) {reply : Outlet.Reply σ}
    (keeps : reply.KeepsText packer.buffer (Channel.delivered packer.handler)
      (Channel.delivered reply.handler)) (faithful : Channel.Faithful reply.handler) :
    (packer.settle reply).2.Holds draft ceiling where
  sound := keeps.sound
  front := keeps.front.trans holds.front
  ceiling := keeps.ceiling.trans holds.ceiling
  faithful := faithful
  text := keeps.text.trans holds.text
  mark := keeps.mark.trans holds.mark
  dialect := holds.dialect
  fault := holds.fault

/-- Bytes go behind the text, wherever the handler has made room for them. -/
theorem emit (holds : packer.Holds draft ceiling) (bytes : List UInt8) :
    (packer.emit bytes).1 = .ok () ∧
      (packer.emit bytes).2.Holds { draft with text := draft.text ++ bytes } ceiling ∨
    (packer.emit bytes).1 = .error .allocationError ∧
      ¬Granted ceiling (draft.text ++ bytes).length := by
  have append {packer : Packer σ} (holds : packer.Holds draft ceiling)
      (room : bytes.length ≤ packer.buffer.remaining) :
      ({ packer with buffer := packer.buffer.append bytes } : Packer σ).Holds
        { draft with text := draft.text ++ bytes } ceiling := {
    sound := holds.sound.append room
    front := holds.front
    ceiling := (Region.ceiling_overwrite ..).trans holds.ceiling
    faithful := holds.faithful
    text := by rw [holds.sound.packed_append room, ← List.append_assoc, holds.text]
    mark := holds.mark
    dialect := holds.dialect
    fault := holds.fault }
  simp only [emit_eq, reserve]
  by_cases enough : bytes.length ≤ packer.buffer.remaining
  · rw [if_pos enough]
    exact .inl ⟨rfl, append holds enough⟩
  rw [if_neg enough]
  obtain ⟨keeps, faithful, made⟩ := Channel.makeRoom holds.sound holds.front holds.faithful
    (Nat.lt_of_not_le enough)
  have settled := holds.settle keeps faithful
  rcases made with ⟨status, room⟩ | ⟨status, refused⟩
  · simp only [Packer.settle] at *
    rw [status] at *
    dsimp only at *
    rw [if_pos room]
    exact .inl ⟨rfl, append settled room⟩
  · apply Or.inr
    simp only [Packer.settle]
    rw [status]
    refine ⟨rfl, fun granted => refused ?_⟩
    rw [holds.ceiling]
    apply granted.mono
    rw [← holds.text, List.length_append, List.length_append]
    omega

theorem attempt (holds : packer.Holds draft ceiling) {call : Packer σ → Status × Packer σ}
    {answer : Except Fault (List UInt8)}
    (refused : ∀ fault, answer = .error fault → call packer = (.error fault, packer))
    (done : ∀ bytes, answer = .ok bytes →
      (call packer).1 = .ok () ∧
        (call packer).2.Holds { draft with text := draft.text ++ bytes } ceiling ∨
      (call packer).1 = .error .allocationError ∧
        ¬Granted ceiling (draft.text ++ bytes).length) :
    Agrees ceiling (packer.attempt call) (draft.attempt answer) := by
  simp only [Packer.attempt, Draft.attempt]
  rw [holds.fault]
  cases clean : draft.fault with
  | some fault => exact .inl ⟨rfl, holds⟩
  | none =>
    rw [clean] at done
    cases answer with
    | error fault =>
      rw [refused fault rfl]
      exact .inl ⟨rfl, { holds with fault := rfl }⟩
    | ok bytes =>
      have outcome := done bytes rfl
      dsimp only
      generalize call packer = result at outcome
      obtain ⟨status, after⟩ := result
      dsimp only at outcome
      rcases outcome with ⟨rfl, stays⟩ | ⟨rfl, short⟩
      · exact .inl ⟨rfl, stays⟩
      · exact .inr ⟨rfl, short⟩

theorem pack (holds : packer.Holds draft ceiling) (value : Value) :
    Agrees ceiling (packer.pack value) (draft.call (.pack value)) := by
  rw [pack_eq]
  refine holds.attempt ?_ ?_
  · intro fault refused
    rw [holds.dialect, refused]
  · intro bytes encoded
    rw [holds.dialect, encoded]
    exact holds.emit bytes

theorem insert (holds : packer.Holds draft ceiling) (bytes : List UInt8) :
    Agrees ceiling (packer.insert bytes) (draft.call (.insert bytes)) := by
  apply holds.attempt (by rintro fault ⟨⟩)
  rintro _ ⟨⟩
  by_cases direct : Outlet.canFlush packer.handler ∧ Outlet.canWrite packer.handler ∧
      packer.buffer.barrier = none
  · obtain ⟨canFlush, canWrite, unmarked⟩ := direct
    obtain ⟨keeps, faithful, status, can, empty⟩ :=
      Channel.flush holds.sound holds.faithful canFlush
    have flushed := holds.settle keeps faithful
    have empty := empty unmarked
    rw [if_pos ⟨canFlush, canWrite, unmarked⟩]
    simp only [Packer.settle] at flushed ⊢
    rw [status]
    generalize Outlet.flush packer.handler packer.buffer = reply at flushed empty can
    obtain ⟨answered, same, faithful, delivered⟩ := Channel.write reply.buffer bytes
      flushed.faithful (can.trans canWrite)
    have text := flushed.text
    dsimp only at text ⊢
    rw [empty, List.append_nil] at text
    refine .inl ⟨answered, ?_⟩
    have unmarked : reply.buffer.mark = none ∧ draft.mark = none := by
      have mark := flushed.mark
      have none : draft.mark = none := by rw [← holds.mark, Outgoing.mark, unmarked]; rfl
      rw [none, Option.map_eq_none_iff] at mark
      exact ⟨mark, none⟩
    exact {
      sound := by rw [same]; exact flushed.sound
      front := by rw [same]; exact flushed.front
      ceiling := by rw [same]; exact flushed.ceiling
      faithful := faithful
      text := by rw [same, empty, delivered, text, List.append_nil]
      mark := by rw [same, unmarked.1, unmarked.2]; rfl
      dialect := holds.dialect
      fault := holds.fault }
  · rw [if_neg direct]
    exact holds.emit bytes

theorem flush (holds : packer.Holds draft ceiling) (can : Outlet.canFlush packer.handler = true) :
    Agrees ceiling packer.flush (draft.call .flush) := by
  apply holds.attempt (by rintro fault ⟨⟩)
  rintro _ ⟨⟩
  obtain ⟨keeps, faithful, status, _⟩ := Channel.flush holds.sound holds.faithful can
  rw [if_pos can, List.append_nil]
  exact .inl ⟨status, holds.settle keeps faithful⟩

theorem setBarrier (holds : packer.Holds draft ceiling) :
    ({ packer with buffer := packer.buffer.setBarrier } : Packer σ).Holds
      { draft with mark := some draft.text.length } ceiling where
  sound := holds.sound.setBarrier
  front := holds.front
  ceiling := holds.ceiling
  faithful := holds.faithful
  text := holds.text
  mark := by
    rw [holds.sound.mark_setBarrier, ← holds.text, List.length_append]
    rfl
  dialect := holds.dialect
  fault := holds.fault

theorem clearBarrier (holds : packer.Holds draft ceiling) :
    ({ packer with buffer := packer.buffer.clearBarrier } : Packer σ).Holds
      { draft with mark := none } ceiling where
  sound := holds.sound.clearBarrier
  front := holds.front
  ceiling := holds.ceiling
  faithful := holds.faithful
  text := holds.text
  mark := rfl
  dialect := holds.dialect
  fault := holds.fault

theorem setCompatible (holds : packer.Holds draft ceiling) (compatible : Bool) :
    (packer.setCompatible compatible).Holds
      { draft with dialect := { draft.dialect with compatible } } ceiling where
  sound := holds.sound
  front := holds.front
  ceiling := holds.ceiling
  faithful := holds.faithful
  text := holds.text
  mark := holds.mark
  dialect := congrArg (fun dialect : Dialect => { dialect with compatible }) holds.dialect
  fault := holds.fault

theorem patch (holds : packer.Holds draft ceiling) (position : Nat) (bytes : List UInt8) :
    ({ packer with buffer := (packer.buffer.patch? position bytes).getD packer.buffer } :
      Packer σ).Holds (draft.patch position bytes) ceiling := by
  have front := holds.front
  have length := holds.sound.length_packed
  rw [front, Nat.sub_zero] at length
  have total : draft.text.length =
      (Channel.delivered packer.handler).length + packer.buffer.current := by
    rw [← holds.text, List.length_append, length]
  have marked : draft.mark.getD draft.text.length =
      (Channel.delivered packer.handler).length +
        packer.buffer.barrier.getD packer.buffer.current := by
    rw [← holds.mark, Outgoing.mark, front, total]
    cases packer.buffer.barrier <;> rfl
  have barrier_le : packer.buffer.barrier.getD packer.buffer.current ≤ packer.buffer.current := by
    cases set : packer.buffer.barrier with
    | none => exact Nat.le_refl _
    | some barrier => exact (holds.sound.barrier_bounds barrier set).2
  simp only [Outgoing.patch?, Draft.patch]
  rw [marked, total]
  generalize packer.buffer.barrier.getD packer.buffer.current = barrier at barrier_le ⊢
  by_cases inside : position + bytes.length ≤ packer.buffer.current - barrier
  · have lower : packer.buffer.start ≤ barrier + position := by omega
    have upper : barrier + position + bytes.length ≤ packer.buffer.current := by omega
    obtain ⟨sound, packed⟩ := holds.sound.patch lower upper
    have place : barrier + position - packer.buffer.start = barrier + position := by omega
    rw [place] at packed
    rw [if_pos inside, if_pos (by omega)]
    exact {
      sound := sound
      front := front
      ceiling := (Region.ceiling_overwrite ..).trans holds.ceiling
      faithful := holds.faithful
      text := by
        dsimp only [Option.getD_some]
        rw [packed, ← holds.text]
        simp only [Nat.add_assoc]
        rw [List.take_length_add_append, List.drop_length_add_append]
        simp only [List.append_assoc]
      mark := holds.mark
      dialect := holds.dialect
      fault := holds.fault }
  · rw [if_neg inside, if_neg (by omega)]
    exact holds

theorem call (holds : packer.Holds draft ceiling) (call : Call)
    (able : call = .flush → Outlet.canFlush packer.handler = true) :
    Agrees ceiling (packer.call call) (draft.call call) := by
  cases call with
  | pack value => exact holds.pack value
  | insert bytes => exact holds.insert bytes
  | flush => exact holds.flush (able rfl)
  | setCompatible compatible => exact .inl ⟨rfl, holds.setCompatible compatible⟩
  | setBarrier => exact .inl ⟨rfl, holds.setBarrier⟩
  | clearBarrier => exact .inl ⟨rfl, holds.clearBarrier⟩
  | patch position bytes => exact .inl ⟨rfl, holds.patch position bytes⟩

end Holds

omit [Channel σ] [Outlet σ] in
theorem attempt_of_fault {packer : Packer σ} {fault : Fault} (failed : packer.fault = some fault)
    (call : Packer σ → Status × Packer σ) : packer.attempt call = (.error fault, packer) := by
  rw [Packer.attempt, failed]

omit [Channel σ] in
theorem fault_call {packer : Packer σ} {fault : Fault} (failed : packer.fault = some fault)
    (call : Call) : (packer.call call).2.fault = some fault := by
  have attempt (call : Packer σ → Status × Packer σ) :
      (packer.attempt call).2.fault = some fault := by
    rw [attempt_of_fault failed]
    exact failed
  cases call with
  | pack value => exact attempt _
  | insert bytes => exact attempt _
  | flush => exact attempt _
  | _ => exact failed

omit [Channel σ] in
theorem fault_run {packer : Packer σ} {fault : Fault} (failed : packer.fault = some fault)
    (calls : List Call) : (packer.run calls).2.fault = some fault := by
  induction calls generalizing packer with
  | nil => exact failed
  | cons call calls ih => exact ih (fault_call failed call)

omit [Channel σ] in
theorem run_append (packer : Packer σ) (front back : List Call) :
    (packer.run (front ++ back)).2 = ((packer.run front).2.run back).2 := by
  induction front generalizing packer with
  | nil => rfl
  | cons call front ih => exact ih _

theorem Holds.run {packer : Packer σ} {draft : Draft} {ceiling : Nat}
    (holds : packer.Holds draft ceiling) (calls : List Call)
    (able : .flush ∈ calls → ∀ handler : σ, Outlet.canFlush handler = true) :
    Agrees ceiling (packer.run calls) (draft.run calls) := by
  induction calls generalizing packer draft with
  | nil => exact .inl ⟨rfl, holds⟩
  | cons call calls ih =>
    have first := holds.call call fun flushes =>
      able (List.mem_cons.mpr (.inl flushes.symm)) packer.handler
    simp only [Packer.run, Draft.run]
    rcases first with ⟨same, stays⟩ | ⟨failed, short⟩
    · obtain ⟨answers, stays⟩ | refused := ih stays fun flushes =>
        able (List.mem_cons_of_mem call flushes)
      · rw [same, answers]
        exact .inl ⟨rfl, stays⟩
      · exact .inr refused
    · exact .inr ⟨fault_run failed calls, fun granted =>
        short (granted.mono (Draft.length_run_le calls _))⟩

theorem Holds.new {buffer : Outgoing} {handler : σ} (sound : buffer.Sound)
    (front : buffer.start = 0) (unmarked : buffer.barrier = none)
    (faithful : Channel.Faithful handler)
    (blank : Channel.delivered handler ++ buffer.packed = []) (dialect : Dialect) :
    (Packer.new buffer handler dialect).Holds (.start dialect) buffer.region.ceiling where
  sound := sound
  front := front
  ceiling := rfl
  faithful := faithful
  text := blank
  mark := by simp [Packer.new, Outgoing.mark, unmarked, Draft.start]
  dialect := rfl
  fault := rfl

end Packer

theorem Outgoing.keeps_growFor {buffer : Outgoing} {needed : Nat} (sound : buffer.Sound)
    (front : buffer.start = 0) (short : buffer.remaining < needed) (handler : σ)
    (delivered : List UInt8) :
    let reply : Outlet.Reply σ := ⟨(buffer.growFor needed).1, handler, (buffer.growFor needed).2⟩
    reply.KeepsText buffer delivered delivered ∧
      (reply.status = .ok () ∧ needed ≤ reply.buffer.remaining ∨
        reply.status = .error .allocationError ∧
          ¬Granted buffer.region.ceiling (buffer.packed.length + needed)) := by
  have current_le := sound.current_le
  have length := sound.length_packed
  cases grows : buffer.growFor needed with
  | mk status grown =>
    cases status with
    | ok _ =>
      obtain ⟨region, rfl, enough, larger, ceiling, same⟩ := growFor_eq_ok grows
      refine ⟨⟨sound.grow larger, rfl, ceiling, ?_, rfl⟩, .inl ⟨rfl, ?_⟩⟩
      · exact congrArg (delivered ++ ·) (same _ _ current_le)
      · simp only [remaining, stop]
        omega
    | error fault =>
      obtain ⟨rfl, rfl, refused⟩ := growFor_eq_error grows short
      refine ⟨⟨sound, rfl, rfl, rfl, rfl⟩, .inr ⟨rfl, ?_⟩⟩
      rintro ⟨position, ceiling⟩
      omega

/-- Memory passes nothing on. -/
instance : Channel Growable where
  delivered _ := []
  Faithful _ := True
  makeRoom sound front _ short := by
    obtain ⟨keeps, made⟩ := Outgoing.keeps_growFor sound front short (Growable.mk) []
    exact ⟨keeps, trivial, made⟩
  flush _ _ can := by cases can
  write _ _ _ can := by cases can

namespace Packer

theorem Holds.packed_eq {packer : Packer Growable} {draft : Draft} {ceiling : Nat}
    (holds : packer.Holds draft ceiling) : packer.buffer.packed = draft.text := holds.text

theorem Holds.packed_emit {packer after : Packer Growable} {draft : Draft} {ceiling : Nat}
    (holds : packer.Holds draft ceiling) {output : List UInt8}
    (emitted : packer.emit output = (.ok (), after)) :
    after.buffer.packed = packer.buffer.packed ++ output := by
  have outcome := holds.emit output
  rw [emitted] at outcome
  rcases outcome with ⟨_, stays⟩ | ⟨⟨⟩, _⟩
  rw [stays.packed_eq, holds.packed_eq]

theorem holds_growable (capacity ceiling : Nat) (dialect : Dialect) :
    ((growable capacity dialect).withCeiling ceiling).Holds (.start dialect) ceiling :=
  Holds.new ((Outgoing.Sound.ofSize _).withCeiling ceiling) rfl rfl trivial
    (Region.slice_self _ 0) dialect

/-- A flush is refused in memory, so that there has been none where there is no fault. -/
theorem Holds.run_clean {packer : Packer Growable} {draft : Draft} {ceiling : Nat}
    (holds : packer.Holds draft ceiling) {calls : List Call}
    (clean : (packer.run calls).2.fault = none) :
    ∃ draft, (packer.run calls).2.Holds draft ceiling := by
  have able : .flush ∈ calls → ∀ handler : Growable, Outlet.canFlush handler = true := by
    intro member
    obtain ⟨front, back, rfl⟩ := List.append_of_mem member
    rw [run_append] at clean
    have failed : ∃ fault, ((packer.run front).2.call .flush).2.fault = some fault := by
      cases before : (packer.run front).2.fault with
      | some fault => exact ⟨fault, fault_call before .flush⟩
      | none =>
        refine ⟨.illegalCall, ?_⟩
        rw [Packer.call, Packer.flush, Packer.attempt, before]
        rfl
    obtain ⟨fault, failed⟩ := failed
    cases clean.symm.trans (fault_run failed back)
  rcases holds.run calls able with ⟨_, stays⟩ | ⟨failed, _⟩
  · exact ⟨_, stays⟩
  · cases clean.symm.trans failed

end Packer
end MessagePack
