import MessagePack.Proofs.Compaction
import MessagePack.Proofs.ItemRecall

/-! The loop that refills a buffer, call by call, from any reader. Every call is offered room,
however compaction and growth have come by it, so a call that brings nothing is the end of the
input. A call that is answered brings a byte or is the last, so there are no more of these than
bytes that are missing. What arrives goes behind the unread bytes, and nothing else changes. -/
namespace MessagePack

namespace Input

/-- The number of calls that it takes at most to have `answers` of them answered, by a stream that
has answered as many as `call`. -/
def Plan.calls (plan : Plan) (call : Nat) : (answers : Nat) → Nat
  | 0 => 0
  | answers + 1 => plan.pauses call + 1 + plan.calls (call + 1) answers

/-- The same number, when the stream has interrupted some calls already. -/
def patience (input : Input) : (answers : Nat) → Nat
  | 0 => 0
  | answers + 1 => input.pausesLeft + 1 + input.plan.calls (input.call + 1) answers

theorem Plan.calls_mono (plan : Plan) (call : Nat) {fewer more : Nat} (le : fewer ≤ more) :
    plan.calls call fewer ≤ plan.calls call more := by
  induction fewer generalizing call more with
  | zero => exact Nat.zero_le _
  | succ fewer ih =>
    cases more with
    | zero => omega
    | succ more => exact Nat.add_le_add_left (ih (call + 1) (Nat.le_of_succ_le_succ le)) _

/-- An answer takes the stream to its next call, before which there is no interruption yet. -/
theorem patience_of_answered {input next : Input} {room : Nat} {outcome : Outcome}
    (read : input.read room = (outcome, next)) (answered : outcome ≠ .interrupted) (answers : Nat) :
    next.patience answers = input.plan.calls (input.call + 1) answers := by
  have fresh : next.plan = input.plan ∧ next.call = input.call + 1 ∧ next.paused = 0 := by
    unfold Input.read at read
    split at read
    · cases read
      contradiction
    · dsimp only at read
      split at read <;> cases read <;> exact ⟨rfl, rfl, rfl⟩
  obtain ⟨plan, call, paused⟩ := fresh
  cases answers with
  | zero => rfl
  | succ answers => simp only [patience, Plan.calls, pausesLeft, plan, call, paused, Nat.sub_zero]

theorem patience_of_interrupted {input next : Input} {room : Nat}
    (read : input.read room = (.interrupted, next)) {answers : Nat} (some : 0 < answers) :
    next.patience answers + 1 ≤ input.patience answers := by
  have fewer := (read_interrupted read).2
  have same : next.plan = input.plan ∧ next.call = input.call := by
    unfold Input.read at read
    split at read
    · cases read
      exact ⟨rfl, rfl⟩
    · dsimp only at read
      split at read <;> cases read
  obtain ⟨answers, rfl⟩ := Nat.exists_eq_add_of_lt some
  simp only [Nat.zero_add, patience, same]
  omega

end Input

namespace Incoming

/-- The buffer is a window on what has been `seen`, and on nothing behind it. -/
structure Reflects (seen : List UInt8) (buffer : Incoming) : Prop where
  window : buffer.Window seen []
  short : buffer.capacity < Position.modulus

namespace Reflects

variable {seen : List UInt8} {buffer grown : Incoming} {needed : Nat}

theorem unread_eq (reflects : buffer.Reflects seen) : buffer.unread = seen.drop buffer.offset := by
  rw [reflects.window.rest_eq, List.append_nil]

theorem offset_le (reflects : buffer.Reflects seen) : buffer.offset ≤ seen.length := by
  have whole := reflects.window.offset_add
  omega

theorem compact (reflects : buffer.Reflects seen) : buffer.compact.Reflects seen where
  window := reflects.window.compact
  short := by rw [capacity_compact]; exact reflects.short

theorem covers (reflects : buffer.Reflects seen) :
    Source.Covers seen (.ofBytes [] .steady) buffer.region.ceiling buffer
      ⟨.ofBytes [] .steady⟩ where
  window := reflects.window.append []
  short := reflects.short
  reached := .refl
  ceiling := rfl

theorem openRoom (reflects : buffer.Reflects seen) (lack : buffer.remaining < needed) :
    ∃ region, (Source.openRoom buffer needed).2 = { buffer with region } ∧
      ({ buffer with region } : Incoming).Reflects seen ∧
      ((Source.openRoom buffer needed).1 = .ok () →
        0 < ({ buffer with region } : Incoming).room) := by
  obtain ⟨region, same, covers, room⟩ := reflects.covers.openRoom lack
  have window := covers.window
  rw [show (Input.ofBytes [] .steady).pending = [] from rfl, List.append_nil] at window
  exact ⟨region, same, ⟨window, covers.short⟩, room⟩

theorem opened (reflects : buffer.Reflects seen) (lack : buffer.remaining < needed)
    (opened : Source.openRoom buffer needed = (.ok (), grown)) :
    ∃ region, grown = { buffer with region } ∧ grown.Reflects seen ∧ 0 < grown.room := by
  obtain ⟨region, same, stays, room⟩ := reflects.openRoom lack
  rw [opened] at same room
  obtain rfl : grown = { buffer with region } := same
  exact ⟨region, rfl, stays, room rfl⟩

theorem arrive (reflects : buffer.Reflects seen) {bytes : List UInt8}
    (fits : bytes.length ≤ buffer.room) :
    ((buffer.fill bytes).commit bytes.length).Reflects (seen ++ bytes) ∧
      ((buffer.fill bytes).commit bytes.length).remaining = buffer.remaining + bytes.length := by
  have current_le := reflects.window.current_le
  have stop_le := reflects.window.stop_le
  have short := reflects.short
  have window : buffer.Window (seen ++ bytes) (bytes ++ []) := by
    rw [List.append_nil]
    exact reflects.window.append bytes
  obtain ⟨window, stop⟩ := window.commit fits
  refine ⟨⟨window, ?_⟩, ?_⟩
  · simpa only [capacity, commit, fill, Region.size_overwrite] using short
  · rw [remaining, remaining, stop]
    change buffer.stop + bytes.length - buffer.current = _
    omega

theorem unread_append (reflects : buffer.Reflects seen) {after : Incoming} {more : List UInt8}
    (ends : after.Reflects (seen ++ more)) (offset : after.offset = buffer.offset) :
    after.unread = buffer.unread ++ more := by
  rw [ends.unread_eq, offset, reflects.unread_eq, List.drop_append_of_le_length reflects.offset_le]

theorem pinned_eq (reflects : buffer.Reflects seen) {after : Incoming} {more : List UInt8}
    (ends : after.Reflects (seen ++ more)) (offset : after.offset = buffer.offset)
    (mark : after.mark = buffer.mark) : after.pinned = buffer.pinned := by
  cases marked : buffer.mark with
  | none =>
    have bare : buffer.barrier = none := Option.map_eq_none_iff.mp marked
    have still : after.barrier = none := Option.map_eq_none_iff.mp (mark.trans marked)
    simp only [pinned, bare, still]
  | some position =>
    have inside : buffer.offset - position ≤ (seen.drop position).length := by
      have := reflects.offset_le
      rw [List.length_drop]
      omega
    rw [ends.window.pinned_eq (mark.trans marked), reflects.window.pinned_eq marked, offset,
      List.drop_append, List.take_append_of_le_length inside]

end Reflects

theorem Sound.ordered {buffer : Incoming} (sound : buffer.Sound) : buffer.Ordered :=
  ⟨sound.start_le, sound.current_le, sound.stop_le, sound.barrier_bounds⟩

theorem Sound.reflects {buffer : Incoming} (sound : buffer.Sound) :
    ∃ seen, buffer.Reflects seen := by
  obtain ⟨_, shows⟩ := sound.shows
  obtain ⟨whole, shows, window⟩ := shows.whole
  exact ⟨whole, window, shows.short⟩

end Incoming

/-- Whatever can be read from: its states, and what it answers a call that offers room, which is
never more than there is room for. It may go on forever, fail, or be interrupted as often as it
likes. -/
structure Reader (σ : Type) where
  read : σ → (room : Nat) → Input.Outcome × σ
  fits : ∀ {state next : σ} {room : Nat} {bytes : List UInt8},
    read state room = (.bytes bytes, next) → bytes.length ≤ room

def Input.reader : Reader Input := ⟨Input.read, Input.length_read_bytes⟩

namespace Reader

/-- A call: what the reader is like before it, and the room that it is offered. -/
structure Ask (σ : Type) where
  state : σ
  room : Nat

/-- How far a refill has come. It has a status once it is done. -/
structure Stage (σ : Type) where
  status : Option Status
  state : σ
  buffer : Incoming

/-- How the answer to the last call shows in what a refill has come to. -/
def Stage.ShowsLast (stage : Stage σ) : Option Input.Outcome → Prop
  | some (.bytes []) => stage.status = some (.error .endOfInput)
  | some (.failed text) =>
    stage.status = some (.error .errorInHandler) ∧ stage.buffer.failure = some text
  | _ => ∀ status, stage.status = some status → status = .ok () ∨ status = .error .allocationError

variable {σ : Type} {reader : Reader σ} {needed : Nat} {state : σ} {buffer : Incoming}
  {asks : List (Ask σ)} {stage : Stage σ}

namespace Stage.ShowsLast

variable {last : Option Input.Outcome}

theorem ended_iff (tells : stage.ShowsLast last) :
    stage.status = some (.error .endOfInput) ↔ last = some (.bytes []) := by
  unfold Stage.ShowsLast at tells
  split at tells
  · exact iff_of_true tells rfl
  · simp [tells.1]
  · rename_i other _
    refine iff_of_false (fun ended => ?_) other
    simpa using tells _ ended

theorem failed_iff (tells : stage.ShowsLast last) :
    stage.status = some (.error .errorInHandler) ↔
      ∃ text, last = some (.failed text) ∧ stage.buffer.failure = some text := by
  unfold Stage.ShowsLast at tells
  split at tells
  · simp [tells]
  · simp [tells.1, tells.2]
  · rename_i other
    refine iff_of_false (fun failed => ?_) fun ⟨text, same, _⟩ => other text same
    simpa using tells _ failed

theorem cons {outcome : Input.Outcome} (tells : stage.ShowsLast last)
    (goesOn : stage.ShowsLast none → stage.ShowsLast (some outcome)) :
    stage.ShowsLast (some (last.getD outcome)) := by
  cases last with
  | none => exact goesOn tells
  | some _ => exact tells

end Stage.ShowsLast

def outcome (reader : Reader σ) (ask : Ask σ) : Input.Outcome := (reader.read ask.state ask.room).1

def brought (reader : Reader σ) (ask : Ask σ) : List UInt8 :=
  match reader.outcome ask with
  | .bytes bytes => bytes
  | _ => []

def answers (reader : Reader σ) (asks : List (Ask σ)) : List (Ask σ) :=
  asks.filter (reader.outcome · != .interrupted)

theorem outcome_of_read {next : σ} {room : Nat} {outcome : Input.Outcome}
    (read : reader.read state room = (outcome, next)) : reader.outcome ⟨state, room⟩ = outcome :=
  congrArg Prod.fst read

theorem answers_cons {next : σ} {room : Nat} {outcome : Input.Outcome}
    (read : reader.read state room = (outcome, next)) (answered : outcome ≠ .interrupted) :
    reader.answers (⟨state, room⟩ :: asks) = ⟨state, room⟩ :: reader.answers asks := by
  simp [answers, outcome_of_read read, answered]

theorem answers_cons_interrupted {next : σ} {room : Nat}
    (read : reader.read state room = (.interrupted, next)) :
    reader.answers (⟨state, room⟩ :: asks) = reader.answers asks := by
  simp [answers, outcome_of_read read]

/-- The calls that the loop makes of a reader, from a state of it and a buffer on, in order, and
how far they lead. -/
inductive Asks (reader : Reader σ) (needed : Nat) :
    σ → Incoming → List (Ask σ) → Stage σ → Prop where
  | going {state : σ} {buffer : Incoming} : Asks reader needed state buffer [] ⟨none, state, buffer⟩
  | met {state : σ} {buffer : Incoming} (enough : needed ≤ buffer.remaining) :
    Asks reader needed state buffer [] ⟨some (.ok ()), state, buffer⟩
  | refused {state : σ} {buffer grown : Incoming} {fault : Fault}
    (lack : buffer.remaining < needed)
    (refused : Source.openRoom buffer needed = (.error fault, grown)) :
    Asks reader needed state buffer [] ⟨some (.error fault), state, grown⟩
  | failed {state next : σ} {buffer grown : Incoming} {text : String}
    (lack : buffer.remaining < needed) (opened : Source.openRoom buffer needed = (.ok (), grown))
    (read : reader.read state grown.room = (.failed text, next)) :
    Asks reader needed state buffer [⟨state, grown.room⟩]
      ⟨some (.error .errorInHandler), next, { grown with failure := some text }⟩
  | ended {state next : σ} {buffer grown : Incoming}
    (lack : buffer.remaining < needed) (opened : Source.openRoom buffer needed = (.ok (), grown))
    (read : reader.read state grown.room = (.bytes [], next)) :
    Asks reader needed state buffer [⟨state, grown.room⟩] ⟨some (.error .endOfInput), next, grown⟩
  | arrived {state next : σ} {buffer grown : Incoming} {bytes : List UInt8} {asks : List (Ask σ)}
    {stage : Stage σ}
    (lack : buffer.remaining < needed) (opened : Source.openRoom buffer needed = (.ok (), grown))
    (read : reader.read state grown.room = (.bytes bytes, next)) (more : bytes ≠ [])
    (rest : Asks reader needed next ((grown.fill bytes).commit bytes.length) asks stage) :
    Asks reader needed state buffer (⟨state, grown.room⟩ :: asks) stage
  | interrupted {state next : σ} {buffer grown : Incoming} {asks : List (Ask σ)} {stage : Stage σ}
    (lack : buffer.remaining < needed) (opened : Source.openRoom buffer needed = (.ok (), grown))
    (read : reader.read state grown.room = (.interrupted, next))
    (rest : Asks reader needed next grown asks stage) :
    Asks reader needed state buffer (⟨state, grown.room⟩ :: asks) stage

def Ends (reader : Reader σ) (needed : Nat) (state : σ) (buffer : Incoming) : Prop :=
  ∃ asks stage, Asks reader needed state buffer asks stage ∧ stage.status ≠ none

/-- A call that offers so much room is answered in the end, when it is made again and again. -/
inductive Relents (reader : Reader σ) (room : Nat) : σ → Prop where
  | now {state : σ} (answered : (reader.read state room).1 ≠ .interrupted) :
    Relents reader room state
  | later {state : σ} (rest : Relents reader room (reader.read state room).2) :
    Relents reader room state

variable {seen : List UInt8}

/-- An answer ends the loop, or brings it on to a buffer with more in it. -/
theorem ends_of_answered {grown : Incoming} (lack : buffer.remaining < needed)
    (opened : Source.openRoom buffer needed = (.ok (), grown))
    (answered : (reader.read state grown.room).1 ≠ .interrupted)
    (goesOn : ∀ next bytes, bytes ≠ [] → bytes.length ≤ grown.room →
      reader.Ends needed next ((grown.fill bytes).commit bytes.length)) :
    reader.Ends needed state buffer := by
  cases read : reader.read state grown.room with
  | mk outcome next =>
    cases outcome with
    | failed text => exact ⟨_, _, .failed lack opened read, by simp⟩
    | interrupted => simp [read] at answered
    | bytes bytes =>
      by_cases nothing : bytes = []
      · subst nothing
        exact ⟨_, _, .ended lack opened read, by simp⟩
      · obtain ⟨asks, stage, rest, done⟩ := goesOn next bytes nothing (reader.fits read)
        exact ⟨_, _, .arrived lack opened read nothing rest, done⟩

/-- So do the interruptions before it: behind the first one the room is there already. -/
theorem ends_of_opened {grown : Incoming} (lack : buffer.remaining < needed)
    (opened : Source.openRoom buffer needed = (.ok (), grown)) (room : 0 < grown.room)
    (relents : reader.Relents grown.room state)
    (goesOn : ∀ next bytes, bytes ≠ [] → bytes.length ≤ grown.room →
      reader.Ends needed next ((grown.fill bytes).commit bytes.length)) :
    reader.Ends needed state buffer := by
  have same := Source.remaining_openRoom buffer needed
  rw [opened] at same
  have stays : Source.openRoom grown needed = (.ok (), grown) := by
    unfold Source.openRoom Incoming.room at *
    rw [if_neg (by omega)]
  induction relents generalizing buffer with
  | now answered => exact ends_of_answered lack opened answered goesOn
  | @later state _ ih =>
    by_cases paused : (reader.read state grown.room).1 = .interrupted
    · obtain ⟨asks, stage, rest, done⟩ := ih (same ▸ lack) stays rfl
      exact ⟨_, _, .interrupted lack opened (Prod.ext paused rfl) rest, done⟩
    · exact ends_of_answered lack opened paused goesOn

theorem ends (relents : ∀ state room, reader.Relents room state) (state : σ)
    (reflects : buffer.Reflects seen) : reader.Ends needed state buffer := by
  generalize eq : needed - buffer.remaining = missing
  induction missing using Nat.strongRecOn generalizing state buffer seen with
  | ind missing ih =>
    by_cases enough : needed ≤ buffer.remaining
    · exact ⟨_, _, .met enough, by simp⟩
    have lack := Nat.lt_of_not_le enough
    cases opened : Source.openRoom buffer needed with
    | mk status grown =>
      cases status with
      | error fault => exact ⟨_, _, .refused lack opened, by simp⟩
      | ok =>
        have same := Source.remaining_openRoom buffer needed
        rw [opened] at same
        obtain ⟨_, _, stays, room⟩ := reflects.opened lack opened
        refine ends_of_opened lack opened room (relents _ _) fun next bytes more fits => ?_
        obtain ⟨after, remaining⟩ := stays.arrive fits
        have brought : 0 < bytes.length := List.length_pos_iff.mpr more
        exact ih _ (by dsimp only at same; omega) next after rfl

namespace Asks

/-- Growth and what arrives leave the offset and the mark, and lose nothing that has been seen. -/
theorem reflects (run : Asks reader needed state buffer asks stage)
    (reflects : buffer.Reflects seen) :
    stage.buffer.Reflects (seen ++ asks.flatMap reader.brought) ∧
      stage.buffer.offset = buffer.offset ∧ stage.buffer.mark = buffer.mark := by
  induction run generalizing seen with
  | going => exact ⟨by simpa using reflects, rfl, rfl⟩
  | met => exact ⟨by simpa using reflects, rfl, rfl⟩
  | refused lack refused =>
    obtain ⟨region, same, stays, _⟩ := reflects.openRoom lack
    rw [refused] at same
    cases same
    exact ⟨by simpa using stays, rfl, rfl⟩
  | failed lack opened read =>
    obtain ⟨region, rfl, stays, _⟩ := reflects.opened lack opened
    have nothing := outcome_of_read read
    refine ⟨?_, rfl, rfl⟩
    simp only [List.flatMap_singleton, brought, nothing, List.append_nil]
    exact ⟨stays.window.withFailure _, stays.short⟩
  | ended lack opened read =>
    obtain ⟨region, rfl, stays, _⟩ := reflects.opened lack opened
    have nothing := outcome_of_read read
    refine ⟨?_, rfl, rfl⟩
    simpa only [List.flatMap_singleton, brought, nothing, List.append_nil] using stays
  | arrived lack opened read more rest ih =>
    obtain ⟨region, rfl, stays, _⟩ := reflects.opened lack opened
    have bytes := outcome_of_read read
    obtain ⟨ends, offset, mark⟩ := ih (stays.arrive (reader.fits read)).1
    refine ⟨?_, offset, mark⟩
    simpa only [List.flatMap_cons, brought, bytes, List.append_assoc] using ends
  | interrupted lack opened read rest ih =>
    obtain ⟨region, rfl, stays, _⟩ := reflects.opened lack opened
    have nothing := outcome_of_read read
    obtain ⟨ends, offset, mark⟩ := ih stays
    refine ⟨?_, offset, mark⟩
    simpa only [List.flatMap_cons, brought, nothing, List.nil_append] using ends

theorem offered (run : Asks reader needed state buffer asks stage)
    (reflects : buffer.Reflects seen) : ∀ ask ∈ asks, 0 < ask.room := by
  induction run generalizing seen with
  | going | met | refused => exact fun _ member => nomatch member
  | failed lack opened | ended lack opened =>
    obtain ⟨_, _, _, room⟩ := reflects.opened lack opened
    exact List.forall_mem_singleton.mpr room
  | arrived lack opened read more rest ih =>
    obtain ⟨_, _, stays, room⟩ := reflects.opened lack opened
    exact List.forall_mem_cons.mpr ⟨room, ih (stays.arrive (reader.fits read)).1⟩
  | interrupted lack opened read rest ih =>
    obtain ⟨_, _, stays, room⟩ := reflects.opened lack opened
    exact List.forall_mem_cons.mpr ⟨room, ih stays⟩

/-- Each answer but the last brings one of the bytes that are missing. -/
theorem length_answers_le (run : Asks reader needed state buffer asks stage)
    (reflects : buffer.Reflects seen) :
    (reader.answers asks).length ≤ needed - buffer.remaining := by
  induction run generalizing seen with
  | going | met | refused => exact Nat.zero_le _
  | failed lack _ read | ended lack _ read =>
    rw [answers_cons read (by simp)]
    exact Nat.sub_pos_of_lt lack
  | @arrived state next buffer grown bytes asks stage lack opened read more rest ih =>
    obtain ⟨_, rfl, stays, _⟩ := reflects.opened lack opened
    obtain ⟨after, remaining⟩ := stays.arrive (reader.fits read)
    have fewer := ih after
    have brought : 0 < bytes.length := List.length_pos_iff.mpr more
    rw [remaining] at fewer
    rw [answers_cons read (by simp), List.length_cons]
    change _ ≤ needed - (buffer.remaining + bytes.length) at fewer
    omega
  | interrupted lack opened read rest ih =>
    obtain ⟨_, rfl, stays, _⟩ := reflects.opened lack opened
    rw [answers_cons_interrupted read]
    exact ih stays

/-- A refill is met if and only if as many bytes are unread as were needed. -/
theorem met_iff (run : Asks reader needed state buffer asks stage)
    (reflects : buffer.Reflects seen) {status : Status} (done : stage.status = some status) :
    status = .ok () ↔ needed ≤ stage.buffer.remaining := by
  induction run generalizing seen with
  | going => cases done
  | met enough =>
    cases done
    exact iff_of_true rfl enough
  | refused lack refused =>
    cases done
    obtain ⟨_, same, _⟩ := reflects.openRoom lack
    rw [refused] at same
    cases same
    exact iff_of_false nofun (Nat.not_le_of_lt lack)
  | failed lack opened | ended lack opened =>
    cases done
    obtain ⟨_, rfl, _⟩ := reflects.opened lack opened
    exact iff_of_false nofun (Nat.not_le_of_lt lack)
  | arrived lack opened read more rest ih =>
    obtain ⟨_, _, stays, _⟩ := reflects.opened lack opened
    exact ih (stays.arrive (reader.fits read)).1 done
  | interrupted lack opened read rest ih =>
    obtain ⟨_, _, stays, _⟩ := reflects.opened lack opened
    exact ih stays done

/-- How a refill fails is how its last call has been answered, unless no room could be made. -/
theorem tells (run : Asks reader needed state buffer asks stage) :
    stage.ShowsLast (asks.map reader.outcome).getLast? := by
  induction run with
  | going => exact nofun
  | met =>
    rintro _ ⟨⟩
    exact .inl rfl
  | @refused state buffer grown fault lack refused =>
    rintro _ ⟨⟩
    unfold Source.openRoom at refused
    split at refused
    · exact .inr (congrArg _ (Incoming.growToward_eq_error refused).2.1)
    · cases refused
  | failed lack opened read =>
    simp only [List.map_singleton, outcome_of_read read]
    exact ⟨rfl, rfl⟩
  | ended lack opened read =>
    simp only [List.map_singleton, outcome_of_read read]
    exact rfl
  | @arrived state next buffer grown bytes asks stage lack opened read more rest ih =>
    rw [List.map_cons, outcome_of_read read, List.getLast?_cons]
    refine ih.cons fun quiet => ?_
    obtain ⟨byte, bytes, rfl⟩ := List.exists_cons_of_ne_nil more
    exact quiet
  | interrupted lack opened read rest ih =>
    rw [List.map_cons, outcome_of_read read, List.getLast?_cons]
    exact ih.cons id

end Asks

/-- What a refill of a buffer has done, after calls that bring it to a stage. -/
structure Refilled (reader : Reader σ) (needed : Nat) (before : Incoming) (asks : List (Ask σ))
    (stage : Stage σ) : Prop where
  offered : ∀ ask ∈ asks, 0 < ask.room
  answered : (reader.answers asks).length ≤ needed - before.remaining
  met : ∀ status, stage.status = some status →
    (status = .ok () ↔ needed ≤ stage.buffer.remaining)
  ended : stage.status = some (.error .endOfInput) ↔
    (asks.map reader.outcome).getLast? = some (.bytes [])
  failed : stage.status = some (.error .errorInHandler) ↔
    ∃ text, (asks.map reader.outcome).getLast? = some (.failed text) ∧
      stage.buffer.failure = some text
  unread : stage.buffer.unread = before.unread ++ asks.flatMap reader.brought
  pinned : stage.buffer.pinned = before.pinned
  offset : stage.buffer.offset = before.offset
  sound : stage.buffer.Sound

theorem refilled_of_asks {before : Incoming} (sound : before.Sound)
    (run : Asks reader needed state before.compact asks stage) :
    Refilled reader needed before asks stage := by
  have ordered := sound.ordered
  obtain ⟨seen, begins⟩ := sound.reflects
  have compacted := begins.compact
  obtain ⟨ends, offset, mark⟩ := run.reflects compacted
  have tells := run.tells
  constructor
  · exact run.offered compacted
  · exact ordered.remaining_compact ▸ run.length_answers_le compacted
  · exact fun _ => run.met_iff compacted
  · exact tells.ended_iff
  · exact tells.failed_iff
  · exact (compacted.unread_append ends offset).trans (by rw [ordered.unread_compact])
  · exact (compacted.pinned_eq ends offset mark).trans ordered.pinned_compact
  · exact offset.trans ordered.offset_compact
  · exact ends.window.sound ends.short

end Reader

namespace Source

open Reader

def reached (reply : Inlet.Reply Source) : Stage Input :=
  ⟨some reply.status, reply.handler.input, reply.buffer⟩

variable {input : Input} {needed : Nat} {buffer : Incoming} {asks : List (Ask Input)}
  {stage : Stage Input} {seen : List UInt8}

theorem exists_asks (input : Input) (buffer : Incoming) (needed : Nat) :
    ∃ asks, Asks Input.reader needed input buffer asks
      (reached (readUntil input buffer needed)) := by
  fun_induction readUntil input buffer needed with
  | case1 input buffer enough => exact ⟨_, .met enough⟩
  | case2 input buffer short fault grown refused =>
    exact ⟨_, .refused (Nat.lt_of_not_le short) refused⟩
  | case3 input buffer short _ grown opened text next read =>
    exact ⟨_, .failed (Nat.lt_of_not_le short) opened read⟩
  | case4 input buffer short _ grown opened next read =>
    exact ⟨_, .ended (Nat.lt_of_not_le short) opened read⟩
  | case5 input buffer short _ grown opened byte bytes next read ih =>
    obtain ⟨asks, rest⟩ := ih
    exact ⟨_, .arrived (Nat.lt_of_not_le short) opened read (List.cons_ne_nil _ _) rest⟩
  | case6 input buffer short _ grown opened next read ih =>
    obtain ⟨asks, rest⟩ := ih
    exact ⟨_, .interrupted (Nat.lt_of_not_le short) opened read rest⟩

/-- There are as many calls as answers, and the interruptions that stand before these. -/
theorem length_asks_le (run : Asks Input.reader needed input buffer asks stage)
    (reflects : buffer.Reflects seen) :
    asks.length ≤ input.patience (needed - buffer.remaining) := by
  induction run generalizing seen with
  | going | met | refused => exact Nat.zero_le _
  | failed lack _ _ | ended lack _ _ =>
    obtain ⟨missing, eq⟩ := Nat.exists_eq_add_of_lt (Nat.sub_pos_of_lt lack)
    rw [eq, Nat.zero_add, Input.patience, List.length_singleton]
    omega
  | @arrived input next buffer grown bytes asks stage lack opened read more rest ih =>
    obtain ⟨_, rfl, stays, _⟩ := reflects.opened lack opened
    obtain ⟨after, remaining⟩ := stays.arrive (Input.reader.fits read)
    have fewer := ih after
    have brought : 0 < bytes.length := List.length_pos_iff.mpr more
    obtain ⟨missing, eq⟩ := Nat.exists_eq_add_of_lt (Nat.sub_pos_of_lt lack)
    rw [remaining, Input.patience_of_answered read (by simp)] at fewer
    have less : needed - (buffer.remaining + bytes.length) ≤ missing := by omega
    have most := input.plan.calls_mono (input.call + 1) less
    rw [eq, Nat.zero_add, Input.patience, List.length_cons]
    change _ ≤ input.plan.calls _ (needed - (buffer.remaining + bytes.length)) at fewer
    omega
  | interrupted lack opened read rest ih =>
    obtain ⟨_, rfl, stays, _⟩ := reflects.opened lack opened
    have fewer := Input.patience_of_interrupted read (Nat.sub_pos_of_lt lack)
    exact Nat.le_trans (Nat.succ_le_succ (ih stays)) fewer

/-- What the calls bring has been pending, and nothing of it is left out. -/
theorem pending_eq (run : Asks Input.reader needed input buffer asks stage) :
    input.pending = asks.flatMap Input.reader.brought ++ stage.state.pending := by
  induction run with
  | going | met | refused => rfl
  | failed lack opened read =>
    simp only [List.flatMap_singleton, brought, outcome_of_read read, List.nil_append]
    exact (Input.read_failed read).symm
  | ended lack opened read =>
    simp only [List.flatMap_singleton, brought, outcome_of_read read, List.nil_append]
    exact Input.read_bytes read
  | arrived lack opened read more rest ih =>
    simp only [List.flatMap_cons, brought, outcome_of_read read, List.append_assoc]
    rw [← ih]
    exact Input.read_bytes read
  | interrupted lack opened read rest ih =>
    simp only [List.flatMap_cons, brought, outcome_of_read read, List.nil_append]
    rw [← ih]
    exact (Input.read_interrupted read).1.symm

/-- No bytes where there is room mean that none are left, or that the stream gives none. -/
theorem empty_of_room {ask : Ask Input} (offered : 0 < ask.room)
    (empty : Input.reader.outcome ask = .bytes []) :
    ask.state.pending = [] ∨
      ask.state.plan.beat ask.state.call ask.state.given ask.room = .deliver 0 := by
  obtain ⟨input, room⟩ := ask
  change (input.read room).1 = .bytes [] at empty
  unfold Input.read at empty
  split at empty
  · cases empty
  · dsimp only at empty offered ⊢
    split at empty
    · cases empty
    · rename_i atMost met
      rw [Nat.add_sub_cancel] at met
      rcases List.take_eq_nil_iff.mp (Input.Outcome.bytes.inj empty) with none | nothing
      · have zero : atMost = 0 := by omega
        exact .inr (met.trans (by rw [zero]))
      · exact .inl nothing

/-- What a source has done, by these calls to its stream. -/
structure Completes (source : Source) (needed : Nat) (buffer : Incoming)
    (asks : List (Ask Input)) : Prop where
  run : Asks Input.reader needed source.input buffer.compact asks
    (reached (source.refill buffer needed))
  refilled : Refilled Input.reader needed buffer asks (reached (source.refill buffer needed))
  calls : asks.length ≤ source.input.patience (needed - buffer.remaining)
  pending : source.input.pending =
    asks.flatMap Input.reader.brought ++ (source.refill buffer needed).handler.input.pending
  empty : ∀ ask ∈ asks, Input.reader.outcome ask = .bytes [] → ask.state.pending = [] ∨
    ask.state.plan.beat ask.state.call ask.state.given ask.room = .deliver 0

/-- Refills. Whatever the reader does, the loop offers it room at every call, has no more answers
than bytes are missing, and says truly what has come of it; all that the reader has brought stands
behind the unread bytes. Unless it is interrupted forever, the loop comes to an end. So it does on
every stream, after no more calls than those answers and the interruptions before them. -/
theorem refill_progresses {buffer : Incoming} (sound : buffer.Sound) (needed : Nat) :
    (∀ (σ : Type) (reader : Reader σ),
      (∀ state asks stage, Asks reader needed state buffer.compact asks stage →
        Refilled reader needed buffer asks stage) ∧
      ((∀ state room, reader.Relents room state) →
        ∀ state, reader.Ends needed state buffer.compact)) ∧
      ∀ source : Source, ∃ asks, source.Completes needed buffer asks := by
  obtain ⟨seen, begins⟩ := sound.reflects
  refine ⟨fun σ reader => ⟨fun state asks stage => refilled_of_asks sound,
    fun relents state => ends relents state begins.compact⟩, fun source => ?_⟩
  obtain ⟨asks, run⟩ := exists_asks source.input buffer.compact needed
  have refilled := refilled_of_asks sound run
  refine ⟨asks, run, refilled, ?_, pending_eq run, ?_⟩
  · exact sound.ordered.remaining_compact ▸ length_asks_le run begins.compact
  · exact fun ask member empty => empty_of_room (refilled.offered ask member) empty

/-- A stream of one byte a call, with interruptions, from which a full region is refilled that must
grow for it; and a reader that does nothing but interrupt, after two calls. -/
theorem refill_progresses_growing :
    let buffer : Incoming := ⟨.ofList [9, 1, 2, 3], 1, 2, 4, 5, some 1, none⟩
    let source : Source := ⟨.ofBytes [4, 5, 6] (.paced (fun _ => 1) true none)⟩
    let never : Reader Unit := ⟨fun _ _ => (.interrupted, ()), nofun⟩
    buffer.Sound ∧
      (∃ asks, source.Completes 4 buffer asks ∧
        (source.refill buffer 4).status = .ok () ∧
        (source.refill buffer 4).buffer.unread = [2, 3, 4, 5] ∧
        asks.flatMap Input.reader.brought = [4, 5]) ∧
      Refilled never 4 buffer [⟨(), 1⟩, ⟨(), 1⟩] ⟨none, (), buffer.compact⟩ := by
  intro buffer source never
  have sound : buffer.Sound :=
    ⟨by decide, by decide, by decide, by rintro _ ⟨⟩; decide, by decide⟩
  obtain ⟨readers, streams⟩ := refill_progresses sound 4
  refine ⟨sound, ?_, (readers Unit never).1 () _ _ ?_⟩
  · obtain ⟨asks, completes⟩ := streams source
    have unread : (source.refill buffer 4).buffer.unread = [2, 3, 4, 5] := by cbv
    have appended := completes.refilled.unread
    rw [show (reached (source.refill buffer 4)).buffer.unread = [2, 3] ++ [4, 5] from unread,
      show buffer.unread = [2, 3] by decide] at appended
    exact ⟨asks, completes, by cbv, unread, (List.append_cancel_left appended).symm⟩
  · have lack : buffer.compact.remaining < 4 := by decide
    have opened : openRoom buffer.compact 4 = (.ok (), buffer.compact) := by decide
    exact .interrupted lack opened rfl (.interrupted lack opened rfl .going)

end Source
end MessagePack
