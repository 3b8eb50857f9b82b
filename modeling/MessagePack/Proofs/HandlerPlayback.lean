import MessagePack.Proofs.StickyFaults

/-! Handlers without a bound on what they bring. Reading from one may go on for ever, so a skip is
given a number of rounds here that it must be done in. A run that comes to its end has met a finite
number of replies, and where a list of these is played back, the same run is made again. As a list
is finite, what holds of every handler with a bound holds of every run that ends. -/
namespace MessagePack

/-- Replies that are given one after another, whatever is asked for. -/
structure Playback where
  replies : List (Status × Incoming)

namespace Playback

def refill (playback : Playback) (buffer : Incoming) : Inlet.Reply Playback :=
  match playback.replies with
  | [] => ⟨.error .errorInHandler, playback, buffer⟩
  | (status, buffer) :: replies => ⟨status, ⟨replies⟩, buffer⟩

/-- Each reply brings the bytes that it leaves unread at most. -/
def supply (playback : Playback) : Nat :=
  playback.replies.foldr (fun reply total => reply.2.remaining + total) 0

instance : Inlet Playback where
  refill playback buffer _ := playback.refill buffer
  supply := supply
  refill_le playback buffer _ := by
    obtain ⟨_ | ⟨⟨status, next⟩, replies⟩⟩ := playback
    · exact Nat.le_refl _
    · exact Nat.le_add_left _ _

end Playback

namespace Unpacker

def withHandler (unpacker : Unpacker σ) (handler : τ) : Unpacker τ where
  buffer := unpacker.buffer
  handler := handler
  order := unpacker.order
  fault := unpacker.fault
  last := unpacker.last

section

variable [Refiller σ]

/-! ### Rounds -/

/-- What `skipPending` does, if it takes no more than so many rounds. -/
def skipPending? : (rounds pending : Nat) → Unpacker σ → Option (Except Fault Skipped × Unpacker σ)
  | _, 0, unpacker => some (.ok .whole, unpacker)
  | 0, _ + 1, _ => none
  | rounds + 1, pending + 1, unpacker =>
    match perform (Extent.scan unpacker.order) unpacker with
    | (.error fault, after) => some (.error fault, after)
    | (.ok items, after) =>
      if pending + items < UInt64.size then skipPending? rounds (pending + items) after
      else some (.ok .overflow, after)

def skip? (rounds : Nat) (unpacker : Unpacker σ) (count : UInt64) :
    Option (Except Fault Skipped × Unpacker σ) :=
  match unpacker.fault with
  | some fault => some (.error fault, unpacker)
  | none =>
    (skipPending? rounds count.toNat { unpacker with last := none }).map fun (answer, after) =>
      after.settle answer

def call? (rounds : Nat) (call : Call) (unpacker : Unpacker σ) :
    Option (Except Fault Answer × Unpacker σ) :=
  match call with
  | .next => some (unpacker.next.map (·.map .item) id)
  | .nextHeader => some (unpacker.nextHeader.map (·.map .header) id)
  | .nextAs view => some (unpacker.nextAs view.read)
  | .skip count => (unpacker.skip? rounds count).map fun result => result.map (·.map .skipped) id
  | .lookAhead => some (unpacker.lookAhead.map (fun kind => .ok (.kind kind)) id)
  | .setBarrier => some (.ok .done, unpacker.setBarrier)
  | .clearBarrier => some (.ok .done, unpacker.clearBarrier)
  | .rescan => some (unpacker.rescan.map (·.map fun _ => .done) id)
  | .status => some (unpacker.status.map fun _ => .done, unpacker)

def reply? (rounds : Nat) (request : Request) (unpacker : Unpacker σ) :
    Option (Except Fault Answer × Unpacker σ) :=
  match request with
  | .call call => unpacker.call? rounds call
  | .extInteger => some (unpacker.extInteger.map (·.map .integer) id)
  | .extFloat => some (unpacker.extFloat.map (·.map .float) id)
  | .extDouble => some (unpacker.extDouble.map (·.map .double) id)

/-- What `replies` does, if no skip takes more than so many rounds. -/
def replies? (rounds : Nat) :
    List Request → Unpacker σ → Option (List (Except Fault Answer) × Unpacker σ)
  | [], unpacker => some ([], unpacker)
  | request :: requests, unpacker => do
    let (answer, unpacker) ← unpacker.reply? rounds request
    let (answers, unpacker) ← unpacker.replies? rounds requests
    return (answer :: answers, unpacker)

end

/-! A handler with a bound comes to its end. -/

section

variable [Inlet σ] {unpacker : Unpacker σ}

theorem skipPending?_eq {rounds : Nat} (enough : unpacker.supply < rounds) (pending : Nat) :
    skipPending? rounds pending unpacker = some (unpacker.skipPending pending) := by
  induction rounds generalizing unpacker pending with
  | zero => cases enough
  | succ rounds ih =>
    cases pending with
    | zero => rw [skipPending?, skipPending_zero]
    | succ pending =>
      rw [skipPending?, skipPending_succ]
      cases stepped : perform (Extent.scan unpacker.order) unpacker with
      | mk answer after =>
        cases answer with
        | error fault => rfl
        | ok items =>
          have fewer := supply_of_perform_take stepped
          dsimp only
          split
          · exact ih (by omega) _
          · rfl

theorem reply?_eq (request : Request) :
    ∃ enough, ∀ rounds, enough ≤ rounds →
      unpacker.reply? rounds request = some (unpacker.reply request) := by
  cases request with
  | extInteger | extFloat | extDouble => exact ⟨0, fun _ _ => rfl⟩
  | call call =>
    cases call with
    | skip count =>
      refine ⟨unpacker.supply + 1, fun rounds enough => ?_⟩
      have ends : unpacker.skip? rounds count = some (unpacker.skip count) := by
        cases failed : unpacker.fault with
        | some fault => simp only [skip?, skip, attempt, failed]
        | none =>
          have blank : ({ unpacker with fault := none, last := none } : Unpacker σ).supply <
            rounds := enough
          simp only [skip?, skip, attempt, failed, skipPending?_eq blank]
          rfl
      simp only [reply?, call?, ends]
      rfl
    | _ => exact ⟨0, fun _ _ => rfl⟩

theorem replies?_eq (requests : List Request) :
    ∃ enough, ∀ rounds, enough ≤ rounds →
      unpacker.replies? rounds requests = some (unpacker.replies requests) := by
  induction requests generalizing unpacker with
  | nil => exact ⟨0, fun _ _ => rfl⟩
  | cons request requests ih =>
    obtain ⟨first, one⟩ := unpacker.reply?_eq request
    obtain ⟨others, all⟩ := @ih (unpacker.reply request).2
    refine ⟨max first others, fun rounds enough => ?_⟩
    simp only [replies?, one rounds (by omega), Option.bind_eq_bind, Option.bind_some,
      all rounds (by omega)]
    rfl

end

/-! ### Playing back -/

theorem order_withHandler (unpacker : Unpacker σ) (handler : τ) :
    (unpacker.withHandler handler).order = unpacker.order := rfl

/-- What comes of a handler comes of a list of replies as well, which it uses up. -/
def Plays (result : α × Unpacker σ) (twin : Playback → α × Unpacker Playback) : Prop :=
  ∃ replies, ∀ more, twin ⟨replies ++ more⟩ = (result.1, result.2.withHandler ⟨more⟩)

theorem Plays.map {result : α × Unpacker σ} {twin : Playback → α × Unpacker Playback}
    (plays : Plays result twin) (f : α → β) :
    Plays (result.map f id) fun playback => (twin playback).map f id := by
  obtain ⟨replies, plays⟩ := plays
  exact ⟨replies, fun more => congrArg (Prod.map f id) (plays more)⟩

/-- One thing after another, of which the second begins where the first has used up its replies. -/
theorem Plays.andThen {first : α × Unpacker σ} {second : β × Unpacker σ}
    {twin : Playback → α × Unpacker Playback} {rest whole : Playback → β × Unpacker Playback}
    (plays : Plays first twin) (others : Plays second rest)
    (goesOn : ∀ playback left, twin playback = (first.1, first.2.withHandler left) →
      whole playback = rest left) : Plays second whole := by
  obtain ⟨front, plays⟩ := plays
  obtain ⟨back, others⟩ := others
  refine ⟨front ++ back, fun more => ?_⟩
  rw [List.append_assoc, goesOn _ _ (plays _), others]

theorem plays_nothing (result : α × Unpacker σ) :
    Plays result fun playback => (result.1, result.2.withHandler playback) :=
  ⟨[], fun _ => rfl⟩

theorem settle_withHandler (answer : Except Fault α) (unpacker : Unpacker σ) (handler : τ) :
    (unpacker.withHandler handler).settle answer =
      ((unpacker.settle answer).1, (unpacker.settle answer).2.withHandler handler) := by
  cases answer <;> rfl

theorem Plays.settle {result : Except Fault α × Unpacker σ}
    {twin : Playback → Except Fault α × Unpacker Playback} (plays : Plays result twin) :
    Plays (result.2.settle result.1) fun playback =>
      (twin playback).2.settle (twin playback).1 := by
  obtain ⟨replies, plays⟩ := plays
  refine ⟨replies, fun more => ?_⟩
  simp only [plays]
  exact settle_withHandler _ _ _

theorem plays_attempt (unpacker : Unpacker σ) {call : Unpacker σ → Except Fault α × Unpacker σ}
    {twin : Unpacker Playback → Except Fault α × Unpacker Playback}
    (plays : Plays (call unpacker) fun playback => twin (unpacker.withHandler playback)) :
    Plays (unpacker.attempt call) fun playback => (unpacker.withHandler playback).attempt twin := by
  cases failed : unpacker.fault with
  | some fault =>
    refine ⟨[], fun more => ?_⟩
    have stands : (unpacker.withHandler (Playback.mk ([] ++ more))).fault = some fault := failed
    rw [attempt_of_fault failed]
    exact attempt_of_fault stands _
  | none =>
    obtain ⟨replies, plays⟩ := plays
    refine ⟨replies, fun more => ?_⟩
    have clean : (unpacker.withHandler (Playback.mk (replies ++ more))).fault = none := failed
    simp only [attempt, failed, clean, plays]
    exact settle_withHandler _ _ _

theorem plays_currentExt (unpacker : Unpacker σ)
    (read : ByteOrder → List UInt8 → Except Fault α) :
    Plays (unpacker.currentExt read) fun playback =>
      (unpacker.withHandler playback).currentExt read := by
  refine unpacker.plays_attempt ⟨[], fun more => ?_⟩
  have same : (unpacker.withHandler (Playback.mk ([] ++ more))).item? = unpacker.item? := rfl
  simp only [same]
  split <;> rfl

theorem plays_rescan (unpacker : Unpacker σ) :
    Plays unpacker.rescan fun playback => (unpacker.withHandler playback).rescan := by
  refine unpacker.plays_attempt ⟨[], fun more => ?_⟩
  have same : (unpacker.withHandler (Playback.mk ([] ++ more))).buffer = unpacker.buffer := rfl
  simp only [same]
  split <;> rfl

section

variable [Refiller σ] (unpacker : Unpacker σ)

theorem plays_demand (needed : Nat) (leading : Bool) :
    Plays (unpacker.demand needed leading) fun playback =>
      (unpacker.withHandler playback).demand needed leading := by
  by_cases enough : needed ≤ unpacker.buffer.remaining
  · refine ⟨[], fun more => ?_⟩
    simp only [demand]
    rw [if_pos enough]
    exact if_pos enough
  · let reply := Refiller.refill unpacker.handler unpacker.buffer needed
    refine ⟨[(reply.status, reply.buffer)], fun more => ?_⟩
    have again : (unpacker.withHandler (Playback.mk ([(reply.status, reply.buffer)] ++ more))).refill
        needed = ((unpacker.refill needed).1, (unpacker.refill needed).2.withHandler ⟨more⟩) := rfl
    simp only [demand, again]
    rw [if_neg enough]
    refine (if_neg enough).trans ?_
    generalize unpacker.refill needed = result
    obtain ⟨fault | _, after⟩ := result
    · cases fault <;> rfl
    · dsimp only
      by_cases met : needed ≤ after.buffer.remaining
      · rw [if_pos met]
        exact if_pos met
      · rw [if_neg met]
        exact if_neg met

theorem plays_take (count : Nat) (leading : Bool) :
    Plays (unpacker.take count leading) fun playback =>
      (unpacker.withHandler playback).take count leading := by
  refine (unpacker.plays_demand count leading).andThen (plays_nothing _) fun _ _ demanded => ?_
  simp only [take, demanded]
  generalize unpacker.demand count leading = result
  obtain ⟨_ | _, after⟩ := result <;> rfl

theorem plays_peek (count : Nat) :
    Plays (unpacker.peek count) fun playback => (unpacker.withHandler playback).peek count := by
  refine (unpacker.plays_demand count true).andThen (plays_nothing _) fun _ _ demanded => ?_
  simp only [peek, demanded]
  generalize unpacker.demand count true = result
  obtain ⟨_ | _, after⟩ := result <;> rfl

theorem plays_perform (scan : Scan α) :
    Plays (perform scan unpacker) fun playback => perform scan (unpacker.withHandler playback) := by
  induction scan generalizing unpacker with
  | done value => exact plays_nothing _
  | fail fault => exact plays_nothing _
  | take count leading next ih =>
    have plays := unpacker.plays_take count leading
    rw [perform]
    generalize unpacker.take count leading = result at plays ⊢
    obtain ⟨fault | bytes, after⟩ := result
    · exact plays.andThen (plays_nothing _) fun _ _ taken => by simp only [perform, taken]
    · exact plays.andThen (ih bytes after) fun _ _ taken => by simp only [perform, taken]

theorem plays_readPayload (header : Header) :
    Plays (unpacker.readPayload header) fun playback =>
      (unpacker.withHandler playback).readPayload header := by
  unfold readPayload
  split
  · exact plays_nothing _
  · rename_i length _
    refine (unpacker.plays_take length false).andThen (plays_nothing _) fun _ _ taken => ?_
    simp only [taken]
    generalize unpacker.take length false = result
    obtain ⟨_ | _, after⟩ := result <;> rfl

theorem plays_nextHeader :
    Plays unpacker.nextHeader fun playback => (unpacker.withHandler playback).nextHeader := by
  refine unpacker.plays_attempt ?_
  refine (plays_perform { unpacker with last := none } (Header.scan unpacker.order)).andThen
    (plays_nothing _) fun _ _ scanned => ?_
  simp only [withHandler] at scanned ⊢
  simp only [scanned]
  generalize perform (Header.scan unpacker.order) (_ : Unpacker σ) = result
  obtain ⟨_ | header, after⟩ := result <;> rfl

theorem plays_next : Plays unpacker.next fun playback => (unpacker.withHandler playback).next := by
  refine unpacker.plays_attempt ?_
  have plays := plays_perform { unpacker with last := none } (Header.scan unpacker.order)
  generalize perform (Header.scan unpacker.order) (_ : Unpacker σ) = result at plays ⊢
  obtain ⟨fault | header, after⟩ := result
  · refine plays.andThen (plays_nothing _) fun _ _ scanned => ?_
    simp only [withHandler] at scanned ⊢
    simp only [scanned]
  · refine plays.andThen (after.plays_readPayload header) fun _ _ scanned => ?_
    simp only [withHandler] at scanned ⊢
    simp only [scanned]

theorem plays_nextAs (view : Item → Except Fault α) :
    Plays (unpacker.nextAs view) fun playback => (unpacker.withHandler playback).nextAs view := by
  refine unpacker.plays_next.andThen (plays_nothing _) fun _ _ read => ?_
  simp only [nextAs, read]
  generalize unpacker.next = result
  obtain ⟨_ | item, after⟩ := result
  · rfl
  · exact settle_withHandler _ _ _

theorem plays_lookAhead :
    Plays unpacker.lookAhead fun playback => (unpacker.withHandler playback).lookAhead := by
  unfold lookAhead
  by_cases failed : unpacker.fault.isSome
  · refine ⟨[], fun more => ?_⟩
    rw [if_pos failed]
    exact if_pos failed
  have clean (handler : Playback) : ¬(unpacker.withHandler handler).fault.isSome := failed
  have plays := unpacker.plays_peek 1
  simp only [if_neg failed, if_neg (clean _)]
  generalize unpacker.peek 1 = result at plays ⊢
  obtain ⟨_ | bytes, after⟩ := result
  · exact plays.andThen (plays_nothing _) fun _ _ found => by simp only [found]
  cases clue : Kind.Clue.ofTag (.ofByte (bytes.headD 0)) with
  | known kind =>
    exact plays.andThen (plays_nothing _) fun _ _ found => by simp only [found, clue]
  | extType count | sign count =>
    obtain ⟨front, plays⟩ := plays
    obtain ⟨back, others⟩ := after.plays_peek count
    refine ⟨front ++ back, fun more => ?_⟩
    simp only [clue, List.append_assoc, plays, others]
    generalize after.peek count = result
    obtain ⟨_ | bytes, last⟩ := result <;> rfl

theorem plays_skipPending {rounds pending : Nat} {result : Except Fault Skipped × Unpacker σ}
    (ends : skipPending? rounds pending unpacker = some result) :
    Plays result fun playback => (unpacker.withHandler playback).skipPending pending := by
  induction rounds generalizing unpacker pending with
  | zero =>
    cases pending with
    | zero =>
      cases ends
      exact ⟨[], fun _ => skipPending_zero _⟩
    | succ pending => cases ends
  | succ rounds ih =>
    cases pending with
    | zero =>
      cases ends
      exact ⟨[], fun _ => skipPending_zero _⟩
    | succ pending =>
      have plays := unpacker.plays_perform (Extent.scan unpacker.order)
      rw [skipPending?] at ends
      generalize perform (Extent.scan unpacker.order) unpacker = result at plays ends
      obtain ⟨fault | items, after⟩ := result
      · cases ends
        exact plays.andThen (plays_nothing _) fun _ _ stepped => by
          simp only [skipPending_succ, order_withHandler, stepped]
      dsimp only at ends
      by_cases room : pending + items < UInt64.size
      · rw [if_pos room] at ends
        exact plays.andThen (ih after ends) fun _ _ stepped => by
          simp only [skipPending_succ, order_withHandler, stepped, if_pos room]
      · rw [if_neg room] at ends
        cases ends
        exact plays.andThen (plays_nothing _) fun _ _ stepped => by
          simp only [skipPending_succ, order_withHandler, stepped, if_neg room]

theorem plays_skip {rounds : Nat} {count : UInt64} {result : Except Fault Skipped × Unpacker σ}
    (ends : unpacker.skip? rounds count = some result) :
    Plays result fun playback => (unpacker.withHandler playback).skip count := by
  cases failed : unpacker.fault with
  | some fault =>
    simp only [skip?, failed] at ends
    cases ends
    refine ⟨[], fun more => ?_⟩
    have stands : (unpacker.withHandler (Playback.mk ([] ++ more))).fault = some fault := failed
    exact attempt_of_fault stands _
  | none =>
    simp only [skip?, failed] at ends
    obtain ⟨answer, stepped, rfl⟩ := Option.map_eq_some_iff.mp ends
    obtain ⟨replies, plays⟩ := (plays_skipPending _ stepped).settle
    refine ⟨replies, fun more => ?_⟩
    have clean : (unpacker.withHandler (Playback.mk (replies ++ more))).fault = none := failed
    simp only [skip, attempt, clean]
    exact plays more

theorem plays_reply {rounds : Nat} {request : Request} {result : Except Fault Answer × Unpacker σ}
    (ends : unpacker.reply? rounds request = some result) :
    Plays result fun playback => (unpacker.withHandler playback).reply request := by
  cases request with
  | extInteger | extFloat | extDouble =>
    cases ends
    exact (unpacker.plays_currentExt _).map _
  | call call =>
    cases call with
    | next => cases ends; exact unpacker.plays_next.map _
    | nextHeader => cases ends; exact unpacker.plays_nextHeader.map _
    | nextAs view => cases ends; exact unpacker.plays_nextAs _
    | skip count =>
      obtain ⟨skipped, ended, rfl⟩ := Option.map_eq_some_iff.mp ends
      exact (unpacker.plays_skip ended).map _
    | lookAhead => cases ends; exact unpacker.plays_lookAhead.map _
    | rescan => cases ends; exact unpacker.plays_rescan.map _
    | setBarrier | clearBarrier | status => cases ends; exact ⟨[], fun _ => rfl⟩

theorem plays_replies {rounds : Nat} {requests : List Request}
    {result : List (Except Fault Answer) × Unpacker σ}
    (ends : unpacker.replies? rounds requests = some result) :
    Plays result fun playback => (unpacker.withHandler playback).replies requests := by
  induction requests generalizing unpacker result with
  | nil =>
    cases ends
    exact ⟨[], fun _ => rfl⟩
  | cons request requests ih =>
    simp only [replies?, Option.bind_eq_bind] at ends
    obtain ⟨⟨answer, after⟩, replied, ends⟩ := Option.bind_eq_some_iff.mp ends
    obtain ⟨⟨answers, last⟩, ended, done⟩ := Option.bind_eq_some_iff.mp ends
    cases done
    refine (unpacker.plays_reply replied).andThen ((ih after ended).map (answer :: ·))
      fun _ _ first => ?_
    simp only [Unpacker.replies, first]
    rfl

end

/-- What holds of every run over a handler with a bound holds of every run that ends. -/
theorem replies?_of_inlets [Refiller σ] {unpacker after : Unpacker σ} {rounds : Nat}
    {requests : List Request} {answers : List (Except Fault Answer)}
    (ends : unpacker.replies? rounds requests = some (answers, after))
    {holds : List (Except Fault Answer) → Unpacker Unit → Prop}
    (all : ∀ (τ : Type) [Inlet τ] (handler : τ),
      holds ((unpacker.withHandler handler).replies requests).1
        (((unpacker.withHandler handler).replies requests).2.withHandler ())) :
    holds answers (after.withHandler ()) := by
  obtain ⟨replies, plays⟩ := unpacker.plays_replies ends
  have played := all Playback ⟨replies ++ []⟩
  have same : (unpacker.withHandler (Playback.mk (replies ++ []))).replies requests =
    (answers, after.withHandler ⟨[]⟩) := plays []
  rw [same] at played
  exact played

end Unpacker

/-- Whatever the handler, and whether or not it has a bound, the status after a run that ends is
that of the byte order, then the first fault that was answered. -/
theorem Unpacker.status_of_ends [Refiller σ] {buffer : Incoming} {handler : σ} {order : ByteOrder}
    {rounds : Nat} {requests : List Request} {answers : List (Except Fault Answer)}
    {after : Unpacker σ}
    (ends : (new buffer handler order).replies? rounds requests = some (answers, after)) :
    after.status = (do order.status; firstFault answers) := by
  refine @replies?_of_inlets _ _ _ _ _ _ _ ends
    (fun answers last => last.status = (do order.status; firstFault answers)) fun τ _ other => ?_
  obtain ⟨status, _⟩ := heeds_replies requests (new buffer other order) fun _ => rfl
  rw [status_new] at status
  exact status

end MessagePack
