import MessagePack.Proofs.AcceptingOutput

/-! Packing into an output stream that may fail. What a call asks of the stream depends on the
packer and not on the stream, and the request that fails is the last of all. So a stream that
fails has received the front of what one receives that does not. -/
namespace MessagePack

namespace Output

inductive Request where
  | write (bytes : List UInt8)
  | flush
  deriving DecidableEq, Repr

def Request.bytes : Request → List UInt8
  | .write bytes => bytes
  | .flush => []

def answer (request : Request) (output : Output) : Except String Unit × Output :=
  match request with
  | .write bytes => output.writeAll bytes
  | .flush => output.flush

/-- One request after another, up to the first that fails. -/
def perform : List Request → Output → Except String Unit × Output
  | [], output => (.ok (), output)
  | request :: requests, output =>
    match output.answer request with
    | (.error text, output) => (.error text, output)
    | (.ok _, output) => output.perform requests

/-- Of `bytes` a front has been received, all of them if nothing failed. -/
structure Takes (output : Output) (bytes : List UInt8) (result : Except String Unit × Output) :
    Prop where
  grows : output.received.toList <+: result.2.received.toList
  within : result.2.received.toList <+: output.received.toList ++ bytes
  whole : result.1 = .ok () → result.2.received.toList = output.received.toList ++ bytes

theorem received_write (output : Output) (bytes : List UInt8) :
    (output.write bytes).2.received.toList = output.received.toList ++
      match (output.write bytes).1 with
      | .ok count => bytes.take count
      | .error _ => [] := by
  simp only [write]
  split
  · exact (List.append_nil _).symm
  · rw [toList_foldl_push, List.take_eq_take_min]

theorem Takes.stopped {output next : Output}
    (same : next.received.toList = output.received.toList) (bytes : List UInt8) (text : String) :
    output.Takes bytes (.error text, next) where
  grows := same ▸ List.prefix_refl _
  within := same ▸ List.prefix_append _ _
  whole := nofun

theorem Takes.trans {output next : Output} {front back : List UInt8}
    {result : Except String Unit × Output} (first : output.Takes front (.ok (), next))
    (second : next.Takes back result) : output.Takes (front ++ back) result := by
  have received := first.whole rfl
  dsimp only at received
  constructor
  · exact first.grows.trans second.grows
  · rw [← List.append_assoc, ← received]
    exact second.within
  · intro passed
    rw [second.whole passed, received, List.append_assoc]

theorem takes_writeAll (output : Output) (bytes : List UInt8) :
    output.Takes bytes (output.writeAll bytes) := by
  fun_induction writeAll output bytes with
  | case1 output => exact ⟨List.prefix_refl _, List.prefix_append _ _, fun _ => by simp⟩
  | case2 output bytes more text next failed =>
    have received := output.received_write bytes
    rw [failed] at received
    exact .stopped (received.trans (List.append_nil _)) bytes text
  | case3 output bytes more next full =>
    have received := output.received_write bytes
    rw [full] at received
    exact .stopped (received.trans (List.append_nil _)) bytes _
  | case4 output bytes more count next took ih =>
    have received := output.received_write bytes
    rw [took] at received
    have first : output.Takes (bytes.take (count + 1)) (.ok (), next) := {
      grows := received ▸ List.prefix_append _ _
      within := received ▸ List.prefix_refl _
      whole := fun _ => received }
    have both := first.trans ih
    rwa [List.take_append_drop] at both

theorem takes_answer (request : Request) (output : Output) :
    output.Takes request.bytes (output.answer request) := by
  cases request with
  | write bytes => exact output.takes_writeAll bytes
  | flush => exact ⟨List.prefix_refl _, List.prefix_append _ _, fun _ => (List.append_nil _).symm⟩

theorem takes_perform (requests : List Request) (output : Output) :
    output.Takes (requests.flatMap Request.bytes) (output.perform requests) := by
  induction requests generalizing output with
  | nil => exact ⟨List.prefix_refl _, List.prefix_append _ _, fun _ => (List.append_nil _).symm⟩
  | cons request requests ih =>
    have first := output.takes_answer request
    rw [perform, List.flatMap_cons]
    generalize output.answer request = result at first
    rcases result with ⟨text | _, next⟩
    · exact ⟨first.grows, first.within.trans (by
        rw [← List.append_assoc]
        exact List.prefix_append _ _), nofun⟩
    · exact first.trans (ih next)

theorem perform_append (front back : List Request) (output : Output) :
    output.perform (front ++ back) =
      match output.perform front with
      | (.error text, next) => (.error text, next)
      | (.ok _, next) => next.perform back := by
  induction front generalizing output with
  | nil => rfl
  | cons request front ih =>
    simp only [List.cons_append, perform]
    generalize output.answer request = result
    rcases result with ⟨text | _, next⟩
    · rfl
    · exact ih next

theorem Accepts.perform {output : Output} (accepts : output.Accepts) (requests : List Request) :
    (output.perform requests).1 = .ok () ∧ (output.perform requests).2.Accepts := by
  induction requests generalizing output with
  | nil => exact ⟨rfl, accepts⟩
  | cons request requests ih =>
    have first : (output.answer request).1 = .ok () ∧ (output.answer request).2.Accepts := by
      cases request with
      | write bytes =>
        obtain ⟨answered, stays, _⟩ := accepts.writeAll bytes
        exact ⟨answered, stays⟩
      | flush =>
        have none := accepts.2 output.flushes
        simp only [answer, flush, none]
        exact ⟨trivial, accepts⟩
    obtain ⟨answered, stays⟩ := first
    rw [Output.perform]
    generalize output.answer request = result at answered stays
    obtain ⟨_, next⟩ := result
    subst answered
    exact ih stays

end Output

theorem Value.encode_ne (value : Value) (dialect : Dialect) :
    value.encode dialect ≠ .error .errorInHandler := by
  have timestamp (time : Timestamp) : time.encode dialect ≠ .error .errorInHandler := by
    unfold Timestamp.encode
    split
    · simp
    · split <;> simp
  cases value with
  | timestamp | systemTime | timeInterval => exact timestamp _
  | str | bin | extSize | extInteger | extFloat | extDouble =>
    simp only [encode]
    split <;> simp
  | ext =>
    simp only [encode]
    split
    · simp
    · split <;> simp
  | _ => simp [encode]

namespace Packer

/-- The packer with another stream in the place of its own. -/
def onto (packer : Packer Sink) (output : Output) : Packer Sink :=
  { packer with handler := ⟨output⟩ }

/-- What a call makes of the stream, whatever stream it is: it makes `requests`, up to the
first that fails, whose text it keeps, and if none fails it answers `status`. -/
structure Asks (call : Packer Sink → Status × Packer Sink) (packer : Packer Sink)
    (requests : List Output.Request) (status : Status) (after : Packer Sink) : Prop where
  passed : ∀ output next, output.perform requests = (.ok (), next) →
    call (packer.onto output) = (status, after.onto next)
  failed : ∀ output text next, output.perform requests = (.error text, next) →
    ∃ kept : Packer Sink, kept.buffer.failure = some text ∧
      call (packer.onto output) = (.error .errorInHandler, kept.onto next)
  clear : packer.fault ≠ some .errorInHandler →
    status ≠ .error .errorInHandler ∧ after.fault ≠ some .errorInHandler

/-- What the call makes of the stream does not depend on the stream. -/
def Scripted (call : Packer Sink → Status × Packer Sink) (packer : Packer Sink) : Prop :=
  ∃ requests status after, Asks call packer requests status after

namespace Scripted

variable {packer : Packer Sink}

theorem of_eq {call : Packer Sink → Status × Packer Sink} (status : Status)
    (after : Packer Sink)
    (same : ∀ output, call (packer.onto output) = (status, after.onto output))
    (clear : packer.fault ≠ some .errorInHandler →
      status ≠ .error .errorInHandler ∧ after.fault ≠ some .errorInHandler) :
    Scripted call packer := by
  refine ⟨[], status, after, ?_, ?_, clear⟩
  · rintro output _ ⟨⟩
    exact same output
  · rintro output text next ⟨⟩

theorem congr {call other : Packer Sink → Status × Packer Sink} (scripted : Scripted call packer)
    (same : ∀ output, other (packer.onto output) = call (packer.onto output)) :
    Scripted other packer := by
  obtain ⟨requests, status, after, asks⟩ := scripted
  refine ⟨requests, status, after, ?_, ?_, asks.clear⟩
  · intro output next done
    rw [same]
    exact asks.passed output next done
  · intro output text next broken
    rw [same]
    exact asks.failed output text next broken

theorem bind {first second : Packer Sink → Status × Packer Sink}
    (begins : Scripted first packer) (goesOn : ∀ between, Scripted second between) :
    Scripted (fun packer => match first packer with
      | (.error fault, packer) => (.error fault, packer)
      | (.ok _, packer) => second packer) packer := by
  obtain ⟨front, status, between, asks⟩ := begins
  cases status with
  | error fault =>
    refine ⟨front, .error fault, between, ?_, ?_, asks.clear⟩
    · intro output next done
      rw [asks.passed output next done]
    · intro output text next broken
      obtain ⟨kept, failure, answered⟩ := asks.failed output text next broken
      exact ⟨kept, failure, by rw [answered]⟩
  | ok _ =>
    obtain ⟨back, status, after, more⟩ := goesOn between
    refine ⟨front ++ back, status, after, ?_, ?_, fun clear => more.clear (asks.clear clear).2⟩
    · intro output next done
      rw [Output.perform_append] at done
      split at done
      · cases done
      · rename_i middle passed
        rw [asks.passed output middle passed]
        exact more.passed middle next done
    · intro output text next broken
      rw [Output.perform_append] at broken
      split at broken
      · rename_i failed
        cases broken
        obtain ⟨kept, failure, answered⟩ := asks.failed output text next failed
        exact ⟨kept, failure, by rw [answered]⟩
      · rename_i middle passed
        rw [asks.passed output middle passed]
        exact more.failed middle text next broken

/-- A call that is attempted is not made when a fault stands. -/
theorem attempt {call : Packer Sink → Status × Packer Sink} (scripted : Scripted call packer) :
    Scripted (·.attempt call) packer := by
  cases standing : packer.fault with
  | some fault =>
    refine of_eq (.error fault) packer (fun output => ?_) fun clear => ?_
    · exact attempt_of_fault (show (packer.onto output).fault = some fault from standing) call
    · rw [standing] at clear ⊢
      exact ⟨fun same => clear (congrArg some (Except.error.inj same)), clear⟩
  | none =>
    obtain ⟨requests, status, after, asks⟩ := scripted
    have clean (output : Output) : (packer.onto output).fault = none := standing
    have clear := asks.clear (by rw [standing]; exact nofun)
    have failed (output : Output) (text : String) (next : Output)
        (broken : output.perform requests = (.error text, next)) :
        ∃ kept : Packer Sink, kept.buffer.failure = some text ∧
          (packer.onto output).attempt call = (.error .errorInHandler, kept.onto next) := by
      obtain ⟨kept, failure, answered⟩ := asks.failed output text next broken
      refine ⟨{ kept with fault := some .errorInHandler }, failure, ?_⟩
      rw [Packer.attempt, clean, answered]
      rfl
    cases status with
    | ok _ =>
      refine ⟨requests, .ok (), after, ?_, failed, fun _ => clear⟩
      intro output next done
      rw [Packer.attempt, clean, asks.passed output next done]
    | error fault =>
      refine ⟨requests, .error fault, { after with fault := some fault }, ?_, failed, fun _ => ?_⟩
      · intro output next done
        rw [Packer.attempt, clean, asks.passed output next done]
        rfl
      · exact ⟨clear.1, fun same => clear.1 (congrArg Except.error (Option.some.inj same))⟩

/-! ### The handler -/

theorem request {call : Packer Sink → Status × Packer Sink} (request : Output.Request)
    (after : Outgoing)
    (same : ∀ output, call (packer.onto output) =
      match output.answer request with
      | (.ok _, next) => (.ok (), { packer with buffer := after, handler := ⟨next⟩ })
      | (.error text, next) => (.error .errorInHandler, { packer with
          buffer := { packer.buffer with failure := some text }, handler := ⟨next⟩ })) :
    Scripted call packer := by
  have single (output : Output) : output.perform [request] = output.answer request := by
    rw [Output.perform]
    generalize output.answer request = result
    rcases result with ⟨text | _, next⟩ <;> rfl
  refine ⟨[request], .ok (), { packer with buffer := after }, ?_, ?_, fun clear => ⟨by simp, clear⟩⟩
  · intro output next done
    rw [single] at done
    rw [same, done]
    rfl
  · intro output text next broken
    rw [single] at broken
    rw [same, broken]
    exact ⟨{ packer with buffer := { packer.buffer with failure := some text } }, rfl, rfl⟩

theorem drain (packer : Packer Sink) :
    Scripted (fun packer => packer.settle (packer.handler.drain packer.buffer)) packer := by
  by_cases nothing : packer.buffer.barrier.getD packer.buffer.current ≤ packer.buffer.start
  · refine of_eq (.ok ()) packer (fun output => ?_) fun clear => ⟨by simp, clear⟩
    simp only [settle, Sink.drain]
    rw [if_pos (by exact nothing)]
  · apply request (.write (packer.buffer.region.slice packer.buffer.start
      (packer.buffer.barrier.getD packer.buffer.current)))
      (packer.buffer.discardFront (packer.buffer.barrier.getD packer.buffer.current))
    intro output
    simp only [settle, Sink.drain, Output.answer]
    rw [if_neg (by exact nothing)]
    simp only [onto]
    generalize output.writeAll _ = result
    rcases result with ⟨text | _, next⟩ <;> rfl

theorem settle_flush (packer : Packer Sink) :
    packer.settle (Outlet.flush packer.handler packer.buffer) =
      match packer.settle (packer.handler.drain packer.buffer) with
      | (.error fault, packer) => (.error fault, packer)
      | (.ok _, packer) =>
        packer.settle (Sink.reply ⟨packer.handler.output.flush.2⟩ packer.buffer
          packer.handler.output.flush.1) := by
  simp only [Outlet.flush, Sink.flush, settle]
  cases drained : (packer.handler.drain packer.buffer).status with
  | error fault => rw [drained]
  | ok _ => rfl

theorem settle_makeRoom (packer : Packer Sink) (needed : Nat) :
    packer.settle (Outlet.makeRoom packer.handler packer.buffer needed) =
      match packer.settle (packer.handler.drain packer.buffer) with
      | (.error fault, packer) => (.error fault, packer)
      | (.ok _, packer) =>
        if needed ≤ packer.buffer.remaining then (.ok (), packer)
        else ((packer.buffer.growFor needed).1,
          { packer with buffer := (packer.buffer.growFor needed).2 }) := by
  simp only [Outlet.makeRoom, Sink.makeRoom, settle]
  cases drained : (packer.handler.drain packer.buffer).status with
  | error fault => rw [drained]
  | ok _ =>
    dsimp only
    split
    · rw [drained]
    · rfl

theorem flush (packer : Packer Sink) :
    Scripted (fun packer => packer.settle (Outlet.flush packer.handler packer.buffer)) packer := by
  simp only [settle_flush]
  apply (drain packer).bind
  intro between
  apply request .flush between.buffer
  intro output
  simp only [onto, settle, Sink.reply, Output.answer]
  generalize output.flush = result
  rcases result with ⟨text | _, next⟩ <;> rfl

theorem makeRoom (packer : Packer Sink) (needed : Nat) :
    Scripted (fun packer => packer.settle (Outlet.makeRoom packer.handler packer.buffer needed))
      packer := by
  simp only [settle_makeRoom]
  apply (drain packer).bind
  intro between
  by_cases enough : needed ≤ between.buffer.remaining
  · refine of_eq (.ok ()) between (fun output => ?_) fun clear => ⟨by simp, clear⟩
    rw [if_pos (by exact enough)]
  · refine of_eq (between.buffer.growFor needed).1
      { between with buffer := (between.buffer.growFor needed).2 } (fun output => ?_)
      fun clear => ⟨?_, clear⟩
    · rw [if_neg (by exact enough)]
      rfl
    · intro refused
      obtain ⟨_, cause, _⟩ := Outgoing.growFor_eq_error (Prod.ext refused rfl)
        (Nat.lt_of_not_le enough)
      cases cause

theorem write (packer : Packer Sink) (bytes : List UInt8) :
    Scripted (fun packer => packer.settle (Outlet.write packer.handler packer.buffer bytes))
      packer := by
  apply request (.write bytes) packer.buffer
  intro output
  simp only [onto, settle, Outlet.write, Sink.write, Sink.reply, Output.answer]
  generalize output.writeAll bytes = result
  rcases result with ⟨text | _, next⟩ <;> rfl

/-! ### The calls -/

theorem reserve (packer : Packer Sink) (needed : Nat) :
    Scripted (·.reserve needed) packer := by
  by_cases enough : needed ≤ packer.buffer.remaining
  · refine of_eq (.ok ()) packer (fun output => ?_) fun clear => ⟨by simp, clear⟩
    rw [Packer.reserve, if_pos (by exact enough)]
  have check (between : Packer Sink) : Scripted (fun packer =>
      if needed ≤ packer.buffer.remaining then (.ok (), packer)
      else (.error .bufferOverflow, packer)) between := by
    by_cases made : needed ≤ between.buffer.remaining
    · refine of_eq (.ok ()) between (fun output => ?_) fun clear => ⟨by simp, clear⟩
      rw [if_pos (by exact made)]
    · refine of_eq (.error .bufferOverflow) between (fun output => ?_) fun clear =>
        ⟨by simp, clear⟩
      rw [if_neg (by exact made)]
  refine ((makeRoom packer needed).bind check).congr fun output => ?_
  rw [Packer.reserve, if_neg (by exact enough)]
  generalize (packer.onto output).settle _ = result
  rcases result with ⟨fault | _, between⟩ <;> rfl

theorem emit (packer : Packer Sink) (bytes : List UInt8) : Scripted (·.emit bytes) packer := by
  have append (between : Packer Sink) : Scripted (fun packer =>
      (.ok (), { packer with buffer := packer.buffer.append bytes })) between :=
    of_eq (.ok ()) { between with buffer := between.buffer.append bytes } (fun _ => rfl)
      fun clear => ⟨by simp, clear⟩
  refine ((reserve packer bytes.length).bind append).congr fun output => ?_
  rw [emit_eq]
  generalize (packer.onto output).reserve _ = result
  rcases result with ⟨fault | _, between⟩ <;> rfl

theorem pack (packer : Packer Sink) (value : Value) : Scripted (·.pack value) packer := by
  simp only [pack_eq]
  apply attempt
  cases encoded : value.encode packer.dialect with
  | error fault =>
    refine of_eq (.error fault) packer (fun output => ?_) fun clear => ⟨?_, clear⟩
    · rw [onto, encoded]
    · rintro ⟨⟩
      exact value.encode_ne _ encoded
  | ok bytes =>
    refine (emit packer bytes).congr fun output => ?_
    rw [onto, encoded]

theorem insert (packer : Packer Sink) (bytes : List UInt8) :
    Scripted (·.insert bytes) packer := by
  apply attempt
  by_cases direct : packer.buffer.barrier = none
  · refine ((flush packer).bind fun between => write between bytes).congr fun output => ?_
    rw [if_pos ⟨rfl, rfl, direct⟩]
    generalize (packer.onto output).settle _ = result
    rcases result with ⟨fault | _, between⟩ <;> rfl
  · refine (emit packer bytes).congr fun output => ?_
    rw [if_neg fun both => direct both.2.2]

theorem call (packer : Packer Sink) (call : Call) : Scripted (·.call call) packer := by
  have silent (after : Packer Sink) (fault : after.fault = packer.fault)
      (same : ∀ output, (packer.onto output).call call = (.ok (), after.onto output)) :
      Scripted (·.call call) packer :=
    of_eq (.ok ()) after same fun clear => ⟨by simp, fault ▸ clear⟩
  cases call with
  | pack value => exact pack packer value
  | insert bytes => exact insert packer bytes
  | flush => exact (flush packer).attempt
  | setCompatible compatible => exact silent (packer.setCompatible compatible) rfl fun _ => rfl
  | setBarrier => exact silent { packer with buffer := packer.buffer.setBarrier } rfl fun _ => rfl
  | clearBarrier =>
    exact silent { packer with buffer := packer.buffer.clearBarrier } rfl fun _ => rfl
  | patch position bytes =>
    exact silent { packer with
      buffer := (packer.buffer.patch? position bytes).getD packer.buffer } rfl fun _ => rfl

theorem finish (packer : Packer Sink) : Scripted finish packer := by
  obtain ⟨requests, status, after, asks⟩ :=
    (flush { packer with buffer := packer.buffer.clearBarrier }).attempt
  exact ⟨requests, status, after, asks.passed, asks.failed, asks.clear⟩

end Scripted

/-! ### Runs -/

/-- A call, or the one that ends them. -/
inductive Act where
  | call (call : Call)
  | finish
  deriving DecidableEq, Repr

def Act.Answers : Act → Prop
  | .call (.pack _) | .call (.insert _) | .call .flush | .finish => True
  | .call _ => False

def act (act : Act) (packer : Packer Sink) : Status × Packer Sink :=
  match act with
  | .call call => packer.call call
  | .finish => packer.finish

def received (packer : Packer Sink) : List UInt8 := packer.handler.output.received.toList

/-- The call makes requests of the stream. If one of them fails, so does the call, and it keeps
the text; no other failure is taken for one of the stream. -/
def Reports (packer : Packer Sink) (act : Act) : Prop :=
  ∃ requests, (packer.act act).2.handler.output = (packer.handler.output.perform requests).2 ∧
    match (packer.handler.output.perform requests).1 with
    | .ok _ => (packer.act act).1 ≠ .error .errorInHandler
    | .error text => (packer.act act).1 = .error .errorInHandler ∧
      (packer.act act).2.buffer.failure = some text ∧
      (packer.act act).2.fault = some .errorInHandler

/-- Whatever is called from now on, nothing succeeds and the stream is left alone. -/
def Closed (packer : Packer Sink) : Prop :=
  ∀ calls act, ((packer.run calls).2.act act).2.handler = packer.handler ∧
    (act.Answers → ((packer.run calls).2.act act).1 = .error .errorInHandler)

theorem scripted_act (packer : Packer Sink) (act : Act) : Scripted (·.act act) packer := by
  cases act with
  | call call => exact Scripted.call packer call
  | finish => exact Scripted.finish packer

theorem fault_act {packer : Packer Sink} {act : Act} {fault : Fault}
    (failed : (packer.act act).1 = .error fault) : (packer.act act).2.fault = some fault := by
  have attempt {packer : Packer Sink} {call : Packer Sink → Status × Packer Sink}
      (failed : (packer.attempt call).1 = .error fault) :
      (packer.attempt call).2.fault = some fault := by
    simp only [Packer.attempt] at failed ⊢
    split at failed
    · cases failed
      assumption
    · generalize call packer = result at failed
      rcases result with ⟨_ | _, after⟩ <;> cases failed
      rfl
  cases act with
  | finish => exact attempt failed
  | call call =>
    cases call with
    | pack | insert | flush => exact attempt failed
    | _ => cases failed

theorem act_of_fault {packer : Packer Sink} {fault : Fault} (standing : packer.fault = some fault)
    (act : Act) :
    (packer.act act).2.handler = packer.handler ∧ (packer.act act).2.fault = some fault ∧
      (act.Answers → (packer.act act).1 = .error fault) := by
  have refused (packer : Packer Sink) (standing : packer.fault = some fault)
      (call : Packer Sink → Status × Packer Sink) :
      (packer.attempt call).2.handler = packer.handler ∧
        (packer.attempt call).2.fault = some fault ∧
        (act.Answers → (packer.attempt call).1 = .error fault) := by
    rw [attempt_of_fault standing]
    exact ⟨rfl, standing, fun _ => rfl⟩
  cases act with
  | finish => exact refused { packer with buffer := packer.buffer.clearBarrier } standing _
  | call call =>
    cases call with
    | pack | insert | flush => exact refused packer standing _
    | _ => exact ⟨rfl, standing, False.elim⟩

theorem closed_of_fault {packer : Packer Sink} (standing : packer.fault = some .errorInHandler) :
    packer.Closed := by
  intro calls act
  induction calls generalizing packer with
  | nil =>
    obtain ⟨same, _, refused⟩ := act_of_fault standing act
    exact ⟨same, refused⟩
  | cons call calls ih =>
    obtain ⟨same, stays, _⟩ := act_of_fault standing (.call call)
    obtain ⟨still, refused⟩ := ih stays
    exact ⟨still.trans same, refused⟩

theorem reports (packer : Packer Sink) (clean : packer.fault ≠ some .errorInHandler)
    (act : Act) : packer.Reports act := by
  obtain ⟨requests, status, after, asks⟩ := scripted_act packer act
  refine ⟨requests, ?_⟩
  have onto : packer.onto packer.handler.output = packer := rfl
  cases performed : packer.handler.output.perform requests with
  | mk answer next =>
    cases answer with
    | ok _ =>
      have same := asks.passed packer.handler.output next performed
      rw [onto] at same
      rw [same]
      exact ⟨rfl, (asks.clear clean).1⟩
    | error text =>
      obtain ⟨kept, failure, same⟩ := asks.failed packer.handler.output text next performed
      rw [onto] at same
      have standing := fault_act (congrArg Prod.fst same)
      rw [same] at standing ⊢
      exact ⟨rfl, rfl, failure, standing⟩

theorem received_grows (packer : Packer Sink) (act : Act) :
    packer.received <+: (packer.act act).2.received := by
  by_cases standing : packer.fault = some .errorInHandler
  · obtain ⟨same, _⟩ := act_of_fault standing act
    exact ⟨[], by rw [List.append_nil, received, received, same]⟩
  · obtain ⟨requests, same, _⟩ := reports packer standing act
    rw [received, received, same]
    exact (Output.takes_perform requests packer.handler.output).grows

/-- A call does on any stream what it does on one that accepts, and does not fail by, unless the
stream fails. -/
theorem act_onto {packer steady : Packer Sink}
    (same : packer.onto steady.handler.output = steady)
    (accepts : steady.handler.output.Accepts) (act : Act) :
    ∃ bytes, (steady.act act).2.handler.output.Accepts ∧
      (steady.fault ≠ some .errorInHandler → (steady.act act).2.fault ≠ some .errorInHandler) ∧
      (steady.act act).2.received = steady.received ++ bytes ∧
      ((packer.act act).1 = (steady.act act).1 ∧
          (packer.act act).2.onto (steady.act act).2.handler.output = (steady.act act).2 ∧
          (packer.act act).2.received = packer.received ++ bytes ∨
        (packer.act act).2.fault = some .errorInHandler ∧
          (packer.act act).2.received <+: packer.received ++ bytes) := by
  obtain ⟨requests, status, after, asks⟩ := scripted_act steady act
  obtain ⟨performed, accepts⟩ := accepts.perform requests
  have whole := (Output.takes_perform requests steady.handler.output).whole performed
  generalize reached : steady.handler.output.perform requests = result at performed accepts whole
  obtain ⟨_, next⟩ := result
  dsimp only at performed accepts whole
  subst performed
  have goesOn : steady.act act = (status, after.onto next) := asks.passed _ _ reached
  have own : steady.onto packer.handler.output = packer := by rw [← same]; rfl
  have takes := Output.takes_perform requests packer.handler.output
  rw [goesOn]
  refine ⟨requests.flatMap Output.Request.bytes, accepts, fun clean => (asks.clear clean).2, whole,
    ?_⟩
  cases met : packer.handler.output.perform requests with
  | mk answer other =>
    rw [met] at takes
    cases answer with
    | ok _ =>
      have passed := asks.passed _ _ met
      rw [own] at passed
      rw [passed]
      exact .inl ⟨rfl, rfl, takes.whole rfl⟩
    | error text =>
      obtain ⟨kept, _, failed⟩ := asks.failed _ _ _ met
      rw [own] at failed
      have standing := fault_act (congrArg Prod.fst failed)
      rw [failed] at standing ⊢
      exact .inr ⟨standing, takes.within⟩

theorem run_onto {packer steady : Packer Sink}
    (same : packer.onto steady.handler.output = steady)
    (accepts : steady.handler.output.Accepts) (calls : List Call) :
    (packer.run calls).2.fault = some .errorInHandler ∨
      (packer.run calls).1 = (steady.run calls).1 ∧
        (packer.run calls).2.onto (steady.run calls).2.handler.output = (steady.run calls).2 ∧
        ∃ bytes, (steady.run calls).2.received = steady.received ++ bytes ∧
          (packer.run calls).2.received = packer.received ++ bytes := by
  induction calls generalizing packer steady with
  | nil => exact .inr ⟨rfl, same, [], by simp [run], by simp [run]⟩
  | cons call calls ih =>
    obtain ⟨front, accepts, _, whole, ⟨answer, stays, all⟩ | ⟨standing, _⟩⟩ :=
      act_onto same accepts (.call call)
    · rcases ih stays accepts with standing | ⟨answers, ends, back, others, rest⟩
      · exact .inl standing
      · refine .inr ⟨List.cons_eq_cons.mpr ⟨answer, answers⟩, ends, front ++ back, ?_, ?_⟩
        · rw [← List.append_assoc, ← whole]
          exact others
        · rw [← List.append_assoc, ← all]
          exact rest
    · exact .inl (fault_run standing calls)

theorem clean_run {packer : Packer Sink} (accepts : packer.handler.output.Accepts)
    (clean : packer.fault ≠ some .errorInHandler) (calls : List Call) :
    (packer.run calls).2.fault ≠ some .errorInHandler ∧
      (packer.run calls).2.handler.output.Accepts := by
  induction calls generalizing packer with
  | nil => exact ⟨clean, accepts⟩
  | cons call calls ih =>
    obtain ⟨_, stays, clear, _⟩ :=
      act_onto (show packer.onto _ = packer from rfl) accepts (.call call)
    exact ih stays (clear clean)

/-- The packer has a stream that has failed, or else does what another does whose stream
accepts all that it is offered. -/
structure Trails (packer steady : Packer Sink) : Prop where
  accepts : steady.handler.output.Accepts
  clean : steady.fault ≠ some .errorInHandler
  behind : packer.onto steady.handler.output = steady ∧ packer.received = steady.received ∨
    packer.fault = some .errorInHandler ∧ packer.received <+: steady.received

namespace Trails

variable {packer steady : Packer Sink}

theorem act (trails : packer.Trails steady) (act : Act) :
    (packer.act act).2.Trails (steady.act act).2 := by
  rcases trails.behind with ⟨same, level⟩ | ⟨standing, behind⟩
  · obtain ⟨bytes, accepts, clear, whole, ⟨_, stays, all⟩ | ⟨standing, front⟩⟩ :=
      act_onto same trails.accepts act
    · refine ⟨accepts, clear trails.clean, .inl ⟨stays, ?_⟩⟩
      rw [all, whole, level]
    · refine ⟨accepts, clear trails.clean, .inr ⟨standing, ?_⟩⟩
      rw [whole, ← level]
      exact front
  · obtain ⟨_, accepts, clear, _⟩ :=
      act_onto (show steady.onto _ = steady from rfl) trails.accepts act
    obtain ⟨same, stays, _⟩ := act_of_fault standing act
    refine ⟨accepts, clear trails.clean, .inr ⟨stays, ?_⟩⟩
    rw [received, same]
    exact behind.trans (received_grows steady act)

theorem run (trails : packer.Trails steady) (calls : List Call) :
    (packer.run calls).2.Trails (steady.run calls).2 := by
  induction calls generalizing packer steady with
  | nil => exact trails
  | cons call calls ih => exact ih (trails.act (.call call))

theorem received_le (trails : packer.Trails steady) : packer.received <+: steady.received := by
  rcases trails.behind with ⟨_, level⟩ | ⟨_, behind⟩
  · exact level ▸ List.prefix_refl _
  · exact behind

theorem start (plan : Output.Plan) (capacity ceiling : Nat) (dialect : Dialect) :
    ((toOutput (.ofPlan plan) capacity dialect).withCeiling ceiling).Trails
      ((toOutput (.ofPlan .steady) capacity dialect).withCeiling ceiling) where
  accepts := Output.accepts_steady
  clean := by
    simp only [withCeiling, toOutput, new]
    split
    · simp
    · rename_i fault _
      cases fault <;> simp [BytesFault.toFault]
  behind := .inl ⟨rfl, rfl⟩

end Trails

theorem received_run (packer : Packer Sink) (calls : List Call) :
    packer.received <+: (packer.run calls).2.received := by
  induction calls generalizing packer with
  | nil => exact List.prefix_refl _
  | cons call calls ih => exact (packer.received_grows (.call call)).trans (ih _)

/-- Failing output. Wherever a stream fails, it has received the front of what a stream
receives that does not fail, in whatever pieces it takes the bytes. The first call that meets
the failure reports it, and is the last to reach the stream or to succeed. -/
theorem failing_output (plan : Output.Plan) (capacity ceiling : Nat) (dialect : Dialect)
    (calls : List Call) :
    let failing := (toOutput (.ofPlan plan) capacity dialect).withCeiling ceiling
    let steady := (toOutput (.ofPlan .steady) capacity dialect).withCeiling ceiling
    let whole := (steady.run calls).2.finish.2.received
    (∀ front, front <+: calls → (failing.run front).2.received <+: whole) ∧
      (failing.run calls).2.finish.2.received <+: whole ∧
      ∀ act, let before := (failing.run calls).2
        let after := (before.act act).2
        before.received <+: after.received ∧
          (before.fault ≠ some .errorInHandler → before.Reports act) ∧
          (after.fault = some .errorInHandler → after.Closed) := by
  dsimp only
  have trails := Trails.start plan capacity ceiling dialect
  refine ⟨?_, ((trails.run calls).act .finish).received_le, fun act => ?_⟩
  · rintro front ⟨back, rfl⟩
    have later := received_run
      (((toOutput (.ofPlan .steady) capacity dialect).withCeiling ceiling).run front).2 back
    rw [← run_append] at later
    exact ((trails.run front).received_le.trans later).trans (received_grows _ .finish)
  · exact ⟨received_grows _ act, fun clean => reports _ clean act, closed_of_fault⟩

end Packer
end MessagePack
