import MessagePack.Proofs.FailingOutput
import MessagePack.Proofs.RoundTrip
import MessagePack.Proofs.RoomRequests

/-! Payloads in pieces. The header of a str, bin or ext can be packed by itself, and its payload
inserted after it, cut anywhere. The bytes come another way then: they ask for room piece by piece,
or pass the buffer by, where the stream is flushed before them. What is written depends on the
bytes alone and not on how they are spread over calls. -/
namespace MessagePack

theorem Outgoing.Sound.patch? {buffer : Outgoing} (sound : buffer.Sound) (position : Nat)
    (bytes : List UInt8) : ((buffer.patch? position bytes).getD buffer).Sound := by
  have bounds : buffer.start ≤ buffer.barrier.getD buffer.current ∧
      buffer.barrier.getD buffer.current ≤ buffer.current := by
    cases set : buffer.barrier with
    | none => exact ⟨sound.start_le, Nat.le_refl _⟩
    | some barrier => exact sound.barrier_bounds barrier set
  simp only [Outgoing.patch?]
  split
  · exact (sound.patch (by omega) (by omega)).1
  · exact sound

/-! ### Calls that write -/

namespace Packer

/-- All the calls succeed, and what is written are the bytes. -/
structure Adds [Outlet σ] (output : Packer σ → List UInt8) (packer : Packer σ)
    (calls : List Call) (bytes : List UInt8) : Prop where
  answers : (packer.run calls).1 = calls.map fun _ => .ok ()
  fault : (packer.run calls).2.fault = none
  output : output (packer.run calls).2 = output packer ++ bytes

section

variable [Outlet σ] {packer next : Packer σ} {calls : List Call}

theorem Adds.cons {output : Packer σ → List UInt8} {call : Call} {front back : List UInt8}
    (rest : next.Adds output calls back) (first : packer.call call = (.ok (), next))
    (moved : output next = output packer ++ front) :
    packer.Adds output (call :: calls) (front ++ back) where
  answers := by
    rw [run, first, List.map_cons]
    exact congrArg (_ :: ·) rest.answers
  fault := by
    rw [run, first]
    exact rest.fault
  output := by
    rw [run, first, ← List.append_assoc, ← moved]
    exact rest.output

/-- Over a channel the text grows by the bytes of the calls, however they are spread. -/
theorem Holds.run_writes [Channel σ] {draft : Draft} {ceiling : Nat}
    (holds : packer.Holds draft ceiling) (clean : packer.fault = none)
    (writes : ∀ call ∈ calls, call.Writes packer.dialect)
    (allocation : Granted ceiling
      (draft.text ++ calls.flatMap (·.bytes packer.dialect)).length) :
    packer.Adds (fun packer => Channel.delivered packer.handler ++ packer.buffer.packed) calls
      (calls.flatMap (·.bytes packer.dialect)) := by
  have own : draft.fault = none := holds.fault.symm.trans clean
  have drafted := Draft.run_writes writes own holds.dialect.symm
  have outcome := holds.run calls fun flushes => (writes _ flushes).elim
  rw [drafted] at outcome
  rcases outcome with ⟨answers, stays⟩ | ⟨_, refused⟩
  · exact ⟨answers, stays.fault.trans own, by rw [stays.text, holds.text]⟩
  · exact absurd allocation refused

end

/-! ### Memory -/

theorem adds_growable {packer : Packer Growable} {calls : List Call}
    {draft : Draft} {ceiling : Nat} (holds : packer.Holds draft ceiling)
    (clean : packer.fault = none) (writes : ∀ call ∈ calls, call.Writes packer.dialect)
    (allocation : Granted ceiling
      (packer.buffer.packed.length + (calls.flatMap (·.bytes packer.dialect)).length)) :
    packer.Adds (·.buffer.packed) calls (calls.flatMap (·.bytes packer.dialect)) := by
  rw [holds.packed_eq, ← List.length_append] at allocation
  obtain ⟨answers, fault, output⟩ := holds.run_writes clean writes allocation
  exact ⟨answers, fault, output⟩

section

variable {packer : Packer Fixed} {calls : List Call} {call : Call}

/-- A call finds room for its bytes in the region, or overflows it. -/
theorem call_fixed (clean : packer.fault = none)
    (writes : call.Writes packer.dialect) :
    if (call.bytes packer.dialect).length ≤ packer.buffer.remaining then
      packer.call call =
        (.ok (), { packer with buffer := packer.buffer.append (call.bytes packer.dialect) })
    else packer.call call = (.error .bufferOverflow,
      { packer with fault := some .bufferOverflow }) := by
  have claims : packer.buffered? call = some (call.bytes packer.dialect) := by
    cases call with
    | pack value =>
      have encoded : value.encode packer.dialect = .ok (value.bytes packer.dialect) := writes
      rw [buffered?, encoded]
      rfl
    | insert bytes => rfl
    | flush | setCompatible | setBarrier | clearBarrier | patch => exact writes.elim
  rw [call_of_claim claims, attempt_of_clean clean]
  split
  · rw [emit_of_room ‹_›]
  · rw [emit_of_short (Nat.lt_of_not_le ‹_›)]
    rfl

/-- The bytes go into the region if there is room for all of them. -/
theorem adds_fixed (sound : packer.buffer.Sound) (clean : packer.fault = none)
    (writes : ∀ call ∈ calls, call.Writes packer.dialect) :
    if (calls.flatMap (·.bytes packer.dialect)).length ≤ packer.buffer.remaining then
      packer.Adds (·.buffer.packed) calls (calls.flatMap (·.bytes packer.dialect))
    else (packer.run calls).2.fault = some .bufferOverflow := by
  induction calls generalizing packer with
  | nil => exact ⟨rfl, clean, (List.append_nil _).symm⟩
  | cons call calls ih =>
    obtain ⟨own, others⟩ := List.forall_mem_cons.mp writes
    have first := call_fixed clean own
    rw [List.flatMap_cons, List.length_append]
    by_cases room : (call.bytes packer.dialect).length ≤ packer.buffer.remaining
    · let next := { packer with buffer := packer.buffer.append (call.bytes packer.dialect) }
      have sound' : next.buffer.Sound := sound.append room
      have left : next.buffer.remaining =
          packer.buffer.remaining - (call.bytes packer.dialect).length :=
        packer.buffer.remaining_append _
      have rest := ih sound' clean others
      rw [left] at rest
      rw [if_pos room] at first
      by_cases enough : (calls.flatMap (·.bytes packer.dialect)).length ≤
          packer.buffer.remaining - (call.bytes packer.dialect).length
      · rw [if_pos enough] at rest
        rw [if_pos (by omega)]
        exact rest.cons first (sound.packed_append room)
      · rw [if_neg enough] at rest
        rw [if_neg (by omega), run, first]
        exact rest
    · rw [if_neg room] at first
      rw [if_neg (by omega), run, first]
      exact fault_run rfl calls

end

/-- The positions stay in order whatever is called. -/
theorem sound_fixed {packer : Packer Fixed} (sound : packer.buffer.Sound) (calls : List Call) :
    (packer.run calls).2.buffer.Sound := by
  induction calls generalizing packer with
  | nil => exact sound
  | cons call calls ih =>
    have attempt {packer : Packer Fixed} {body : Packer Fixed → Status × Packer Fixed}
        (sound : packer.buffer.Sound) (stays : (body packer).2.buffer.Sound) :
        (packer.attempt body).2.buffer.Sound := by
      unfold Packer.attempt
      split
      · exact sound
      · split <;> rename_i made <;> rw [made] at stays <;> exact stays
    have emit (bytes : List UInt8) : (packer.emit bytes).2.buffer.Sound := by
      by_cases room : bytes.length ≤ packer.buffer.remaining
      · rw [emit_of_room room]
        exact sound.append room
      · rw [emit_of_short (Nat.lt_of_not_le room)]
        exact sound
    refine ih ?_
    cases call with
    | pack value =>
      change (packer.pack value).2.buffer.Sound
      rw [pack_eq]
      apply attempt sound
      split
      · exact sound
      · exact emit _
    | insert bytes => exact attempt sound (emit bytes)
    | flush => exact attempt sound sound
    | setCompatible => exact sound
    | setBarrier => exact sound.setBarrier
    | clearBarrier => exact sound.clearBarrier
    | patch position bytes => exact sound.patch? position bytes

/-! ### Streams -/

/-- The bytes that the stream has received and those that wait in the buffer. -/
def written (packer : Packer Sink) : List UInt8 := packer.received ++ packer.buffer.packed

/-- On any stream it is as over a channel, unless the stream fails. -/
theorem adds_sink {packer : Packer Sink} {calls : List Call} (sound : packer.buffer.Sound)
    (front : packer.buffer.start = 0) (clean : packer.fault = none)
    (writes : ∀ call ∈ calls, call.Writes packer.dialect)
    (allocation : Granted packer.buffer.region.ceiling
      (packer.buffer.packed.length + (calls.flatMap (·.bytes packer.dialect)).length)) :
    (packer.run calls).2.fault = some .errorInHandler ∨
      packer.Adds written calls (calls.flatMap (·.bytes packer.dialect)) := by
  let steady := packer.onto (.ofPlan .steady)
  have holds : steady.Holds ⟨packer.buffer.packed, packer.buffer.mark.map (0 + ·),
      packer.dialect, packer.fault⟩ packer.buffer.region.ceiling :=
    ⟨sound, front, rfl, Output.accepts_steady, rfl, rfl, rfl, rfl⟩
  rw [← List.length_append] at allocation
  have adds := holds.run_writes clean writes allocation
  refine (run_onto (show packer.onto steady.handler.output = steady from rfl) Output.accepts_steady
    calls).imp_right ?_
  rintro ⟨answers, same, bytes, whole, all⟩
  have buffer := congrArg Packer.buffer same
  have fault := congrArg Packer.fault same
  simp only [onto] at buffer fault
  have output := adds.output
  refine ⟨answers.trans adds.answers, fault.trans adds.fault, ?_⟩
  have text : bytes ++ (steady.run calls).2.buffer.packed =
      packer.buffer.packed ++ calls.flatMap (·.bytes packer.dialect) := by
    have received : (steady.run calls).2.handler.output.received.toList = bytes := whole
    rw [← received]
    exact output
  rw [written, written, all, buffer, List.append_assoc, List.append_assoc, text]

/-- Where nothing has failed yet the buffer in front of a stream is in order. -/
theorem ordered_sink {plan : Output.Plan} {capacity ceiling : Nat} {dialect : Dialect}
    {before : List Call}
    (clean : (((toOutput (.ofPlan plan) capacity dialect).withCeiling ceiling).run
      before).2.fault = none) :
    let packer := (((toOutput (.ofPlan plan) capacity dialect).withCeiling ceiling).run before).2
    packer.buffer.Sound ∧ packer.buffer.start = 0 ∧ packer.buffer.region.ceiling = ceiling := by
  obtain ⟨same, _⟩ | ⟨failed, _⟩ := ((Trails.start plan capacity ceiling dialect).run before).behind
  · have fault := (congrArg Packer.fault same).symm.trans clean
    rcases (holds_toOutput Output.accepts_steady capacity ceiling dialect).run before
      fun _ _ => rfl with ⟨_, holds⟩ | ⟨failed, _⟩
    · have buffer := congrArg Packer.buffer same
      simp only [onto] at buffer
      intro packer
      rw [buffer]
      exact ⟨holds.sound, holds.front, holds.ceiling⟩
    · cases fault.symm.trans failed
  · cases clean.symm.trans failed

end Packer
/-! ### Headers and payloads -/

/-- What has a header that can be packed by itself, and a payload behind it. -/
inductive Blob where
  | str
  | bin
  | ext (type : Int8)
  deriving DecidableEq, Repr

namespace Blob

def whole (payload : List UInt8) : Blob → Value
  | .str => .str payload
  | .bin => .bin payload
  | .ext type => .ext type payload

def header (length : UInt32) : Blob → Value
  | .str => .strSize length
  | .bin => .binSize length
  | .ext type => .extSize type length

def calls (blob : Blob) (pieces : List (List UInt8)) : List Packer.Call :=
  .pack (blob.header (.ofNat pieces.flatten.length)) :: pieces.map .insert

def verdict (dialect : Dialect) : Blob → Status
  | .ext _ => if dialect.compatible then .error .illegalCall else .ok ()
  | .str | .bin => .ok ()

variable {blob : Blob} {dialect : Dialect} {payload bytes : List UInt8}
  {pieces : List (List UInt8)}

/-- The header alone is what stands before the payload otherwise, and refused where that is. -/
theorem encode_cases (blob : Blob) (dialect : Dialect) (fits : payload.length < 0x100000000) :
    (blob.verdict dialect = .ok () ∧ ∃ front,
      (blob.header (.ofNat payload.length)).encode dialect = .ok front ∧
      (blob.whole payload).encode dialect = .ok (front ++ payload)) ∨
    blob.verdict dialect = .error .illegalCall ∧
      (blob.header (.ofNat payload.length)).encode dialect = .error .illegalCall ∧
      (blob.whole payload).encode dialect = .error .illegalCall := by
  have length : (UInt32.ofNat payload.length).toNat = payload.length :=
    UInt32.toNat_ofNat_of_lt' fits
  have small : Value.fits payload = true := decide_eq_true fits
  cases blob with
  | str => exact .inl ⟨rfl, _, rfl, by simp only [whole, Value.encode, small, length]; rfl⟩
  | bin => exact .inl ⟨rfl, _, rfl, by simp only [whole, Value.encode, small, length]; rfl⟩
  | ext type =>
    simp only [verdict, header, whole, Value.encode, small, length]
    by_cases compatible : dialect.compatible = true
    · simp [compatible]
    · simp [compatible]

theorem length_le (encoded : (blob.whole payload).encode dialect = .ok bytes) :
    bytes.length ≤ payload.length + 6 := by
  have length : bytes.length = (blob.whole payload).needed dialect := Value.length_encode encoded
  rw [length]
  cases blob <;>
    simp only [whole, Value.needed, Room.strHeader, Room.binHeader, Room.extHeader] <;>
    repeat' split
  all_goals omega

theorem writes_whole (encoded : (blob.whole payload).encode dialect = .ok bytes) :
    let together : List Packer.Call := [.pack (blob.whole payload)]
    (∀ call ∈ together, call.Writes dialect) ∧ together.flatMap (·.bytes dialect) = bytes := by
  have own : (blob.whole payload).bytes dialect = bytes := by rw [Value.bytes, encoded]
  refine ⟨fun call member => ?_, ?_⟩
  · obtain rfl := List.mem_singleton.mp member
    rw [Packer.Call.Writes, own, encoded]
  · rw [List.flatMap_singleton, Packer.Call.bytes, own]

theorem writes_calls (fits : pieces.flatten.length < 0x100000000)
    (encoded : (blob.whole pieces.flatten).encode dialect = .ok bytes) :
    (∀ call ∈ blob.calls pieces, call.Writes dialect) ∧
      (blob.calls pieces).flatMap (·.bytes dialect) = bytes := by
  obtain ⟨_, front, opens, same⟩ | ⟨_, _, refused⟩ := blob.encode_cases dialect fits
  · have own : (blob.header (.ofNat pieces.flatten.length)).bytes dialect = front := by
      rw [Value.bytes, opens]
    cases encoded.symm.trans same
    constructor
    · intro call member
      rcases List.mem_cons.mp member with rfl | piece
      · rw [Packer.Call.Writes, own, opens]
      · obtain ⟨piece, _, rfl⟩ := List.mem_map.mp piece
        trivial
    · have inserted : (pieces.map Packer.Call.insert).flatMap (·.bytes dialect) =
          pieces.flatten := by
        rw [List.flatMap_map]
        exact List.flatMap_id
      rw [calls, List.flatMap_cons, inserted, Packer.Call.bytes, own]
  · cases encoded.symm.trans refused

end Blob

namespace Packer

/-- The header with the pieces after it does what packing all together does. -/
structure Joins [Outlet σ] (output : Packer σ → List UInt8) (packer : Packer σ) (blob : Blob)
    (pieces : List (List UInt8)) : Prop where
  answers : ∀ answer ∈ (packer.run (blob.calls pieces)).1,
    answer = (packer.pack (blob.whole pieces.flatten)).1
  status : (packer.run (blob.calls pieces)).2.status =
    (packer.pack (blob.whole pieces.flatten)).2.status
  output : output (packer.run (blob.calls pieces)).2 =
    output (packer.pack (blob.whole pieces.flatten)).2
  verdict : packer.fault = none →
    (packer.pack (blob.whole pieces.flatten)).1 = blob.verdict packer.dialect

section

variable [Outlet σ] {packer : Packer σ} {output : Packer σ → List UInt8} {blob : Blob}
  {pieces : List (List UInt8)} {fault : Fault}

theorem run_inserts_of_fault (failed : packer.fault = some fault) (pieces : List (List UInt8)) :
    packer.run (pieces.map .insert) = (pieces.map fun _ => .error fault, packer) := by
  induction pieces with
  | nil => rfl
  | cons piece pieces ih =>
    have refused : packer.insert piece = (.error fault, packer) := attempt_of_fault failed _
    have first : packer.call (.insert piece) = (.error fault, packer) := refused
    rw [List.map_cons, run, first]
    dsimp only
    rw [ih]
    rfl

theorem firstFault_run {calls : List Call} (clean : packer.fault = none)
    (ended : (packer.run calls).2.fault = some fault) :
    firstFault (packer.run calls).1 = .error fault := by
  have status := packer.status_run calls
  rw [Packer.status, Packer.status, ended, clean] at status
  exact status.symm

theorem answer_pack {value : Value} (clean : packer.fault = none)
    (ended : (packer.pack value).2.fault = some fault) : (packer.pack value).1 = .error fault := by
  have status := packer.status_call (.pack value)
  rw [Packer.call, Packer.status, Packer.status, ended, clean] at status
  exact status.symm

theorem run_calls_of_refused {after : Packer σ} (standing : after.fault = some fault)
    (refused : packer.pack (blob.header (.ofNat pieces.flatten.length)) =
      (.error fault, after)) :
    packer.run (blob.calls pieces) =
      (.error fault :: pieces.map fun _ => .error fault, after) := by
  have first : packer.call (.pack (blob.header (.ofNat pieces.flatten.length))) =
      (.error fault, after) := refused
  rw [Blob.calls, run, first]
  dsimp only
  rw [run_inserts_of_fault standing]

/-- Whatever the handler, both ways end alike where both are refused at once. -/
theorem Joins.of_refused {after : Packer σ} (standing : after.fault = some fault)
    (apart : packer.pack (blob.header (.ofNat pieces.flatten.length)) = (.error fault, after))
    (together : packer.pack (blob.whole pieces.flatten) = (.error fault, after))
    (verdict : packer.fault = none → blob.verdict packer.dialect = .error fault) :
    packer.Joins output blob pieces := by
  have ran := run_calls_of_refused standing apart
  constructor
  · intro answer member
    rw [ran] at member
    rw [together]
    rcases List.mem_cons.mp member with rfl | rest
    · rfl
    · obtain ⟨_, _, rfl⟩ := List.mem_map.mp rest
      rfl
  · rw [ran, together]
  · rw [ran, together]
  · intro clean
    rw [together, verdict clean]

theorem pack_of_refused {value : Value} (clean : packer.fault = none)
    (refused : value.encode packer.dialect = .error fault) :
    packer.pack value = (.error fault, { packer with fault := some fault }) := by
  rw [pack_eq, attempt_of_clean clean, refused]

/-- It is left to see that both ways add the bytes, if there are any. -/
theorem Joins.of_adds (fits : pieces.flatten.length < 0x100000000)
    (adds : packer.fault = none → ∀ bytes,
      (blob.whole pieces.flatten).encode packer.dialect = .ok bytes →
      packer.Adds output (blob.calls pieces) bytes ∧
        packer.Adds output [.pack (blob.whole pieces.flatten)] bytes) :
    packer.Joins output blob pieces := by
  cases standing : packer.fault with
  | some fault =>
    refine .of_refused standing (attempt_of_fault standing _) (attempt_of_fault standing _) ?_
    intro clean
    cases standing.symm.trans clean
  | none =>
    obtain ⟨verdict, front, _, encoded⟩ | ⟨verdict, opens, whole⟩ :=
      blob.encode_cases packer.dialect fits
    · obtain ⟨apart, together⟩ := adds standing _ encoded
      have answer : (packer.pack (blob.whole pieces.flatten)).1 = .ok () :=
        (List.cons.inj together.answers).1
      constructor
      · intro other member
        rw [apart.answers] at member
        obtain ⟨_, _, rfl⟩ := List.mem_map.mp member
        exact answer.symm
      · have fault := together.fault
        simp only [run, Packer.call] at fault
        rw [Packer.status, Packer.status, apart.fault, fault]
      · exact apart.output.trans together.output.symm
      · intro _
        rw [answer, verdict]
    · exact .of_refused rfl (pack_of_refused standing opens) (pack_of_refused standing whole)
        fun _ => verdict

end

/-! ### Handlers -/

section

variable {dialect : Dialect} {before : List Call} {blob : Blob} {pieces : List (List UInt8)}

theorem joins_growable {capacity ceiling : Nat} (fits : pieces.flatten.length < 0x100000000) :
    let packer := (((growable capacity dialect).withCeiling ceiling).run before).2
    Granted ceiling (packer.buffer.packed.length + (pieces.flatten.length + 6)) →
      packer.Joins (·.buffer.packed) blob pieces := by
  intro packer allocation
  refine .of_adds fits fun clean bytes encoded => ?_
  obtain ⟨draft, holds⟩ := (holds_growable capacity ceiling dialect).run_clean clean
  have granted := allocation.mono (Nat.add_le_add_left (Blob.length_le encoded) _)
  obtain ⟨apart, same⟩ := Blob.writes_calls fits encoded
  obtain ⟨together, alike⟩ := Blob.writes_whole encoded
  have first := adds_growable holds clean apart (by rw [same]; exact granted)
  have second := adds_growable holds clean together (by rw [alike]; exact granted)
  rw [same] at first
  rw [alike] at second
  exact ⟨first, second⟩

theorem fixed_cases {size : Nat} (fits : pieces.flatten.length < 0x100000000) {bytes : List UInt8} :
    let packer := ((fixed size dialect).run before).2
    packer.fault = none → (blob.whole pieces.flatten).encode packer.dialect = .ok bytes →
      if bytes.length ≤ packer.buffer.remaining then
        packer.Adds (·.buffer.packed) (blob.calls pieces) bytes ∧
          packer.Adds (·.buffer.packed) [.pack (blob.whole pieces.flatten)] bytes
      else (packer.run (blob.calls pieces)).2.fault = some .bufferOverflow ∧
        (packer.pack (blob.whole pieces.flatten)).2.fault = some .bufferOverflow := by
  intro packer clean encoded
  have sound : packer.buffer.Sound := sound_fixed (Outgoing.Sound.ofSize size) before
  obtain ⟨apart, same⟩ := Blob.writes_calls fits encoded
  obtain ⟨together, alike⟩ := Blob.writes_whole encoded
  have first := adds_fixed sound clean apart
  have second := adds_fixed sound clean together
  rw [same] at first
  rw [alike] at second
  split
  · rw [if_pos ‹_›] at first second
    exact ⟨first, second⟩
  · rw [if_neg ‹_›] at first second
    exact ⟨first, second⟩

theorem joins_sink {plan : Output.Plan} {capacity ceiling : Nat}
    (fits : pieces.flatten.length < 0x100000000) :
    let packer := (((toOutput (.ofPlan plan) capacity dialect).withCeiling ceiling).run before).2
    Granted ceiling (packer.buffer.packed.length + (pieces.flatten.length + 6)) →
      packer.Joins written blob pieces ∨ packer.fault = none ∧
        ((packer.run (blob.calls pieces)).2.fault = some .errorInHandler ∨
          (packer.pack (blob.whole pieces.flatten)).2.fault = some .errorInHandler) := by
  intro packer allocation
  by_cases failed : packer.fault = none ∧
      ((packer.run (blob.calls pieces)).2.fault = some .errorInHandler ∨
        (packer.pack (blob.whole pieces.flatten)).2.fault = some .errorInHandler)
  · exact .inr failed
  refine .inl (.of_adds fits fun clean bytes encoded => ?_)
  obtain ⟨sound, front, granted⟩ := ordered_sink clean
  have allocation := allocation.mono (Nat.add_le_add_left (Blob.length_le encoded) _)
  rw [← granted] at allocation
  obtain ⟨apart, same⟩ := Blob.writes_calls fits encoded
  obtain ⟨together, alike⟩ := Blob.writes_whole encoded
  have first := adds_sink sound front clean apart (by rw [same]; exact allocation)
  have second := adds_sink sound front clean together (by rw [alike]; exact allocation)
  rw [same] at first
  rw [alike] at second
  rcases first with broken | first
  · exact absurd ⟨clean, .inl broken⟩ failed
  rcases second with broken | second
  · exact absurd ⟨clean, .inr broken⟩ failed
  exact ⟨first, second⟩

theorem joins_accepting {plan : Output.Plan} (accepts : (Output.ofPlan plan).Accepts)
    {capacity ceiling : Nat} (fits : pieces.flatten.length < 0x100000000) :
    let packer := (((toOutput (.ofPlan plan) capacity dialect).withCeiling ceiling).run before).2
    Granted ceiling (packer.buffer.packed.length + (pieces.flatten.length + 6)) →
      packer.Joins written blob pieces := by
  intro packer allocation
  obtain joins | ⟨clean, failed⟩ := joins_sink fits allocation
  · exact joins
  have begun : ((toOutput (.ofPlan plan) capacity dialect).withCeiling ceiling).fault ≠
      some .errorInHandler := by
    intro failed
    cases clean.symm.trans (fault_run failed before)
  obtain ⟨still, stays⟩ := clean_run accepts begun before
  rcases failed with broken | broken
  · exact absurd broken (clean_run stays still (blob.calls pieces)).1
  · exact absurd broken (clean_run stays still [.pack (blob.whole pieces.flatten)]).1

end

/-- Payloads in pieces. After any calls, a header and the pieces of the payload after it end as
packing both together does: in memory that grows, in a region that has room for all of it, and on a
stream, unless the stream fails in one of the two ways. In a region without the room both ways
overflow it. -/
theorem pieces_join (blob : Blob) {pieces : List (List UInt8)}
    (fits : pieces.flatten.length < 0x100000000) (dialect : Dialect) (before : List Call) :
    (∀ capacity ceiling,
      let packer := (((growable capacity dialect).withCeiling ceiling).run before).2
      Granted ceiling (packer.buffer.packed.length + (pieces.flatten.length + 6)) →
        packer.Joins (·.buffer.packed) blob pieces) ∧
    (∀ size,
      let packer := ((fixed size dialect).run before).2
      ((packer.fault = none → ∀ bytes,
          (blob.whole pieces.flatten).encode packer.dialect = .ok bytes →
            bytes.length ≤ packer.buffer.remaining) →
        packer.Joins (·.buffer.packed) blob pieces) ∧
      ∀ bytes, packer.fault = none →
        (blob.whole pieces.flatten).encode packer.dialect = .ok bytes →
        packer.buffer.remaining < bytes.length →
          firstFault (packer.run (blob.calls pieces)).1 = .error .bufferOverflow ∧
            (packer.pack (blob.whole pieces.flatten)).1 = .error .bufferOverflow) ∧
    ∀ plan capacity ceiling,
      let packer := (((toOutput (.ofPlan plan) capacity dialect).withCeiling ceiling).run before).2
      Granted ceiling (packer.buffer.packed.length + (pieces.flatten.length + 6)) →
        (packer.Joins written blob pieces ∨ packer.fault = none ∧
          ((packer.run (blob.calls pieces)).2.fault = some .errorInHandler ∨
            (packer.pack (blob.whole pieces.flatten)).2.fault = some .errorInHandler)) ∧
        ((Output.ofPlan plan).Accepts → packer.Joins written blob pieces) := by
  refine ⟨fun _ _ => joins_growable fits, fun size => ⟨fun room => ?_, ?_⟩,
    fun plan capacity ceiling => ?_⟩
  · refine .of_adds fits fun clean bytes encoded => ?_
    have outcome := fixed_cases fits clean encoded
    rwa [if_pos (room clean bytes encoded)] at outcome
  · intro bytes clean encoded short
    have outcome := fixed_cases fits clean encoded
    rw [if_neg (Nat.not_le_of_lt short)] at outcome
    obtain ⟨apart, together⟩ := outcome
    exact ⟨firstFault_run clean apart, answer_pack clean together⟩
  · intro packer allocation
    exact ⟨joins_sink fits allocation, fun accepts => joins_accepting accepts fits allocation⟩

/-- An extension in three pieces, one of them empty, behind a barrier: in memory, in a region that
ends within it, and on a stream that takes a byte at a time. -/
theorem pieces_join_pinned :
    let plan : Output.Plan := ⟨fun _ _ _ => .accept 1, fun _ => none⟩
    let dialect : Dialect := ⟨false, .native⟩
    let before : List Call := [.pack (.unsigned 300), .setBarrier, .pack .nil]
    let blob : Blob := .ext 5
    let pieces : List (List UInt8) := [[0x61], [], [0x62, 0x63]]
    let memory := (((growable 16 dialect).withCeiling 64).run before).2
    let region := ((fixed 8 dialect).run before).2
    let sink := (((toOutput (.ofPlan plan) 8 dialect).withCeiling 64).run before).2
    (pieces.flatten.length < 0x100000000 ∧
      Granted 64 (memory.buffer.packed.length + (pieces.flatten.length + 6)) ∧
      Granted 64 (sink.buffer.packed.length + (pieces.flatten.length + 6)) ∧
      (Output.ofPlan plan).Accepts) ∧
    (region.fault = none ∧ (blob.whole pieces.flatten).encode region.dialect =
        .ok [0xc7, 0x03, 0x05, 0x61, 0x62, 0x63] ∧
      region.buffer.remaining < 6) ∧
    memory.Joins (·.buffer.packed) blob pieces ∧ sink.Joins written blob pieces ∧
    firstFault (region.run (blob.calls pieces)).1 = .error .bufferOverflow ∧
    (sink.run (blob.calls pieces)).2.written =
      [0xcd, 0x01, 0x2c, 0xc0, 0xc7, 0x03, 0x05, 0x61, 0x62, 0x63] := by
  intro plan dialect before blob pieces memory region sink
  have fits : pieces.flatten.length < 0x100000000 := by decide
  have held : memory.buffer.packed.length = 4 := by decide +kernel
  have pinned : sink.buffer.packed.length = 4 := by decide +kernel
  have granted : Granted 64 (memory.buffer.packed.length + (pieces.flatten.length + 6)) := by
    rw [held]
    decide
  have drained : Granted 64 (sink.buffer.packed.length + (pieces.flatten.length + 6)) := by
    rw [pinned]
    decide
  have accepts : (Output.ofPlan plan).Accepts :=
    ⟨fun _ _ _ _ => ⟨1, Nat.one_pos, rfl⟩, fun _ => rfl⟩
  have encoded : (blob.whole pieces.flatten).encode region.dialect =
      .ok [0xc7, 0x03, 0x05, 0x61, 0x62, 0x63] := rfl
  have short : region.buffer.remaining < 6 := by decide
  obtain ⟨joinsMemory, overflows, joinsSink⟩ := pieces_join blob fits dialect before
  have joins : sink.Joins written blob pieces := (joinsSink plan 8 64 drained).2 accepts
  refine ⟨⟨fits, granted, drained, accepts⟩, ⟨rfl, encoded, short⟩, joinsMemory 16 64 granted,
    joins, ((overflows 8).2 _ rfl encoded short).1, ?_⟩
  rw [joins.output]
  decide +kernel

/-- A stream whose flushes fail. All together the bytes stay in the buffer, which has the room, but
the first piece is to pass the buffer by, and the flush before it fails. -/
theorem not_joins_flushFailing :
    let plan : Output.Plan := .bounded none none (.fail "sink full") (some "flush refused")
    let packer := toOutput (.ofPlan plan) 16 ⟨false, .native⟩
    let pieces : List (List UInt8) := [[0x61, 0x62, 0x63]]
    (packer.run (Blob.str.calls pieces)).1 = [.ok (), .error .errorInHandler] ∧
      (packer.run (Blob.str.calls pieces)).2.written = [0xa3] ∧
      (packer.pack (Blob.str.whole pieces.flatten)).1 = .ok () ∧
      (packer.pack (Blob.str.whole pieces.flatten)).2.written = [0xa3, 0x61, 0x62, 0x63] ∧
      ¬packer.Joins written .str pieces := by
  intro plan packer pieces
  have apart : (packer.run (Blob.str.calls pieces)).1 = [.ok (), .error .errorInHandler] := by cbv
  have front : (packer.run (Blob.str.calls pieces)).2.written = [0xa3] := by decide +kernel
  have together : (packer.pack (Blob.str.whole pieces.flatten)).1 = .ok () := by cbv
  have all : (packer.pack (Blob.str.whole pieces.flatten)).2.written =
      [0xa3, 0x61, 0x62, 0x63] := by decide +kernel
  refine ⟨apart, front, together, all, fun joins => ?_⟩
  have same := joins.output
  rw [front, all] at same
  cases same

end Packer
end MessagePack
