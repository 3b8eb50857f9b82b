import MessagePack.Proofs.CallStack
import MessagePack.Proofs.UnmarkedStream
import MessagePack.Proofs.SeveredStreams
import MessagePack.Proofs.RecordAccounting

/-! How dumps end. Every item that is read takes a byte of the input, and the fault that ends the
reading is one that the input or its stream is to blame for. Only what is taken for a record can
end a dump in another way. -/
namespace MessagePack

/-- Whether reading one item after another can end so. The other faults are of packing, of calls
out of place, or of a byte order that the host does not have. -/
def Fault.EndsReading : Fault → Prop
  | .endOfInput | .bufferUnderflow | .malformedInput | .wrongTimestampLength
  | .errorInHandler | .allocationError => True
  | _ => False

theorem Fault.EndsReading.not_mem {fault : Fault} (ends : fault.EndsReading) :
    fault ∉ [.illegalCall, .typeError, .bufferOverflow, .wrongByteOrder] := by
  intro member
  simp only [List.mem_cons, List.not_mem_nil, or_false] at member
  rcases member with rfl | rfl | rfl | rfl <;> exact ends

def OfReading (answer : Except Fault α) : Prop :=
  match answer with
  | .ok _ => True
  | .error fault => fault.EndsReading

theorem Source.ofReading_openRoom (buffer : Incoming) (needed : Nat) :
    OfReading (openRoom buffer needed).1 := by
  unfold openRoom
  split
  · cases grows : buffer.growToward needed with
    | mk status grown =>
      cases status with
      | ok _ => trivial
      | error fault =>
        obtain ⟨_, rfl, _⟩ := Incoming.growToward_eq_error grows
        trivial
  · trivial

theorem Source.ofReading_readUntil (input : Input) (buffer : Incoming) (needed : Nat) :
    OfReading (readUntil input buffer needed).status := by
  fun_induction readUntil input buffer needed with
  | case2 input buffer _ fault grown opened =>
    have refused := ofReading_openRoom buffer needed
    rwa [opened] at refused
  | case5 _ _ _ _ _ _ _ _ _ _ ih => exact ih
  | case6 _ _ _ _ _ _ _ _ ih => exact ih
  | _ => trivial

namespace Unpacker

variable {unpacker : Unpacker Source}

theorem ofReading_demand (unpacker : Unpacker Source) (needed : Nat) (leading : Bool) :
    OfReading (unpacker.demand needed leading).1 := by
  have short : OfReading (.error (Scan.shortage leading) : Status) := by cases leading <;> trivial
  have refilled : OfReading (unpacker.refill needed).1 := Source.ofReading_readUntil ..
  unfold demand
  split
  · trivial
  · split <;> rename_i brought <;> rw [brought] at refilled
    · split
      · trivial
      · exact short
    · exact short
    · exact refilled

theorem ofReading_take (unpacker : Unpacker Source) (count : Nat) (leading : Bool) :
    OfReading (unpacker.take count leading).1 := by
  have demanded := unpacker.ofReading_demand count leading
  unfold take
  split <;> rename_i made <;> rw [made] at demanded
  · exact demanded
  · trivial

theorem ofReading_perform {scan : Scan α} (judges : scan.Judges) (unpacker : Unpacker Source) :
    OfReading (perform scan unpacker).1 := by
  induction scan generalizing unpacker with
  | done value => trivial
  | fail fault => rcases judges with rfl | rfl <;> trivial
  | take count leading next ih =>
    have taken := unpacker.ofReading_take count leading
    rw [perform]
    split <;> rename_i made <;> rw [made] at taken
    · exact taken
    · exact ih _ (judges _) _

theorem ofReading_readPayload (header : Header) (unpacker : Unpacker Source) :
    OfReading (unpacker.readPayload header).1 := by
  unfold readPayload
  split
  · trivial
  · rename_i length _
    have taken := unpacker.ofReading_take length false
    split <;> rename_i made <;> rw [made] at taken
    · exact taken
    · trivial

theorem ofReading_next (clean : unpacker.fault = none) : OfReading unpacker.next.1 := by
  have settled {answer : Except Fault Item} {unpacker : Unpacker Source}
      (reads : OfReading answer) : OfReading (unpacker.settle answer).1 := by
    cases answer <;> exact reads
  have scanned := ofReading_perform (Header.judges_scan unpacker.order)
    { unpacker with last := none }
  rw [clean] at scanned
  rw [next, attempt, clean]
  dsimp only
  refine settled ?_
  split <;> rename_i made <;> rw [made] at scanned
  · exact scanned
  · exact ofReading_readPayload ..

theorem endsReading_exhaust (clean : unpacker.fault = none) : unpacker.exhaust.EndsReading := by
  fun_induction exhaust unpacker with
  | case1 unpacker fault after read =>
    have reads := ofReading_next clean
    rwa [read] at reads
  | case2 unpacker item after read ih => exact ih (clean_of_next read).2

theorem Traces.exhaust_eq [Inlet σ] [Feed σ] {reading : Reading} {twin : Unpacker σ}
    (traces : unpacker.Traces reading) (follows : twin.Follows reading) :
    unpacker.exhaust = twin.exhaust := by
  fun_induction exhaust unpacker generalizing reading twin with
  | case1 unpacker fault after read =>
    have answer := traces.next.1
    rw [read, ← follows.next.1] at answer
    exact (exhaust_of_error answer.symm).symm
  | case2 unpacker item after read ih =>
    obtain ⟨answer, goesOn⟩ := traces.next
    obtain ⟨expected, stays⟩ := follows.next
    rw [read] at answer goesOn
    rw [exhaust_of_ok (Prod.ext (expected.trans answer.symm) rfl : twin.next = (.ok item, _))]
    exact ih goesOn stays

end Unpacker

namespace Dump

/-! ### Decoding -/

namespace Printer

def Level (input other : Unpacker Source) : Prop :=
  other.buffer = input.buffer ∧ other.handler = input.handler

theorem input_thenWrite {printer : Printer} {text : List UInt8} {next : Printer → Answer}
    {left : Unpacker Source → Prop} (stays : left printer.input)
    (goesOn : ∀ output, left (next { printer with output }).2.input) :
    left (printer.thenWrite text next).2.input := by
  unfold thenWrite write
  generalize printer.output.writeAll text = result
  obtain ⟨_ | _, output⟩ := result
  · exact stays
  · exact goesOn output

theorem input_printItem (level : Nat) (item : Item) (printer : Printer) :
    (printer.printItem level item).2.input = printer.input := by
  unfold printItem
  split <;> simp [push]

theorem input_current (level : Nat) (printer : Printer) :
    (printer.current level).2.input = printer.input := by
  unfold current
  split
  · exact input_printItem ..
  · rfl

theorem input_printName (size level : Nat) (printer : Printer) :
    (printer.printName size level).2.input = printer.input := by
  unfold printName
  split <;> simp [push]

theorem level_extInteger (input : Unpacker Source) : Level input input.extInteger.2 := by
  have settled (answer : Except Fault Int) : Level input (input.settle answer).2 := by
    cases answer <;> exact ⟨rfl, rfl⟩
  unfold Unpacker.extInteger Unpacker.currentExt Unpacker.attempt
  split
  · exact ⟨rfl, rfl⟩
  · dsimp only
    split <;> exact settled _

theorem level_printRecord (size level : Nat) (printer : Printer) :
    Level printer.input (printer.printRecord size level).2.input := by
  have same := level_extInteger printer.input
  unfold printRecord withInput
  split <;> rename_i read <;> rw [read] at same
  · exact same
  · dsimp only
    split
    · rw [input_write]
      exact same
    · refine input_thenWrite same fun output => ?_
      split
      · exact same
      · split <;> exact same

theorem level_printFirst (options : Options) (size first level : Nat) (printer : Printer) :
    Level printer.input (printer.printFirst options size first level).2.input := by
  have array : Level printer.input ((printer.push (.elements (size - 1) 1 level ']')).thenWrite
      (ascii ['['] ++ options.separate first (level + 1) 0)
      (current (level + 1))).2.input := by
    refine input_thenWrite ⟨rfl, rfl⟩ fun output => ?_
    rw [input_current]
    exact ⟨rfl, rfl⟩
  unfold printFirst
  dsimp only
  split
  · split
    · exact level_printRecord ..
    · exact array
  · exact array

theorem level_withNext {next : Printer → Answer} (printer : Printer)
    (stays : ∀ after : Printer, Level after.input (next after).2.input) :
    Level printer.input.next.2 (printer.withInput printer.input.next fun _ => next).2.input := by
  generalize printer.input.next = result
  obtain ⟨_ | item, input⟩ := result
  · exact ⟨rfl, rfl⟩
  · exact stays { printer with input }

theorem level_readItem (level : Nat) (printer : Printer) :
    Level printer.input.next.2 (printer.readItem level).2.input :=
  level_withNext printer fun after => by
    rw [input_current]
    exact ⟨rfl, rfl⟩

theorem input_step (options : Options) (printer : Printer) :
    (printer.step options).2.input = printer.input ∨
      printer.stage.reads = true ∧ Level printer.input.next.2 (printer.step options).2.input := by
  obtain ⟨input, output, tasks⟩ := printer
  cases tasks with
  | nil =>
    let left (after : Unpacker Source) : Prop :=
      after = input ∨ true = true ∧ Level input.next.2 after
    exact @input_thenWrite ⟨input, output, []⟩ _ _ left (.inl rfl) fun output =>
      .inr ⟨rfl, level_readItem 0 ⟨input, output, []⟩⟩
  | cons task tasks =>
    cases task with
    | item level => exact .inr ⟨rfl, level_readItem level ⟨input, output, tasks⟩⟩
    | first size first level =>
      exact .inr ⟨rfl, level_withNext ⟨input, output, tasks⟩ fun after =>
        level_printFirst options size first level after⟩
    | name size level =>
      refine .inr ⟨rfl, level_withNext ⟨input, output, tasks⟩ fun after => ?_⟩
      rw [input_printName]
      exact ⟨rfl, rfl⟩
    | colon => exact .inl (input_write ..)
    | elements left index level bracket => cases left <;> exact .inl (input_write ..)
    | entries left index level => cases left <;> exact .inl (input_write ..)

end Printer

def decodes (input : Input) (output : Output) (options : Options) : Nat :=
  (passes input output options).countP fun printer => printer.stage.reads

/-- How dumps end. A dump reads no more items than the input has bytes, and one for the end; it
goes on from step to step with at most one of them in each. The fault that it answers is never
one of packing, of a call or a type out of place, or of the byte order. That a value is
wrong is only found in a record, and without records the fault is the one that ends the plain
reading of the same bytes, be they in a stream or in memory. On a stack this is the answer, if
there is one, and there is one where the stack has room for a call for each byte of the input and
no indent is too wide. -/
theorem dump_concludes (input : Input) {output : Output} (accepts : output.Accepts)
    (options : Options) :
    ∃ fault, (dump input output options).1 = .ok fault ∧
      decodes input output options ≤ input.pending.length + 1 ∧
      (∀ printer ∈ passes input output options,
        (printer.step options).2.input = printer.input ∨
          printer.stage.reads = true ∧
            Printer.Level printer.input.next.2 (printer.step options).2.input) ∧
      fault ∉ [.illegalCall, .typeError, .bufferOverflow, .wrongByteOrder] ∧
      (fault = .valueError → options.records = true) ∧
      (options.records = false →
        fault = (Unpacker.ofInput input inputCapacity .native).exhaust ∧
          (input.Delivers .endOfInput →
            fault = (Unpacker.ofBytes input.pending .native).exhaust)) ∧
      (∀ room answer, dumpOn room input output options = .ok answer →
        answer = dump input output options) ∧
      ∀ room, input.pending.length ≤ room →
        input.pending.length * options.indent < Position.modulus →
        dumpOn room input output options = .ok (dump input output options) := by
  have proper : (Stage.start input).Proper options := nofun
  obtain ⟨fault, course⟩ := course_dump input accepts options
  have count : decodes input output options ≤ input.pending.length + 1 := by
    have bound := course.countP_reads_le proper
    rw [List.countP_map] at bound
    refine Nat.le_trans bound (Nat.add_le_add_right (Nat.le_of_eq ?_) 1)
    exact Nat.zero_add _
  have clean : (Stage.start input).input.fault = none := rfl
  have ends := Unpacker.endsReading_exhaust clean
  have traced (delivers : input.Delivers .endOfInput) :
      (Stage.start input).input.exhaust = (Unpacker.ofBytes input.pending .native).exhaust :=
    (Unpacker.traces_ofInput delivers (by decide) .native).exhaust_eq
      (Unpacker.follows_ofBytes input.pending .native)
  refine ⟨fault, (dump_of_accepts accepts course).1, count, fun printer _ =>
    printer.input_step options, ?_⟩
  have onStack : (∀ room answer, dumpOn room input output options = .ok answer →
      answer = dump input output options) ∧ ∀ room, input.pending.length ≤ room →
      input.pending.length * options.indent < Position.modulus →
      dumpOn room input output options = .ok (dump input output options) :=
    ⟨fun _ _ => eq_dump_of_dumpOn, fun _ roomy narrow => dumpOn_of_roomy roomy narrow output⟩
  rcases course.starts_eq proper with ⟨_, rfl⟩ | ⟨_, records, _, _, misshapen⟩
  · refine ⟨ends.not_mem, fun wrong => ?_, fun _ => ⟨rfl, traced⟩, onStack⟩
    rw [wrong] at ends
    cases ends
  · refine ⟨?_, fun _ => records, fun plain => ?_, onStack⟩
    · rcases misshapen.fault with rfl | rfl <;> decide
    · cases plain.symm.trans records

/-- An array that announces more elements than there are bytes of it, byte by byte. -/
theorem dump_concludes_hostile :
    let bytes : List UInt8 := [0xdd, 0xff, 0xff, 0xff, 0xff, 0x01, 0x90]
    let input := Input.ofBytes bytes (.paced (fun _ => 1) true none)
    let output := Output.ofPlan ⟨fun _ _ offered => .accept offered, fun _ => none⟩
    output.Accepts ∧ input.Delivers .endOfInput ∧
      (dump input output ⟨2, false⟩).1 = .ok .endOfInput ∧
      decodes input output ⟨2, false⟩ ≤ 8 ∧
      (Unpacker.ofBytes bytes .native).exhaust = .endOfInput ∧
      dumpOn 7 input output ⟨2, false⟩ = .ok (dump input output ⟨2, false⟩) := by
  intro bytes input output
  have accepts : output.Accepts := ⟨fun _ _ offered some => ⟨offered, some, rfl⟩, fun _ => rfl⟩
  have delivers : input.Delivers .endOfInput :=
    Input.delivers_paced bytes (fun _ => Nat.one_pos) true
  have found : (printout? ⟨2, false⟩ input.pending .endOfInput 6).map Printout.fault =
      some .endOfInput := by cbv
  obtain ⟨printout, printed, ended⟩ := Option.map_eq_some_iff.mp found
  obtain ⟨fault, code, count, _, _, _, plain, _, roomy⟩ := dump_concludes input accepts ⟨2, false⟩
  have answer := (dump_of_printout printed delivers accepts).1
  rw [ended] at answer
  cases answer.symm.trans code
  exact ⟨accepts, delivers, code, count, ((plain rfl).2 delivers).symm, roomy 7 (by decide)
    (by decide)⟩

/-- Arrays in arrays, a byte for each. Eight mebibytes of stack have room for no more calls than
these, at thirty-two bytes for the least of frames, and the dump has no answer. -/
theorem dump_overflows :
    let input := Input.ofBytes (.replicate 400000 0x91) .steady
    let output := Output.ofPlan .steady
    input.Delivers .endOfInput ∧ output.Accepts ∧
      (∀ room, room ≤ 0x40000 →
        dumpOn room input output ⟨0, false⟩ = .error .stackOverflow) ∧
      dumpOn stackRoom input output ⟨0, false⟩ = .error .stackOverflow := by
  have overflows (room : Nat) (small : room ≤ 0x40000) :=
    dumpOn_nested_steady (Nat.lt_of_le_of_lt small (by decide : 0x40000 < 400000)) false
  exact ⟨Input.delivers_steady _, Output.accepts_steady, overflows, overflows stackRoom (by decide)⟩

end Dump
end MessagePack
