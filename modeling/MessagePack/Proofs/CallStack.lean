import Mathlib.Tactic
import MessagePack.Dump.CallStack
import MessagePack.Proofs.UnmarkedStream
import MessagePack.Proofs.DumpRendering

/-! Printing by calls and printing by tasks. The tasks of a printer are what the calls that wait
have still to do, so a dump on a stack is the dump, unless it crashes. Every nested call has an
item of its own behind it: a stack with room for as many calls as the input has bytes is
enough, and where the room is less, as many nested arrays use it up. -/
namespace MessagePack

namespace Dump

def Ends.printer (ends : Ends) (tasks : List Task) : Printer := ⟨ends.input, ends.output, tasks⟩

namespace Printer

variable {options : Options}

def pushAll (printer : Printer) (tasks : List Task) : Printer :=
  { printer with tasks := tasks ++ printer.tasks }

def ending (options : Options) (printer : Printer) : Stop × Output :=
  ((run options printer).1, (run options printer).2.output)

def resume (options : Options) : Answer → Stop × Output
  | (.error stop, printer) => (stop, printer.output)
  | (.ok _, printer) => printer.ending options

theorem resume_step (printer : Printer) :
    resume options (printer.step options) = printer.ending options := by
  rw [ending]
  cases stepped : printer.step options with
  | mk answer after =>
    cases answer with
    | error stop => rw [run_of_stop stepped, resume]
    | ok => rw [run_of_step stepped, resume, ending]

end Printer

namespace Print

/-! ### Calls and tasks -/

/-- What a run ends with once a call is over and the tasks behind it are left. -/
def handOn (options : Options) (tasks : List Task) : Except Stop Unit × Ends → Stop × Output
  | (.error stop, after) => (stop, after.output)
  | (.ok _, after) => (after.printer tasks).ending options

/-- Whatever tasks wait, a printer that acts so comes to where the call leads, unless that
crashes. -/
def Enacts (options : Options) (act : Printer → Printer.Answer) (call : Print Unit) : Prop :=
  ∀ ends tasks result, call ends = .ok result →
    Printer.resume options (act (ends.printer tasks)) = handOn options tasks result

section

variable {options : Options} {act : Printer → Printer.Answer} {call rest : Print Unit}

theorem enacts_stop (fault : Fault) :
    Enacts options (fun printer => (.error (.unreadable fault), printer)) (stop fault) := by
  intro ends tasks result made
  cases made
  rfl

theorem enacts_crash (crash : Crash) : Enacts options act (Print.crash crash) := by
  intro ends tasks result made
  cases made

theorem enacts_write (text : List UInt8) :
    Enacts options (fun printer => printer.write text) (write text) := by
  intro ends tasks result made
  simp only [Printer.write, Ends.printer]
  unfold write at made
  generalize ends.output.writeAll text = written at made ⊢
  obtain ⟨_ | _, output⟩ := written <;> cases made <;> rfl

theorem enacts_writeAt (level : Nat) (text : List UInt8) :
    Enacts options (fun printer => printer.write text) (writeAt options level text) := by
  unfold writeAt
  split
  · exact enacts_write text
  · exact enacts_crash _

theorem enacts_look {view : Unpacker Source → α} (act : α → Printer → Printer.Answer)
    {goesOn : α → Print Unit} (enacts : ∀ value, Enacts options (act value) (goesOn value)) :
    Enacts options (fun printer => act (view printer.input) printer) (look view >>= goesOn) :=
  fun ends tasks result made => enacts (view ends.input) ends tasks result made

theorem enacts_cases {view : Unpacker Source → α} {goesOn : α → Print Unit}
    (enacts : ∀ value, ∃ other : Printer → Printer.Answer, Enacts options other (goesOn value) ∧
      ∀ printer, view printer.input = value → act printer = other printer) :
    Enacts options act (look view >>= goesOn) := by
  intro ends tasks result made
  obtain ⟨other, enacts, same⟩ := enacts (view ends.input)
  rw [same (ends.printer tasks) rfl]
  exact enacts ends tasks result made

theorem enacts_read {request : Unpacker Source → Except Fault α × Unpacker Source}
    {act : α → Printer → Printer.Answer} {goesOn : α → Print Unit}
    (enacts : ∀ value, Enacts options (act value) (goesOn value)) :
    Enacts options (fun printer => printer.withInput (request printer.input) act)
      (read request >>= goesOn) := by
  intro ends tasks result made
  rcases bind_eq_ok made with ⟨_, _, read, rfl⟩ | ⟨value, between, read, rested⟩
  all_goals
    simp only [Printer.withInput, Ends.printer]
    unfold Print.read at read
    generalize request ends.input = answered at read ⊢
    obtain ⟨_ | _, input⟩ := answered <;> cases read
  · rfl
  · exact enacts value _ tasks result rested

/-- Of a call and what follows it, the printer has pushed the second before it goes through the
first. -/
theorem Enacts.andThen (enacts : Enacts options act call) (tasks : List Task)
    (others : Enacts options (fun printer => (.ok (), printer.pushAll tasks)) rest) :
    Enacts options (fun printer => act (printer.pushAll tasks)) (call >>= fun _ => rest) := by
  intro ends waiting result made
  rcases bind_eq_ok made with ⟨stop, after, called, rfl⟩ | ⟨_, between, called, rested⟩
  · exact enacts ends (tasks ++ waiting) _ called
  · exact (enacts ends (tasks ++ waiting) _ called).trans (others between waiting result rested)

theorem Enacts.thenWrite (tasks : List Task) (text : List UInt8)
    (enacts : Enacts options (fun printer => act (printer.pushAll tasks)) rest) :
    Enacts options (fun printer => (printer.pushAll tasks).thenWrite text act)
      (write text >>= fun _ => rest) := by
  intro ends waiting result made
  rcases bind_eq_ok made with ⟨_, _, wrote, rfl⟩ | ⟨_, between, wrote, rested⟩
  all_goals
    simp only [Printer.thenWrite, Printer.write, Printer.pushAll, Ends.printer]
    unfold write at wrote
    generalize ends.output.writeAll text = written at wrote ⊢
    obtain ⟨_ | _, output⟩ := written <;> cases wrote
  · rfl
  · exact enacts _ waiting result rested

theorem Enacts.thenWriteAt (tasks : List Task) (level : Nat) (text : List UInt8)
    (enacts : Enacts options (fun printer => act (printer.pushAll tasks)) rest) :
    Enacts options (fun printer => (printer.pushAll tasks).thenWrite text act)
      (writeAt options level text >>= fun _ => rest) := by
  unfold writeAt
  split
  · exact enacts.thenWrite tasks text
  · intro ends waiting result made
    rcases bind_eq_ok made with ⟨_, _, crashed, _⟩ | ⟨_, _, crashed, _⟩ <;> cases crashed

theorem Enacts.task {task : Task} {tasks : List Task}
    (enacts : Enacts options (fun printer => (printer.pushAll tasks).perform options task) call) :
    Enacts options (fun printer => (.ok (), printer.pushAll (task :: tasks))) call := by
  intro ends waiting result made
  rw [← enacts ends waiting result made, Printer.resume, ← Printer.resume_step]
  rfl

variable {current : Nat → Print Unit}

theorem enacts_next (enacts : ∀ level, Enacts options (Printer.current level) (current level))
    (level : Nat) : Enacts options (Printer.readItem level) (next current level) :=
  enacts_read fun _ => enacts level

theorem enacts_elements (enacts : ∀ level, Enacts options (Printer.current level) (current level))
    (level : Nat) (bracket : Char) (left index : Nat) :
    Enacts options (fun printer => printer.perform options (.elements left index level bracket))
      (elements options current level bracket left index) := by
  induction left generalizing index with
  | zero =>
    let act (offset : Nat) (printer : Printer) : Printer.Answer :=
      printer.write (options.close offset level bracket)
    exact enacts_look act fun _ => enacts_writeAt _ _
  | succ left ih =>
    let rest : Task := .elements left (index + 1) level bracket
    let act (offset : Nat) (printer : Printer) : Printer.Answer :=
      (printer.pushAll [.item (level + 1), rest]).write (options.separate offset (level + 1) index)
    refine enacts_look act fun _ => (enacts_writeAt _ _).andThen _ (.task ?_)
    exact (enacts_next enacts _).andThen [rest] (.task (ih _))

theorem enacts_entries (enacts : ∀ level, Enacts options (Printer.current level) (current level))
    (level left index : Nat) :
    Enacts options (fun printer => printer.perform options (.entries left index level))
      (entries options current level left index) := by
  induction left generalizing index with
  | zero =>
    let act (offset : Nat) (printer : Printer) : Printer.Answer :=
      printer.write (options.close offset level '\x7d')
    exact enacts_look act fun _ => enacts_writeAt _ _
  | succ left ih =>
    let rest : Task := .entries left (index + 1) level
    let act (offset : Nat) (printer : Printer) : Printer.Answer :=
      (printer.pushAll [.item (level + 1), .colon, .item (level + 1), rest]).write
        (options.separate offset (level + 1) index)
    refine enacts_look act fun _ => (enacts_writeAt _ _).andThen _ (.task ?_)
    refine (enacts_next enacts _).andThen [.colon, .item (level + 1), rest] (.task ?_)
    refine (enacts_write _).andThen [.item (level + 1), rest] (.task ?_)
    exact (enacts_next enacts _).andThen [rest] (.task (ih _))

theorem enacts_named (enacts : ∀ level, Enacts options (Printer.current level) (current level))
    (size level : Nat) :
    Enacts options (Printer.printName size level) (named options current size level) := by
  refine enacts_cases fun item => ?_
  rcases item with _ | item
  · exact ⟨_, enacts_stop _, fun printer held => by rw [Printer.printName, held]⟩
  · cases item with
    | str name =>
      exact ⟨_, (enacts_write _).andThen [_] (.task (enacts_elements enacts _ _ _ _)),
        fun printer held => by rw [Printer.printName, held]; rfl⟩
    | _ => exact ⟨_, enacts_stop _, fun printer held => by rw [Printer.printName, held]⟩

theorem enacts_record (enacts : ∀ level, Enacts options (Printer.current level) (current level))
    (size level : Nat) :
    Enacts options (Printer.printRecord size level) (record options current size level) := by
  refine enacts_read fun label => ?_
  split
  · exact enacts_write _
  · refine .thenWrite [] _ ?_
    split
    · exact .task (enacts_read fun _ => enacts_named enacts _ _)
    · split
      · exact .task (enacts_next enacts _)
      · exact enacts_stop _

theorem enacts_plain (enacts : ∀ level, Enacts options (Printer.current level) (current level))
    (size first level : Nat) :
    Enacts options
      (fun printer => (printer.push (.elements (size - 1) 1 level ']')).thenWrite
        (ascii ['['] ++ options.separate first (level + 1) 0) (Printer.current (level + 1)))
      (plain options current size first level) :=
  .thenWriteAt [_] _ _ ((enacts _).andThen [_] (.task (enacts_elements enacts _ _ _ _)))

theorem enacts_opened (enacts : ∀ level, Enacts options (Printer.current level) (current level))
    (size first level : Nat) :
    Enacts options (Printer.printFirst options size first level)
      (opened options current size first level) := by
  have array := enacts_plain enacts size first level
  refine enacts_cases fun item => ?_
  rcases item with _ | item
  · exact ⟨_, array, fun printer held => by rw [Printer.printFirst, held]⟩
  · cases item with
    | ext type payload =>
      by_cases led : options.records ∧ type = recordType
      · simp only [if_pos led]
        refine ⟨_, enacts_record enacts size level, fun printer held => ?_⟩
        rw [Printer.printFirst, held]
        exact if_pos led
      · simp only [if_neg led]
        refine ⟨_, array, fun printer held => ?_⟩
        rw [Printer.printFirst, held]
        exact if_neg led
    | _ => exact ⟨_, array, fun printer held => by rw [Printer.printFirst, held]⟩

theorem enacts_array (enacts : ∀ level, Enacts options (Printer.current level) (current level))
    (size level : Nat) :
    Enacts options (Printer.printItem level (.array size)) (array options current size level) := by
  cases size with
  | zero => exact enacts_write _
  | succ size =>
    let act (first : Nat) (printer : Printer) : Printer.Answer :=
      (.ok (), printer.pushAll [.first (size + 1) first level])
    exact enacts_look act fun first => .task (enacts_read fun _ => enacts_opened enacts _ _ _)

theorem enacts_map (enacts : ∀ level, Enacts options (Printer.current level) (current level))
    (size level : Nat) :
    Enacts options (Printer.printItem level (.map size)) (map options current size level) := by
  cases size with
  | zero => exact enacts_write _
  | succ size => exact (enacts_write _).andThen [_] (.task (enacts_entries enacts _ _ _))

end

/-- By the room for calls: what one call prints, the tasks print in as many steps as it takes. -/
theorem enacts_current (options : Options) (room level : Nat) :
    Enacts options (Printer.current level) (current options room level) := by
  induction room generalizing level with
  | zero => exact enacts_crash _
  | succ room ih =>
    refine enacts_cases fun item => ?_
    rcases item with _ | item
    · exact ⟨_, enacts_stop _, fun printer held => by rw [Printer.current, held]⟩
    · cases item with
      | array size =>
        exact ⟨_, enacts_array ih size level, fun _ held => Printer.current_of_held held level⟩
      | map size =>
        exact ⟨_, enacts_map ih size level, fun _ held => Printer.current_of_held held level⟩
      | _ => exact ⟨_, enacts_write _, fun _ held => Printer.current_of_held held level⟩

theorem enacts_line (options : Options) (room : Nat) :
    Enacts options
      (fun printer => printer.thenWrite (options.newLine printer.offset 0) (Printer.readItem 0))
      (line options room) := by
  let act (offset : Nat) (printer : Printer) : Printer.Answer :=
    printer.thenWrite (options.newLine offset 0) (Printer.readItem 0)
  exact enacts_look act fun offset => .thenWrite [] _ (enacts_next (enacts_current options room) 0)

theorem ending_of_lines {options : Options} {room : Nat} {ends after : Ends} {stop : Stop}
    (made : lines options room ends = .ok (stop, after)) :
    (ends.printer []).ending options = (stop, after.output) := by
  fun_induction lines options room ends with
  | case1 ends crash crashed => cases made
  | case2 ends stop' after' stopped =>
    cases made
    rw [← Printer.resume_step]
    exact enacts_line options room ends [] _ stopped
  | case3 ends _ between passed ih =>
    rw [← ih made, ← Printer.resume_step]
    exact enacts_line options room ends [] _ passed

end Print

theorem eq_dump_of_dumpOn {room : Nat} {input : Input} {output : Output} {options : Options}
    {answer : Except String Fault × Output}
    (made : dumpOn room input output options = .ok answer) :
    answer = dump input output options := by
  unfold dumpOn at made
  cases ran : Print.lines options room ⟨.ofInput input inputCapacity .native, output⟩ with
  | error crash =>
    rw [ran] at made
    cases made
  | ok result =>
    obtain ⟨stop, after⟩ := result
    rw [ran] at made
    cases made
    exact (congrArg (fun ending => conclude ending.1 ending.2) (Print.ending_of_lines ran)).symm

namespace Print

/-! ### Room enough -/

section

variable {call : Print α} {goesOn : α → Print β} {ends after : Ends}

theorem bind_of_crash {crash : Crash} (called : call ends = .error crash) :
    (call >>= goesOn) ends = .error crash := by
  change Except.bind (call ends) (fun (answer, after) => ExceptT.bindCont goesOn answer after) = _
  rw [called]
  rfl

theorem bind_of_stop {stop : Stop} (called : call ends = .ok (.error stop, after)) :
    (call >>= goesOn) ends = .ok (.error stop, after) := by
  change Except.bind (call ends) (fun (answer, after) => ExceptT.bindCont goesOn answer after) = _
  rw [called]
  rfl

theorem bind_of_ok {value : α} (called : call ends = .ok (.ok value, after)) :
    (call >>= goesOn) ends = goesOn value after := by
  change Except.bind (call ends) (fun (answer, after) => ExceptT.bindCont goesOn answer after) = _
  rw [called]
  rfl

end

/-- With no more input than so many bytes to come, a call does not crash. -/
def Holds (bytes : Nat) (call : Print α) : Prop :=
  ∀ ends, ends.input.supply ≤ bytes → ∃ result, call ends = .ok result

section

variable {bytes : Nat}

theorem Holds.least {fewer : Nat} {call : Print α} (holds : Holds bytes call)
    (fewer_le : fewer ≤ bytes) : Holds fewer call :=
  fun ends supply => holds ends (Nat.le_trans supply fewer_le)

theorem holds_bind {call : Print α} {goesOn : α → Print β} (holds : Holds bytes call)
    (reads : Reads 0 call) (others : ∀ value, Holds bytes (goesOn value)) :
    Holds bytes (call >>= goesOn) := by
  intro ends supply
  obtain ⟨⟨stop | value, after⟩, called⟩ := holds ends supply
  · exact ⟨_, bind_of_stop called⟩
  · rw [bind_of_ok called]
    exact others value after (Nat.le_trans (reads ends value after called) supply)

theorem holds_read (request : Unpacker Source → Except Fault α × Unpacker Source) :
    Holds bytes (read request) := by
  intro ends _
  unfold read
  split <;> exact ⟨_, rfl⟩

theorem holds_afterNext {rest : Item → Print α}
    (others : ∀ fewer, fewer < bytes → ∀ item, Holds fewer (rest item)) :
    Holds bytes (read Unpacker.next >>= rest) := by
  intro ends supply
  have holds : Holds bytes (read Unpacker.next) := holds_read _
  obtain ⟨⟨stop | item, after⟩, called⟩ := holds ends supply
  · exact ⟨_, bind_of_stop called⟩
  · rw [bind_of_ok called]
    have less := reads_next ends item after called
    exact others after.input.supply (by omega) item after (Nat.le_refl _)

theorem holds_look (view : Unpacker Source → α) : Holds bytes (look view) :=
  fun _ _ => ⟨_, rfl⟩

theorem holds_stop (fault : Fault) : Holds bytes (stop fault : Print α) := fun _ _ => ⟨_, rfl⟩

theorem holds_write (text : List UInt8) : Holds bytes (write text) := by
  intro ends _
  unfold write
  split <;> exact ⟨_, rfl⟩

theorem holds_writeAt {options : Options} {level : Nat}
    (narrow : level * options.indent < Position.modulus) (text : List UInt8) :
    Holds bytes (writeAt options level text) := by
  rw [writeAt, if_pos narrow]
  exact holds_write text

variable {options : Options} {current : Nat → Print Unit} {level : Nat}

/-- What is printed inside of an item at a level has a byte less to come, and is one level
further in at most. -/
structure Inner (options : Options) (current : Nat → Print Unit) (level bytes : Nat) : Prop where
  reads : ∀ level, Reads 0 (current level)
  narrow : (level + 1) * options.indent < Position.modulus
  holds : ∀ fewer, fewer < bytes → ∀ inner, inner ≤ level + 1 → Holds fewer (current inner)

namespace Inner

variable (inner : Inner options current level bytes)

include inner

theorem outer : level * options.indent < Position.modulus :=
  Nat.lt_of_le_of_lt (Nat.mul_le_mul_right _ (Nat.le_succ level)) inner.narrow

theorem next {place : Nat} (place_le : place ≤ level + 1) : Holds bytes (next current place) :=
  holds_afterNext fun fewer less _ => inner.holds fewer less place place_le

theorem elements (bracket : Char) (left index : Nat) :
    Holds bytes (elements options current level bracket left index) := by
  induction left generalizing index with
  | zero => exact holds_bind (holds_look _) (reads_look _) fun _ => holds_writeAt inner.outer _
  | succ left ih =>
    refine holds_bind (holds_look _) (reads_look _) fun _ =>
      holds_bind (holds_writeAt inner.narrow _) (reads_writeAt _ _ _) fun _ => ?_
    exact holds_bind (inner.next (Nat.le_refl _)) (reads_item inner.reads _).least fun _ => ih _

theorem entries (left index : Nat) : Holds bytes (entries options current level left index) := by
  induction left generalizing index with
  | zero => exact holds_bind (holds_look _) (reads_look _) fun _ => holds_writeAt inner.outer _
  | succ left ih =>
    have item : Holds bytes (Print.next current (level + 1)) := inner.next (Nat.le_refl _)
    have reads := (reads_item inner.reads (level + 1)).least
    refine holds_bind (holds_look _) (reads_look _) fun _ =>
      holds_bind (holds_writeAt inner.narrow _) (reads_writeAt _ _ _) fun _ => ?_
    exact holds_bind item reads fun _ => holds_bind (holds_write _) (reads_write _) fun _ =>
      holds_bind item reads fun _ => ih _

theorem named (size : Nat) : Holds bytes (named options current size level) := by
  refine holds_bind (holds_look _) (reads_look _) fun item => ?_
  split
  · exact holds_bind (holds_write _) (reads_write _) fun _ => inner.elements _ _ _
  · exact holds_stop _

theorem record (size : Nat) : Holds bytes (record options current size level) := by
  refine holds_bind (holds_read _) reads_extInteger fun label => ?_
  split
  · exact holds_write _
  · refine holds_bind (holds_write _) (reads_write _) fun _ => ?_
    split
    · exact holds_bind (holds_read _) reads_next.least fun _ => inner.named size
    · split
      · exact inner.next (Nat.le_succ level)
      · exact holds_stop _

theorem opened {fewer : Nat} (less : fewer < bytes) (size first : Nat) :
    Holds fewer (opened options current size first level) := by
  have plain : Holds fewer (plain options current size first level) :=
    holds_bind (holds_writeAt inner.narrow _) (reads_writeAt _ _ _) fun _ =>
      holds_bind (inner.holds fewer less _ (Nat.le_refl _)) (inner.reads _) fun _ =>
        (inner.elements _ _ _).least (Nat.le_of_lt less)
  refine holds_bind (holds_look _) (reads_look _) fun item => ?_
  split
  · split
    · exact (inner.record size).least (Nat.le_of_lt less)
    · exact plain
  · exact plain

theorem array (size : Nat) : Holds bytes (array options current size level) := by
  unfold Print.array
  split
  · exact holds_write _
  · exact holds_bind (holds_look _) (reads_look _) fun first =>
      holds_afterNext fun fewer less _ => inner.opened less size first

theorem map (size : Nat) : Holds bytes (map options current size level) := by
  unfold Print.map
  split
  · exact holds_write _
  · exact holds_bind (holds_write _) (reads_write _) fun _ => inner.entries _ _

end Inner

/-- Each nested call has read a byte that the calls around it have not. -/
theorem holds_current {room : Nat} (roomy : bytes < room)
    (narrow : (level + bytes + 1) * options.indent < Position.modulus) :
    Holds bytes (Print.current options room level) := by
  induction room generalizing bytes level with
  | zero => exact absurd roomy (Nat.not_lt_zero _)
  | succ room ih =>
    have inner : Inner options (Print.current options room) level bytes := by
      refine ⟨reads_current options room, ?_, fun fewer less place place_le => ih (by omega) ?_⟩
      all_goals
        refine Nat.lt_of_le_of_lt (Nat.mul_le_mul_right _ ?_) narrow
        omega
    refine holds_bind (holds_look _) (reads_look _) fun item => ?_
    split
    · exact inner.array _
    · exact inner.map _
    · exact holds_write _
    · exact holds_stop _

theorem holds_line {room : Nat} (roomy : bytes ≤ room)
    (narrow : bytes * options.indent < Position.modulus) : Holds bytes (line options room) := by
  refine holds_bind (holds_look _) (reads_look _) fun offset =>
    holds_bind (holds_write _) (reads_write _) fun _ =>
      holds_afterNext fun fewer less _ => holds_current (by omega) ?_
  exact Nat.lt_of_le_of_lt (Nat.mul_le_mul_right _ (by omega)) narrow

theorem holds_lines {room : Nat} {ends : Ends} (supply : ends.input.supply ≤ bytes)
    (roomy : bytes ≤ room) (narrow : bytes * options.indent < Position.modulus) :
    ∃ result, lines options room ends = .ok result := by
  fun_induction lines options room ends with
  | case1 ends crash crashed =>
    obtain ⟨result, called⟩ := holds_line roomy narrow ends supply
    cases crashed.symm.trans called
  | case2 => exact ⟨_, rfl⟩
  | case3 ends _ after passed ih =>
    have less := reads_line options room ends _ after passed
    exact ih (by omega)

end

end Print

/-- A stack with room for as many calls as the input has bytes is enough. -/
theorem dumpOn_of_roomy {room : Nat} {input : Input} {options : Options}
    (roomy : input.pending.length ≤ room)
    (narrow : input.pending.length * options.indent < Position.modulus) (output : Output) :
    dumpOn room input output options = .ok (dump input output options) := by
  have supply : (Unpacker.ofInput input inputCapacity .native).supply ≤ input.pending.length :=
    Nat.le_of_eq (Nat.zero_add _)
  let ends : Ends := ⟨.ofInput input inputCapacity .native, output⟩
  obtain ⟨result, ran⟩ : ∃ result, Print.lines options room ends = .ok result :=
    Print.holds_lines supply roomy narrow
  have made : dumpOn room input output options =
      .ok (conclude result.1 result.2.output) := by
    unfold dumpOn
    rw [ran]
    rfl
  rw [made, eq_dump_of_dumpOn made]

/-! ### Arrays in arrays -/

def opening : UInt8 := 0x91

namespace Print

/-- So many arrays are to come, each the only element of the one before, and whatever is printed
is taken. -/
structure Nested (ends : Ends) (count : Nat) : Prop where
  reading : ∃ reading, ends.input.Traces reading ∧ reading.Faces (.replicate count opening)
  shows : ∃ seen, ends.input.buffer.Shows seen
  accepts : ends.output.Accepts

variable {ends : Ends} {count : Nat}

theorem Nested.next (nested : Nested ends (count + 1)) :
    ∃ after, read Unpacker.next ends = .ok (.ok (.array 1), after) ∧ Nested after count ∧
      after.input.item? = some (.array 1) := by
  obtain ⟨reading, traces, faces⟩ := nested.reading
  obtain ⟨seen, shows⟩ := nested.shows
  let tree : Tree := .array [.leaf .nil]
  have opens : reading.next = (.ok tree.item, reading.advance (tree.opening .native).length) :=
    @Reading.Faces.next reading tree .native (.replicate count opening) faces rfl (by decide)
  obtain ⟨answer, stays⟩ := traces.next
  rw [opens] at answer stays
  have read : ends.input.next = (.ok (.array 1), ends.input.next.2) := Prod.ext answer rfl
  have goesOn : ends.input.next.2.buffer.Shows seen := Unpacker.shows_request shows (.call .next)
  refine ⟨{ ends with input := ends.input.next.2 }, ?_, ⟨⟨_, stays, ?_⟩, ⟨seen, goesOn⟩,
    nested.accepts⟩, Unpacker.item_of_next shows read⟩
  · unfold Print.read
    rw [read]
  · exact @Reading.Faces.advance reading [opening] (.replicate count opening) faces

theorem Nested.write (nested : Nested ends count) (text : List UInt8) :
    ∃ after, write text ends = .ok (.ok (), after) ∧ Nested after count ∧
      after.input = ends.input := by
  obtain ⟨written, accepts, _⟩ := nested.accepts.writeAll text
  refine ⟨{ ends with output := (ends.output.writeAll text).2 }, ?_,
    ⟨nested.reading, nested.shows, accepts⟩, rfl⟩
  unfold Print.write
  generalize ends.output.writeAll text = result at written
  obtain ⟨answer, output⟩ := result
  dsimp only at written
  subst written
  rfl

theorem look_eq (view : Unpacker Source → α) (ends : Ends) :
    look view ends = .ok (.ok (view ends.input), ends) := rfl

theorem Nested.current {room : Nat} (nested : Nested ends count) (short : room ≤ count)
    (held : ends.input.item? = some (.array 1)) (records : Bool) (level : Nat) :
    Print.current ⟨0, records⟩ room level ends = .error .stackOverflow := by
  induction room generalizing ends count level with
  | zero => rfl
  | succ room ih =>
    obtain ⟨count, rfl⟩ : ∃ fewer, count = fewer + 1 := ⟨count - 1, by omega⟩
    obtain ⟨between, read, nested, first⟩ := nested.next
    obtain ⟨after, written, nested, same⟩ := nested.write
      (ascii ['['] ++ Options.separate ⟨0, records⟩ ends.input.offset (level + 1) 0)
    have overflows := ih nested (Nat.le_of_succ_le_succ short) (same ▸ first) (level + 1)
    rw [Print.current, bind_of_ok (look_eq _ _), held]
    dsimp only
    rw [array, if_neg Nat.one_ne_zero, bind_of_ok (look_eq _ _), bind_of_ok read, opened,
      bind_of_ok (look_eq _ _), first]
    dsimp only
    have narrow : (level + 1) * 0 < Position.modulus := by simp [Position.modulus]
    rw [plain, writeAt, if_pos narrow, bind_of_ok written]
    exact bind_of_crash overflows

end Print

/-- Whatever room there is, one array more brings the program down. -/
theorem dumpOn_of_nested {input : Input} {output : Output} {count : Nat}
    (delivers : input.Delivers .endOfInput) (pending : input.pending = .replicate count opening)
    (accepts : output.Accepts) {room : Nat} (short : room < count) (records : Bool) :
    dumpOn room input output ⟨0, records⟩ = .error .stackOverflow := by
  obtain ⟨count, rfl⟩ : ∃ fewer, count = fewer + 1 := ⟨count - 1, by omega⟩
  let ends : Ends := ⟨.ofInput input inputCapacity .native, output⟩
  have traces := Unpacker.traces_ofInput delivers (by decide : inputCapacity < Position.modulus)
    .native
  rw [pending] at traces
  have nested : Print.Nested ends (count + 1) :=
    ⟨⟨_, traces, rfl, rfl, rfl⟩, Incoming.shows_ofCapacity (by decide : inputCapacity < _), accepts⟩
  obtain ⟨between, written, nested, same⟩ :=
    nested.write (Options.newLine ⟨0, records⟩ ends.input.offset 0)
  obtain ⟨after, read, nested, first⟩ := nested.next
  have overflows := nested.current (Nat.le_of_lt_succ short) first records 0
  have line : Print.line ⟨0, records⟩ room ends = .error .stackOverflow := by
    rw [Print.line, Print.bind_of_ok (Print.look_eq _ _), Print.bind_of_ok written, Print.next,
      Print.bind_of_ok read]
    exact overflows
  have lines : Print.lines ⟨0, records⟩ room ends = .error .stackOverflow := by
    rw [Print.lines]
    split <;> rename_i made <;> cases line.symm.trans made
    rfl
  unfold dumpOn
  rw [lines]
  rfl

theorem dumpOn_nested_steady {room count : Nat} (short : room < count) (records : Bool) :
    dumpOn room (.ofBytes (.replicate count opening) .steady) (.ofPlan .steady) ⟨0, records⟩ =
      .error .stackOverflow :=
  dumpOn_of_nested (Input.delivers_steady _) rfl Output.accepts_steady short records

end Dump
end MessagePack
