import MessagePack.Dump.Run
import MessagePack.Proofs.FailingOutput
import MessagePack.Proofs.ItemRecall

/-! What a printer does, whatever output it has. A script says what one step writes and reads, and
what it leaves to do; it depends on the items that are read and never on how the writing goes.
A dump is therefore a list of requests that the input settles, made of the output one by one up to
the first that fails. -/
namespace MessagePack

namespace Unpacker

theorem order_settle (answer : Except Fault α) (unpacker : Unpacker σ) :
    (unpacker.settle answer).2.order = unpacker.order := by
  cases answer <;> rfl

theorem currentExt_of_item {unpacker : Unpacker σ} {type : Int8} {payload : List UInt8}
    (clean : unpacker.fault = none) (held : unpacker.item? = some (.ext type payload))
    (user : 0 ≤ type) (read : ByteOrder → List UInt8 → Except Fault α) :
    unpacker.currentExt read = unpacker.settle (read unpacker.order payload) := by
  simp only [currentExt, attempt, clean, held, if_pos user]

variable [Inlet σ] {unpacker after : Unpacker σ} {item : Item}

theorem order_readPayload (header : Header) (unpacker : Unpacker σ) :
    (unpacker.readPayload header).2.order = unpacker.order := by
  unfold readPayload
  split
  · rfl
  · rename_i length _
    have kept := (unpacker.spares_take length false).order
    split <;> rename_i made <;> rw [made] at kept <;> exact kept

theorem order_next (unpacker : Unpacker σ) : unpacker.next.2.order = unpacker.order := by
  unfold next attempt
  split
  · rfl
  rw [order_settle]
  have kept := (spares_perform { unpacker with last := none } (Header.scan unpacker.order)).order
  split <;> rename_i made <;> rw [made] at kept
  · exact kept
  · exact (order_readPayload _ _).trans kept

/-- An item is read only where there is no fault, before and after. -/
theorem clean_of_next (read : unpacker.next = (.ok item, after)) :
    unpacker.fault = none ∧ after.fault = none := by
  cases failed : unpacker.fault with
  | some fault =>
    rw [next, attempt_of_fault failed] at read
    cases read
  | none =>
    have status := unpacker.heeds_next.status
    rw [read, Unpacker.status, Unpacker.status, failed] at status
    cases kept : after.fault with
    | none => exact ⟨rfl, rfl⟩
    | some fault =>
      rw [kept] at status
      cases status

end Unpacker

/-- What items are read from, one after another. -/
class Readable (ι : Type) where
  next (input : ι) : Except Fault Item × ι
  offset (input : ι) : Nat

instance [Inlet σ] : Readable (Unpacker σ) where
  next := Unpacker.next
  offset := Unpacker.offset

namespace Dump

/-- What is done in one step. -/
inductive Script where
  | stop (fault : Fault)
  | done
  | push (task : Task) (next : Script)
  | write (text : List UInt8) (next : Script)
  /-- Reads an item, and goes on with it and with the offset behind it. -/
  | read (next : (offset : Nat) → Item → Script)

/-- A printer without its output. -/
structure Stage (ι : Type) where
  input : ι
  tasks : List Task
  deriving DecidableEq

def Stage.push (stage : Stage ι) (task : Task) : Stage ι :=
  { stage with tasks := task :: stage.tasks }

/-- What comes of a script: the texts that it writes, and where it leads. -/
structure Effect (ι : Type) where
  texts : List (List UInt8)
  outcome : Except Fault (Stage ι)

section

variable [Readable ι]

def Stage.offset (stage : Stage ι) : Nat := Readable.offset stage.input

namespace Script

def play : Script → Stage ι → Effect ι
  | .stop fault, _ => ⟨[], .error fault⟩
  | .done, stage => ⟨[], .ok stage⟩
  | .push task next, stage => next.play (stage.push task)
  | .write text next, stage => ⟨text :: (next.play stage).texts, (next.play stage).outcome⟩
  | .read next, stage =>
    match Readable.next stage.input with
    | (.error fault, _) => ⟨[], .error fault⟩
    | (.ok item, input) => (next (Readable.offset input) item).play { stage with input }

theorem play_read_of_ok {stage : Stage ι} {item : Item} {input : ι}
    (read : Readable.next stage.input = (.ok item, input)) (next : Nat → Item → Script) :
    (Script.read next).play stage =
      (next (Readable.offset input) item).play { stage with input } := by
  rw [play, read]

theorem play_read_of_error {stage : Stage ι} {fault : Fault}
    (failed : (Readable.next stage.input).1 = .error fault) (next : Nat → Item → Script) :
    (Script.read next).play stage = ⟨[], .error fault⟩ := by
  rw [play]
  generalize Readable.next stage.input = result at failed
  obtain ⟨answer, input⟩ := result
  subst failed
  rfl

def ofItem (level offset : Nat) : Item → Script
  | .array 0 => .write (ascii ['[', ']']) .done
  | .array size => .push (.first size offset level) .done
  | .map 0 => .write (ascii ['\x7b', '\x7d']) .done
  | .map size => .push (.entries size 0 level) (.write (ascii ['\x7b']) .done)
  | item => .write (scalar item) .done

def ofName (size level : Nat) : Item → Script
  | .str name => .push (.elements (size - 2) 0 level ')') (.write (name ++ ascii ['(']) .done)
  | _ => .stop .malformedInput

def ofRecord (size level : Nat) (payload : List UInt8) : Script :=
  match ExtNumber.integer .native payload with
  | .error fault => .stop fault
  | .ok label =>
    if size = 1 then .write (ascii ('-' :: '>' :: signedDecimal label)) .done
    else
      .write (if label = 0 then [] else ascii (signedDecimal label ++ ['-', '>'])) <|
        if 0 ≤ label then .push (.name size level) .done
        else if size = 2 then .push (.item level) .done
        else .stop .malformedInput

/-- An array that is none of a record, by its first element. -/
def ofArray (options : Options) (size first level offset : Nat) (item : Item) : Script :=
  .push (.elements (size - 1) 1 level ']') <|
    .write (ascii ['['] ++ options.separate first (level + 1) 0) (ofItem (level + 1) offset item)

/-- An array, by its first element, which began at `first` and ends at `offset`. -/
def ofFirst (options : Options) (size first level offset : Nat) (item : Item) : Script :=
  match item with
  | .ext type payload =>
    if options.records ∧ type = recordType then ofRecord size level payload
    else ofArray options size first level offset item
  | _ => ofArray options size first level offset item

def ofTask (options : Options) (offset : Nat) : Task → Script
  | .item level => .read (ofItem level)
  | .first size first level => .read (ofFirst options size first level)
  | .name size level => .read fun _ => ofName size level
  | .colon => .write (ascii [':']) .done
  | .elements 0 _ level bracket => .write (options.close offset level bracket) .done
  | .elements (left + 1) index level bracket =>
    .push (.elements left (index + 1) level bracket) <| .push (.item (level + 1)) <|
      .write (options.separate offset (level + 1) index) .done
  | .entries 0 _ level => .write (options.close offset level '\x7d') .done
  | .entries (left + 1) index level =>
    .push (.entries left (index + 1) level) <| .push (.item (level + 1)) <| .push .colon <|
      .push (.item (level + 1)) <| .write (options.separate offset (level + 1) index) .done

def ofLine (options : Options) (offset : Nat) : Script :=
  .write (options.newLine offset 0) (.read (ofItem 0))

end Script

def Stage.effect (options : Options) (stage : Stage ι) : Effect ι :=
  match stage.tasks with
  | [] => (Script.ofLine options stage.offset).play stage
  | task :: tasks => (Script.ofTask options stage.offset task).play { stage with tasks }

/-- The stages that printing goes through, and the fault that ends it. -/
inductive Course (options : Options) : Stage ι → List (Stage ι) → Fault → Prop where
  | last {stage : Stage ι} {fault : Fault} (stops : (stage.effect options).outcome = .error fault) :
    Course options stage [stage] fault
  | step {stage next : Stage ι} {stages : List (Stage ι)} {fault : Fault}
    (leads : (stage.effect options).outcome = .ok next)
    (rest : Course options next stages fault) : Course options stage (stage :: stages) fault

theorem Course.head {options : Options} {stage : Stage ι} {stages : List (Stage ι)}
    {fault : Fault} (course : Course options stage stages fault) : stage ∈ stages.head? := by
  cases course <;> rfl

def texts (options : Options) (stages : List (Stage ι)) : List (List UInt8) :=
  stages.flatMap fun stage => (stage.effect options).texts

def starts (stages : List (Stage ι)) : List Nat :=
  (stages.filter fun stage => stage.tasks.isEmpty).map Stage.offset

theorem starts_cons (stage : Stage ι) (stages : List (Stage ι)) :
    starts (stage :: stages) =
      (if stage.tasks.isEmpty then [stage.offset] else []) ++ starts stages := by
  rw [starts, List.filter_cons]
  split <;> rfl

/-- What stages write: the rest of the line that they come to, and the lines that they begin. -/
theorem texts_eq_lines (options : Options) (stages : List (Stage ι)) :
    ∃ (front : List UInt8) (lines : List (Nat × List UInt8)),
      (texts options stages).flatten =
        front ++ lines.flatMap (fun line => options.newLine line.1 0 ++ line.2) ∧
      lines.map Prod.fst = starts stages ∧
      ∀ stage ∈ stages.head?, stage.tasks = [] → front = [] := by
  induction stages with
  | nil => exact ⟨[], [], rfl, rfl, nofun⟩
  | cons stage stages ih =>
    obtain ⟨front, lines, text, begun, _⟩ := ih
    have split : (texts options (stage :: stages)).flatten =
        (stage.effect options).texts.flatten ++ (texts options stages).flatten := by
      rw [texts, List.flatMap_cons, List.flatten_append]
      rfl
    rw [split, text, starts_cons, ← begun]
    obtain ⟨input, tasks⟩ := stage
    cases tasks with
    | nil =>
      -- The step begins a line, and the rest of what it writes belongs to that line.
      let offset := Readable.offset input
      let body := ((Script.read (Script.ofItem 0)).play ⟨input, []⟩).texts.flatten
      have written : (Stage.effect options ⟨input, []⟩).texts.flatten =
          options.newLine offset 0 ++ body := rfl
      refine ⟨[], (offset, body ++ front) :: lines, ?_, rfl, fun _ _ _ => rfl⟩
      rw [written]
      simp
    | cons task tasks =>
      refine ⟨(Stage.effect options ⟨input, task :: tasks⟩).texts.flatten ++ front, lines,
        (List.append_assoc ..).symm, rfl, ?_⟩
      rintro _ ⟨⟩ ⟨⟩

/-- The name of a record, if that is what the next step prints. -/
def Stage.name? (stage : Stage ι) : Option (List UInt8) :=
  match stage.tasks, (Readable.next stage.input).1 with
  | .name _ _ :: _, .ok (.str name) => some name
  | _, _ => none

def names (stages : List (Stage ι)) : List (List UInt8) := stages.filterMap Stage.name?

end

namespace Stage

/-- The buffer holds what it has seen, in the byte order of the host. -/
structure Ready (stage : Stage (Unpacker Source)) : Prop where
  shows : ∃ seen, stage.input.buffer.Shows seen
  native : stage.input.order = .native

variable {stage : Stage (Unpacker Source)}

theorem Ready.withTasks (ready : stage.Ready) (tasks : List Task) :
    ({ stage with tasks } : Stage (Unpacker Source)).Ready := ⟨ready.shows, ready.native⟩

theorem Ready.read (ready : stage.Ready) {item : Item} {input : Unpacker Source}
    (read : stage.input.next = (.ok item, input)) :
    ({ stage with input } : Stage (Unpacker Source)).Ready := by
  obtain ⟨⟨seen, shows⟩, native⟩ := ready
  have goesOn : stage.input.next.2.buffer.Shows seen :=
    Unpacker.shows_request shows (.call .next)
  have order := stage.input.order_next
  rw [read] at goesOn order
  exact ⟨⟨seen, goesOn⟩, order.trans native⟩

theorem ready_play (script : Script) (ready : stage.Ready) {next : Stage (Unpacker Source)}
    (leads : (script.play stage).outcome = .ok next) : next.Ready := by
  induction script generalizing stage with
  | stop fault => cases leads
  | done =>
    cases leads
    exact ready
  | push task script ih => exact ih (ready.withTasks _) leads
  | write text script ih => exact ih ready leads
  | read script ih =>
    cases answer : stage.input.next with
    | mk result input =>
      cases result with
      | error fault =>
        rw [Script.play_read_of_error (congrArg Prod.fst answer)] at leads
        cases leads
      | ok item =>
        rw [Script.play_read_of_ok answer] at leads
        exact ih _ _ (ready.read answer) leads

theorem Ready.effect {options : Options} (ready : stage.Ready) {next : Stage (Unpacker Source)}
    (leads : (stage.effect options).outcome = .ok next) : next.Ready := by
  unfold Stage.effect at leads
  split at leads
  · exact ready_play _ ready leads
  · exact ready_play _ (ready.withTasks _) leads

theorem Ready.extInteger (ready : stage.Ready) {payload : List UInt8} {input : Unpacker Source}
    (read : stage.input.next = (.ok (.ext recordType payload), input)) :
    input.extInteger = input.settle (ExtNumber.integer .native payload) := by
  obtain ⟨seen, shows⟩ := ready.shows
  have user : (0 : Int8) ≤ recordType := by decide
  have own : input.extInteger = _ := Unpacker.currentExt_of_item (Unpacker.clean_of_next read).2
    (Unpacker.item_of_next shows read) user ExtNumber.integer
  have native : input.order = .native := (ready.read read).native
  rw [own, native]

end Stage

/-! ### Steps -/

namespace Printer

variable {options : Options} {printer : Printer} {effect : Effect (Unpacker Source)}
  {output : Output}

def stage (printer : Printer) : Stage (Unpacker Source) := ⟨printer.input, printer.tasks⟩

/-- The answer is what the effect says, as far as the output takes the texts. -/
def Realizes (answer : Answer) (output : Output) (effect : Effect (Unpacker Source)) : Prop :=
  match output.perform (effect.texts.map .write), effect.outcome with
  | (.error text, after), _ => answer.1 = .error (.unwritable text) ∧ answer.2.output = after
  | (.ok _, after), .error fault => answer.1 = .error (.unreadable fault) ∧ answer.2.output = after
  | (.ok _, after), .ok stage => answer = (.ok (), ⟨stage.input, after, stage.tasks⟩)

theorem realizes_done (printer : Printer) :
    Realizes (.ok (), printer) printer.output (Script.done.play printer.stage) := rfl

theorem realizes_stop (fault : Fault) (printer : Printer) (stage : Stage (Unpacker Source)) :
    Realizes (.error (.unreadable fault), printer) printer.output
      ((Script.stop fault).play stage) := ⟨rfl, rfl⟩

theorem realizes_thenWrite {script : Script} {next : Printer → Answer} (text : List UInt8)
    (goesOn : ∀ output, Realizes (next { printer with output }) output
      (script.play printer.stage)) :
    Realizes (printer.thenWrite text next) printer.output
      ((Script.write text script).play printer.stage) := by
  unfold Realizes thenWrite write
  simp only [Script.play, List.map_cons, Output.perform, Output.answer]
  generalize printer.output.writeAll text = result
  obtain ⟨_ | _, output⟩ := result
  · exact ⟨rfl, rfl⟩
  · exact goesOn output

theorem write_eq_thenWrite (printer : Printer) (text : List UInt8) :
    printer.write text = printer.thenWrite text fun after => (.ok (), after) := by
  unfold thenWrite
  split <;> rename_i written <;> exact written

theorem realizes_write (printer : Printer) (text : List UInt8) :
    Realizes (printer.write text) printer.output
      ((Script.write text .done).play printer.stage) := by
  rw [write_eq_thenWrite]
  exact realizes_thenWrite text fun output => realizes_done { printer with output }

theorem realizes_next (ready : printer.stage.Ready) {script : Nat → Item → Script}
    {next : Printer → Answer}
    (goesOn : ∀ item input, printer.input.next = (.ok item, input) → input.item? = some item →
      Realizes (next { printer with input }) printer.output
        ((script input.offset item).play ⟨input, printer.tasks⟩)) :
    Realizes (printer.withInput printer.input.next fun _ => next) printer.output
      ((Script.read script).play printer.stage) := by
  obtain ⟨seen, shows⟩ := ready.shows
  cases answer : printer.input.next with
  | mk result input =>
    have read : printer.stage.input.next = (result, input) := answer
    cases result with
    | error fault =>
      rw [Script.play_read_of_error (congrArg Prod.fst read)]
      exact ⟨rfl, rfl⟩
    | ok item =>
      rw [Script.play_read_of_ok read]
      exact goesOn item input answer (Unpacker.item_of_next shows read)

theorem realizes_item (level : Nat) (item : Item) (printer : Printer) :
    Realizes (printer.printItem level item) printer.output
      ((Script.ofItem level printer.offset item).play printer.stage) := by
  cases item with
  | array size =>
    cases size with
    | zero => exact realizes_write ..
    | succ size => exact realizes_done (printer.push _)
  | map size =>
    cases size with
    | zero => exact realizes_write ..
    | succ size => exact realizes_write (printer.push _) _
  | _ => exact realizes_write ..

theorem realizes_current {item : Item} (held : printer.input.item? = some item) (level : Nat) :
    Realizes (printer.current level) printer.output
      ((Script.ofItem level printer.offset item).play printer.stage) := by
  rw [current, held]
  exact realizes_item level item printer

theorem realizes_name {item : Item} (held : printer.input.item? = some item) (size level : Nat) :
    Realizes (printer.printName size level) printer.output
      ((Script.ofName size level item).play printer.stage) := by
  rw [printName, held]
  cases item with
  | str name => exact realizes_write (printer.push _) _
  | _ => exact realizes_stop ..

theorem realizes_record {payload : List UInt8} (size level : Nat)
    (recalled : printer.input.extInteger =
      printer.input.settle (ExtNumber.integer .native payload)) :
    Realizes (printer.printRecord size level) printer.output
      ((Script.ofRecord size level payload).play printer.stage) := by
  unfold printRecord Script.ofRecord
  rw [recalled]
  cases ExtNumber.integer .native payload with
  | error fault => exact ⟨rfl, rfl⟩
  | ok label =>
    simp only [withInput, Unpacker.settle]
    split
    · exact realizes_write ..
    · refine realizes_thenWrite _ fun output => ?_
      split
      · exact realizes_done (({ printer with output } : Printer).push _)
      · split
        · exact realizes_done (({ printer with output } : Printer).push _)
        · exact realizes_stop ..

theorem realizes_array {item : Item} (held : printer.input.item? = some item)
    (size first level : Nat) :
    Realizes ((printer.push (.elements (size - 1) 1 level ']')).thenWrite
        (ascii ['['] ++ options.separate first (level + 1) 0) (current (level + 1)))
      printer.output
      ((Script.ofArray options size first level printer.offset item).play printer.stage) :=
  @realizes_thenWrite (printer.push _) _ _ _ fun output =>
    @realizes_current { printer.push _ with output } _ held (level + 1)

theorem realizes_first {item : Item} (held : printer.input.item? = some item)
    (size first level : Nat)
    (recalled : ∀ payload, item = .ext recordType payload → printer.input.extInteger =
      printer.input.settle (ExtNumber.integer .native payload)) :
    Realizes (printer.printFirst options size first level) printer.output
      ((Script.ofFirst options size first level printer.offset item).play printer.stage) := by
  rw [printFirst, held]
  cases item with
  | ext type payload =>
    simp only [Script.ofFirst]
    by_cases record : options.records ∧ type = recordType
    · rw [if_pos record, if_pos record]
      exact realizes_record size level (recalled payload (by rw [record.2]))
    · rw [if_neg record, if_neg record]
      exact realizes_array held ..
  | _ => exact realizes_array held ..

theorem realizes_task (ready : printer.stage.Ready) (task : Task) :
    Realizes (printer.perform options task) printer.output
      ((Script.ofTask options printer.offset task).play printer.stage) := by
  cases task with
  | item level =>
    exact realizes_next ready fun item input _ held =>
      @realizes_current { printer with input } _ held level
  | first size first level =>
    refine realizes_next ready fun item input read held => ?_
    refine @realizes_first _ { printer with input } _ held size first level ?_
    rintro payload rfl
    exact ready.extInteger read
  | name size level =>
    exact realizes_next ready fun item input _ held =>
      @realizes_name { printer with input } _ held size level
  | colon => exact realizes_write ..
  | elements left index level bracket =>
    cases left with
    | zero => exact realizes_write ..
    | succ left => exact realizes_write ((printer.push _).push _) _
  | entries left index level =>
    cases left with
    | zero => exact realizes_write ..
    | succ left => exact realizes_write ((((printer.push _).push _).push _).push _) _

theorem realizes_step (ready : printer.stage.Ready) :
    Realizes (printer.step options) printer.output (printer.stage.effect options) := by
  cases tasks : printer.tasks with
  | nil =>
    have line : printer.stage.effect options =
        (Script.ofLine options printer.offset).play printer.stage := by
      rw [Stage.effect, stage, tasks]
      rfl
    rw [line, step, tasks]
    exact realizes_thenWrite _ fun output => @realizes_next { printer with output } ready _ _
      fun item input _ held => @realizes_current { printer with input, output } _ held 0
  | cons task tasks' =>
    have taken : printer.stage.effect options =
        (Script.ofTask options printer.offset task).play ⟨printer.input, tasks'⟩ := by
      rw [Stage.effect, stage, tasks]
      rfl
    rw [taken, step, tasks]
    exact realizes_task (ready.withTasks tasks') task

theorem Realizes.of_accepts {answer : Answer} (realizes : Realizes answer output effect)
    (accepts : output.Accepts) :
    answer.2.output.Accepts ∧
      match effect.outcome with
      | .error fault => answer.1 = .error (.unreadable fault)
      | .ok stage => answer.1 = .ok () ∧ answer.2.stage = stage := by
  obtain ⟨passed, stays⟩ := accepts.perform (effect.texts.map .write)
  unfold Realizes at realizes
  generalize output.perform (effect.texts.map .write) = result at passed stays realizes
  obtain ⟨_, after⟩ := result
  dsimp only at passed stays
  subst passed
  cases outcome : effect.outcome with
  | error fault =>
    rw [outcome] at realizes
    exact ⟨realizes.2 ▸ stays, realizes.1⟩
  | ok stage =>
    rw [outcome] at realizes
    subst realizes
    exact ⟨stays, rfl, rfl⟩

end Printer

/-! ### Runs -/

namespace Printer

variable {options : Options} {printer : Printer}

/-- The printers that a run steps from, the last of which does not get on. -/
def passes (options : Options) (printer : Printer) : List Printer :=
  match _step : printer.step options with
  | (.error _, _) => [printer]
  | (.ok _, after) => printer :: after.passes options
termination_by (printer.supply, printer.weight)
decreasing_by
  rcases step_progress _step with fewer | ⟨same, lighter⟩
  · exact Prod.Lex.left _ _ fewer
  · rw [same]
    exact Prod.Lex.right _ lighter

theorem course_passes (accepts : printer.output.Accepts) (ready : printer.stage.Ready) :
    ∃ fault, Course options printer.stage ((passes options printer).map stage) fault := by
  fun_induction passes options printer with
  | case1 printer stop after stepped =>
    obtain ⟨_, outcome⟩ := (realizes_step ready).of_accepts accepts
    rw [stepped] at outcome
    cases effect : (printer.stage.effect options).outcome with
    | error fault => exact ⟨fault, .last effect⟩
    | ok next =>
      rw [effect] at outcome
      cases outcome.1
  | case2 printer _ after stepped ih =>
    obtain ⟨stays, outcome⟩ := (realizes_step ready).of_accepts accepts
    rw [stepped] at stays outcome
    cases effect : (printer.stage.effect options).outcome with
    | error fault =>
      rw [effect] at outcome
      cases outcome
    | ok next =>
      rw [effect] at outcome
      obtain ⟨_, rfl⟩ := outcome
      obtain ⟨fault, rest⟩ := ih stays (ready.effect effect)
      exact ⟨fault, .step effect rest⟩

/-- Whatever the output, a run makes the requests of its course, up to the first that fails. -/
theorem run_of_course {first : Stage (Unpacker Source)}
    {stages : List (Stage (Unpacker Source))} {fault : Fault}
    (course : Course options first stages fault) (starts : printer.stage = first)
    (ready : first.Ready) :
    ((run options printer).1, (run options printer).2.output) =
      match printer.output.perform ((texts options stages).map .write) with
      | (.error text, after) => (.unwritable text, after)
      | (.ok _, after) => (.unreadable fault, after) := by
  induction course generalizing printer with
  | last stops =>
    subst starts
    have realizes : Realizes (printer.step options) printer.output
        (printer.stage.effect options) := realizes_step ready
    unfold Realizes at realizes
    rw [stops] at realizes
    simp only [texts, List.flatMap_cons, List.flatMap_nil, List.append_nil]
    generalize printer.output.perform _ = result at realizes ⊢
    obtain ⟨_ | _, after⟩ := result
    all_goals
      obtain ⟨answer, rfl⟩ := realizes
      rw [run_of_stop (Prod.ext answer rfl)]
  | @step _ next stages fault leads rest ih =>
    subst starts
    have realizes : Realizes (printer.step options) printer.output
        (printer.stage.effect options) := realizes_step ready
    unfold Realizes at realizes
    rw [leads] at realizes
    simp only [texts, List.flatMap_cons, List.map_append]
    rw [Output.perform_append]
    generalize printer.output.perform _ = result at realizes ⊢
    -- Either the writing of this step fails and ends the run, or the step is taken in full.
    obtain ⟨_ | _, after⟩ := result
    · obtain ⟨answer, rfl⟩ := realizes
      rw [run_of_stop (Prod.ext answer rfl)]
    · rw [run_of_step realizes]
      exact @ih ⟨next.input, after, next.tasks⟩ rfl (ready.effect leads)

end Printer

def Stage.start (input : Input) : Stage (Unpacker Source) :=
  ⟨.ofInput input inputCapacity .native, []⟩

theorem Stage.ready_start (input : Input) : (start input).Ready :=
  ⟨Incoming.shows_ofCapacity (by decide : inputCapacity < Position.modulus), rfl⟩

def requests [Readable ι] (options : Options) (stages : List (Stage ι)) (fault : Fault) :
    List Output.Request :=
  (texts options stages).map .write ++ [.write (closing fault), .flush]

/-- A dump makes its requests, and answers the fault that ends its course if none of them fails. -/
theorem dump_of_course {options : Options} {input : Input}
    {stages : List (Stage (Unpacker Source))} {fault : Fault}
    (course : Course options (.start input) stages fault) (output : Output) :
    dump input output options =
      match output.perform (requests options stages fault) with
      | (.error text, after) => (.error text, after)
      | (.ok _, after) => (.ok fault, after) := by
  have ran := @Printer.run_of_course _ ⟨.ofInput input inputCapacity .native, output, []⟩ _ _ _
    course rfl (Stage.ready_start input)
  rw [dump, dumpFrom, requests, Output.perform_append]
  generalize Printer.run options _ = result at ran ⊢
  obtain ⟨stop, printer⟩ := result
  dsimp only at ran
  generalize output.perform ((texts options stages).map .write) = result at ran ⊢
  obtain ⟨_ | _, after⟩ := result
  · cases ran
    rfl
  · cases ran
    simp only [conclude, Output.perform, Output.answer]
    generalize printer.output.writeAll (closing fault) = result
    obtain ⟨_ | _, after⟩ := result
    · rfl
    · dsimp only
      generalize after.flush = result
      obtain ⟨_ | _, after⟩ := result <;> rfl

def passes (input : Input) (output : Output) (options : Options) : List Printer :=
  Printer.passes options ⟨.ofInput input inputCapacity .native, output, []⟩

/-- The positions at which the top-level lines of a dump start. -/
def lineStarts (input : Input) (output : Output) (options : Options) : List Nat :=
  starts ((passes input output options).map Printer.stage)

def recordNames (input : Input) (output : Output) (options : Options) : List (List UInt8) :=
  names ((passes input output options).map Printer.stage)

theorem bytes_requests [Readable ι] (options : Options) (stages : List (Stage ι)) (fault : Fault) :
    (requests options stages fault).flatMap Output.Request.bytes =
      (texts options stages).flatten ++ closing fault := by
  have written (texts : List (List UInt8)) :
      (texts.map Output.Request.write).flatMap Output.Request.bytes = texts.flatten := by
    induction texts with
    | nil => rfl
    | cons text texts ih => simp [Output.Request.bytes, ih]
  simp [requests, written, Output.Request.bytes]

theorem dump_of_accepts {options : Options} {input : Input} {output : Output}
    {stages : List (Stage (Unpacker Source))} {fault : Fault} (accepts : output.Accepts)
    (course : Course options (.start input) stages fault) :
    (dump input output options).1 = .ok fault ∧
      (dump input output options).2.received.toList =
        output.received.toList ++ ((texts options stages).flatten ++ closing fault) := by
  obtain ⟨passed, _⟩ := accepts.perform (requests options stages fault)
  have received := (output.takes_perform (requests options stages fault)).whole passed
  rw [bytes_requests] at received
  rw [dump_of_course course]
  generalize output.perform _ = result at passed received ⊢
  obtain ⟨_, after⟩ := result
  dsimp only at passed
  subst passed
  exact ⟨rfl, received⟩

theorem course_dump (input : Input) {output : Output} (accepts : output.Accepts)
    (options : Options) :
    ∃ fault,
      Course options (.start input) ((passes input output options).map Printer.stage) fault :=
  @Printer.course_passes _ ⟨.ofInput input inputCapacity .native, output, []⟩ accepts
    (Stage.ready_start input)

end Dump
end MessagePack
