import MessagePack.Proofs.ItemExtents
import MessagePack.Proofs.DumpAlike

/-! The items that a dump reads. Every task owes a number of items, and a step that reads one pays
it off and takes on those that are nested in it. So a dump comes to a new line where an item
begins that no other holds, and it does so in step with the plain reading of one item after
another; taking an array for a record neither adds to the debt nor remits any of it. -/
namespace MessagePack

namespace Unpacker

variable [Inlet σ]

/-- The fault that ends the reading of one item after another. -/
def exhaust (unpacker : Unpacker σ) : Fault :=
  match _read : unpacker.next with
  | (.error fault, _) => fault
  | (.ok _, after) => after.exhaust
termination_by unpacker.supply
decreasing_by exact supply_next_lt _read

/-- The offsets of the items that no other holds, where `owed` items are first to come that are
nested in those read before. -/
def outermost (owed : Nat) (unpacker : Unpacker σ) : List Nat :=
  (if owed = 0 then [unpacker.offset] else []) ++
    match _read : unpacker.next with
    | (.error _, _) => []
    | (.ok item, after) => outermost (owed - 1 + item.nested) after
termination_by unpacker.supply
decreasing_by exact supply_next_lt _read

variable {unpacker after : Unpacker σ}

theorem exhaust_of_error {fault : Fault} (failed : unpacker.next.1 = .error fault) :
    unpacker.exhaust = fault := by
  rw [exhaust]
  split <;> rename_i read <;> rw [read] at failed <;> cases failed
  rfl

theorem exhaust_of_ok {item : Item} (read : unpacker.next = (.ok item, after)) :
    unpacker.exhaust = after.exhaust := by
  rw [exhaust]
  split <;> rename_i other <;> cases read.symm.trans other
  rfl

theorem outermost_of_error {fault : Fault} (failed : unpacker.next.1 = .error fault) (owed : Nat) :
    unpacker.outermost owed = if owed = 0 then [unpacker.offset] else [] := by
  rw [outermost]
  refine (congrArg _ ?_).trans (List.append_nil _)
  split
  · rfl
  · rename_i read
    rw [read] at failed
    cases failed

theorem outermost_of_ok {item : Item} (read : unpacker.next = (.ok item, after)) (owed : Nat) :
    unpacker.outermost owed =
      (if owed = 0 then [unpacker.offset] else []) ++ after.outermost (owed - 1 + item.nested) := by
  rw [outermost]
  congr 1
  split <;> rename_i other <;> cases read.symm.trans other
  rfl

end Unpacker

namespace Dump

/-- The items that a task has still to read, not counting those nested in them. -/
def Task.owed : Task → Nat
  | .item _ => 1
  | .first size _ _ => size
  | .name size _ => size - 1
  | .elements left _ _ _ => left
  | .entries left _ _ => 2 * left
  | .colon => 0

def Task.reads : Task → Bool
  | .item _ | .first _ _ _ | .name _ _ => true
  | _ => false

/-- A task reads an item only if it owes one, and the name of a record only in record mode. -/
def Task.Proper (options : Options) : Task → Prop
  | .first size _ _ => 0 < size
  | .name size _ => 2 ≤ size ∧ options.records = true
  | _ => True

def owed : List Task → Nat
  | [] => 0
  | task :: tasks => task.owed + owed tasks

namespace Stage

def Proper (options : Options) (stage : Stage (Unpacker Source)) : Prop :=
  ∀ task ∈ stage.tasks, task.Proper options

/-- Whether the next step reads an item, as it does to begin a new line. -/
def reads (stage : Stage (Unpacker Source)) : Bool :=
  match stage.tasks with
  | [] => true
  | task :: _ => task.reads

/-- The next step comes to an array that is no proper record though it begins as one. Its label
is not an integer, or it is negative and labels not one value alone, or its name is not a text. -/
def Misshapen (stage : Stage (Unpacker Source)) (fault : Fault) : Prop :=
  match stage.tasks with
  | .first size _ _ :: _ =>
    ∃ payload, stage.input.next.1 = .ok (.ext recordType payload) ∧
      ((∃ refused, ExtNumber.integer .native payload = .error refused) ∧ fault = .valueError ∨
        (∃ label, ExtNumber.integer .native payload = .ok label ∧ label < 0) ∧
          size ≠ 1 ∧ size ≠ 2 ∧ fault = .malformedInput)
  | .name _ _ :: _ =>
    ∃ item, stage.input.next.1 = .ok item ∧ (∀ name, item ≠ .str name) ∧ fault = .malformedInput
  | _ => False

theorem Misshapen.fault {stage : Stage (Unpacker Source)} {fault : Fault}
    (misshapen : stage.Misshapen fault) : fault = .malformedInput ∨ fault = .valueError := by
  unfold Misshapen at misshapen
  split at misshapen
  · obtain ⟨_, _, ⟨_, rfl⟩ | ⟨_, _, _, rfl⟩⟩ := misshapen
    · exact .inr rfl
    · exact .inl rfl
  · obtain ⟨_, _, _, rfl⟩ := misshapen
    exact .inl rfl
  · cases misshapen

theorem Proper.push {options : Options} {stage : Stage (Unpacker Source)}
    (proper : stage.Proper options) (task : Task) (own : task.Proper options) :
    (stage.push task).Proper options :=
  List.forall_mem_cons.mpr ⟨own, proper⟩

end Stage

theorem ExtNumber.eq_valueError {order : ByteOrder} {payload : List UInt8} {fault : Fault}
    (refused : ExtNumber.integer order payload = .error fault) : fault = .valueError := by
  rw [ExtNumber.integer_eq] at refused
  split at refused <;> cases refused
  rfl

/-! ### Scripts -/

namespace Script

variable {stage : Stage (Unpacker Source)} {options : Options} {script : Script}
  {item : Item} {size level offset first count : Nat}

/-- The script reads nothing, and leaves `count` items more to read. -/
def Leaves (options : Options) (script : Script) (stage : Stage (Unpacker Source))
    (count : Nat) : Prop :=
  ∃ tasks, (script.play stage).outcome = .ok ⟨stage.input, tasks⟩ ∧
    owed tasks = owed stage.tasks + count ∧ Stage.Proper options ⟨stage.input, tasks⟩

theorem leaves_done (proper : stage.Proper options) : Script.done.Leaves options stage 0 :=
  ⟨stage.tasks, rfl, rfl, proper⟩

theorem Leaves.write (leaves : script.Leaves options stage count) (text : List UInt8) :
    (Script.write text script).Leaves options stage count := leaves

theorem Leaves.push {task : Task} (leaves : script.Leaves options (stage.push task) count) :
    (Script.push task script).Leaves options stage (task.owed + count) := by
  obtain ⟨tasks, outcome, sum, proper⟩ := leaves
  refine ⟨tasks, outcome, ?_, proper⟩
  rw [sum, Stage.push, owed]
  omega

theorem leaves_item (proper : stage.Proper options) :
    (ofItem level offset item).Leaves options stage item.nested := by
  cases item with
  | array size =>
    cases size with
    | zero => exact (leaves_done proper).write _
    | succ size => exact (leaves_done (proper.push (.first ..) (Nat.succ_pos size))).push
  | map size =>
    cases size with
    | zero => exact (leaves_done proper).write _
    | succ size => exact ((leaves_done (proper.push (.entries ..) trivial)).write _).push
  | _ => exact (leaves_done proper).write _

theorem leaves_array (proper : stage.Proper options) :
    (ofArray options size first level offset item).Leaves options stage (size - 1 + item.nested) :=
  Leaves.push ((leaves_item (proper.push (.elements ..) trivial)).write _)

/-- What is not a proper record stops the script. -/
theorem leaves_record (proper : stage.Proper options) (records : options.records = true)
    (some : 0 < size) (payload : List UInt8) :
    (ofRecord size level payload).Leaves options stage (size - 1) ∨
      ∃ fault, ((ofRecord size level payload).play stage).outcome = .error fault ∧
        ((∃ refused, ExtNumber.integer .native payload = .error refused) ∧ fault = .valueError ∨
          (∃ label, ExtNumber.integer .native payload = .ok label ∧ label < 0) ∧
            size ≠ 1 ∧ size ≠ 2 ∧ fault = .malformedInput) := by
  unfold ofRecord
  cases number : ExtNumber.integer .native payload with
  | error fault => exact .inr ⟨fault, rfl, .inl ⟨⟨fault, rfl⟩, ExtNumber.eq_valueError number⟩⟩
  | ok label =>
    dsimp only
    by_cases alone : size = 1
    · subst alone
      rw [if_pos rfl]
      exact .inl ((leaves_done proper).write _)
    rw [if_neg alone]
    by_cases named : 0 ≤ label
    · rw [if_pos named]
      have more : 2 ≤ size := by omega
      exact .inl ((leaves_done (proper.push (.name size level) ⟨more, records⟩)).push.write _)
    rw [if_neg named]
    by_cases single : size = 2
    · subst single
      rw [if_pos rfl]
      exact .inl ((leaves_done (proper.push (.item level) trivial)).push.write _)
    · rw [if_neg single]
      exact .inr ⟨_, rfl, .inr ⟨⟨label, rfl, by omega⟩, alone, single, rfl⟩⟩

theorem leaves_name (proper : stage.Proper options) (size level : Nat) (item : Item) :
    (∃ name, item = .str name) ∧ (ofName size level item).Leaves options stage (size - 2) ∨
      ((ofName size level item).play stage).outcome = .error .malformedInput ∧
        ∀ name, item ≠ .str name := by
  cases item with
  | str name =>
    exact .inl ⟨⟨name, rfl⟩, ((leaves_done (proper.push (.elements ..) trivial)).write _).push⟩
  | _ => exact .inr ⟨rfl, fun _ => nofun⟩

end Script

/-! ### Steps -/

/-- What one step comes to. -/
inductive Stage.Turn (options : Options) (stage : Stage (Unpacker Source)) : Prop where
  /-- It reads nothing, and owes what it owed. -/
  | goesOn {tasks : List Task} (idle : stage.reads = false)
    (outcome : (stage.effect options).outcome = .ok ⟨stage.input, tasks⟩)
    (sum : Dump.owed tasks = Dump.owed stage.tasks)
    (proper : Proper options ⟨stage.input, tasks⟩)
  /-- It pays an item off, and takes on those that this one holds. -/
  | pays {item : Item} {input : Unpacker Source} {tasks : List Task} (reads : stage.reads = true)
    (read : stage.input.next = (.ok item, input))
    (outcome : (stage.effect options).outcome = .ok ⟨input, tasks⟩)
    (sum : Dump.owed tasks = Dump.owed stage.tasks - 1 + item.nested)
    (proper : Proper options ⟨input, tasks⟩)
  /-- The item cannot be read. -/
  | fails {fault : Fault} (reads : stage.reads = true) (failed : stage.input.next.1 = .error fault)
    (outcome : (stage.effect options).outcome = .error fault)
  | balks {item : Item} {fault : Fault} (reads : stage.reads = true)
    (read : stage.input.next.1 = .ok item) (records : options.records = true)
    (misshapen : stage.Misshapen fault) (outcome : (stage.effect options).outcome = .error fault)

namespace Stage

variable {options : Options} {stage : Stage (Unpacker Source)}

theorem turn_of_read {tasks : List Task} {script : Nat → Item → Script}
    (reads : stage.reads = true)
    (same : (stage.effect options).outcome =
      ((Script.read script).play { stage with tasks }).outcome)
    (goesOn : ∀ item input, stage.input.next = (.ok item, input) →
      (∃ count, (script input.offset item).Leaves options ⟨input, tasks⟩ count ∧
        Dump.owed tasks + count = Dump.owed stage.tasks - 1 + item.nested) ∨
      ∃ fault, ((script input.offset item).play ⟨input, tasks⟩).outcome = .error fault ∧
        options.records = true ∧ stage.Misshapen fault) : stage.Turn options := by
  cases answer : stage.input.next with
  | mk result input =>
    cases result with
    | error fault =>
      have failed : stage.input.next.1 = .error fault := congrArg Prod.fst answer
      rw [@Script.play_read_of_error _ _ { stage with tasks } _ failed] at same
      exact .fails reads failed same
    | ok item =>
      rw [@Script.play_read_of_ok _ _ { stage with tasks } _ _ answer] at same
      rcases goesOn item input answer with ⟨count, ⟨left, leads, sum, proper⟩, debt⟩ |
        ⟨fault, stops, records, misshapen⟩
      · exact .pays reads answer (same.trans leads) (sum.trans debt) proper
      · exact .balks reads (congrArg Prod.fst answer) records misshapen (same.trans stops)

theorem turn_of_leaves {task : Task} {tasks : List Task} {script : Script} {count : Nat}
    (taken : stage.tasks = task :: tasks) (idle : task.reads = false)
    (same : (stage.effect options).outcome = (script.play { stage with tasks }).outcome)
    (leaves : script.Leaves options { stage with tasks } count) (owes : task.owed = count) :
    stage.Turn options := by
  obtain ⟨left, leads, sum, proper⟩ := leaves
  refine .goesOn ?_ (same.trans leads) ?_ proper
  · rw [reads, taken]
    exact idle
  · rw [sum, taken, Dump.owed, owes, Nat.add_comm]

theorem turn (proper : stage.Proper options) : stage.Turn options := by
  obtain ⟨input, tasks⟩ := stage
  cases tasks with
  | nil =>
    refine @turn_of_read options ⟨input, []⟩ [] (Script.ofItem 0) rfl rfl fun item after _ =>
      .inl ⟨item.nested, Script.leaves_item fun task member => ?_, rfl⟩
    cases member
  | cons task tasks =>
    have others (input : Unpacker Source) : Proper options ⟨input, tasks⟩ := fun other member =>
      proper other (List.mem_cons_of_mem _ member)
    have own : task.Proper options := proper task List.mem_cons_self
    cases task with
    | item level =>
      refine turn_of_read rfl rfl fun item after _ =>
        .inl ⟨item.nested, Script.leaves_item (others after), ?_⟩
      simp only [Dump.owed, Task.owed]
      omega
    | first size first level =>
      have some : 0 < size := own
      refine turn_of_read rfl rfl fun item after read => ?_
      -- What is no record goes on with its first element, of whatever kind that is.
      have array : ∃ count, (Script.ofArray options size first level after.offset item).Leaves
          options ⟨after, tasks⟩ count ∧
            Dump.owed tasks + count =
              Dump.owed (.first size first level :: tasks) - 1 + item.nested := by
        refine ⟨_, Script.leaves_array (others after), ?_⟩
        simp only [Dump.owed, Task.owed]
        omega
      cases item with
      | ext type payload =>
        simp only [Script.ofFirst]
        by_cases record : options.records ∧ type = recordType
        · rw [if_pos record]
          obtain ⟨records, rfl⟩ := record
          rcases Script.leaves_record (others after) records some payload with leaves |
            ⟨fault, stops, why⟩
          · refine .inl ⟨_, leaves, ?_⟩
            simp only [Dump.owed, Task.owed, Item.nested]
            omega
          · exact .inr ⟨fault, stops, records, payload, congrArg Prod.fst read, why⟩
        · rw [if_neg record]
          exact .inl array
      | _ => exact .inl array
    | name size level =>
      obtain ⟨more, records⟩ := own
      refine turn_of_read rfl rfl fun item after read => ?_
      rcases Script.leaves_name (others after) size level item with
        ⟨⟨name, rfl⟩, leaves⟩ | ⟨stops, unnamed⟩
      · refine .inl ⟨_, leaves, ?_⟩
        simp only [Dump.owed, Task.owed, Item.nested]
        omega
      · exact .inr ⟨_, stops, records, item, congrArg Prod.fst read, unnamed, rfl⟩
    | colon => exact turn_of_leaves rfl rfl rfl ((Script.leaves_done (others _)).write _) rfl
    | elements left index level bracket =>
      cases left with
      | zero => exact turn_of_leaves rfl rfl rfl ((Script.leaves_done (others _)).write _) rfl
      | succ left =>
        have pushed := ((others input).push (.elements left (index + 1) level bracket) trivial).push
          (.item (level + 1)) trivial
        exact turn_of_leaves rfl rfl rfl ((Script.leaves_done pushed).write _).push.push rfl
    | entries left index level =>
      cases left with
      | zero => exact turn_of_leaves rfl rfl rfl ((Script.leaves_done (others _)).write _) rfl
      | succ left =>
        have pushed := ((((others input).push (.entries left (index + 1) level) trivial).push
          (.item (level + 1)) trivial).push .colon trivial).push (.item (level + 1)) trivial
        refine turn_of_leaves rfl rfl rfl
          ((Script.leaves_done pushed).write _).push.push.push.push ?_
        simp only [Task.owed]
        omega

/-- How a step gets on. It reads nothing and owes what it owed, or it pays an item off. -/
theorem Proper.advances {next : Stage (Unpacker Source)} (proper : stage.Proper options)
    (leads : (stage.effect options).outcome = .ok next) :
    next.Proper options ∧
      (stage.reads = false ∧ next.input = stage.input ∧
          Dump.owed next.tasks = Dump.owed stage.tasks ∨
        stage.reads = true ∧ ∃ item, stage.input.next = (.ok item, next.input) ∧
          Dump.owed next.tasks = Dump.owed stage.tasks - 1 + item.nested) := by
  cases stage.turn proper with
  | goesOn idle outcome sum stays =>
    cases leads.symm.trans outcome
    exact ⟨stays, .inl ⟨idle, rfl, sum⟩⟩
  | pays reads read outcome sum stays =>
    cases leads.symm.trans outcome
    exact ⟨stays, .inr ⟨reads, _, read, sum⟩⟩
  | fails _ _ outcome => cases leads.symm.trans outcome
  | balks _ _ _ _ outcome => cases leads.symm.trans outcome

/-- How a step stops. The item cannot be read, or it makes no proper record. -/
theorem Proper.halts {fault : Fault} (proper : stage.Proper options)
    (stops : (stage.effect options).outcome = .error fault) :
    stage.reads = true ∧
      (stage.input.next.1 = .error fault ∨
        ∃ item, stage.input.next.1 = .ok item ∧ options.records = true ∧
          stage.Misshapen fault) := by
  cases stage.turn proper with
  | goesOn _ outcome => cases stops.symm.trans outcome
  | pays _ _ outcome => cases stops.symm.trans outcome
  | fails reads failed outcome =>
    cases stops.symm.trans outcome
    exact ⟨reads, .inl failed⟩
  | balks reads read records misshapen outcome =>
    cases stops.symm.trans outcome
    exact ⟨reads, .inr ⟨_, read, records, misshapen⟩⟩

end Stage

/-! ### Runs -/

section

variable {options : Options} {stage : Stage (Unpacker Source)}
  {stages : List (Stage (Unpacker Source))} {fault : Fault}

theorem starts_of_reads (proper : stage.Proper options) (reads : stage.reads = true)
    (stages : List (Stage (Unpacker Source))) :
    starts (stage :: stages) =
      (if owed stage.tasks = 0 then [stage.offset] else []) ++ starts stages := by
  obtain ⟨input, tasks⟩ := stage
  cases tasks with
  | nil => rfl
  | cons task tasks =>
    have own : task.Proper options := proper task List.mem_cons_self
    have owes : owed (task :: tasks) ≠ 0 := by
      rw [owed]
      cases task with
      | item => exact Nat.ne_of_gt (Nat.lt_add_right _ Nat.one_pos)
      | first => exact Nat.ne_of_gt (Nat.lt_add_right _ own)
      | name => exact Nat.ne_of_gt (Nat.lt_add_right _ (Nat.sub_pos_of_lt own.1))
      | _ => cases reads
    rw [if_neg owes]
    rfl

theorem starts_of_idle (idle : stage.reads = false) (stages : List (Stage (Unpacker Source))) :
    starts (stage :: stages) = starts stages := by
  obtain ⟨input, tasks⟩ := stage
  cases tasks with
  | nil => cases idle
  | cons task tasks => rfl

/-- A course begins a line at every item that no other holds, and ends as reading one item after
another does, or before that, at what is no proper record. -/
theorem Course.starts_eq (course : Course options stage stages fault)
    (proper : stage.Proper options) :
    starts stages = stage.input.outermost (owed stage.tasks) ∧ fault = stage.input.exhaust ∨
      starts stages <+: stage.input.outermost (owed stage.tasks) ∧ options.records = true ∧
        ∃ last ∈ stages.getLast?, last.Misshapen fault := by
  induction course with
  | @last stage fault stops =>
    obtain ⟨reads, failed | ⟨item, read, records, misshapen⟩⟩ := proper.halts stops
    · refine .inl ⟨?_, (Unpacker.exhaust_of_error failed).symm⟩
      rw [starts_of_reads proper reads, Unpacker.outermost_of_error failed]
      exact List.append_nil _
    · refine .inr ⟨?_, records, stage, rfl, misshapen⟩
      rw [starts_of_reads proper reads, Unpacker.outermost_of_ok (Prod.ext read rfl)]
      exact (List.prefix_append_right_inj _).mpr List.nil_prefix
  | @step stage next stages fault leads rest ih =>
    -- The last stage is the same, whatever stands in front of the rest.
    have last {property : Stage (Unpacker Source) → Prop}
        (there : ∃ last ∈ stages.getLast?, property last) :
        ∃ last ∈ (stage :: stages).getLast?, property last := by
      obtain ⟨last, member, holds⟩ := there
      refine ⟨last, ?_, holds⟩
      rw [List.getLast?_cons, Option.mem_def.mp member]
      rfl
    obtain ⟨stays, ⟨idle, same, sum⟩ | ⟨reads, item, read, sum⟩⟩ := proper.advances leads
    · have followed := ih stays
      rw [sum, same] at followed
      rw [starts_of_idle idle]
      exact followed.imp id fun ⟨ahead, records, there⟩ => ⟨ahead, records, last there⟩
    · have followed := ih stays
      rw [sum] at followed
      rw [starts_of_reads proper reads, Unpacker.outermost_of_ok read, Unpacker.exhaust_of_ok read]
      exact followed.imp (fun ⟨same, ending⟩ => ⟨congrArg _ same, ending⟩)
        fun ⟨ahead, records, there⟩ =>
          ⟨(List.prefix_append_right_inj _).mpr ahead, records, last there⟩

theorem Course.countP_reads_le (course : Course options stage stages fault)
    (proper : stage.Proper options) : stages.countP Stage.reads ≤ stage.input.supply + 1 := by
  induction course with
  | last _ => exact Nat.le_trans List.countP_le_length (Nat.le_add_left _ _)
  | step leads _ ih =>
    obtain ⟨stays, ⟨idle, same, _⟩ | ⟨reads, _, read, _⟩⟩ := proper.advances leads
    · rw [List.countP_cons_of_neg (by rw [idle]; exact Bool.false_ne_true), ← same]
      exact ih stays
    · have fewer := Unpacker.supply_next_lt read
      have others := ih stays
      rw [List.countP_cons_of_pos reads]
      omega

end

/-- The text of a dump, behind what its output had before, is that of lines which begin with these
positions one after another, and of what closes it. -/
def Lays (input : Input) (output : Output) (options : Options) (starts : List Nat) : Prop :=
  ∃ (fault : Fault) (lines : List (Nat × List UInt8)),
    (dump input output options).1 = .ok fault ∧
    (dump input output options).2.received.toList = output.received.toList ++
      ((lines.flatMap fun line => options.newLine line.1 0 ++ line.2) ++ closing fault) ∧
    lines.map Prod.fst = starts

theorem lays_lineStarts (input : Input) {output : Output} (accepts : output.Accepts)
    (options : Options) : Lays input output options (lineStarts input output options) := by
  obtain ⟨fault, course⟩ := course_dump input accepts options
  obtain ⟨code, received⟩ := dump_of_accepts accepts course
  obtain ⟨front, lines, text, begun, first⟩ :=
    texts_eq_lines options ((passes input output options).map Printer.stage)
  obtain rfl : front = [] := first _ course.head rfl
  rw [List.nil_append] at text
  exact ⟨fault, lines, code, by rw [received, text], begun⟩

/-- Recognising records keeps in step. Whatever is taken for a record, the lines that the text
consists of start where the items start that no other holds, and reading ends as it does without;
or the dump stops at an array that begins as a record and is none, and the lines are the same so
far. -/
theorem records_in_step (input : Input) {plain records : Output} (accepts : plain.Accepts)
    (also : records.Accepts) (indent : Nat) :
    let reader : Unpacker Source := .ofInput input inputCapacity .native
    lineStarts input plain ⟨indent, false⟩ = reader.outermost 0 ∧
      (dump input plain ⟨indent, false⟩).1 = .ok reader.exhaust ∧
      Lays input plain ⟨indent, false⟩ (lineStarts input plain ⟨indent, false⟩) ∧
      Lays input records ⟨indent, true⟩ (lineStarts input records ⟨indent, true⟩) ∧
      (lineStarts input records ⟨indent, true⟩ = lineStarts input plain ⟨indent, false⟩ ∧
          (dump input records ⟨indent, true⟩).1 = (dump input plain ⟨indent, false⟩).1 ∨
        lineStarts input records ⟨indent, true⟩ <+: lineStarts input plain ⟨indent, false⟩ ∧
          ∃ fault, (dump input records ⟨indent, true⟩).1 = .ok fault ∧
            (fault = .malformedInput ∨ fault = .valueError) ∧
            ∃ last ∈ (passes input records ⟨indent, true⟩).getLast?,
              last.stage.Misshapen fault) := by
  intro reader
  have proper (options : Options) : (Stage.start input).Proper options := nofun
  obtain ⟨closing, course⟩ := course_dump input accepts ⟨indent, false⟩
  obtain ⟨fault, other⟩ := course_dump input also ⟨indent, true⟩
  have ended := (dump_of_accepts accepts course).1
  have stopped := (dump_of_accepts also other).1
  obtain ⟨same, rfl⟩ : lineStarts input plain ⟨indent, false⟩ = reader.outermost 0 ∧
      closing = reader.exhaust :=
    (course.starts_eq (proper _)).resolve_right fun ⟨_, records, _⟩ => by cases records
  refine ⟨same, ended, lays_lineStarts input accepts _, lays_lineStarts input also _, ?_⟩
  rw [same, ended, stopped]
  rcases other.starts_eq (proper _) with ⟨starts, rfl⟩ | ⟨ahead, _, last, member, misshapen⟩
  · exact .inl ⟨starts, rfl⟩
  · refine .inr ⟨ahead, fault, rfl, misshapen.fault, ?_⟩
    rw [List.getLast?_map] at member
    obtain ⟨printer, final, rfl⟩ := Option.mem_map.mp member
    exact ⟨printer, final, misshapen⟩

/-- A record without a name, behind a number, that arrives byte by byte and goes out so. -/
theorem records_in_step_nameless :
    let input := Input.ofBytes [0x05, 0x92, 0xd4, 0x7f, 0x01, 0xc0] (.paced (fun _ => 1) true none)
    let output := Output.ofPlan ⟨fun _ _ _ => .accept 1, fun _ => none⟩
    output.Accepts ∧ lineStarts input output ⟨2, false⟩ = [0, 1, 6] ∧
      (dump input output ⟨2, false⟩).1 = .ok .endOfInput ∧
      lineStarts input output ⟨2, true⟩ = [0, 1] ∧
      (dump input output ⟨2, true⟩).1 = .ok .malformedInput ∧
      ∃ last ∈ (passes input output ⟨2, true⟩).getLast?, last.stage.Misshapen .malformedInput := by
  intro input output
  have accepts : output.Accepts := ⟨fun _ _ _ _ => ⟨1, Nat.one_pos, rfl⟩, fun _ => rfl⟩
  have delivers : input.Delivers .endOfInput :=
    Input.delivers_paced _ (fun _ => Nat.one_pos) true
  have plain : printout? ⟨2, false⟩ input.pending .endOfInput 7 = some ⟨.endOfInput,
      asciiString ("\n     0  5\n     1  [\n     2    (127,<01>)\n     5    nil\n     6  ]" ++
        "\n     6  \n"), [0, 1, 6], []⟩ := by cbv
  have nameless : printout? ⟨2, true⟩ input.pending .endOfInput 4 = some ⟨.malformedInput,
      asciiString "\n     0  5\n     1  1->\n\nERROR RC = -4\n", [0, 1], []⟩ := by cbv
  obtain ⟨ended, _, starts, _⟩ := dump_of_printout plain delivers accepts
  obtain ⟨stopped, _, others, _⟩ := dump_of_printout nameless delivers accepts
  refine ⟨accepts, starts, ended, others, stopped, ?_⟩
  rcases (records_in_step input accepts accepts 2).2.2.2.2 with ⟨_, same⟩ |
    ⟨_, fault, code, _, misshapen⟩
  · cases stopped.symm.trans (same.trans ended)
  · cases stopped.symm.trans code
    exact misshapen

end Dump
end MessagePack
