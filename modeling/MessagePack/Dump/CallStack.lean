import MessagePack.Dump.Run

/-! Printing by calls on a stack. The call that prints an item waits for those that print what the
item holds, so calls are nested as deep as items are, and the stack has room for a number of
them. A dump that would go deeper crashes: it has no answer, and what became of its output is
not known. Short of that it does what a printer does that keeps a list of its tasks. -/
namespace MessagePack.Dump

/-- What brings the program down. -/
inductive Crash where
  | stackOverflow
  /-- The width of an indent is beyond the range of sizes. -/
  | indentOverflow
  deriving DecidableEq, Repr

structure Ends where
  input : Unpacker Source
  output : Output

/-- A call reads and writes, and may stop the printing. -/
abbrev Print := ExceptT Stop (StateT Ends (Except Crash))

namespace Print

def crash (crash : Crash) : Print α := fun _ => .error crash

def stop (fault : Fault) : Print α := throw (.unreadable fault)

def write (text : List UInt8) : Print Unit := fun ends =>
  match ends.output.writeAll text with
  | (.ok _, output) => .ok (.ok (), { ends with output })
  | (.error text, output) => .ok (.error (.unwritable text), { ends with output })

/-- Asks the input for something that can fail. -/
def read (request : Unpacker Source → Except Fault α × Unpacker Source) : Print α := fun ends =>
  match request ends.input with
  | (.ok value, input) => .ok (.ok value, { ends with input })
  | (.error fault, input) => .ok (.error (.unreadable fault), { ends with input })

def look (view : Unpacker Source → α) : Print α := fun ends => .ok (.ok (view ends.input), ends)

/-- Writes what may begin a line at a level. -/
def writeAt (options : Options) (level : Nat) (text : List UInt8) : Print Unit :=
  if level * options.indent < Position.modulus then write text else crash .indentOverflow

section

variable (options : Options) (current : Nat → Print Unit)

def next (level : Nat) : Print Unit := do
  let _ ← read Unpacker.next
  current level

/-- The rest of an array or record, `left` elements and a bracket. -/
def elements (level : Nat) (bracket : Char) : (left index : Nat) → Print Unit
  | 0, _ => do
    let offset ← look Unpacker.offset
    writeAt options level (options.close offset level bracket)
  | left + 1, index => do
    let offset ← look Unpacker.offset
    writeAt options (level + 1) (options.separate offset (level + 1) index)
    next current (level + 1)
    elements level bracket left (index + 1)

/-- The rest of a map, `left` entries and a bracket. -/
def entries (level : Nat) : (left index : Nat) → Print Unit
  | 0, _ => do
    let offset ← look Unpacker.offset
    writeAt options level (options.close offset level '\x7d')
  | left + 1, index => do
    let offset ← look Unpacker.offset
    writeAt options (level + 1) (options.separate offset (level + 1) index)
    next current (level + 1)
    write (ascii [':'])
    next current (level + 1)
    entries level left (index + 1)

/-- The name of a record, which has been read, and its fields. -/
def named (size level : Nat) : Print Unit := do
  match ← look Unpacker.item? with
  | some (.str name) =>
    write (name ++ ascii ['('])
    elements options current level ')' (size - 2) 0
  | _ => stop .malformedInput

/-- A record, the label of which has been read. -/
def record (size level : Nat) : Print Unit := do
  let label ← read Unpacker.extInteger
  if size = 1 then write (ascii ('-' :: '>' :: signedDecimal label))
  else
    write (if label = 0 then [] else ascii (signedDecimal label ++ ['-', '>']))
    if 0 ≤ label then
      let _ ← read Unpacker.next
      named options current size level
    else if size = 2 then next current level
    else stop .malformedInput

/-- An array that is none of a record, from its first element on, which has been read. -/
def plain (size first level : Nat) : Print Unit := do
  writeAt options (level + 1) (ascii ['['] ++ options.separate first (level + 1) 0)
  current (level + 1)
  elements options current level ']' (size - 1) 1

/-- An array whose first element has been read. -/
def opened (size first level : Nat) : Print Unit := do
  match ← look Unpacker.item? with
  | some (.ext type _) =>
    if options.records ∧ type = recordType then record options current size level
    else plain options current size first level
  | _ => plain options current size first level

def array (size level : Nat) : Print Unit := do
  if size = 0 then write (ascii ['[', ']'])
  else
    let first ← look Unpacker.offset
    let _ ← read Unpacker.next
    opened options current size first level

def map (size level : Nat) : Print Unit := do
  if size = 0 then write (ascii ['\x7b', '\x7d'])
  else
    write (ascii ['\x7b'])
    entries options current level size 0

end

/-- Prints the item that was read last, with room for `room` calls like this one. -/
def current (options : Options) : (room level : Nat) → Print Unit
  | 0, _ => crash .stackOverflow
  | room + 1, level => do
    match ← look Unpacker.item? with
    | some (.array size) => array options (current options room) size level
    | some (.map size) => map options (current options room) size level
    | some item => write (scalar item)
    | none => stop .illegalCall

def line (options : Options) (room : Nat) : Print Unit := do
  let offset ← look Unpacker.offset
  write (options.newLine offset 0)
  next (current options room) 0

/-! ### What calls leave of the input -/

/-- A call stops the printing or hands on to what follows, unless it crashes. -/
theorem bind_eq_ok {call : Print α} {goesOn : α → Print β} {ends : Ends}
    {result : Except Stop β × Ends} (made : (call >>= goesOn) ends = .ok result) :
    (∃ stop after, call ends = .ok (.error stop, after) ∧ result = (.error stop, after)) ∨
      ∃ value after, call ends = .ok (.ok value, after) ∧ goesOn value after = .ok result := by
  change Except.bind (call ends) (fun (answer, after) => ExceptT.bindCont goesOn answer after) =
    .ok result at made
  cases first : call ends with
  | error crash =>
    rw [first] at made
    cases made
  | ok result' =>
    rw [first] at made
    obtain ⟨stop | value, after⟩ := result'
    · cases made
      exact .inl ⟨stop, after, rfl, rfl⟩
    · exact .inr ⟨value, after, rfl, made⟩

/-- Behind a call that goes on the input has `count` bytes less at least. -/
def Reads (count : Nat) (call : Print α) : Prop :=
  ∀ ends value after, call ends = .ok (.ok value, after) →
    after.input.supply + count ≤ ends.input.supply

theorem reads_bind {call : Print α} {goesOn : α → Print β} (reads : Reads 0 call)
    (others : ∀ value, Reads count (goesOn value)) : Reads count (call >>= goesOn) := by
  intro ends value after made
  rcases bind_eq_ok made with ⟨_, _, _, same⟩ | ⟨value, between, made, rested⟩
  · cases same
  · exact Nat.le_trans (others value between _ after rested) (reads ends value between made)

theorem Reads.least {call : Print α} (reads : Reads count call) : Reads 0 call :=
  fun ends value after made =>
    Nat.le_trans (Nat.le_add_right _ _) (reads ends value after made)

theorem reads_crash (crash : Crash) : Reads 0 (Print.crash crash : Print α) := by
  intro ends value after made
  cases made

theorem reads_stop (fault : Fault) : Reads 0 (stop fault : Print α) := by
  intro ends value after made
  cases made

theorem reads_write (text : List UInt8) : Reads 0 (write text) := by
  intro ends value after made
  unfold write at made
  split at made <;> cases made
  exact Nat.le_refl _

theorem reads_look (view : Unpacker Source → α) : Reads 0 (look view) := by
  intro ends value after made
  cases made
  exact Nat.le_refl _

theorem reads_next : Reads 1 (read Unpacker.next) := by
  intro ends value after made
  unfold read at made
  split at made <;> cases made
  exact Unpacker.supply_next_lt ‹_›

theorem reads_extInteger : Reads 0 (read Unpacker.extInteger) := by
  intro ends value after made
  have same := Unpacker.supply_currentExt ExtNumber.integer ends.input
  unfold read Unpacker.extInteger at made
  split at made <;> rename_i recalled <;> cases made
  rw [recalled] at same
  exact Nat.le_of_eq same

theorem reads_writeAt (options : Options) (level : Nat) (text : List UInt8) :
    Reads 0 (writeAt options level text) := by
  unfold writeAt
  split
  · exact reads_write text
  · exact reads_crash _

section

variable {options : Options} {current : Nat → Print Unit}

theorem reads_item (reads : ∀ level, Reads 0 (current level)) (level : Nat) :
    Reads 1 (next current level) := by
  intro ends value after made
  rcases bind_eq_ok made with ⟨_, _, _, same⟩ | ⟨item, between, made, rested⟩
  · cases same
  · have fewer := reads_next ends item between made
    have rest := reads level between value after rested
    omega

theorem reads_elements (reads : ∀ level, Reads 0 (current level)) (level : Nat) (bracket : Char)
    (left index : Nat) : Reads 0 (elements options current level bracket left index) := by
  induction left generalizing index with
  | zero => exact reads_bind (reads_look _) fun _ => reads_writeAt _ _ _
  | succ left ih =>
    exact reads_bind (reads_look _) fun _ => reads_bind (reads_writeAt _ _ _) fun _ =>
      reads_bind (reads_item reads _).least fun _ => ih _

theorem reads_entries (reads : ∀ level, Reads 0 (current level)) (level left index : Nat) :
    Reads 0 (entries options current level left index) := by
  induction left generalizing index with
  | zero => exact reads_bind (reads_look _) fun _ => reads_writeAt _ _ _
  | succ left ih =>
    exact reads_bind (reads_look _) fun _ => reads_bind (reads_writeAt _ _ _) fun _ =>
      reads_bind (reads_item reads _).least fun _ => reads_bind (reads_write _) fun _ =>
        reads_bind (reads_item reads _).least fun _ => ih _

theorem reads_named (reads : ∀ level, Reads 0 (current level)) (size level : Nat) :
    Reads 0 (named options current size level) := by
  refine reads_bind (reads_look _) fun item => ?_
  split
  · exact reads_bind (reads_write _) fun _ => reads_elements reads _ _ _ _
  · exact reads_stop _

theorem reads_record (reads : ∀ level, Reads 0 (current level)) (size level : Nat) :
    Reads 0 (record options current size level) := by
  refine reads_bind reads_extInteger fun label => ?_
  split
  · exact reads_write _
  · refine reads_bind (reads_write _) fun _ => ?_
    split
    · exact reads_bind reads_next.least fun _ => reads_named reads _ _
    · split
      · exact (reads_item reads _).least
      · exact reads_stop _

theorem reads_plain (reads : ∀ level, Reads 0 (current level)) (size first level : Nat) :
    Reads 0 (plain options current size first level) :=
  reads_bind (reads_writeAt _ _ _) fun _ =>
    reads_bind (reads _) fun _ => reads_elements reads _ _ _ _

theorem reads_opened (reads : ∀ level, Reads 0 (current level)) (size first level : Nat) :
    Reads 0 (opened options current size first level) := by
  refine reads_bind (reads_look _) fun item => ?_
  split
  · split
    · exact reads_record reads _ _
    · exact reads_plain reads _ _ _
  · exact reads_plain reads _ _ _

theorem reads_array (reads : ∀ level, Reads 0 (current level)) (size level : Nat) :
    Reads 0 (array options current size level) := by
  unfold array
  split
  · exact reads_write _
  · exact reads_bind (reads_look _) fun _ => reads_bind reads_next.least fun _ =>
      reads_opened reads _ _ _

theorem reads_map (reads : ∀ level, Reads 0 (current level)) (size level : Nat) :
    Reads 0 (map options current size level) := by
  unfold map
  split
  · exact reads_write _
  · exact reads_bind (reads_write _) fun _ => reads_entries reads _ _ _

end

theorem reads_current (options : Options) (room level : Nat) :
    Reads 0 (current options room level) := by
  induction room generalizing level with
  | zero => exact reads_crash _
  | succ room ih =>
    refine reads_bind (reads_look _) fun item => ?_
    split
    · exact reads_array ih _ _
    · exact reads_map ih _ _
    · exact reads_write _
    · exact reads_stop _

theorem reads_line (options : Options) (room : Nat) : Reads 1 (line options room) :=
  reads_bind (reads_look _) fun _ => reads_bind (reads_write _) fun _ =>
    reads_item (reads_current options room) 0

def lines (options : Options) (room : Nat) (ends : Ends) : Except Crash (Stop × Ends) :=
  match _made : line options room ends with
  | .error crash => .error crash
  | .ok (.error stop, after) => .ok (stop, after)
  | .ok (.ok _, after) => lines options room after
termination_by ends.input.supply
decreasing_by exact reads_line options room _ _ _ _made

end Print

/-- The number of nested calls that the program's stack has room for. -/
def stackRoom : Nat := 0x4000

/-- Dumps on a stack with room for so many calls. -/
def dumpOn (room : Nat) (input : Input) (output : Output) (options : Options) :
    Except Crash (Except String Fault × Output) :=
  (Print.lines options room ⟨.ofInput input inputCapacity .native, output⟩).map
    fun (stop, ends) => conclude stop ends.output

end MessagePack.Dump
