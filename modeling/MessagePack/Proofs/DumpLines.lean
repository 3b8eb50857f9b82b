import MessagePack.Proofs.RecordAccounting

/-! The lines of a dump. Numbers, dates and payloads are printed in plain characters, and texts in
quotes that leave no control character as it is. So without an indent a line goes on until the
dump begins the next one, unless the name of a record breaks it, which is printed as it came. -/
namespace MessagePack

def Printable (c : Char) : Prop := 0x20 ≤ c.toNat ∧ c.toNat < 0x7f

instance : DecidablePred Printable := fun _ => inferInstanceAs (Decidable (_ ∧ _))

def Printed (text : List Char) : Prop := ∀ c ∈ text, Printable c

instance : DecidablePred Printed := List.decidableBAll Printable

theorem printed_nil : Printed [] := nofun

theorem Printed.cons {c : Char} {text : List Char} (first : Printable c) (rest : Printed text) :
    Printed (c :: text) := List.forall_mem_cons.mpr ⟨first, rest⟩

theorem Printed.append {front back : List Char} (first : Printed front) (second : Printed back) :
    Printed (front ++ back) := List.forall_mem_append.mpr ⟨first, second⟩

theorem printable_digitChar (digit : Nat) : Printable (Nat.digitChar digit) := by
  rcases Nat.lt_or_ge digit 16 with small | large
  · exact (by decide : ∀ digit < 16, Printable (Nat.digitChar digit)) digit small
  · unfold Nat.digitChar
    repeat rw [if_neg (by omega)]
    decide

theorem printed_toDigits {base : Nat} (positional : 1 < base) (value : Nat) :
    Printed (Nat.toDigits base value) := by
  induction value using Nat.strongRecOn with
  | ind value ih =>
    have last (digit : Nat) : Printed [Nat.digitChar digit] :=
      printed_nil.cons (printable_digitChar digit)
    rw [Nat.toDigits_eq_if positional]
    split
    · exact last _
    · exact (ih _ (Nat.div_lt_self (by omega) positional)).append (last _)

theorem printed_decimal (value : Nat) : Printed (decimal value) :=
  printed_toDigits (by decide) value

theorem printed_signedDecimal (value : Int) : Printed (signedDecimal value) := by
  unfold signedDecimal
  split
  · exact (printed_decimal _).cons (by decide)
  · exact printed_decimal _

theorem printed_replicate {filler : Char} (plain : Printable filler) (count : Nat) :
    Printed (.replicate count filler) := fun c member => by
  rw [List.eq_of_mem_replicate member]
  exact plain

theorem Printed.padLeft {filler : Char} {text : List Char} (printed : Printed text)
    (plain : Printable filler) (width : Nat) : Printed (padLeft filler width text) :=
  (printed_replicate plain _).append printed

namespace Hex

theorem printed_pair (byte : UInt8) : Printed (pair byte) :=
  (printed_nil.cons (printable_digitChar _)).cons (printable_digitChar _)

theorem printed_text (bytes : List UInt8) : Printed (text bytes) := fun _ member => by
  obtain ⟨byte, _, within⟩ := List.mem_flatMap.mp member
  exact printed_pair byte _ within

end Hex

namespace Calendar

theorem printed_two (value : Nat) : Printed (two value) :=
  (printed_decimal value).padLeft (by decide) 2

theorem printed_yearText (year : Int) : Printed (yearText year) := by
  have digits : Printed (padLeft '0' 4 (decimal year.natAbs)) :=
    (printed_decimal _).padLeft (by decide) 4
  simp only [yearText]
  split
  · exact digits.cons (by decide)
  split
  · exact digits.cons (by decide)
  · exact digits

theorem Date.printed_text (date : Date) : Printed date.text :=
  ((printed_yearText _).append ((printed_two _).cons (by decide))).append
    ((printed_two _).cons (by decide))

theorem printed_clockText (second : Nat) : Printed (clockText second) :=
  ((printed_two _).append ((printed_two _).cons (by decide))).append
    ((printed_two _).cons (by decide))

theorem printed_text (time : Timestamp) : Printed (text time) := by
  simp only [text]
  split
  · exact (printed_signedDecimal _).append (by decide)
  refine ((Date.printed_text _).append ((printed_clockText _).cons (by decide))).append ?_
  split
  · exact printed_nil
  · exact ((printed_decimal _).padLeft (by decide) 6).cons (by decide)

end Calendar

namespace Number

theorem printed_dropTrailingZeros {digits : List Char} (printed : Printed digits) :
    Printed (dropTrailingZeros digits) := fun c member => by
  have kept := (List.dropWhile_sublist _).mem (List.mem_reverse.mp member)
  exact printed c (List.mem_reverse.mp kept)

theorem Digits.printed_text (scale : Nat) (decimal : Digits) : Printed (decimal.text scale) := by
  simp only [text]
  split
  · exact printed_decimal _
  · refine (printed_decimal _).append ((printed_dropTrailingZeros ?_).cons (by decide))
    exact (printed_decimal _).padLeft (by decide) _

theorem Format.printed_text (f : Format) (bits : Nat) : Printed (f.text bits) := by
  have sign : Printed (if f.signBit ≤ bits then ['-'] else []) := by split <;> decide
  simp only [text]
  split
  · decide
  · exact sign.append (by decide)
  · exact sign.append (by decide)
  · exact sign.append (Digits.printed_text _ _)

end Number

/-- Has no control character, which the end of a line is one of. -/
def Clear (text : List UInt8) : Prop := ∀ byte ∈ text, 0x20 ≤ byte

instance : DecidablePred Clear := List.decidableBAll fun byte => 0x20 ≤ byte

theorem clear_nil : Clear [] := nofun

theorem Clear.append {front back : List UInt8} (first : Clear front) (second : Clear back) :
    Clear (front ++ back) := List.forall_mem_append.mpr ⟨first, second⟩

theorem Clear.count_eq {text : List UInt8} (clear : Clear text) : text.count 0x0a = 0 :=
  List.count_eq_zero.mpr fun member => absurd (clear _ member) (by decide)

theorem Printed.clear {text : List Char} (printed : Printed text) : Clear (ascii text) := by
  intro byte member
  obtain ⟨c, within, rfl⟩ := List.mem_map.mp member
  obtain ⟨low, high⟩ := printed c within
  rw [UInt8.le_iff_toNat_le, UInt8.toNat_ofNat', Nat.mod_eq_of_lt (by omega)]
  exact low

theorem Quoted.clear_escape (byte : UInt8) : Clear (escape byte) := by
  have letters (letter : Char) (found : letter? byte = some letter) : Printable letter := by
    unfold letter? at found
    split at found <;> cases found <;> decide
  unfold escape
  split
  · exact ((printed_nil.cons (letters _ ‹_›)).cons (by decide)).clear
  split
  · exact Printed.clear (.append (by decide) (Hex.printed_pair byte))
  · rintro _ (_ | ⟨_, ⟨⟩⟩)
    exact UInt8.not_lt.mp ‹_›

theorem Quoted.clear_encode (bytes : List UInt8) : Clear (encode bytes) := by
  have quoted : Clear [quote] := by decide
  have inner : Clear (bytes.flatMap escape) := fun _ member => by
    obtain ⟨byte, _, within⟩ := List.mem_flatMap.mp member
    exact clear_escape byte _ within
  exact quoted.append (inner.append quoted)

namespace Dump

theorem printed_payloadText (bytes : List UInt8) : Printed (payloadText bytes) :=
  ((Hex.printed_text bytes).cons (by decide)).append (by decide)

theorem clear_scalar (item : Item) : Clear (scalar item) := by
  cases item with
  | nil => exact Printed.clear (by decide)
  | boolean value => cases value <;> exact Printed.clear (by decide)
  | integer value => exact (printed_signedDecimal value).clear
  | float bits | double bits => exact (Number.Format.printed_text _ _).clear
  | str bytes => exact Quoted.clear_encode bytes
  | bin bytes => exact (printed_payloadText bytes).clear
  | ext type bytes =>
    exact Printed.clear ((((printed_signedDecimal _).cons (by decide)).append
      ((printed_payloadText bytes).cons (by decide))).append (by decide))
  | timestamp time =>
    exact Printed.clear (((Calendar.printed_text time).cons (by decide)).append (by decide))
  | array | map => nofun

/-! ### Scripts -/

/-- The bracket that closes what is left is one that can be printed. -/
def Task.Plain : Task → Prop
  | .elements _ _ _ bracket => Printable bracket
  | _ => True

def Stage.Plain (stage : Stage ι) : Prop := ∀ task ∈ stage.tasks, task.Plain

theorem Stage.Plain.push {stage : Stage ι} {task : Task} (plain : stage.Plain) (own : task.Plain) :
    (stage.push task).Plain := List.forall_mem_cons.mpr ⟨own, plain⟩

/-- Whatever is read, all texts are clear, and all brackets that they leave to print. -/
def Script.Clear : Script → Prop
  | .stop _ | .done => True
  | .push task next => task.Plain ∧ next.Clear
  | .write text next => MessagePack.Clear text ∧ next.Clear
  | .read next => ∀ offset item, (next offset item).Clear

section

variable [Readable ι] {options : Options} {script : Script} {stage next : Stage ι}

theorem Script.Clear.texts (clear : script.Clear) (stage : Stage ι) :
    MessagePack.Clear (script.play stage).texts.flatten := by
  induction script generalizing stage with
  | stop fault => exact clear_nil
  | done => exact clear_nil
  | push task script ih => exact ih clear.2 _
  | write text script ih => exact clear.1.append (ih clear.2 _)
  | read script ih =>
    rw [play]
    split
    · exact clear_nil
    · exact ih _ _ (clear _ _) _

theorem Script.Clear.plain (clear : script.Clear) (plain : stage.Plain)
    (leads : (script.play stage).outcome = .ok next) : next.Plain := by
  induction script generalizing stage with
  | stop fault => cases leads
  | done =>
    cases leads
    exact plain
  | push task script ih => exact ih clear.2 (plain.push clear.1) leads
  | write text script ih => exact ih clear.2 plain leads
  | read script ih =>
    rw [play] at leads
    split at leads
    · cases leads
    · exact ih _ _ (clear _ _) (by exact plain) leads

namespace Script

theorem clear_ofItem (level offset : Nat) (item : Item) : (ofItem level offset item).Clear := by
  cases item with
  | array size =>
    cases size with
    | zero => exact ⟨by decide, trivial⟩
    | succ => exact ⟨trivial, trivial⟩
  | map size =>
    cases size with
    | zero => exact ⟨by decide, trivial⟩
    | succ => exact ⟨trivial, by decide, trivial⟩
  | _ => exact ⟨clear_scalar _, trivial⟩

theorem clear_ofRecord (size level : Nat) (payload : List UInt8) :
    (ofRecord size level payload).Clear := by
  unfold ofRecord
  split
  · trivial
  rename_i label _
  split
  · exact ⟨(((printed_signedDecimal label).cons (by decide)).cons (by decide)).clear, trivial⟩
  refine ⟨?_, ?_⟩
  · split
    · exact clear_nil
    · exact ((printed_signedDecimal label).append (by decide)).clear
  · split
    · exact ⟨trivial, trivial⟩
    · split
      · exact ⟨trivial, trivial⟩
      · trivial

end Script

theorem clear_separate (flat : options.indent = 0) (offset level index : Nat) :
    Clear (options.separate offset level index) := by
  rw [Options.separate, flat, if_neg (Nat.lt_irrefl 0)]
  split <;> decide

theorem clear_close (flat : options.indent = 0) {bracket : Char} (plain : Printable bracket)
    (offset level : Nat) : Clear (options.close offset level bracket) := by
  rw [Options.close, flat, if_neg (Nat.lt_irrefl 0)]
  exact (printed_nil.cons plain).clear

theorem Script.clear_ofFirst (flat : options.indent = 0) (size first level offset : Nat)
    (item : Item) : (ofFirst options size first level offset item).Clear := by
  have array : (ofArray options size first level offset item).Clear := by
    have bracket : Printable ']' := by decide
    exact ⟨bracket, .append (by decide) (clear_separate flat _ _ _), clear_ofItem _ _ _⟩
  unfold ofFirst
  split
  · split
    · exact clear_ofRecord ..
    · exact array
  · exact array

theorem Script.clear_ofTask (flat : options.indent = 0) {task : Task} (plain : task.Plain)
    (nameless : ∀ size level, task ≠ .name size level) (offset : Nat) :
    (ofTask options offset task).Clear := by
  cases task with
  | item level => exact clear_ofItem level
  | first size first level => exact clear_ofFirst flat size first level
  | name size level => exact absurd rfl (nameless size level)
  | colon => exact ⟨by decide, trivial⟩
  | elements left index level bracket =>
    cases left with
    | zero => exact ⟨clear_close flat plain _ _, trivial⟩
    | succ => exact ⟨plain, trivial, clear_separate flat _ _ _, trivial⟩
  | entries left index level =>
    cases left with
    | zero => exact ⟨clear_close flat (by decide) _ _, trivial⟩
    | succ => exact ⟨trivial, trivial, trivial, trivial, clear_separate flat _ _ _, trivial⟩

/-! ### Steps -/

/-- What comes next in a record prints its name, if it is a text, or else nothing. -/
theorem Stage.effect_name (options : Options) (input : ι) (tasks : List Task) (size level : Nat) :
    let stage : Stage ι := ⟨input, .name size level :: tasks⟩
    (∃ fault, stage.effect options = ⟨[], .error fault⟩ ∧ stage.name? = none) ∨
      ∃ name after, stage.effect options =
          ⟨[name ++ ascii ['(']], .ok ⟨after, .elements (size - 2) 0 level ')' :: tasks⟩⟩ ∧
        stage.name? = some name := by
  simp only [effect, Script.ofTask, Script.play, name?]
  cases Readable.next input with
  | mk result after =>
    cases result with
    | error fault => exact .inl ⟨fault, rfl, rfl⟩
    | ok item =>
      cases item with
      | str name => exact .inr ⟨name, after, rfl, rfl⟩
      | _ => exact .inl ⟨.malformedInput, rfl, rfl⟩

/-- A step begins a line if nothing is left to print, and prints the name of a record as it is.
All the rest of what it writes is clear. -/
theorem Stage.Plain.effect (plain : stage.Plain) (flat : options.indent = 0) :
    (∃ body, Clear body ∧ (stage.effect options).texts.flatten =
      (if stage.tasks.isEmpty then options.newLine stage.offset 0 else []) ++
        (stage.name?.getD [] ++ body)) ∧
      ∀ next, (stage.effect options).outcome = .ok next → next.Plain := by
  obtain ⟨input, tasks⟩ := stage
  cases tasks with
  | nil =>
    have clear : (Script.read (Script.ofItem 0)).Clear := Script.clear_ofItem 0
    exact ⟨⟨_, clear.texts ⟨input, []⟩, rfl⟩, fun next leads => clear.plain plain leads⟩
  | cons task tasks =>
    have others (input : ι) : Stage.Plain ⟨input, tasks⟩ := fun other member =>
      plain other (List.mem_cons_of_mem _ member)
    by_cases named : ∃ size level, task = .name size level
    · obtain ⟨size, level, rfl⟩ := named
      rcases Stage.effect_name options input tasks size level with ⟨fault, effect, nameless⟩ |
        ⟨name, after, effect, called⟩
      · rw [effect, nameless]
        exact ⟨⟨[], clear_nil, rfl⟩, nofun⟩
      · have bracket : Printable ')' := by decide
        rw [effect, called]
        refine ⟨⟨ascii ['('], by decide, List.append_nil _⟩, ?_⟩
        rintro _ ⟨⟩
        exact (others after).push bracket
    · have clear : (Script.ofTask options (Readable.offset input) task).Clear :=
        Script.clear_ofTask flat (plain task List.mem_cons_self)
          (fun size level same => named ⟨size, level, same⟩) _
      have nameless : Stage.name? ⟨input, task :: tasks⟩ = none := by
        cases task with
        | name size level => exact absurd ⟨size, level, rfl⟩ named
        | _ => rfl
      rw [nameless]
      exact ⟨⟨_, clear.texts ⟨input, tasks⟩, rfl⟩, fun next leads =>
        clear.plain (others input) leads⟩

/-! ### Runs -/

theorem count_newLine (options : Options) (offset level : Nat) :
    (options.newLine offset level).count 0x0a = 1 := by
  have rest : Printed (padLeft ' ' 6 (Nat.toDigits 16 offset) ++ [' ', ' '] ++
      .replicate (level * options.indent) ' ') :=
    (((printed_toDigits (by decide) offset).padLeft (by decide) 6).append (by decide)).append
      (printed_replicate (by decide) _)
  have line : options.newLine offset level =
      0x0a :: ascii (padLeft ' ' 6 (Nat.toDigits 16 offset) ++ [' ', ' '] ++
        .replicate (level * options.indent) ' ') := rfl
  rw [line, List.count_cons_self, rest.clear.count_eq]

theorem count_closing (fault : Fault) :
    (closing fault).count 0x0a = if fault = .endOfInput then 1 else 3 := by
  cases fault <;> decide

/-- The lines that a text consists of, each with the position that it begins with, behind what
belongs to a line before them. -/
structure Lined (options : Options) (stages : List (Stage ι)) (front : List UInt8)
    (lines : List (Nat × List UInt8)) : Prop where
  text : (texts options stages).flatten =
    front ++ lines.flatMap fun line => options.newLine line.1 0 ++ line.2
  starts : lines.map Prod.fst = starts stages
  breaks : front.count 0x0a + (lines.map Prod.snd).flatten.count 0x0a =
    (names stages).flatten.count 0x0a
  clear : (∀ name ∈ names stages, Clear name) → Clear front ∧ ∀ line ∈ lines, Clear line.2

theorem names_cons (stage : Stage ι) (stages : List (Stage ι)) :
    names (stage :: stages) = stage.name?.toList ++ names stages := by
  rw [names, List.filterMap_cons]
  cases stage.name? <;> rfl

variable {stages : List (Stage ι)} {front : List UInt8} {lines : List (Nat × List UInt8)}

/-- One step more in front, which begins a line or goes on with one. -/
theorem Lined.cons (lined : Lined options stages front lines) (plain : stage.Plain)
    (flat : options.indent = 0) :
    ∃ front lines, Lined options (stage :: stages) front lines ∧
      (stage.tasks = [] → front = []) := by
  obtain ⟨⟨body, clear, written⟩, _⟩ := plain.effect flat
  have text : (texts options (stage :: stages)).flatten =
      (stage.effect options).texts.flatten ++ (texts options stages).flatten := by
    rw [texts, List.flatMap_cons, List.flatten_append]
    rfl
  have breaks : (names (stage :: stages)).flatten.count 0x0a =
      (stage.name?.getD [] ++ body ++ front).count 0x0a +
        (lines.map Prod.snd).flatten.count 0x0a := by
    have named : (stage.name?.toList).flatten = stage.name?.getD [] := by
      cases stage.name? <;> simp
    rw [names_cons, List.flatten_append, List.count_append, ← lined.breaks, named,
      List.count_append, List.count_append, clear.count_eq]
    omega
  have own (all : ∀ name ∈ names (stage :: stages), Clear name) :
      Clear (stage.name?.getD [] ++ body ++ front) ∧ ∀ line ∈ lines, Clear line.2 := by
    rw [names_cons] at all
    obtain ⟨head, tail⟩ := List.forall_mem_append.mp all
    obtain ⟨before, behind⟩ := lined.clear tail
    refine ⟨.append (.append ?_ clear) before, behind⟩
    cases named : stage.name? with
    | none => exact clear_nil
    | some name => exact head name (by rw [named]; exact List.mem_singleton_self name)
  rw [written, lined.text] at text
  -- What a step writes belongs to the line that it begins, or else to the one that goes on.
  cases none : stage.tasks.isEmpty with
  | true =>
    refine ⟨[], (stage.offset, stage.name?.getD [] ++ body ++ front) :: lines, ?_, fun _ => rfl⟩
    constructor
    · rw [text, none]
      simp
    · rw [starts_cons, none, ← lined.starts]
      rfl
    · rw [breaks, List.map_cons, List.flatten_cons, List.count_append]
      exact Nat.zero_add _
    · intro all
      obtain ⟨first, behind⟩ := own all
      exact ⟨clear_nil, List.forall_mem_cons.mpr ⟨first, behind⟩⟩
  | false =>
    refine ⟨stage.name?.getD [] ++ body ++ front, lines, ?_, fun empty => ?_⟩
    · constructor
      · rw [text, none]
        simp
      · rw [starts_cons, none, ← lined.starts]
        rfl
      · exact breaks.symm
      · exact own
    · rw [empty] at none
      cases none

theorem Course.lined {fault : Fault} (course : Course options stage stages fault)
    (plain : stage.Plain) (flat : options.indent = 0) :
    ∃ front lines, Lined options stages front lines ∧ (stage.tasks = [] → front = []) := by
  induction course with
  | last _ =>
    have none : Lined options ([] : List (Stage ι)) [] [] :=
      ⟨rfl, rfl, rfl, fun _ => ⟨clear_nil, nofun⟩⟩
    exact none.cons plain flat
  | step leads _ ih =>
    obtain ⟨_, _, lined, _⟩ := ih ((plain.effect flat).2 _ leads)
    exact lined.cons plain flat

end

theorem Course.names_eq_nil {options : Options} {stage : Stage (Unpacker Source)}
    {stages : List (Stage (Unpacker Source))} {fault : Fault}
    (course : Course options stage stages fault) (proper : stage.Proper options)
    (records : options.records = false) : names stages = [] := by
  have nameless {stage : Stage (Unpacker Source)} (proper : stage.Proper options) :
      stage.name? = none := by
    obtain ⟨input, _ | ⟨task, tasks⟩⟩ := stage
    · rfl
    cases task with
    | name size level =>
      have own : Task.Proper options (.name size level) := proper _ List.mem_cons_self
      cases records.symm.trans own.2
    | _ => rfl
  induction course with
  | last _ =>
    rw [names_cons, nameless proper]
    rfl
  | step leads _ ih =>
    rw [names_cons, nameless proper]
    exact ih (proper.advances leads).1

/-- The top-level items that a dump prints in full: as often as it comes again to where nothing
is left to print. -/
def completed (input : Input) (output : Output) (options : Options) : Nat :=
  (passes input output options).tail.countP fun printer => printer.tasks.isEmpty

theorem length_lineStarts (input : Input) (output : Output) (options : Options) :
    (lineStarts input output options).length = completed input output options + 1 := by
  have first : ∃ rest, passes input output options =
      ⟨.ofInput input inputCapacity .native, output, []⟩ :: rest := by
    rw [passes, Printer.passes]
    split
    · exact ⟨_, rfl⟩
    · exact ⟨_, rfl⟩
  obtain ⟨rest, begins⟩ := first
  rw [lineStarts, completed, begins, starts, List.map_cons, List.filter_cons_of_pos rfl,
    List.length_map, List.length_cons, List.tail_cons, ← List.countP_eq_length_filter,
    List.countP_map]
  rfl

/-- Lines. Without an indent, a dump consists of one line for each item that no other holds, of one
for the end, and of what reports the fault; each begins with the position of its item. No line
has a control character in it but what the names of records have. So there are as many
newlines as items printed in full, and one for the line begun last, one to close it and
two for a report, and beyond that those within the names of records. -/
theorem dump_lines (input : Input) {output : Output} (accepts : output.Accepts) (records : Bool) :
    let options : Options := ⟨0, records⟩
    ∃ (fault : Fault) (text : List UInt8) (lines : List (Nat × List UInt8)),
      (dump input output options).1 = .ok fault ∧
      (dump input output options).2.received.toList = output.received.toList ++ text ∧
      text = (lines.flatMap fun line => options.newLine line.1 0 ++ line.2) ++ closing fault ∧
      lines.map Prod.fst = lineStarts input output options ∧
      text.count 0x0a = completed input output options + 1 + 1 +
        (if fault = .endOfInput then 0 else 2) +
        (recordNames input output options).flatten.count 0x0a ∧
      ((∀ name ∈ recordNames input output options, Clear name) → ∀ line ∈ lines, Clear line.2) ∧
      (records = false → recordNames input output options = []) := by
  intro options
  obtain ⟨fault, course⟩ := course_dump input accepts options
  obtain ⟨code, received⟩ := dump_of_accepts accepts course
  obtain ⟨front, lines, lined, begins⟩ := course.lined nofun rfl
  obtain rfl : front = [] := begins rfl
  have text := lined.text
  rw [List.nil_append] at text
  rw [text] at received
  refine ⟨fault, _, lines, code, received, rfl, lined.starts, ?_, fun all => (lined.clear all).2,
    course.names_eq_nil nofun⟩
  -- Every line has one newline that it begins with, and those of the names in it.
  have heads : (lines.flatMap fun line => options.newLine line.1 0 ++ line.2).count 0x0a =
      lines.length + (lines.map Prod.snd).flatten.count 0x0a := by
    clear lined text received
    induction lines with
    | nil => rfl
    | cons line lines ih =>
      rw [List.flatMap_cons, List.count_append, List.count_append, count_newLine, ih,
        List.map_cons, List.flatten_cons, List.count_append, List.length_cons]
      omega
  have count : lines.length = completed input output options + 1 := by
    rw [← length_lineStarts, lineStarts, ← lined.starts, List.length_map]
  have breaks : 0 + (lines.map Prod.snd).flatten.count 0x0a =
      (recordNames input output options).flatten.count 0x0a := lined.breaks
  rw [List.count_append, heads, count_closing, count, ← breaks]
  split <;> omega

def broken : Input :=
  .ofBytes [0x92, 0xd4, 0x7f, 0x01, 0xa3, 0x61, 0x0a, 0x62] (.paced (fun _ => 8) false none)

theorem printout_broken : printout? ⟨0, true⟩ broken.pending .endOfInput 8 =
    some ⟨.endOfInput, asciiString "\n     0  1->a\nb()\n     8  \n", [0, 8],
      [[0x61, 0x0a, 0x62]]⟩ := by cbv

theorem delivers_broken : broken.Delivers .endOfInput :=
  Input.delivers_paced _ (fun _ => by decide) false

theorem dump_lines_broken :
    let options : Options := ⟨0, true⟩
    let output := Output.ofPlan ⟨fun _ _ offered => .accept offered, fun _ => none⟩
    output.Accepts ∧ ∃ (text : List UInt8) (lines : List (Nat × List UInt8)),
      (dump broken output options).1 = .ok .endOfInput ∧
      (dump broken output options).2.received.toList = text ∧
      text = (lines.flatMap fun line => options.newLine line.1 0 ++ line.2) ++ [0x0a] ∧
      lines.map Prod.fst = [0, 8] ∧
      text.count 0x0a = completed broken output options + 1 + 1 + 1 := by
  intro options output
  have accepts : output.Accepts := ⟨fun _ _ offered some => ⟨offered, some, rfl⟩, fun _ => rfl⟩
  obtain ⟨ended, _, starts, names⟩ := dump_of_printout printout_broken delivers_broken accepts
  obtain ⟨fault, text, lines, code, received, written, begun, count, _⟩ :=
    dump_lines broken accepts true
  obtain rfl : .endOfInput = fault := Except.ok.inj (ended.symm.trans code)
  rw [names] at count
  exact ⟨accepts, text, lines, code, received, written, begun.trans starts, count⟩

/-- Its dump has one item, and a line more than that, the one for the end and the closing. -/
theorem count_broken :
    let output := Output.ofPlan ⟨fun _ _ offered => .accept offered, fun _ => none⟩
    output.Accepts ∧ (dump broken output ⟨0, true⟩).1 = .ok .endOfInput ∧
      completed broken output ⟨0, true⟩ = 1 ∧
      (dump broken output ⟨0, true⟩).2.received.toList.count 0x0a = 4 := by
  intro output
  have accepts : output.Accepts := ⟨fun _ _ offered some => ⟨offered, some, rfl⟩, fun _ => rfl⟩
  obtain ⟨ended, text, starts, _⟩ := dump_of_printout printout_broken delivers_broken accepts
  refine ⟨accepts, ended, ?_, ?_⟩
  · have lines := length_lineStarts broken output ⟨0, true⟩
    rw [starts] at lines
    exact (Nat.succ.inj lines).symm
  · rw [text]
    decide

end Dump
end MessagePack
