import MessagePack.Dump.Run
import MessagePack.Proofs.UnmarkedMemory
import MessagePack.Proofs.ShortestForms
import MessagePack.Proofs.ItemRecall
import MessagePack.Proofs.RoundTrip
import MessagePack.Proofs.AcceptingOutput

/-! What a dump of a document looks like. A renderer that has the trees before it writes the
text that the printer writes, which sees one item at a time: the printer's tasks are what
the renderer has still to return to. -/
namespace MessagePack

namespace Dump

/-- A container with the texts of its parts, each beside the offset that the part begins at. -/
def enclose (options : Options) (level ending : Nat) (opening closing : Char)
    (parts : List (Nat × List UInt8)) : List UInt8 :=
  if parts = [] then ascii [opening, closing]
  else if options.indent = 0 then
    ascii [opening] ++ (ascii [' ']).intercalate (parts.map Prod.snd) ++ ascii [closing]
  else
    ascii [opening] ++ parts.flatMap (fun part => options.newLine part.1 (level + 1) ++ part.2) ++
      (options.newLine ending level ++ ascii [closing])

end Dump

namespace Tree

open Dump

mutual

/-- The text of a tree at a level of nesting whose bytes begin at an offset. -/
def render (options : Options) (order : ByteOrder) (level offset : Nat) : Tree → List UInt8
  | .leaf scalar => Dump.scalar scalar.item
  | .array elements =>
    let first := offset + ((array elements).opening order).length
    let ending := offset + ((array elements).bytes order).length
    enclose options level ending '[' ']'
      (renderElements options order (level + 1) first elements)
  | .map entries =>
    let first := offset + ((map entries).opening order).length
    let ending := offset + ((map entries).bytes order).length
    enclose options level ending '\x7b' '\x7d'
      (renderEntries options order (level + 1) first entries)

def renderElements (options : Options) (order : ByteOrder) (level offset : Nat) :
    List Tree → List (Nat × List UInt8)
  | [] => []
  | element :: elements =>
    (offset, element.render options order level offset) ::
      renderElements options order level (offset + (element.bytes order).length) elements

def renderEntries (options : Options) (order : ByteOrder) (level offset : Nat) :
    List (Tree × Tree) → List (Nat × List UInt8)
  | [] => []
  | (key, value) :: entries =>
    let middle := offset + (key.bytes order).length
    (offset, key.render options order level offset ++ ascii [':'] ++
        value.render options order level middle) ::
      renderEntries options order level (middle + (value.bytes order).length) entries

end

theorem sizeOf_lt {tree child : Tree} (member : child ∈ tree.children) :
    sizeOf child < sizeOf tree := by
  cases tree with
  | leaf scalar => cases member
  | array elements =>
    have among : child ∈ elements := member
    have smaller := List.sizeOf_lt_of_mem among
    simp only [array.sizeOf_spec]
    omega
  | map entries =>
    obtain ⟨⟨key, value⟩, among, within⟩ := List.mem_flatMap.mp member
    have smaller := List.sizeOf_lt_of_mem among
    simp only [map.sizeOf_spec, Prod.mk.sizeOf_spec] at smaller ⊢
    simp only [List.mem_cons, List.not_mem_nil, or_false] at within
    rcases within with rfl | rfl <;> omega

/-- The text of a document, a line for each tree and one for the end. -/
def renderAll (options : Options) (order : ByteOrder) : (offset : Nat) → List Tree → List UInt8
  | offset, [] => options.newLine offset 0 ++ asciiString "\n"
  | offset, tree :: trees =>
    options.newLine offset 0 ++ tree.render options order 0 offset ++
      renderAll options order (offset + (tree.bytes order).length) trees

end Tree

namespace Dump

/-! ### Layout -/

namespace Options

variable {options : Options}

/-- Parts one after another, each set apart from the one before. -/
def spread (options : Options) (level : Nat) :
    (index : Nat) → List (Nat × List UInt8) → List UInt8
  | _, [] => []
  | index, part :: parts =>
    options.separate part.1 level index ++ part.2 ++ options.spread level (index + 1) parts

theorem spread_of_indent (indented : 0 < options.indent) (level index : Nat)
    (parts : List (Nat × List UInt8)) :
    options.spread level index parts =
      parts.flatMap fun part => options.newLine part.1 level ++ part.2 := by
  induction parts generalizing index with
  | nil => rfl
  | cons part parts ih => rw [spread, ih, separate, if_pos indented, List.flatMap_cons]

theorem spread_of_inline (inline : options.indent = 0) (level : Nat)
    (part : Nat × List UInt8) (parts : List (Nat × List UInt8)) (index : Nat) :
    options.spread level index (part :: parts) =
      (if 0 < index then ascii [' '] else []) ++
        (ascii [' ']).intercalate ((part :: parts).map Prod.snd) := by
  have stays (offset index : Nat) : options.separate offset level index =
      if 0 < index then ascii [' '] else [] := by
    rw [separate, if_neg (by omega)]
  induction parts generalizing part index with
  | nil => simp [spread, stays, List.intercalate]
  | cons next parts ih =>
    rw [spread, ih, stays, if_pos (Nat.succ_pos index)]
    simp [List.intercalate]

end Options

theorem enclose_eq {options : Options} {parts : List (Nat × List UInt8)} (some : parts ≠ [])
    (level ending : Nat) (opening closing : Char) :
    enclose options level ending opening closing parts =
      ascii [opening] ++ options.spread (level + 1) 0 parts ++
        options.close ending level closing := by
  obtain ⟨part, parts, rfl⟩ := List.exists_cons_of_ne_nil some
  rw [enclose, if_neg some, Options.close]
  by_cases inline : options.indent = 0
  · rw [if_pos inline, if_neg (by omega), Options.spread_of_inline inline]
    rfl
  · rw [if_neg inline, if_pos (by omega), Options.spread_of_indent (by omega)]

end Dump

/-! ### Reading -/

namespace Reading

@[simp] theorem advance_zero (reading : Reading) : reading.advance 0 = reading := rfl

/-- A reading that has not failed, with these bytes ahead of it. -/
structure Faces (reading : Reading) (ahead : List UInt8) : Prop where
  clean : reading.fault = none
  native : reading.order.verify = .ok ()
  rest : reading.rest = ahead

variable {reading : Reading}

theorem Faces.advance {front more : List UInt8} (faces : reading.Faces (front ++ more)) :
    (reading.advance front.length).Faces more where
  clean := faces.clean
  native := faces.native
  rest := by rw [rest_advance, faces.rest, List.drop_left]

theorem Faces.next {tree : Tree} {order : ByteOrder} {more : List UInt8}
    (faces : reading.Faces (tree.opening order ++ more)) (native : order.verify = .ok ())
    (fits : tree.Fits) :
    reading.next = (.ok tree.item, reading.advance (tree.opening order).length) := by
  have reads := Tree.reads_opening fits.size_lt order
  rw [Item.scan_native native faces.native] at reads
  exact next_of_reads faces.clean reads faces.rest

end Reading

/-! ### Printing -/

namespace Dump.Printer

variable {options : Options} {printer : Printer} {reading after : Reading} {text more : List UInt8}
  {task : Task} {tasks left : List Task}

/-- Where a printer stands: in the input, in the text, and in what is to be done. -/
structure At (printer : Printer) (reading : Reading) (text : List UInt8) (tasks : List Task) :
    Prop where
  input : printer.input.Tracks reading
  shows : ∃ seen, printer.input.buffer.Shows seen
  output : printer.output.Accepts
  text : printer.output.received.toList = text
  tasks : printer.tasks = tasks

def Leads (options : Options) (answer : Answer) (reading : Reading) (text : List UInt8)
    (tasks : List Task) : Prop :=
  answer.1 = .ok () ∧
    ∃ later, run options answer.2 = run options later ∧ later.At reading text tasks

theorem Leads.trans {answer : Answer} (first : Leads options answer reading text tasks)
    (second : ∀ {printer : Printer}, printer.At reading text tasks →
      Leads options (.ok (), printer) after more left) :
    Leads options answer after more left := by
  obtain ⟨goesOn, between, same, stands⟩ := first
  obtain ⟨_, later, again, arrived⟩ := second stands
  exact ⟨goesOn, later, same.trans again, arrived⟩

namespace At

theorem leads (stands : printer.At reading text tasks) :
    Leads options (.ok (), printer) reading text tasks :=
  ⟨rfl, printer, rfl, stands⟩

theorem offset (stands : printer.At reading text tasks) : printer.offset = reading.position :=
  stands.input.offset

theorem push (stands : printer.At reading text tasks) (task : Task) :
    (printer.push task).At reading text (task :: tasks) :=
  ⟨stands.input, stands.shows, stands.output, stands.text, congrArg _ stands.tasks⟩

theorem write (stands : printer.At reading text tasks) (more : List UInt8) :
    ∃ after, printer.write more = (.ok (), after) ∧ after.input = printer.input ∧
      after.At reading (text ++ more) tasks := by
  obtain ⟨written, accepts, received⟩ := stands.output.writeAll more
  unfold Printer.write
  generalize printer.output.writeAll more = result at written accepts received
  obtain ⟨answer, output⟩ := result
  dsimp only at written
  subst written
  rw [stands.text] at received
  exact ⟨_, rfl, rfl, stands.input, stands.shows, accepts, received, stands.tasks⟩

theorem leads_write (stands : printer.At reading text tasks) (more : List UInt8) :
    Leads options (printer.write more) reading (text ++ more) tasks := by
  obtain ⟨after, written, _, arrived⟩ := stands.write more
  rw [written]
  exact arrived.leads

theorem thenWrite (stands : printer.At reading text tasks) (more : List UInt8)
    {next : Printer → Answer} {longer : List UInt8}
    (goesOn : ∀ {later : Printer}, later.At reading (text ++ more) tasks →
      later.input = printer.input → Leads options (next later) after longer left) :
    Leads options (printer.thenWrite more next) after longer left := by
  obtain ⟨between, written, same, arrived⟩ := stands.write more
  rw [Printer.thenWrite, written]
  exact goesOn arrived same

theorem perform (stands : printer.At reading text (task :: tasks))
    (performed : ∀ {printer : Printer}, printer.At reading text tasks →
      Leads options (printer.perform options task) after more left) :
    Leads options (.ok (), printer) after more left := by
  have rest : ({ printer with tasks } : Printer).At reading text tasks :=
    ⟨stands.input, stands.shows, stands.output, stands.text, rfl⟩
  have stepped :
      printer.step options = ({ printer with tasks } : Printer).perform options task := by
    rw [step, stands.tasks]
  obtain ⟨goesOn, later, same, arrived⟩ := performed rest
  have step := run_of_step (stepped.trans (Prod.ext goesOn rfl))
  exact ⟨rfl, later, step.trans same, arrived⟩

theorem withInput (stands : printer.At reading text tasks) {item : Item}
    {next : Printer → Answer} {between : Reading} (read : reading.next = (.ok item, between))
    (goesOn : ∀ {printer : Printer}, printer.At between text tasks →
      printer.input.item? = some item → Leads options (next printer) after more left) :
    Leads options (printer.withInput printer.input.next fun _ => next) after more left := by
  obtain ⟨answer, tracks⟩ := stands.input.next
  rw [read] at answer tracks
  have read : printer.input.next = (.ok item, printer.input.next.2) := Prod.ext answer rfl
  obtain ⟨seen, shows⟩ := stands.shows
  have stays : printer.input.next.2.buffer.Shows seen := Unpacker.shows_request shows (.call .next)
  have held := Unpacker.item_of_next shows read
  rw [read]
  exact goesOn ⟨tracks, ⟨seen, stays⟩, stands.output, stands.text, stands.tasks⟩ held

end At

/-- The printer writes what the renderer makes of a tree, from the item on that opens it. -/
def Prints (options : Options) (order : ByteOrder) (tree : Tree) : Prop :=
  ∀ {printer : Printer} {reading : Reading} {text more : List UInt8} {tasks : List Task}
    {level : Nat}, reading.Faces (tree.bytes order ++ more) →
    printer.At (reading.advance (tree.opening order).length) text tasks →
    printer.input.item? = some tree.item →
    Leads options (printer.current level)
      (reading.advance (tree.bytes order).length)
      (text ++ tree.render options order level reading.position) tasks

variable {order : ByteOrder} {tree : Tree} {level index : Nat}

theorem Prints.readItem (prints : Prints options order tree) (native : order.verify = .ok ())
    (fits : tree.Fits) (faces : reading.Faces (tree.bytes order ++ more))
    (stands : printer.At reading text tasks) :
    Leads options (printer.readItem level) (reading.advance (tree.bytes order).length)
      (text ++ tree.render options order level reading.position) tasks := by
  have opens := faces
  rw [tree.bytes_eq, List.append_assoc] at opens
  exact stands.withInput (opens.next native fits) (prints faces)

/-- The rest of an array. -/
theorem leads_elements (native : order.verify = .ok ()) {elements : List Tree}
    (prints : ∀ element ∈ elements, Prints options order element ∧ element.Fits)
    (faces : reading.Faces (elements.flatMap (Tree.bytes order) ++ more)) {bracket : Char}
    (stands : printer.At reading text (.elements elements.length index level bracket :: tasks)) :
    Leads options (.ok (), printer)
      (reading.advance (elements.flatMap (Tree.bytes order)).length)
      (text ++ options.spread (level + 1) index
          (Tree.renderElements options order (level + 1) reading.position elements) ++
        options.close (reading.position + (elements.flatMap (Tree.bytes order)).length) level
          bracket) tasks := by
  induction elements generalizing printer reading text index with
  | nil =>
    refine stands.perform fun rests => ?_
    have closed : Leads options (Printer.perform options _ (.elements 0 index level bracket))
      reading _ tasks := rests.leads_write _
    rw [rests.offset] at closed
    simpa [Tree.renderElements, Options.spread] using closed
  | cons element elements ih =>
    obtain ⟨own, fits⟩ := prints element List.mem_cons_self
    refine stands.perform fun rests => ?_
    refine ((rests.push _).push _).leads_write _ |>.trans fun stands => ?_
    rw [List.flatMap_cons, List.append_assoc] at faces
    refine (stands.perform fun rests => own.readItem native fits faces rests).trans fun stands => ?_
    have others := ih (fun element member => prints element (List.mem_cons_of_mem _ member))
      faces.advance stands
    rw [rests.offset] at others
    simpa [Tree.renderElements, Options.spread, Reading.advance_advance, Reading.advance,
      Nat.add_assoc] using others

/-- The rest of a map. -/
theorem leads_entries (native : order.verify = .ok ()) {entries : List (Tree × Tree)}
    (prints : ∀ child ∈ (Tree.map entries).children, Prints options order child ∧ child.Fits)
    (faces : reading.Faces ((Tree.map entries).children.flatMap (Tree.bytes order) ++ more))
    (stands : printer.At reading text (.entries entries.length index level :: tasks)) :
    Leads options (.ok (), printer)
      (reading.advance ((Tree.map entries).children.flatMap (Tree.bytes order)).length)
      (text ++ options.spread (level + 1) index
          (Tree.renderEntries options order (level + 1) reading.position entries) ++
        options.close
          (reading.position + ((Tree.map entries).children.flatMap (Tree.bytes order)).length) level
          '\x7d') tasks := by
  induction entries generalizing printer reading text index with
  | nil =>
    refine stands.perform fun rests => ?_
    have closed : Leads options (Printer.perform options _ (.entries 0 index level))
      reading _ tasks := rests.leads_write _
    rw [rests.offset] at closed
    simpa [Tree.renderEntries, Tree.children, Options.spread] using closed
  | cons entry entries ih =>
    obtain ⟨key, value⟩ := entry
    have children : (Tree.map ((key, value) :: entries)).children =
        key :: value :: (Tree.map entries).children := rfl
    rw [children] at prints faces ⊢
    obtain ⟨⟨first, keyFits⟩, others⟩ := List.forall_mem_cons.mp prints
    obtain ⟨⟨second, valueFits⟩, rest⟩ := List.forall_mem_cons.mp others
    simp only [List.flatMap_cons, List.append_assoc] at faces
    refine stands.perform fun rests => ?_
    refine ((((rests.push _).push _).push _).push _).leads_write _ |>.trans fun stands => ?_
    refine (stands.perform fun rests =>
      first.readItem native keyFits faces rests).trans fun stands => ?_
    refine (stands.perform fun rests => rests.leads_write _).trans fun stands => ?_
    refine (stands.perform fun rests =>
      second.readItem native valueFits faces.advance rests).trans fun stands => ?_
    have others := ih rest faces.advance.advance stands
    rw [rests.offset] at others
    simpa [Tree.renderEntries, Options.spread, Reading.advance_advance, Reading.advance,
      Nat.add_assoc] using others

/-! ### Trees -/

theorem printFirst_plain (plain : options.records = false) (size offset level : Nat)
    (printer : Printer) :
    printer.printFirst options size offset level =
      (printer.push (.elements (size - 1) 1 level ']')).thenWrite
        (ascii ['['] ++ options.separate offset (level + 1) 0) (current (level + 1)) := by
  simp only [printFirst, plain, Bool.false_eq_true, false_and, if_false]
  split <;> rfl

theorem current_of_held {item : Item} (held : printer.input.item? = some item) (level : Nat) :
    printer.current level = printer.printItem level item := by
  rw [current, held]

theorem prints_leaf (scalar : Scalar) : Prints options order (.leaf scalar) := by
  intro printer reading text more tasks level faces stands held
  have alone : (Tree.leaf scalar).bytes order = (Tree.leaf scalar).opening order := by
    simp [Tree.bytes_eq, Tree.children]
  rw [alone]
  have printed : printer.printItem level (Tree.leaf scalar).item =
      printer.write (Dump.scalar scalar.item) := by
    cases scalar <;> rfl
  rw [current_of_held held, printed, Tree.render]
  exact stands.leads_write _

theorem prints_array (plain : options.records = false) (native : order.verify = .ok ())
    {elements : List Tree}
    (prints : ∀ element ∈ elements, Prints options order element ∧ element.Fits) :
    Prints options order (.array elements) := by
  intro printer reading text more tasks level faces stands held
  rw [current_of_held held]
  cases elements with
  | nil =>
    have alone : (Tree.array []).bytes order = (Tree.array []).opening order := by
      simp [Tree.bytes_eq, Tree.children]
    rw [alone, Tree.render]
    exact stands.leads_write _
  | cons element elements =>
    obtain ⟨⟨own, fits⟩, others⟩ := List.forall_mem_cons.mp prints
    have place := stands.offset
    have opened := stands.push (.first (elements.length + 1) printer.offset level)
    rw [Tree.bytes_eq, List.append_assoc] at faces
    have inside := faces.advance
    rw [Tree.children, List.flatMap_cons, List.append_assoc] at inside
    have begins := inside
    rw [element.bytes_eq, List.append_assoc] at begins
    refine opened.leads.trans fun stands => ?_
    refine stands.perform fun rests =>
      rests.withInput (begins.next native fits) fun stands held => ?_
    rw [printFirst_plain plain]
    refine (stands.push _).thenWrite _ fun stands same => ?_
    refine (own inside stands ((congrArg Unpacker.item? same).trans held)).trans fun stands => ?_
    have printed := leads_elements native others inside.advance stands
    rw [place] at printed
    have whole := (Tree.array (element :: elements)).bytes_eq order
    rw [Tree.children, List.flatMap_cons] at whole
    rw [Tree.render, enclose_eq (by simp [Tree.renderElements]), whole]
    simpa [Tree.renderElements, Options.spread, Reading.advance, Nat.add_assoc] using printed

theorem prints_map (native : order.verify = .ok ()) {entries : List (Tree × Tree)}
    (prints : ∀ child ∈ (Tree.map entries).children, Prints options order child ∧ child.Fits) :
    Prints options order (.map entries) := by
  intro printer reading text more tasks level faces stands held
  rw [current_of_held held]
  cases entries with
  | nil =>
    have alone : (Tree.map []).bytes order = (Tree.map []).opening order := by
      simp [Tree.bytes_eq, Tree.children]
    rw [alone, Tree.render]
    exact stands.leads_write _
  | cons entry entries =>
    rw [Tree.bytes_eq, List.append_assoc] at faces
    have opened := stands.push (.entries (entries.length + 1) 0 level)
    refine (opened.leads_write _).trans fun stands => ?_
    have printed := leads_entries native prints faces.advance stands
    have whole := (Tree.map (entry :: entries)).bytes_eq order
    rw [Tree.render, enclose_eq (by simp [Tree.renderEntries]), whole]
    simpa [Reading.advance, Nat.add_assoc] using printed

theorem prints (plain : options.records = false) (native : order.verify = .ok ()) :
    (tree : Tree) → tree.Fits → Prints options order tree
  | .leaf scalar, _ => prints_leaf scalar
  | .array elements, fits => prints_array plain native fun element member =>
    have inside := fits.children member
    ⟨prints plain native element inside, inside⟩
  | .map entries, fits => prints_map native fun child member =>
    have inside := fits.children member
    ⟨prints plain native child inside, inside⟩
termination_by tree => sizeOf tree
decreasing_by
  · exact Tree.sizeOf_lt member
  · exact Tree.sizeOf_lt member

/-- Trees are printed one after another, and then the input is at its end. -/
theorem run_trees (plain : options.records = false) (native : order.verify = .ok ())
    {trees : List Tree} (fits : ∀ tree ∈ trees, tree.Fits) (closing : reading.closing = .endOfInput)
    (faces : reading.Faces (trees.flatMap (Tree.bytes order)))
    (stands : printer.At reading text []) :
    (run options printer).1 = .unreadable .endOfInput ∧
      (run options printer).2.output.Accepts ∧
      (run options printer).2.output.received.toList ++ asciiString "\n" =
        text ++ Tree.renderAll options order reading.position trees := by
  induction trees generalizing printer reading text with
  | nil =>
    have last := Reading.next_of_nil faces.clean faces.rest
    rw [closing] at last
    obtain ⟨between, written, _, arrived⟩ := stands.write (options.newLine reading.position 0)
    have ended : between.input.next = (.error .endOfInput, between.input.next.2) :=
      Prod.ext (arrived.input.next.1.trans (congrArg Prod.fst last)) rfl
    have stopped : printer.step options =
        (.error (.unreadable .endOfInput), { between with input := between.input.next.2 }) := by
      rw [step, stands.tasks]
      dsimp only
      rw [stands.offset, thenWrite, written]
      dsimp only
      rw [Printer.readItem, ended]
      rfl
    rw [run_of_stop stopped]
    refine ⟨rfl, arrived.output, ?_⟩
    rw [arrived.text, Tree.renderAll, List.append_assoc]
  | cons tree trees ih =>
    obtain ⟨own, others⟩ := List.forall_mem_cons.mp fits
    have printed : Prints options order tree := prints plain native tree own
    rw [List.flatMap_cons] at faces
    have begun : Leads options (printer.step options) (reading.advance (tree.bytes order).length)
        (text ++ options.newLine reading.position 0 ++ tree.render options order 0 reading.position)
        [] := by
      rw [step, stands.tasks]
      dsimp only
      rw [stands.offset]
      exact stands.thenWrite _ fun stands _ => printed.readItem native own faces stands
    obtain ⟨goesOn, later, same, arrived⟩ := begun
    have stepped := run_of_step (Prod.ext goesOn rfl : printer.step options = (.ok (), _))
    have stays : (reading.advance (tree.bytes order).length).closing = .endOfInput := closing
    have rest := ih others stays faces.advance arrived
    rw [stepped, same, Tree.renderAll]
    simpa [Reading.advance] using rest

end Dump.Printer

namespace Dump

/-- Dumps. What is packed of a document, and arrives at any pace, is dumped as the renderer has
it: every tree, element and key stands where it begins in the input, each closing bracket
where its container ends, and the last line where the input does. -/
theorem dump_renders {document : List Tree} (fits : ∀ tree ∈ document, tree.Fits)
    {order : ByteOrder} (native : order.verify = .ok ()) (capacity : Nat) {ceiling : Nat}
    (allocation : Granted ceiling (document.flatMap (Tree.bytes order)).length)
    {options : Options} (plain : options.records = false) :
    let packing := ((Packer.growable capacity ⟨false, order⟩).withCeiling ceiling).run
      (Tree.calls document)
    packing.1 = (Tree.calls document).map (fun _ => .ok ()) ∧
      ∀ input output, input.Delivers .endOfInput → input.pending = packing.2.buffer.packed →
        output.Accepts →
        (dump input output options).1 = .ok .endOfInput ∧
          (dump input output options).2.received.toList = output.received.toList ++
            Tree.renderAll options order 0 document := by
  obtain ⟨answers, _, packed⟩ := Packer.holds_document native document capacity allocation
  refine ⟨answers, fun input output delivers pending accepts => ?_⟩
  rw [packed] at pending
  have size : input.pending.length + Scan.largest < Position.modulus := by
    have largest : 2 * Scan.largest < Position.modulus := by decide
    have granted := allocation.1
    rw [pending]
    omega
  have tracks := Unpacker.tracks_ofInput delivers size inputCapacity .native
  rw [pending] at tracks
  have stands : (Printer.mk (.ofInput input inputCapacity .native) output []).At
      (.start (document.flatMap (Tree.bytes order)) .endOfInput .native)
      output.received.toList [] :=
    ⟨tracks, Incoming.shows_ofCapacity (by decide : inputCapacity < Position.modulus), accepts,
      rfl, rfl⟩
  obtain ⟨ended, accepting, text⟩ :=
    Printer.run_trees plain native fits rfl ⟨rfl, rfl, rfl⟩ stands
  rw [dump, dumpFrom]
  generalize Printer.run options ⟨.ofInput input inputCapacity .native, output, []⟩ = result
    at ended accepting text
  obtain ⟨stop, printer⟩ := result
  dsimp only at ended accepting text
  subst ended
  obtain ⟨written, stays, received⟩ := accepting.writeAll (closing .endOfInput)
  have last : closing .endOfInput = asciiString "\n" := List.append_nil _
  simp only [conclude]
  generalize printer.output.writeAll (closing .endOfInput) = result at written stays received
  obtain ⟨answer, closed⟩ := result
  dsimp only at written stays received
  subst written
  have flushed : closed.flush = (.ok (), { closed with flushes := closed.flushes + 1 }) := by
    rw [Output.flush, stays.2]
  dsimp only
  rw [flushed]
  refine ⟨rfl, ?_⟩
  dsimp only
  rw [received, last, text]
  rfl

/-- A map in a document of two trees, byte by byte, with two spaces for each level. -/
theorem dump_renders_indented :
    let key : Tree := .leaf (.str [0x6b] (by decide))
    let document : List Tree := [.map [(key, .array [.leaf .nil, .array []])],
      .leaf (.unsigned 300)]
    let input := Input.ofBytes [0x81, 0xa1, 0x6b, 0x92, 0xc0, 0x90, 0xcd, 0x01, 0x2c]
      (.paced (fun _ => 1) true none)
    let output := Output.ofPlan ⟨fun _ _ _ => .accept 1, fun _ => none⟩
    let dumped := dump input output ⟨2, false⟩
    (∀ tree ∈ document, tree.Fits) ∧ dumped.1 = .ok .endOfInput ∧
      dumped.2.received.toList = asciiString
        ("\n     0  \x7b\n     1    \"k\":[\n     4      nil\n     5      []\n     6    ]" ++
          "\n     6  \x7d\n     6  300\n     9  \n") := by
  intro key document input output dumped
  have fits : ∀ tree ∈ document, tree.Fits := by decide
  have packs := (@dump_renders document fits .portable rfl 16 64 (by decide) ⟨2, false⟩ rfl).2
  obtain ⟨code, text⟩ := packs input output (Input.delivers_paced _ (fun _ => Nat.one_pos) true)
    (by decide) ⟨fun _ _ _ _ => ⟨1, Nat.one_pos, rfl⟩, fun _ => rfl⟩
  exact ⟨fits, code, text.trans (by decide)⟩

end Dump
end MessagePack
