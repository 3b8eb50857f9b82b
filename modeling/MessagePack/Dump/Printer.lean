import MessagePack.Dump.Layout
import MessagePack.Dump.Scalar
import MessagePack.Stream.Output
import MessagePack.Unpack.ExtNumber
import MessagePack.Unpack.Source

/-! Printing a stream of items. A printer keeps a list of what is still to print of the
containers that it is inside of, and takes up the first of these tasks in each step, for
which it reads one item at most. Text goes to the output before the input is read on, so
what is printed when reading or writing fails is all that came before.

An array whose first element is an extension of type 127 is a record. That extension
is its label; a name and fields follow, or a single value if the label is negative, or
nothing where the label alone refers to a record. -/
namespace MessagePack.Dump

def recordType : Int8 := 127

inductive Task where
  | item (level : Nat)
  /-- An array of which nothing is printed yet, and the position of its first element. -/
  | first (size offset level : Nat)
  /-- A record of which the label is printed, and the name and fields are not. -/
  | name (size level : Nat)
  /-- The rest of an array or record, `left` elements and a bracket. -/
  | elements (left index level : Nat) (bracket : Char)
  /-- The rest of a map, `left` entries and a bracket. -/
  | entries (left index level : Nat)
  | colon
  deriving DecidableEq, Repr

/-- Each step without reading takes weight off the tasks. -/
def Task.weight : Task → Nat
  | .item _ | .first _ _ _ | .name _ _ | .colon => 1
  | .elements left _ _ _ => 2 * left + 1
  | .entries left _ _ => 4 * left + 1

/-- Why printing ends. -/
inductive Stop where
  | unwritable (text : String)
  | unreadable (fault : Fault)
  deriving DecidableEq, Repr

structure Printer where
  input : Unpacker Source
  output : Output
  tasks : List Task

namespace Printer

abbrev Answer := Except Stop Unit × Printer

def offset (printer : Printer) : Nat := printer.input.offset

def weight (printer : Printer) : Nat :=
  printer.tasks.foldr (fun task total => task.weight + total) 0

def write (printer : Printer) (text : List UInt8) : Answer :=
  match printer.output.writeAll text with
  | (.ok _, output) => (.ok (), { printer with output })
  | (.error text, output) => (.error (.unwritable text), { printer with output })

def push (printer : Printer) (task : Task) : Printer :=
  { printer with tasks := task :: printer.tasks }

/-- Reads on, and goes on with what was read. -/
def withInput (printer : Printer) (read : Except Fault α × Unpacker Source)
    (next : α → Printer → Answer) : Answer :=
  match read with
  | (.error fault, input) => (.error (.unreadable fault), { printer with input })
  | (.ok value, input) => next value { printer with input }

/-- Writes, and goes on after it. -/
def thenWrite (printer : Printer) (text : List UInt8) (next : Printer → Answer) : Answer :=
  match printer.write text with
  | (.error stop, printer) => (.error stop, printer)
  | (.ok _, printer) => next printer

/-- Prints an item, or begins a container. -/
def printItem (level : Nat) (item : Item) (printer : Printer) : Answer :=
  match item with
  | .array 0 => printer.write (ascii ['[', ']'])
  | .array size => (.ok (), printer.push (.first size printer.offset level))
  | .map 0 => printer.write (ascii ['\x7b', '\x7d'])
  | .map size => (printer.push (.entries size 0 level)).write (ascii ['\x7b'])
  | item => printer.write (scalar item)

/-- Prints the item that was read last, as the input still has it. -/
def current (level : Nat) (printer : Printer) : Answer :=
  match printer.input.item? with
  | some item => printer.printItem level item
  | none => (.error (.unreadable .illegalCall), printer)

def readItem (level : Nat) (printer : Printer) : Answer :=
  printer.withInput printer.input.next fun _ => current level

/-- Prints the name of a record and leaves its fields to print. -/
def printName (size level : Nat) (printer : Printer) : Answer :=
  match printer.input.item? with
  | some (.str name) =>
    (printer.push (.elements (size - 2) 0 level ')')).write (name ++ ascii ['('])
  | _ => (.error (.unreadable .malformedInput), printer)

/-- Begins a record whose label the input has just read. -/
def printRecord (size level : Nat) (printer : Printer) : Answer :=
  printer.withInput printer.input.extInteger fun label printer =>
    if size = 1 then printer.write (ascii ('-' :: '>' :: signedDecimal label))
    else
      let text := if label = 0 then [] else ascii (signedDecimal label ++ ['-', '>'])
      printer.thenWrite text fun printer =>
        if 0 ≤ label then (.ok (), printer.push (.name size level))
        else if size = 2 then (.ok (), printer.push (.item level))
        else (.error (.unreadable .malformedInput), printer)

/-- Begins an array with its first element, which tells whether it is a record. -/
def printFirst (options : Options) (size offset level : Nat) (printer : Printer) : Answer :=
  let array : Answer :=
    (printer.push (.elements (size - 1) 1 level ']')).thenWrite
      (ascii ['['] ++ options.separate offset (level + 1) 0) (current (level + 1))
  match printer.input.item? with
  | some (.ext type _) =>
    if options.records ∧ type = recordType then printer.printRecord size level else array
  | _ => array

def perform (options : Options) (printer : Printer) : Task → Answer
  | .item level => printer.readItem level
  | .first size offset level =>
    printer.withInput printer.input.next fun _ => printFirst options size offset level
  | .name size level => printer.withInput printer.input.next fun _ => printName size level
  | .colon => printer.write (ascii [':'])
  | .elements 0 _ level bracket => printer.write (options.close printer.offset level bracket)
  | .elements (left + 1) index level bracket =>
    ((printer.push (.elements left (index + 1) level bracket)).push (.item (level + 1))).write
      (options.separate printer.offset (level + 1) index)
  | .entries 0 _ level => printer.write (options.close printer.offset level '\x7d')
  | .entries (left + 1) index level =>
    ((((printer.push (.entries left (index + 1) level)).push (.item (level + 1))).push
      .colon).push (.item (level + 1))).write (options.separate printer.offset (level + 1) index)

/-- Takes up the first task, or begins a top-level item when there is none. -/
def step (options : Options) (printer : Printer) : Answer :=
  match printer.tasks with
  | [] => printer.thenWrite (options.newLine printer.offset 0) (readItem 0)
  | task :: tasks => { printer with tasks }.perform options task

end Printer
end MessagePack.Dump
