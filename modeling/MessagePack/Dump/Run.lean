import MessagePack.Dump.Progress

/-! Dumping a whole stream. The items are printed until the input ends or fails, the cause
of which, other than a plain end, is put under them. -/
namespace MessagePack.Dump

namespace Printer

def run (options : Options) (printer : Printer) : Stop × Printer :=
  match _step : printer.step options with
  | (.error stop, after) => (stop, after)
  | (.ok _, after) => after.run options
termination_by (printer.supply, printer.weight)
decreasing_by
  rcases step_progress _step with fewer | ⟨same, lighter⟩
  · exact Prod.Lex.left _ _ fewer
  · rw [same]
    exact Prod.Lex.right _ lighter

theorem run_of_step {options : Options} {printer after : Printer}
    (stepped : printer.step options = (.ok (), after)) :
    run options printer = run options after := by
  rw [run]
  split <;> rename_i other <;> cases stepped.symm.trans other
  rfl

theorem run_of_stop {options : Options} {stop : Stop} {printer after : Printer}
    (stopped : printer.step options = (.error stop, after)) :
    run options printer = (stop, after) := by
  rw [run]
  split <;> rename_i other <;> cases stopped.symm.trans other
  rfl

end Printer

/-- The last lines of a dump. -/
def closing (fault : Fault) : List UInt8 :=
  asciiString "\n" ++
    if fault = .endOfInput then []
    else asciiString "\nERROR RC = " ++ ascii (signedDecimal fault.code) ++ asciiString "\n"

/-- Answers the fault that ended the input, below which it is put, or else the text of the
failure to write. -/
def conclude (stop : Stop) (output : Output) : Except String Fault × Output :=
  match stop with
  | .unwritable text => (.error text, output)
  | .unreadable fault =>
    match output.writeAll (closing fault) with
    | (.error text, output) => (.error text, output)
    | (.ok _, output) =>
      match output.flush with
      | (.error text, output) => (.error text, output)
      | (.ok _, output) => (.ok fault, output)

/-- Dumps what the input still brings. -/
def dumpFrom (input : Unpacker Source) (output : Output) (options : Options) :
    Except String Fault × Output :=
  let (stop, printer) := Printer.run options ⟨input, output, []⟩
  conclude stop printer.output

/-- The size that the input buffer starts with. -/
def inputCapacity : Nat := 4096

def dump (input : Input) (output : Output) (options : Options) : Except String Fault × Output :=
  dumpFrom (.ofInput input inputCapacity .native) output options

end MessagePack.Dump
