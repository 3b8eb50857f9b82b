import MessagePack.Dump.CallStack

/-! The command line of the dump program. Arguments are taken in order, and the first that
decides the outcome, be it a request for the version or a mistake, ends the reading. -/
namespace MessagePack.CommandLine

/-- What the arguments ask for. -/
inductive Invocation where
  | dump (options : Dump.Options)
  | version
  | help
  | misuse
  deriving DecidableEq, Repr

/-- The options met so far. Neither may be given twice. -/
structure Flags where
  tab : Option Nat
  records : Bool
  deriving DecidableEq, Repr

/-- How a run of one-letter options ends. -/
inductive Cluster where
  | complete (flags : Flags)
  /-- The value of the tab option is in the next argument. -/
  | awaiting (flags : Flags)
  | decided (invocation : Invocation)
  deriving DecidableEq, Repr

def tabRange : Nat × Nat := (1, 9)

/-- A tab size: decimal digits, perhaps after a plus sign. -/
def tabSize? (text : List Char) : Option Nat :=
  let digits := if text.head? = some '+' then text.tail else text
  if digits ≠ [] ∧ digits.all Char.isDigit then
    let size := digits.foldl (fun size c => 10 * size + (c.toNat - '0'.toNat)) 0
    if tabRange.1 ≤ size ∧ size ≤ tabRange.2 then some size else none
  else none

def Flags.setTab (flags : Flags) (text : List Char) : Option Flags :=
  match flags.tab, tabSize? text with
  | none, some size => some { flags with tab := some size }
  | _, _ => none

/-- The letters after a dash. What follows the tab letter, an equals sign left out, is its
value. -/
def cluster (flags : Flags) : List Char → Cluster
  | [] => .complete flags
  | 'r' :: letters =>
    if flags.records then .decided .misuse else cluster { flags with records := true } letters
  | 'V' :: _ => .decided .version
  | 'h' :: _ => .decided .help
  | ['t'] => .awaiting flags
  | 't' :: value =>
    match flags.setTab (if value.head? = some '=' then value.tail else value) with
    | some flags => .complete flags
    | none => .decided .misuse
  | _ => .decided .misuse

def parseFrom (flags : Flags) : List (List Char) → Invocation
  | [] => .dump ⟨flags.tab.getD 0, flags.records⟩
  | ['-', '-'] :: args => if args = [] then .dump ⟨flags.tab.getD 0, flags.records⟩ else .misuse
  | ('-' :: '-' :: name) :: _ =>
    if name = "version".toList then .version
    else if name = "help".toList then .help
    else .misuse
  | ('-' :: letter :: letters) :: args =>
    match cluster flags (letter :: letters), args with
    | .decided invocation, _ => invocation
    | .complete flags, args => parseFrom flags args
    | .awaiting _, [] => .misuse
    | .awaiting flags, value :: args =>
      match flags.setTab value with
      | some flags => parseFrom flags args
      | none => .misuse
  | _ => .misuse

def parse (args : List String) : Invocation := parseFrom ⟨none, false⟩ (args.map String.toList)

def versionText : String := "wirepack-dump 0.3.0\n"

def helpText : String :=
  "Prints a MessagePack stream in readable form\n\n" ++
  "Usage: wirepack-dump [OPTIONS]\n\n" ++
  "Options:\n" ++
  "  -t <N>         Tab size. Without it, structures are written on a single line\n" ++
  "  -r             Recognize records (arrays led by ext 127)\n" ++
  "  -h, --help     Print help\n" ++
  "  -V, --version  Print version\n"

structure Outcome where
  exitCode : Nat
  output : List UInt8
  deriving DecidableEq, Repr

/-- A dump succeeds whatever ends the input, short of a crash. -/
def dump (options : Dump.Options) (input : List UInt8) : Except Dump.Crash Outcome := do
  let (answer, output) ←
    Dump.dumpOn Dump.stackRoom (.ofBytes input .steady) (.ofPlan .steady) options
  let exitCode :=
    match answer with
    | .ok _ => 0
    | .error _ => 1
  return ⟨exitCode, output.received.toList⟩

def run (args : List String) (input : List UInt8) : Except Dump.Crash Outcome :=
  match parse args with
  | .dump options => dump options input
  | .version => .ok ⟨0, asciiString versionText⟩
  | .help => .ok ⟨0, asciiString helpText⟩
  | .misuse => .ok ⟨2, []⟩

end MessagePack.CommandLine
