import MessagePack.CommandLine

/-! The dump program: reads its standard input to the end and writes the dump of it to its
standard output. -/
namespace MessagePack

partial def readAll (stream : IO.FS.Stream) (acc : ByteArray) : IO ByteArray := do
  let chunk ← stream.read 65536
  if chunk.isEmpty then return acc
  readAll stream (acc ++ chunk)

def complain (exitCode : Nat) : IO Unit := do
  if exitCode = 2 then
    (← IO.getStderr).putStrLn "error: unexpected arguments\n\nFor more information, try '--help'."

end MessagePack

open MessagePack in
def main (args : List String) : IO UInt32 := do
  let input ←
    match CommandLine.parse args with
    | .dump _ => readAll (← IO.getStdin) .empty
    | _ => pure .empty
  let outcome ←
    match CommandLine.run args input.data.toList with
    | .ok outcome => pure outcome
    | .error _ => throw (IO.userError "crashed")
  let output ← IO.getStdout
  try
    output.write ⟨outcome.output.toArray⟩
    output.flush
    complain outcome.exitCode
    return outcome.exitCode.toUInt32
  catch _ => return 1
