import MessagePack.Pack.Packer
import MessagePack.Stream.Output

/-! Packing into an output stream. The buffer is drained into the stream when it is full,
and grows only for a value that the emptied buffer has no room for. -/
namespace MessagePack

structure Sink where
  output : Output

namespace Sink

/-- Keeps the text of a failed write with the buffer. -/
def reply (sink : Sink) (buffer : Outgoing) (answer : Except String Unit) : Outlet.Reply Sink :=
  match answer with
  | .ok _ => ⟨.ok (), sink, buffer⟩
  | .error text => ⟨.error .errorInHandler, sink, { buffer with failure := some text }⟩

/-- Writes the packed bytes before the barrier. They stay in the buffer if that fails. -/
def drain (sink : Sink) (buffer : Outgoing) : Outlet.Reply Sink :=
  let upto := buffer.barrier.getD buffer.current
  if upto ≤ buffer.start then ⟨.ok (), sink, buffer⟩
  else
    match sink.output.writeAll (buffer.region.slice buffer.start upto) with
    | (.ok _, output) => ⟨.ok (), ⟨output⟩, buffer.discardFront upto⟩
    | (.error text, output) => reply ⟨output⟩ buffer (.error text)

def makeRoom (sink : Sink) (buffer : Outgoing) (needed : Nat) : Outlet.Reply Sink :=
  let drained := sink.drain buffer
  match drained.status with
  | .error _ => drained
  | .ok _ =>
    if needed ≤ drained.buffer.remaining then drained
    else
      let (status, buffer) := drained.buffer.growFor needed
      ⟨status, drained.handler, buffer⟩

def flush (sink : Sink) (buffer : Outgoing) : Outlet.Reply Sink :=
  let drained := sink.drain buffer
  match drained.status with
  | .error _ => drained
  | .ok _ =>
    let (answer, output) := drained.handler.output.flush
    reply ⟨output⟩ drained.buffer answer

def write (sink : Sink) (buffer : Outgoing) (bytes : List UInt8) : Outlet.Reply Sink :=
  let (answer, output) := sink.output.writeAll bytes
  reply ⟨output⟩ buffer answer

instance : Outlet Sink where
  makeRoom := makeRoom
  canFlush _ := true
  flush := flush
  canWrite _ := true
  write := write

end Sink

namespace Packer

def sinkCapacity : Nat := 4096

/-- Capacity 0 asks for the default. -/
def toOutput (output : Output) (capacity : Nat) (dialect : Dialect) : Packer Sink :=
  new (.ofSize (if capacity = 0 then sinkCapacity else capacity)) ⟨output⟩ dialect

def finish (packer : Packer Sink) : Status × Packer Sink :=
  { packer with buffer := packer.buffer.clearBarrier }.flush

end Packer
end MessagePack
