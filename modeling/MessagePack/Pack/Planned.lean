import MessagePack.Pack.Packer

/-! A handler of outgoing bytes that follows a plan. It stands for handlers other than
those of this library, well or badly behaved, when a packer is tried out. -/
namespace MessagePack

/-- What is done when room is asked for. -/
inductive Planned.Room where
  /-- Reports success and does nothing. -/
  | report
  | grow
  /-- Makes the region end right behind the bytes asked for. -/
  | exact
  /-- Drops all packed bytes. -/
  | drop
  | fail (fault : Fault)
  deriving DecidableEq, Repr

/-- What is done with bytes to pass on. -/
inductive Planned.Passing where
  /-- Adds them to the log, and drops them from the buffer if they were there. -/
  | keep
  /-- Reports success and does nothing. -/
  | report
  | fail (fault : Fault)
  deriving DecidableEq, Repr

structure Planned where
  room : Planned.Room
  flushing : Option Planned.Passing
  writing : Option Planned.Passing
  log : List UInt8
  deriving DecidableEq, Repr

namespace Planned

def makeRoom (handler : Planned) (buffer : Outgoing) (needed : Nat) : Outlet.Reply Planned :=
  match handler.room with
  | .report => ⟨.ok (), handler, buffer⟩
  | .grow =>
    let (status, buffer) := buffer.growFor needed
    ⟨status, handler, buffer⟩
  | .exact =>
    let (status, buffer) := buffer.resize (buffer.current + needed)
    ⟨status, handler, buffer⟩
  | .drop => ⟨.ok (), handler, buffer.discardFront buffer.current⟩
  | .fail fault => ⟨.error fault, handler, buffer⟩

def flush (handler : Planned) (buffer : Outgoing) : Outlet.Reply Planned :=
  match handler.flushing with
  | none => ⟨.error .illegalCall, handler, buffer⟩
  | some .keep =>
    ⟨.ok (), { handler with log := handler.log ++ buffer.packed },
      buffer.discardFront buffer.current⟩
  | some .report => ⟨.ok (), handler, buffer⟩
  | some (.fail fault) => ⟨.error fault, handler, buffer⟩

def write (handler : Planned) (buffer : Outgoing) (bytes : List UInt8) : Outlet.Reply Planned :=
  match handler.writing with
  | none => ⟨.error .illegalCall, handler, buffer⟩
  | some .keep => ⟨.ok (), { handler with log := handler.log ++ bytes }, buffer⟩
  | some .report => ⟨.ok (), handler, buffer⟩
  | some (.fail fault) => ⟨.error fault, handler, buffer⟩

instance : Outlet Planned where
  makeRoom := makeRoom
  canFlush handler := handler.flushing.isSome
  flush := flush
  canWrite handler := handler.writing.isSome
  write := write

end Planned
end MessagePack
