import MessagePack.Buffer.Outgoing
import MessagePack.Wire.Room

/-! Packing values into a buffer. A handler of the caller's choice is asked for room when
the buffer has too little left for a value, and may be able to pass bytes on. The first
fault of a packer is final: every later call answers it and does nothing. -/
namespace MessagePack

/-- What a handler leaves behind. -/
structure Outlet.Reply (σ : Type) where
  status : Status
  handler : σ
  buffer : Outgoing

/-- A handler of outgoing bytes. One that says it can flush or write but does not define
how refuses to. -/
class Outlet (σ : Type) where
  /-- Makes room for `needed` bytes after the packed ones. -/
  makeRoom (handler : σ) (buffer : Outgoing) (needed : Nat) : Outlet.Reply σ
  canFlush (handler : σ) : Bool := false
  /-- Passes the packed bytes on to where they go. -/
  flush (handler : σ) (buffer : Outgoing) : Outlet.Reply σ :=
    ⟨.error .illegalCall, handler, buffer⟩
  canWrite (handler : σ) : Bool := false
  /-- Passes bytes on past the buffer. -/
  write (handler : σ) (buffer : Outgoing) (bytes : List UInt8) : Outlet.Reply σ :=
    ⟨.error .illegalCall, handler, buffer⟩

structure Packer (σ : Type) where
  buffer : Outgoing
  handler : σ
  dialect : Dialect
  /-- The first fault, if there was one. -/
  fault : Option Fault

namespace Packer

/-- A byte order that the host does not have is a fault from the start. -/
def new (buffer : Outgoing) (handler : σ) (dialect : Dialect) : Packer σ where
  buffer := buffer
  handler := handler
  dialect := dialect
  fault :=
    match dialect.order.verify with
    | .ok _ => none
    | .error fault => some fault.toFault

def status (packer : Packer σ) : Status :=
  match packer.fault with
  | none => .ok ()
  | some fault => .error fault

def setCompatible (packer : Packer σ) (compatible : Bool) : Packer σ :=
  { packer with dialect := { packer.dialect with compatible } }

/-- Carries out a call unless a fault stands, and keeps the fault that it ends in. -/
def attempt (packer : Packer σ) (call : Packer σ → Status × Packer σ) : Status × Packer σ :=
  match packer.fault with
  | some fault => (.error fault, packer)
  | none =>
    match call packer with
    | (.ok _, packer) => (.ok (), packer)
    | (.error fault, packer) => (.error fault, { packer with fault := some fault })

/-- Takes over what a handler leaves behind. -/
def settle (packer : Packer σ) (reply : Outlet.Reply σ) : Status × Packer σ :=
  (reply.status, { packer with handler := reply.handler, buffer := reply.buffer })

variable [Outlet σ]

/-- Sees to it that `needed` bytes are free. A handler that reports success without
making room has let the buffer overflow. -/
def reserve (packer : Packer σ) (needed : Nat) : Status × Packer σ :=
  if needed ≤ packer.buffer.remaining then (.ok (), packer)
  else
    match packer.settle (Outlet.makeRoom packer.handler packer.buffer needed) with
    | (.error fault, packer) => (.error fault, packer)
    | (.ok _, packer) =>
      if needed ≤ packer.buffer.remaining then (.ok (), packer)
      else (.error .bufferOverflow, packer)

/-- Claims `needed` bytes and writes `bytes` into them, all together or not at all. -/
def claim (packer : Packer σ) (needed : Nat) (bytes : List UInt8) : Status × Packer σ :=
  match packer.reserve needed with
  | (.error fault, packer) => (.error fault, packer)
  | (.ok _, packer) => (.ok (), { packer with buffer := packer.buffer.claim needed bytes })

def emit (packer : Packer σ) (bytes : List UInt8) : Status × Packer σ :=
  packer.claim bytes.length bytes

def pack (packer : Packer σ) (value : Value) : Status × Packer σ :=
  packer.attempt fun packer =>
    match value.encode packer.dialect with
    | .error fault => (.error fault, packer)
    | .ok bytes => packer.claim (value.needed packer.dialect) bytes

/-- Packs bytes as they are. A handler that can flush and write gets them at once,
behind the bytes packed so far, unless a barrier holds some of these back. -/
def insert (packer : Packer σ) (bytes : List UInt8) : Status × Packer σ :=
  packer.attempt fun packer =>
    if Outlet.canFlush packer.handler ∧ Outlet.canWrite packer.handler ∧
        packer.buffer.barrier = none then
      match packer.settle (Outlet.flush packer.handler packer.buffer) with
      | (.error fault, packer) => (.error fault, packer)
      | (.ok _, packer) => packer.settle (Outlet.write packer.handler packer.buffer bytes)
    else packer.emit bytes

def flush (packer : Packer σ) : Status × Packer σ :=
  packer.attempt fun packer =>
    if Outlet.canFlush packer.handler then
      packer.settle (Outlet.flush packer.handler packer.buffer)
    else (.error .illegalCall, packer)

end Packer
end MessagePack
