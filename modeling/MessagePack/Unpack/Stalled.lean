import MessagePack.Unpack.Unpacker

/-! A handler of incoming bytes that follows a plan and brings nothing. It stands for
handlers other than those of this library when an unpacker is tried out. -/
namespace MessagePack

inductive Stalled where
  /-- Reports success and does nothing. -/
  | report
  /-- Compacts the buffer and reports success. -/
  | compact
  | fail (fault : Fault)
  deriving DecidableEq, Repr

namespace Stalled

def refill (handler : Stalled) (buffer : Incoming) : Inlet.Reply Stalled :=
  match handler with
  | .report => ⟨.ok (), handler, buffer⟩
  | .compact => ⟨.ok (), handler, buffer.compact⟩
  | .fail fault => ⟨.error fault, handler, buffer⟩

instance : Inlet Stalled where
  refill handler buffer _ := handler.refill buffer
  supply _ := 0
  refill_le handler buffer _ := by
    cases handler with
    | report | fail fault => exact Nat.le_refl _
    | compact => exact Incoming.remaining_compact_le buffer

end Stalled
end MessagePack
