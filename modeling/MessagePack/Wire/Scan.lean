import MessagePack.Fault

/-! A scan is a way of reading: it asks for a number of bytes, looks at them, and goes
on, until it has its answer or gives up. How the bytes come about is left to whoever
runs it. A request that opens an item is marked `leading`: bytes that are missing
there mean the end of the input, and anywhere else a truncated item. -/
namespace MessagePack

inductive Scan (α : Type) where
  | done (value : α)
  | fail (fault : Fault)
  | take (count : Nat) (leading : Bool) (next : List UInt8 → Scan α)

namespace Scan

def bind : Scan α → (α → Scan β) → Scan β
  | .done value, f => f value
  | .fail fault, _ => .fail fault
  | .take count leading next, f => .take count leading fun bytes => (next bytes).bind f

instance : Monad Scan where
  pure := .done
  bind := bind

/-- The fault of a request that the input does not meet. -/
def shortage (leading : Bool) : Fault := if leading then .endOfInput else .bufferUnderflow

/-- Reads from bytes that are all there, and answers what is left of them. -/
def run : Scan α → List UInt8 → Except Fault (α × List UInt8)
  | .done value, bytes => .ok (value, bytes)
  | .fail fault, _ => .error fault
  | .take count leading next, bytes =>
    if count ≤ bytes.length then (next (bytes.take count)).run (bytes.drop count)
    else .error (shortage leading)

theorem pure_eq (value : α) : (pure value : Scan α) = .done value := rfl

theorem bind_eq (scan : Scan α) (f : α → Scan β) : (scan >>= f) = scan.bind f := rfl

end Scan
end MessagePack
