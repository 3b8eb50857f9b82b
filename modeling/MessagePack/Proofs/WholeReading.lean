import MessagePack.Proofs.ScanBounds
import MessagePack.Unpack.LookAhead
import MessagePack.Unpack.Typed

/-! Reading from an input that lies there whole, with nothing between it and the reader: no
buffer, no handler, no window that moves. A reading is a position in the input, and what
is answered is a function of the bytes from that position on. Every unpacker that is fed
faithfully does what a reading of its whole input does. -/
namespace MessagePack

structure Reading where
  input : List UInt8
  /-- What a handler says at the end of the input. -/
  closing : Fault
  order : ByteOrder
  position : Nat
  mark : Option Nat
  /-- The first fault, if there was one. -/
  fault : Option Fault
  deriving DecidableEq, Repr

/-- The kind of the item that `bytes` begin with, as far as they tell it. -/
def Kind.ahead (bytes : List UInt8) : Kind :=
  if bytes = [] then .notAnItem
  else
    match Clue.ofTag (.ofByte (bytes.headD 0)) with
    | .known kind => kind
    | .extType count =>
      if count ≤ bytes.length then .ofExtType (bytes.getD (count - 1) 0).toInt8 else .notAnItem
    | .sign count =>
      if count ≤ bytes.length then
        if bytes.getD 1 0 < 0x80 then .positiveInteger else .negativeInteger
      else .notAnItem

theorem Kind.ahead_of_ne {bytes : List UInt8} (some : bytes ≠ []) :
    Kind.ahead bytes =
      match Clue.ofTag (.ofByte (bytes.headD 0)) with
      | .known kind => kind
      | .extType count =>
        if count ≤ bytes.length then .ofExtType (bytes.getD (count - 1) 0).toInt8 else .notAnItem
      | .sign count =>
        if count ≤ bytes.length then
          if bytes.getD 1 0 < 0x80 then .positiveInteger else .negativeInteger
        else .notAnItem := by
  rw [ahead, if_neg some]

theorem Kind.Clue.bounds (tag : Tag) :
    match ofTag tag with
    | .known _ => True
    | .extType count | .sign count => 2 ≤ count ∧ count ≤ 10 := by
  have width {i : Nat} (h : i ≤ 3) : 1 ≤ Tag.width i ∧ Tag.width i ≤ 8 :=
    ⟨Tag.width_le (Nat.zero_le i), Tag.width_le h⟩
  cases tag with
  | ext i | signed i =>
    have := width (i := i.val) (by omega)
    simp only [ofTag]
    omega
  | fixExt i => exact ⟨Nat.le_refl _, by decide⟩
  | _ => trivial

namespace Reading

def start (input : List UInt8) (closing : Fault) (order : ByteOrder) : Reading where
  input := input
  closing := closing
  order := order
  position := 0
  mark := none
  fault :=
    match order.verify with
    | .ok _ => none
    | .error fault => some fault.toFault

def rest (reading : Reading) : List UInt8 := reading.input.drop reading.position

def advance (reading : Reading) (count : Nat) : Reading :=
  { reading with position := reading.position + count }

def settle (answer : Except Fault α) (reading : Reading) : Except Fault α × Reading :=
  match answer with
  | .ok value => (.ok value, reading)
  | .error fault => (.error fault, { reading with fault := reading.fault <|> some fault })

def attempt (reading : Reading) (call : Reading → Except Fault α × Reading) :
    Except Fault α × Reading :=
  match reading.fault with
  | some fault => (.error fault, reading)
  | none =>
    let result := call reading
    result.2.settle result.1

def perform (scan : Scan α) (reading : Reading) : Except Fault α × Reading :=
  let result := scan.read reading.closing reading.rest
  (result.1, reading.advance result.2)

def nextHeader (reading : Reading) : Except Fault Header × Reading :=
  reading.attempt (perform (Header.scan reading.order))

def next (reading : Reading) : Except Fault Item × Reading :=
  reading.attempt (perform (Item.scan reading.order))

def nextAs (view : Item → Except Fault α) (reading : Reading) : Except Fault α × Reading :=
  match reading.next with
  | (.error fault, reading) => (.error fault, reading)
  | (.ok item, reading) => reading.settle (view item)

def lookAhead (reading : Reading) : Kind :=
  if reading.fault.isSome then .notAnItem else .ahead reading.rest

def setBarrier (reading : Reading) : Reading := { reading with mark := some reading.position }

def clearBarrier (reading : Reading) : Reading := { reading with mark := none }

def rescan (reading : Reading) : Status × Reading :=
  reading.attempt fun reading =>
    match reading.mark with
    | none => (.error .illegalCall, reading)
    | some position => (.ok (), { reading with position })

theorem attempt_of_clean {reading : Reading} (clean : reading.fault = none)
    (call : Reading → Except Fault α × Reading) :
    reading.attempt call = (call reading).2.settle (call reading).1 := by
  rw [attempt, clean]

@[simp] theorem fst_settle (reading : Reading) (answer : Except Fault α) :
    (reading.settle answer).1 = answer := by
  cases answer <;> rfl

@[simp] theorem position_settle (reading : Reading) (answer : Except Fault α) :
    (reading.settle answer).2.position = reading.position := by
  cases answer <;> rfl

@[simp] theorem rest_advance (reading : Reading) (count : Nat) :
    (reading.advance count).rest = reading.rest.drop count := by simp [rest, advance]

theorem advance_advance (reading : Reading) (a b : Nat) :
    (reading.advance a).advance b = reading.advance (a + b) := by
  simp [advance, Nat.add_assoc]

theorem perform_take_of_le {reading : Reading} {count : Nat} (leading : Bool)
    (next : List UInt8 → Scan α) (complete : count ≤ reading.rest.length) :
    reading.perform (.take count leading next) =
      (reading.advance count).perform (next (reading.rest.take count)) := by
  simp only [perform, Scan.read, if_pos complete, rest_advance, advance_advance]
  rfl

theorem perform_take_of_lt {reading : Reading} {count : Nat} (leading : Bool)
    (next : List UInt8 → Scan α) (missing : reading.rest.length < count) :
    reading.perform (.take count leading next) =
      (.error (Scan.shortfall reading.closing leading), reading) := by
  simp only [perform, Scan.read, if_neg (Nat.not_le_of_lt missing)]
  rfl

theorem perform_bind (reading : Reading) (scan : Scan α) (f : α → Scan β) :
    reading.perform (scan.bind f) =
      match reading.perform scan with
      | (.error fault, after) => (.error fault, after)
      | (.ok value, after) => after.perform (f value) := by
  simp only [perform, Scan.read_bind]
  generalize scan.read reading.closing reading.rest = result
  obtain ⟨answer, taken⟩ := result
  cases answer with
  | error fault => rfl
  | ok value =>
    simp only [rest_advance, advance_advance]
    rfl

theorem length_rest_lt {reading after : Reading} {next : List UInt8 → Scan α} {leading : Bool}
    {value : α} (h : reading.perform (.take 1 leading next) = (.ok value, after)) :
    after.rest.length < reading.rest.length := by
  obtain ⟨answered, rfl⟩ := Prod.mk.inj h
  have taken : 1 ≤ ((Scan.take 1 leading next).read reading.closing reading.rest).2 :=
    Scan.le_of_read_take (Prod.ext answered rfl)
  have enough := Scan.read_le reading.closing (.take 1 leading next) reading.rest
  simp only [rest, advance, List.length_drop] at *
  omega

def skipPending (pending : Nat) (reading : Reading) : Except Fault Skipped × Reading :=
  match pending with
  | 0 => (.ok .whole, reading)
  | pending + 1 =>
    match _step : reading.perform (Extent.scan reading.order) with
    | (.error fault, after) => (.error fault, after)
    | (.ok items, after) =>
      if pending + items < UInt64.size then skipPending (pending + items) after
      else (.ok .overflow, after)
termination_by reading.rest.length
decreasing_by exact length_rest_lt _step

theorem skipPending_zero (reading : Reading) : reading.skipPending 0 = (.ok .whole, reading) := by
  rw [skipPending]

theorem skipPending_succ (pending : Nat) (reading : Reading) :
    reading.skipPending (pending + 1) =
      match reading.perform (Extent.scan reading.order) with
      | (.error fault, after) => (.error fault, after)
      | (.ok items, after) =>
        if pending + items < UInt64.size then after.skipPending (pending + items)
        else (.ok .overflow, after) := by
  rw [skipPending]
  split <;> rename_i step <;> rw [step]

def skip (reading : Reading) (count : UInt64) : Except Fault Skipped × Reading :=
  reading.attempt (skipPending count.toNat)

end Reading
end MessagePack
