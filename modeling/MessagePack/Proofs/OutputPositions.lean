import Mathlib.Tactic
import MessagePack.Pack.Sink
import MessagePack.Proofs.PayloadPieces

/-! The positions of an output buffer, and whatever relies on their order. Each operation is done
once more here with its ranges, clamps and differences checked, so that it gives nothing where one
of these does not hold. While the positions are in order every check holds, and every operation
but one leaves them in order: the exception cuts the region and leaves the cursor behind. -/
namespace MessagePack

namespace Outgoing

variable {buffer : Outgoing}

/-- The region has to have as many cells as are claimed, and each of them is written. -/
def claim? (buffer : Outgoing) (needed : Nat) (bytes : List UInt8) : Option Outgoing := do
  let cells ← buffer.region.slice? buffer.current (buffer.current + needed)
  if cells.length = bytes.length then some (buffer.claim needed bytes) else none

/-- The bounds of a clamp have an order, and what is moved has to be there. -/
def discardFront? (buffer : Outgoing) (upto : Nat) : Option Outgoing := do
  let _ ← Position.sub? buffer.current buffer.start
  let upto := max buffer.start (min upto buffer.current)
  let removed ← Position.sub? upto buffer.start
  if removed = 0 then some buffer
  else
    let kept ← buffer.region.slice? upto buffer.current
    let current ← Position.sub? buffer.current removed
    some { buffer with
      region := buffer.region.overwrite buffer.start kept
      current
      barrier := buffer.barrier.map fun barrier => max (barrier - removed) buffer.start }

/-- The views of the buffer are in range. -/
structure InRange (buffer : Outgoing) : Prop where
  remaining : buffer.remaining? = some buffer.remaining
  packed : buffer.packed? = some buffer.packed
  pinned : buffer.pinned? = some buffer.pinned

namespace Sound

theorem ofRegion (region : Region) : (Outgoing.ofRegion region).Sound where
  start_le := Nat.le_refl _
  current_le := Nat.zero_le _
  barrier_bounds := nofun

theorem inRange (sound : buffer.Sound) : buffer.InRange where
  remaining := Position.sub?_of_le sound.current_le
  packed := Region.slice?_of_le sound.start_le sound.current_le
  pinned := by
    unfold pinned? pinned
    cases set : buffer.barrier with
    | none => rfl
    | some barrier =>
      exact Region.slice?_of_le (sound.barrier_bounds barrier set).2 sound.current_le

theorem claim? (sound : buffer.Sound) {bytes : List UInt8}
    (room : bytes.length ≤ buffer.remaining) :
    buffer.claim? bytes.length bytes = some (buffer.append bytes) := by
  have inside : buffer.current + bytes.length ≤ buffer.region.size := by
    have current_le := sound.current_le
    simp only [remaining, stop] at *
    omega
  have cells : (buffer.region.slice buffer.current (buffer.current + bytes.length)).length =
      bytes.length := by
    rw [Region.length_slice_of_le inside, Nat.add_sub_cancel_left]
  simp only [Outgoing.claim?, Region.slice?_of_le (Nat.le_add_right _ _) inside,
    Option.bind_eq_bind, Option.bind_some, if_pos cells]
  rfl

theorem discardFront? (sound : buffer.Sound) (upto : Nat) :
    buffer.discardFront? upto = some (buffer.discardFront upto) := by
  have start_le := sound.start_le
  simp only [Outgoing.discardFront?, Outgoing.discardFront]
  generalize clamped : max buffer.start (min upto buffer.current) = place
  have lower : buffer.start ≤ place := by omega
  have upper : place ≤ buffer.current := by omega
  have less : place - buffer.start ≤ buffer.current := by omega
  simp only [Position.sub?_of_le start_le, Position.sub?_of_le lower, Position.sub?_of_le less,
    Region.slice?_of_le upper sound.current_le, Option.bind_eq_bind, Option.bind_some, Region.move]
  split <;> rfl

theorem discardFront_any (sound : buffer.Sound) (upto : Nat) :
    (buffer.discardFront upto).Sound := by
  have start_le := sound.start_le
  have clamped : buffer.discardFront upto =
      buffer.discardFront (max buffer.start (min upto buffer.current)) := by
    have same : max buffer.start (min (max buffer.start (min upto buffer.current)) buffer.current) =
        max buffer.start (min upto buffer.current) := by omega
    simp only [Outgoing.discardFront, same]
  rw [clamped]
  exact (sound.discardFront (by omega) (by omega)).1

theorem resize (sound : buffer.Sound) {size : Nat} (fits : buffer.current ≤ size) :
    (buffer.resize size).2.Sound := by
  unfold Outgoing.resize
  cases granted : buffer.region.resize? size with
  | none => exact sound
  | some region =>
    refine ⟨sound.start_le, ?_, sound.barrier_bounds⟩
    simpa only [stop, Region.size_resize? granted] using fits

theorem growFor (sound : buffer.Sound) (needed : Nat) : (buffer.growFor needed).2.Sound := by
  have positive : 0 < max buffer.stop 1 := by omega
  have enough := (doubled_bounds (buffer.current + needed) positive).1
  simp only [Outgoing.growFor]
  split
  · exact sound
  · split
    · exact sound
    · exact sound.resize (by omega)

theorem poke? (sound : buffer.Sound) (position : Nat) (bytes : List UInt8) :
    ((buffer.poke? position bytes).getD buffer).Sound := by
  unfold Outgoing.poke?
  split
  · refine ⟨sound.start_le, ?_, sound.barrier_bounds⟩
    simpa [stop] using sound.current_le
  · exact sound

theorem withFailure (sound : buffer.Sound) (failure : Option String) :
    ({ buffer with failure } : Outgoing).Sound :=
  ⟨sound.start_le, sound.current_le, sound.barrier_bounds⟩

end Sound

theorem not_sound_resize {buffer : Outgoing} (sound : buffer.Sound) {size : Nat}
    (short : size < buffer.current) : ¬(buffer.resize size).2.Sound := by
  have below : size ≤ buffer.region.size :=
    Nat.le_trans (Nat.le_of_lt short) sound.current_le
  unfold resize
  cases granted : buffer.region.resize? size with
  | none => simp [Region.resize?, below] at granted
  | some region =>
    intro after
    have current_le := after.current_le
    simp only [stop, Region.size_resize? granted] at current_le
    omega

end Outgoing

/-- A handler with its work on the buffer done once more with checks. -/
class Outlet.Guarded (σ : Type) [Outlet σ] where
  makeRoom? : σ → Outgoing → Nat → Option (Outlet.Reply σ)
  flush? : σ → Outgoing → Option (Outlet.Reply σ)
  makeRoom_eq (handler : σ) {buffer : Outgoing} (sound : buffer.Sound) (needed : Nat) :
    makeRoom? handler buffer needed = some (Outlet.makeRoom handler buffer needed) ∧
      (Outlet.makeRoom handler buffer needed).buffer.Sound
  flush_eq (handler : σ) {buffer : Outgoing} (sound : buffer.Sound) :
    flush? handler buffer = some (Outlet.flush handler buffer) ∧
      (Outlet.flush handler buffer).buffer.Sound
  /-- Bytes that pass the buffer by leave its positions alone. -/
  write_sound (handler : σ) {buffer : Outgoing} (sound : buffer.Sound) (bytes : List UInt8) :
    (Outlet.write handler buffer bytes).buffer.Sound

instance : Outlet.Guarded Fixed where
  makeRoom? handler buffer needed := some (Outlet.makeRoom handler buffer needed)
  flush? handler buffer := some (Outlet.flush handler buffer)
  makeRoom_eq _ _ sound _ := ⟨rfl, sound⟩
  flush_eq _ _ sound := ⟨rfl, sound⟩
  write_sound _ _ sound _ := sound

/-- Growth checks all that it relies on by itself. -/
instance : Outlet.Guarded Growable where
  makeRoom? handler buffer needed := some (Outlet.makeRoom handler buffer needed)
  flush? handler buffer := some (Outlet.flush handler buffer)
  makeRoom_eq _ _ sound needed := ⟨rfl, sound.growFor needed⟩
  flush_eq _ _ sound := ⟨rfl, sound⟩
  write_sound _ _ sound _ := sound

namespace Sink

variable {buffer : Outgoing}

def drain? (sink : Sink) (buffer : Outgoing) : Option (Outlet.Reply Sink) :=
  let upto := buffer.barrier.getD buffer.current
  if upto ≤ buffer.start then some ⟨.ok (), sink, buffer⟩
  else do
    let pending ← buffer.region.slice? buffer.start upto
    match sink.output.writeAll pending with
    | (.ok _, output) =>
      let buffer ← buffer.discardFront? upto
      some ⟨.ok (), ⟨output⟩, buffer⟩
    | (.error text, output) => some (reply ⟨output⟩ buffer (.error text))

def makeRoom? (sink : Sink) (buffer : Outgoing) (needed : Nat) : Option (Outlet.Reply Sink) := do
  let drained ← sink.drain? buffer
  match drained.status with
  | .error _ => some drained
  | .ok _ =>
    let remaining ← drained.buffer.remaining?
    if needed ≤ remaining then some drained
    else
      let (status, buffer) := drained.buffer.growFor needed
      some ⟨status, drained.handler, buffer⟩

def flush? (sink : Sink) (buffer : Outgoing) : Option (Outlet.Reply Sink) := do
  let drained ← sink.drain? buffer
  match drained.status with
  | .error _ => some drained
  | .ok _ =>
    let (answer, output) := drained.handler.output.flush
    some (reply ⟨output⟩ drained.buffer answer)

theorem sound_reply (sink : Sink) (sound : buffer.Sound) (answer : Except String Unit) :
    (reply sink buffer answer).buffer.Sound := by
  cases answer with
  | ok => exact sound
  | error text => exact sound.withFailure _

theorem drain_eq (sink : Sink) (sound : buffer.Sound) :
    sink.drain? buffer = some (sink.drain buffer) ∧ (sink.drain buffer).buffer.Sound := by
  have upper : buffer.barrier.getD buffer.current ≤ buffer.current := by
    cases set : buffer.barrier with
    | none => exact Nat.le_refl _
    | some barrier => exact (sound.barrier_bounds barrier set).2
  simp only [drain?, drain]
  by_cases nothing : buffer.barrier.getD buffer.current ≤ buffer.start
  · simp only [if_pos nothing]
    exact ⟨trivial, sound⟩
  · have inside := Nat.le_trans upper sound.current_le
    simp only [if_neg nothing, Region.slice?_of_le (Nat.le_of_not_le nothing) inside,
      Option.bind_eq_bind, Option.bind_some]
    cases sink.output.writeAll _ with
    | mk answer output =>
      cases answer with
      | ok =>
        simp only [sound.discardFront?, Option.bind_some, true_and]
        exact sound.discardFront_any _
      | error text => exact ⟨rfl, sound_reply _ sound _⟩

theorem makeRoom_eq (sink : Sink) (sound : buffer.Sound) (needed : Nat) :
    sink.makeRoom? buffer needed = some (sink.makeRoom buffer needed) ∧
      (sink.makeRoom buffer needed).buffer.Sound := by
  obtain ⟨same, drained⟩ := sink.drain_eq sound
  simp only [makeRoom?, makeRoom, same, Option.bind_eq_bind, Option.bind_some]
  cases (sink.drain buffer).status with
  | error => exact ⟨rfl, drained⟩
  | ok =>
    simp only [drained.inRange.remaining, Option.bind_some]
    by_cases enough : needed ≤ (sink.drain buffer).buffer.remaining
    · simp only [if_pos enough]
      exact ⟨trivial, drained⟩
    · simp only [if_neg enough]
      exact ⟨trivial, drained.growFor needed⟩

theorem flush_eq (sink : Sink) (sound : buffer.Sound) :
    sink.flush? buffer = some (sink.flush buffer) ∧ (sink.flush buffer).buffer.Sound := by
  obtain ⟨same, drained⟩ := sink.drain_eq sound
  simp only [flush?, flush, same, Option.bind_eq_bind, Option.bind_some]
  cases (sink.drain buffer).status with
  | error => exact ⟨rfl, drained⟩
  | ok => exact ⟨rfl, sound_reply _ drained _⟩

end Sink

instance : Outlet.Guarded Sink where
  makeRoom? := Sink.makeRoom?
  flush? := Sink.flush?
  makeRoom_eq sink _ sound needed := sink.makeRoom_eq sound needed
  flush_eq sink _ sound := sink.flush_eq sound
  write_sound _ _ sound _ := Sink.sound_reply _ sound _

namespace Packer

open Outlet

variable {σ : Type} [Outlet σ] [Outlet.Guarded σ]

/-! ### Packers that check what they rely on -/

def reserve? (packer : Packer σ) (needed : Nat) : Option (Status × Packer σ) := do
  let remaining ← packer.buffer.remaining?
  if needed ≤ remaining then some (.ok (), packer)
  else
    let reply ← Guarded.makeRoom? packer.handler packer.buffer needed
    match packer.settle reply with
    | (.error fault, packer) => some (.error fault, packer)
    | (.ok _, packer) =>
      let remaining ← packer.buffer.remaining?
      if needed ≤ remaining then some (.ok (), packer) else some (.error .bufferOverflow, packer)

def claim? (packer : Packer σ) (needed : Nat) (bytes : List UInt8) :
    Option (Status × Packer σ) := do
  match ← packer.reserve? needed with
  | (.error fault, packer) => some (.error fault, packer)
  | (.ok _, packer) =>
    let buffer ← packer.buffer.claim? needed bytes
    some (.ok (), { packer with buffer })

omit [Outlet σ] [Outlet.Guarded σ] in
def attempt? (packer : Packer σ) (call : Packer σ → Option (Status × Packer σ)) :
    Option (Status × Packer σ) :=
  match packer.fault with
  | some fault => some (.error fault, packer)
  | none => (call packer).map fun result => packer.attempt fun _ => result

def pack? (packer : Packer σ) (value : Value) : Option (Status × Packer σ) :=
  packer.attempt? fun packer =>
    match value.encode packer.dialect with
    | .error fault => some (.error fault, packer)
    | .ok bytes => packer.claim? (value.needed packer.dialect) bytes

def insert? (packer : Packer σ) (bytes : List UInt8) : Option (Status × Packer σ) :=
  packer.attempt? fun packer =>
    if canFlush packer.handler ∧ canWrite packer.handler ∧ packer.buffer.barrier = none then do
      let reply ← Guarded.flush? packer.handler packer.buffer
      match packer.settle reply with
      | (.error fault, packer) => some (.error fault, packer)
      | (.ok _, packer) =>
        some (packer.settle (write packer.handler packer.buffer bytes))
    else packer.claim? bytes.length bytes

def flush? (packer : Packer σ) : Option (Status × Packer σ) :=
  packer.attempt? fun packer =>
    if canFlush packer.handler then
      (Guarded.flush? packer.handler packer.buffer).map packer.settle
    else some (.error .illegalCall, packer)

/-- Pinned bytes can be written over only where they can be had. -/
def call? (call : Call) (packer : Packer σ) : Option (Status × Packer σ) :=
  match call with
  | .pack value => packer.pack? value
  | .insert bytes => packer.insert? bytes
  | .flush => packer.flush?
  | .patch position bytes =>
    packer.buffer.pinned?.map fun _ => packer.call (.patch position bytes)
  | other => some (packer.call other)

/-- All that can be done to a packer and its buffer, short of setting positions by hand. -/
inductive Operation where
  | call (call : Call)
  | discardFront (upto : Nat)
  | growFor (needed : Nat)
  | resize (size : Nat)
  /-- Writes over any bytes of the region, if there are so many. -/
  | poke (position : Nat) (bytes : List UInt8)
  | setFailure (failure : Option String)
  deriving DecidableEq, Repr

def operate (operation : Operation) (packer : Packer σ) : Status × Packer σ :=
  match operation with
  | .call call => packer.call call
  | .discardFront upto => (.ok (), { packer with buffer := packer.buffer.discardFront upto })
  | .growFor needed =>
    let (status, buffer) := packer.buffer.growFor needed
    (status, { packer with buffer })
  | .resize size =>
    let (status, buffer) := packer.buffer.resize size
    (status, { packer with buffer })
  | .poke position bytes =>
    (.ok (), { packer with buffer := (packer.buffer.poke? position bytes).getD packer.buffer })
  | .setFailure failure => (.ok (), { packer with buffer := { packer.buffer with failure } })

def operate? (operation : Operation) (packer : Packer σ) : Option (Status × Packer σ) :=
  match operation with
  | .call call => packer.call? call
  | .discardFront upto =>
    (packer.buffer.discardFront? upto).map fun buffer => (.ok (), { packer with buffer })
  | other => some (packer.operate other)

def carry : List Operation → Packer σ → List Status × Packer σ
  | [], packer => ([], packer)
  | operation :: operations, packer =>
    let (answer, packer) := packer.operate operation
    let (answers, packer) := packer.carry operations
    (answer :: answers, packer)

def carry? : List Operation → Packer σ → Option (List Status × Packer σ)
  | [], packer => some ([], packer)
  | operation :: operations, packer => do
    let (answer, packer) ← packer.operate? operation
    let (answers, packer) ← packer.carry? operations
    some (answer :: answers, packer)

def Fits (operation : Operation) (packer : Packer σ) : Prop :=
  match operation with
  | .resize size => packer.buffer.current ≤ size
  | _ => True

def Fitting : List Operation → Packer σ → Prop
  | [], _ => True
  | operation :: operations, packer =>
    packer.Fits operation ∧ Fitting operations (packer.operate operation).2

/-- What was checked is what is done without checks, and the positions are in order behind it. -/
structure Safe (checked : Option (Status × Packer σ)) (result : Status × Packer σ) : Prop where
  same : checked = some result
  sound : result.2.buffer.Sound

/-- A run that never leaves a range, and what can be had behind it. -/
structure Kept (packer : Packer σ) (operations : List Operation) : Prop where
  same : packer.carry? operations = some (packer.carry operations)
  sound : (packer.carry operations).2.buffer.Sound
  inRange : (packer.carry operations).2.buffer.InRange

variable {packer : Packer σ}

theorem safe_reserve (sound : packer.buffer.Sound) (needed : Nat) :
    Safe (packer.reserve? needed) (packer.reserve needed) := by
  obtain ⟨made, after⟩ := Guarded.makeRoom_eq packer.handler sound needed
  simp only [reserve?, reserve, sound.inRange.remaining, made, Option.bind_eq_bind,
    Option.bind_some]
  by_cases room : needed ≤ packer.buffer.remaining
  · simp only [if_pos room]
    exact ⟨rfl, sound⟩
  · simp only [if_neg room, settle]
    cases (makeRoom packer.handler packer.buffer needed).status with
    | error fault => exact ⟨rfl, after⟩
    | ok =>
      simp only [after.inRange.remaining, Option.bind_some]
      split
      · exact ⟨rfl, after⟩
      · exact ⟨rfl, after⟩

omit [Outlet.Guarded σ] in
theorem room_of_reserve {needed : Nat} {after : Packer σ}
    (made : packer.reserve needed = (.ok (), after)) : needed ≤ after.buffer.remaining := by
  unfold reserve at made
  split at made
  · cases made
    assumption
  · split at made
    · cases made
    · split at made <;> cases made
      assumption

theorem safe_emit (sound : packer.buffer.Sound) (bytes : List UInt8) :
    Safe (packer.claim? bytes.length bytes) (packer.emit bytes) := by
  obtain ⟨same, after⟩ := safe_reserve sound bytes.length
  simp only [claim?, emit_eq, same, Option.bind_eq_bind, Option.bind_some]
  cases made : packer.reserve bytes.length with
  | mk status ready =>
    rw [made] at after
    cases status with
    | error fault => exact ⟨rfl, after⟩
    | ok =>
      have room := room_of_reserve made
      simp only [after.claim? room, Option.bind_some]
      exact ⟨rfl, after.append room⟩

omit [Outlet σ] [Outlet.Guarded σ] in
theorem safe_attempt (sound : packer.buffer.Sound)
    {checked : Packer σ → Option (Status × Packer σ)} {call : Packer σ → Status × Packer σ}
    (safe : Safe (checked packer) (call packer)) :
    Safe (packer.attempt? checked) (packer.attempt call) := by
  obtain ⟨same, after⟩ := safe
  unfold attempt? attempt
  cases packer.fault with
  | some fault => exact ⟨rfl, sound⟩
  | none =>
    simp only [same, Option.map_some]
    cases result : call packer with
    | mk status done =>
      rw [result] at after
      cases status <;> exact ⟨rfl, after⟩

theorem safe_insert (sound : packer.buffer.Sound) (bytes : List UInt8) :
    Safe (packer.insert? bytes) (packer.insert bytes) := by
  obtain ⟨flushed, after⟩ := Guarded.flush_eq packer.handler sound
  apply safe_attempt sound
  by_cases passes : canFlush packer.handler ∧ canWrite packer.handler ∧
      packer.buffer.barrier = none
  · simp only [if_pos passes, flushed, Option.bind_eq_bind, Option.bind_some, settle]
    cases (Outlet.flush packer.handler packer.buffer).status with
    | error fault => exact ⟨rfl, after⟩
    | ok => exact ⟨rfl, Guarded.write_sound _ after bytes⟩
  · simp only [if_neg passes]
    exact safe_emit sound bytes

theorem safe_flush (sound : packer.buffer.Sound) : Safe packer.flush? packer.flush := by
  obtain ⟨flushed, after⟩ := Guarded.flush_eq packer.handler sound
  apply safe_attempt sound
  by_cases passes : canFlush packer.handler
  · simp only [if_pos passes, flushed, Option.map_some]
    exact ⟨rfl, after⟩
  · simp only [if_neg passes]
    exact ⟨rfl, sound⟩

theorem safe_call (sound : packer.buffer.Sound) (call : Call) :
    Safe (packer.call? call) (packer.call call) := by
  cases call with
  | pack value =>
    apply safe_attempt sound
    cases encoded : value.encode packer.dialect with
    | error fault => exact ⟨rfl, sound⟩
    | ok bytes =>
      dsimp only
      rw [← Value.length_encode encoded]
      exact safe_emit sound bytes
  | insert bytes => exact safe_insert sound bytes
  | flush => exact safe_flush sound
  | setCompatible compatible => exact ⟨rfl, sound⟩
  | setBarrier => exact ⟨rfl, sound.setBarrier⟩
  | clearBarrier => exact ⟨rfl, sound.clearBarrier⟩
  | patch position bytes =>
    simp only [call?, sound.inRange.pinned, Option.map_some]
    exact ⟨rfl, sound.patch? position bytes⟩

/-- One step. Only a cut can break the order of the positions, and its checks hold even so. -/
theorem operate_eq (sound : packer.buffer.Sound) (operation : Operation) :
    packer.operate? operation = some (packer.operate operation) ∧
      (packer.Fits operation ↔ (packer.operate operation).2.buffer.Sound) := by
  have always {checked : Option (Status × Packer σ)} {result : Status × Packer σ}
      (safe : Safe checked result) : checked = some result ∧ (True ↔ result.2.buffer.Sound) :=
    ⟨safe.same, iff_of_true trivial safe.sound⟩
  cases operation with
  | call call => exact always (safe_call sound call)
  | discardFront upto =>
    refine always ⟨?_, sound.discardFront_any upto⟩
    simp only [operate?, operate, sound.discardFront?, Option.map_some]
  | growFor needed => exact always ⟨rfl, sound.growFor needed⟩
  | resize size =>
    refine ⟨rfl, fun fits => sound.resize fits, fun after => Nat.le_of_not_lt fun short => ?_⟩
    exact Outgoing.not_sound_resize sound short after
  | poke position bytes => exact always ⟨rfl, sound.poke? position bytes⟩
  | setFailure failure => exact always ⟨rfl, sound.withFailure failure⟩

theorem kept_of_fitting (sound : packer.buffer.Sound) {operations : List Operation}
    (fitting : packer.Fitting operations) : packer.Kept operations := by
  induction operations generalizing packer with
  | nil => exact ⟨rfl, sound, sound.inRange⟩
  | cons operation operations ih =>
    obtain ⟨fits, rest⟩ := fitting
    obtain ⟨same, keeps⟩ := operate_eq sound operation
    obtain ⟨others, after, inRange⟩ := ih (keeps.mp fits) rest
    refine ⟨?_, after, inRange⟩
    simp only [carry?, carry, same, others, Option.bind_eq_bind, Option.bind_some]

theorem fitting_iff (sound : packer.buffer.Sound) (operations : List Operation) :
    packer.Fitting operations ↔
      ∀ before, before <+: operations → (packer.carry before).2.buffer.Sound := by
  induction operations generalizing packer with
  | nil =>
    refine iff_of_true trivial fun before isFront => ?_
    rw [List.prefix_nil.mp isFront]
    exact sound
  | cons operation operations ih =>
    have keeps := (operate_eq sound operation).2
    constructor
    · rintro ⟨fits, rest⟩ before isFront
      cases before with
      | nil => exact sound
      | cons first before =>
        obtain ⟨rfl, shorter⟩ := List.cons_prefix_cons.mp isFront
        exact (ih (keeps.mp fits)).mp rest before shorter
    · intro held
      have after := held [operation] (by simp)
      refine ⟨keeps.mpr after, (ih after).mpr fun before isFront => ?_⟩
      exact held (operation :: before) (List.cons_prefix_cons.mpr ⟨rfl, isFront⟩)

/-- Positions in order. Over any region, with any handler of the library, whatever is called and
however large the sizes are: as long as no cut of the region is in front of the cursor, nothing
that is done relies on a range, a clamp or a difference that does not hold, so faults are answers,
and all views of the buffer can be had. Such a cut, and nothing else, breaks the order. -/
theorem positions_kept (region : Region) (handler : σ) (dialect : Dialect)
    (operations : List Operation) :
    let packer := new (.ofRegion region) handler dialect
    (packer.Fitting operations → packer.Kept operations) ∧
      (packer.Fitting operations ↔
        ∀ before, before <+: operations → (packer.carry before).2.buffer.Sound) := by
  intro packer
  have begins : packer.buffer.Sound := .ofRegion region
  exact ⟨kept_of_fitting begins, fitting_iff begins operations⟩

/-- A stream that is drained for more than the region holds, a cut right behind the cursor, more
than the allocator grants, and more to be dropped than there is. -/
theorem positions_kept_drained :
    let packer := new (.ofRegion (.zeros 4)) (Sink.mk (.ofPlan .steady)) ⟨false, .native⟩
    let operations : List Operation := [.call (.pack (.unsigned 5)), .call .setBarrier,
      .call (.insert [1, 2, 3, 4, 5]), .resize 5, .growFor 20, .resize 0xffffffffffffffff,
      .discardFront 100, .call .flush]
    packer.Fitting operations ∧ packer.Kept operations ∧
      (packer.carry operations).1 =
        [.ok (), .ok (), .ok (), .ok (), .ok (), .error .allocationError, .ok (), .ok ()] := by
  intro packer operations
  have fitting : packer.Fitting operations :=
    ⟨trivial, trivial, trivial, by cbv, trivial, by cbv, trivial, trivial, trivial⟩
  have kept := positions_kept (.zeros 4) (Sink.mk (.ofPlan .steady)) ⟨false, .native⟩ operations
  exact ⟨fitting, kept.1 fitting, by cbv⟩

/-- A byte is packed and the region cut to nothing: both calls answer that all is well, but the
cursor is behind the end of the region, and what comes next is out of range. -/
theorem positions_cut :
    let packer := growable 4 ⟨false, .native⟩
    let operations : List Operation := [.call (.pack .nil), .resize 0]
    let after := (packer.carry operations).2
    (packer.carry operations).1 = [.ok (), .ok ()] ∧
      (after.buffer.start, after.buffer.current, after.buffer.stop) = (0, 1, 0) ∧
      ¬after.buffer.Sound ∧ after.buffer.packed? = none ∧ after.buffer.remaining? = none ∧
      (after.carry? [.call (.pack .nil)]).isNone := by
  intro packer operations after
  refine ⟨rfl, rfl, fun sound => ?_, rfl, rfl, rfl⟩
  exact absurd sound.current_le (by decide)

end Packer
end MessagePack
