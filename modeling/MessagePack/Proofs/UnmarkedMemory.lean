import MessagePack.Proofs.MemoryMeter

/-! What an unpacker that sets no barrier can do with. Nothing is kept in front of the cursor
then, so that a buffer is never asked to hold more than one request, however long the input is.
An allocator that grants the largest request grants all that is asked for, and what is read
is what would be read with memory without end. -/
namespace MessagePack

namespace Region

/-- The same region with an allocator that grants as much as `ceiling` bytes. -/
def withCeiling (region : Region) (ceiling : Nat) : Region := { region with ceiling }

theorem overwrite_withCeiling (region : Region) (ceiling position : Nat) (new : List UInt8) :
    (region.withCeiling ceiling).overwrite position new =
      (region.overwrite position new).withCeiling ceiling := by
  induction new generalizing region position with
  | nil => rfl
  | cons byte new ih => exact ih ⟨region.bytes.setIfInBounds position byte, region.ceiling⟩ _

theorem resize?_withCeiling {region : Region} {ceiling size : Nat}
    (grants : size ≤ region.ceiling) (granted : size ≤ ceiling) :
    (region.withCeiling ceiling).resize? size =
      (region.resize? size).map (withCeiling · ceiling) := by
  simp only [resize?, withCeiling, if_pos grants]
  by_cases shorter : size ≤ region.size
  · rw [if_pos shorter]
    exact if_pos shorter
  · rw [if_neg shorter]
    exact (if_neg shorter).trans (if_pos granted)

end Region

namespace Incoming

variable {buffer : Incoming} {ceiling needed : Nat}

theorem compact_withCeiling (buffer : Incoming) (ceiling : Nat) :
    (buffer.withCeiling ceiling).compact = buffer.compact.withCeiling ceiling := by
  simp only [compact]
  by_cases whole : max buffer.start (min (buffer.barrier.getD buffer.current) buffer.current) = 0
  · rw [if_pos whole]
    exact if_pos whole
  · rw [if_neg whole]
    refine (if_neg whole).trans ?_
    have moved := buffer.region.overwrite_withCeiling ceiling 0 (buffer.region.slice
      (max buffer.start (min (buffer.barrier.getD buffer.current) buffer.current)) buffer.stop)
    exact congrArg (fun region => Incoming.mk region _ _ _ _ _ _) moved

theorem fill_withCeiling (buffer : Incoming) (ceiling : Nat) (bytes : List UInt8) :
    (buffer.withCeiling ceiling).fill bytes = (buffer.fill bytes).withCeiling ceiling :=
  congrArg (fun region => { buffer with region })
    (buffer.region.overwrite_withCeiling ceiling buffer.stop bytes)

theorem commit_withCeiling (buffer : Incoming) (ceiling count : Nat) :
    (buffer.withCeiling ceiling).commit count = (buffer.commit count).withCeiling ceiling := rfl

theorem growToward_withCeiling (grants : buffer.current + needed ≤ buffer.region.ceiling)
    (granted : buffer.current + needed ≤ ceiling) :
    (buffer.withCeiling ceiling).growToward needed =
      (buffer.growToward needed).map id (withCeiling · ceiling) := by
  have below : min (2 * max buffer.capacity 1) (buffer.current + needed) ≤
      buffer.current + needed := Nat.min_le_right _ _
  have resized := Region.resize?_withCeiling (Nat.le_trans below grants)
    (Nat.le_trans below granted)
  have current : (buffer.withCeiling ceiling).current = buffer.current := rfl
  have capacity : (buffer.withCeiling ceiling).capacity = buffer.capacity := rfl
  have region : (buffer.withCeiling ceiling).region = buffer.region.withCeiling ceiling := rfl
  simp only [growToward, current, capacity, region, resized]
  split
  · rfl
  split
  · rfl
  cases buffer.region.resize? (min (2 * max buffer.capacity 1) (buffer.current + needed)) <;> rfl

theorem compact_of_unmarked (unmarked : buffer.barrier = none)
    (ordered : buffer.start ≤ buffer.current) :
    buffer.compact.start = 0 ∧ buffer.compact.current = 0 ∧ buffer.compact.barrier = none := by
  have keep : max buffer.start (min (buffer.barrier.getD buffer.current) buffer.current) =
      buffer.current := by
    rw [unmarked, Option.getD_none, Nat.min_self, Nat.max_eq_right ordered]
  simp only [compact, keep]
  by_cases blank : buffer.current = 0
  · rw [if_pos blank]
    exact ⟨by omega, blank, unmarked⟩
  · rw [if_neg blank]
    exact ⟨rfl, Nat.sub_self _, congrArg (Option.map _) unmarked⟩

end Incoming

namespace Source

variable {buffer : Incoming} {ceiling needed : Nat}

theorem openRoom_withCeiling (grants : buffer.current + needed ≤ buffer.region.ceiling)
    (granted : buffer.current + needed ≤ ceiling) :
    openRoom (buffer.withCeiling ceiling) needed =
      (openRoom buffer needed).map id (Incoming.withCeiling · ceiling) := by
  simp only [openRoom]
  by_cases full : buffer.stop = buffer.capacity
  · rw [if_pos full]
    exact (if_pos full).trans (Incoming.growToward_withCeiling grants granted)
  · rw [if_neg full]
    exact if_neg full

/-- What a buffer keeps while bytes are put behind those that it has. -/
structure KeepsPositions (before after : Incoming) : Prop where
  start : after.start = before.start
  current : after.current = before.current
  barrier : after.barrier = before.barrier
  ceiling : after.region.ceiling = before.region.ceiling

theorem KeepsPositions.trans {before between after : Incoming}
    (first : KeepsPositions before between) (second : KeepsPositions between after) : KeepsPositions before after where
  start := second.start.trans first.start
  current := second.current.trans first.current
  barrier := second.barrier.trans first.barrier
  ceiling := second.ceiling.trans first.ceiling

theorem keepsPositions_openRoom {grown : Incoming} {status : Status}
    (opened : openRoom buffer needed = (status, grown)) : KeepsPositions buffer grown := by
  unfold openRoom at opened
  split at opened
  · cases status with
    | error fault =>
      obtain ⟨rfl, _⟩ := Incoming.growToward_eq_error opened
      exact ⟨rfl, rfl, rfl, rfl⟩
    | ok _ =>
      rcases Incoming.growToward_eq_ok opened with ⟨_, rfl⟩ | ⟨region, resized, _, rfl⟩
      · exact ⟨rfl, rfl, rfl, rfl⟩
      · exact ⟨rfl, rfl, rfl, Region.ceiling_resize? resized⟩
  · cases opened
    exact ⟨rfl, rfl, rfl, rfl⟩

theorem keepsPositions_commit (buffer : Incoming) (bytes : List UInt8) (count : Nat) :
    KeepsPositions buffer ((buffer.fill bytes).commit count) :=
  ⟨rfl, rfl, rfl, Region.ceiling_overwrite ..⟩

theorem keepsPositions_readUntil (input : Input) (buffer : Incoming) (needed : Nat) :
    KeepsPositions buffer (readUntil input buffer needed).buffer := by
  fun_induction readUntil input buffer needed with
  | case1 => exact ⟨rfl, rfl, rfl, rfl⟩
  | case2 _ _ _ _ _ opened => exact keepsPositions_openRoom opened
  | case3 _ _ _ _ _ opened =>
    have kept := keepsPositions_openRoom opened
    exact ⟨kept.start, kept.current, kept.barrier, kept.ceiling⟩
  | case4 _ _ _ _ _ opened => exact keepsPositions_openRoom opened
  | case5 _ _ _ _ grown opened byte bytes _ _ ih =>
    exact ((keepsPositions_openRoom opened).trans (keepsPositions_commit grown _ _)).trans ih
  | case6 _ _ _ _ _ opened _ _ ih => exact (keepsPositions_openRoom opened).trans ih

/-- Reading goes the same way with any two allocators that grant the request. -/
theorem readUntil_withCeiling (input : Input)
    (grants : buffer.current + needed ≤ buffer.region.ceiling)
    (granted : buffer.current + needed ≤ ceiling) :
    readUntil input (buffer.withCeiling ceiling) needed =
      ⟨(readUntil input buffer needed).status, (readUntil input buffer needed).handler,
        (readUntil input buffer needed).buffer.withCeiling ceiling⟩ := by
  fun_induction readUntil input buffer needed with
  | case1 input buffer enough =>
    rw [readUntil]
    exact if_pos enough
  | case2 input buffer short fault grown opened =>
    have same := openRoom_withCeiling grants granted
    rw [opened] at same
    rw [readUntil]
    refine (if_neg short).trans ?_
    rw [same]
    rfl
  | case3 input buffer short _ grown opened text next read =>
    have same := openRoom_withCeiling grants granted
    rw [opened] at same
    exact @readUntil_of_read _ _ (buffer.withCeiling ceiling) (grown.withCeiling ceiling) _ _ short
      same read
  | case4 input buffer short _ grown opened next read =>
    have same := openRoom_withCeiling grants granted
    rw [opened] at same
    exact @readUntil_of_read _ _ (buffer.withCeiling ceiling) (grown.withCeiling ceiling) _ _ short
      same read
  | case5 input buffer short _ grown opened byte bytes next read ih =>
    have same := openRoom_withCeiling grants granted
    rw [opened] at same
    have filled := keepsPositions_commit grown (byte :: bytes) (bytes.length + 1)
    have kept := (keepsPositions_openRoom opened).trans filled
    refine (@readUntil_of_read _ _ (buffer.withCeiling ceiling) (grown.withCeiling ceiling) _ _
      short same read).trans ?_
    dsimp only
    rw [Incoming.fill_withCeiling, Incoming.commit_withCeiling]
    exact ih (by rw [kept.current, kept.ceiling]; exact grants)
      (by rw [kept.current]; exact granted)
  | case6 input buffer short _ grown opened next read ih =>
    have same := openRoom_withCeiling grants granted
    rw [opened] at same
    have kept := keepsPositions_openRoom opened
    refine (@readUntil_of_read _ _ (buffer.withCeiling ceiling) (grown.withCeiling ceiling) _ _
      short same read).trans ?_
    exact ih (by rw [kept.current, kept.ceiling]; exact grants)
      (by rw [kept.current]; exact granted)

end Source

/-- A source whose allocator grants as much as `ceiling` bytes for any request that an item
makes, and leaves the buffer its own. -/
structure Generous where
  source : Source
  ceiling : Nat

namespace Generous

instance : Inlet Generous where
  refill handler buffer needed :=
    if needed ≤ Scan.largest then
      let reply := handler.source.refill (buffer.withCeiling handler.ceiling) needed
      ⟨reply.status, ⟨reply.handler, handler.ceiling⟩,
        reply.buffer.withCeiling buffer.region.ceiling⟩
    else
      let reply := handler.source.refill buffer needed
      ⟨reply.status, ⟨reply.handler, handler.ceiling⟩, reply.buffer⟩
  supply handler := Inlet.supply handler.source
  refill_le handler buffer needed := by
    dsimp only
    split
    · exact Inlet.refill_le handler.source (buffer.withCeiling handler.ceiling) needed
    · exact Inlet.refill_le handler.source buffer needed

instance : Feed Generous where
  pending handler := handler.source.input.pending
  Faithful handler whole closing _ :=
    Feed.Faithful handler.source whole closing handler.ceiling
  refill_brings {handler buffer whole closing needed} window faithful short request := by
    obtain ⟨served, after⟩ := @Feed.refill_brings _ _ _ handler.source _ _ _ _
      (window.withCeiling handler.ceiling) faithful short request
    have same : Refiller.refill handler buffer needed = _ := if_pos request
    rw [same]
    exact ⟨⟨served.window.withCeiling _, served.offset, served.mark, rfl, served.status,
      served.enough⟩, after⟩

/-- A source, with the same one beside it that is given more memory, and a buffer that keeps
nothing that has been read. -/
structure Affords (buffer : Incoming) (source : Source) (handler : Generous) : Prop where
  same : handler.source = source
  unmarked : buffer.barrier = none
  ordered : buffer.start ≤ buffer.current
  grants : Scan.largest ≤ buffer.region.ceiling
  granted : Scan.largest ≤ handler.ceiling

theorem ties : Inlet.Match Affords where
  advance affords _ := ⟨affords.same, affords.unmarked,
    Nat.le_trans affords.ordered (Nat.le_add_right _ _), affords.grants, affords.granted⟩
  refill {buffer source handler needed} affords _ := by
    obtain ⟨rfl, unmarked, ordered, grants, granted⟩ := affords
    obtain ⟨started, blank, released⟩ := Incoming.compact_of_unmarked unmarked ordered
    have kept := Source.keepsPositions_readUntil handler.source.input buffer.compact needed
    have ceiling := kept.ceiling.trans buffer.ceiling_compact
    have stays : Affords (Refiller.refill handler.source buffer needed).buffer
        (Refiller.refill handler.source buffer needed).handler
        ⟨(Refiller.refill handler.source buffer needed).handler, handler.ceiling⟩ :=
      ⟨rfl, kept.barrier.trans released,
        Nat.le_trans (Nat.le_of_eq (kept.start.trans started)) (Nat.zero_le _),
        Nat.le_trans grants (Nat.le_of_eq ceiling.symm), granted⟩
    by_cases request : needed ≤ Scan.largest
    · have same : Refiller.refill handler buffer needed = _ := if_pos request
      -- The request starts at the front of the buffer, so both allocators grant it.
      have own : buffer.compact.current + needed ≤ buffer.compact.region.ceiling := by
        rw [blank, buffer.ceiling_compact, Nat.zero_add]
        exact Nat.le_trans request grants
      have other : buffer.compact.current + needed ≤ handler.ceiling := by
        rw [blank, Nat.zero_add]
        exact Nat.le_trans request granted
      have more := Source.readUntil_withCeiling handler.source.input own other
      rw [← buffer.compact_withCeiling] at more
      have generous : handler.source.refill (buffer.withCeiling handler.ceiling) needed = _ := more
      dsimp only
      rw [same, generous]
      refine ⟨rfl, ?_, stays⟩
      change (_ : Incoming).withCeiling _ = _
      rw [← ceiling]
      rfl
    · have same : Refiller.refill handler buffer needed = _ := if_neg request
      dsimp only
      rw [same]
      exact ⟨rfl, rfl, stays⟩

end Generous

theorem Reading.outcomes_next (calls : List Unpacker.Call) (reading : Reading) :
    reading.outcomes (.next :: calls) =
      ⟨reading.next.1.map .item, reading.next.2.position, reading.next.2.status⟩ ::
        reading.next.2.outcomes calls := rfl

namespace Unpacker

theorem outcomes_next [Inlet σ] (calls : List Call) (unpacker : Unpacker σ) :
    unpacker.outcomes (.next :: calls) =
      ⟨unpacker.next.1.map .item, unpacker.next.2.offset, unpacker.next.2.status⟩ ::
        unpacker.next.2.outcomes calls := rfl

/-- The unpacker stands where the reading stands, and its allocator grants whatever an item
asks for. -/
def Tracks (unpacker : Unpacker Source) (reading : Reading) : Prop :=
  ∃ twin : Unpacker Generous, unpacker.Matches Generous.Affords twin ∧ twin.Follows reading

namespace Tracks

variable {unpacker : Unpacker Source} {reading : Reading}

theorem offset (tracks : unpacker.Tracks reading) : unpacker.offset = reading.position := by
  obtain ⟨twin, same, follows⟩ := tracks
  exact (congrArg Incoming.offset same.buffer).symm.trans follows.offset

theorem fault (tracks : unpacker.Tracks reading) : unpacker.fault = reading.fault := by
  obtain ⟨twin, same, follows⟩ := tracks
  exact same.fault.symm.trans follows.fault

theorem status (tracks : unpacker.Tracks reading) : unpacker.status = reading.status := by
  rw [Unpacker.status, tracks.fault]
  rfl

theorem next (tracks : unpacker.Tracks reading) :
    unpacker.next.1 = reading.next.1 ∧ unpacker.next.2.Tracks reading.next.2 := by
  obtain ⟨twin, same, follows⟩ := tracks
  obtain ⟨answer, stays⟩ := Generous.ties.next same
  obtain ⟨expected, goesOn⟩ := follows.next
  exact ⟨answer.symm.trans expected, _, stays, goesOn⟩

theorem outcomes (tracks : unpacker.Tracks reading) (count : Nat) :
    unpacker.outcomes (.replicate count .next) = reading.outcomes (.replicate count .next) := by
  induction count generalizing unpacker reading with
  | zero => rfl
  | succ count ih =>
    obtain ⟨answer, stays⟩ := tracks.next
    rw [List.replicate_succ, outcomes_next, Reading.outcomes_next, answer, stays.offset,
      stays.status, ih stays]

end Tracks

/-- A stream that delivers is read with the memory that the address space has room for, however
long it is. -/
theorem tracks_ofInput {input : Input} {closing : Fault} (delivers : input.Delivers closing)
    (size : input.pending.length + Scan.largest < Position.modulus) (capacity : Nat)
    (order : ByteOrder) :
    (ofInput input capacity order).Tracks (.start input.pending closing order) := by
  have roomy : Roomy input.pending (max Scan.largest (2 * max input.pending.length 1)) :=
    ⟨size, Nat.le_max_right _ _⟩
  have enough : Scan.largest ≤ Region.addressSpace := by decide
  let handler : Generous := ⟨⟨input⟩, max Scan.largest (2 * max input.pending.length 1)⟩
  have follows := Follows.new handler (.ofCapacity input.pending
    (if capacity = 0 then defaultCapacity else capacity)) rfl rfl ⟨delivers, roomy⟩ order
  exact ⟨_, ⟨rfl, rfl, rfl, rfl, rfl, rfl, Nat.le_refl _, enough, Nat.le_max_left _ _⟩, follows⟩

end Unpacker
end MessagePack
