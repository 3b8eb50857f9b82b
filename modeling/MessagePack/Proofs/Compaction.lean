import MessagePack.Proofs.InputWindow

/-! Compaction as the callers of a buffer see it: not at all. The bytes from the barrier on, or
the unread ones without a barrier, move to the front, and every position moves down by as much as
they do. The bytes that are dropped from behind the start are counted, which need not be as many:
what lies before the start is no input. -/
namespace MessagePack

namespace Incoming

/-- The positions of the buffer are in order. -/
structure Ordered (buffer : Incoming) : Prop where
  start_le : buffer.start ≤ buffer.current
  current_le : buffer.current ≤ buffer.stop
  stop_le : buffer.stop ≤ buffer.capacity
  barrier_bounds : ∀ barrier, buffer.barrier = some barrier →
    buffer.start ≤ barrier ∧ barrier ≤ buffer.current

def kept (buffer : Incoming) : Nat := buffer.barrier.getD buffer.current

/-- What compaction leaves as it was, and what it brings about. -/
structure Compacts (before after : Incoming) : Prop where
  unread : after.unread = before.unread
  pinned : after.pinned = before.pinned
  offset : after.offset = before.offset
  capacity : after.capacity = before.capacity
  barrier : after.barrier.isSome = before.barrier.isSome
  ordered : after.Ordered
  start : after.start = 0
  front : after.kept = 0
  contents : after.region.slice 0 after.stop = before.region.slice before.kept before.stop
  discarded : after.discarded = before.discarded + (before.kept - before.start)
  again : after.compact = after

namespace Ordered

variable {buffer : Incoming}

theorem kept_bounds (ordered : buffer.Ordered) :
    buffer.start ≤ buffer.kept ∧ buffer.kept ≤ buffer.current := by
  have start_le := ordered.start_le
  unfold kept
  cases set : buffer.barrier with
  | none => exact ⟨start_le, Nat.le_refl _⟩
  | some barrier => exact ordered.barrier_bounds barrier set

/-- With positions in order there is nothing to clamp, and no case in which nothing is to be
done: a move by nothing moves nothing. -/
theorem compact_eq (ordered : buffer.Ordered) :
    buffer.compact = { buffer with
      region := buffer.region.move buffer.kept buffer.stop 0
      start := 0
      current := buffer.current - buffer.kept
      stop := buffer.stop - buffer.kept
      discarded := buffer.discarded + (buffer.kept - buffer.start)
      barrier := buffer.barrier.map (· - buffer.kept) } := by
  obtain ⟨lower, upper⟩ := ordered.kept_bounds
  have clamped : max buffer.start (min (buffer.barrier.getD buffer.current) buffer.current) =
      buffer.kept := by
    unfold kept at *
    omega
  simp only [compact, clamped]
  split
  · rename_i zero
    have start : buffer.start = 0 := by omega
    have still := Region.move_self (Nat.zero_le buffer.stop) ordered.stop_le
    obtain ⟨region, _, current, stop, discarded, barrier, failure⟩ := buffer
    cases start
    simp [zero, still]
  · rfl

theorem compact (ordered : buffer.Ordered) : buffer.compact.Ordered := by
  obtain ⟨lower, upper⟩ := ordered.kept_bounds
  have current_le := ordered.current_le
  have stop_le := ordered.stop_le
  rw [ordered.compact_eq]
  constructor
  · exact Nat.zero_le _
  · exact Nat.sub_le_sub_right current_le _
  · simp only [capacity, Region.size_move] at *
    omega
  · intro barrier set
    obtain ⟨old, was, rfl⟩ := Option.map_eq_some_iff.mp set
    have below := (ordered.barrier_bounds old was).2
    exact ⟨Nat.zero_le _, Nat.sub_le_sub_right below _⟩

theorem kept_compact (ordered : buffer.Ordered) : buffer.compact.kept = 0 := by
  rw [ordered.compact_eq]
  unfold kept
  cases buffer.barrier <;> simp

theorem compact_of_kept (ordered : buffer.Ordered) (front : buffer.kept = 0) :
    buffer.compact = buffer := by
  have lower := ordered.kept_bounds.1
  have nothing :
      max buffer.start (min (buffer.barrier.getD buffer.current) buffer.current) = 0 := by
    unfold kept at *
    omega
  simp only [Incoming.compact, nothing, if_true]

/-- The bytes between two positions that are not dropped are found between the places that they
have moved to. -/
theorem slice_compact (ordered : buffer.Ordered) {low high : Nat} (kept : buffer.kept ≤ low)
    (order : low ≤ high) (bound : high ≤ buffer.stop) :
    buffer.compact.region.slice (low - buffer.kept) (high - buffer.kept) =
      buffer.region.slice low high := by
  obtain ⟨_, upper⟩ := ordered.kept_bounds
  have front : buffer.kept ≤ buffer.stop := Nat.le_trans upper ordered.current_le
  have last : buffer.kept + (high - buffer.kept) ≤ buffer.stop := by omega
  rw [ordered.compact_eq]
  simp only [Region.slice_move_front front ordered.stop_le last]
  congr 1 <;> omega

theorem unread_compact (ordered : buffer.Ordered) : buffer.compact.unread = buffer.unread := by
  have moved := ordered.slice_compact ordered.kept_bounds.2 ordered.current_le (Nat.le_refl _)
  simp only [ordered.compact_eq] at moved ⊢
  exact moved

theorem length_unread (ordered : buffer.Ordered) : buffer.unread.length = buffer.remaining :=
  Region.length_slice_of_le ordered.stop_le

theorem remaining_compact (ordered : buffer.Ordered) :
    buffer.compact.remaining = buffer.remaining := by
  rw [← ordered.compact.length_unread, ordered.unread_compact, ordered.length_unread]

theorem pinned_compact (ordered : buffer.Ordered) : buffer.compact.pinned = buffer.pinned := by
  cases set : buffer.barrier with
  | none => simp only [ordered.compact_eq, pinned, set, Option.map_none]
  | some barrier =>
    have upper := (ordered.barrier_bounds barrier set).2
    have kept : buffer.kept = barrier := by simp only [Incoming.kept, set, Option.getD_some]
    have moved := ordered.slice_compact (Nat.le_of_eq kept) upper ordered.current_le
    simp only [ordered.compact_eq, pinned, set, Option.map_some] at moved ⊢
    exact moved

theorem offset_compact (ordered : buffer.Ordered) : buffer.compact.offset = buffer.offset := by
  obtain ⟨lower, upper⟩ := ordered.kept_bounds
  simp only [offset, ordered.compact_eq]
  omega

end Ordered

/-- Compaction. Nobody who reads on, goes back to the barrier or asks for the position can tell
that a buffer has been compacted, wherever its start, its cursor and its barrier are; what is kept
is at the front then, what lay between the start and it is counted, and nothing is left to do. -/
theorem compaction_invisible {buffer : Incoming} (ordered : buffer.Ordered) :
    Compacts buffer buffer.compact where
  unread := ordered.unread_compact
  pinned := ordered.pinned_compact
  offset := ordered.offset_compact
  capacity := capacity_compact buffer
  barrier := by rw [ordered.compact_eq, Option.isSome_map]
  ordered := ordered.compact
  start := by rw [ordered.compact_eq]
  front := ordered.kept_compact
  contents := by
    obtain ⟨_, upper⟩ := ordered.kept_bounds
    have moved := ordered.slice_compact (Nat.le_refl _) (Nat.le_trans upper ordered.current_le)
      (Nat.le_refl _)
    simp only [ordered.compact_eq, Nat.sub_self] at moved ⊢
    exact moved
  discarded := by rw [ordered.compact_eq]
  again := ordered.compact.compact_of_kept ordered.kept_compact

/-- Two bytes before the start, one behind it that is dropped, and one behind the barrier. -/
theorem compaction_invisible_pinned :
    let buffer : Incoming := ⟨.ofList [1, 2, 3, 4, 5, 6, 7, 8], 2, 4, 7, 10, some 3, none⟩
    buffer.Ordered ∧ Compacts buffer buffer.compact ∧
      buffer.compact.unread = [5, 6, 7] ∧ buffer.compact.pinned = [4] ∧
      buffer.compact.offset = 12 ∧ buffer.compact.discarded = 11 := by
  intro buffer
  have ordered : buffer.Ordered :=
    ⟨by decide, by decide, by decide, by rintro _ ⟨⟩; decide⟩
  have compacts := compaction_invisible ordered
  exact ⟨ordered, compacts, compacts.unread.trans (by decide), compacts.pinned.trans (by decide),
    compacts.offset.trans (by decide), by decide⟩

end Incoming
end MessagePack
