import MessagePack.Buffer.Incoming
import MessagePack.Proofs.RegionSlices

/-! An input buffer as a window on the whole input. What it holds is the input from the
bytes dropped so far on, and what its handler is still to bring follows without a gap.
Positions are counted in the whole input, so that moving the window does not move them. -/
namespace MessagePack.Incoming

/-- `pending` is what is still to come of `input` once the buffer has been read. -/
structure Window (input pending : List UInt8) (buffer : Incoming) : Prop where
  start_le : buffer.start ≤ buffer.current
  current_le : buffer.current ≤ buffer.stop
  stop_le : buffer.stop ≤ buffer.capacity
  barrier_bounds : ∀ barrier, buffer.barrier = some barrier →
    buffer.start ≤ barrier ∧ barrier ≤ buffer.current
  discarded_le : buffer.discarded ≤ input.length
  contents : input.drop buffer.discarded =
    buffer.region.slice buffer.start buffer.stop ++ pending

def mark (buffer : Incoming) : Option Nat :=
  buffer.barrier.map fun barrier => buffer.discarded + (barrier - buffer.start)

theorem mark_setBarrier (buffer : Incoming) : buffer.setBarrier.mark = some buffer.offset := rfl

/-- The same buffer with an allocator that grants as much as `ceiling` bytes. -/
def withCeiling (buffer : Incoming) (ceiling : Nat) : Incoming :=
  { buffer with region := { buffer.region with ceiling } }

theorem ceiling_compact (buffer : Incoming) :
    buffer.compact.region.ceiling = buffer.region.ceiling := by
  simp only [compact]
  split <;> simp

theorem capacity_compact (buffer : Incoming) : buffer.compact.capacity = buffer.capacity := by
  simp only [compact]
  split
  · rfl
  · exact Region.size_move ..

theorem growToward_eq_ok {buffer grown : Incoming} {needed : Nat}
    (h : buffer.growToward needed = (.ok (), grown)) :
    buffer.current + needed ≤ buffer.capacity ∧ grown = buffer ∨
    ∃ region, buffer.region.resize? (min (2 * max buffer.capacity 1) (buffer.current + needed)) =
      some region ∧ buffer.capacity < region.size ∧ grown = { buffer with region } := by
  unfold growToward at h
  dsimp only at h
  split at h
  · cases h
  · split at h
    · cases h
      exact .inl ⟨‹_›, rfl⟩
    · split at h <;> cases h
      rename_i region granted
      refine .inr ⟨region, granted, ?_, rfl⟩
      rw [Region.size_resize? granted]
      omega

/-- Growth is refused only past the ceiling, and changes nothing then. -/
theorem growToward_eq_error {buffer same : Incoming} {needed : Nat} {fault : Fault}
    (h : buffer.growToward needed = (.error fault, same)) :
    same = buffer ∧ fault = .allocationError ∧ (Position.modulus ≤ buffer.current + needed ∨
      buffer.region.ceiling < 2 * max buffer.capacity 1) := by
  unfold growToward at h
  dsimp only at h
  split at h
  · cases h
    exact ⟨rfl, rfl, .inl ‹_›⟩
  · split at h
    · cases h
    · split at h <;> cases h
      rename_i refused
      refine ⟨rfl, rfl, .inr ?_⟩
      by_cases granted : 2 * max buffer.capacity 1 ≤ buffer.region.ceiling
      · have below : min (2 * max buffer.capacity 1) (buffer.current + needed) ≤
            buffer.region.ceiling := by omega
        have resized := Region.resize?_isSome below
        rw [refused] at resized
        cases resized
      · omega

namespace Window

variable {input pending : List UInt8} {buffer : Incoming}

theorem length_eq (window : buffer.Window input pending) :
    input.length = buffer.discarded + (buffer.stop - buffer.start) + pending.length := by
  have := congrArg List.length window.contents
  have := window.discarded_le
  rw [List.length_drop, List.length_append, Region.length_slice_of_le window.stop_le] at *
  omega

theorem length_drop (window : buffer.Window input pending) :
    (input.drop buffer.offset).length = buffer.remaining + pending.length := by
  have := window.start_le
  have := window.current_le
  rw [List.length_drop, window.length_eq, offset, remaining]
  omega

theorem offset_add (window : buffer.Window input pending) :
    buffer.offset + buffer.remaining + pending.length = input.length := by
  have := window.start_le
  have := window.current_le
  rw [window.length_eq, offset, remaining]
  omega

theorem rest_eq (window : buffer.Window input pending) :
    input.drop buffer.offset = buffer.unread ++ pending := by
  have whole := Region.drop_slice buffer.region window.start_le window.current_le window.stop_le
  rw [offset, ← List.drop_drop, window.contents, List.drop_append_of_le_length, whole]
  · rfl
  · rw [Region.length_slice_of_le window.stop_le]
    have := window.current_le
    omega

theorem front_eq (window : buffer.Window input pending) {count : Nat}
    (enough : count ≤ buffer.remaining) :
    buffer.region.slice buffer.current (buffer.current + count) =
      (input.drop buffer.offset).take count := by
  have lower := window.current_le
  unfold remaining at enough
  have inside : buffer.current + count ≤ buffer.stop := by omega
  have front := Region.take_slice buffer.region (Nat.le_add_right buffer.current count) inside
    window.stop_le
  rw [Nat.add_sub_cancel_left] at front
  rw [window.rest_eq, List.take_append_of_le_length, unread, front]
  rw [unread, Region.length_slice_of_le window.stop_le]
  omega

/-- The pinned bytes are those of the input from the mark up to the offset. -/
theorem pinned_eq (window : buffer.Window input pending) {position : Nat}
    (marked : buffer.mark = some position) :
    buffer.pinned = (input.drop position).take (buffer.offset - position) := by
  obtain ⟨barrier, set, rfl⟩ := Option.map_eq_some_iff.mp marked
  obtain ⟨lower, upper⟩ := window.barrier_bounds barrier set
  have := window.current_le
  have whole := Region.drop_slice buffer.region lower (by omega) window.stop_le
  have front := Region.take_slice buffer.region upper window.current_le window.stop_le
  have span : buffer.offset - (buffer.discarded + (barrier - buffer.start)) =
      buffer.current - barrier := by
    rw [offset]; omega
  simp only [pinned, set]
  rw [span, ← List.drop_drop, window.contents, List.drop_append_of_le_length, whole,
    List.take_append_of_le_length, front]
  all_goals rw [Region.length_slice_of_le window.stop_le]; omega

theorem ofBytes (bytes : List UInt8) : (Incoming.ofBytes bytes).Window bytes [] where
  start_le := Nat.le_refl _
  current_le := Nat.zero_le _
  stop_le := Nat.le_of_eq (by simp [Incoming.ofBytes, capacity, Region.size, Region.ofList])
  barrier_bounds := by simp [Incoming.ofBytes]
  discarded_le := Nat.zero_le _
  contents := by simp [Incoming.ofBytes, Region.slice_eq, Region.toList_ofList]

theorem ofCapacity (input : List UInt8) (capacity : Nat) :
    (Incoming.ofCapacity capacity).Window input input where
  start_le := Nat.le_refl _
  current_le := Nat.le_refl _
  stop_le := Nat.zero_le _
  barrier_bounds := by simp [Incoming.ofCapacity]
  discarded_le := Nat.zero_le _
  contents := by simp [Incoming.ofCapacity]

theorem append (window : buffer.Window input pending) (more : List UInt8) :
    buffer.Window (input ++ more) (pending ++ more) where
  start_le := window.start_le
  current_le := window.current_le
  stop_le := window.stop_le
  barrier_bounds := window.barrier_bounds
  discarded_le := by
    rw [List.length_append]
    exact Nat.le_trans window.discarded_le (Nat.le_add_right _ _)
  contents := by
    rw [List.drop_append_of_le_length window.discarded_le, window.contents, List.append_assoc]

/-! ### What moves the cursor and the barrier -/

theorem advance (window : buffer.Window input pending) {count : Nat}
    (enough : count ≤ buffer.remaining) : (buffer.advance count).Window input pending where
  start_le := Nat.le_trans window.start_le (Nat.le_add_right _ _)
  current_le := by
    have := window.current_le
    simp only [Incoming.advance, remaining] at *
    omega
  stop_le := window.stop_le
  barrier_bounds := fun barrier set => by
    obtain ⟨lower, upper⟩ := window.barrier_bounds barrier set
    exact ⟨lower, Nat.le_trans upper (Nat.le_add_right _ _)⟩
  discarded_le := window.discarded_le
  contents := window.contents

theorem offset_advance (window : buffer.Window input pending) (count : Nat) :
    (buffer.advance count).offset = buffer.offset + count := by
  have := window.start_le
  simp only [offset, Incoming.advance]
  omega

theorem setBarrier (window : buffer.Window input pending) :
    buffer.setBarrier.Window input pending where
  start_le := window.start_le
  current_le := window.current_le
  stop_le := window.stop_le
  barrier_bounds := by
    rintro barrier ⟨⟩
    exact ⟨window.start_le, Nat.le_refl _⟩
  discarded_le := window.discarded_le
  contents := window.contents

theorem withFailure (window : buffer.Window input pending) (failure : Option String) :
    ({ buffer with failure } : Incoming).Window input pending where
  start_le := window.start_le
  current_le := window.current_le
  stop_le := window.stop_le
  barrier_bounds := window.barrier_bounds
  discarded_le := window.discarded_le
  contents := window.contents

theorem withCeiling (window : buffer.Window input pending) (ceiling : Nat) :
    (buffer.withCeiling ceiling).Window input pending where
  start_le := window.start_le
  current_le := window.current_le
  stop_le := window.stop_le
  barrier_bounds := window.barrier_bounds
  discarded_le := window.discarded_le
  contents := window.contents

theorem clearBarrier (window : buffer.Window input pending) :
    buffer.clearBarrier.Window input pending where
  start_le := window.start_le
  current_le := window.current_le
  stop_le := window.stop_le
  barrier_bounds := by rintro barrier ⟨⟩
  discarded_le := window.discarded_le
  contents := window.contents

theorem mark_eq_none_iff : buffer.mark = none ↔ buffer.rescan? = none := by
  simp [mark, Incoming.rescan?]

theorem rescan? (window : buffer.Window input pending) {back : Incoming}
    (h : buffer.rescan? = some back) :
    back.Window input pending ∧ buffer.mark = some back.offset ∧ back.mark = buffer.mark ∧
      back.region = buffer.region := by
  obtain ⟨barrier, set, rfl⟩ := Option.map_eq_some_iff.mp h
  obtain ⟨lower, upper⟩ := window.barrier_bounds barrier set
  have back : ({ buffer with current := barrier } : Incoming).Window input pending := {
    start_le := lower
    current_le := Nat.le_trans upper window.current_le
    stop_le := window.stop_le
    barrier_bounds := fun other same => by
      cases set.symm.trans same
      exact ⟨lower, Nat.le_refl _⟩
    discarded_le := window.discarded_le
    contents := window.contents }
  refine ⟨back, ?_, rfl, rfl⟩
  rw [offset, mark, set]
  rfl

/-! ### What moves the window -/

theorem keep_bounds (window : buffer.Window input pending) :
    buffer.start ≤ max buffer.start (min (buffer.barrier.getD buffer.current) buffer.current) ∧
      max buffer.start (min (buffer.barrier.getD buffer.current) buffer.current) ≤
        buffer.current := by
  have := window.start_le
  omega

theorem compact (window : buffer.Window input pending) :
    buffer.compact.Window input pending := by
  obtain ⟨lower, upper⟩ := window.keep_bounds
  simp only [Incoming.compact]
  generalize kept : max buffer.start (min (buffer.barrier.getD buffer.current) buffer.current) =
    keep at *
  split
  · exact window
  have current_le := window.current_le
  have stop_le := window.stop_le
  unfold capacity at stop_le
  have length_eq := window.length_eq
  have moved := Region.slice_move (Nat.le_trans upper current_le) stop_le (Nat.zero_le keep)
  constructor
  · exact Nat.zero_le _
  · dsimp only
    omega
  · simp only [capacity, Region.size_move]
    omega
  · intro barrier set
    obtain ⟨old, was, rfl⟩ := Option.map_eq_some_iff.mp set
    obtain ⟨_, below⟩ := window.barrier_bounds old was
    dsimp only
    omega
  · dsimp only
    omega
  · dsimp only
    rw [← List.drop_drop, window.contents, List.drop_append_of_le_length,
      Region.drop_slice buffer.region lower (by omega) stop_le]
    · rw [Nat.zero_add] at moved
      rw [moved]
    · rw [Region.length_slice_of_le stop_le]
      omega

theorem start_compact (window : buffer.Window input pending) : buffer.compact.start = 0 := by
  obtain ⟨lower, _⟩ := window.keep_bounds
  simp only [Incoming.compact]
  split
  · omega
  · rfl

theorem offset_compact (window : buffer.Window input pending) :
    buffer.compact.offset = buffer.offset := by
  obtain ⟨lower, upper⟩ := window.keep_bounds
  rw [offset, offset, window.start_compact]
  simp only [Incoming.compact]
  split
  · omega
  · dsimp only
    omega

theorem mark_compact (window : buffer.Window input pending) :
    buffer.compact.mark = buffer.mark := by
  simp only [Incoming.compact]
  split
  · rfl
  · cases set : buffer.barrier with
    | none => simp [mark, set]
    | some barrier =>
      obtain ⟨lower, upper⟩ := window.barrier_bounds barrier set
      simp only [mark, set, Option.map_some, Option.getD_some, Option.some.injEq]
      omega

theorem resize? (window : buffer.Window input pending) {region : Region} {size : Nat}
    (h : buffer.region.resize? size = some region) (larger : buffer.capacity ≤ size) :
    ({ buffer with region } : Incoming).Window input pending where
  start_le := window.start_le
  current_le := window.current_le
  stop_le := by
    have := window.stop_le
    have := Region.size_resize? h
    simp only [capacity] at *
    omega
  barrier_bounds := window.barrier_bounds
  discarded_le := window.discarded_le
  contents := by rw [window.contents, Region.slice_resize? h larger window.stop_le]

/-- Growth makes the region longer or leaves it, and goes no further than a position can. -/
theorem growToward (window : buffer.Window input pending) (needed : Nat)
    (short : buffer.capacity < Position.modulus) :
    ∃ region, (buffer.growToward needed).2 = { buffer with region } ∧
      ({ buffer with region } : Incoming).Window input pending ∧
      region.size < Position.modulus ∧ region.ceiling = buffer.region.ceiling := by
  cases grows : buffer.growToward needed with
  | mk status grown =>
    cases status with
    | error fault =>
      obtain ⟨rfl, _⟩ := growToward_eq_error grows
      exact ⟨grown.region, rfl, window, short, rfl⟩
    | ok _ =>
      rcases growToward_eq_ok grows with ⟨_, rfl⟩ | ⟨region, resized, larger, rfl⟩
      · exact ⟨grown.region, rfl, window, short, rfl⟩
      · have size := Region.size_resize? resized
        have reachable : buffer.current + needed < Position.modulus := by
          apply Nat.lt_of_not_le
          intro beyond
          rw [Incoming.growToward, if_pos beyond] at grows
          cases grows
        exact ⟨region, rfl, window.resize? resized (by omega), by omega,
          Region.ceiling_resize? resized⟩

/-- Bytes that arrive go from those to come to those that the buffer holds. -/
theorem commit {arrived : List UInt8} (window : buffer.Window input (arrived ++ pending))
    (fits : arrived.length ≤ buffer.room) :
    ((buffer.fill arrived).commit arrived.length).Window input pending ∧
      ((buffer.fill arrived).commit arrived.length).stop = buffer.stop + arrived.length := by
  have start_le := window.start_le
  have current_le := window.current_le
  have stop_le := window.stop_le
  simp only [room, capacity] at *
  have stop : ((buffer.fill arrived).commit arrived.length).stop =
      buffer.stop + arrived.length := by
    simp only [Incoming.commit, Incoming.fill, capacity, Region.size_overwrite]
    omega
  refine ⟨?_, stop⟩
  constructor
  · exact start_le
  · rw [stop]
    exact Nat.le_trans current_le (Nat.le_add_right _ _)
  · rw [stop]
    simp only [capacity, Incoming.commit, Incoming.fill, Region.size_overwrite]
    omega
  · exact window.barrier_bounds
  · exact window.discarded_le
  · rw [stop]
    simp only [Incoming.commit, Incoming.fill]
    have inside : buffer.stop + arrived.length ≤ buffer.region.size := by omega
    rw [Region.slice_overwrite (Nat.le_trans start_le current_le) (Nat.le_refl _) inside,
      Region.slice_self, List.append_nil, List.append_assoc]
    exact window.contents

end Window
end MessagePack.Incoming
