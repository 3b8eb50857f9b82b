import MessagePack.Proofs.OutputPositions

/-! Dropping the front of an output buffer. What is dropped is a front of the packed bytes and
nothing else: the bytes behind it move down to the start, the cursor and the barrier with them. A
barrier that lies in what is dropped goes to the start, so that all that is left is pinned. -/
namespace MessagePack.Outgoing

/-- Where a discard cuts: at the place that it is asked for, or at the nearer end of the packed
bytes. -/
def cut (buffer : Outgoing) (upto : Nat) : Nat := max buffer.start (min upto buffer.current)

/-- What is left of a buffer when the packed bytes before `cut` have been dropped. -/
structure Discards (before after : Outgoing) (cut : Nat) : Prop where
  sound : after.Sound
  inRange : after.InRange
  start : after.start = before.start
  stop : after.stop = before.stop
  current : after.current = before.current - (cut - before.start)
  packed : after.packed = before.packed.drop (cut - before.start)
  barrier : after.barrier.isSome = before.barrier.isSome
  pinned : ∀ barrier, before.barrier = some barrier →
    after.pinned = if cut ≤ barrier then before.pinned
      else before.region.slice cut before.current
  /-- Only the bytes that are left are written, at their new places. -/
  others : ∀ low high, high ≤ before.start ∨ after.current ≤ low →
    after.region.slice low high = before.region.slice low high
  failure : after.failure = before.failure

/-- The positions and the packed bytes of two buffers are the same. -/
structure Alike (one other : Outgoing) : Prop where
  start : one.start = other.start
  current : one.current = other.current
  stop : one.stop = other.stop
  barrier : one.barrier = other.barrier
  packed : one.packed = other.packed
  pinned : one.pinned = other.pinned

theorem cut_of_le {buffer : Outgoing} {upto : Nat} (lower : buffer.start ≤ upto)
    (upper : upto ≤ buffer.current) : buffer.cut upto = upto := by
  rw [cut, Nat.min_eq_left upper, Nat.max_eq_right lower]

namespace Sound

variable {buffer : Outgoing} (sound : buffer.Sound)
include sound

theorem cut_bounds (upto : Nat) :
    buffer.start ≤ buffer.cut upto ∧ buffer.cut upto ≤ buffer.current := by
  have start_le := sound.start_le
  unfold cut
  omega

/-- A discard of nothing is no exception: a move by nothing moves nothing, and the barrier is
not before the start. -/
theorem discardFront_eq (upto : Nat) :
    buffer.discardFront upto = { buffer with
      region := buffer.region.move (buffer.cut upto) buffer.current buffer.start
      current := buffer.current - (buffer.cut upto - buffer.start)
      barrier := buffer.barrier.map fun barrier =>
        max (barrier - (buffer.cut upto - buffer.start)) buffer.start } := by
  obtain ⟨lower, upper⟩ := sound.cut_bounds upto
  simp only [Outgoing.discardFront]
  change (if buffer.cut upto - buffer.start = 0 then buffer else _) = _
  split
  · rename_i nothing
    have whole : buffer.cut upto = buffer.start := by omega
    have region := Region.move_self sound.start_le sound.current_le
    have barrier : (buffer.barrier.map fun barrier => max (barrier - 0) buffer.start) =
        buffer.barrier := by
      cases set : buffer.barrier with
      | none => rfl
      | some barrier =>
        have lower := (sound.barrier_bounds barrier set).1
        simp only [Option.map_some, Nat.sub_zero, Nat.max_eq_left lower]
    rw [nothing, whole, region, barrier]
    rfl
  · rfl

theorem current_discardFront (upto : Nat) :
    (buffer.discardFront upto).current = buffer.current - (buffer.cut upto - buffer.start) := by
  rw [sound.discardFront_eq]

theorem barrier_discardFront (upto : Nat) :
    (buffer.discardFront upto).barrier = buffer.barrier.map fun barrier =>
      max (barrier - (buffer.cut upto - buffer.start)) buffer.start := by
  rw [sound.discardFront_eq]

theorem slice_discardFront (upto : Nat) {low : Nat} (lower : buffer.cut upto ≤ low)
    (upper : low ≤ buffer.current) :
    (buffer.discardFront upto).region.slice (low - (buffer.cut upto - buffer.start))
      (buffer.discardFront upto).current = buffer.region.slice low buffer.current := by
  obtain ⟨front, back⟩ := sound.cut_bounds upto
  have inside := sound.current_le
  have moved := Region.slice_move back inside front
  have whole : buffer.start + (buffer.current - buffer.cut upto) =
      buffer.current - (buffer.cut upto - buffer.start) := by omega
  have room : buffer.current - (buffer.cut upto - buffer.start) ≤ buffer.region.size :=
    Nat.le_trans (Nat.sub_le _ _) inside
  rw [whole] at moved
  rw [sound.discardFront_eq]
  -- Both are the same part of the bytes that have moved.
  have behind : buffer.start ≤ low - (buffer.cut upto - buffer.start) := by omega
  have part := Region.drop_slice (buffer.region.move (buffer.cut upto) buffer.current buffer.start)
    behind (Nat.sub_le_sub_right upper _) (by rwa [Region.size_move])
  have gap : low - (buffer.cut upto - buffer.start) - buffer.start = low - buffer.cut upto := by
    omega
  rw [moved, gap, Region.drop_slice buffer.region lower upper inside] at part
  exact part.symm

theorem packed_discardFront (upto : Nat) :
    (buffer.discardFront upto).packed =
      buffer.packed.drop (buffer.cut upto - buffer.start) := by
  obtain ⟨lower, upper⟩ := sound.cut_bounds upto
  have moved := sound.slice_discardFront upto (Nat.le_refl _) upper
  have front : buffer.cut upto - (buffer.cut upto - buffer.start) = buffer.start := by omega
  have start : (buffer.discardFront upto).start = buffer.start := by rw [sound.discardFront_eq]
  rw [packed, packed, start, Region.drop_slice buffer.region lower upper sound.current_le, ← moved,
    front]

/-- Bytes before a barrier are dropped for nobody who looks behind it; if the barrier itself is
dropped, all that is left is behind it. -/
theorem pinned_discardFront (upto : Nat) {barrier : Nat} (set : buffer.barrier = some barrier) :
    (buffer.discardFront upto).pinned =
      if buffer.cut upto ≤ barrier then buffer.pinned
      else buffer.region.slice (buffer.cut upto) buffer.current := by
  obtain ⟨lower, upper⟩ := sound.cut_bounds upto
  obtain ⟨after, before⟩ := sound.barrier_bounds barrier set
  have moves : (buffer.discardFront upto).barrier =
      some (max (barrier - (buffer.cut upto - buffer.start)) buffer.start) := by
    rw [sound.barrier_discardFront, set, Option.map_some]
  simp only [pinned, moves, set]
  split
  · next kept =>
    have place : max (barrier - (buffer.cut upto - buffer.start)) buffer.start =
        barrier - (buffer.cut upto - buffer.start) := by omega
    rw [place, sound.slice_discardFront upto kept before]
  · next dropped =>
    have place : max (barrier - (buffer.cut upto - buffer.start)) buffer.start =
        buffer.cut upto - (buffer.cut upto - buffer.start) := by omega
    rw [place, sound.slice_discardFront upto (Nat.le_refl _) upper]

theorem others_discardFront (upto : Nat) {low high : Nat}
    (outside : high ≤ buffer.start ∨ (buffer.discardFront upto).current ≤ low) :
    (buffer.discardFront upto).region.slice low high = buffer.region.slice low high := by
  obtain ⟨lower, upper⟩ := sound.cut_bounds upto
  have inside := sound.current_le
  have length : (buffer.region.slice (buffer.cut upto) buffer.current).length =
      buffer.current - buffer.cut upto := Region.length_slice_of_le inside
  have room : buffer.start + (buffer.region.slice (buffer.cut upto) buffer.current).length ≤
      buffer.region.size := by
    unfold stop at inside
    omega
  rw [sound.current_discardFront] at outside
  simp only [sound.discardFront_eq, Region.move]
  rcases outside with before | behind
  · exact Region.slice_overwrite_before room before
  · exact Region.slice_overwrite_after room (by omega)

theorem discards (upto : Nat) :
    Discards buffer (buffer.discardFront upto) (buffer.cut upto) where
  sound := sound.discardFront_any upto
  inRange := (sound.discardFront_any upto).inRange
  start := by rw [sound.discardFront_eq]
  stop := by
    rw [sound.discardFront_eq]
    exact Region.size_move ..
  current := sound.current_discardFront upto
  packed := sound.packed_discardFront upto
  barrier := by rw [sound.barrier_discardFront, Option.isSome_map]
  pinned _ set := sound.pinned_discardFront upto set
  others _ _ outside := sound.others_discardFront upto outside
  failure := by rw [sound.discardFront_eq]

/-- Two discards are one of as many bytes. The barrier is held back at the start twice, which is
the same as once. -/
theorem alike_discardFront {a b : Nat} (fits : a + b ≤ buffer.current - buffer.start) :
    Alike ((buffer.discardFront (buffer.start + a)).discardFront (buffer.start + b))
      (buffer.discardFront (buffer.start + a + b)) := by
  have start_le := sound.start_le
  have between := sound.discardFront_any (buffer.start + a)
  have first := sound.discards (buffer.start + a)
  have second := between.discards (buffer.start + b)
  have once := sound.discards (buffer.start + a + b)
  -- None of the three places has to be clamped.
  have cutFirst : buffer.cut (buffer.start + a) = buffer.start + a :=
    cut_of_le (Nat.le_add_right _ _) (by omega)
  have cutOnce : buffer.cut (buffer.start + a + b) = buffer.start + a + b :=
    cut_of_le (by omega) (by omega)
  have current := first.current
  rw [cutFirst, Nat.add_sub_cancel_left] at current
  have cutSecond : (buffer.discardFront (buffer.start + a)).cut (buffer.start + b) =
      buffer.start + b :=
    cut_of_le (by rw [first.start]; omega) (by rw [current]; omega)
  have gap : buffer.start + a + b - buffer.start = a + b := by omega
  have start := second.start.trans (first.start.trans once.start.symm)
  have barrier :
      ((buffer.discardFront (buffer.start + a)).discardFront (buffer.start + b)).barrier =
        (buffer.discardFront (buffer.start + a + b)).barrier := by
    rw [between.barrier_discardFront, cutSecond, first.start, sound.barrier_discardFront,
      sound.barrier_discardFront, cutFirst, cutOnce, gap]
    simp only [Option.map_map, Nat.add_sub_cancel_left]
    congr 1
    funext place
    simp only [Function.comp_apply]
    omega
  have packed :
      ((buffer.discardFront (buffer.start + a)).discardFront (buffer.start + b)).packed =
        (buffer.discardFront (buffer.start + a + b)).packed := by
    rw [second.packed, first.packed, once.packed, cutSecond, first.start, cutFirst, cutOnce, gap,
      List.drop_drop, Nat.add_sub_cancel_left, Nat.add_sub_cancel_left]
  refine ⟨start, ?_, ?_, barrier, packed, ?_⟩
  · rw [second.current, current, once.current, cutSecond, first.start, cutOnce, gap]
    omega
  · rw [second.stop, first.stop, once.stop]
  · rw [second.sound.pinned_eq, once.sound.pinned_eq, mark, mark, barrier, packed, start]

end Sound

/-- Discards. Wherever the start, the barrier and the place to cut at are: of the packed bytes
those before the cut go and no others, what was pinned behind the cut is pinned still, and the
positions are in order, with the start and the end where they were. Bytes can be dropped at once
or one part after another. -/
theorem front_discarded {buffer : Outgoing} (sound : buffer.Sound) :
    (∀ upto, buffer.discardFront? upto = some (buffer.discardFront upto) ∧
      Discards buffer (buffer.discardFront upto) (buffer.cut upto)) ∧
    (∀ a b, a + b ≤ buffer.current - buffer.start →
      Alike ((buffer.discardFront (buffer.start + a)).discardFront (buffer.start + b))
        (buffer.discardFront (buffer.start + a + b))) :=
  ⟨fun upto => ⟨sound.discardFront? upto, sound.discards upto⟩,
    fun _ _ fits => sound.alike_discardFront fits⟩

/-- Two bytes before the start, and a cut behind the barrier: first in one, then in two. -/
theorem front_discarded_barrier :
    let buffer : Outgoing := ⟨.ofList [1, 2, 3, 4, 5, 6, 7, 8], 2, 7, some 4, none⟩
    buffer.Sound ∧ Discards buffer (buffer.discardFront 5) 5 ∧
      (buffer.discardFront 5).packed = [6, 7] ∧ (buffer.discardFront 5).pinned = [6, 7] ∧
      Alike ((buffer.discardFront 3).discardFront 4) (buffer.discardFront 5) := by
  intro buffer
  have sound : buffer.Sound := ⟨by decide, by decide, by rintro _ ⟨⟩; decide⟩
  obtain ⟨discards, join⟩ := front_discarded sound
  have behind := (discards 5).2
  exact ⟨sound, behind, behind.packed.trans (by decide),
    (behind.pinned 4 rfl).trans (by decide), join 1 2 (by decide)⟩

end MessagePack.Outgoing
