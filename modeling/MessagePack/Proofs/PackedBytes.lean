import MessagePack.Buffer.Outgoing
import MessagePack.Proofs.RegionSlices

/-! An output buffer seen through the bytes that it holds. Growth, drains and patches move
or alter cells of the region; what matters of them is what they do to the packed bytes and
to the place of the barrier among these. -/
namespace MessagePack.Outgoing

/-- Positions are in order. -/
structure Sound (buffer : Outgoing) : Prop where
  start_le : buffer.start ≤ buffer.current
  current_le : buffer.current ≤ buffer.stop
  barrier_bounds : ∀ barrier, buffer.barrier = some barrier →
    buffer.start ≤ barrier ∧ barrier ≤ buffer.current

def mark (buffer : Outgoing) : Option Nat := buffer.barrier.map (· - buffer.start)

/-- The same buffer with an allocator that grants as much as `ceiling` bytes. -/
def withCeiling (buffer : Outgoing) (ceiling : Nat) : Outgoing :=
  { buffer with region := { buffer.region with ceiling } }

theorem remaining_append (buffer : Outgoing) (bytes : List UInt8) :
    (buffer.append bytes).remaining = buffer.remaining - bytes.length := by
  simp only [remaining, stop, append, Region.size_overwrite]
  omega

theorem doubled_bounds (required : Nat) {size : Nat} (positive : 0 < size) :
    required ≤ doubled required size ∧ size ≤ doubled required size ∧
      (doubled required size = size ∨ doubled required size < 2 * required) := by
  fun_induction doubled required size with
  | case1 size more ih =>
    obtain ⟨enough, larger, below⟩ := ih (by omega)
    refine ⟨enough, by omega, .inr ?_⟩
    omega
  | case2 size done => omega

/-- Growth that is not refused changes the region only, and keeps what is in it. -/
theorem growFor_eq_ok {buffer grown : Outgoing} {needed : Nat}
    (h : buffer.growFor needed = (.ok (), grown)) :
    ∃ region, grown = { buffer with region } ∧ buffer.current + needed ≤ region.size ∧
      buffer.stop ≤ region.size ∧ region.ceiling = buffer.region.ceiling ∧
      ∀ low high, high ≤ buffer.stop → region.slice low high = buffer.region.slice low high := by
  have positive : 0 < max buffer.stop 1 := by omega
  obtain ⟨enough, larger, _⟩ := doubled_bounds (buffer.current + needed) positive
  unfold growFor at h
  dsimp only at h
  split at h
  · cases h
  · split at h
    · cases h
      exact ⟨buffer.region, rfl, by unfold stop at *; omega, Nat.le_refl _, rfl, fun _ _ _ => rfl⟩
    · unfold resize at h
      split at h <;> cases h
      rename_i region granted
      have size := Region.size_resize? granted
      have larger : buffer.region.size ≤ doubled (buffer.current + needed) (max buffer.stop 1) := by
        simp only [stop] at *; omega
      exact ⟨region, rfl, by omega, by unfold stop; omega, Region.ceiling_resize? granted,
        fun low high inside => Region.slice_resize? granted larger inside⟩

/-- Growth is refused only past the ceiling, and changes nothing then. -/
theorem growFor_eq_error {buffer same : Outgoing} {needed : Nat} {fault : Fault}
    (h : buffer.growFor needed = (.error fault, same)) (short : buffer.remaining < needed) :
    same = buffer ∧ fault = .allocationError ∧
      (Position.modulus < 2 * (buffer.current + needed) ∨
        buffer.region.ceiling < 2 * (buffer.current + needed)) := by
  have positive : 0 < max buffer.stop 1 := by omega
  obtain ⟨enough, larger, below⟩ := doubled_bounds (buffer.current + needed) positive
  have narrow : doubled (buffer.current + needed) (max buffer.stop 1) <
      2 * (buffer.current + needed) := by
    unfold remaining at short
    omega
  unfold growFor at h
  dsimp only at h
  split at h
  · cases h
    exact ⟨rfl, rfl, by omega⟩
  · split at h
    · cases h
    · unfold resize at h
      split at h <;> cases h
      rename_i refused
      refine ⟨rfl, rfl, .inr ?_⟩
      by_cases granted : 2 * (buffer.current + needed) ≤ buffer.region.ceiling
      · have below : doubled (buffer.current + needed) (max buffer.stop 1) ≤
            buffer.region.ceiling := by omega
        have resized := Region.resize?_isSome below
        rw [refused] at resized
        cases resized
      · omega

namespace Sound

variable {buffer : Outgoing}

theorem length_packed (sound : buffer.Sound) :
    buffer.packed.length = buffer.current - buffer.start :=
  Region.length_slice_of_le sound.current_le

theorem pinned_eq (sound : buffer.Sound) :
    buffer.pinned = (buffer.mark.map buffer.packed.drop).getD [] := by
  simp only [pinned, mark, packed]
  cases set : buffer.barrier with
  | none => rfl
  | some barrier =>
    obtain ⟨lower, upper⟩ := sound.barrier_bounds barrier set
    exact (Region.drop_slice buffer.region lower upper sound.current_le).symm

theorem ofSize (size : Nat) : (Outgoing.ofSize size).Sound where
  start_le := Nat.le_refl _
  current_le := Nat.zero_le _
  barrier_bounds := by rintro barrier ⟨⟩

theorem withCeiling (sound : buffer.Sound) (ceiling : Nat) :
    (buffer.withCeiling ceiling).Sound where
  start_le := sound.start_le
  current_le := sound.current_le
  barrier_bounds := sound.barrier_bounds

theorem setBarrier (sound : buffer.Sound) : buffer.setBarrier.Sound where
  start_le := sound.start_le
  current_le := sound.current_le
  barrier_bounds := by
    rintro barrier ⟨⟩
    exact ⟨sound.start_le, Nat.le_refl _⟩

theorem mark_setBarrier (sound : buffer.Sound) :
    buffer.setBarrier.mark = some buffer.packed.length := by
  rw [sound.length_packed]
  rfl

theorem clearBarrier (sound : buffer.Sound) : buffer.clearBarrier.Sound where
  start_le := sound.start_le
  current_le := sound.current_le
  barrier_bounds := by rintro barrier ⟨⟩

/-! ### What writes to the region -/

variable {bytes : List UInt8}

theorem append (sound : buffer.Sound) (room : bytes.length ≤ buffer.remaining) :
    (buffer.append bytes).Sound := by
  have start_le := sound.start_le
  have current_le := sound.current_le
  simp only [remaining, stop] at *
  constructor
  · simp only [Outgoing.append]
    omega
  · simp only [Outgoing.append, stop, Region.size_overwrite]
    omega
  · intro barrier set
    have := sound.barrier_bounds barrier set
    simp only [Outgoing.append]
    omega

theorem packed_append (sound : buffer.Sound) (room : bytes.length ≤ buffer.remaining) :
    (buffer.append bytes).packed = buffer.packed ++ bytes := by
  have current_le := sound.current_le
  have inside : buffer.current + bytes.length ≤ buffer.region.size := by
    simp only [remaining, stop] at *
    omega
  simp only [packed, Outgoing.append]
  rw [Region.slice_overwrite sound.start_le (Nat.le_refl _) inside, Region.slice_self,
    List.append_nil]

theorem grow (sound : buffer.Sound) {region : Region} (larger : buffer.stop ≤ region.size) :
    ({ buffer with region } : Outgoing).Sound where
  start_le := sound.start_le
  current_le := Nat.le_trans sound.current_le larger
  barrier_bounds := sound.barrier_bounds

theorem patch (sound : buffer.Sound) {position : Nat} (lower : buffer.start ≤ position)
    (upper : position + bytes.length ≤ buffer.current) :
    let patched : Outgoing := { buffer with region := buffer.region.overwrite position bytes }
    patched.Sound ∧ patched.packed = buffer.packed.take (position - buffer.start) ++ bytes ++
      buffer.packed.drop (position - buffer.start + bytes.length) := by
  have current_le := sound.current_le
  refine ⟨⟨sound.start_le, ?_, sound.barrier_bounds⟩, ?_⟩
  · simpa [stop] using current_le
  · have front := Region.take_slice buffer.region lower (by omega) current_le
    have behind : buffer.start ≤ position + bytes.length := by omega
    have back := Region.drop_slice buffer.region behind upper current_le
    have gap : position + bytes.length - buffer.start = position - buffer.start + bytes.length := by
      omega
    rw [gap] at back
    simp only [packed]
    rw [front, back, Region.slice_overwrite lower upper current_le]

/-- Dropping packed bytes from the front takes as many off the mark. -/
theorem discardFront (sound : buffer.Sound) {upto : Nat} (lower : buffer.start ≤ upto)
    (upper : upto ≤ buffer.current) :
    (buffer.discardFront upto).Sound ∧
      (buffer.discardFront upto).packed = buffer.packed.drop (upto - buffer.start) ∧
      (buffer.discardFront upto).mark = buffer.mark.map (· - (upto - buffer.start)) ∧
      (buffer.discardFront upto).start = buffer.start ∧
      (buffer.discardFront upto).stop = buffer.stop ∧
      (buffer.discardFront upto).region.ceiling = buffer.region.ceiling := by
  have current_le := sound.current_le
  have clamped : max buffer.start (min upto buffer.current) = upto := by omega
  simp only [Outgoing.discardFront]
  rw [clamped]
  by_cases none : upto - buffer.start = 0
  · rw [if_pos none, none]
    exact ⟨sound, rfl, by simp, rfl, rfl, rfl⟩
  rw [if_neg none]
  have moved := Region.slice_move upper current_le lower
  have size : (buffer.region.move upto buffer.current buffer.start).size = buffer.region.size :=
    Region.size_move ..
  refine ⟨⟨?_, ?_, ?_⟩, ?_, ?_, rfl, size, Region.ceiling_move ..⟩
  · dsimp only
    omega
  · simp only [stop, Region.size_move] at *
    omega
  · intro barrier set
    obtain ⟨old, was, rfl⟩ := Option.map_eq_some_iff.mp set
    have := sound.barrier_bounds old was
    dsimp only
    omega
  · unfold packed
    rw [Region.drop_slice buffer.region lower upper current_le, ← moved]
    dsimp only
    congr 1
    omega
  · simp only [mark, Option.map_map]
    congr 1
    funext barrier
    simp only [Function.comp_apply]
    omega

end Sound
end MessagePack.Outgoing
