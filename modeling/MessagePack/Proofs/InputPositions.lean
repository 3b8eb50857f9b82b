import MessagePack.Proofs.ItemRecall

/-! The positions of an input buffer, whatever its handler, its unpacker and others do to it. All
that anyone can do leaves them in order. The end of the unread bytes is a word, though, and a commit
of more bytes than it can count is aborted: the bound by the capacity would make any count good, but
the sum is taken before it. -/
namespace MessagePack

namespace Incoming

/-- A buffer as it is made, with an allocator of any kind. -/
inductive Fresh : Incoming → Prop where
  | ofBytes (bytes : List UInt8) (ceiling : Nat) (short : bytes.length < Position.modulus) :
    Fresh ((Incoming.ofBytes bytes).withCeiling ceiling)
  | ofCapacity (capacity ceiling : Nat) (short : capacity < Position.modulus) :
    Fresh ((Incoming.ofCapacity capacity).withCeiling ceiling)

/-- Writes to cells of the room, from `place` on, as many as it has. -/
def scribble (buffer : Incoming) (place : Nat) (bytes : List UInt8) : Incoming :=
  { buffer with
    region := buffer.region.overwrite (buffer.stop + place) (bytes.take (buffer.room - place)) }

def Counts (buffer : Incoming) (count : UInt64) : Prop :=
  buffer.stop + count.toNat < Position.modulus

/-- The views of the buffer are in range. -/
structure InRange (buffer : Incoming) : Prop where
  remaining : buffer.remaining? = some buffer.remaining
  unread : buffer.unread? = some buffer.unread
  offset : buffer.offset? = some buffer.offset
  pinned : buffer.pinned? = some buffer.pinned
  spare : buffer.spare? = some (buffer.region.slice buffer.stop buffer.capacity)

variable {buffer : Incoming}

theorem Fresh.sound (fresh : buffer.Fresh) : buffer.Sound := by
  cases fresh with
  | ofBytes bytes ceiling short => exact ((Window.ofBytes bytes).withCeiling ceiling).sound short
  | ofCapacity capacity ceiling short =>
    refine ((Window.ofCapacity [] capacity).withCeiling ceiling).sound ?_
    simpa [Incoming.withCeiling, Incoming.ofCapacity, Incoming.capacity, Region.size,
      Region.zeros] using short

namespace Sound

theorem inRange (sound : buffer.Sound) : buffer.InRange where
  remaining := Position.sub?_of_le sound.current_le
  unread := Region.slice?_of_le sound.current_le sound.stop_le
  offset := by
    rw [offset?, Position.sub?_of_le sound.start_le, Option.map_some]
    rfl
  pinned := by
    unfold pinned? pinned
    cases set : buffer.barrier with
    | none => rfl
    | some barrier =>
      have inside := Nat.le_trans sound.current_le sound.stop_le
      exact Region.slice?_of_le (sound.barrier_bounds barrier set).2 inside
  spare := Region.slice?_of_le sound.stop_le (Nat.le_refl _)

theorem withFailure (sound : buffer.Sound) (failure : Option String) :
    ({ buffer with failure } : Incoming).Sound :=
  ⟨sound.start_le, sound.current_le, sound.stop_le, sound.barrier_bounds, sound.short⟩

theorem scribble (sound : buffer.Sound) (place : Nat) (bytes : List UInt8) :
    (buffer.scribble place bytes).Sound := by
  have size : (buffer.scribble place bytes).capacity = buffer.capacity := Region.size_overwrite ..
  refine ⟨sound.start_le, sound.current_le, ?_, sound.barrier_bounds, ?_⟩
  · rw [size]
    exact sound.stop_le
  · rw [size]
    exact sound.short

end Sound

variable {count : UInt64}

theorem commit?_eq (counts : buffer.Counts count) :
    buffer.commit? count.toNat =
      some { buffer with stop := min (buffer.stop + count.toNat) buffer.capacity } := by
  rw [commit?, Position.add?_of_lt counts, Option.map_some]

theorem commit?_eq_none_iff : buffer.commit? count.toNat = none ↔ ¬buffer.Counts count := by
  refine ⟨fun aborted counts => ?_, fun past => ?_⟩
  · cases (commit?_eq counts).symm.trans aborted
  · rw [commit?, Position.add?_of_le (Nat.le_of_not_lt past), Option.map_none]

theorem Sound.commit (sound : buffer.Sound) (count : Nat) : (buffer.commit count).Sound := by
  have current_le := sound.current_le
  have stop_le := sound.stop_le
  refine ⟨sound.start_le, ?_, Nat.min_le_right _ _, sound.barrier_bounds, sound.short⟩
  change buffer.current ≤ min (buffer.stop + count) buffer.capacity
  omega

theorem Sound.counts_of_room (sound : buffer.Sound) (room : count.toNat ≤ buffer.room) :
    buffer.Counts count := by
  have stop_le := sound.stop_le
  have short := sound.short
  unfold Incoming.room at room
  unfold Counts
  omega

end Incoming

namespace Unpacker

variable {σ : Type}

/-- All that can be done to an unpacker and its buffer, short of setting positions by hand. -/
inductive Operation where
  | act (act : Act)
  | scribble (place : Nat) (bytes : List UInt8)
  | commit (count : UInt64)
  | setFailure (failure : Option String)
  deriving DecidableEq, Repr

/-- What an operation leaves behind. A commit that is aborted leaves all as it was. -/
def operate [Inlet σ] (operation : Operation) (unpacker : Unpacker σ) : Unpacker σ :=
  match operation with
  | .act act => unpacker.act act
  | .scribble place bytes => { unpacker with buffer := unpacker.buffer.scribble place bytes }
  | .commit count =>
    { unpacker with buffer := (unpacker.buffer.commit? count.toNat).getD unpacker.buffer }
  | .setFailure failure => { unpacker with buffer := { unpacker.buffer with failure } }

def carry [Inlet σ] : List Operation → Unpacker σ → Unpacker σ
  | [], unpacker => unpacker
  | operation :: operations, unpacker => (unpacker.operate operation).carry operations

/-- A buffer whose positions are in order, and what there is to say of it and of the next commit. -/
structure Kept (buffer : Incoming) : Prop where
  sound : buffer.Sound
  inRange : buffer.InRange
  exact : ∀ count : UInt64, buffer.Counts count → buffer.commit? count.toNat =
    some { buffer with stop := min (buffer.stop + count.toNat) buffer.capacity }
  onward : ∀ count : UInt64, buffer.stop ≤ min (buffer.stop + count.toNat) buffer.capacity
  aborted : ∀ count : UInt64, buffer.commit? count.toNat = none ↔ ¬buffer.Counts count
  room : ∀ count : UInt64, count.toNat ≤ buffer.room → buffer.Counts count

theorem Kept.of_sound {buffer : Incoming} (sound : buffer.Sound) : Kept buffer where
  sound := sound
  inRange := sound.inRange
  exact _ counts := Incoming.commit?_eq counts
  onward count := by
    have stop_le := sound.stop_le
    omega
  aborted _ := Incoming.commit?_eq_none_iff
  room _ := sound.counts_of_room

variable [Inlet σ] [Inlet.Honest σ] {unpacker : Unpacker σ}

theorem sound_act (sound : unpacker.buffer.Sound) (act : Act) :
    (unpacker.act act).buffer.Sound := by
  obtain ⟨seen, shows⟩ := sound.shows
  obtain ⟨whole, shows, window⟩ := (shows_acts shows [act]).whole
  exact window.sound shows.short

theorem sound_operate (sound : unpacker.buffer.Sound) (operation : Operation) :
    (unpacker.operate operation).buffer.Sound := by
  cases operation with
  | act act => exact sound_act sound act
  | scribble place bytes => exact sound.scribble place bytes
  | commit count =>
    by_cases counts : unpacker.buffer.Counts count
    · simp only [operate, Incoming.commit?_eq counts, Option.getD_some]
      exact sound.commit count.toNat
    · simp only [operate, Incoming.commit?_eq_none_iff.mpr counts, Option.getD_none]
      exact sound
  | setFailure failure => exact sound.withFailure failure

theorem sound_carry (sound : unpacker.buffer.Sound) (operations : List Operation) :
    (unpacker.carry operations).buffer.Sound := by
  induction operations generalizing unpacker with
  | nil => exact sound
  | cons operation operations ih => exact ih (sound_operate sound operation)

/-- Positions in order. With any honest handler, whatever is asked of an unpacker and done to its
buffer: the positions are in order, and all views of the buffer can be had. A commit in any such
state goes as far as it says, or as far as the region, and is aborted only if it is of more bytes
than the end can count, which are always more than there is room for. -/
theorem order_kept {buffer : Incoming} (fresh : buffer.Fresh) (handler : σ) (order : ByteOrder)
    (operations : List Operation) : Kept ((new buffer handler order).carry operations).buffer :=
  .of_sound (sound_carry fresh.sound operations)

/-- A stream behind a full region, of which some bytes are pinned, a commit of more than there is
room for, and one of more than can be counted. -/
theorem order_kept_overfull :
    let buffer := (Incoming.ofCapacity 4).withCeiling 64
    let source : Source := ⟨.ofBytes [3, 4, 5] (.paced (fun _ => 1) true none)⟩
    let operations : List Operation := [.scribble 0 [1, 2], .commit 2,
      .act (.request (.call .next)), .act (.move .setBarrier), .act (.request (.call .next)),
      .act (.request (.call .next)), .act (.move (.growToward 8)), .commit 0xfffffffffffffff0,
      .commit 0xffffffffffffffff, .act (.move .compact)]
    let unpacker := new buffer source .native
    buffer.Fresh ∧ Kept (unpacker.carry operations).buffer ∧
      (unpacker.carry operations).buffer.pinned = [2, 3] := by
  intro buffer source operations unpacker
  have fresh : buffer.Fresh := .ofCapacity 4 64 (by decide)
  exact ⟨fresh, order_kept fresh source .native operations, by cbv⟩

/-- Two bytes are committed, and then as many as a word can say. The end would be that of the
region, if the sum were not taken before the bound. -/
theorem commit_aborted :
    let unpacker := (new (.ofCapacity 4) (⟨⟩ : Exhausted) .native).carry
      [.scribble 0 [1, 2], .commit 2]
    let count : UInt64 := 0xffffffffffffffff
    min (unpacker.buffer.stop + count.toNat) unpacker.buffer.capacity = 4 ∧
      unpacker.buffer.commit? count.toNat = none := by
  intro unpacker count
  exact ⟨by cbv, by cbv⟩

end Unpacker
end MessagePack
