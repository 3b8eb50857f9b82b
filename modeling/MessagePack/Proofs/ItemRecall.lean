import Mathlib.Tactic
import MessagePack.Proofs.StreamWindow
import MessagePack.Proofs.HandlerMatching
import MessagePack.Proofs.StickyFaults
import MessagePack.Unpack.Stalled

/-! The item read last, as long as it can be had. What a buffer has ever held is a list that only
grows, whatever is dropped, moved or brought in later, and the buffer is a window on it. An
item's payload has its place in that list, so it is found there again or not at all. -/
namespace MessagePack

namespace Incoming

/-- A buffer whose positions are in order and can be told. -/
structure Sound (buffer : Incoming) : Prop where
  start_le : buffer.start ≤ buffer.current
  current_le : buffer.current ≤ buffer.stop
  stop_le : buffer.stop ≤ buffer.capacity
  barrier_bounds : ∀ barrier, buffer.barrier = some barrier →
    buffer.start ≤ barrier ∧ barrier ≤ buffer.current
  short : buffer.capacity < Position.modulus

/-- The buffer is a window on what has been `seen`, and maybe on more behind it. -/
structure Shows (seen : List UInt8) (buffer : Incoming) : Prop where
  short : buffer.capacity < Position.modulus
  window : ∃ more, buffer.Window (seen ++ more) []

/-- Puts bytes into the room, as many as it holds, and takes `count` of them for input. -/
def feed (buffer : Incoming) (bytes : List UInt8) (count : Nat) : Incoming :=
  let filled := bytes.take buffer.room
  (buffer.fill filled).commit (min count filled.length)

theorem Window.sound {input pending : List UInt8} {buffer : Incoming}
    (window : buffer.Window input pending) (short : buffer.capacity < Position.modulus) :
    buffer.Sound :=
  ⟨window.start_le, window.current_le, window.stop_le, window.barrier_bounds, short⟩

theorem Sound.shows {buffer : Incoming} (sound : buffer.Sound) : ∃ seen, buffer.Shows seen := by
  refine ⟨.replicate buffer.discarded 0 ++ buffer.region.slice buffer.start buffer.stop,
    sound.short, [], sound.start_le, sound.current_le, sound.stop_le, sound.barrier_bounds, ?_, ?_⟩
  · simp
  · simp

theorem shows_ofCapacity {capacity : Nat} (short : capacity < Position.modulus) :
    ∃ seen, (ofCapacity capacity).Shows seen := by
  refine ((Window.ofCapacity [] capacity).sound ?_).shows
  rwa [Incoming.capacity, ofCapacity, Region.size, Region.zeros, Array.size_replicate]

namespace Shows

variable {seen : List UInt8} {buffer : Incoming}

theorem whole (shows : buffer.Shows seen) :
    ∃ whole, buffer.Shows whole ∧ buffer.Window whole [] := by
  obtain ⟨short, more, window⟩ := shows
  exact ⟨_, ⟨short, [], by rwa [List.append_nil]⟩, window⟩

theorem move (shows : buffer.Shows seen) {other : Incoming} (region : other.region = buffer.region)
    (window : ∀ input, buffer.Window input [] → other.Window input []) : other.Shows seen := by
  obtain ⟨short, more, held⟩ := shows
  refine ⟨?_, more, window _ held⟩
  rw [capacity, region]
  exact short

theorem compact (shows : buffer.Shows seen) : buffer.compact.Shows seen := by
  obtain ⟨short, more, window⟩ := shows
  exact ⟨by rwa [capacity_compact], more, window.compact⟩

theorem growToward (shows : buffer.Shows seen) (needed : Nat) :
    (buffer.growToward needed).2.Shows seen := by
  obtain ⟨short, more, window⟩ := shows
  obtain ⟨region, same, stays, still, _⟩ := window.growToward needed short
  rw [same]
  exact ⟨still, more, stays⟩

/-- What is filled in is seen once it is committed. -/
theorem feed (shows : buffer.Shows seen) (bytes : List UInt8) (count : Nat) :
    (buffer.feed bytes count).Shows seen := by
  obtain ⟨short, more, window⟩ := shows
  have start_le := window.start_le
  have current_le := window.current_le
  have stop_le := window.stop_le
  have fits : (bytes.take buffer.room).length ≤ buffer.room := List.length_take_le ..
  simp only [Incoming.feed]
  generalize bytes.take buffer.room = filled at fits ⊢
  simp only [room, capacity] at short stop_le fits
  have stop : ((buffer.fill filled).commit (min count filled.length)).stop =
      buffer.stop + min count filled.length := by
    simp only [Incoming.commit, Incoming.fill, capacity, Region.size_overwrite]
    omega
  have size : ((buffer.fill filled).commit (min count filled.length)).capacity =
      buffer.region.size := Region.size_overwrite ..
  have before : (buffer.region.overwrite buffer.stop filled).slice buffer.start buffer.stop =
      buffer.region.slice buffer.start buffer.stop :=
    Region.slice_overwrite_before (by omega) (Nat.le_refl _)
  have whole := Region.slice_append_slice (buffer.region.overwrite buffer.stop filled)
    (Nat.le_trans start_le current_le) (Nat.le_add_right buffer.stop (min count filled.length))
  refine ⟨by rwa [size], more ++ (buffer.region.overwrite buffer.stop filled).slice buffer.stop
    (buffer.stop + min count filled.length), start_le, ?_, ?_, window.barrier_bounds, ?_, ?_⟩
  · rw [stop]
    exact Nat.le_trans current_le (Nat.le_add_right _ _)
  · rw [stop, size]
    omega
  · rw [← List.append_assoc, List.length_append]
    exact Nat.le_trans window.discarded_le (Nat.le_add_right _ _)
  · have contents := window.contents
    rw [List.append_nil] at contents ⊢
    rw [stop, ← List.append_assoc]
    change List.drop buffer.discarded _ =
      (buffer.region.overwrite buffer.stop filled).slice buffer.start _
    rw [List.drop_append_of_le_length window.discarded_le, contents, ← whole, before]

theorem rescan (shows : buffer.Shows seen) : (buffer.rescan?.getD buffer).Shows seen := by
  cases found : buffer.rescan? with
  | none => exact shows
  | some back =>
    obtain ⟨_, held⟩ := shows.window
    exact shows.move (held.rescan? found).2.2.2 fun _ window => (window.rescan? found).1

theorem advance (shows : buffer.Shows seen) {count : Nat} (enough : count ≤ buffer.remaining) :
    (buffer.advance count).Shows seen :=
  shows.move rfl fun _ window => window.advance enough

end Shows

/-- Bytes are found where they were seen, or have been dropped. -/
theorem Window.held?_eq {seen : List UInt8} {buffer : Incoming} (window : buffer.Window seen [])
    {place length : Nat} (inside : place + length ≤ seen.length) :
    buffer.held? place length =
      if buffer.discarded ≤ place then some ((seen.drop place).take length) else none := by
  have start_le := window.start_le
  have current_le := window.current_le
  have stop_le := window.stop_le
  have total := window.length_eq
  have contents := window.contents
  rw [List.length_nil] at total
  rw [List.append_nil] at contents
  simp only [held?]
  split
  · rename_i kept
    generalize position_eq : place - buffer.discarded + buffer.start = position
    have lower : buffer.start ≤ position := by omega
    have upper : position + length ≤ buffer.stop := by omega
    rw [if_pos (Nat.le_trans upper stop_le)]
    have back := Region.drop_slice buffer.region lower (by omega) stop_le
    have front := Region.take_slice buffer.region (Nat.le_add_right position length) upper stop_le
    have steps : position - buffer.start = place - buffer.discarded := by omega
    have found : seen.drop place = buffer.region.slice position buffer.stop := by
      rw [← back, ← contents, List.drop_drop]
      congr 1
      omega
    rw [Nat.add_sub_cancel_left] at front
    rw [found, front]
  · rfl

theorem Window.behind {input pending : List UInt8} {buffer : Incoming}
    (window : buffer.Window (input ++ pending) pending) : buffer.Window input [] := by
  have total := window.length_eq
  have contents := window.contents
  rw [List.length_append] at total
  have dropped : buffer.discarded ≤ input.length := by omega
  rw [List.drop_append_of_le_length dropped] at contents
  exact {
    start_le := window.start_le
    current_le := window.current_le
    stop_le := window.stop_le
    barrier_bounds := window.barrier_bounds
    discarded_le := dropped
    contents := by rw [List.append_nil]; exact List.append_cancel_right contents }

end Incoming

/-- A handler that leaves all that has been seen as it is, and brings more at most. -/
class Inlet.Honest (σ : Type) [Inlet σ] : Prop where
  refill (handler : σ) {seen : List UInt8} {buffer : Incoming} (needed : Nat)
    (shows : buffer.Shows seen) : (Refiller.refill handler buffer needed).buffer.Shows seen

theorem Inlet.Honest.lasts [Inlet σ] [Inlet.Honest σ] (seen : List UInt8) :
    Inlet.Lasts fun buffer (_ : σ) => buffer.Shows seen where
  advance shows enough := shows.advance enough
  refill {_ handler needed} shows _ := Inlet.Honest.refill handler needed shows

theorem Inlet.Honest.ties [Inlet σ] [Inlet.Honest σ] (seen : List UInt8) :
    Inlet.Match fun buffer (handler other : σ) => other = id handler ∧ buffer.Shows seen :=
  (Inlet.Honest.lasts seen).ties

instance : Inlet.Honest Exhausted := ⟨fun _ _ _ _ shows => shows⟩

instance : Inlet.Honest Stalled where
  refill handler _ _ _ shows := by
    cases handler with
    | report => exact shows
    | compact => exact shows.compact
    | fail fault => exact shows

theorem Input.pending_read (input : Input) (room : Nat) :
    ∃ arrived, input.pending = arrived ++ (input.read room).2.pending := by
  unfold read
  split
  · exact ⟨[], rfl⟩
  · dsimp only
    split
    · exact ⟨[], rfl⟩
    · exact ⟨_, (List.take_append_drop _ _).symm⟩

theorem Input.Reaches.pending {input later : Input} (reaches : input.Reaches later) :
    ∃ arrived, input.pending = arrived ++ later.pending := by
  induction reaches with
  | refl => exact ⟨[], rfl⟩
  | @read later _ room _ ih =>
    obtain ⟨before, split⟩ := ih
    obtain ⟨arrived, again⟩ := later.pending_read room
    exact ⟨before ++ arrived, by rw [split, again, List.append_assoc]⟩

instance : Inlet.Honest Source where
  refill source seen buffer needed shows := by
    obtain ⟨short, more, window⟩ := shows
    have covers : Source.Covers (seen ++ more) source.input buffer.region.ceiling buffer source :=
      ⟨window.append source.input.pending, short, .refl, rfl⟩
    have refills := (covers.refill needed).covers
    obtain ⟨arrived, split⟩ := refills.reached.pending
    have window := refills.window
    rw [split, List.append_assoc, ← List.append_assoc more, ← List.append_assoc] at window
    exact ⟨refills.short, _, window.behind⟩

/-! ### Items -/

/-- The payload of the item, which ends at `place` of the input, begins before the bytes from
`discarded` on. -/
def Item.Behind (item : Item) (place discarded : Nat) : Prop :=
  match item with
  | .str payload | .bin payload | .ext _ payload => place - payload.length < discarded
  | _ => False

theorem Item.behind_iff (item : Item) (place discarded : Nat) :
    item.Behind place discarded ↔
      item.header.payloadLength? = some item.payload.length ∧
        place - item.payload.length < discarded := by
  cases item <;> simp [Behind, header, Header.payloadLength?, payload]

namespace Unpacker

/-- The item read last ended at `place`, and its payload is among the bytes that have been seen. -/
structure Recalls (seen : List UInt8) (item : Item) (place : Nat) (unpacker : Unpacker σ) :
    Prop where
  shows : unpacker.buffer.Shows seen
  last : unpacker.last = some ⟨item.header, item.header.payloadLength?.map (place - ·)⟩
  inside : item.payload.length ≤ place ∧ place ≤ seen.length
  payload : item.payload = (seen.drop (place - item.payload.length)).take item.payload.length

variable {seen : List UInt8} {item : Item} {place : Nat} {unpacker after : Unpacker σ}

/-- An item that is recalled is had again, or its payload has been dropped. -/
theorem Recalls.cases (recalls : unpacker.Recalls seen item place) :
    ¬item.Behind place unpacker.buffer.discarded ∧ unpacker.item? = some item ∨
      item.Behind place unpacker.buffer.discarded ∧ unpacker.item? = none := by
  obtain ⟨⟨_, more, window⟩, last, ⟨reach, inside⟩, payload⟩ := recalls
  rcases item.payloadLength?_header with ⟨none, bare⟩ | announced
  · refine .inl ⟨?_, ?_⟩
    · rw [Item.behind_iff, none]
      rintro ⟨⟨⟩, _⟩
    · simp only [item?, last, none]
      rw [← bare, Item.withPayload_header]
  have found : unpacker.buffer.held? (place - item.payload.length) item.payload.length =
      if unpacker.buffer.discarded ≤ place - item.payload.length then some item.payload
      else none := by
    have end_le : place - item.payload.length + item.payload.length ≤ seen.length := by omega
    have same : ((seen ++ more).drop (place - item.payload.length)).take item.payload.length =
        item.payload := by
      rw [List.drop_append_of_le_length (by omega), List.take_append_of_le_length, ← payload]
      rw [List.length_drop]
      omega
    rw [window.held?_eq, same]
    rw [List.length_append]
    omega
  simp only [item?, last, announced, Option.map_some, Option.bind_eq_bind, Option.bind_some, found]
  by_cases kept : unpacker.buffer.discarded ≤ place - item.payload.length
  · refine .inl ⟨?_, ?_⟩
    · rw [Item.behind_iff]
      omega
    · rw [if_pos kept, Option.bind_some, Item.withPayload_header]
  · refine .inr ⟨?_, ?_⟩
    · rw [Item.behind_iff]
      exact ⟨announced, by omega⟩
    · rw [if_neg kept, Option.bind_none]

variable [Inlet σ]

theorem take_eq_ok {count : Nat} {leading : Bool} {bytes : List UInt8}
    (taken : unpacker.take count leading = (.ok bytes, after)) :
    ∃ ready, unpacker.demand count leading = (.ok (), ready) ∧ bytes = ready.front count ∧
      after = { ready with buffer := ready.buffer.advance count } := by
  unfold take at taken
  split at taken
  · cases taken
  · cases taken
    exact ⟨_, ‹_›, rfl, rfl⟩

section

variable [Inlet.Honest σ]

/-- Bytes that are taken have their place among those that have been seen, and are still held. -/
theorem seen_of_take {count : Nat} {leading : Bool} {bytes : List UInt8}
    (shows : unpacker.buffer.Shows seen)
    (taken : unpacker.take count leading = (.ok bytes, after)) :
    bytes.length = count ∧ count ≤ after.offset ∧
      after.buffer.discarded ≤ after.offset - count ∧
      ∃ whole, after.buffer.Shows whole ∧ after.offset ≤ whole.length ∧
        bytes = (whole.drop (after.offset - count)).take count := by
  obtain ⟨ready, demanded, rfl, rfl⟩ := take_eq_ok taken
  have asked := (Inlet.Honest.ties seen).demand (Matches.self shows) count leading
  rw [demanded] at asked
  have shows : ready.buffer.Shows seen := asked.2.rel.2
  obtain ⟨whole, shows, window⟩ := shows.whole
  have enough := remaining_of_demand demanded
  have kept : ready.buffer.offset =
      ready.buffer.discarded + (ready.buffer.current - ready.buffer.start) := rfl
  have reach := window.offset_add
  have moved : (ready.buffer.advance count).offset = ready.buffer.offset + count :=
    window.offset_advance count
  have front : ready.front count = (whole.drop ready.buffer.offset).take count :=
    window.front_eq enough
  rw [List.length_nil] at reach
  simp only [offset, moved, Nat.add_sub_cancel]
  refine ⟨?_, Nat.le_add_left _ _, ?_, whole, shows.advance enough, ?_, front⟩
  · rw [front, List.length_take, List.length_drop]
    omega
  · simp only [Incoming.advance]
    omega
  · omega

/-- An item whose payload has been read is recalled, and has not been dropped. -/
theorem recalls_of_readPayload (shows : unpacker.buffer.Shows seen) {header : Header}
    (read : unpacker.readPayload header = (.ok item, after)) :
    ¬item.Behind after.offset after.buffer.discarded ∧
      ∃ seen, after.Recalls seen item after.offset := by
  unfold readPayload at read
  split at read
  · rename_i none
    obtain ⟨same, bare⟩ := Header.withPayload_of_none none
    obtain ⟨whole, shows, window⟩ := shows.whole
    have reach := window.offset_add
    cases read
    rw [Item.behind_iff, same, none]
    refine ⟨by rintro ⟨⟨⟩, _⟩, whole, shows, ?_, ?_, ?_⟩
    · rw [same, none]
      rfl
    · rw [bare]
      exact ⟨Nat.zero_le _, by simp only [offset]; omega⟩
    · rw [bare]
      rfl
  · rename_i length announced
    split at read
    · cases read
    rename_i payload ready taken
    obtain ⟨rfl, behind, kept, whole, shows, reach, found⟩ := seen_of_take shows taken
    obtain ⟨same, carried⟩ := Header.withPayload_of_some announced
    cases read
    rw [Item.behind_iff, same, carried]
    refine ⟨fun dropped => Nat.not_le_of_lt dropped.2 kept, whole, shows, ?_, ?_, ?_⟩
    · rw [same, announced]
      rfl
    · rw [carried]
      exact ⟨behind, reach⟩
    · rw [carried]
      exact found

theorem recalls_of_next (shows : unpacker.buffer.Shows seen)
    (read : unpacker.next = (.ok item, after)) :
    ¬item.Behind after.offset after.buffer.discarded ∧
      ∃ seen, after.Recalls seen item after.offset := by
  have read := attempt_eq_ok read
  split at read
  · cases read
  rename_i header between scanned
  have opened := (Inlet.Honest.ties seen).header (Matches.self shows)
  rw [scanned] at opened
  exact recalls_of_readPayload opened.2.rel.2 read

theorem item_of_next (shows : unpacker.buffer.Shows seen)
    (read : unpacker.next = (.ok item, after)) : after.item? = some item := by
  obtain ⟨kept, _, recalls⟩ := recalls_of_next shows read
  rcases recalls.cases with ⟨_, same⟩ | ⟨behind, _⟩
  · exact same
  · exact absurd behind kept

end

/-! ### Runs -/

/-- What may be done to an unpacker and its buffer behind an item without reading another. -/
inductive Move where
  | lookAhead
  | setBarrier
  | clearBarrier
  | compact
  | growToward (needed : Nat)
  /-- Bytes are put into the room, and `count` of them taken for input. -/
  | feed (bytes : List UInt8) (count : Nat)
  | rescan
  /-- Unread bytes are stepped over, as many as there are. -/
  | advance (count : Nat)
  deriving DecidableEq, Repr

def move (move : Move) (unpacker : Unpacker σ) : Unpacker σ :=
  match move with
  | .lookAhead => unpacker.lookAhead.2
  | .setBarrier => unpacker.setBarrier
  | .clearBarrier => unpacker.clearBarrier
  | .compact => { unpacker with buffer := unpacker.buffer.compact }
  | .growToward needed => { unpacker with buffer := (unpacker.buffer.growToward needed).2 }
  | .feed bytes count => { unpacker with buffer := unpacker.buffer.feed bytes count }
  | .rescan => { unpacker with buffer := unpacker.buffer.rescan?.getD unpacker.buffer }
  | .advance count =>
    { unpacker with buffer := unpacker.buffer.advance (min count unpacker.buffer.remaining) }

/-- A request, or something done to the buffer. -/
inductive Act where
  | request (request : Request)
  | move (move : Move)
  deriving DecidableEq, Repr

def act (act : Act) (unpacker : Unpacker σ) : Unpacker σ :=
  match act with
  | .request request => unpacker.request request
  | .move move => unpacker.move move

def moves (moves : List Move) (unpacker : Unpacker σ) : Unpacker σ :=
  moves.foldl (fun unpacker move => unpacker.move move) unpacker

def acts (acts : List Act) (unpacker : Unpacker σ) : Unpacker σ :=
  acts.foldl (fun unpacker act => unpacker.act act) unpacker

variable [Inlet.Honest σ]

theorem shows_move (shows : unpacker.buffer.Shows seen) (move : Move) :
    (unpacker.move move).buffer.Shows seen ∧ (unpacker.move move).last = unpacker.last := by
  cases move with
  | lookAhead =>
    have ends := (Inlet.Honest.ties seen).lookAhead (Matches.self shows)
    exact ⟨ends.2.rel.2, unpacker.spares_lookAhead.last⟩
  | setBarrier => exact ⟨shows.move rfl fun _ window => window.setBarrier, rfl⟩
  | clearBarrier => exact ⟨shows.move rfl fun _ window => window.clearBarrier, rfl⟩
  | compact => exact ⟨shows.compact, rfl⟩
  | growToward needed => exact ⟨shows.growToward needed, rfl⟩
  | feed bytes count => exact ⟨shows.feed bytes count, rfl⟩
  | rescan => exact ⟨shows.rescan, rfl⟩
  | advance count => exact ⟨shows.advance (Nat.min_le_right _ _), rfl⟩

theorem Recalls.move (recalls : unpacker.Recalls seen item place) (move : Move) :
    (unpacker.move move).Recalls seen item place := by
  obtain ⟨shows, last⟩ := shows_move recalls.shows move
  exact ⟨shows, last.trans recalls.last, recalls.inside, recalls.payload⟩

theorem Recalls.moves (recalls : unpacker.Recalls seen item place) (moves : List Move) :
    (unpacker.moves moves).Recalls seen item place := by
  induction moves generalizing unpacker with
  | nil => exact recalls
  | cons move moves ih => exact ih (recalls.move move)

theorem shows_request (shows : unpacker.buffer.Shows seen) (request : Request) :
    (unpacker.request request).buffer.Shows seen :=
  ((Matches.self shows).request (Inlet.Honest.ties seen) request
    (fun _ _ _ _ tied => ⟨tied.1, tied.2.move rfl fun _ window => window.setBarrier⟩)
    (fun tied => ⟨tied.1, tied.2.move rfl fun _ window => window.clearBarrier⟩)
    fun tied found => ⟨tied.1, by
      have back := tied.2.rescan
      rwa [found] at back⟩).rel.2

theorem shows_acts (shows : unpacker.buffer.Shows seen) (acts : List Act) :
    (unpacker.acts acts).buffer.Shows seen := by
  induction acts generalizing unpacker with
  | nil => exact shows
  | cons act acts ih =>
    refine ih ?_
    cases act with
    | request request => exact shows_request shows request
    | move move => exact (shows_move shows move).1

/-- Recall. Whatever has been asked of an unpacker and done to its buffer before, the item that
is read next is at hand, and stays so through all moves, byte for byte, until the beginning of
its payload has been dropped; then there is no item at hand. -/
theorem item_recalled {buffer : Incoming} (sound : buffer.Sound) (handler : σ) (order : ByteOrder)
    (acts : List Act)
    (read : ((new buffer handler order).acts acts).next = (.ok item, after)) :
    after.item? = some item ∧ ∀ moves,
      ((after.moves moves).item? = some item ∨ (after.moves moves).item? = none) ∧
      ((after.moves moves).item? = none ↔
        item.Behind after.offset (after.moves moves).buffer.discarded) := by
  obtain ⟨seen, shows⟩ := sound.shows
  have shows : (new buffer handler order).buffer.Shows seen := shows
  obtain ⟨kept, seen, recalls⟩ := recalls_of_next (shows_acts shows acts) read
  refine ⟨?_, fun moves => ?_⟩
  · rcases recalls.cases with ⟨_, same⟩ | ⟨behind, _⟩
    · exact same
    · exact absurd behind kept
  · rcases (recalls.moves moves).cases with ⟨still, same⟩ | ⟨behind, gone⟩
    · exact ⟨.inl same, by simp [same, still]⟩
    · exact ⟨.inr gone, by simp [gone, behind]⟩

/-- A text behind a number, of a stream that brings a byte at a time and goes on behind it. -/
theorem item_recalled_text :
    let input := Input.ofBytes [0x01, 0xa2, 0x68, 0x69, 0xc3] (.paced (fun _ => 1) true none)
    let unpacker := (new (.ofCapacity 3) (Source.mk input) .portable).acts
      [.request (.call .next), .move .setBarrier]
    let after := unpacker.next.2
    ((Incoming.ofCapacity 3).Sound ∧ unpacker.next = (.ok (.str [0x68, 0x69]), after)) ∧
      after.item? = some (.str [0x68, 0x69]) ∧ ∀ moves,
        ((after.moves moves).item? = some (.str [0x68, 0x69]) ∨
          (after.moves moves).item? = none) ∧
        ((after.moves moves).item? = none ↔
          (Item.str [0x68, 0x69]).Behind after.offset (after.moves moves).buffer.discarded) := by
  intro input unpacker after
  have sound : (Incoming.ofCapacity 3).Sound := (Incoming.Window.ofCapacity [] 3).sound (by decide)
  have answered : unpacker.next.1 = .ok (.str [0x68, 0x69]) := by cbv
  have read : unpacker.next = (.ok (.str [0x68, 0x69]), after) := by
    rw [← answered]
  exact ⟨⟨sound, read⟩, item_recalled sound _ _ [.request (.call .next), .move .setBarrier] read⟩

end Unpacker

end MessagePack
