import MessagePack.Proofs.ScanEndings
import MessagePack.Proofs.DocumentTrees

/-! Reading from the front of an input. What the first call answers is told by the bytes that
it finds: nothing, the reserved tag, a timestamp of no known form, a whole item, or an item
that has been cut off and can be completed. A whole item is known by its own bytes alone,
so a stream that is cut somewhere yields the items before the cut and no others. -/
namespace MessagePack

namespace Unpacker

/-- What the first call answers that reads an item from bytes in memory, and the offset after
it. -/
def first (order : ByteOrder) (bytes : List UInt8) : Except Fault Item × Nat :=
  (ofBytes bytes order).next.map id offset

def Decodes (order : ByteOrder) (bytes : List UInt8) : Prop :=
  ∃ item taken, first order bytes = (.ok item, taken)

/-- The answers to the first call, each by what the bytes are. -/
structure Classified (order : ByteOrder) (bytes : List UInt8) : Prop where
  ended : (first order bytes).1 = .error .endOfInput ↔ bytes = []
  reserved : (first order bytes).1 = .error .malformedInput ↔ bytes.head? = some 0xc1
  odd : (first order bytes).1 = .error .wrongTimestampLength ↔ OddTimestamp bytes
  hopeless : OddTimestamp bytes → ∀ more, ¬Decodes order (bytes ++ more)
  item : ∀ item taken, first order bytes = (.ok item, taken) → taken ≤ bytes.length ∧
    ∀ other : List UInt8, other.take taken = bytes.take taken →
      first order other = (.ok item, taken)
  cut : (first order bytes).1 = .error .bufferUnderflow ↔
    bytes ≠ [] ∧ (∀ front, front <+: bytes → ¬Decodes order front) ∧
      ∃ more, Decodes order (bytes ++ more)
  complete : (∃ item, (first order bytes).1 = .ok item) ∨
    ∃ fault ∈ [Fault.endOfInput, .malformedInput, .wrongTimestampLength, .bufferUnderflow],
      (first order bytes).1 = .error fault

section

variable {order : ByteOrder} {bytes : List UInt8}

theorem first_eq (native : order.verify = .ok ()) (bytes : List UInt8) :
    first order bytes = (Item.scan order).read .endOfInput bytes := by
  have clean : (Reading.start bytes .endOfInput order).fault = none := by
    rw [Reading.start, native]
  obtain ⟨answered, follows⟩ := (follows_ofBytes bytes order).next
  have offset := follows.offset
  rw [Reading.next, Reading.attempt_of_clean clean] at answered offset
  rw [Reading.fst_settle] at answered
  rw [Reading.position_settle] at offset
  refine Prod.ext answered (offset.trans ?_)
  simp [Reading.perform, Reading.advance, Reading.start, Reading.rest]

theorem decodes_iff (native : order.verify = .ok ()) :
    Decodes order bytes ↔
      ∃ taken item, taken ≤ bytes.length ∧ (Item.scan order).Reads (bytes.take taken) item := by
  constructor
  · rintro ⟨item, taken, answered⟩
    rw [first_eq native] at answered
    exact ⟨taken, item, Scan.reads_of_read answered⟩
  · rintro ⟨taken, item, inside, reads⟩
    refine ⟨item, taken, ?_⟩
    rw [first_eq native]
    exact reads.settles.read inside _

theorem not_decodes_of_settles (native : order.verify = .ok ()) {taken : Nat} {fault : Fault}
    (inside : taken ≤ bytes.length)
    (settles : (Item.scan order).Settles (bytes.take taken) (.error fault)) (more : List UInt8) :
    ¬Decodes order (bytes ++ more) := by
  rintro ⟨item, count, answered⟩
  have length : taken ≤ (bytes ++ more).length := by simp; omega
  rw [← List.take_append_of_le_length inside] at settles
  rw [first_eq native, settles.read length] at answered
  cases answered

theorem first_nil (native : order.verify = .ok ()) :
    (first order []).1 = .error .endOfInput := by
  rw [first_eq native]
  rfl

theorem first_reserved (native : order.verify = .ok ()) (given : bytes.head? = some 0xc1) :
    (first order bytes).1 = .error .malformedInput ∧ ∀ more, ¬Decodes order (bytes ++ more) := by
  obtain ⟨rest, rfl⟩ := List.head?_eq_some_iff.mp given
  have inside : 1 ≤ ((0xc1 : UInt8) :: rest).length := by simp
  have settles := Item.settles_reserved order
  rw [first_eq native]
  exact ⟨congrArg Prod.fst (settles.read inside .endOfInput),
    not_decodes_of_settles native inside settles⟩

theorem first_of_take_eq (native : order.verify = .ok ()) {item : Item} {taken : Nat}
    (answered : first order bytes = (.ok item, taken)) :
    taken ≤ bytes.length ∧ ∀ other : List UInt8, other.take taken = bytes.take taken →
      first order other = (.ok item, taken) := by
  rw [first_eq native] at answered
  obtain ⟨inside, reads⟩ := Scan.reads_of_read answered
  refine ⟨inside, fun other same => ?_⟩
  have length := congrArg List.length same
  rw [List.length_take, List.length_take_of_le inside] at length
  rw [← same] at reads
  rw [first_eq native]
  exact reads.settles.read (by omega) .endOfInput

theorem Decodes.append (native : order.verify = .ok ()) (decodes : Decodes order bytes)
    (more : List UInt8) : Decodes order (bytes ++ more) := by
  obtain ⟨item, taken, answered⟩ := decodes
  obtain ⟨inside, stable⟩ := first_of_take_eq native answered
  exact ⟨item, taken, stable _ (List.take_append_of_le_length inside)⟩

theorem first_cases (native : order.verify = .ok ()) (bytes : List UInt8) :
    bytes = [] ∧ (first order bytes).1 = .error .endOfInput ∨
    bytes.head? = some 0xc1 ∧ (first order bytes).1 = .error .malformedInput ∨
    bytes ≠ [] ∧ bytes.head? ≠ some 0xc1 ∧
      ((∃ item, (first order bytes).1 = .ok item) ∨
        (first order bytes).1 = .error .wrongTimestampLength ∨
        (first order bytes).1 = .error .bufferUnderflow ∧
          ∃ more, Decodes order (bytes ++ more)) := by
  by_cases begun : bytes = []
  · subst begun
    exact .inl ⟨rfl, first_nil native⟩
  by_cases given : bytes.head? = some 0xc1
  · exact .inr (.inl ⟨given, (first_reserved native given).1⟩)
  refine .inr (.inr ⟨begun, given, ?_⟩)
  rw [first_eq native]
  rcases Item.scan_cases order begun given with
    ⟨taken, item, inside, reads⟩ | ⟨taken, inside, refuses⟩ | ⟨short, more, item, reads⟩
  · exact .inl ⟨item, congrArg Prod.fst (reads.settles.read inside .endOfInput)⟩
  · exact .inr (.inl (congrArg Prod.fst (refuses.read inside .endOfInput)))
  · refine .inr (.inr ⟨short .endOfInput, more, (decodes_iff native).mpr ?_⟩)
    exact ⟨(bytes ++ more).length, item, Nat.le_refl _, by rwa [List.take_length]⟩

theorem odd_iff (native : order.verify = .ok ()) :
    (first order bytes).1 = .error .wrongTimestampLength ↔ OddTimestamp bytes := by
  rw [first_eq native]
  exact Item.read_odd_iff native

theorem not_decodes_of_odd (native : order.verify = .ok ()) (odd : OddTimestamp bytes)
    (more : List UInt8) : ¬Decodes order (bytes ++ more) := by
  obtain ⟨taken, inside, settles⟩ := Item.settles_odd native odd
  exact not_decodes_of_settles native inside settles more

/-- An item is cut off just if it is none yet, nor has one before it, but can become one. -/
theorem underflow_iff (native : order.verify = .ok ()) :
    (first order bytes).1 = .error .bufferUnderflow ↔
      bytes ≠ [] ∧ (∀ front, front <+: bytes → ¬Decodes order front) ∧
        ∃ more, Decodes order (bytes ++ more) := by
  constructor
  · intro answered
    rcases first_cases native bytes with
      ⟨_, other⟩ | ⟨_, other⟩ | ⟨begun, _, ⟨item, other⟩ | other | ⟨_, completed⟩⟩
    · simp [answered] at other
    · simp [answered] at other
    · simp [answered] at other
    · simp [answered] at other
    · refine ⟨begun, ?_, completed⟩
      rintro front ⟨rest, rfl⟩ decodes
      obtain ⟨item, taken, whole⟩ := decodes.append native rest
      rw [whole] at answered
      cases answered
  · rintro ⟨begun, none, more, completed⟩
    rcases first_cases native bytes with
      ⟨ended, _⟩ | ⟨given, _⟩ | ⟨_, _, ⟨item, answered⟩ | answered | ⟨answered, _⟩⟩
    · exact absurd ended begun
    · exact absurd completed ((first_reserved native given).2 more)
    · exact absurd ⟨item, _, Prod.ext answered rfl⟩ (none bytes (List.prefix_refl bytes))
    · exact absurd completed (not_decodes_of_odd native ((odd_iff native).mp answered) more)
    · exact answered

/-- Every input is of one of the five kinds. -/
theorem classified (native : order.verify = .ok ()) (bytes : List UInt8) :
    Classified order bytes where
  ended := by
    rcases first_cases native bytes with
      ⟨rfl, answered⟩ | ⟨given, answered⟩ | ⟨begun, _, ⟨_, answered⟩ | answered | ⟨answered, _⟩⟩
    · simp [answered]
    · have begun : bytes ≠ [] := by rintro rfl; cases given
      simp [answered, begun]
    all_goals simp [answered, begun]
  reserved := by
    rcases first_cases native bytes with
      ⟨rfl, answered⟩ | ⟨given, answered⟩ | ⟨_, given, ⟨_, answered⟩ | answered | ⟨answered, _⟩⟩
    all_goals simp [answered]
    all_goals exact given
  odd := odd_iff native
  hopeless := not_decodes_of_odd native
  item := fun _ _ => first_of_take_eq native
  cut := underflow_iff native
  complete := by
    rcases first_cases native bytes with
      ⟨_, answered⟩ | ⟨_, answered⟩ | ⟨_, _, whole | answered | ⟨answered, _⟩⟩
    · exact .inr ⟨_, by simp, answered⟩
    · exact .inr ⟨_, by simp, answered⟩
    · exact .inl whole
    · exact .inr ⟨_, by simp, answered⟩
    · exact .inr ⟨_, by simp, answered⟩

end

/-! ### Streams that are cut -/

structure Piece where
  bytes : List UInt8
  item : Item

namespace Piece

/-- The bytes are an item, with none before it is complete and none behind it. -/
def Whole (order : ByteOrder) (piece : Piece) : Prop :=
  first order piece.bytes = (.ok piece.item, piece.bytes.length)

/-- Those of the pieces that end at the cut or before it. -/
def endingBy : (cut : Nat) → List Piece → List Piece
  | _, [] => []
  | cut, piece :: pieces =>
    if piece.bytes.length ≤ cut then piece :: endingBy (cut - piece.bytes.length) pieces else []

variable {order : ByteOrder} {piece : Piece}

theorem Whole.reads (whole : piece.Whole order) (native : order.verify = .ok ()) :
    (Item.scan order).Reads piece.bytes piece.item := by
  rw [Whole, first_eq native] at whole
  obtain ⟨_, reads⟩ := Scan.reads_of_read whole
  rwa [List.take_length] at reads

/-- A piece of an item is none, and can be completed unless it is empty. -/
theorem Whole.first_take (whole : piece.Whole order) (native : order.verify = .ok ()) {cut : Nat}
    (inside : cut < piece.bytes.length) :
    (first order (piece.bytes.take cut)).1 =
      .error (if cut = 0 then .endOfInput else .bufferUnderflow) := by
  by_cases start : cut = 0
  · subst start
    rw [List.take_zero, if_pos rfl]
    exact first_nil native
  rw [if_neg start]
  apply (underflow_iff native).mpr
  refine ⟨?_, ?_, piece.bytes.drop cut, ?_⟩
  · intro none
    have length := congrArg List.length none
    rw [List.length_take_of_le (Nat.le_of_lt inside)] at length
    exact start length
  · rintro front ⟨rest, split⟩ ⟨item, taken, answered⟩
    have length := congrArg List.length split
    rw [List.length_append, List.length_take_of_le (Nat.le_of_lt inside)] at length
    obtain ⟨within, stable⟩ := first_of_take_eq native answered
    have same : piece.bytes.take taken = front.take taken := by
      rw [← List.take_append_drop cut piece.bytes, ← split, List.append_assoc,
        List.take_append_of_le_length within]
    have again := stable piece.bytes same
    rw [Whole, again] at whole
    cases whole
    omega
  · rw [List.take_append_drop]
    exact ⟨_, _, whole⟩

end Piece

end Unpacker

namespace Reading

open Unpacker (Piece)

variable {reading : Reading}

theorem answer_next (clean : reading.fault = none) (closing : reading.closing = .endOfInput)
    (native : reading.order.verify = .ok ()) :
    reading.next.1 = (Unpacker.first reading.order reading.rest).1 := by
  rw [next, attempt_of_clean clean, fst_settle, perform, closing, Unpacker.first_eq native]

theorem answers_error {fault : Fault} (last : reading.next.1 = .error fault) :
    (reading.outcomes [.next]).map (·.answer) = [.error fault] := by
  simp [outcomes, call, Prod.map, last, Except.map]

theorem answers_cons {after : Reading} {item : Item} (first : reading.next = (.ok item, after))
    (calls : List Unpacker.Call) :
    (reading.outcomes (.next :: calls)).map (·.answer) =
      .ok (.item item) :: (after.outcomes calls).map (·.answer) := by
  simp [outcomes, call, Prod.map, first, Except.map]

/-- Reading goes from piece to piece up to the one that the cut is in. -/
theorem answers_cut (clean : reading.fault = none) (closing : reading.closing = .endOfInput)
    (native : reading.order.verify = .ok ()) {pieces : List Piece}
    (whole : ∀ piece ∈ pieces, piece.Whole reading.order) {cut : Nat}
    (within : cut ≤ (pieces.flatMap Piece.bytes).length)
    (ahead : reading.rest = (pieces.flatMap Piece.bytes).take cut) :
    (reading.outcomes (List.replicate ((Piece.endingBy cut pieces).length + 1) .next)).map
        (·.answer) =
      (Piece.endingBy cut pieces).map (fun piece => .ok (.item piece.item)) ++
        [.error (if ((Piece.endingBy cut pieces).flatMap Piece.bytes).length = cut then
          .endOfInput else .bufferUnderflow)] := by
  induction pieces generalizing reading cut with
  | nil =>
    obtain rfl : cut = 0 := Nat.le_zero.mp within
    have last : reading.next.1 = .error .endOfInput := by
      rw [answer_next clean closing native, ahead]
      exact Unpacker.first_nil native
    exact answers_error last
  | cons piece pieces ih =>
    have own := whole piece List.mem_cons_self
    rw [List.flatMap_cons] at within ahead
    rw [Piece.endingBy]
    by_cases inside : piece.bytes.length ≤ cut
    · rw [if_pos inside]
      rw [List.take_append, List.take_of_length_le inside] at ahead
      have first := next_of_reads clean (own.reads native) ahead
      have rest : (reading.advance piece.bytes.length).rest =
          (pieces.flatMap Piece.bytes).take (cut - piece.bytes.length) := by
        rw [rest_advance, ahead, List.drop_left]
      have shorter : cut - piece.bytes.length ≤ (pieces.flatMap Piece.bytes).length := by
        rw [List.length_append] at within
        omega
      have stays : (reading.advance piece.bytes.length).fault = none := clean
      have others := ih stays closing native
        (fun piece member => whole piece (List.mem_cons_of_mem _ member)) shorter rest
      have ends {length : Nat} :
          piece.bytes.length + length = cut ↔ length = cut - piece.bytes.length := by omega
      rw [List.length_cons, List.replicate_succ, answers_cons first, others]
      simp only [List.map_cons, List.cons_append, List.flatMap_cons, List.length_append, ends]
    · rw [if_neg inside]
      have inside := Nat.lt_of_not_le inside
      rw [List.take_append_of_le_length (Nat.le_of_lt inside)] at ahead
      have last := answer_next clean closing native
      rw [ahead, own.first_take native inside] at last
      refine (answers_error last).trans ?_
      simp [eq_comm]

end Reading

namespace Unpacker

/-- Prefixes. The first call that reads an item from memory answers by what the bytes are: an
item is told by its own bytes, and where there is none the fault says whether more bytes could
make one. So a stream of items that is cut anywhere yields the items before the cut, and then
says whether there was one in the middle. -/
theorem prefix_free {order : ByteOrder} (native : order.verify = .ok ()) :
    (∀ bytes, Classified order bytes) ∧
    ∀ pieces : List Piece, (∀ piece ∈ pieces, piece.Whole order) →
      ∀ cut ≤ (pieces.flatMap Piece.bytes).length,
        let unpacker := ofBytes ((pieces.flatMap Piece.bytes).take cut) order
        let before := Piece.endingBy cut pieces
        (unpacker.outcomes (.replicate (before.length + 1) .next)).map (·.answer) =
          before.map (fun piece => .ok (.item piece.item)) ++
            [.error (if (before.flatMap Piece.bytes).length = cut then .endOfInput
              else .bufferUnderflow)] := by
  refine ⟨classified native, fun pieces whole cut within => ?_⟩
  have clean : (Reading.start ((pieces.flatMap Piece.bytes).take cut) .endOfInput order).fault =
      none := by
    rw [Reading.start, native]
  dsimp only
  rw [(follows_ofBytes _ order).outcomes]
  exact Reading.answers_cut clean rfl native whole within rfl

/-- A number and a text, cut within the text. -/
theorem prefix_free_cut :
    let pieces : List Piece := [⟨[0x05], .integer 5⟩, ⟨[0xa2, 0x68, 0x69], .str [0x68, 0x69]⟩]
    ByteOrder.portable.verify = .ok () ∧ (∀ piece ∈ pieces, piece.Whole .portable) ∧
      Classified .portable [0xd6, 0xff] ∧
      ((ofBytes [0x05, 0xa2] .portable).outcomes [.next, .next]).map (·.answer) =
        [.ok (.item (.integer 5)), .error .bufferUnderflow] := by
  intro pieces
  have native : ByteOrder.portable.verify = .ok () := rfl
  have whole : ∀ piece ∈ pieces, piece.Whole .portable := by
    simp only [pieces, List.forall_mem_cons, List.not_mem_nil, false_imp_iff, implies_true,
      and_true, Piece.Whole, first_eq native]
    exact ⟨rfl, rfl⟩
  exact ⟨native, whole, (prefix_free native).1 _, (prefix_free native).2 pieces whole 2 (by decide)⟩

end Unpacker
end MessagePack
