import MessagePack.Proofs.TypedIntegers
import MessagePack.Proofs.ByteOrders
import MessagePack.Wire.Cursor

/-! A cursor on a run of bytes. Whatever is read through it, in whatever order, it stands behind
the bytes that it has handed out and before those that are left. A read that finds too few bytes
hands out none and leaves the cursor where it is, so the next one is not short of any. -/
namespace MessagePack

theorem ofTwosComplement_twosComplement {width word : Nat} (below : word < wordCount width) :
    ofTwosComplement width (twosComplement width word) = word := by
  unfold ofTwosComplement twosComplement
  split
  · rw [Int.emod_eq_of_lt (by omega) (by omega), Int.toNat_natCast]
  · rw [Int.sub_emod_right, Int.emod_eq_of_lt (by omega) (by omega), Int.toNat_natCast]

namespace Cursor

/-! ### Calls -/

/-- What is wanted of the bytes that are taken. -/
inductive Taking where
  | unsigned
  | signed
  /-- The bits of a real. -/
  | real
  | bytes
  | nothing
  deriving DecidableEq, Repr

/-- All that a cursor can be asked. -/
inductive Call where
  | take (taking : Taking) (width : Nat)
  | peek
  | size
  | reset (bytes : List UInt8)
  deriving DecidableEq, Repr

inductive Answer where
  | number (value : Nat)
  | integer (value : Int)
  | bits (value : Nat)
  | bytes (run : List UInt8)
  | byte (byte : UInt8)
  | count (count : Nat)
  | nothing
  deriving DecidableEq, Repr

def call (call : Call) (cursor : Cursor) : Except BytesFault Answer × Cursor :=
  match call with
  | .take .unsigned width => (cursor.unsigned width).map (Except.map .number) id
  | .take .signed width => (cursor.signed width).map (Except.map .integer) id
  | .take .real width => (cursor.unsigned width).map (Except.map .bits) id
  | .take .bytes width => (cursor.take width).map (Except.map .bytes) id
  | .take .nothing width => (cursor.skip width).map (Except.map fun _ => .nothing) id
  | .peek => (cursor.peek.map .byte, cursor)
  | .size => (.ok (.count cursor.size), cursor)
  | .reset bytes => (.ok .nothing, cursor.reset bytes)

def carry : List Call → Cursor → Cursor
  | [], cursor => cursor
  | call :: calls, cursor => (cursor.call call).2.carry calls

/-- The run of bytes that a cursor is on in the end, if it is on `slice` now. -/
def slice : List Call → (slice : List UInt8) → List UInt8
  | [], bytes => bytes
  | .reset bytes :: calls, _ => slice calls bytes
  | _ :: calls, bytes => slice calls bytes

/-! ### Bytes that are handed out -/

/-- What is made of bytes, apart from the order of a host. -/
def Taking.means (taking : Taking) (bytes : List UInt8) : Answer :=
  match taking with
  | .unsigned => .number (ofBigEndian bytes)
  | .signed => .integer (BitVec.ofNat (8 * bytes.length) (ofBigEndian bytes)).toInt
  | .real => .bits (ofBigEndian bytes)
  | .bytes => .bytes bytes
  | .nothing => .nothing

/-- The bytes that an answer to a read of `width` bytes spells. -/
def Answer.spelled (width : Nat) : Answer → List UInt8
  | .number value | .bits value => toBigEndian width value
  | .integer value => toBigEndian width (ofTwosComplement width value)
  | .bytes run => run
  | .byte _ | .count _ | .nothing => []

/-- The bytes that a call hands out: what its answer spells, or what it steps over. -/
def handed (cursor : Cursor) (call : Call) (answer : Except BytesFault Answer) : List UInt8 :=
  match call, answer with
  | .take .nothing width, .ok _ => (cursor.bytes.drop cursor.position).take width
  | .take _ width, .ok answer => answer.spelled width
  | _, _ => []

/-- The bytes handed out since the last reset, if `log` are those up to now. -/
def trail : List Call → Cursor → (log : List UInt8) → List UInt8
  | [], _, log => log
  | .reset bytes :: calls, cursor, _ => trail calls (cursor.call (.reset bytes)).2 []
  | call :: calls, cursor, log =>
    trail calls (cursor.call call).2 (log ++ cursor.handed call (cursor.call call).1)

/-- The cursor is on `slice`, behind the bytes of `log`. -/
structure Walks (slice log : List UInt8) (cursor : Cursor) : Prop where
  bytes : cursor.bytes = slice
  limit : cursor.limit = slice.length
  position_le : cursor.position ≤ cursor.limit
  native : cursor.order.verify = .ok ()
  log : log = slice.take cursor.position

/-- What a cursor answers next. -/
structure AnswersFrom (slice : List UInt8) (cursor : Cursor) : Prop where
  taken : ∀ taking width, width ≤ cursor.limit - cursor.position → ∃ bytes, bytes.length = width ∧
    slice = slice.take cursor.position ++ bytes ++ slice.drop (cursor.position + width) ∧
    cursor.call (.take taking width) =
      (.ok (taking.means bytes), { cursor with position := cursor.position + width })
  short : ∀ taking width, cursor.limit - cursor.position < width →
    cursor.call (.take taking width) = (.error .endOfBytes, cursor)
  peek : ∀ byte, slice[cursor.position]? = some byte →
    cursor.call .peek = (.ok (.byte byte), cursor)
  ended : slice[cursor.position]? = none → cursor.call .peek = (.error .endOfBytes, cursor)
  size : cursor.call .size = (.ok (.count (cursor.limit - cursor.position)), cursor)
  ranged : cursor.size? = some cursor.size
  reset : ∀ bytes, cursor.call (.reset bytes) = (.ok .nothing, .ofBytes bytes cursor.order)

namespace Walks

variable {slice log : List UInt8} {cursor : Cursor}

theorem ofBytes {order : ByteOrder} (native : order.verify = .ok ()) (bytes : List UInt8) :
    Walks bytes [] (.ofBytes bytes order) where
  bytes := rfl
  limit := rfl
  position_le := Nat.zero_le _
  native := native
  log := rfl

theorem size?_eq (walks : cursor.Walks slice log) : cursor.size? = some cursor.size :=
  Position.sub?_of_le walks.position_le

theorem take_eq (walks : cursor.Walks slice log) (width : Nat) :
    cursor.take width =
      if width ≤ cursor.limit - cursor.position then
        (.ok ((slice.drop cursor.position).take width),
          { cursor with position := cursor.position + width })
      else (.error .endOfBytes, cursor) := by
  rw [take, size, walks.bytes]

theorem length_taken (walks : cursor.Walks slice log) {width : Nat}
    (fits : width ≤ cursor.limit - cursor.position) :
    ((slice.drop cursor.position).take width).length = width := by
  have limit := walks.limit
  rw [List.length_take, List.length_drop]
  omega

/-- What the order of the host loads is the big-endian number, and what is made of it is what the
bytes mean. -/
theorem call_take (walks : cursor.Walks slice log) (taking : Taking) {width : Nat}
    (fits : width ≤ cursor.limit - cursor.position) :
    cursor.call (.take taking width) =
      (.ok (taking.means ((slice.drop cursor.position).take width)),
        { cursor with position := cursor.position + width }) := by
  have taken := walks.take_eq width
  have length := walks.length_taken fits
  rw [if_pos fits] at taken
  have load := ByteOrder.load_eq walks.native ((slice.drop cursor.position).take width)
  have below := ofBigEndian_lt ((slice.drop cursor.position).take width)
  cases taking with
  | unsigned | real => simp [call, unsigned, taken, Except.map, load, Taking.means]
  | signed =>
    simp only [call, Cursor.signed, unsigned, taken, Except.map, load, Taking.means,
      toInt_ofNat_word below, length, Prod.map, id]
  | bytes => simp [call, taken, Except.map, Taking.means]
  | nothing => simp [call, skip, taken, Except.map, Taking.means]

theorem call_take_short (walks : cursor.Walks slice log) (taking : Taking) {width : Nat}
    (short : cursor.limit - cursor.position < width) :
    cursor.call (.take taking width) = (.error .endOfBytes, cursor) := by
  have taken := walks.take_eq width
  rw [if_neg (Nat.not_le_of_lt short)] at taken
  cases taking <;> simp [call, signed, unsigned, skip, taken, Except.map]

theorem answersFrom (walks : cursor.Walks slice log) : cursor.AnswersFrom slice := by
  have bytes := walks.bytes
  have limit := walks.limit
  refine ⟨fun taking width fits => ?_, fun taking width => walks.call_take_short taking,
    fun byte found => ?_, fun none => ?_, rfl, walks.size?_eq, fun _ => rfl⟩
  · refine ⟨_, walks.length_taken fits, ?_, walks.call_take taking fits⟩
    rw [List.append_assoc, ← List.drop_drop, List.take_append_drop, List.take_append_drop]
  · obtain ⟨inside, _⟩ := List.getElem?_eq_some_iff.mp found
    have before : cursor.position < cursor.limit := by omega
    simp [call, peek, if_pos before, Except.map, bytes, found]
  · have behind : ¬cursor.position < cursor.limit := by
      have := List.getElem?_eq_none_iff.mp none
      omega
    simp only [call, peek, if_neg behind, Except.map]

theorem spelled_means {taking : Taking} (some : taking ≠ .nothing) (bytes : List UInt8) :
    (taking.means bytes).spelled bytes.length = bytes := by
  have below := ofBigEndian_lt bytes
  cases taking with
  | unsigned | real => exact toBigEndian_ofBigEndian bytes
  | signed =>
    simp only [Taking.means, Answer.spelled]
    rw [toInt_ofNat_word below, ofTwosComplement_twosComplement below]
    exact toBigEndian_ofBigEndian bytes
  | bytes => rfl
  | nothing => exact absurd rfl some

/-- The bytes that a call hands out lie between where the cursor is and where it goes. -/
theorem handed_take (walks : cursor.Walks slice log) (taking : Taking) {width : Nat}
    (fits : width ≤ cursor.limit - cursor.position) :
    cursor.handed (.take taking width) (cursor.call (.take taking width)).1 =
      (slice.drop cursor.position).take width := by
  have length := walks.length_taken fits
  rw [walks.call_take taking fits]
  by_cases none : taking = .nothing
  · subst none
    rw [← walks.bytes]
    rfl
  · have spelled := spelled_means none ((slice.drop cursor.position).take width)
    rw [length] at spelled
    cases taking with
    | nothing => exact absurd rfl none
    | unsigned | signed | real | bytes => exact spelled

theorem call_take_walks (walks : cursor.Walks slice log) (taking : Taking) (width : Nat) :
    (cursor.call (.take taking width)).2.Walks slice
      (log ++ cursor.handed (.take taking width) (cursor.call (.take taking width)).1) := by
  by_cases fits : width ≤ cursor.limit - cursor.position
  · have position_le := walks.position_le
    rw [walks.handed_take taking fits, walks.call_take taking fits]
    refine ⟨walks.bytes, walks.limit, ?_, walks.native, ?_⟩
    · dsimp only
      omega
    · rw [walks.log, List.take_add]
  · rw [walks.call_take_short taking (Nat.lt_of_not_le fits)]
    simpa [handed] using walks

theorem carry (walks : cursor.Walks slice log) (calls : List Call) :
    (cursor.carry calls).Walks (Cursor.slice calls slice) (trail calls cursor log) := by
  induction calls generalizing cursor slice log with
  | nil => exact walks
  | cons call calls ih =>
    cases call with
    | take taking width => exact ih (walks.call_take_walks taking width)
    | peek | size =>
      refine ih ?_
      simpa [handed, call] using walks
    | reset bytes => exact ih (.ofBytes walks.native bytes)

end Walks

/-- A cursor walks its bytes exactly. With every order that fits the host, and after any calls, a
reset to other bytes among them: it stands in its bytes, behind all that it has handed out. The
next read succeeds just if its bytes are there, answers what they mean and steps over them, or
else answers that they are not and leaves everything as it is. -/
theorem slice_walked {order : ByteOrder} (hosted : order ∈ ByteOrder.hosted) (bytes : List UInt8)
    (calls : List Call) :
    let cursor := (Cursor.ofBytes bytes order).carry calls
    cursor.Walks (slice calls bytes) (trail calls (.ofBytes bytes order) []) ∧
      cursor.AnswersFrom (slice calls bytes) := by
  have native := ByteOrder.verify_eq_ok_iff.mpr hosted
  have walks := (Walks.ofBytes native bytes).carry calls
  exact ⟨walks, walks.answersFrom⟩

/-- A reset, reads that are short and reads that are not, and a number below zero. -/
theorem slice_walked_reset :
    let calls : List Call := [.take .unsigned 1, .reset [0, 1, 0xff, 0xfe, 7, 8, 9],
      .take .unsigned 2, .take .signed 2, .take .real 4, .peek, .take .nothing 1, .size,
      .take .bytes 2, .take .unsigned 1]
    let cursor := (Cursor.ofBytes [5] .native).carry calls
    ByteOrder.native ∈ ByteOrder.hosted ∧
      cursor.Walks [0, 1, 0xff, 0xfe, 7, 8, 9] [0, 1, 0xff, 0xfe, 7, 8, 9] ∧
      cursor.call (.take .unsigned 1) = (.error .endOfBytes, cursor) := by
  intro calls cursor
  have hosted : ByteOrder.native ∈ ByteOrder.hosted := by decide
  obtain ⟨walks, serves⟩ := slice_walked hosted [5] calls
  have handed : trail calls (.ofBytes [5] .native) [] = [0, 1, 0xff, 0xfe, 7, 8, 9] := by decide
  rw [handed] at walks
  exact ⟨hosted, walks, serves.short .unsigned 1 (by decide)⟩

end Cursor
end MessagePack
