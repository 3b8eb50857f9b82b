import MessagePack.Proofs.ShortestForms
import MessagePack.Proofs.RoomRequests

/-! Byte orders of one host. Those that fit it store and load every word alike, big-endian, so
that an order can be put in the place of another at any time: nothing that is packed, read or
answered tells which of them is at work, whatever handlers do and whatever is done to a buffer
by hand. -/
namespace MessagePack

/-! ### Words -/

theorem getElem?_toBigEndian {width place : Nat} (inside : place < width) (value : Nat) :
    (toBigEndian width value)[place]? =
      some (.ofNat (value >>> (8 * (width - 1 - place)))) := by
  induction width generalizing value with
  | zero => cases inside
  | succ width ih =>
    rw [toBigEndian]
    by_cases last : place = width
    · subst last
      rw [List.getElem?_append_right (by simp)]
      simp
    · have front : place < width := by omega
      have shift : 8 * (width + 1 - 1 - place) = 8 + 8 * (width - 1 - place) := by omega
      rw [List.getElem?_append_left (by simpa using front), ih front, shift,
        Nat.shiftRight_add, Nat.shiftRight_eq_div_pow value 8]

namespace ByteOrder

def hosted : List ByteOrder := [native, little, portable]

theorem verify_eq_ok_iff {order : ByteOrder} : order.verify = .ok () ↔ order ∈ hosted := by
  cases order <;> simp [verify, layout?, hosted, native, Layout.host]

theorem store_eq {order : ByteOrder} (fits : order.verify = .ok ()) (width value : Nat) :
    order.store width value = toBigEndian width value := by
  cases order with
  | little =>
    have again := toBigEndian_ofBigEndian (toBigEndian width value).reverse
    rw [List.length_reverse, length_toBigEndian] at again
    simp only [store, Layout.host, Layout.store, swapBytes]
    rw [again, List.reverse_reverse]
  | big => cases fits
  | portable => exact Bytewise.store_eq width value

theorem store_congr {order other : ByteOrder} (fits : order.verify = .ok ())
    (alike : other.verify = .ok ()) : other.store = order.store := by
  funext width value
  rw [store_eq fits, store_eq alike]

theorem load_congr {order other : ByteOrder} (fits : order.verify = .ok ())
    (alike : other.verify = .ok ()) : other.load = order.load := by
  funext bytes
  rw [load_eq fits, load_eq alike]

/-- Words of every width go to the wire and come back as they should; a real goes as the word
of its bits. -/
structure Carries (order : ByteOrder) : Prop where
  length : ∀ width value, (order.store width value).length = width
  bytes : ∀ {width place}, place < width → ∀ value,
    (order.store width value)[place]? = some (.ofNat (value >>> (8 * (width - 1 - place))))
  /-- Where a word is stored in memory no other byte is touched. -/
  writes : ∀ {region : Region} {position width}, position + width ≤ region.size →
    ∀ value place, (region.overwrite position (order.store width value)).toList[place]? =
      if position ≤ place ∧ place < position + width then
        (order.store width value)[place - position]?
      else region.toList[place]?
  load_store : ∀ {width value}, value < wordCount width →
    order.load (order.store width value) = value
  store_load : ∀ bytes, order.store bytes.length (order.load bytes) = bytes
  signed : ∀ {width} {value : Int}, -wordCount width ≤ 2 * value → 2 * value < wordCount width →
    twosComplement width (order.load (order.store width (ofTwosComplement width value))) = value

end ByteOrder

/-- Bytes that are written take their own places and leave the others alone. -/
theorem Region.getElem?_overwrite {region : Region} {position : Nat} {new : List UInt8}
    (room : position + new.length ≤ region.size) (place : Nat) :
    (region.overwrite position new).toList[place]? =
      if position ≤ place ∧ place < position + new.length then new[place - position]?
      else region.toList[place]? := by
  have front : (region.toList.take position).length = position := by
    rw [List.length_take, length_toList]
    omega
  have whole : (region.toList.take position ++ new).length = position + new.length := by
    rw [List.length_append, front]
  rw [toList_overwrite room]
  by_cases before : place < position
  · rw [if_neg (by omega), List.getElem?_append_left (by omega),
      List.getElem?_append_left (by omega), List.getElem?_take_of_lt before]
  by_cases inside : place < position + new.length
  · rw [if_pos ⟨by omega, inside⟩, List.getElem?_append_left (by omega),
      List.getElem?_append_right (by omega), front]
  · rw [if_neg (by omega), List.getElem?_append_right (by omega), List.getElem?_drop, whole]
    congr 1
    omega

theorem ByteOrder.carries {order : ByteOrder} (fits : order.verify = .ok ()) : order.Carries where
  length := order.length_store
  bytes inside value := by
    rw [store_eq fits]
    exact getElem?_toBigEndian inside value
  writes {region position width} room value place := by
    have length := order.length_store width value
    have inside : position + (order.store width value).length ≤ region.size := by
      rw [length]
      exact room
    have written := Region.getElem?_overwrite inside place
    rwa [length] at written
  load_store := order.load_store
  store_load bytes := by
    rw [store_eq fits, load_eq fits]
    exact toBigEndian_ofBigEndian bytes
  signed {width value} lower upper := by
    rw [order.load_store (ofTwosComplement_lt width value)]
    exact twosComplement_ofTwosComplement lower upper

/-! ### Packing -/

section

variable {order other : ByteOrder}

namespace Encode

theorem withField_congr (same : other.store = order.store) :
    withField other = withField order := by
  funext tag width value
  simp only [withField, same]

theorem extWord_congr (same : other.store = order.store) : extWord other = extWord order := by
  funext type i word
  simp only [extWord, same]

theorem natural_congr (same : other.store = order.store) : natural other = natural order := by
  funext value
  simp only [natural, withField_congr same]

theorem integer_congr (same : other.store = order.store) : integer other = integer order := by
  funext value
  simp only [integer, natural_congr same, withField_congr same]

theorem strHeader_congr (same : other.store = order.store) (compatible : Bool) :
    strHeader ⟨compatible, other⟩ = strHeader ⟨compatible, order⟩ := by
  funext length
  simp only [strHeader, withField_congr same]

theorem binHeader_congr (same : other.store = order.store) (compatible : Bool) :
    binHeader ⟨compatible, other⟩ = binHeader ⟨compatible, order⟩ := by
  funext length
  simp only [binHeader, strHeader_congr same, withField_congr same]

theorem extHeader_congr (same : other.store = order.store) :
    extHeader other = extHeader order := by
  funext type length
  simp only [extHeader, withField_congr same]

theorem compactFloat_congr (same : other.store = order.store) :
    compactFloat other = compactFloat order := by
  funext bits
  simp only [compactFloat, float, integer_congr same, withField_congr same]

theorem compactDouble_congr (same : other.store = order.store) :
    compactDouble other = compactDouble order := by
  funext bits
  simp only [compactDouble, float, double, integer_congr same, withField_congr same]

end Encode

theorem Timestamp.encode_congr (same : other.store = order.store) (compatible : Bool) :
    encode ⟨compatible, other⟩ = encode ⟨compatible, order⟩ := by
  funext time
  simp only [encode, Encode.timestamp, Encode.extWord_congr same, same]

open Encode in
theorem Value.encode_congr (same : other.store = order.store) (compatible : Bool) :
    encode ⟨compatible, other⟩ = encode ⟨compatible, order⟩ := by
  funext value
  cases value <;>
    simp only [encode, Encode.float, Encode.double, Encode.array, Encode.map, Encode.extInteger,
      natural_congr same, integer_congr same, withField_congr same, extWord_congr same,
      compactFloat_congr same, compactDouble_congr same, strHeader_congr same,
      binHeader_congr same, extHeader_congr same, Timestamp.encode_congr same]

end

namespace Packer

def inOrder (packer : Packer σ) (order : ByteOrder) : Packer σ :=
  { packer with dialect := { packer.dialect with order } }

/-- A call, or anything that is done to the buffer and the handler by hand. -/
inductive Deed (σ : Type) where
  | call (call : Call)
  | alter (change : Outgoing → σ → Outgoing × σ)

variable {other : ByteOrder}

theorem attempt_inOrder {packer : Packer σ} {call : Packer σ → Status × Packer σ}
    (blind : call (packer.inOrder other) = (call packer).map id (·.inOrder other)) :
    (packer.inOrder other).attempt call = (packer.attempt call).map id (·.inOrder other) := by
  have fault : (packer.inOrder other).fault = packer.fault := rfl
  rw [attempt, attempt, fault, blind]
  cases packer.fault with
  | some fault => rfl
  | none =>
    generalize call packer = result
    rcases result with ⟨fault | _, after⟩ <;> rfl

variable [Outlet σ]

theorem emit_inOrder (packer : Packer σ) (bytes : List UInt8) :
    (packer.inOrder other).emit bytes = (packer.emit bytes).map id (·.inOrder other) := by
  by_cases room : bytes.length ≤ packer.buffer.remaining
  · have same : bytes.length ≤ (packer.inOrder other).buffer.remaining := room
    rw [emit_of_room room, emit_of_room same]
    rfl
  · have short := Nat.lt_of_not_le room
    have lacks : (packer.inOrder other).buffer.remaining < bytes.length := short
    have asked : Outlet.makeRoom (packer.inOrder other).handler (packer.inOrder other).buffer
        bytes.length = Outlet.makeRoom packer.handler packer.buffer bytes.length := rfl
    rw [emit_of_short short, emit_of_short lacks, asked]
    generalize Outlet.makeRoom packer.handler packer.buffer bytes.length = reply
    obtain ⟨fault | _, handler, buffer⟩ := reply
    · rfl
    · dsimp only
      split <;> rfl

theorem pack_inOrder {packer : Packer σ} (same : other.store = packer.dialect.order.store)
    (value : Value) :
    (packer.inOrder other).pack value = (packer.pack value).map id (·.inOrder other) := by
  have encoded : value.encode (packer.inOrder other).dialect = value.encode packer.dialect :=
    congrFun (Value.encode_congr same packer.dialect.compatible) value
  rw [pack_eq, pack_eq]
  apply attempt_inOrder
  rw [encoded]
  cases value.encode packer.dialect with
  | error fault => rfl
  | ok bytes => exact packer.emit_inOrder bytes

theorem insert_inOrder (packer : Packer σ) (bytes : List UInt8) :
    (packer.inOrder other).insert bytes = (packer.insert bytes).map id (·.inOrder other) := by
  have handler : (packer.inOrder other).handler = packer.handler := rfl
  have buffer : (packer.inOrder other).buffer = packer.buffer := rfl
  apply attempt_inOrder
  rw [handler, buffer, emit_inOrder]
  split
  · simp only [settle]
    generalize Outlet.flush packer.handler packer.buffer = reply
    obtain ⟨fault | _, after, left⟩ := reply <;> rfl
  · rfl

theorem flush_inOrder (packer : Packer σ) :
    (packer.inOrder other).flush = packer.flush.map id (·.inOrder other) := by
  have handler : (packer.inOrder other).handler = packer.handler := rfl
  apply attempt_inOrder
  rw [handler]
  split <;> rfl

theorem call_inOrder {packer : Packer σ} (same : other.store = packer.dialect.order.store)
    (call : Call) :
    (packer.inOrder other).call call = (packer.call call).map id (·.inOrder other) := by
  cases call with
  | pack value => exact pack_inOrder same value
  | insert bytes => exact packer.insert_inOrder bytes
  | flush => exact packer.flush_inOrder
  | _ => rfl

def deed (deed : Deed σ) (packer : Packer σ) : Status × Packer σ :=
  match deed with
  | .call call => packer.call call
  | .alter change =>
    let (buffer, handler) := change packer.buffer packer.handler
    (.ok (), { packer with buffer, handler })

def course : List (Deed σ) → Packer σ → List (Status × Packer σ)
  | [], _ => []
  | deed :: deeds, packer => packer.deed deed :: (packer.deed deed).2.course deeds

theorem deed_inOrder {packer : Packer σ} (same : other.store = packer.dialect.order.store)
    (deed : Deed σ) :
    (packer.inOrder other).deed deed = (packer.deed deed).map id (·.inOrder other) := by
  cases deed with
  | call call => exact call_inOrder same call
  | alter change => rfl

theorem order_deed (deed : Deed σ) (packer : Packer σ) :
    (packer.deed deed).2.dialect.order = packer.dialect.order := by
  cases deed with
  | call call => exact packer.order_call call
  | alter change => rfl

theorem course_inOrder {packer : Packer σ} (same : other.store = packer.dialect.order.store)
    (deeds : List (Deed σ)) :
    (packer.inOrder other).course deeds =
      (packer.course deeds).map (·.map id (·.inOrder other)) := by
  induction deeds generalizing packer with
  | nil => rfl
  | cons deed deeds ih =>
    have after : other.store = (packer.deed deed).2.dialect.order.store := by
      rw [order_deed]
      exact same
    rw [course, course, List.map_cons, deed_inOrder same deed, ← ih after]
    rfl

end Packer

/-! ### Unpacking -/

section

variable {order other : ByteOrder}

theorem Extent.scan_congr (same : other.load = order.load) : scan other = scan order := by
  have after : scanAfter other = scanAfter order := by
    funext tag
    cases tag <;> simp only [scanAfter, Scan.field_congr same]
  simp only [scan, after]

namespace ExtNumber

theorem integer_congr (same : other.load = order.load) : integer other = integer order := by
  funext payload
  simp only [integer_eq, same]

theorem float_congr (same : other.load = order.load) : float other = float order := by
  funext payload
  simp only [float_eq, same]

theorem double_congr (same : other.load = order.load) : double other = double order := by
  funext payload
  simp only [double_eq, same]

end ExtNumber

end

namespace Unpacker

def inOrder (unpacker : Unpacker σ) (order : ByteOrder) : Unpacker σ := { unpacker with order }

/-- A request, or anything that is done to the buffer and the handler by hand. -/
inductive Deed (σ : Type) where
  | request (request : Request)
  | alter (change : Incoming → σ → Incoming × σ)

variable {other : ByteOrder} {unpacker : Unpacker σ}

theorem settle_inOrder (answer : Except Fault α) :
    (unpacker.inOrder other).settle answer =
      (unpacker.settle answer).map id (·.inOrder other) := by
  cases answer <;> rfl

theorem attempt_inOrder {call : Unpacker σ → Except Fault α × Unpacker σ}
    (blind : call (unpacker.inOrder other) = (call unpacker).map id (·.inOrder other)) :
    (unpacker.inOrder other).attempt call =
      (unpacker.attempt call).map id (·.inOrder other) := by
  have fault : (unpacker.inOrder other).fault = unpacker.fault := rfl
  rw [attempt, attempt, fault, blind]
  cases unpacker.fault with
  | some fault => rfl
  | none => exact settle_inOrder _

theorem currentExt_inOrder {read : ByteOrder → List UInt8 → Except Fault α}
    (same : read other = read unpacker.order) :
    (unpacker.inOrder other).currentExt read =
      (unpacker.currentExt read).map id (·.inOrder other) := by
  have item : (unpacker.inOrder other).item? = unpacker.item? := rfl
  have order : (unpacker.inOrder other).order = other := rfl
  apply attempt_inOrder
  rw [item, order, same]
  split <;> rfl

theorem rescan_inOrder :
    (unpacker.inOrder other).rescan = unpacker.rescan.map id (·.inOrder other) := by
  have buffer : (unpacker.inOrder other).buffer = unpacker.buffer := rfl
  apply attempt_inOrder
  rw [buffer]
  split <;> rfl

variable [Inlet σ]

theorem demand_inOrder (needed : Nat) (leading : Bool) :
    (unpacker.inOrder other).demand needed leading =
      (unpacker.demand needed leading).map id (·.inOrder other) := by
  have buffer : (unpacker.inOrder other).buffer = unpacker.buffer := rfl
  have refilled : (unpacker.inOrder other).refill needed =
      (unpacker.refill needed).map id (·.inOrder other) := rfl
  rw [demand, demand, buffer, refilled]
  by_cases enough : needed ≤ unpacker.buffer.remaining
  · rw [if_pos enough, if_pos enough]
    rfl
  rw [if_neg enough, if_neg enough]
  generalize unpacker.refill needed = result
  obtain ⟨fault | _, after⟩ := result
  · cases fault <;> rfl
  · have room : (after.inOrder other).buffer.remaining = after.buffer.remaining := rfl
    simp only [Prod.map, id, room]
    split <;> rfl

theorem take_inOrder (count : Nat) (leading : Bool) :
    (unpacker.inOrder other).take count leading =
      (unpacker.take count leading).map id (·.inOrder other) := by
  rw [take, take, demand_inOrder]
  generalize unpacker.demand count leading = result
  obtain ⟨fault | _, after⟩ := result <;> rfl

theorem peek_inOrder (count : Nat) :
    (unpacker.inOrder other).peek count = (unpacker.peek count).map id (·.inOrder other) := by
  rw [peek, peek, demand_inOrder]
  generalize unpacker.demand count true = result
  obtain ⟨fault | _, after⟩ := result <;> rfl

theorem perform_inOrder (scan : Scan α) :
    perform scan (unpacker.inOrder other) = (perform scan unpacker).map id (·.inOrder other) := by
  induction scan generalizing unpacker with
  | done value => rfl
  | fail fault => rfl
  | take count leading next ih =>
    rw [perform, perform, take_inOrder]
    generalize unpacker.take count leading = result
    obtain ⟨fault | bytes, after⟩ := result
    · rfl
    · exact ih bytes

theorem header_inOrder (same : other.load = unpacker.order.load) :
    perform (Header.scan (unpacker.inOrder other).order)
        { unpacker.inOrder other with last := none } =
      (perform (Header.scan unpacker.order) { unpacker with last := none }).map id
        (·.inOrder other) := by
  have order : (unpacker.inOrder other).order = other := rfl
  have begun : { unpacker.inOrder other with last := none } =
      inOrder { unpacker with last := none } other := rfl
  rw [order, Header.scan_congr same, begun, perform_inOrder]

theorem nextHeader_inOrder (same : other.load = unpacker.order.load) :
    (unpacker.inOrder other).nextHeader = unpacker.nextHeader.map id (·.inOrder other) := by
  apply attempt_inOrder
  rw [header_inOrder same]
  generalize perform (Header.scan unpacker.order) { unpacker with last := none } = result
  obtain ⟨fault | header, after⟩ := result <;> rfl

theorem readPayload_inOrder (header : Header) :
    (unpacker.inOrder other).readPayload header =
      (unpacker.readPayload header).map id (·.inOrder other) := by
  simp only [readPayload, take_inOrder]
  cases header.payloadLength? with
  | none => rfl
  | some length =>
    dsimp only
    generalize unpacker.take length false = result
    obtain ⟨fault | payload, after⟩ := result <;> rfl

theorem next_inOrder (same : other.load = unpacker.order.load) :
    (unpacker.inOrder other).next = unpacker.next.map id (·.inOrder other) := by
  apply attempt_inOrder
  rw [header_inOrder same]
  generalize perform (Header.scan unpacker.order) { unpacker with last := none } = result
  obtain ⟨fault | header, after⟩ := result
  · rfl
  · exact readPayload_inOrder header

theorem nextAs_inOrder (same : other.load = unpacker.order.load)
    (view : Item → Except Fault α) :
    (unpacker.inOrder other).nextAs view = (unpacker.nextAs view).map id (·.inOrder other) := by
  rw [nextAs, nextAs, next_inOrder same]
  generalize unpacker.next = result
  obtain ⟨fault | item, after⟩ := result
  · rfl
  · exact settle_inOrder _

theorem skipPending_inOrder (same : other.load = unpacker.order.load) (pending : Nat) :
    (unpacker.inOrder other).skipPending pending =
      (unpacker.skipPending pending).map id (·.inOrder other) := by
  have order (unpacker : Unpacker σ) : (unpacker.inOrder other).order = other := rfl
  fun_induction skipPending pending unpacker with
  | case1 unpacker =>
    rw [skipPending_zero]
    rfl
  | case2 unpacker pending fault after stepped =>
    rw [skipPending_succ, order, Extent.scan_congr same, perform_inOrder, stepped]
    rfl
  | case3 unpacker pending items after stepped room ih =>
    have kept := (unpacker.spares_perform (Extent.scan unpacker.order)).order
    rw [stepped] at kept
    rw [skipPending_succ, order, Extent.scan_congr same, perform_inOrder, stepped]
    exact (if_pos room).trans (ih (by rw [kept]; exact same))
  | case4 unpacker pending items after stepped full =>
    rw [skipPending_succ, order, Extent.scan_congr same, perform_inOrder, stepped]
    exact if_neg full

theorem skip_inOrder (same : other.load = unpacker.order.load) (count : UInt64) :
    (unpacker.inOrder other).skip count = (unpacker.skip count).map id (·.inOrder other) := by
  have begun : { unpacker.inOrder other with last := none } =
      inOrder { unpacker with last := none } other := rfl
  apply attempt_inOrder
  rw [begun, skipPending_inOrder]
  exact same

theorem lookAhead_inOrder :
    (unpacker.inOrder other).lookAhead = unpacker.lookAhead.map id (·.inOrder other) := by
  have fault : (unpacker.inOrder other).fault = unpacker.fault := rfl
  rw [lookAhead, lookAhead, fault, peek_inOrder]
  split
  · rfl
  generalize unpacker.peek 1 = result
  obtain ⟨_ | bytes, after⟩ := result
  · rfl
  simp only [Prod.map, id, peek_inOrder]
  cases Kind.Clue.ofTag (.ofByte (bytes.headD 0)) with
  | known kind => rfl
  | extType count | sign count =>
    dsimp only
    generalize after.peek count = result
    obtain ⟨_ | bytes, after⟩ := result <;> rfl

/-- What one request preserves. -/
theorem reply_inOrder (same : other.load = unpacker.order.load) (request : Request) :
    (unpacker.inOrder other).reply request =
      (unpacker.reply request).map id (·.inOrder other) := by
  cases request with
  | extInteger =>
    simp only [reply, extInteger, currentExt_inOrder (ExtNumber.integer_congr same)]
    rfl
  | extFloat =>
    simp only [reply, extFloat, currentExt_inOrder (ExtNumber.float_congr same)]
    rfl
  | extDouble =>
    simp only [reply, extDouble, currentExt_inOrder (ExtNumber.double_congr same)]
    rfl
  | call call =>
    cases call with
    | next =>
      simp only [reply, Unpacker.call, next_inOrder same]
      rfl
    | nextHeader =>
      simp only [reply, Unpacker.call, nextHeader_inOrder same]
      rfl
    | nextAs view => exact nextAs_inOrder same view.read
    | skip count =>
      simp only [reply, Unpacker.call, skip_inOrder same]
      rfl
    | lookAhead =>
      simp only [reply, Unpacker.call, lookAhead_inOrder]
      rfl
    | rescan =>
      simp only [reply, Unpacker.call, rescan_inOrder]
      rfl
    | setBarrier | clearBarrier | status => rfl

def deed (deed : Deed σ) (unpacker : Unpacker σ) : Except Fault Answer × Unpacker σ :=
  match deed with
  | .request request => unpacker.reply request
  | .alter change =>
    let (buffer, handler) := change unpacker.buffer unpacker.handler
    (.ok .done, { unpacker with buffer, handler })

def course : List (Deed σ) → Unpacker σ → List (Except Fault Answer × Unpacker σ)
  | [], _ => []
  | deed :: deeds, unpacker => unpacker.deed deed :: (unpacker.deed deed).2.course deeds

theorem deed_inOrder (same : other.load = unpacker.order.load) (deed : Deed σ) :
    (unpacker.inOrder other).deed deed = (unpacker.deed deed).map id (·.inOrder other) := by
  cases deed with
  | request request => exact reply_inOrder same request
  | alter change => rfl

/-- An order that does what the own one does is not to be told from it, and the own one is
such an order. -/
theorem order_deed (deed : Deed σ) : (unpacker.deed deed).2.order = unpacker.order := by
  have own : (unpacker.inOrder unpacker.order).deed deed = _ := deed_inOrder rfl deed
  exact congrArg (·.2.order) own

theorem course_inOrder (same : other.load = unpacker.order.load) (deeds : List (Deed σ)) :
    (unpacker.inOrder other).course deeds =
      (unpacker.course deeds).map (·.map id (·.inOrder other)) := by
  induction deeds generalizing unpacker with
  | nil => rfl
  | cons deed deeds ih =>
    have after : other.load = (unpacker.deed deed).2.order.load := by
      rw [order_deed]
      exact same
    rw [course, course, List.map_cons, deed_inOrder same deed, ← ih after]
    rfl

end Unpacker

/-- Orders of one host. Each stores words big-endian and loads what it stores. Any two of them
give the same course of a packer over any handler, and of an unpacker over any source: the
same answers, and contexts that differ at no step but in the order itself, so that status,
buffer, handler and last item are the same. -/
theorem orders_invisible [Outlet σ] [Inlet τ] {order other : ByteOrder}
    (fits : order ∈ ByteOrder.hosted) (alike : other ∈ ByteOrder.hosted) :
    order.Carries ∧
    (∀ (buffer : Outgoing) (handler : σ) compatible deeds,
      (Packer.new buffer handler ⟨compatible, other⟩).course deeds =
        ((Packer.new buffer handler ⟨compatible, order⟩).course deeds).map fun step =>
          (step.1, step.2.inOrder other)) ∧
    ∀ (buffer : Incoming) (handler : τ) deeds,
      (Unpacker.new buffer handler other).course deeds =
        ((Unpacker.new buffer handler order).course deeds).map fun step =>
          (step.1, step.2.inOrder other) := by
  have fits := ByteOrder.verify_eq_ok_iff.mpr fits
  have alike := ByteOrder.verify_eq_ok_iff.mpr alike
  refine ⟨ByteOrder.carries fits, ?_, ?_⟩
  · intro buffer handler compatible deeds
    have begun : Packer.new buffer handler ⟨compatible, other⟩ =
        (Packer.new buffer handler ⟨compatible, order⟩).inOrder other := by
      simp only [Packer.new, Packer.inOrder, fits, alike]
    rw [begun]
    exact Packer.course_inOrder (ByteOrder.store_congr fits alike) deeds
  · intro buffer handler deeds
    have begun : Unpacker.new buffer handler other =
        (Unpacker.new buffer handler order).inOrder other := by
      simp only [Unpacker.new, Unpacker.inOrder, fits, alike]
    rw [begun]
    exact Unpacker.course_inOrder (ByteOrder.load_congr fits alike) deeds

/-- A number of two bytes, packed behind a byte that is put there by hand, and read. -/
theorem orders_invisible_number :
    let deeds : List (Packer.Deed Fixed) :=
      [.alter fun buffer handler => (buffer.append [0xc0], handler), .call (.pack (.unsigned 300))]
    let requests : List (Unpacker.Deed Exhausted) := [.request (.call .next)]
    ByteOrder.native ∈ ByteOrder.hosted ∧ ByteOrder.portable ∈ ByteOrder.hosted ∧
      ((Packer.new (.ofSize 8) Fixed.mk ⟨false, .portable⟩).course deeds).map
        (·.2.buffer.packed) = [[0xc0], [0xc0, 0xcd, 0x01, 0x2c]] ∧
      ((Unpacker.new (.ofBytes [0xcd, 0x01, 0x2c]) Exhausted.mk .portable).course
        requests).map (·.1) = [.ok (.item (.integer 300))] := by
  intro deeds requests
  have fits : ByteOrder.native ∈ ByteOrder.hosted := by decide
  have alike : ByteOrder.portable ∈ ByteOrder.hosted := by decide
  obtain ⟨_, packs, reads⟩ := @orders_invisible Fixed Exhausted _ _ _ _ fits alike
  refine ⟨fits, alike, ?_, ?_⟩
  · rw [packs]
    rfl
  · rw [reads]
    rfl

end MessagePack
