import MessagePack.Proofs.RoomRequests

/-! The old format. It has neither bin nor extensions, and no str whose length is in one byte. As
payloads may hold any bytes, what tags are met is said of a walk from item to item. Values that
are packed in the old dialect, one behind the other, are walked to the end over old tags, and
read back with every bin as a str. -/
namespace MessagePack

/-! ### Tags and values -/

namespace Tag

/-- All but the tags of bin and ext, and that of a str whose length is in one byte. -/
def old : Tag → Bool
  | .bin _ | .ext _ | .fixExt _ => false
  | .str i => 0 < i.val
  | _ => true

/-- The tags that are not old are in two ranges of bytes. -/
def OldByte (byte : UInt8) : Prop :=
  ¬(0xc4 ≤ byte ∧ byte ≤ 0xc9) ∧ ¬(0xd4 ≤ byte ∧ byte ≤ 0xd9)

instance (byte : UInt8) : Decidable (OldByte byte) :=
  inferInstanceAs (Decidable (_ ∧ _))

theorem oldByte_iff (byte : UInt8) : OldByte byte ↔ (ofByte byte).old := by
  have all : ∀ n : Fin 256, OldByte (.ofFin n) ↔ (ofByte (.ofFin n)).old := by decide +kernel
  exact all byte.toFin

end Tag

namespace Value

/-- A header by itself, the bytes of which are to be inserted. -/
def announces : Value → Bool
  | .strSize _ | .binSize _ => true
  | _ => false

open Number in
/-- What is read of a value that has been packed whole in the old dialect. -/
def oldItem? : Value → Option Item
  | .nil => some .nil
  | .boolean value => some (.boolean value)
  | .unsigned value => some (.integer value.toNat)
  | .signed value => some (.integer value.toInt)
  | .float bits => some (.float bits)
  | .double bits => some (.double bits)
  | .compactFloat bits =>
    match whole? .single (-0x8000) 0xffff bits.toNat with
    | some value => some (.integer value)
    | none => some (.float bits)
  | .compactDouble bits =>
    match whole? .double (-0x80000000) 0xffffffff bits.toNat with
    | some value => some (.integer value)
    | none =>
      if Format.double.decode bits.toNat ≠ .nan ∧ singleToDouble (doubleToSingle bits) = bits then
        some (.float (doubleToSingle bits))
      else some (.double bits)
  | .arraySize size => some (.array size.toNat)
  | .mapSize size => some (.map size.toNat)
  | .str bytes | .bin bytes => if fits bytes then some (.str bytes) else none
  | _ => none

end Value

/-- What is read of an item's bytes in the old format, which has str for bin. -/
def Item.old : Item → Item
  | .bin bytes => .str bytes
  | item => item

def Tree.Plain : Tree → Prop
  | .leaf (.ext ..) | .leaf (.timestamp ..) => False
  | _ => True

namespace Encode

def Opens (bytes : List UInt8) : Prop := ∃ lead more, bytes = lead :: more ∧ Tag.OldByte lead

variable {order : ByteOrder} {tag : Tag} {bytes : List UInt8}

theorem opens_cons (old : tag.old) (more : List UInt8) : Opens (tag.toByte :: more) := by
  refine ⟨_, _, rfl, (Tag.oldByte_iff _).mpr ?_⟩
  rwa [Tag.ofByte_toByte]

theorem opens_bare (old : tag.old) : Opens (bare tag) := opens_cons old []

theorem opens_withField {width value : Nat} (old : tag.old) :
    Opens (withField order tag width value) := opens_cons old _

theorem Opens.append (opens : Opens bytes) (more : List UInt8) : Opens (bytes ++ more) := by
  obtain ⟨lead, rest, rfl, old⟩ := opens
  exact ⟨lead, rest ++ more, rfl, old⟩

theorem opens_natural (value : Nat) : Opens (natural order value) := by
  unfold natural
  repeat' split
  · exact opens_bare rfl
  all_goals exact opens_withField rfl

theorem opens_integer (value : Int) : Opens (integer order value) := by
  unfold integer
  split
  · exact opens_natural _
  repeat' split
  · exact opens_bare rfl
  all_goals exact opens_withField rfl

theorem opens_array (size : Nat) : Opens (array order size) := by
  unfold array
  repeat' split
  · exact opens_bare rfl
  all_goals exact opens_withField rfl

theorem opens_map (size : Nat) : Opens (map order size) := by
  unfold map
  repeat' split
  · exact opens_bare rfl
  all_goals exact opens_withField rfl

theorem opens_strHeader (length : Nat) : Opens (strHeader ⟨true, order⟩ length) := by
  unfold strHeader
  split
  · exact opens_bare rfl
  split
  · rename_i skipped
    exact absurd rfl skipped.2
  split
  · exact opens_withField rfl
  · exact opens_withField rfl

end Encode

namespace Value

variable {value : Value} {order : ByteOrder} {bytes : List UInt8}

section

variable {dialect : Dialect}

end

open Encode in
/-- What is packed in the old dialect begins with an old tag. -/
theorem opens_encode (encoded : value.encode ⟨true, order⟩ = .ok bytes) : Opens bytes := by
  cases value with
  | nil | boolean | float | double =>
    cases encoded
    exact opens_cons rfl _
  | unsigned => cases encoded; exact opens_natural _
  | signed => cases encoded; exact opens_integer _
  | arraySize => cases encoded; exact opens_array _
  | mapSize => cases encoded; exact opens_map _
  | strSize | binSize => cases encoded; exact opens_strHeader _
  | compactFloat bits =>
    cases encoded
    rcases compactFloat_cases order bits with ⟨value, _, same⟩ | ⟨_, same⟩
    · exact same ▸ opens_integer value
    · exact same ▸ opens_withField rfl
  | compactDouble bits =>
    cases encoded
    rcases compactDouble_cases order bits with ⟨value, _, same⟩ | ⟨_, ⟨_, same⟩ | ⟨_, same⟩⟩
    · exact same ▸ opens_integer value
    · exact same ▸ opens_withField rfl
    · exact same ▸ opens_withField rfl
  | str payload | bin payload =>
    simp only [encode] at encoded
    split at encoded <;> cases encoded
    exact (opens_strHeader _).append payload
  | ext type payload =>
    simp only [encode, if_true] at encoded
    split at encoded <;> cases encoded
  | _ => cases encoded

theorem whole?_bounds {f : Number.Format} {low high value : Int} {bits : Nat}
    (found : whole? f low high bits = some value) : low ≤ value ∧ value ≤ high := by
  obtain ⟨whole, _, inside⟩ := Option.bind_eq_some_iff.mp found
  split at inside <;> cases inside
  assumption

theorem reads_whole {f : Number.Format} {low high value : Int} {bits : Nat} (order : ByteOrder)
    (found : whole? f low high bits = some value) (lower : -0x80000000 ≤ low)
    (upper : high ≤ 0xffffffff) :
    (Item.scan order).Reads (Encode.integer order value) (.integer value) := by
  have bounds := whole?_bounds found
  exact Item.reads_bare (Encode.reads_integer (by omega) (by omega)) rfl

theorem reads_compactFloat (order : ByteOrder) (bits : UInt32) :
    ∃ item, (compactFloat bits).oldItem? = some item ∧
      (Item.scan order).Reads (Encode.compactFloat order bits) item := by
  rcases Encode.compactFloat_cases order bits with ⟨value, found, same⟩ | ⟨found, same⟩
  · rw [same, oldItem?, found]
    exact ⟨_, rfl, reads_whole order found (by decide) (by decide)⟩
  · rw [same, oldItem?, found]
    exact ⟨_, rfl, (Scalar.float bits).reads order⟩

theorem reads_compactDouble (order : ByteOrder) (bits : UInt64) :
    ∃ item, (compactDouble bits).oldItem? = some item ∧
      (Item.scan order).Reads (Encode.compactDouble order bits) item := by
  rcases Encode.compactDouble_cases order bits with
    ⟨value, found, same⟩ | ⟨found, ⟨narrow, same⟩ | ⟨wide, same⟩⟩
  · rw [same, oldItem?, found]
    exact ⟨_, rfl, reads_whole order found (by decide) (by decide)⟩
  · rw [same, oldItem?, found]
    exact ⟨_, if_pos narrow, (Scalar.float _).reads order⟩
  · rw [same, oldItem?, found]
    exact ⟨_, if_neg wide, (Scalar.double bits).reads order⟩

/-- What is packed whole in the old dialect is read back, bin as str. -/
theorem encode_old {item : Item} (old : value.oldItem? = some item) (order : ByteOrder) :
    ∃ bytes, value.encode ⟨true, order⟩ = .ok bytes ∧ (Item.scan order).Reads bytes item := by
  cases value with
  | nil => cases old; exact ⟨_, rfl, Scalar.nil.reads order⟩
  | boolean value => cases old; exact ⟨_, rfl, (Scalar.boolean value).reads order⟩
  | unsigned value => cases old; exact ⟨_, rfl, (Scalar.unsigned value).reads order⟩
  | signed value => cases old; exact ⟨_, rfl, (Scalar.signed value).reads order⟩
  | float bits => cases old; exact ⟨_, rfl, (Scalar.float bits).reads order⟩
  | double bits => cases old; exact ⟨_, rfl, (Scalar.double bits).reads order⟩
  | arraySize size =>
    cases old
    exact ⟨_, rfl, Item.reads_bare (Encode.reads_array size.toNat_lt) rfl⟩
  | mapSize size =>
    cases old
    exact ⟨_, rfl, Item.reads_bare (Encode.reads_map size.toNat_lt) rfl⟩
  | compactFloat bits =>
    obtain ⟨_, found, reads⟩ := reads_compactFloat order bits
    cases found.symm.trans old
    exact ⟨_, rfl, reads⟩
  | compactDouble bits =>
    obtain ⟨_, found, reads⟩ := reads_compactDouble order bits
    cases found.symm.trans old
    exact ⟨_, rfl, reads⟩
  | str payload | bin payload =>
    simp only [oldItem?] at old
    split at old
    · rename_i fits
      have short : payload.length < 0x100000000 := of_decide_eq_true fits
      cases old
      exact ⟨_, if_pos fits, Item.reads_payload (Encode.reads_strHeader _ short) rfl⟩
    · cases old
  | _ => cases old

theorem reads_old {item : Item} (old : value.oldItem? = some item) (order : ByteOrder) :
    (Item.scan order).Reads (value.bytes ⟨true, order⟩) item := by
  obtain ⟨bytes, encoded, reads⟩ := encode_old old order
  rwa [Value.bytes, encoded]

theorem encode_eq_bytes (old : value.oldItem?.isSome) (order : ByteOrder) :
    value.encode ⟨true, order⟩ = .ok (value.bytes ⟨true, order⟩) := by
  obtain ⟨item, found⟩ := Option.isSome_iff_exists.mp old
  obtain ⟨bytes, encoded, _⟩ := encode_old found order
  rw [Value.bytes, encoded]

/-- All that is packed in the old dialect is packed whole, but for announcements. -/
theorem oldItem?_of_encode (encoded : value.encode ⟨true, order⟩ = .ok bytes)
    (complete : ¬value.announces) : value.oldItem?.isSome := by
  cases value with
  | str payload | bin payload =>
    simp only [encode] at encoded
    split at encoded
    · rename_i fits
      rw [oldItem?, if_pos fits]
      rfl
    · cases encoded
  | compactFloat bits =>
    obtain ⟨item, found, _⟩ := reads_compactFloat order bits
    exact Option.isSome_iff_exists.mpr ⟨item, found⟩
  | compactDouble bits =>
    obtain ⟨item, found, _⟩ := reads_compactDouble order bits
    exact Option.isSome_iff_exists.mpr ⟨item, found⟩
  | strSize | binSize => exact absurd rfl complete
  | ext type payload =>
    simp only [encode, if_true] at encoded
    split at encoded <;> cases encoded
  | extSize | extInteger | extFloat | extDouble | timestamp | systemTime | timeInterval =>
    cases encoded
  | _ => rfl

end Value

/-! ### Walking from item to item -/

namespace Unpacker

/-- The leading bytes of the items that the bytes are made of. Nothing is told of bytes that
are not made of items. -/
def leads? (order : ByteOrder) (bytes : List UInt8) : Option (List UInt8) :=
  match bytes with
  | [] => some []
  | lead :: rest =>
    match first order (lead :: rest) with
    | (.ok _, taken + 1) => (leads? order (rest.drop taken)).map (lead :: ·)
    | _ => none
termination_by bytes.length
decreasing_by
  rw [List.length_drop, List.length_cons]
  omega

/-- The bytes are items to their end, and no tag is met but old ones. -/
def WalksOld (order : ByteOrder) (bytes : List UInt8) : Prop :=
  ∃ leads, leads? order bytes = some leads ∧ ∀ lead ∈ leads, Tag.OldByte lead

theorem walksOld_nil (order : ByteOrder) : WalksOld order [] := ⟨[], by rw [leads?], by simp⟩

theorem leads?_pieces {order : ByteOrder} (native : order.verify = .ok ()) {pieces : List Piece}
    (whole : ∀ piece ∈ pieces, piece.Whole order) :
    leads? order (pieces.flatMap Piece.bytes) = some (pieces.flatMap (·.bytes.take 1)) := by
  induction pieces with
  | nil => rw [List.flatMap_nil, leads?, List.flatMap_nil]
  | cons piece pieces ih =>
    obtain ⟨own, others⟩ := List.forall_mem_cons.mp whole
    obtain ⟨bytes, item⟩ := piece
    cases bytes with
    | nil =>
      have ended := first_nil native
      rw [own] at ended
      cases ended
    | cons lead rest =>
      have stable := (first_of_take_eq native own).2 (lead :: (rest ++ pieces.flatMap Piece.bytes))
        (by simp)
      rw [List.flatMap_cons, List.cons_append, leads?, stable]
      simp only [List.length_cons]
      rw [List.drop_left, ih others]
      rfl

/-- What is packed whole in the old dialect, and what it is read as. -/
def Piece.ofOld (order : ByteOrder) (value : Value) : Piece where
  bytes := value.bytes ⟨true, order⟩
  item := value.oldItem?.getD .nil

theorem Piece.whole_ofOld {order : ByteOrder} (native : order.verify = .ok ())
    {values : List Value} (old : ∀ value ∈ values, value.oldItem?.isSome) :
    ∀ piece ∈ values.map (ofOld order), piece.Whole order := by
  intro piece member
  obtain ⟨value, among, rfl⟩ := List.mem_map.mp member
  obtain ⟨item, found⟩ := Option.isSome_iff_exists.mp (old value among)
  have whole := Value.reads_old found order .endOfInput []
  rw [List.append_nil] at whole
  rw [Whole, ofOld, found, first_eq native, whole]
  rfl

/-- Values packed whole in the old dialect are walked over old tags. -/
theorem walksOld_flatMap {order : ByteOrder} (native : order.verify = .ok ()) {values : List Value}
    (old : ∀ value ∈ values, value.oldItem?.isSome) :
    WalksOld order (values.flatMap (Value.bytes ⟨true, order⟩)) := by
  have walked := leads?_pieces native (Piece.whole_ofOld native old)
  rw [List.flatMap_map, List.flatMap_map] at walked
  refine ⟨_, walked, ?_⟩
  intro lead member
  obtain ⟨value, among, front⟩ := List.mem_flatMap.mp member
  obtain ⟨first, more, spelled, oldByte⟩ :=
    Value.opens_encode (Value.encode_eq_bytes (old value among) order)
  dsimp only [Piece.ofOld] at front
  rw [spelled] at front
  obtain rfl := List.mem_singleton.mp front
  exact oldByte

end Unpacker
end MessagePack
