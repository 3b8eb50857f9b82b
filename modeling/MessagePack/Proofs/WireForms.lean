import MessagePack.Proofs.ScanBounds
import MessagePack.Wire.Encode

/-! What is written to the wire is read back. `Reads` says that a scan takes certain bytes,
no more and no less, and answers a certain value, whatever follows them. It goes through
fields, headers and items, and for every form of a value the form that is written is one
that is read. -/
namespace MessagePack

/-! ### Fields -/

theorem ByteOrder.load_store (order : ByteOrder) {width value : Nat}
    (fits : value < wordCount width) :
    order.load (order.store width value) = value := by
  have bigEndian : ofBigEndian (toBigEndian width value) = value := by
    rw [ofBigEndian_toBigEndian, Nat.mod_eq_of_lt fits]
  have again : toBigEndian width (ofBigEndian (toBigEndian width value).reverse) =
      (toBigEndian width value).reverse := by
    have same := toBigEndian_ofBigEndian (toBigEndian width value).reverse
    rwa [List.length_reverse, length_toBigEndian] at same
  cases order with
  | little =>
    simp only [load, store, Layout.host, Layout.load, Layout.store, swapBytes]
    rw [again, List.reverse_reverse, length_toBigEndian, again, List.reverse_reverse, bigEndian]
  | big =>
    simp only [load, store, Layout.host, Layout.load, Layout.store]
    rw [List.reverse_reverse, bigEndian]
  | portable => rw [load, store, Bytewise.store_eq, Bytewise.load_eq, bigEndian]

theorem ofTwosComplement_lt (width : Nat) (value : Int) :
    ofTwosComplement width value < wordCount width := by
  have positive : 0 < wordCount width := by
    rw [wordCount, Nat.shiftLeft_eq, Nat.one_mul]
    exact Nat.two_pow_pos _
  have := Int.emod_nonneg value (b := wordCount width) (by omega)
  have := Int.emod_lt_of_pos value (b := wordCount width) (by omega)
  simp only [ofTwosComplement]
  omega

theorem twosComplement_ofTwosComplement {width : Nat} {value : Int}
    (lower : -wordCount width ≤ 2 * value) (upper : 2 * value < wordCount width) :
    twosComplement width (ofTwosComplement width value) = value := by
  unfold twosComplement ofTwosComplement
  by_cases negative : value < 0
  · have word : value % wordCount width = value + wordCount width := by
      rw [← Int.add_emod_right, Int.emod_eq_of_lt] <;> omega
    rw [word, if_neg] <;> omega
  · have word : value % wordCount width = value := Int.emod_eq_of_lt (by omega) (by omega)
    rw [word, if_pos] <;> omega

namespace Scan

/-- The scan takes just `bytes`, and answers `value`, whatever follows. -/
def Reads (bytes : List UInt8) (value : α) (scan : Scan α) : Prop :=
  ∀ closing rest, scan.read closing (bytes ++ rest) = (.ok value, bytes.length)

theorem Reads.done (value : α) : (Scan.done value).Reads [] value := fun _ _ => rfl

theorem Reads.take {count : Nat} {leading : Bool} {next : List UInt8 → Scan α}
    {bytes more : List UInt8} {value : α} (length : bytes.length = count)
    (reads : (next bytes).Reads more value) :
    (Scan.take count leading next).Reads (bytes ++ more) value := by
  intro closing rest
  have complete : count ≤ (bytes ++ more ++ rest).length := by simp; omega
  rw [Scan.read, if_pos complete, List.append_assoc, List.take_left' length,
    List.drop_left' length, reads closing rest, List.length_append, length]

theorem Reads.bind {scan : Scan α} {f : α → Scan β} {bytes more : List UInt8} {mid : α}
    {value : β} (first : scan.Reads bytes mid) (second : (f mid).Reads more value) :
    (scan.bind f).Reads (bytes ++ more) value := by
  intro closing rest
  rw [read_bind, List.append_assoc, first closing (more ++ rest)]
  dsimp only
  rw [List.drop_left, second closing rest, List.length_append]

theorem Reads.map {scan : Scan α} {f : α → Scan β} {bytes : List UInt8} {mid : α} {value : β}
    (first : scan.Reads bytes mid) (second : f mid = .done value) :
    (scan.bind f).Reads bytes value := by
  have both := first.bind (second ▸ Reads.done value : (f mid).Reads [] value)
  rwa [List.append_nil] at both

theorem reads_tag (tag : Tag) : Scan.tag.Reads [tag.toByte] tag := by
  intro closing rest
  simp [Scan.tag, Scan.read]

theorem reads_field (order : ByteOrder) {width value : Nat} (fits : value < wordCount width) :
    (Scan.field order width).Reads (order.store width value) value := by
  have field : (Scan.field order width).Reads (order.store width value ++ [])
      (order.load (order.store width value)) :=
    Reads.take (order.length_store width value) (Reads.done _)
  rwa [List.append_nil, order.load_store fits] at field

theorem reads_extType (type : Int8) : Scan.extType.Reads [type.toUInt8] type := by
  intro closing rest
  simp [Scan.extType, Scan.read]

end Scan

/-! ### Headers -/

namespace Encode

open Scan

variable {order : ByteOrder}

theorem reads_of_tag {tag : Tag} {more : List UInt8} {header : Header}
    (fields : (Header.scanAfter order tag).Reads more header) :
    (Header.scan order).Reads (tag.toByte :: more) header :=
  (reads_tag tag).bind fields

theorem reads_bare {tag : Tag} {header : Header}
    (fields : Header.scanAfter order tag = .done header) :
    (Header.scan order).Reads (bare tag) header :=
  reads_of_tag (fields ▸ Reads.done header)

theorem reads_index {bound value : Nat} {tag : Fin bound → Tag} {i : Fin bound}
    (make : Nat → Header) (fields : Header.scanAfter order (tag i) = .done (make i.val))
    (same : i.val = value) : (Header.scan order).Reads (bare (tag i)) (make value) := by
  subst same
  exact reads_bare fields

theorem reads_withField {tag : Tag} {width value : Nat} (make : Nat → Header)
    (fields : Header.scanAfter order tag = (field order width).bind fun value => .done (make value))
    (fits : value < wordCount width) :
    (Header.scan order).Reads (withField order tag width value) (make value) :=
  reads_of_tag (fields ▸ (reads_field order fits).map rfl)

theorem reads_natural {value : Nat} (fits : value < 0x10000000000000000) :
    (Header.scan order).Reads (natural order value) (.integer value) := by
  simp only [natural]
  by_cases tiny : value < 0x80
  · rw [if_pos tiny]
    exact reads_index (fun value => .integer value) rfl (Nat.mod_eq_of_lt tiny)
  rw [if_neg tiny]
  repeat' split
  all_goals exact reads_withField (fun value => .integer value) rfl ‹_›

theorem reads_signed (i : Fin 4) {words : Nat} {value : Int}
    (count : wordCount (Tag.width i.val) = words) (lower : -(words : Int) ≤ 2 * value)
    (upper : 2 * value < words) :
    (Header.scan order).Reads
      (withField order (.signed i) (Tag.width i.val) (ofTwosComplement (Tag.width i.val) value))
      (.integer value) := by
  subst count
  have reads : (Header.scan order).Reads
      (withField order (.signed i) (Tag.width i.val) (ofTwosComplement (Tag.width i.val) value))
      (.integer (twosComplement (Tag.width i.val) (ofTwosComplement (Tag.width i.val) value))) :=
    reads_withField (fun word => .integer (twosComplement (Tag.width i.val) word)) rfl
      (ofTwosComplement_lt (Tag.width i.val) value)
  rwa [twosComplement_ofTwosComplement lower upper] at reads

theorem reads_integer {value : Int} (lower : -0x8000000000000000 ≤ value)
    (upper : value < 0x10000000000000000) :
    (Header.scan order).Reads (integer order value) (.integer value) := by
  simp only [integer]
  by_cases positive : 0 ≤ value
  · have reads : (Header.scan order).Reads (natural order value.toNat) _ :=
      reads_natural (by omega)
    rw [Int.toNat_of_nonneg positive] at reads
    rwa [if_pos positive]
  rw [if_neg positive]
  by_cases tiny : -32 ≤ value
  · rw [if_pos tiny]
    have small : (value + 32).toNat < 32 := by omega
    have same : ((value + 32).toNat : Int) - 32 = value := by omega
    have reads : (Header.scan order).Reads (bare (.negative (.ofNat 32 (value + 32).toNat)))
        (.integer (((value + 32).toNat : Int) - 32)) :=
      reads_index (fun index => .integer ((index : Int) - 32)) rfl (Nat.mod_eq_of_lt small)
    rwa [same] at reads
  rw [if_neg tiny]
  repeat' split
  · exact reads_signed 0 (rfl : _ = 0x100) (by omega) (by omega)
  · exact reads_signed 1 (rfl : _ = 0x10000) (by omega) (by omega)
  · exact reads_signed 2 (rfl : _ = 0x100000000) (by omega) (by omega)
  · exact reads_signed 3 (rfl : _ = 0x10000000000000000) (by omega) (by omega)

theorem reads_float (bits : UInt32) :
    (Header.scan order).Reads (Encode.float order bits) (.float bits) := by
  have reads : (Header.scan order).Reads (Encode.float order bits) (.float (.ofNat bits.toNat)) :=
    reads_withField (fun bits => .float (.ofNat bits)) rfl bits.toNat_lt
  rwa [UInt32.ofNat_toNat] at reads

theorem reads_double (bits : UInt64) :
    (Header.scan order).Reads (Encode.double order bits) (.double bits) := by
  have reads : (Header.scan order).Reads (Encode.double order bits) (.double (.ofNat bits.toNat)) :=
    reads_withField (fun bits => .double (.ofNat bits)) rfl bits.toNat_lt
  rwa [UInt64.ofNat_toNat] at reads

theorem reads_array {size : Nat} (fits : size < 0x100000000) :
    (Header.scan order).Reads (array order size) (.array size) := by
  simp only [array]
  by_cases tiny : size < 16
  · rw [if_pos tiny]
    exact reads_index (fun size => .array size) rfl (Nat.mod_eq_of_lt tiny)
  rw [if_neg tiny]
  split
  all_goals exact reads_withField (fun size => .array size) rfl ‹_›

theorem reads_map {size : Nat} (fits : size < 0x100000000) :
    (Header.scan order).Reads (map order size) (.map size) := by
  simp only [map]
  by_cases tiny : size < 16
  · rw [if_pos tiny]
    exact reads_index (fun size => .map size) rfl (Nat.mod_eq_of_lt tiny)
  rw [if_neg tiny]
  split
  all_goals exact reads_withField (fun size => .map size) rfl ‹_›

theorem reads_strHeader (dialect : Dialect) {length : Nat} (fits : length < 0x100000000) :
    (Header.scan dialect.order).Reads (strHeader dialect length) (.str length) := by
  simp only [strHeader]
  by_cases tiny : length < 32
  · rw [if_pos tiny]
    exact reads_index (fun length => .str length) rfl (Nat.mod_eq_of_lt tiny)
  rw [if_neg tiny]
  by_cases short : length < 0x100 ∧ ¬dialect.compatible
  · rw [if_pos short]
    exact reads_withField (fun length => .str length) rfl short.1
  rw [if_neg short]
  split
  all_goals exact reads_withField (fun length => .str length) rfl ‹_›

theorem reads_binHeader {length : Nat} (fits : length < 0x100000000) :
    (Header.scan order).Reads (binHeader ⟨false, order⟩ length) (.bin length) := by
  simp only [binHeader]
  rw [if_neg Bool.false_ne_true]
  repeat' split
  all_goals exact reads_withField (fun length => .bin length) rfl ‹_›

theorem reads_scanExt {tag : Tag} {type : Int8} (length : Nat) (other : type ≠ timestampType) :
    (Header.scanExt order tag length).Reads [type.toUInt8] (.ext type length) :=
  (reads_extType type).map (if_neg other)

theorem reads_fixExt (i : Fin 5) {type : Int8} (other : type ≠ timestampType) :
    (Header.scan order).Reads (bare (.fixExt i) ++ [type.toUInt8]) (.ext type (Tag.width i.val)) :=
  reads_of_tag (reads_scanExt _ other)

theorem reads_extField {i : Fin 3} {type : Int8} {length : Nat}
    (fits : length < wordCount (Tag.width i.val)) (other : type ≠ timestampType) :
    (Header.scan order).Reads (withField order (.ext i) (Tag.width i.val) length ++ [type.toUInt8])
      (.ext type length) :=
  reads_of_tag ((reads_field order fits).bind (reads_scanExt _ other))

theorem reads_extHeader {type : Int8} {length : Nat} (fits : length < 0x100000000)
    (other : type ≠ timestampType) :
    (Header.scan order).Reads (extHeader order type length) (.ext type length) := by
  simp only [extHeader]
  split
  · exact reads_fixExt 0 other
  · exact reads_fixExt 1 other
  · exact reads_fixExt 2 other
  · exact reads_fixExt 3 other
  · exact reads_fixExt 4 other
  · repeat' split
    · exact reads_extField (i := 0) ‹_› other
    · exact reads_extField (i := 1) ‹_› other
    · exact reads_extField (i := 2) fits other

/-! ### Timestamps -/

theorem reads_timestamp_scanExt {tag : Tag} {length : Nat} {bytes : List UInt8} {time : Timestamp}
    (fields : (Timestamp.scan order tag length).Reads bytes time) :
    (Header.scanExt order tag length).Reads (timestampType.toUInt8 :: bytes) (.timestamp time) := by
  apply (reads_extType timestampType).bind
  rw [if_pos rfl]
  exact fields.map rfl

theorem reads_seconds {value : Nat} (fits : value < 0x100000000) :
    (Header.scan order).Reads (extWord order timestampType 2 value)
      (.timestamp ⟨.ofInt value, 0⟩) := by
  have fields : (Timestamp.scan order (.fixExt 2) 4).Reads (order.store 4 value)
      ⟨.ofInt value, 0⟩ := (reads_field order fits).map rfl
  exact reads_of_tag (reads_timestamp_scanExt fields)

theorem reads_packed {value : Nat} (fits : value < 0x10000000000000000) :
    (Header.scan order).Reads (extWord order timestampType 3 value)
      (.timestamp (.ofPacked value)) := by
  have fields : (Timestamp.scan order (.fixExt 3) 8).Reads (order.store 8 value)
      (.ofPacked value) := (reads_field order fits).map rfl
  exact reads_of_tag (reads_timestamp_scanExt fields)

/-- Nanoseconds before seconds of any size. -/
theorem reads_wide (time : Timestamp) :
    (Header.scan order).Reads
      ((Tag.ext 0).toByte :: 12 :: timestampType.toUInt8 ::
        (order.store 4 time.nanos.toNat ++ order.store 8 (ofTwosComplement 8 time.seconds.toInt)))
      (.timestamp time) := by
  have length : order.store 1 12 = [12] := by cases order <;> rfl
  have nanos : order.load (order.store 4 time.nanos.toNat) = time.nanos.toNat :=
    order.load_store time.nanos.toNat_lt
  have seconds : order.load (order.store 8 (ofTwosComplement 8 time.seconds.toInt)) =
      ofTwosComplement 8 time.seconds.toInt := order.load_store (ofTwosComplement_lt 8 _)
  have whole : Int64.ofInt (ofTwosComplement 8 time.seconds.toInt : Nat) = time.seconds := by
    have word : wordCount 8 = 0x10000000000000000 := rfl
    rw [Int64.ofInt_eq_iff_bmod_eq_toInt, ofTwosComplement, Int.toNat_of_nonneg, word]
    · exact (Int.emod_bmod _ _).trans time.seconds.toInt_bmod
    · exact Int.emod_nonneg _ (by rw [word]; decide)
  have fields : (Timestamp.scan order (.ext 0) 12).Reads
      (order.store 4 time.nanos.toNat ++ order.store 8 (ofTwosComplement 8 time.seconds.toInt))
      time := by
    have reads : (Timestamp.scan order (.ext 0) 12).Reads
        (order.store 4 time.nanos.toNat ++
          order.store 8 (ofTwosComplement 8 time.seconds.toInt) ++ []) _ :=
      .take (by simp) (.done _)
    rw [List.append_nil, List.drop_left' (order.length_store 4 _),
      List.take_left' (order.length_store 4 _), nanos, seconds, whole, UInt32.ofNat_toNat] at reads
    exact reads
  have header : (Header.scan order).Reads ((Tag.ext 0).toByte :: (order.store 1 12 ++ _)) _ :=
    reads_of_tag ((reads_field order (by decide)).bind (reads_timestamp_scanExt fields))
  rwa [length] at header

theorem ofPacked_eq {time : Timestamp} (lower : 0 ≤ time.seconds.toInt)
    (upper : time.seconds.toInt < 0x400000000) :
    Timestamp.ofPacked ((time.nanos.toNat <<< Timestamp.secondsBits) + time.seconds.toInt.toNat) =
      time := by
  obtain ⟨seconds, lifted⟩ := Int.eq_ofNat_of_zero_le lower
  have low : (time.nanos.toNat * 17179869184 + seconds) % 17179869184 = seconds := by omega
  have high : (time.nanos.toNat * 17179869184 + seconds) / 17179869184 = time.nanos.toNat := by
    omega
  rw [Timestamp.ofPacked, lifted, Int.toNat_natCast, Timestamp.secondsBits, Nat.shiftLeft_eq,
    Nat.shiftLeft_eq, Nat.shiftRight_eq_div_pow]
  simp only [Nat.one_mul, Nat.reducePow, low, high]
  rw [← lifted, Int64.ofInt_toInt, UInt32.ofNat_toNat]

theorem reads_timestamp {time : Timestamp} (valid : time.nanos.toNat < nanosPerSecond) :
    (Header.scan order).Reads (timestamp order time) (.timestamp time) := by
  unfold timestamp
  unfold nanosPerSecond at valid
  by_cases narrow : 0 ≤ time.seconds.toInt ∧
      time.seconds.toInt < (1 <<< Timestamp.secondsBits : Nat)
  · have packed := ofPacked_eq narrow.1 narrow.2
    have below : time.seconds.toInt.toNat < 0x400000000 := by
      have := narrow.2
      simp [Timestamp.secondsBits] at this
      omega
    dsimp only
    rw [if_pos narrow]
    split
    · rename_i whole
      have none : time.nanos.toNat = 0 := by
        rw [Timestamp.secondsBits, Nat.shiftLeft_eq] at whole
        omega
      have reads : (Header.scan order).Reads _ _ := reads_seconds whole
      rw [none, Nat.zero_shiftLeft, Nat.zero_add] at reads ⊢
      rw [Int.toNat_of_nonneg narrow.1, Int64.ofInt_toInt] at reads
      have zero : (0 : UInt32) = time.nanos := UInt32.toNat_inj.mp none.symm
      rwa [zero] at reads
    · have fits : (time.nanos.toNat <<< Timestamp.secondsBits) + time.seconds.toInt.toNat <
          0x10000000000000000 := by
        rw [Timestamp.secondsBits, Nat.shiftLeft_eq]
        omega
      have reads : (Header.scan order).Reads _ _ := reads_packed fits
      rwa [packed] at reads
  · dsimp only
    rw [if_neg narrow]
    exact reads_wide time

end Encode

/-! ### Items -/

namespace Item

variable {order : ByteOrder} {bytes : List UInt8} {header : Header}

theorem reads_bare (reads : (Header.scan order).Reads bytes header)
    (complete : header.payloadLength? = none) :
    (Item.scan order).Reads bytes (header.withPayload []) := by
  apply reads.map
  rw [complete]
  rfl

theorem reads_payload (reads : (Header.scan order).Reads bytes header) {payload : List UInt8}
    (announced : header.payloadLength? = some payload.length) :
    (Item.scan order).Reads (bytes ++ payload) (header.withPayload payload) := by
  apply reads.bind
  rw [announced]
  have whole : (Scan.take payload.length false fun payload =>
      .done (header.withPayload payload)).Reads (payload ++ []) (header.withPayload payload) :=
    .take rfl (.done _)
  rwa [List.append_nil] at whole

end Item
end MessagePack
