import MessagePack.Proofs.ItemPrefixes
import MessagePack.Proofs.StickyFaults

/-! The ladders of forms, from below. A number, length or size has several forms on the wire
that are read alike, and `least` says how many bytes the shortest of them has. No scan answers
an item for less, and what is packed for a value costs just that. -/
namespace MessagePack

/-! ### The shortest forms -/

/-- A tag and the narrowest field that has room for a length. -/
def Tag.leastSized (length : Nat) : Nat :=
  if length < 0x100 then 2 else if length < 0x10000 then 3 else 5

/-- The size of a container in the tag, or in a field, which is not narrower than two bytes. -/
def Tag.leastCounted (size : Nat) : Nat :=
  if size < 16 then 1 else if size < 0x10000 then 3 else 5

def Timestamp.least (time : Timestamp) : Nat :=
  let seconds := time.seconds.toInt
  if 0 ≤ seconds ∧ seconds < 0x100000000 ∧ time.nanos = 0 then 6
  else if 0 ≤ seconds ∧ seconds < 0x400000000 ∧ time.nanos.toNat < 0x40000000 then 10
  else 15

/-- The bytes of the shortest header that announces as much. -/
def Header.least : Header → Nat
  | .nil | .boolean _ => 1
  | .integer value =>
    if -32 ≤ value ∧ value < 0x80 then 1
    else if -0x80 ≤ value ∧ value < 0x100 then 2
    else if -0x8000 ≤ value ∧ value < 0x10000 then 3
    else if -0x80000000 ≤ value ∧ value < 0x100000000 then 5
    else 9
  | .float _ => 5
  | .double _ => 9
  | .str length => if length < 32 then 1 else Tag.leastSized length
  | .bin length => Tag.leastSized length
  | .array size | .map size => Tag.leastCounted size
  | .ext _ length => if length ∈ [1, 2, 4, 8, 16] then 2 else Tag.leastSized length + 1
  | .timestamp time => time.least

def Item.least (item : Item) : Nat := item.header.least + item.payload.length

theorem Item.least_of_nil {item : Item} (bare : item.payload = []) :
    item.least = item.header.least := by
  rw [least, bare, List.length_nil, Nat.add_zero]

/-! ### What is read costs no less -/

namespace Scan

/-- Whatever is answered costs `least` bytes at least, with those `spent` before. -/
def Costs (least : α → Nat) (spent : Nat) : Scan α → Prop
  | .done value => least value ≤ spent
  | .fail _ => True
  | .take count _ next =>
    ∀ bytes : List UInt8, bytes.length = count → (next bytes).Costs least (spent + count)

theorem Costs.read {least : α → Nat} {spent taken : Nat} {scan : Scan α} {closing : Fault}
    {bytes : List UInt8} {value : α} (costs : scan.Costs least spent)
    (answered : scan.read closing bytes = (.ok value, taken)) : least value ≤ spent + taken := by
  induction scan generalizing spent bytes taken with
  | done value =>
    cases answered
    exact costs
  | fail fault => cases answered
  | take count leading next ih =>
    rw [Scan.read] at answered
    split at answered
    · obtain ⟨same, rfl⟩ := Prod.mk.inj answered
      have rest := ih _ (costs _ (List.length_take_of_le ‹_›)) (Prod.ext same rfl)
      rwa [Nat.add_assoc] at rest
    · cases answered

theorem Costs.bind {least : α → Nat} {total : β → Nat} {spent : Nat} {scan : Scan α}
    {f : α → Scan β} (first : scan.Costs least spent)
    (second : ∀ value spent, least value ≤ spent → (f value).Costs total spent) :
    (scan.bind f).Costs total spent := by
  induction scan generalizing spent with
  | done value => exact second value spent first
  | fail fault => trivial
  | take count leading next ih => exact fun bytes length => ih bytes (first bytes length)

theorem costs_field (order : ByteOrder) {width spent : Nat} {least : α → Nat} {f : Nat → α}
    (bound : ∀ value, value < wordCount width → least (f value) ≤ spent + width) :
    ((Scan.field order width).bind fun value => .done (f value)).Costs least spent := by
  intro bytes length
  have below := order.load_lt bytes
  rw [length] at below
  exact bound _ below

end Scan

namespace Tag

theorem leastSized_le {i value : Nat} (class_le : i ≤ 2) (below : value < wordCount (width i)) :
    leastSized value ≤ 1 + width i := by
  obtain rfl | rfl | rfl : i = 0 ∨ i = 1 ∨ i = 2 := by omega
  · rw [leastSized, if_pos (show value < 0x100 from below)]
    decide
  · have below : value < 0x10000 := below
    unfold leastSized
    split <;> simp [width]
  · unfold leastSized
    repeat' split
    all_goals decide

theorem leastCounted_le {i value : Nat} (class_le : i ≤ 1)
    (below : value < wordCount (width (i + 1))) : leastCounted value ≤ 1 + width (i + 1) := by
  obtain rfl | rfl : i = 0 ∨ i = 1 := by omega
  · have below : value < 0x10000 := below
    unfold leastCounted
    split <;> simp [width]
  · unfold leastCounted
    repeat' split
    all_goals decide

end Tag

namespace Header

/-- A number that a field of the width has room for, with a sign or without. -/
theorem least_integer_le {i : Nat} {value : Int} (class_le : i ≤ 3)
    (lower : -(wordCount (Tag.width i) : Int) ≤ 2 * value)
    (upper : value < wordCount (Tag.width i)) : (integer value).least ≤ 1 + Tag.width i := by
  obtain rfl | rfl | rfl | rfl : i = 0 ∨ i = 1 ∨ i = 2 ∨ i = 3 := by omega
  · have words : wordCount (Tag.width 0) = 0x100 := rfl
    simp only [least, Tag.width]
    repeat' split
    all_goals omega
  · have words : wordCount (Tag.width 1) = 0x10000 := rfl
    simp only [least, Tag.width]
    repeat' split
    all_goals omega
  · have words : wordCount (Tag.width 2) = 0x100000000 := rfl
    simp only [least, Tag.width]
    repeat' split
    all_goals omega
  · simp only [least, Tag.width]
    repeat' split
    all_goals omega

theorem least_ext_le {length room : Nat} (type : Int8) (sized : Tag.leastSized length ≤ room) :
    (ext type length).least ≤ room + 1 := by
  have some : 2 ≤ Tag.leastSized length := by
    unfold Tag.leastSized
    repeat' split
    all_goals decide
  simp only [least]
  split <;> omega

theorem least_fixExt (type : Int8) (i : Fin 5) : (ext type (Tag.width i.val)).least = 2 :=
  if_pos (by revert i; decide)

end Header

namespace Timestamp

theorem least_le (time : Timestamp) : time.least ≤ 15 := by
  simp only [least]
  repeat' split
  all_goals decide

theorem least_seconds {value : Nat} (below : value < 0x100000000) :
    least ⟨.ofInt value, 0⟩ ≤ 6 := by
  have whole : (Int64.ofInt value).toInt = value :=
    Int64.toInt_ofInt_of_le (by omega) (by omega)
  simp only [least, whole]
  exact Nat.le_of_eq (if_pos ⟨by omega, by omega, trivial⟩)

theorem least_packed {value : Nat} (below : value < 0x10000000000000000) :
    (ofPacked value).least ≤ 10 := by
  have low : value % 0x400000000 < 0x400000000 := Nat.mod_lt _ (by decide)
  have whole : (Int64.ofInt (value % 0x400000000 : Nat)).toInt = (value % 0x400000000 : Nat) :=
    Int64.toInt_ofInt_of_le (by omega) (by omega)
  have high : value / 0x400000000 < 0x40000000 := by omega
  simp only [least, ofPacked, secondsBits, Nat.shiftRight_eq_div_pow, Nat.shiftLeft_eq,
    Nat.one_mul, Nat.reducePow, whole, UInt32.toNat_ofNat']
  split
  · decide
  · exact Nat.le_of_eq (if_pos (by omega))

/-- The header of an extension has two bytes, or more if its tag leaves the length to a field. -/
theorem costs_scan (order : ByteOrder) {tag : Tag} {length spent : Nat} (some : 2 ≤ spent)
    (sized : ∀ i, tag = .ext i → 3 ≤ spent) :
    ((scan order tag length).bind fun time => .done (Header.timestamp time)).Costs
      Header.least spent := by
  unfold scan
  split
  · refine Scan.Costs.bind ?_ fun time spent (below : least time ≤ spent) => below
    exact Scan.costs_field order fun value below => by
      have := least_seconds below
      omega
  · refine Scan.Costs.bind ?_ fun time spent (below : least time ≤ spent) => below
    exact Scan.costs_field order fun value below => by
      have := least_packed below
      omega
  · intro bytes _
    have wide := sized _ rfl
    refine Nat.le_trans (least_le _) ?_
    omega
  · trivial

end Timestamp

namespace Header

theorem costs_scanExt (order : ByteOrder) {tag : Tag} {length spent : Nat} (some : 1 ≤ spent)
    (sized : ∀ i, tag = .ext i → 2 ≤ spent) (room : ∀ type, (ext type length).least ≤ spent + 1) :
    (scanExt order tag length).Costs least spent := by
  intro bytes _
  dsimp only [Scan.bind]
  split
  · exact Timestamp.costs_scan order (by omega) fun i same => Nat.succ_le_succ (sized i same)
  · exact room _

theorem costs_scanAfter (order : ByteOrder) (tag : Tag) : (scanAfter order tag).Costs least 1 := by
  cases tag with
  | reserved => trivial
  | nil | boolean => exact Nat.le_refl 1
  | positive value | negative value =>
    have := value.isLt
    simp only [scanAfter, Scan.pure_eq, Scan.Costs, least]
    exact Nat.le_of_eq (if_pos (by omega))
  | fixMap size | fixArray size => exact Nat.le_of_eq (if_pos size.isLt)
  | fixStr length => exact Nat.le_of_eq (if_pos length.isLt)
  | float | double => exact Scan.costs_field order fun _ _ => Nat.le_refl _
  | bin i => exact Scan.costs_field order fun _ below => Tag.leastSized_le (by omega) below
  | str i =>
    refine Scan.costs_field order fun value below => ?_
    have sized := Tag.leastSized_le (by omega) below
    simp only [least]
    split
    · omega
    · exact sized
  | array i | map i =>
    exact Scan.costs_field order fun _ below => Tag.leastCounted_le (by omega) below
  | unsigned i =>
    exact Scan.costs_field order fun _ below =>
      least_integer_le (by omega) (by omega) (by exact_mod_cast below)
  | signed i =>
    refine Scan.costs_field order fun value below => least_integer_le (by omega) ?_ ?_
    · unfold twosComplement
      split <;> omega
    · unfold twosComplement
      split <;> omega
  | fixExt i =>
    exact costs_scanExt order (Nat.le_refl 1) nofun fun type => Nat.le_of_eq (least_fixExt type i)
  | ext i =>
    intro bytes length
    have below := order.load_lt bytes
    rw [length] at below
    have some : 1 ≤ Tag.width i.val := Tag.width_le (Nat.zero_le _)
    exact costs_scanExt order (by omega) (fun _ _ => by omega) fun type =>
      least_ext_le type (Tag.leastSized_le (by omega) below)

theorem costs_scan (order : ByteOrder) : (scan order).Costs least 0 :=
  fun _ _ => costs_scanAfter order _

end Header

theorem Item.costs_scan (order : ByteOrder) : (Item.scan order).Costs least 0 := by
  refine (Header.costs_scan order).bind fun header spent paid => ?_
  split
  · rename_i none
    refine Nat.le_trans (Nat.le_of_eq ?_) paid
    cases header <;> cases none <;> rfl
  · rename_i length announced
    rintro payload rfl
    obtain ⟨same, whole⟩ := Header.withPayload_of_some announced
    change least _ ≤ _
    rw [least, same, whole]
    exact Nat.add_le_add_right paid _

/-! ### What is packed costs no more -/

namespace Encode

variable (order : ByteOrder)

theorem length_natural (value : Nat) :
    (natural order value).length = (Header.integer value).least := by
  simp only [natural, Header.least]
  repeat' split
  all_goals simp only [length_bare, length_withField]
  all_goals omega

theorem length_integer (value : Int) :
    (integer order value).length = (Header.integer value).least := by
  unfold integer
  by_cases positive : 0 ≤ value
  · rw [if_pos positive, length_natural, Int.toNat_of_nonneg positive]
  rw [if_neg positive]
  simp only [Header.least]
  repeat' split
  all_goals simp only [length_bare, length_withField]
  all_goals omega

theorem length_array (size : Nat) : (array order size).length = (Header.array size).least := by
  simp only [array, Header.least, Tag.leastCounted]
  repeat' split
  all_goals simp only [length_bare, length_withField]

theorem length_map (size : Nat) : (map order size).length = (Header.map size).least := by
  simp only [map, Header.least, Tag.leastCounted]
  repeat' split
  all_goals simp only [length_bare, length_withField]

theorem length_strHeader (length : Nat) :
    (strHeader ⟨false, order⟩ length).length = (Header.str length).least := by
  simp only [strHeader, Header.least, Tag.leastSized, Bool.false_eq_true, not_false_eq_true,
    and_true]
  repeat' split
  all_goals simp only [length_bare, length_withField]

theorem length_binHeader (length : Nat) :
    (binHeader ⟨false, order⟩ length).length = (Header.bin length).least := by
  simp only [binHeader, Header.least, Tag.leastSized, Bool.false_eq_true, if_false]
  repeat' split
  all_goals simp only [length_withField]

theorem length_extHeader (type : Int8) (length : Nat) :
    (extHeader order type length).length = (Header.ext type length).least := by
  unfold extHeader
  rw [List.length_append]
  split
  iterate 5 rfl
  · rename_i one two four eight sixteen
    have other : length ∉ [1, 2, 4, 8, 16] := by simp_all
    simp only [Header.least, if_neg other, Tag.leastSized]
    repeat' split
    all_goals simp

theorem length_timestamp {time : Timestamp} (valid : time.nanos.toNat < nanosPerSecond) :
    (timestamp order time).length = time.least := by
  unfold nanosPerSecond at valid
  have none : time.nanos = 0 ↔ time.nanos.toNat = 0 := UInt32.toNat_inj.symm
  have four : Tag.width (2 : Fin 5).val = 4 := rfl
  have eight : Tag.width (3 : Fin 5).val = 8 := rfl
  simp only [timestamp, Timestamp.least, Timestamp.secondsBits, none, Nat.shiftLeft_eq]
  repeat' split
  all_goals simp only [extWord, List.length_cons, List.length_append, ByteOrder.length_store]
  all_goals omega

end Encode

theorem Scalar.length_value (scalar : Scalar) (order : ByteOrder) :
    (scalar.value.bytes ⟨false, order⟩).length = scalar.item.least := by
  have encoded := scalar.encode_value order
  generalize scalar.value.bytes ⟨false, order⟩ = bytes at encoded ⊢
  cases scalar with
  | nil | boolean =>
    cases encoded
    rfl
  | unsigned value =>
    have bare : (Scalar.unsigned value).item.payload = [] := rfl
    cases encoded
    rw [Item.least_of_nil bare]
    exact Encode.length_natural order _
  | signed value =>
    have bare : (Scalar.signed value).item.payload = [] := rfl
    cases encoded
    rw [Item.least_of_nil bare]
    exact Encode.length_integer order _
  | float bits | double bits =>
    cases encoded
    exact Encode.length_withField ..
  | str payload fits =>
    simp [value, Value.encode, Value.fits, fits] at encoded
    subst encoded
    rw [List.length_append, Encode.length_strHeader]
    rfl
  | bin payload fits =>
    simp [value, Value.encode, Value.fits, fits] at encoded
    subst encoded
    rw [List.length_append, Encode.length_binHeader]
    rfl
  | ext type payload other fits =>
    simp [value, Value.encode, Value.fits, fits] at encoded
    subst encoded
    rw [List.length_append, Encode.length_extHeader]
    rfl
  | timestamp time valid =>
    simp [value, Value.encode, Timestamp.encode, Nat.not_le_of_lt valid] at encoded
    subst encoded
    exact Encode.length_timestamp order valid

namespace Value

/-- The value is packed whole by one call, as an item that is read back as it is: no length
without the bytes, no real that may turn into a number, no extension that passes for a
timestamp, and no timestamp that is refused. -/
def Complete : Value → Prop
  | .nil | .boolean _ | .unsigned _ | .signed _ | .float _ | .double _ | .str _ | .bin _
  | .arraySize _ | .mapSize _ => True
  | .ext type _ => type ≠ timestampType
  | .timestamp time => time.nanos.toNat < nanosPerSecond
  | _ => False

instance (value : Value) : Decidable value.Complete := by
  cases value <;> unfold Complete <;> infer_instance

theorem Complete.cases {value : Value} (complete : value.Complete) {dialect : Dialect}
    {bytes : List UInt8} (encoded : value.encode dialect = .ok bytes) :
    (∃ scalar : Scalar, scalar.value = value) ∨ (∃ size, value = .arraySize size) ∨
      ∃ size, value = .mapSize size := by
  have fits {payload : List UInt8} (granted : fits payload = true) :
      payload.length < 0x100000000 := of_decide_eq_true granted
  cases value with
  | nil => exact .inl ⟨.nil, rfl⟩
  | boolean value => exact .inl ⟨.boolean value, rfl⟩
  | unsigned value => exact .inl ⟨.unsigned value, rfl⟩
  | signed value => exact .inl ⟨.signed value, rfl⟩
  | float bits => exact .inl ⟨.float bits, rfl⟩
  | double bits => exact .inl ⟨.double bits, rfl⟩
  | arraySize size => exact .inr (.inl ⟨size, rfl⟩)
  | mapSize size => exact .inr (.inr ⟨size, rfl⟩)
  | str payload =>
    simp only [encode] at encoded
    split at encoded
    · exact .inl ⟨.str payload (fits ‹_›), rfl⟩
    · cases encoded
  | bin payload =>
    simp only [encode] at encoded
    split at encoded
    · exact .inl ⟨.bin payload (fits ‹_›), rfl⟩
    · cases encoded
  | ext type payload =>
    simp only [encode] at encoded
    split at encoded
    · cases encoded
    · exact .inl ⟨.ext type payload complete (fits (Decidable.not_not.mp ‹_›)), rfl⟩
  | timestamp time => exact .inl ⟨.timestamp time complete, rfl⟩
  | _ => exact complete.elim

theorem Complete.reads {value : Value} (complete : value.Complete) {order : ByteOrder}
    {bytes : List UInt8} (encoded : value.encode ⟨false, order⟩ = .ok bytes) :
    ∃ item, (Item.scan order).Reads bytes item ∧ bytes.length = item.least := by
  rcases complete.cases encoded with ⟨scalar, rfl⟩ | ⟨size, rfl⟩ | ⟨size, rfl⟩
  · cases (scalar.encode_value order).symm.trans encoded
    exact ⟨scalar.item, scalar.reads order, scalar.length_value order⟩
  · cases encoded
    exact ⟨_, Item.reads_bare (Encode.reads_array size.toNat_lt) rfl, Encode.length_array order _⟩
  · cases encoded
    exact ⟨_, Item.reads_bare (Encode.reads_map size.toNat_lt) rfl, Encode.length_map order _⟩

end Value

/-! ### Orders that load alike -/

section

variable {order other : ByteOrder}

theorem Scan.field_congr (same : order.load = other.load) :
    Scan.field order = Scan.field other := by
  funext width
  rw [Scan.field, same, Scan.field]

theorem Timestamp.scan_congr (same : order.load = other.load) :
    Timestamp.scan order = Timestamp.scan other := by
  funext tag length
  simp only [Timestamp.scan, Scan.field_congr same, same]

theorem Header.scan_congr (same : order.load = other.load) :
    Header.scan order = Header.scan other := by
  have after : scanAfter order = scanAfter other := by
    funext tag
    cases tag <;>
      simp only [scanAfter, scanExt, Scan.field_congr same, Timestamp.scan_congr same]
  rw [Header.scan, after, Header.scan]

theorem Item.scan_native (native : order.verify = .ok ()) (alike : other.verify = .ok ()) :
    Item.scan order = Item.scan other := by
  have same : order.load = other.load := by
    funext bytes
    rw [ByteOrder.load_eq native, ByteOrder.load_eq alike]
  rw [Item.scan, Header.scan_congr same, Item.scan]

end

/-! ### Calls -/

theorem Unpacker.native_of_first {order : ByteOrder} {bytes : List UInt8} {item : Item}
    {taken : Nat} (answered : first order bytes = (.ok item, taken)) :
    order.verify = .ok () := by
  cases verified : order.verify with
  | ok _ => rfl
  | error fault =>
    simp [first, ofBytes, new, next, attempt, verified] at answered

namespace Packer

theorem attempt_eq_ok {packer after : Packer σ} {call : Packer σ → Status × Packer σ}
    (succeeded : packer.attempt call = (.ok (), after)) :
    packer.fault = none ∧ call packer = (.ok (), after) := by
  unfold attempt at succeeded
  split at succeeded
  · cases succeeded
  · split at succeeded
    · cases succeeded
      exact ⟨‹_›, ‹_›⟩
    · cases succeeded

variable [Outlet σ]

theorem pack_eq_ok {packer after : Packer σ} {value : Value}
    (packed : packer.pack value = (.ok (), after)) :
    packer.fault = none ∧ ∃ output, value.encode packer.dialect = .ok output ∧
      packer.emit output = (.ok (), after) := by
  rw [pack_eq] at packed
  obtain ⟨clean, packed⟩ := attempt_eq_ok packed
  split at packed
  · cases packed
  · exact ⟨clean, _, ‹_›, packed⟩

theorem remaining_of_reserve {packer : Packer σ} {needed : Nat}
    (reserved : (packer.reserve needed).1 = .ok ()) :
    needed ≤ (packer.reserve needed).2.buffer.remaining := by
  unfold reserve at reserved ⊢
  split
  · assumption
  · rename_i short
    rw [if_neg short] at reserved
    split at reserved
    · cases reserved
    · split at reserved
      · rename_i enough
        rwa [if_pos enough]
      · cases reserved

theorem order_call (call : Call) (packer : Packer σ) :
    (packer.call call).2.dialect.order = packer.dialect.order := by
  obtain ⟨body, spares, same⟩ | ⟨_, _, kept⟩ := packer.call_cases call
  · have kept := spares.dialect
    rw [same, attempt]
    split
    · rfl
    · split <;> rename_i made <;> rw [made] at kept <;> exact congrArg Dialect.order kept
  · exact kept

theorem order_run (calls : List Call) (packer : Packer σ) :
    (packer.run calls).2.dialect.order = packer.dialect.order := by
  induction calls generalizing packer with
  | nil => rfl
  | cons call calls ih => exact (ih _).trans (packer.order_call call)

theorem native_of_clean {buffer : Outgoing} {handler : σ} {dialect : Dialect} {calls : List Call}
    (clean : ((new buffer handler dialect).run calls).2.fault = none) :
    dialect.order.verify = .ok () := by
  cases verified : dialect.order.verify with
  | ok _ => rfl
  | error fault =>
    have begun : (new buffer handler dialect).fault = some fault.toFault := by
      simp only [new, verified]
    cases clean.symm.trans (fault_run begun calls)

/-- The bytes are read back as an item, and no input that is read as that item is shorter. -/
def Brief (output : List UInt8) : Prop :=
  ∃ item, (∀ order : ByteOrder, order.verify = .ok () →
      Unpacker.first order output = (.ok item, output.length)) ∧
    ∀ order other, Unpacker.first order other = (.ok item, other.length) →
      output.length ≤ other.length

theorem brief_of_pack (buffer : Outgoing) (handler : σ) (dialect : Dialect) (calls : List Call)
    {value : Value} (complete : value.Complete) {after : Packer σ} :
    let packer := ((new buffer handler dialect).run calls).2
    packer.dialect.compatible = false → packer.pack value = (.ok (), after) →
    ∃ output, value.encode packer.dialect = .ok output ∧ packer.emit output = (.ok (), after) ∧
      Brief output := by
  intro packer plain packed
  obtain ⟨clean, output, encoded, emitted⟩ := pack_eq_ok packed
  have kept : packer.dialect.order = dialect.order := order_run calls _
  have native : packer.dialect.order.verify = .ok () := by
    rw [kept]
    exact native_of_clean clean
  have speaks : packer.dialect = ⟨false, packer.dialect.order⟩ := by rw [← plain]
  obtain ⟨item, reads, shortest⟩ := complete.reads (speaks ▸ encoded)
  refine ⟨output, encoded, emitted, item, fun order alike => ?_, fun order other answered => ?_⟩
  · rw [Unpacker.first_eq alike, ← Item.scan_native native alike]
    have whole := reads .endOfInput []
    rwa [List.append_nil] at whole
  · rw [Unpacker.first_eq (Unpacker.native_of_first answered)] at answered
    have paid := (Item.costs_scan order).read answered
    rwa [Nat.zero_add, ← shortest] at paid

theorem packed_of_emit {packer after : Packer σ} {output : List UInt8}
    (emitted : packer.emit output = (.ok (), after))
    (sound : (packer.reserve output.length).2.buffer.Sound) :
    after.buffer.packed = (packer.reserve output.length).2.buffer.packed ++ output := by
  have enough : (packer.reserve output.length).1 = .ok () → _ := remaining_of_reserve
  rw [emit_eq] at emitted
  rcases reserved : packer.reserve output.length with ⟨fault | _, between⟩
  · rw [reserved] at emitted
    cases emitted
  · rw [reserved] at emitted enough sound
    cases emitted
    exact sound.packed_append (enough rfl)

/-- Brevity. What is packed for a complete value by a packer that need not be compatible, with
whatever handler and after whatever calls, is read back as an item, and no input that is read as
that item is shorter. It lies behind what the handler has left when it was asked for room, and in
memory behind all that was packed before. -/
theorem pack_shortest {value : Value} (complete : value.Complete) (dialect : Dialect)
    (calls : List Call) :
    (∀ (σ : Type) [Outlet σ] (buffer : Outgoing) (handler : σ) after,
      let packer := ((new buffer handler dialect).run calls).2
      packer.dialect.compatible = false → packer.pack value = (.ok (), after) →
      ∃ output, value.encode packer.dialect = .ok output ∧ packer.emit output = (.ok (), after) ∧
        ((packer.reserve output.length).2.buffer.Sound → after.buffer.packed =
          (packer.reserve output.length).2.buffer.packed ++ output) ∧
        Brief output) ∧
    ∀ ceiling size after,
      let packer := (((growable size dialect).withCeiling ceiling).run calls).2
      packer.dialect.compatible = false → packer.pack value = (.ok (), after) →
      ∃ output, after.buffer.packed = packer.buffer.packed ++ output ∧ Brief output := by
  constructor
  · intro σ _ buffer handler after packer plain packed
    obtain ⟨output, encoded, emitted, brief⟩ :=
      brief_of_pack buffer handler dialect calls complete plain packed
    exact ⟨output, encoded, emitted, packed_of_emit emitted, brief⟩
  · intro ceiling size after packer plain packed
    obtain ⟨output, _, emitted, brief⟩ :=
      brief_of_pack _ Growable.mk dialect calls complete plain packed
    obtain ⟨_, holds⟩ := (holds_growable size ceiling dialect).run_clean (pack_eq_ok packed).1
    exact ⟨output, holds.packed_emit emitted, brief⟩

/-- A signed number that goes into two bytes, though it has forms of three, five and nine. -/
theorem pack_shortest_signed :
    let packer := (((growable 16 ⟨true, .portable⟩).withCeiling 64).run
      [.pack .nil, .setCompatible false]).2
    let result := packer.pack (.signed 200)
    (Value.signed 200).Complete ∧ packer.dialect.compatible = false ∧ result = (.ok (), result.2) ∧
      ∃ output, result.2.buffer.packed = [0xc0] ++ output ∧ Brief output := by
  intro packer result
  have complete : (Value.signed 200).Complete := trivial
  have packed : result = (.ok (), result.2) := Prod.ext rfl rfl
  have front : packer.buffer.packed = [0xc0] := by decide +kernel
  obtain ⟨output, lies, brief⟩ := (pack_shortest complete ⟨true, .portable⟩
    [.pack .nil, .setCompatible false]).2 64 16 result.2 rfl packed
  exact ⟨complete, rfl, packed, output, front ▸ lies, brief⟩

end Packer
end MessagePack
