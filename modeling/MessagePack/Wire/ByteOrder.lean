import MessagePack.Fault

/-! Storing and loading the big-endian fields of the format. A byte order names the
host layout that its routines are written for: the specialised ones move words as
the host keeps them and swap where the layout calls for it, the portable one works
byte by byte. A specialised order is right only on a host of its own layout, which
`verify` checks. -/
namespace MessagePack

/-- The number whose base-256 digits are `bytes`, most significant first. -/
def ofBigEndian (bytes : List UInt8) : Nat :=
  bytes.foldl (fun value byte => value * 256 + byte.toNat) 0

/-- The low `width` base-256 digits of `value`, most significant first. -/
def toBigEndian : (width value : Nat) → List UInt8
  | 0, _ => []
  | width + 1, value => toBigEndian width (value / 256) ++ [UInt8.ofNat value]

/-- How many words of `width` bytes there are. -/
def wordCount (width : Nat) : Nat := 1 <<< (8 * width)

@[simp] theorem wordCount_zero : wordCount 0 = 1 := rfl

theorem wordCount_succ (width : Nat) : wordCount (width + 1) = 256 * wordCount width := by
  rw [wordCount, Nat.mul_succ, Nat.shiftLeft_add, Nat.shiftLeft_eq _ 8, Nat.mul_comm, wordCount]

@[simp] theorem length_toBigEndian (width value : Nat) :
    (toBigEndian width value).length = width := by
  induction width generalizing value with
  | zero => rfl
  | succ width ih => simp [toBigEndian, ih]

@[simp] theorem ofBigEndian_nil : ofBigEndian [] = 0 := rfl

theorem ofBigEndian_concat (bytes : List UInt8) (byte : UInt8) :
    ofBigEndian (bytes ++ [byte]) = ofBigEndian bytes * 256 + byte.toNat := by
  simp [ofBigEndian]

theorem ofBigEndian_lt (bytes : List UInt8) : ofBigEndian bytes < wordCount bytes.length := by
  rw [← bytes.reverse_reverse]
  induction bytes.reverse with
  | nil => decide
  | cons byte bytes ih =>
    have := byte.toNat_lt
    rw [List.reverse_cons, ofBigEndian_concat, List.length_append, List.length_singleton,
      wordCount_succ]
    omega

@[simp] theorem ofBigEndian_toBigEndian (width value : Nat) :
    ofBigEndian (toBigEndian width value) = value % wordCount width := by
  induction width generalizing value with
  | zero => simp [toBigEndian, Nat.mod_one]
  | succ width ih =>
    rw [toBigEndian, ofBigEndian_concat, ih, wordCount_succ, Nat.mod_mul, UInt8.toNat_ofNat']
    omega

@[simp] theorem toBigEndian_ofBigEndian (bytes : List UInt8) :
    toBigEndian bytes.length (ofBigEndian bytes) = bytes := by
  rw [← bytes.reverse_reverse]
  induction bytes.reverse with
  | nil => rfl
  | cons byte bytes ih =>
    have := byte.toNat_lt
    have rest : (ofBigEndian bytes.reverse * 256 + byte.toNat) / 256 =
        ofBigEndian bytes.reverse := by omega
    have last : UInt8.ofNat (ofBigEndian bytes.reverse * 256 + byte.toNat) = byte :=
      UInt8.toNat_inj.mp (by rw [UInt8.toNat_ofNat']; omega)
    rw [List.reverse_cons, ofBigEndian_concat, List.length_append, List.length_singleton,
      toBigEndian, rest, last, ih]

/-! ### Byte by byte -/

namespace Bytewise

def load16 (a b : UInt8) : UInt16 := a.toUInt16 <<< 8 ||| b.toUInt16

def load32 (a b c d : UInt8) : UInt32 :=
  a.toUInt32 <<< 24 ||| b.toUInt32 <<< 16 ||| c.toUInt32 <<< 8 ||| d.toUInt32

def load64 (bytes : List UInt8) : UInt64 :=
  bytes.foldl (fun word byte => word <<< 8 ||| byte.toUInt64) 0

def store16 (value : UInt16) : List UInt8 := [(value >>> 8).toUInt8, value.toUInt8]

def store32 (value : UInt32) : List UInt8 :=
  [(value >>> 24).toUInt8, (value >>> 16).toUInt8, (value >>> 8).toUInt8, value.toUInt8]

def store64 (value : UInt64) : List UInt8 :=
  (List.range 8).map fun i => (value >>> .ofNat (56 - 8 * i)).toUInt8

/-- There is a routine for each width of a field; a single byte needs none. -/
def load : List UInt8 → Nat
  | [a, b] => (load16 a b).toNat
  | [a, b, c, d] => (load32 a b c d).toNat
  | [a, b, c, d, e, f, g, h] => (load64 [a, b, c, d, e, f, g, h]).toNat
  | bytes => ofBigEndian bytes

def store : (width value : Nat) → List UInt8
  | 2, value => store16 (.ofNat value)
  | 4, value => store32 (.ofNat value)
  | 8, value => store64 (.ofNat value)
  | width, value => toBigEndian width value

theorem shift_or {high low count : Nat} (fits : low < 1 <<< count) :
    high <<< count ||| low = high * 1 <<< count + low := by
  rw [Nat.shiftLeft_eq 1, Nat.one_mul] at fits ⊢
  rw [← Nat.shiftLeft_add_eq_or_of_lt fits, Nat.shiftLeft_eq]

theorem load16_eq (a b : UInt8) : (load16 a b).toNat = ofBigEndian [a, b] := by
  have := a.toNat_lt
  have last : b.toNat < 1 <<< 8 := b.toNat_lt
  have shifted : a.toNat <<< 8 % 0x10000 = a.toNat <<< 8 := by
    rw [Nat.shiftLeft_eq]
    omega
  simp only [load16, UInt16.toNat_or, UInt16.toNat_shiftLeft, UInt8.toNat_toUInt16, Nat.reducePow]
  rw [show (8 : UInt16).toNat % 16 = 8 from rfl, shifted, shift_or last]
  simp [ofBigEndian]

theorem load32_eq (a b c d : UInt8) : (load32 a b c d).toNat = ofBigEndian [a, b, c, d] := by
  have := a.toNat_lt
  have := b.toNat_lt
  have := c.toNat_lt
  have last : d.toNat < 1 <<< 8 := d.toNat_lt
  have shifted (byte : UInt8) {count : Nat} (fits : count ≤ 24) :
      byte.toNat <<< count % 0x100000000 = byte.toNat <<< count := by
    have factor : 2 ^ count ≤ 2 ^ 24 := Nat.pow_le_pow_right (by decide) fits
    have bound : byte.toNat * 2 ^ count ≤ 255 * 0x1000000 :=
      Nat.mul_le_mul (Nat.le_of_lt_succ byte.toNat_lt) factor
    rw [Nat.shiftLeft_eq]
    exact Nat.mod_eq_of_lt (Nat.lt_of_le_of_lt bound (by decide))
  simp only [load32, UInt32.toNat_or, UInt32.toNat_shiftLeft, UInt8.toNat_toUInt32, Nat.reducePow]
  rw [show (24 : UInt32).toNat % 32 = 24 from rfl, show (16 : UInt32).toNat % 32 = 16 from rfl,
    show (8 : UInt32).toNat % 32 = 8 from rfl, shifted a (by decide), shifted b (by decide),
    shifted c (by decide), Nat.or_assoc, Nat.or_assoc]
  -- from the last byte on, each shifted one is joined to a number below it
  rw [shift_or last, shift_or (show c.toNat * 1 <<< 8 + d.toNat < 1 <<< 16 by omega),
    shift_or (show b.toNat * 1 <<< 16 + (c.toNat * 1 <<< 8 + d.toNat) < 1 <<< 24 by omega)]
  simp only [ofBigEndian, List.foldl_cons, List.foldl_nil]
  omega

theorem load64_eq {bytes : List UInt8} (fits : bytes.length ≤ 8) :
    (load64 bytes).toNat = ofBigEndian bytes := by
  revert fits
  rw [← bytes.reverse_reverse]
  induction bytes.reverse with
  | nil => exact fun _ => rfl
  | cons byte bytes ih =>
    intro fits
    rw [List.reverse_cons, List.length_append, List.length_singleton] at fits
    have few : wordCount bytes.reverse.length ≤ wordCount 7 := by
      simp only [wordCount, Nat.shiftLeft_eq, Nat.one_mul]
      exact Nat.pow_le_pow_right (by decide) (by omega)
    have below : ofBigEndian bytes.reverse < 0x100000000000000 :=
      Nat.lt_of_lt_of_le (ofBigEndian_lt bytes.reverse) few
    have shifted : ofBigEndian bytes.reverse <<< 8 % 0x10000000000000000 =
        ofBigEndian bytes.reverse <<< 8 := by
      rw [Nat.shiftLeft_eq]
      omega
    have last : byte.toNat < 1 <<< 8 := byte.toNat_lt
    have former := ih (by omega)
    rw [List.reverse_cons, ofBigEndian_concat]
    simp only [load64, List.foldl_append, List.foldl_cons, List.foldl_nil, UInt64.toNat_or,
      UInt64.toNat_shiftLeft, UInt8.toNat_toUInt64, Nat.reducePow] at former ⊢
    rw [former, show (8 : UInt64).toNat % 64 = 8 from rfl, shifted, shift_or last]
    rfl

theorem load_eq (bytes : List UInt8) : load bytes = ofBigEndian bytes := by
  unfold load
  split
  · exact load16_eq _ _
  · exact load32_eq _ _ _ _
  · exact load64_eq (Nat.le_refl 8)
  · rfl

theorem store16_eq (value : Nat) : store16 (.ofNat value) = toBigEndian 2 value := by
  simp only [store16, toBigEndian, List.nil_append, List.cons_append, List.cons.injEq, and_true,
    ← UInt8.toNat_inj, UInt16.toNat_toUInt8, UInt16.toNat_shiftRight, UInt16.toNat_ofNat',
    UInt8.toNat_ofNat', Nat.shiftRight_eq_div_pow]
  rw [show (8 : UInt16).toNat % 16 = 8 from rfl]
  omega

theorem store32_eq (value : Nat) : store32 (.ofNat value) = toBigEndian 4 value := by
  simp only [store32, toBigEndian, List.nil_append, List.cons_append, List.cons.injEq, and_true,
    ← UInt8.toNat_inj, UInt32.toNat_toUInt8, UInt32.toNat_shiftRight, UInt32.toNat_ofNat',
    UInt8.toNat_ofNat', Nat.shiftRight_eq_div_pow]
  rw [show (8 : UInt32).toNat % 32 = 8 from rfl, show (16 : UInt32).toNat % 32 = 16 from rfl,
    show (24 : UInt32).toNat % 32 = 24 from rfl]
  omega

theorem store64_eq (value : Nat) : store64 (.ofNat value) = toBigEndian 8 value := by
  simp only [store64, List.range, List.range.loop, List.map_cons, List.map_nil, toBigEndian,
    List.nil_append, List.cons_append, List.cons.injEq, and_true, ← UInt8.toNat_inj,
    UInt64.toNat_toUInt8, UInt64.toNat_shiftRight, UInt64.toNat_ofNat', UInt8.toNat_ofNat',
    Nat.shiftRight_eq_div_pow, Nat.reduceMul, Nat.reduceSub, Nat.reducePow, Nat.reduceMod]
  omega

theorem store_eq (width value : Nat) : store width value = toBigEndian width value := by
  unfold store
  split
  · exact store16_eq _
  · exact store32_eq _
  · exact store64_eq _
  · rfl
end Bytewise

/-! ### Host layouts -/

/-- How a host keeps the bytes of a word in memory. -/
inductive Layout where
  | littleEndian
  | bigEndian
  deriving DecidableEq, Repr

def Layout.host : Layout := .littleEndian

def Layout.store : Layout → (width value : Nat) → List UInt8
  | .littleEndian, width, value => (toBigEndian width value).reverse
  | .bigEndian, width, value => toBigEndian width value

def Layout.load : Layout → List UInt8 → Nat
  | .littleEndian, bytes => ofBigEndian bytes.reverse
  | .bigEndian, bytes => ofBigEndian bytes

/-- The word of `width` bytes with its bytes in the opposite order. -/
def swapBytes (width value : Nat) : Nat := ofBigEndian (toBigEndian width value).reverse

/-- The routines that carry words to and from the wire. -/
inductive ByteOrder where
  | little
  | big
  | portable
  deriving DecidableEq, Repr

namespace ByteOrder

def native : ByteOrder :=
  match Layout.host with
  | .littleEndian => .little
  | .bigEndian => .big

instance : Inhabited ByteOrder := ⟨native⟩

/-- The layout that the routines assume, none for those that work on any host. -/
def layout? : ByteOrder → Option Layout
  | .little => some .littleEndian
  | .big => some .bigEndian
  | .portable => none

def verify (order : ByteOrder) : Except BytesFault Unit :=
  match order.layout? with
  | none => .ok ()
  | some layout => if layout = .host then .ok () else .error .wrongByteOrder

def store (order : ByteOrder) (width value : Nat) : List UInt8 :=
  match order with
  | .little => Layout.host.store width (swapBytes width value)
  | .big => Layout.host.store width value
  | .portable => Bytewise.store width value

def load (order : ByteOrder) (bytes : List UInt8) : Nat :=
  match order with
  | .little => swapBytes bytes.length (Layout.host.load bytes)
  | .big => Layout.host.load bytes
  | .portable => Bytewise.load bytes

def name : ByteOrder → String
  | .little => "little"
  | .big => "big"
  | .portable => "portable"

def describe : ByteOrder → String
  | .little => "ByteOrder \x7b layout: LittleEndian \x7d"
  | .big => "ByteOrder \x7b layout: BigEndian \x7d"
  | .portable => "ByteOrder \x7b layout: Portable \x7d"

@[simp] theorem length_store (order : ByteOrder) (width value : Nat) :
    (order.store width value).length = width := by
  cases order <;> simp [store, Layout.host, Layout.store, Bytewise.store_eq]

end ByteOrder

/-- The number that a word of `width` bytes stands for in two's complement. -/
def twosComplement (width value : Nat) : Int :=
  if 2 * value < wordCount width then value else (value : Int) - wordCount width

/-- The word of `width` bytes that stands for `value` in two's complement. -/
def ofTwosComplement (width : Nat) (value : Int) : Nat := (value % wordCount width).toNat

end MessagePack
