import MessagePack.Pack.Packer

/-! Room that is claimed for a value is filled: what is written in each form is as long as was
reckoned for it. So packing comes down to writing the bytes behind those that are there. -/
namespace MessagePack

namespace Encode

@[simp] theorem length_bare (tag : Tag) : (bare tag).length = 1 := rfl

@[simp] theorem length_withField (order : ByteOrder) (tag : Tag) (width value : Nat) :
    (withField order tag width value).length = 1 + width := by
  rw [withField, List.length_cons, ByteOrder.length_store, Nat.add_comm]

@[simp] theorem length_extWord (order : ByteOrder) (type : Int8) (i : Fin 5) (word : Nat) :
    (extWord order type i word).length = 2 + Tag.width i.val := by
  simp only [extWord, List.length_cons, ByteOrder.length_store]
  omega

theorem compactFloat_cases (order : ByteOrder) (bits : UInt32) :
    (∃ value, Value.whole? .single (-0x8000) 0xffff bits.toNat = some value ∧
      compactFloat order bits = integer order value) ∨
    Value.whole? .single (-0x8000) 0xffff bits.toNat = none ∧
      compactFloat order bits = float order bits := by
  unfold compactFloat
  cases Value.whole? .single (-0x8000) 0xffff bits.toNat with
  | some value => exact .inl ⟨value, rfl, rfl⟩
  | none => exact .inr ⟨rfl, rfl⟩

/-- A compact double is packed as an integer, as a float or as it is. -/
theorem compactDouble_cases (order : ByteOrder) (bits : UInt64) :
    (∃ value, Value.whole? .double (-0x80000000) 0xffffffff bits.toNat = some value ∧
      compactDouble order bits = integer order value) ∨
    Value.whole? .double (-0x80000000) 0xffffffff bits.toNat = none ∧
      (Value.Narrows bits ∧
          compactDouble order bits = float order (Number.doubleToSingle bits) ∨
        ¬Value.Narrows bits ∧ compactDouble order bits = double order bits) := by
  unfold compactDouble
  cases Value.whole? .double (-0x80000000) 0xffffffff bits.toNat with
  | some value => exact .inl ⟨value, rfl, rfl⟩
  | none =>
    by_cases narrow : Value.Narrows bits
    · exact .inr ⟨rfl, .inl ⟨narrow, if_pos narrow⟩⟩
    · exact .inr ⟨rfl, .inr ⟨narrow, if_neg narrow⟩⟩

end Encode

namespace Room

open Encode

variable (order : ByteOrder) (dialect : Dialect)

theorem length_natural (value : Nat) : (Encode.natural order value).length = natural value := by
  simp only [Encode.natural, natural]
  repeat' split
  all_goals simp only [length_bare, length_withField]

theorem length_integer (value : Int) : (Encode.integer order value).length = integer value := by
  simp only [Encode.integer, integer]
  repeat' split
  all_goals simp only [length_bare, length_withField, length_natural]

theorem length_compactFloat (bits : UInt32) :
    (Encode.compactFloat order bits).length = compactFloat bits := by
  unfold compactFloat
  rcases compactFloat_cases order bits with ⟨value, found, same⟩ | ⟨found, same⟩
  · rw [same, found, length_integer]
  · rw [same, found]
    exact length_withField ..

theorem length_compactDouble (bits : UInt64) :
    (Encode.compactDouble order bits).length = compactDouble bits := by
  unfold compactDouble
  rcases compactDouble_cases order bits with
    ⟨value, found, same⟩ | ⟨found, ⟨narrow, same⟩ | ⟨wide, same⟩⟩
  · rw [same, found, length_integer]
  · rw [same, found]
    exact (length_withField ..).trans (if_pos narrow).symm
  · rw [same, found]
    exact (length_withField ..).trans (if_neg wide).symm

theorem length_array (size : Nat) : (Encode.array order size).length = container size := by
  simp only [Encode.array, container]
  repeat' split
  all_goals simp only [length_bare, length_withField]

theorem length_map (size : Nat) : (Encode.map order size).length = container size := by
  simp only [Encode.map, container]
  repeat' split
  all_goals simp only [length_bare, length_withField]

theorem length_strHeader (length : Nat) :
    (Encode.strHeader dialect length).length = strHeader dialect length := by
  simp only [Encode.strHeader, strHeader]
  repeat' split
  all_goals simp only [length_bare, length_withField]

theorem length_binHeader (length : Nat) :
    (Encode.binHeader dialect length).length = binHeader dialect length := by
  simp only [Encode.binHeader, binHeader]
  repeat' split
  all_goals simp only [length_withField, length_strHeader]

theorem length_extHeader (type : Int8) (length : Nat) :
    (Encode.extHeader order type length).length = extHeader length := by
  unfold Encode.extHeader
  rw [List.length_append]
  split
  iterate 5 rfl
  · have other : length ∉ [1, 2, 4, 8, 16] := by simp_all
    simp only [extHeader, if_neg other]
    repeat' split
    all_goals simp only [length_withField, List.length_singleton]

theorem length_extInteger (type : Int8) (value : Int) :
    (Encode.extInteger order type value).length = extInteger value := by
  simp only [Encode.extInteger, length_extWord, integerClass, extInteger]
  repeat' split
  all_goals rfl

theorem length_timestamp (time : Timestamp) :
    (Encode.timestamp order time).length = timestamp time := by
  simp only [Encode.timestamp, timestamp]
  repeat' split
  all_goals simp only [length_extWord, List.length_cons, List.length_append,
    ByteOrder.length_store]
  all_goals rfl

theorem integer_le (value : Int) : integer value ≤ 9 := by
  unfold integer natural
  repeat' split
  all_goals decide

theorem compactFloat_le (bits : UInt32) : compactFloat bits ≤ 9 := by
  unfold compactFloat
  split
  · exact integer_le _
  · decide

theorem compactDouble_le (bits : UInt64) : compactDouble bits ≤ 9 := by
  unfold compactDouble
  split
  · exact integer_le _
  · split <;> decide

end Room

theorem Timestamp.length_encode {time : Timestamp} {dialect : Dialect} {bytes : List UInt8}
    (encoded : time.encode dialect = .ok bytes) : bytes.length = Room.timestamp time := by
  unfold Timestamp.encode at encoded
  split at encoded
  · cases encoded
  · split at encoded <;> cases encoded
    exact Room.length_timestamp ..

/-- What is written is as long as what is claimed. -/
theorem Value.length_encode {value : Value} {dialect : Dialect} {bytes : List UInt8}
    (encoded : value.encode dialect = .ok bytes) : bytes.length = value.needed dialect := by
  cases value with
  | nil | boolean => cases encoded; rfl
  | unsigned value => cases encoded; exact Room.length_natural ..
  | signed value => cases encoded; exact Room.length_integer ..
  | float bits => cases encoded; exact Encode.length_withField dialect.order .float 4 bits.toNat
  | double bits => cases encoded; exact Encode.length_withField dialect.order .double 8 bits.toNat
  | compactFloat bits => cases encoded; exact Room.length_compactFloat ..
  | compactDouble bits => cases encoded; exact Room.length_compactDouble ..
  | arraySize size => cases encoded; exact Room.length_array ..
  | mapSize size => cases encoded; exact Room.length_map ..
  | strSize length => cases encoded; exact Room.length_strHeader ..
  | binSize length => cases encoded; exact Room.length_binHeader ..
  | timestamp time => exact Timestamp.length_encode encoded
  | systemTime time held => exact Timestamp.length_encode encoded
  | timeInterval seconds => exact Timestamp.length_encode encoded
  | str payload =>
    simp only [encode] at encoded
    split at encoded <;> cases encoded
    rw [List.length_append, Room.length_strHeader]
    rfl
  | bin payload =>
    simp only [encode] at encoded
    split at encoded <;> cases encoded
    rw [List.length_append, Room.length_binHeader]
    rfl
  | ext type payload =>
    simp only [encode] at encoded
    split at encoded
    · cases encoded
    · split at encoded <;> cases encoded
      rw [List.length_append, Room.length_extHeader]
      rfl
  | extSize type length =>
    simp only [encode] at encoded
    split at encoded <;> cases encoded
    exact Room.length_extHeader ..
  | extInteger =>
    simp only [encode] at encoded
    split at encoded <;> cases encoded
    exact Room.length_extInteger ..
  | extFloat | extDouble =>
    simp only [encode] at encoded
    split at encoded <;> cases encoded
    exact Encode.length_extWord ..

namespace Packer

variable [Outlet σ]

theorem emit_eq (packer : Packer σ) (bytes : List UInt8) :
    packer.emit bytes =
      match packer.reserve bytes.length with
      | (.error fault, packer) => (.error fault, packer)
      | (.ok _, packer) => (.ok (), { packer with buffer := packer.buffer.append bytes }) := rfl

theorem pack_eq (packer : Packer σ) (value : Value) :
    packer.pack value = packer.attempt fun packer =>
      match value.encode packer.dialect with
      | .error fault => (.error fault, packer)
      | .ok bytes => packer.emit bytes := by
  refine congrArg packer.attempt (funext fun packer => ?_)
  cases encoded : value.encode packer.dialect with
  | error fault => rfl
  | ok bytes =>
    dsimp only
    rw [emit, Value.length_encode encoded]

end Packer
end MessagePack
