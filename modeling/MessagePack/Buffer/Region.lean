/-! A run of memory that a buffer works in, addressed from 0. Operations that would leave
the region are cut to it, and one that makes it longer can be refused. -/
namespace MessagePack

structure Region where
  bytes : Array UInt8
  /-- The largest size that the allocator grants. -/
  ceiling : Nat
  deriving DecidableEq, Repr

namespace Region

/-- The address space of a process, which has addresses of 47 bits. -/
def addressSpace : Nat := 1 <<< 47

def zeros (size : Nat) : Region := ⟨.replicate size 0, addressSpace⟩

def ofList (bytes : List UInt8) : Region := ⟨bytes.toArray, addressSpace⟩

def size (region : Region) : Nat := region.bytes.size

def toList (region : Region) : List UInt8 := region.bytes.toList

def slice (region : Region) (low high : Nat) : List UInt8 := (region.bytes.extract low high).toList

/-- The bytes from `low` up to `high`, none if that is no range of the region. -/
def slice? (region : Region) (low high : Nat) : Option (List UInt8) :=
  if low ≤ high ∧ high ≤ region.size then some (region.slice low high) else none

def overwrite (region : Region) (position : Nat) : List UInt8 → Region
  | [] => region
  | byte :: bytes =>
    overwrite ⟨region.bytes.setIfInBounds position byte, region.ceiling⟩ (position + 1) bytes

def move (region : Region) (low high target : Nat) : Region :=
  region.overwrite target (region.slice low high)

/-- Cuts the region or fills it up with zeros. -/
def resize? (region : Region) (size : Nat) : Option Region :=
  if size ≤ region.size then some ⟨region.bytes.extract 0 size, region.ceiling⟩
  else if size ≤ region.ceiling then
    some ⟨region.bytes ++ .replicate (size - region.size) 0, region.ceiling⟩
  else none

@[simp] theorem length_toList (region : Region) : region.toList.length = region.size := rfl

@[simp] theorem toList_ofList (bytes : List UInt8) : (ofList bytes).toList = bytes := rfl

theorem slice_eq (region : Region) (low high : Nat) :
    region.slice low high = (region.toList.drop low).take (high - low) := by
  simp [slice, toList, List.extract_eq_take_drop]

theorem slice?_of_le {region : Region} {low high : Nat} (order : low ≤ high)
    (bound : high ≤ region.size) : region.slice? low high = some (region.slice low high) :=
  if_pos ⟨order, bound⟩

@[simp] theorem size_overwrite (region : Region) (position : Nat) (new : List UInt8) :
    (region.overwrite position new).size = region.size := by
  induction new generalizing region position with
  | nil => rfl
  | cons byte new ih => rw [overwrite, ih]; simp [size]

@[simp] theorem ceiling_overwrite (region : Region) (position : Nat) (new : List UInt8) :
    (region.overwrite position new).ceiling = region.ceiling := by
  induction new generalizing region position with
  | nil => rfl
  | cons byte new ih => simp [overwrite, ih]

theorem toList_overwrite {region : Region} {position : Nat} {new : List UInt8}
    (h : position + new.length ≤ region.size) :
    (region.overwrite position new).toList =
      region.toList.take position ++ new ++ region.toList.drop (position + new.length) := by
  induction new generalizing region position with
  | nil => simp [overwrite]
  | cons byte new ih =>
    simp only [List.length_cons] at h
    have room : position < region.toList.length := by simp; omega
    rw [overwrite, ih (by simp [size] at h ⊢; omega)]
    have cells : (Region.mk (region.bytes.setIfInBounds position byte) region.ceiling).toList =
        region.toList.set position byte := by simp [toList]
    rw [cells, List.set_eq_take_append_cons_drop, if_pos room]
    have first : (region.toList.take position).length = position := by simp; omega
    simp [List.take_append, List.drop_append, first, Nat.add_comm, Nat.add_left_comm,
      List.take_take, List.drop_drop]

@[simp] theorem size_move (region : Region) (low high target : Nat) :
    (region.move low high target).size = region.size := by simp [move]

theorem size_resize? {region grown : Region} {count : Nat}
    (h : region.resize? count = some grown) : grown.size = count := by
  unfold resize? at h
  split at h
  · cases h; simp_all [size]
  · split at h
    · cases h; simp_all [size]; omega
    · cases h

end Region
end MessagePack
