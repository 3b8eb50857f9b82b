import MessagePack.Proofs.UnpackingCalls
import MessagePack.Proofs.WireForms

/-! Documents as trees. A tree is packed node by node, each container before what is in it,
and unpacked the same way, so what matters of it is the list of its nodes. -/
namespace MessagePack

/-- A value that is complete without others after it. -/
inductive Scalar where
  | nil
  | boolean (value : Bool)
  | unsigned (value : UInt64)
  | signed (value : Int64)
  | float (bits : UInt32)
  | double (bits : UInt64)
  | str (bytes : List UInt8) (fits : bytes.length < 0x100000000)
  | bin (bytes : List UInt8) (fits : bytes.length < 0x100000000)
  | ext (type : Int8) (bytes : List UInt8) (other : type ≠ timestampType)
    (fits : bytes.length < 0x100000000)
  | timestamp (time : Timestamp) (valid : time.nanos.toNat < nanosPerSecond)
  deriving DecidableEq

def Value.bytes (dialect : Dialect) (value : Value) : List UInt8 :=
  match value.encode dialect with
  | .ok bytes => bytes
  | .error _ => []

namespace Scalar

def value : Scalar → Value
  | .nil => .nil
  | .boolean value => .boolean value
  | .unsigned value => .unsigned value
  | .signed value => .signed value
  | .float bits => .float bits
  | .double bits => .double bits
  | .str bytes _ => .str bytes
  | .bin bytes _ => .bin bytes
  | .ext type bytes _ _ => .ext type bytes
  | .timestamp time _ => .timestamp time

/-- Whole numbers are read back without regard to the call that they were packed with. -/
def item : Scalar → Item
  | .nil => .nil
  | .boolean value => .boolean value
  | .unsigned value => .integer value.toNat
  | .signed value => .integer value.toInt
  | .float bits => .float bits
  | .double bits => .double bits
  | .str bytes _ => .str bytes
  | .bin bytes _ => .bin bytes
  | .ext type bytes _ _ => .ext type bytes
  | .timestamp time _ => .timestamp time

theorem encode_value (scalar : Scalar) (order : ByteOrder) :
    scalar.value.encode ⟨false, order⟩ = .ok (scalar.value.bytes ⟨false, order⟩) := by
  cases scalar with
  | str bytes fits | bin bytes fits | ext type bytes other fits =>
    simp [value, Value.bytes, Value.encode, Value.fits, fits]
  | timestamp time valid =>
    simp [value, Value.bytes, Value.encode, Timestamp.encode, Nat.not_le_of_lt valid]
  | _ => rfl

theorem reads (scalar : Scalar) (order : ByteOrder) :
    (Item.scan order).Reads (scalar.value.bytes ⟨false, order⟩) scalar.item := by
  have reads {bytes : List UInt8} (spelled : scalar.value.encode ⟨false, order⟩ = .ok bytes)
      (reads : (Item.scan order).Reads bytes scalar.item) :
      (Item.scan order).Reads (scalar.value.bytes ⟨false, order⟩) scalar.item := by
    rw [Value.bytes, spelled]
    exact reads
  cases scalar with
  | nil =>
    have fields : Header.scanAfter order .nil = .done .nil := rfl
    exact Item.reads_bare (Encode.reads_bare fields) rfl
  | boolean value =>
    have fields : Header.scanAfter order (.boolean value) = .done (.boolean value) := rfl
    exact Item.reads_bare (Encode.reads_bare fields) rfl
  | unsigned value => exact Item.reads_bare (Encode.reads_natural value.toNat_lt) rfl
  | signed value =>
    exact Item.reads_bare (Encode.reads_integer value.le_toInt
      (Int.lt_trans value.toInt_lt (by decide))) rfl
  | float bits => exact Item.reads_bare (Encode.reads_float bits) rfl
  | double bits => exact Item.reads_bare (Encode.reads_double bits) rfl
  | str bytes fits =>
    exact reads (if_pos (by simpa [Value.fits] using fits))
      (Item.reads_payload (Encode.reads_strHeader _ fits) rfl)
  | bin bytes fits =>
    exact reads (if_pos (by simpa [Value.fits] using fits))
      (Item.reads_payload (Encode.reads_binHeader fits) rfl)
  | ext type bytes other fits =>
    refine reads ?_ (Item.reads_payload (Encode.reads_extHeader fits other) rfl)
    simp [value, Value.encode, Value.fits, fits]
  | timestamp time valid =>
    refine reads ?_ (Item.reads_bare (Encode.reads_timestamp valid) rfl)
    simp [value, Value.encode, Timestamp.encode, Nat.not_le_of_lt valid]

end Scalar

inductive Tree where
  | leaf (scalar : Scalar)
  | array (elements : List Tree)
  | map (entries : List (Tree × Tree))

namespace Tree

def children : Tree → List Tree
  | .leaf _ => []
  | .array elements => elements
  | .map entries => entries.flatMap fun entry => [entry.1, entry.2]

def size : Tree → Nat
  | .leaf _ => 0
  | .array elements => elements.length
  | .map entries => entries.length

def head : Tree → Value
  | .leaf scalar => scalar.value
  | .array elements => .arraySize (.ofNat elements.length)
  | .map entries => .mapSize (.ofNat entries.length)

def item : Tree → Item
  | .leaf scalar => scalar.item
  | .array elements => .array elements.length
  | .map entries => .map entries.length

mutual

/-- The tree and all that are in it, each before those that are in it. -/
def nodes : Tree → List Tree
  | .leaf scalar => [.leaf scalar]
  | .array elements => .array elements :: nodesOfElements elements
  | .map entries => .map entries :: nodesOfEntries entries

def nodesOfElements : List Tree → List Tree
  | [] => []
  | element :: elements => element.nodes ++ nodesOfElements elements

def nodesOfEntries : List (Tree × Tree) → List Tree
  | [] => []
  | (key, value) :: entries => key.nodes ++ value.nodes ++ nodesOfEntries entries

end

theorem nodesOfElements_eq (elements : List Tree) :
    nodesOfElements elements = elements.flatMap nodes := by
  induction elements with
  | nil => rfl
  | cons element elements ih => rw [nodesOfElements, ih, List.flatMap_cons]

theorem nodesOfEntries_eq (entries : List (Tree × Tree)) :
    nodesOfEntries entries = (map entries).children.flatMap nodes := by
  induction entries with
  | nil => rfl
  | cons entry entries ih =>
    obtain ⟨key, value⟩ := entry
    rw [nodesOfEntries, ih]
    simp [children]

theorem nodes_eq (tree : Tree) : tree.nodes = tree :: tree.children.flatMap nodes := by
  cases tree with
  | leaf scalar => rfl
  | array elements => rw [nodes, nodesOfElements_eq, children]
  | map entries => rw [nodes, nodesOfEntries_eq]

def Fits (tree : Tree) : Prop := ∀ node ∈ tree.nodes, node.size < 0x100000000

instance (tree : Tree) : Decidable tree.Fits :=
  inferInstanceAs (Decidable (∀ node ∈ tree.nodes, node.size < 0x100000000))

def opening (order : ByteOrder) (tree : Tree) : List UInt8 := tree.head.bytes ⟨false, order⟩

def bytes (order : ByteOrder) (tree : Tree) : List UInt8 := tree.nodes.flatMap (opening order)

theorem flatMap_opening (order : ByteOrder) (document : List Tree) :
    (document.flatMap nodes).flatMap (opening order) = document.flatMap (bytes order) := by
  rw [List.flatMap_assoc]
  rfl

theorem bytes_eq (order : ByteOrder) (tree : Tree) :
    tree.bytes order = tree.opening order ++ tree.children.flatMap (bytes order) := by
  rw [bytes, nodes_eq, List.flatMap_cons, flatMap_opening]

theorem Fits.size_lt {tree : Tree} (fits : tree.Fits) : tree.size < 0x100000000 :=
  fits tree (by rw [nodes_eq]; exact List.mem_cons_self)

theorem Fits.children {tree child : Tree} (fits : tree.Fits) (member : child ∈ tree.children) :
    child.Fits := by
  intro node among
  apply fits node
  rw [nodes_eq]
  exact List.mem_cons_of_mem _ (List.mem_flatMap.mpr ⟨child, member, among⟩)

theorem encode_head (tree : Tree) (order : ByteOrder) :
    tree.head.encode ⟨false, order⟩ = .ok (tree.opening order) := by
  cases tree with
  | leaf scalar => exact scalar.encode_value order
  | array elements => rfl
  | map entries => rfl

theorem reads_opening {tree : Tree} (fits : tree.size < 0x100000000) (order : ByteOrder) :
    (Item.scan order).Reads (tree.opening order) tree.item := by
  cases tree with
  | leaf scalar => exact scalar.reads order
  | array elements =>
    have count : (UInt32.ofNat elements.length).toNat = elements.length :=
      UInt32.toNat_ofNat_of_lt' fits
    change (Item.scan order).Reads (Encode.array order (UInt32.ofNat elements.length).toNat) _
    rw [count]
    exact Item.reads_bare (Encode.reads_array fits) rfl
  | map entries =>
    have count : (UInt32.ofNat entries.length).toNat = entries.length :=
      UInt32.toNat_ofNat_of_lt' fits
    change (Item.scan order).Reads (Encode.map order (UInt32.ofNat entries.length).toNat) _
    rw [count]
    exact Item.reads_bare (Encode.reads_map fits) rfl

/-- What reading one item after another sees of the nodes, and then of the end: every item
moves the offset by its encoded length. -/
def outcomes (order : ByteOrder) : (offset : Nat) → (nodes : List Tree) → List Unpacker.Outcome
  | offset, [] => [⟨.error .endOfInput, offset, .error .endOfInput⟩]
  | offset, node :: nodes =>
    let offset := offset + (node.opening order).length
    ⟨.ok (.item node.item), offset, .ok ()⟩ :: outcomes order offset nodes

end Tree

namespace Reading

variable {reading : Reading}

theorem perform_of_reads {scan : Scan α} {bytes more : List UInt8} {value : α}
    (reads : scan.Reads bytes value) (ahead : reading.rest = bytes ++ more) :
    reading.perform scan = (.ok value, reading.advance bytes.length) := by
  rw [perform, ahead, reads reading.closing more]

theorem next_of_reads (clean : reading.fault = none) {bytes more : List UInt8} {item : Item}
    (reads : (Item.scan reading.order).Reads bytes item) (ahead : reading.rest = bytes ++ more) :
    reading.next = (.ok item, reading.advance bytes.length) := by
  rw [next, attempt_of_clean clean, perform_of_reads reads ahead]
  rfl

theorem next_of_nil (clean : reading.fault = none) (ended : reading.rest = []) :
    reading.next = (.error (Scan.shortfall reading.closing true),
      { reading with fault := some (Scan.shortfall reading.closing true) }) := by
  have missing : reading.rest.length < 1 := by rw [ended]; decide
  have failed : reading.perform (Item.scan reading.order) =
      (.error (Scan.shortfall reading.closing true), reading) := perform_take_of_lt true _ missing
  rw [next, attempt_of_clean clean, failed]
  simp only [settle, clean]
  rfl

/-- Nodes that lie ahead are read one after another. -/
theorem outcomes_nodes (clean : reading.fault = none) (closing : reading.closing = .endOfInput)
    {nodes : List Tree} (fits : ∀ node ∈ nodes, node.size < 0x100000000)
    (ahead : reading.rest = nodes.flatMap (Tree.opening reading.order)) :
    reading.outcomes (List.replicate (nodes.length + 1) .next) =
      Tree.outcomes reading.order reading.position nodes := by
  induction nodes generalizing reading with
  | nil =>
    have last := next_of_nil clean ahead
    simp only [List.length_nil, List.replicate, outcomes, call, Tree.outcomes]
    rw [last, closing]
    rfl
  | cons node nodes ih =>
    rw [List.flatMap_cons] at ahead
    have reads := Tree.reads_opening (fits node List.mem_cons_self) reading.order
    have first := next_of_reads clean reads ahead
    have rest : (reading.advance (node.opening reading.order).length).rest =
        nodes.flatMap (Tree.opening reading.order) := by
      rw [rest_advance, ahead, List.drop_left]
    have others : (reading.advance (node.opening reading.order).length).outcomes
        (List.replicate (nodes.length + 1) .next) = Tree.outcomes reading.order
          (reading.position + (node.opening reading.order).length) nodes :=
      ih clean closing (fun node member => fits node (List.mem_cons_of_mem _ member)) rest
    have status : (reading.advance (node.opening reading.order).length).status = .ok () := by
      rw [Reading.status, advance, clean]
    rw [List.length_cons, List.replicate_succ, Tree.outcomes, outcomes, call, first]
    simp only [Prod.map]
    rw [id, status, others]
    rfl

end Reading
end MessagePack
