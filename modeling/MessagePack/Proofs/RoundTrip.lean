import MessagePack.Proofs.PackingCalls
import MessagePack.Proofs.DocumentTrees

/-! Documents that are packed in memory and unpacked from there. Packing leaves the bytes of
the nodes one behind the other, and reading finds each where the one before it ends. -/
namespace MessagePack

def Tree.calls (document : List Tree) : List Packer.Call :=
  (document.flatMap nodes).map fun node => .pack node.head

namespace Packer

def Call.bytes (dialect : Dialect) : Call → List UInt8
  | .pack value => value.bytes dialect
  | .insert bytes => bytes
  | _ => []

/-- The call does nothing but write, and its value is not refused. -/
def Call.Writes (dialect : Dialect) : Call → Prop
  | .pack value => value.encode dialect = .ok (value.bytes dialect)
  | .insert _ => True
  | _ => False

end Packer

/-- Calls that do nothing but write add their bytes to the text. -/
theorem Draft.run_writes {dialect : Dialect} {calls : List Packer.Call}
    (writes : ∀ call ∈ calls, call.Writes dialect) {draft : Draft} (clean : draft.fault = none)
    (speaks : draft.dialect = dialect) :
    draft.run calls = (calls.map fun _ => .ok (),
      { draft with text := draft.text ++ calls.flatMap (·.bytes dialect) }) := by
  induction calls generalizing draft with
  | nil => simp [run]
  | cons call calls ih =>
    obtain ⟨own, others⟩ := List.forall_mem_cons.mp writes
    have first : draft.call call =
        (.ok (), { draft with text := draft.text ++ call.bytes dialect }) := by
      cases call with
      | pack value =>
        have encoded : value.encode draft.dialect = .ok (value.bytes dialect) := speaks ▸ own
        simp only [Draft.call, attempt, clean, encoded]
        rfl
      | insert bytes =>
        simp only [Draft.call, attempt, clean]
        rfl
      | flush | setCompatible | setBarrier | clearBarrier | patch => exact own.elim
    have rest : Draft.run calls { draft with text := draft.text ++ call.bytes dialect } = _ :=
      ih others clean speaks
    rw [run, first]
    dsimp only
    rw [rest, List.flatMap_cons, List.append_assoc]
    rfl

theorem Draft.fault_start {dialect : Dialect} (native : dialect.order.verify = .ok ()) :
    (start dialect).fault = none := by
  rw [start, native]

/-- Memory takes values of which none is refused, and holds the bytes of all of them. -/
theorem Packer.holds_values {dialect : Dialect} (native : dialect.order.verify = .ok ())
    {values : List Value}
    (encoded : ∀ value ∈ values, value.encode dialect = .ok (value.bytes dialect))
    (capacity : Nat) {ceiling : Nat}
    (allocation : Granted ceiling (values.flatMap (Value.bytes dialect)).length) :
    let packing := ((growable capacity dialect).withCeiling ceiling).run (values.map .pack)
    packing.1 = values.map (fun _ => .ok ()) ∧ packing.2.status = .ok () ∧
      packing.2.buffer.packed = values.flatMap (Value.bytes dialect) := by
  have clean := Draft.fault_start native
  have writes : ∀ call ∈ values.map Call.pack, call.Writes dialect := by
    intro call member
    obtain ⟨value, listed, rfl⟩ := List.mem_map.mp member
    exact encoded value listed
  have drafted := Draft.run_writes writes clean rfl
  rw [List.flatMap_map, List.map_map] at drafted
  have outcome := (holds_growable capacity ceiling dialect).run (values.map .pack) (by simp)
  rw [drafted] at outcome
  rcases outcome with ⟨answers, holds⟩ | ⟨_, short⟩
  · refine ⟨answers, ?_, holds.packed_eq⟩
    rw [Packer.status, holds.fault]
    dsimp only
    rw [clean]
  · exact absurd allocation short

/-- Packing a document succeeds, and leaves the bytes of its nodes. -/
theorem Packer.holds_document {order : ByteOrder} (native : order.verify = .ok ())
    (document : List Tree) (capacity : Nat) {ceiling : Nat}
    (allocation : Granted ceiling (document.flatMap (Tree.bytes order)).length) :
    let packing := ((growable capacity ⟨false, order⟩).withCeiling ceiling).run
      (Tree.calls document)
    packing.1 = (Tree.calls document).map (fun _ => .ok ()) ∧ packing.2.status = .ok () ∧
      packing.2.buffer.packed = document.flatMap (Tree.bytes order) := by
  have calls : Tree.calls document = ((document.flatMap Tree.nodes).map Tree.head).map .pack :=
    List.map_map.symm
  have text : ((document.flatMap Tree.nodes).map Tree.head).flatMap (Value.bytes ⟨false, order⟩) =
      document.flatMap (Tree.bytes order) :=
    (List.flatMap_map ..).trans (Tree.flatMap_opening order document)
  have encoded : ∀ value ∈ (document.flatMap Tree.nodes).map Tree.head,
      value.encode ⟨false, order⟩ = .ok (value.bytes ⟨false, order⟩) := by
    intro value member
    obtain ⟨node, _, rfl⟩ := List.mem_map.mp member
    exact node.encode_head order
  rw [← text] at allocation
  obtain ⟨answers, status, packed⟩ := holds_values native encoded capacity allocation
  rw [calls]
  refine ⟨answers.trans ?_, status, packed.trans text⟩
  simp only [List.map_map, Function.comp_def]

/-- The round trip. Any document can be packed in memory of any capacity, and reading what
was packed yields its nodes, each in its place and none besides. -/
theorem round_trip {document : List Tree} (fits : ∀ tree ∈ document, tree.Fits)
    {order : ByteOrder} (native : order.verify = .ok ()) (capacity : Nat) {ceiling : Nat}
    (allocation : Granted ceiling (document.flatMap (Tree.bytes order)).length) :
    let packing := ((Packer.growable capacity ⟨false, order⟩).withCeiling ceiling).run
      (Tree.calls document)
    packing.1 = (Tree.calls document).map (fun _ => .ok ()) ∧ packing.2.status = .ok () ∧
      (Unpacker.ofBytes packing.2.buffer.packed order).outcomes
          (List.replicate ((document.flatMap Tree.nodes).length + 1) .next) =
        Tree.outcomes order 0 (document.flatMap Tree.nodes) := by
  obtain ⟨answers, status, packed⟩ := Packer.holds_document native document capacity allocation
  refine ⟨answers, status, ?_⟩
  rw [packed, (Unpacker.follows_ofBytes _ order).outcomes]
  have clean : (Reading.start (document.flatMap (Tree.bytes order)) .endOfInput order).fault =
      none := by
    rw [Reading.start, native]
  refine Reading.outcomes_nodes clean rfl ?_ (Tree.flatMap_opening order document).symm
  intro node member
  obtain ⟨tree, among, inside⟩ := List.mem_flatMap.mp member
  exact fits tree among node inside

/-- A document of two trees, in memory that need not grow. -/
theorem round_trip_pair :
    let key : Tree := .leaf (.str [0x6b] (by decide))
    let document : List Tree := [.map [(key, .array [.leaf .nil, .leaf (.signed (-5))])],
      .leaf (.unsigned 300)]
    let packing := ((Packer.growable 16 ⟨false, .portable⟩).withCeiling 18).run
      (Tree.calls document)
    (Unpacker.ofBytes packing.2.buffer.packed .portable).outcomes (List.replicate 7 .next) =
      [⟨.ok (.item (.map 1)), 1, .ok ()⟩, ⟨.ok (.item (.str [0x6b])), 3, .ok ()⟩,
        ⟨.ok (.item (.array 2)), 4, .ok ()⟩, ⟨.ok (.item .nil), 5, .ok ()⟩,
        ⟨.ok (.item (.integer (-5))), 6, .ok ()⟩, ⟨.ok (.item (.integer 300)), 9, .ok ()⟩,
        ⟨.error .endOfInput, 9, .error .endOfInput⟩] := by
  intro key document
  have fits : ∀ tree ∈ document, tree.Fits := by decide
  exact (round_trip fits rfl 16 (by decide)).2.2

end MessagePack
