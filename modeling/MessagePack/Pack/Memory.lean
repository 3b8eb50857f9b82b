import MessagePack.Pack.Packer

/-! Packing into memory alone: into a region of fixed size, or into one that doubles. -/
namespace MessagePack

/-- Never makes room. -/
structure Fixed where
  deriving DecidableEq, Repr

instance : Outlet Fixed where
  makeRoom handler buffer _ := ⟨.error .bufferOverflow, handler, buffer⟩

/-- Makes room by doubling the region. -/
structure Growable where
  deriving DecidableEq, Repr

instance : Outlet Growable where
  makeRoom handler buffer needed :=
    let (status, buffer) := buffer.growFor needed
    ⟨status, handler, buffer⟩

namespace Packer

def fixed (size : Nat) (dialect : Dialect) : Packer Fixed := new (.ofSize size) ⟨⟩ dialect

def defaultCapacity : Nat := 1024

/-- Capacity 0 asks for the default. -/
def growable (capacity : Nat) (dialect : Dialect) : Packer Growable :=
  new (.ofSize (if capacity = 0 then defaultCapacity else capacity)) ⟨⟩ dialect

end Packer
end MessagePack
