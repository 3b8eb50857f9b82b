/-! Arithmetic on positions, which are 64-bit words: a sum past the top and a difference
below zero have no answer. -/
namespace MessagePack.Position

def modulus : Nat := UInt64.size

def add? (a b : Nat) : Option Nat := if a + b < modulus then some (a + b) else none

def sub? (a b : Nat) : Option Nat := if b ≤ a then some (a - b) else none

theorem add?_of_lt (h : a + b < modulus) : add? a b = some (a + b) := if_pos h

theorem add?_of_le (h : modulus ≤ a + b) : add? a b = none := if_neg (by omega)

theorem sub?_of_le (h : b ≤ a) : sub? a b = some (a - b) := if_pos h

end MessagePack.Position
