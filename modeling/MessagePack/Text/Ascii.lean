/-! Text that is printed as one byte per character. -/
namespace MessagePack

/-- The bytes of ASCII characters. -/
def ascii (text : List Char) : List UInt8 := text.map fun c => .ofNat c.toNat

def asciiString (text : String) : List UInt8 := ascii text.toList

@[simp] theorem ascii_append (a b : List Char) : ascii (a ++ b) = ascii a ++ ascii b := by
  simp [ascii]

def decimal (value : Nat) : List Char := Nat.toDigits 10 value

def signedDecimal (value : Int) : List Char :=
  if value < 0 then '-' :: decimal value.natAbs else decimal value.natAbs

/-- Fills up with `filler` on the left to a width. -/
def padLeft (filler : Char) (width : Nat) (text : List Char) : List Char :=
  .replicate (width - text.length) filler ++ text

end MessagePack
