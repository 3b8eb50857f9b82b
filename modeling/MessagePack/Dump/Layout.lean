import MessagePack.Text.Ascii

/-! How a dump is laid out. Every top-level item starts a line with its position in the
input. With an indent, so does whatever a container holds and its closing bracket;
without one a container stays on its line. -/
namespace MessagePack.Dump

structure Options where
  /-- Spaces for each level of nesting. -/
  indent : Nat
  /-- Prints arrays that a record mark leads as records. -/
  records : Bool
  deriving DecidableEq, Repr

namespace Options

/-- Starts a line: the position in hexadecimal and the indent of a level. -/
def newLine (options : Options) (offset level : Nat) : List UInt8 :=
  ascii ('\n' :: padLeft ' ' 6 (Nat.toDigits 16 offset) ++ [' ', ' ']
    ++ .replicate (level * options.indent) ' ')

/-- Sets an element apart from the one before. -/
def separate (options : Options) (offset level index : Nat) : List UInt8 :=
  if 0 < options.indent then options.newLine offset level
  else if 0 < index then ascii [' ']
  else []

def close (options : Options) (offset level : Nat) (bracket : Char) : List UInt8 :=
  if 0 < options.indent then options.newLine offset level ++ ascii [bracket]
  else ascii [bracket]

end Options
end MessagePack.Dump
