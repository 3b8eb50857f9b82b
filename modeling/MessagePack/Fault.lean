/-! The causes for which packing or unpacking fails, with their stable numbers and
their texts. Success has the number 0 and -9 is not given to any cause. -/
namespace MessagePack

inductive Fault where
  | endOfInput
  | bufferOverflow
  | bufferUnderflow
  | malformedInput
  | wrongByteOrder
  | errorInHandler
  | illegalCall
  | allocationError
  | typeError
  | valueError
  | wrongTimestampLength
  deriving DecidableEq, Repr

/-- A call that answers nothing but whether it succeeded. -/
abbrev Status := Except Fault Unit

namespace Fault

def code : Fault → Int
  | .endOfInput => -1
  | .bufferOverflow => -2
  | .bufferUnderflow => -3
  | .malformedInput => -4
  | .wrongByteOrder => -5
  | .errorInHandler => -6
  | .illegalCall => -7
  | .allocationError => -8
  | .typeError => -10
  | .valueError => -11
  | .wrongTimestampLength => -12

def all : List Fault :=
  [.endOfInput, .bufferOverflow, .bufferUnderflow, .malformedInput, .wrongByteOrder,
    .errorInHandler, .illegalCall, .allocationError, .typeError, .valueError,
    .wrongTimestampLength]

def ofCode? (code : Int) : Option Fault := all.find? (·.code = code)

def message : Fault → String
  | .endOfInput => "end of input"
  | .bufferOverflow => "buffer overflow"
  | .bufferUnderflow => "buffer underflow"
  | .malformedInput => "malformed input"
  | .wrongByteOrder => "byte order strategy does not match the host"
  | .errorInHandler => "error in buffer handler"
  | .illegalCall => "illegal call"
  | .allocationError => "allocation error"
  | .typeError => "type error"
  | .valueError => "value error"
  | .wrongTimestampLength => "wrong timestamp length"

end Fault

def Status.code : Status → Int
  | .ok _ => 0
  | .error fault => fault.code

/-- Faults of plain runs of bytes, met outside any packing or unpacking session. -/
inductive BytesFault where
  | endOfBytes
  | wrongByteOrder
  deriving DecidableEq, Repr

namespace BytesFault

def message : BytesFault → String
  | .endOfBytes => "end of buffer"
  | .wrongByteOrder => "byte order does not match host"

/-- Within a session missing bytes are an underflow. -/
def toFault : BytesFault → Fault
  | .endOfBytes => .bufferUnderflow
  | .wrongByteOrder => .wrongByteOrder

end BytesFault
end MessagePack
