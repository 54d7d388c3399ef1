import Asm6502.Labels
import Asm6502.Statement.Printer

/-!
Events: what an assembly tells about its course, each with a level of detail.
-/

namespace Asm6502

/-! ## Levels -/

inductive Level where
  | warn
  | info
  | debug
  | trace
  deriving DecidableEq, Repr

namespace Level

def name : Level → Text
  | warn => "warn".toList
  | info => "info".toList
  | debug => "debug".toList
  | trace => "trace".toList

def tag (l : Level) : Text :=
  l.name.map Char.toUpper

def rank : Level → Nat
  | warn => 0
  | info => 1
  | debug => 2
  | trace => 3

/-- The finest level that is shown behind so many `-v`. -/
def ofVerbosity : Nat → Level
  | 0 => warn
  | 1 => info
  | 2 => debug
  | _ => trace

end Level

/-! ## Events -/

inductive Event where
  | labelDefined (name : Text) (address : UInt16)
  | labelsCounted (count : Nat)
  | statementReached (location : Location) (statement : Statement)
  | originMoved (address : UInt16)
  | writeDropped (byte : UInt8) (address : Nat)
  | bytesLost (count capacity : Nat)
  deriving DecidableEq, Repr

namespace Event

def level : Event → Level
  | labelDefined .. => .debug
  | labelsCounted _ => .debug
  | statementReached .. => .trace
  | originMoved _ => .debug
  | writeDropped .. => .trace
  | bytesLost .. => .warn

def message : Event → Text
  | labelDefined name address =>
    "Label ".toList ++ name ++ " = $".toList ++ Text.hex 4 address.toNat
  | labelsCounted count => "Pass 1 found ".toList ++ Text.decimal count ++ " labels".toList
  | statementReached location statement =>
    '$' :: Text.hex 4 location ++ ": ".toList ++ statement.text
  | originMoved address => "Origin moved to $".toList ++ Text.hex 4 address.toNat
  | writeDropped byte address =>
    "Dropped write of 0x".toList ++ Text.hexLower 2 byte.toNat ++ " to 0x".toList ++
      Text.hexLower 4 address
  | bytesLost count capacity =>
    Text.decimal count ++ " bytes were outside of the ".toList ++ Text.decimal capacity ++
      " byte image and were dropped".toList

end Event

end Asm6502
