import Asm6502.InstructionSet
import Asm6502.Text.Numeral

/-!
The reasons an assembly fails, and their wording.
-/

namespace Asm6502

inductive Fault where
  | unknownInstruction (word : Text)
  | invalidMode (mnemonic : Mnemonic) (mode : Mode)
  | unknownLabel (name : Text)
  | branchOutOfRange (distance : Int)
  | malformedLiteral (literal : Text)
  | duplicateLabel (name : Text) (firstLine : Nat)
  | addressOverflow (address : Int)
  deriving DecidableEq, Repr

namespace Fault

/-- Hexadecimal with the sign in front, not folded into the digits. -/
def signedHex (i : Int) : Text :=
  (if i < 0 then "-0x".toList else "0x".toList) ++ Text.hexLower 0 i.natAbs

def message : Fault → Text
  | unknownInstruction word => "Unknown instruction: '".toList ++ word ++ "'".toList
  | invalidMode mnemonic mode =>
    "Invalid addressing mode ".toList ++ mode.name ++ " for ".toList ++ mnemonic.name
  | unknownLabel name => "Unknown label: '".toList ++ name ++ "'".toList
  | branchOutOfRange distance =>
    "Branch out of range (".toList ++ Text.integer distance ++ ")".toList
  | malformedLiteral literal => "Malformed literal: '".toList ++ literal ++ "'".toList
  | duplicateLabel name firstLine =>
    "Label '".toList ++ name ++ "' already defined on line ".toList ++ Text.decimal firstLine
  | addressOverflow address =>
    "Address ".toList ++ signedHex address ++ " outside of the 16-bit address space".toList

end Fault

structure LineFault where
  line : Nat
  fault : Fault
  deriving DecidableEq, Repr

def LineFault.message (f : LineFault) : Text :=
  "Line ".toList ++ Text.decimal f.line ++ ": ".toList ++ f.fault.message

end Asm6502
