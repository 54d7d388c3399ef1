import Asm6502.Encoding
import Asm6502.Statement.Basic
import Asm6502.Text.Numeral

/-!
The text of statements. A number is written in hexadecimal with as many digits as the bytes it
takes, so only its low byte or its low two bytes are shown.
-/

namespace Asm6502

namespace Operand

def byteText (v : Int32) : Text :=
  '$' :: Text.hex 2 (residue 0x100 v.toInt)

def wordText (v : Int32) : Text :=
  '$' :: Text.hex 4 (residue 0x10000 v.toInt)

/-- The text of an operand that takes `size` bytes. -/
def text (size : Nat) : Operand → Text
  | implied => []
  | value v => if size = 1 then byteText v else wordText v
  | label name => name

end Operand

namespace Mode

def decorate (mode : Mode) (operand : Text) : Text :=
  match mode with
  | immediate => '#' :: operand
  | zeroPageX | absoluteX => operand ++ ",X".toList
  | zeroPageY | absoluteY => operand ++ ",Y".toList
  | indirect => '(' :: operand ++ ")".toList
  | indirectX => '(' :: operand ++ ",X)".toList
  | indirectY => '(' :: operand ++ "),Y".toList
  | implied | accumulator | zeroPage | absolute | relative => operand

end Mode

def Instruction.text (i : Instruction) : Text :=
  match i.operand with
  | .implied => i.mnemonic.name
  | operand => i.mnemonic.name ++ ' ' :: i.mode.decorate (operand.text i.mode.operandSize)

namespace Statement

def entriesText (entries : List Text) : Text :=
  ", ".toList.intercalate entries

def text : Statement → Text
  | instruction i => i.text
  | origin address => ".ORG $".toList ++ Text.hex 4 address.toNat
  | bytes values => ".BYTE ".toList ++ entriesText (values.map Operand.byteText)
  | words entries => ".WORD ".toList ++ entriesText (entries.map (Operand.text 2))

end Statement

end Asm6502
