import Asm6502.Fault
import Asm6502.InstructionSet

/-!
Statements: what the operation and the operand of a source line mean. A statement is an
instruction or one of three directives; its size is known before any label is.
-/

namespace Asm6502

inductive Operand where
  | implied
  | value (v : Int32)
  | label (name : Text)
  deriving DecidableEq, Repr

structure Instruction where
  mnemonic : Mnemonic
  mode : Mode
  operand : Operand
  deriving DecidableEq, Repr

namespace Instruction

def size (i : Instruction) : Nat :=
  i.mode.instructionSize

def opcode (i : Instruction) : Except Fault UInt8 :=
  match i.mnemonic.opcode? i.mode with
  | some code => .ok code
  | none => .error (.invalidMode i.mnemonic i.mode)

end Instruction

inductive Statement where
  | instruction (i : Instruction)
  /-- Moves the location counter to an address. -/
  | origin (address : UInt16)
  /-- Places one byte for each value. -/
  | bytes (values : List Int32)
  /-- Places two bytes for each entry. -/
  | words (entries : List Operand)
  deriving DecidableEq, Repr

namespace Statement

def size : Statement → Nat
  | instruction i => i.size
  | origin _ => 0
  | bytes values => values.length
  | words entries => 2 * entries.length

end Statement

end Asm6502
