import Asm6502.Statement.Basic
import Asm6502.Statement.Shape
import Asm6502.Text.Numeral

/-!
Reading literals and statements. A literal is hexadecimal behind `$`, `0x` or `0X`, binary behind
`%` and decimal otherwise, and stands for a signed 32-bit number. A label operand is never looked up
here: its mode follows from the shape alone, so a label is absolute, or relative after a branch.
-/

namespace Asm6502

/-! ## Literals -/

namespace Literal

/-- Whether a text is meant as a number and not as a label. -/
def looksNumeric : Text → Bool
  | [] => false
  | c :: _ => c = '$' || c = '%' || c.isDigit

/-- The radix that a literal announces, and what stands behind the announcement. -/
def radix : Text → Nat × Text
  | '$' :: ds => (16, ds)
  | '0' :: 'x' :: ds => (16, ds)
  | '0' :: 'X' :: ds => (16, ds)
  | '%' :: ds => (2, ds)
  | ds => (10, ds)

/-- The value that a literal without blanks at its ends denotes, of any size. -/
def value? (t : Text) : Option Int :=
  Text.signed? (radix t).1 (radix t).2

/-- Blanks around a literal do not count. -/
def read (text : Text) : Except Fault Int32 :=
  match value? (Text.trim text) with
  | none => .error (.malformedLiteral (Text.trim text))
  | some v =>
    if -0x80000000 ≤ v ∧ v ≤ 0x7FFFFFFF then .ok (Int32.ofInt v)
    else .error (.malformedLiteral (Text.trim text))

end Literal

/-! ## Operands of instructions -/

namespace Mode

def sized (short long : Mode) (v : Int32) : Mode :=
  if v.toInt ≤ 0xFF then short else long

end Mode

namespace Instruction

def withLiteral (m : Mnemonic) (mode : Mode) (e : Text) : Except Fault Instruction :=
  (Literal.read e).map fun v => ⟨m, mode, .value v⟩

/-- An indexed operand: a label, or a number that is `sized`. -/
def indexed (m : Mnemonic) (short long : Mode) (e : Text) : Except Fault Instruction :=
  if Literal.looksNumeric (Text.trim e) then
    (Literal.read e).map fun v => ⟨m, Mode.sized short long v, .value v⟩
  else .ok ⟨m, long, .label (Text.trim e)⟩

/-- An operand without marks: a label or a number, which a branch takes as its target. -/
def bare (m : Mnemonic) (e : Text) : Except Fault Instruction :=
  if Literal.looksNumeric e then
    (Literal.read e).map fun v =>
      ⟨m, if m.isBranch then .relative else Mode.sized .zeroPage .absolute v, .value v⟩
  else .ok ⟨m, if m.isBranch then .relative else .absolute, .label e⟩

/-- Without an operand, a mnemonic that can work on the accumulator does. -/
def ofShape (m : Mnemonic) : Shape → Except Fault Instruction
  | .absent => .ok ⟨m, if m.supports .accumulator then .accumulator else .implied, .implied⟩
  | .accumulator => .ok ⟨m, .accumulator, .implied⟩
  | .immediate e => withLiteral m .immediate e
  | .indirectX e => withLiteral m .indirectX e
  | .indirectY e => withLiteral m .indirectY e
  | .indirect e => withLiteral m .indirect e
  | .indexedX e => indexed m .zeroPageX .absoluteX e
  | .indexedY e => indexed m .zeroPageY .absoluteY e
  | .bare e => bare m e

/-- The instruction that `m` and the text of its operand make up. Whether `m` has the mode is left
to `Instruction.opcode`. -/
def read (m : Mnemonic) (operand : Text) : Except Fault Instruction :=
  ofShape m (Shape.ofText operand)

end Instruction

/-! ## Directives -/

/-- An entry of `.WORD`: a label or a literal. -/
def Operand.readWord (entry : Text) : Except Fault Operand :=
  let e := Text.trim entry
  if e = [] ∨ Literal.looksNumeric e then (Literal.read e).map .value
  else .ok (.label e)

namespace Statement

def readOrigin (operand : Text) : Except Fault Statement := do
  let v ← Literal.read operand
  if 0 ≤ v.toInt ∧ v.toInt ≤ 0xFFFF then .ok (origin (UInt16.ofNat v.toInt.toNat))
  else .error (.addressOverflow v.toInt)

def readBytes (operand : Text) : Except Fault Statement :=
  ((operand.splitOn ',').mapM Literal.read).map bytes

def readWords (operand : Text) : Except Fault Statement :=
  ((operand.splitOn ',').mapM Operand.readWord).map words

/-- The directive with this name, the leading dot left out. -/
def readDirective (name operand : Text) : Except Fault Statement :=
  if name = "ORG".toList then readOrigin operand
  else if name = "BYTE".toList then readBytes operand
  else if name = "WORD".toList then readWords operand
  else .error (.unknownInstruction ('.' :: name))

def read (operation operand : Text) : Except Fault Statement :=
  match Text.dropFirst? '.' operation with
  | some name => readDirective name operand
  | none =>
    match Mnemonic.ofName? operation with
    | some m => (Instruction.read m operand).map instruction
    | none => .error (.unknownInstruction operation)

end Statement

end Asm6502
