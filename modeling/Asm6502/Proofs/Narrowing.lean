import Asm6502.Encoding
import Asm6502.Proofs.Result

/-!
Numbers cut down to the bytes that they take. Only the low bytes of a number are placed, so a
statement whose numbers are cut down has the same machine code.
-/

namespace Asm6502

/-! ## Numbers -/

/-- The number that the low `size` bytes of `v` stand for. -/
def narrow (size : Nat) (v : Int32) : Int32 :=
  Int32.ofInt (v.toInt % Int.pow 0x100 size)

theorem toInt_narrow_one (v : Int32) : (narrow 1 v).toInt = v.toInt % 0x100 := by
  have hnarrow : narrow 1 v = Int32.ofInt (v.toInt % 0x100) := rfl
  rw [hnarrow]
  exact Int32.toInt_ofInt_of_le (by omega) (by omega)

theorem toInt_narrow_two (v : Int32) : (narrow 2 v).toInt = v.toInt % 0x10000 := by
  have hnarrow : narrow 2 v = Int32.ofInt (v.toInt % 0x10000) := rfl
  rw [hnarrow]
  exact Int32.toInt_ofInt_of_le (by omega) (by omega)

theorem lowByte_congr {v w : Int} (h : v % 0x100 = w % 0x100) : lowByte v = lowByte w := by
  have hresidue : residue 0x100 v = residue 0x100 w := congrArg Int.toNat h
  rw [lowByte, lowByte, hresidue]

theorem lowByte_narrow (v : Int32) : lowByte (narrow 1 v).toInt = lowByte v.toInt := by
  rw [toInt_narrow_one]
  exact lowByte_congr (by omega)

theorem littleEndian_narrow (v : Int32) :
    littleEndian (narrow 2 v).toInt = littleEndian v.toInt := by
  have hlow : lowByte (v.toInt % 0x10000) = lowByte v.toInt := lowByte_congr (by omega)
  have hhigh : lowByte (v.toInt % 0x10000 / 0x100) = lowByte (v.toInt / 0x100) :=
    lowByte_congr (by omega)
  rw [toInt_narrow_two, littleEndian, littleEndian, hlow, hhigh]

theorem take_one_littleEndian (v : Int) : (littleEndian v).take 1 = [lowByte v] := rfl

/-! ## Statements -/

def Operand.narrowed (size : Nat) : Operand → Operand
  | implied => implied
  | value v => value (narrow size v)
  | label name => label name

def Instruction.narrowed (i : Instruction) : Instruction :=
  { i with operand := i.operand.narrowed i.mode.operandSize }

/-- The statement of the same kind with every number cut down (`narrow`) to the bytes that it takes.
-/
def Statement.narrowed : Statement → Statement
  | instruction i => instruction i.narrowed
  | origin address => origin address
  | bytes values => bytes (values.map (narrow 1))
  | words entries => words (entries.map (Operand.narrowed 2))

/-! ## Machine code -/

theorem Mode.operandBytes_narrow {mode : Mode} (h : mode ≠ .relative) (address : Nat) (v : Int32) :
    mode.operandBytes address (narrow mode.operandSize v).toInt =
      mode.operandBytes address v.toInt := by
  have hsize : mode.operandSize = 0 ∨ mode.operandSize = 1 ∨ mode.operandSize = 2 := by
    cases mode <;> decide
  rw [operandBytes, operandBytes, if_neg h, if_neg h]
  obtain hsize | hsize | hsize := hsize <;> rw [hsize]
  · rw [List.take_zero, List.take_zero]
  · rw [take_one_littleEndian, take_one_littleEndian, lowByte_narrow]
  · rw [littleEndian_narrow]

/-- The target of a branch is measured from the branch and not cut down, so it has to be a
label. -/
theorem Instruction.encode_narrowed {i : Instruction}
    (h : i.mode = .relative → ∀ v, i.operand ≠ .value v) (labels : LabelTable) (address : Nat) :
    i.narrowed.encode labels address = i.encode labels address := by
  obtain ⟨m, mode, operand⟩ := i
  cases operand with
  | implied => rfl
  | label name => rfl
  | value v =>
    have hmode : mode ≠ .relative := fun hmode => h hmode v rfl
    simp only [encode, narrowed, Operand.narrowed, Operand.resolve, opcode, bind, Except.bind,
      Mode.operandBytes_narrow hmode]

theorem Operand.littleEndian_resolve_narrowed (labels : LabelTable) (operand : Operand) :
    ((operand.narrowed 2).resolve labels).map littleEndian =
      (operand.resolve labels).map littleEndian := by
  cases operand with
  | implied => rfl
  | label name => rfl
  | value v => exact congrArg Except.ok (littleEndian_narrow v)

theorem Statement.encode_narrowed {statement : Statement}
    (h : ∀ i, statement = instruction i → i.mode = .relative → ∀ v, i.operand ≠ .value v)
    (labels : LabelTable) (address : Nat) :
    statement.narrowed.encode labels address = statement.encode labels address := by
  cases statement with
  | instruction i => exact i.encode_narrowed (h i rfl) labels address
  | origin origin => rfl
  | bytes values =>
    simp only [narrowed, encode, List.map_map, Function.comp_def, lowByte_narrow]
  | words entries =>
    simp only [narrowed, encode, map_flatMap_mapM, List.mapM_map, Function.comp_def,
      Operand.littleEndian_resolve_narrowed]

end Asm6502
