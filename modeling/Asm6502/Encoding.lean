import Asm6502.Labels
import Asm6502.Statement.Basic

/-!
Machine code: the bytes of a statement at an address, with its labels looked up in a table. A
statement is encoded as a whole or refused, so a fault leaves no bytes behind.
-/

namespace Asm6502

/-! ## Residues -/

/-- `v` modulo `modulus`, never negative. -/
def residue (modulus : Nat) (v : Int) : Nat :=
  (v % modulus).toNat

def lowByte (v : Int) : UInt8 :=
  UInt8.ofNat (residue 0x100 v)

/-- The low sixteen bits as two bytes, the low one first. -/
def littleEndian (v : Int) : List UInt8 :=
  [lowByte v, lowByte (v / 0x100)]

theorem coe_residue {modulus : Nat} (h : 0 < modulus) (v : Int) :
    (residue modulus v : Int) = v % modulus :=
  Int.toNat_of_nonneg (Int.emod_nonneg v (by omega))

theorem lowByte_eq (v : Int) : lowByte v = UInt8.ofNat (v % 0x100).toNat := rfl

theorem toNat_lowByte (v : Int) : ((lowByte v).toNat : Int) = v % 0x100 := by
  have hlt : residue 0x100 v < 0x100 := by
    unfold residue
    omega
  rw [lowByte, UInt8.toNat_ofNat_of_lt' hlt]
  exact coe_residue (by decide) v

/-! ## Operands -/

def Operand.resolve (labels : LabelTable) : Operand → Except Fault Int
  | implied => .ok 0
  | value v => .ok v.toInt
  | label name =>
    match labels.address? name with
    | some address => .ok address.toNat
    | none => .error (.unknownLabel name)

/-- How far a target lies behind an instruction of `size` bytes, as a signed 64-bit number. -/
def distance (address size : Nat) (target : Int) : Int :=
  (target - (address + size)).bmod 0x10000000000000000

/-- The `distance` of a branch, which has to fit into a signed byte. The fault tells it as a signed
32-bit number. -/
def displacement (address size : Nat) (target : Int) : Except Fault Int :=
  let d := distance address size target
  if -128 ≤ d ∧ d ≤ 127 then .ok d else .error (.branchOutOfRange (d.bmod 0x100000000))

/-! ## Statements -/

def Mode.operandBytes (mode : Mode) (address : Nat) (v : Int) : Except Fault (List UInt8) :=
  if mode = .relative then
    (displacement address mode.instructionSize v).map fun d => [lowByte d]
  else .ok ((littleEndian v).take mode.operandSize)

def Instruction.encode (labels : LabelTable) (address : Nat) (i : Instruction) :
    Except Fault (List UInt8) := do
  let code ← i.opcode
  let v ← i.operand.resolve labels
  let operand ← i.mode.operandBytes address v
  .ok (code :: operand)

def Statement.encode (labels : LabelTable) (address : Nat) : Statement → Except Fault (List UInt8)
  | instruction i => i.encode labels address
  | origin _ => .ok []
  | bytes values => .ok (values.map fun v => lowByte v.toInt)
  | words entries =>
    (entries.mapM (Operand.resolve labels)).map fun vs => vs.flatMap littleEndian

/-! ## Sizes -/

theorem Mode.length_operandBytes {mode : Mode} {address : Nat} {v : Int} {bs : List UInt8}
    (h : mode.operandBytes address v = .ok bs) : bs.length = mode.operandSize := by
  unfold Mode.operandBytes at h
  split at h
  · rename_i hmode
    subst hmode
    rcases hd : displacement address Mode.relative.instructionSize v with _ | d
    · rw [hd] at h
      cases h
    · rw [hd] at h
      cases h
      rfl
  · cases h
    cases mode <;> rfl

theorem Instruction.length_encode {labels : LabelTable} {address : Nat} {i : Instruction}
    {bs : List UInt8} (h : i.encode labels address = .ok bs) : bs.length = i.size := by
  unfold Instruction.encode at h
  rcases hc : i.opcode with _ | code
  · simp [hc, bind, Except.bind] at h
  rcases hv : i.operand.resolve labels with _ | v
  · simp [hc, hv, bind, Except.bind] at h
  rcases ho : i.mode.operandBytes address v with _ | operand
  · simp [hc, hv, ho, bind, Except.bind] at h
  · simp only [hc, hv, ho, bind, Except.bind, Except.ok.injEq] at h
    subst h
    simp only [List.length_cons, Instruction.size, Mode.instructionSize,
      Mode.length_operandBytes ho]
    omega

end Asm6502
