import Asm6502.Proofs.LabelReferences
import Asm6502.Proofs.OperandGrammar
import Mathlib.Algebra.Ring.Int.Defs

/-!
The bytes of a literal. An address is written in one byte or in two, and the choice does not change
it as long as the number is not negative: every negative number counts as small and loses its high
byte. In a list of bytes any literal is a number. In a list of words one that starts with a sign is
a name instead, as it does not look like a number.
-/

namespace Asm6502

/-! ## Short and long addresses -/

/-- The number without a sign that bytes stand for, the lowest first. -/
def unsignedValue : List UInt8 → Nat
  | [] => 0
  | b :: bs => b.toNat + 0x100 * unsignedValue bs

theorem unsignedValue_lowBytes (count : Nat) (v : Int) :
    (unsignedValue (lowBytes count v) : Int) = v % 0x100 ^ count := by
  induction count generalizing v with
  | zero => simp [lowBytes, unsignedValue]
  | succ count ih =>
    -- the other bytes tell what is left of the number without its low byte
    have hrest := ih (v / 0x100)
    have hquotient : v / 0x100 / 0x100 ^ count = v / (0x100 * 0x100 ^ count) :=
      Int.ediv_ediv_of_nonneg (by decide)
    have hlow := Int.emod_add_mul_ediv v 0x100
    rw [lowBytes, unsignedValue, Int.natCast_add, Int.natCast_mul, Int.cast_ofNat_Int, hrest,
      ← lowByte_eq, toNat_lowByte, pow_succ', Int.emod_def v (_ * _), ← hquotient, Int.emod_def (v / 0x100),
      Int.mul_sub, ← Int.mul_assoc]
    omega

/-- The modes that name a place in memory by its address alone or with an index. -/
def Mode.addressed : List Mode :=
  [.zeroPage, .zeroPageX, .zeroPageY, .absolute, .absoluteX, .absoluteY]

theorem NumericOperand.operandSize_eq {m : Mnemonic} {o : Text} {mode : Mode} {v : Int32}
    (h : NumericOperand m o mode v) (hmode : mode ∈ Mode.addressed) :
    mode.operandSize = if v.toInt ≤ 0xFF then 1 else 2 := by
  cases h with
  | indexedX | indexedY | place => split <;> rfl
  | immediate | indirectX | indirectY | indirect | target => exact absurd hmode (by decide)

/-- In an `addressed` mode the `unsignedValue` of the operand bytes is the number modulo the address
space if the number is not negative. For a negative one it is exactly if its low sixteen bits fit
into a byte. -/
theorem written_address_eq_iff {m : Mnemonic} (hbranch : m.isBranch = false) {o : Text}
    {mode : Mode} {v : Int32} (hread : Instruction.read m o = .ok ⟨m, mode, .value v⟩)
    (hmode : mode ∈ Mode.addressed) {code : UInt8} (hcode : m.opcode? mode = some code)
    (labels : LabelTable) (p : Nat) :
    ∃ operand, Instruction.encode labels p ⟨m, mode, .value v⟩ = .ok (code :: operand) ∧
      ((unsignedValue operand : Int) = v.toInt % 0x10000 ↔
        0 ≤ v.toInt ∨ v.toInt % 0x10000 < 0x100) := by
  have hspelled : NumericOperand m (Text.trim o) mode v :=
    (Instruction.numericOperand_of_read hread rfl).2
  have hsize := hspelled.operandSize_eq hmode
  refine ⟨lowBytes mode.operandSize v.toInt,
    Instruction.encode_of_not_branch hcode hbranch rfl, ?_⟩
  have hlong : (0x100 : Int) ^ 2 = 0x10000 := rfl
  rw [unsignedValue_lowBytes, hsize]
  by_cases hshort : v.toInt ≤ 0xFF
  · rw [if_pos hshort, pow_one]
    omega
  · rw [if_neg hshort, hlong]
    omega

/-- A negative number whose low sixteen bits are small. -/
theorem written_address_eq_iff_of_wrapped :
    Instruction.read .lda "$-FFFF,X".toList = .ok ⟨.lda, .zeroPageX, .value (-65535)⟩ ∧
      ∃ operand, Instruction.encode .empty 0x1000 ⟨.lda, .zeroPageX, .value (-65535)⟩ =
        .ok (0xB5 :: operand) ∧ (unsignedValue operand : Int) = 1 := by
  have hread : Instruction.read .lda "$-FFFF,X".toList =
      .ok ⟨.lda, .zeroPageX, .value (-65535)⟩ := by decide +kernel
  obtain ⟨operand, hencode, hsame⟩ := written_address_eq_iff rfl hread (by decide) rfl .empty 0x1000
  exact ⟨hread, operand, hencode, hsame.mpr (.inr (by decide))⟩

/-- A number that fits into no byte is written in one: the place `0xFD00` becomes `0x0000`. -/
theorem written_address_of_negative :
    Instruction.read .lda "$-300,X".toList = .ok ⟨.lda, .zeroPageX, .value (-768)⟩ ∧
      Instruction.encode .empty 0x1000 ⟨.lda, .zeroPageX, .value (-768)⟩ = .ok [0xB5, 0x00] ∧
      (unsignedValue [0x00] : Int) ≠ (-768 : Int32).toInt % 0x10000 := by
  have hread : Instruction.read .lda "$-300,X".toList = .ok ⟨.lda, .zeroPageX, .value (-768)⟩ := by
    decide +kernel
  exact ⟨hread, rfl, by decide⟩

/-! ## Literals in lists -/

theorem Text.isDigit_of_digit? {c : Char} {d : Nat} (h : Text.digit? 10 c = some d) :
    c.isDigit = true := by
  obtain ⟨hvalue, hlt⟩ := Option.filter_eq_some_iff.mp h
  rw [decide_eq_true_eq] at hlt
  unfold Text.digitValue? at hvalue
  split at hvalue
  · rename_i hdigit
    rw [Char.isDigit, Bool.and_eq_true, decide_eq_true_eq, decide_eq_true_eq]
    exact hdigit
  · -- a letter counts at least ten
    split at hvalue
    · cases hvalue
      omega
    · split at hvalue
      · cases hvalue
        omega
      · cases hvalue

namespace Literal

def startsSigned : Text → Bool
  | [] => false
  | c :: _ => c = '+' || c = '-'

/-- A literal looks like a number unless it starts with a sign. -/
theorem looksNumeric_of_read {t : Text} {v : Int32} (h : read t = .ok v) :
    looksNumeric (Text.trim t) = !startsSigned (Text.trim t) := by
  obtain ⟨w, hw⟩ := exists_value?_of_read h
  obtain ⟨p, hp, ds, htrim, hds⟩ := value?_eq_some hw
  rw [htrim]
  simp only [announcements, List.mem_cons, List.not_mem_nil, or_false] at hp
  obtain rfl | rfl | rfl | rfl | rfl := hp
  · rfl
  · rfl
  · rfl
  · rfl
  -- without an announcement there is a sign or a decimal digit in front
  obtain ⟨digits, n, hn, rfl | rfl | rfl⟩ := Text.signed?_eq_some hds
  · rfl
  · rfl
  obtain ⟨hne, hdigits⟩ := Text.natural?_eq_some hn
  obtain ⟨c, rest, rfl⟩ := List.exists_cons_of_ne_nil hne
  obtain ⟨d, hd⟩ := hdigits c List.mem_cons_self
  have hdigit := Text.isDigit_of_digit? hd
  have hplus : c ≠ '+' := by
    rintro rfl
    cases hdigit
  have hminus : c ≠ '-' := by
    rintro rfl
    cases hdigit
  simp [looksNumeric, startsSigned, hdigit, hplus, hminus]

end Literal

section Entries

variable {t : Text} {v : Int32} (h : Literal.read t = .ok v)

include h

theorem Operand.readWord_of_read :
    readWord t = .ok (if Literal.startsSigned (Text.trim t) then .label (Text.trim t)
      else .value v) := by
  have hnumeric := Literal.looksNumeric_of_read h
  cases hsigned : Literal.startsSigned (Text.trim t) with
  | true =>
    rw [hsigned] at hnumeric
    exact readWord_label hnumeric rfl (Literal.trim_ne_nil_of_read h)
  | false =>
    rw [hsigned] at hnumeric
    exact readWord_literal hnumeric h

theorem Literal.splitOn_of_read : t.splitOn ',' = [t] :=
  List.splitOn_eq_singleton (Literal.comma_not_mem_of_read h)

end Entries

/-- A literal alone is read as its number in a list of bytes. In a list of words `readWord` reads it
so, and it needs no label, exactly if no sign stands in front of it; with a sign it is read as a
name. -/
theorem literal_in_lists {t : Text} {v : Int32} (h : Literal.read t = .ok v) (labels : LabelTable)
    (p : Nat) :
    Statement.read ".BYTE".toList t = .ok (.bytes [v]) ∧
      (Statement.bytes [v]).encode labels p = .ok [UInt8.ofNat (v.toInt % 0x100).toNat] ∧
      Operand.readWord t = .ok (if Literal.startsSigned (Text.trim t) then .label (Text.trim t)
        else .value v) ∧
      Statement.read ".WORD".toList t =
        .ok (.words [if Literal.startsSigned (Text.trim t) then .label (Text.trim t)
          else .value v]) ∧
      (Statement.words [.value v]).encode labels p =
        .ok [UInt8.ofNat (v.toInt % 0x100).toNat,
          UInt8.ofNat (v.toInt / 0x100 % 0x100).toNat] := by
  have hword := Operand.readWord_of_read h
  refine ⟨?_, rfl, hword, ?_, rfl⟩
  · change Statement.readBytes t = _
    rw [Statement.readBytes, Literal.splitOn_of_read h, List.mapM_cons, h]
    rfl
  · change Statement.readWords t = _
    rw [Statement.readWords, Literal.splitOn_of_read h, List.mapM_cons, hword]
    rfl

theorem literal_in_lists_of_negative_hex :
    Literal.read " $-1 ".toList = .ok (-1) ∧
      Statement.read ".BYTE".toList " $-1 ".toList = .ok (.bytes [-1]) ∧
      Statement.read ".WORD".toList " $-1 ".toList = .ok (.words [.value (-1)]) ∧
      (Statement.words [.value (-1)]).encode .empty 0x1000 = .ok [0xFF, 0xFF] := by
  have hread : Literal.read " $-1 ".toList = .ok (-1) := by decide +kernel
  obtain ⟨hbytes, -, -, hwords, hencode⟩ := literal_in_lists hread .empty 0x1000
  exact ⟨hread, hbytes, hwords, hencode⟩

/-- A negative number is a byte, but as a word it is the name of a label. -/
theorem literal_in_lists_of_sign :
    Literal.read "-1".toList = .ok (-1) ∧
      Statement.read ".BYTE".toList "-1".toList = .ok (.bytes [-1]) ∧
      Statement.read ".WORD".toList "-1".toList = .ok (.words [.label "-1".toList]) ∧
      (Statement.words [.label "-1".toList]).encode .empty 0x1000 =
        .error (.unknownLabel "-1".toList) := by
  have hread : Literal.read "-1".toList = .ok (-1) := by decide +kernel
  have hbytes : Statement.read ".BYTE".toList "-1".toList = .ok (.bytes [-1]) := by
    decide +kernel
  exact ⟨hread, hbytes, rfl, rfl⟩

end Asm6502
