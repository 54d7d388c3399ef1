import Asm6502.Proofs.MachineCode
import Asm6502.Proofs.Reading
import Asm6502.Proofs.Shapes

/-!
References to labels. A name that is made like an identifier is taken for a label wherever an
operand may be one, even if it is the name of an index register; only `A` means the accumulator.
It stands for its whole address in a word, and for the way to it behind a branch.
-/

namespace Asm6502

/-! ## Names -/

section Names

variable {name o : Text} (hlabel : Literal.looksNumeric name = false)

include hlabel

theorem Instruction.read_label (hshape : Shape.ofText o = .bare name) (m : Mnemonic) :
    read m o = .ok ⟨m, if m.isBranch then .relative else .absolute, .label name⟩ := by
  rw [read, hshape, ofShape, bare, if_neg (Bool.eq_false_iff.mp hlabel)]

theorem Instruction.indexed_label (htrim : Text.trim name = name) (m : Mnemonic)
    (short long : Mode) : indexed m short long name = .ok ⟨m, long, .label name⟩ := by
  rw [indexed, htrim, if_neg (Bool.eq_false_iff.mp hlabel)]

theorem Instruction.read_labelX (hname : Shape.Indexable name) (htrim : Text.trim name = name)
    (ho : Shape.IndexedBy 'X' name o) (m : Mnemonic) :
    read m o = .ok ⟨m, .absoluteX, .label name⟩ := by
  rw [read, Shape.ofText_indexedX hname ho]
  exact indexed_label hlabel htrim m .zeroPageX .absoluteX

theorem Instruction.read_labelY (hname : Shape.Indexable name) (htrim : Text.trim name = name)
    (hpointer : ¬(name.head? = some '(' ∧ name.getLast? = some ')'))
    (ho : Shape.IndexedBy 'Y' name o) (m : Mnemonic) :
    read m o = .ok ⟨m, .absoluteY, .label name⟩ := by
  rw [read, Shape.ofText_indexedY hname ho hpointer]
  exact indexed_label hlabel htrim m .zeroPageY .absoluteY

theorem Operand.readWord_label (htrim : Text.trim o = name) (hne : name ≠ []) :
    readWord o = .ok (.label name) := by
  simp only [readWord, htrim]
  rw [if_neg (by simp [hne, hlabel])]

end Names

/-! ## Identifiers -/

/-- Letters, digits and underscores, with no digit in front. -/
structure IsIdentifier (name : Text) : Prop where
  ne_nil : name ≠ []
  chars : ∀ c ∈ name, c.isAlphanum = true ∨ c = '_'
  front : ∀ c ∈ name.head?, c.isDigit = false

theorem toNat_of_isAlphanum {c : Char} (h : c.isAlphanum = true) :
    0x30 ≤ c.toNat ∧ c.toNat ≤ 0x7A := by
  have hclasses : (c.isUpper || c.isLower || c.isDigit) = true := h
  rw [Bool.or_eq_true, Bool.or_eq_true] at hclasses
  obtain (hupper | hlower) | hdigit := hclasses
  · have hrange : 0x41 ≤ c.toNat ∧ c.toNat ≤ 0x5A := of_decide_eq_true hupper
    omega
  · have hrange : (decide (0x61 ≤ c.toNat) && decide (c.toNat ≤ 0x7A)) = true := hlower
    rw [Bool.and_eq_true, decide_eq_true_eq, decide_eq_true_eq] at hrange
    omega
  · have hrange : (decide (0x30 ≤ c.toNat) && decide (c.toNat ≤ 0x39)) = true := hdigit
    rw [Bool.and_eq_true, decide_eq_true_eq, decide_eq_true_eq] at hrange
    omega

namespace IsIdentifier

variable {name : Text} (h : IsIdentifier name)

include h

/-- All blanks and all marks of an operand lie below or above. -/
theorem bounds {c : Char} (hc : c ∈ name) : 0x30 ≤ c.toNat ∧ c.toNat ≤ 0x7A := by
  obtain hletter | rfl := h.chars c hc
  · exact toNat_of_isAlphanum hletter
  · decide

theorem solid {c : Char} (hc : c ∈ name) : Text.isBlank c = false := by
  rw [Bool.eq_false_iff]
  intro hblank
  have hoff := Text.toNat_of_isBlank hblank
  have hbounds := h.bounds hc
  omega

theorem not_mem {mark : Char} (hmark : mark.toNat < 0x30) : mark ∉ name := by
  intro hmem
  have hbounds := h.bounds hmem
  omega

theorem trim_padded {before behind : Text} (hbefore : ∀ c ∈ before, Text.isBlank c = true)
    (hbehind : ∀ c ∈ behind, Text.isBlank c = true) :
    Text.trim (before ++ (name ++ behind)) = name :=
  Text.trim_padded_solid hbefore hbehind h.ne_nil fun _ => h.solid

theorem trim_eq : Text.trim name = name :=
  Text.trim_eq_self (fun _ hc => h.solid (List.mem_of_head? hc))
    fun _ hc => h.solid (List.mem_of_getLast? hc)

/-- The first character decides what an operand is, and an identifier starts with no mark. -/
theorem exists_cons : ∃ c rest, name = c :: rest ∧ Text.isBlank c = false ∧ c ≠ '#' ∧ c ≠ '(' ∧
    c ≠ '$' ∧ c ≠ '%' ∧ c.isDigit = false := by
  obtain ⟨c, rest, rfl⟩ := List.exists_cons_of_ne_nil h.ne_nil
  have hmark : ∀ mark : Char, mark.toNat < 0x30 → c ≠ mark := by
    rintro mark hmark rfl
    exact h.not_mem hmark List.mem_cons_self
  exact ⟨c, rest, rfl, h.solid List.mem_cons_self, hmark '#' (by decide), hmark '(' (by decide),
    hmark '$' (by decide), hmark '%' (by decide), h.front c rfl⟩

theorem looksNumeric_eq : Literal.looksNumeric name = false := by
  obtain ⟨c, rest, rfl, -, -, -, hhex, hbinary, hdigit⟩ := h.exists_cons
  simp [Literal.looksNumeric, hhex, hbinary, hdigit]

theorem indexable : Shape.Indexable name := by
  obtain ⟨c, rest, rfl, hsolid, hhash, -⟩ := h.exists_cons
  exact ⟨c, rfl, hsolid, hhash⟩

theorem head?_ne : name.head? ≠ some '(' := by
  obtain ⟨c, rest, rfl, -, -, hopen, -⟩ := h.exists_cons
  simpa using hopen

theorem ofText_eq (haccumulator : name ≠ ['A'] ∧ name ≠ ['a']) :
    Shape.ofText name = .bare name := by
  obtain ⟨c, rest, hname, -, hhash, hopen, -⟩ := h.exists_cons
  rw [Shape.ofText_of_trimmed h.trim_eq]
  apply Shape.ofTrimmed_bare h.ne_nil haccumulator
  · simp [hname, Text.dropFirst?, hhash]
  · simp [hname, Text.dropFirst?, hopen]
  · exact h.not_mem (by decide)

end IsIdentifier

/-! ## Bytes of a reference -/

theorem lowBytes_address (a : UInt16) :
    lowBytes 2 a.toNat = [UInt8.ofNat (a.toNat % 0x100), UInt8.ofNat (a.toNat / 0x100)] := by
  have hlt := a.toNat_lt
  have hlow : ((a.toNat : Int) % 0x100).toNat = a.toNat % 0x100 := by omega
  have hhigh : ((a.toNat : Int) / 0x100 % 0x100).toNat = a.toNat / 0x100 := by omega
  simp only [lowBytes, hlow, hhigh]

section Bytes

variable {labels : LabelTable} {name : Text} {a : UInt16}
  (haddress : labels.address? name = some a)

include haddress

theorem Operand.number?_label : (Operand.label name).number? labels = some (a.toNat : Int) := by
  rw [number?, haddress]
  rfl

theorem Instruction.encode_label {m : Mnemonic} {mode : Mode} {code : UInt8}
    (hsize : mode.operandSize = 2) (hcode : m.opcode? mode = some code) (p : Nat) :
    encode labels p ⟨m, mode, .label name⟩ =
      .ok [code, UInt8.ofNat (a.toNat % 0x100), UInt8.ofNat (a.toNat / 0x100)] := by
  have hbranch : m.isBranch = false := by
    rw [Bool.eq_false_iff]
    intro hbranch
    rw [(Mnemonic.relative_iff hcode).mpr hbranch] at hsize
    cases hsize
  rw [encode_of_not_branch hcode hbranch (Operand.number?_label haddress), hsize,
    lowBytes_address]

theorem Instruction.encode_branch_label {m : Mnemonic} {code : UInt8} {p : Nat}
    (hcode : m.opcode? .relative = some code)
    (hnear : -128 ≤ (a.toNat : Int) - (p + 2) ∧ (a.toNat : Int) - (p + 2) ≤ 127) :
    encode labels p ⟨m, .relative, .label name⟩ =
      .ok [code, UInt8.ofNat (((a.toNat : Int) - (p + 2)) % 0x100).toNat] := by
  have hbranch : m.isBranch = true := (Mnemonic.relative_iff hcode).mp rfl
  have hreach : ¬Far ((a.toNat : Int) - (p + 2)) := by
    unfold Far
    omega
  exact encode_of_near hcode hbranch (Operand.number?_label haddress) hreach

theorem Statement.encode_words_label (before after : List Operand) (p : Nat) :
    (words (before ++ .label name :: after)).encode labels p = do
      let xs ← (words before).encode labels p
      let ys ← (words after).encode labels p
      return xs ++ UInt8.ofNat (a.toNat % 0x100) :: UInt8.ofNat (a.toNat / 0x100) :: ys := by
  have hone : (words [.label name]).encode labels p =
      .ok [UInt8.ofNat (a.toNat % 0x100), UInt8.ofNat (a.toNat / 0x100)] := by
    have hresolve := Operand.resolve_eq_ok.mpr (Operand.number?_label haddress)
    rw [← lowBytes_address, encode, List.mapM_cons, hresolve]
    rfl
  rw [encode_words_append, ← List.singleton_append, encode_words_append, hone]
  rcases (words after).encode labels p with f | ys
  · rfl
  · rfl

end Bytes

/-- A name that `IsIdentifier`, other than that of the accumulator, is read as a label alone, before
an index and in a list of words. An instruction then has two bytes for its address, the low one
first, a word likewise, wherever it stands in its list, and a branch within reach has the distance
from behind it. -/
theorem identifier_references {name : Text} (hname : IsIdentifier name)
    (haccumulator : name ≠ ['A'] ∧ name ≠ ['a']) {labels : LabelTable} {a : UInt16}
    (haddress : labels.address? name = some a) (p : Nat) :
    (∀ m, m.isBranch = false →
      Instruction.read m name = .ok ⟨m, .absolute, .label name⟩) ∧
    (∀ m, m.isBranch = true →
      Instruction.read m name = .ok ⟨m, .relative, .label name⟩) ∧
    (∀ m o, Shape.IndexedBy 'X' name o →
      Instruction.read m o = .ok ⟨m, .absoluteX, .label name⟩) ∧
    (∀ m o, Shape.IndexedBy 'Y' name o →
      Instruction.read m o = .ok ⟨m, .absoluteY, .label name⟩) ∧
    (∀ before behind, (∀ c ∈ before, Text.isBlank c = true) →
      (∀ c ∈ behind, Text.isBlank c = true) →
      Operand.readWord (before ++ (name ++ behind)) = .ok (.label name)) ∧
    (∀ m mode code, mode ∈ [Mode.absolute, .absoluteX, .absoluteY] →
      m.opcode? mode = some code →
      Instruction.encode labels p ⟨m, mode, .label name⟩ =
        .ok [code, UInt8.ofNat (a.toNat % 0x100), UInt8.ofNat (a.toNat / 0x100)]) ∧
    (∀ m code, m.opcode? .relative = some code →
      -128 ≤ (a.toNat : Int) - (p + 2) ∧ (a.toNat : Int) - (p + 2) ≤ 127 →
      Instruction.encode labels p ⟨m, .relative, .label name⟩ =
        .ok [code, UInt8.ofNat (((a.toNat : Int) - (p + 2)) % 0x100).toNat]) ∧
    ∀ before after, (Statement.words (before ++ .label name :: after)).encode labels p = do
      let xs ← (Statement.words before).encode labels p
      let ys ← (Statement.words after).encode labels p
      return xs ++ UInt8.ofNat (a.toNat % 0x100) :: UInt8.ofNat (a.toNat / 0x100) :: ys := by
  have hlabel := hname.looksNumeric_eq
  have hshape := hname.ofText_eq haccumulator
  refine ⟨?_, ?_, ?_, ?_, ?_, ?_, ?_, ?_⟩
  · intro m hbranch
    rw [Instruction.read_label hlabel hshape, hbranch]
    rfl
  · intro m hbranch
    rw [Instruction.read_label hlabel hshape, hbranch]
    rfl
  · intro m o ho
    exact Instruction.read_labelX hlabel hname.indexable hname.trim_eq ho m
  · intro m o ho
    exact Instruction.read_labelY hlabel hname.indexable hname.trim_eq
      (fun hpointer => hname.head?_ne hpointer.1) ho m
  · intro before behind hbefore hbehind
    exact Operand.readWord_label hlabel (hname.trim_padded hbefore hbehind) hname.ne_nil
  · intro m mode code hmode hcode
    have hsize : mode.operandSize = 2 := by
      simp only [List.mem_cons, List.not_mem_nil, or_false] at hmode
      obtain rfl | rfl | rfl := hmode <;> rfl
    exact Instruction.encode_label haddress hsize hcode p
  · intro m code hcode hnear
    exact Instruction.encode_branch_label haddress hcode hnear
  · intro before after
    exact Statement.encode_words_label haddress before after p

/-- A label with the name of an index register, indexed by that register, and behind the farthest
branch. -/
theorem identifier_references_of_register :
    let name := "x".toList
    let labels : LabelTable := ⟨[⟨name, 0x12FE, 1⟩]⟩
    IsIdentifier name ∧ labels.address? name = some 0x12FE ∧
      Instruction.read .lda "x,\u3000X".toList = .ok ⟨.lda, .absoluteX, .label name⟩ ∧
      Instruction.encode labels 0x127D ⟨.lda, .absoluteX, .label name⟩ =
        .ok [0xBD, 0xFE, 0x12] ∧
      Instruction.read .bne name = .ok ⟨.bne, .relative, .label name⟩ ∧
      Instruction.encode labels 0x127D ⟨.bne, .relative, .label name⟩ = .ok [0xD0, 0x7F] ∧
      Operand.readWord "\tx ".toList = .ok (.label name) ∧
      (Statement.words [.value 7, .label name]).encode labels 0x127D =
        .ok [0x07, 0x00, 0xFE, 0x12] := by
  intro name labels
  have hname : IsIdentifier name := ⟨by decide, by decide, by decide⟩
  have haddress : labels.address? name = some 0x12FE := rfl
  obtain ⟨-, hbranch, hindexed, -, hword, hplace, hdistance, hwords⟩ :=
    identifier_references hname (by decide) haddress 0x127D
  refine ⟨hname, haddress, ?_, ?_, ?_, ?_, ?_, ?_⟩
  · exact hindexed .lda _ ⟨['\u3000'], 'X', by decide, .inl rfl, rfl⟩
  · exact hplace .lda .absoluteX 0xBD (by decide) rfl
  · exact hbranch .bne rfl
  · exact hdistance .bne 0xD0 rfl (by decide)
  · exact hword ['\t'] [' '] (by decide) (by decide)
  · exact hwords [.value 7] []

end Asm6502
