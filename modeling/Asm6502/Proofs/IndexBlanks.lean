import Asm6502.Proofs.LabelReferences
import Asm6502.Proofs.OperandGrammar

/-!
Blanks around the comma of an index. On either side of the comma in `t,X`, `t,Y` and `(t,X)` they do
not count, nor behind the one in `(t),Y`. Before that one they do: the text in front of the comma
does not end with the parenthesis then, so it is no pointer and becomes the name of a label.
-/

namespace Asm6502

/-! ## Literals with blanks behind them -/

namespace Literal

theorem isBlank_of_looksNumeric {c : Char} {rest : Text} (h : looksNumeric (c :: rest) = true) :
    Text.isBlank c = false := by
  have hfirst : (decide (c = '$') || decide (c = '%') || c.isDigit) = true := h
  rw [Bool.or_eq_true, Bool.or_eq_true, decide_eq_true_eq, decide_eq_true_eq] at hfirst
  obtain (rfl | rfl) | hdigit := hfirst
  · decide
  · decide
  · rw [Bool.eq_false_iff]
    intro hblank
    have hoff := Text.toNat_of_isBlank hblank
    have halphanum : (c.isAlpha || c.isDigit) = true := by rw [hdigit, Bool.or_true]
    have hbounds := toNat_of_isAlphanum halphanum
    omega

theorem looksNumeric_trim {t : Text} (h : looksNumeric t = true) :
    looksNumeric (Text.trim t) = true := by
  cases t with
  | nil => cases h
  | cons c rest =>
    have hhead : (Text.trim (c :: rest)).head? = some c :=
      Text.head?_trim rfl (isBlank_of_looksNumeric h)
    obtain ⟨rest', htrim⟩ := List.head?_eq_some_iff.mp hhead
    rw [htrim]
    exact h

end Literal

/-! ## Blanks at the comma -/

section Blanks

variable {t : Text} {v : Int32} (ht : Literal.read t = .ok v) {w₁ w₂ : Text}
  (h₁ : ∀ c ∈ w₁, Text.isBlank c = true) (h₂ : ∀ c ∈ w₂, Text.isBlank c = true) (m : Mnemonic)

include ht h₁

theorem Literal.read_append_blank : Literal.read (t ++ w₁) = .ok v := by
  rw [Literal.read_congr (Text.trim_append_blank h₁ t), ht]

include h₂

/-- An index with blanks around its comma chooses the mode by the number alone. -/
theorem Instruction.read_spaced_index (hnumeric : Literal.looksNumeric t = true) {r : Char}
    (hr : r ∈ ['X', 'x', 'Y', 'y']) :
    read m (t ++ w₁ ++ ',' :: (w₂ ++ [r])) =
      .ok ⟨m, if r ∈ ['X', 'x'] then Mode.sized .zeroPageX .absoluteX v
        else Mode.sized .zeroPageY .absoluteY v, .value v⟩ := by
  have hread := Literal.read_append_blank ht h₁
  have hlooks : Literal.looksNumeric (Text.trim (t ++ w₁)) = true := by
    rw [Text.trim_append_blank h₁]
    exact Literal.looksNumeric_trim hnumeric
  by_cases hX : r ∈ ['X', 'x']
  · have hindexed : Shape.IndexedBy 'X' (t ++ w₁) (t ++ w₁ ++ ',' :: (w₂ ++ [r])) :=
      ⟨w₂, r, h₂, List.mem_pair.mp hX, rfl⟩
    rw [if_pos hX]
    exact read_of_numericOperand (.indexedX hread hlooks hindexed)
  · have hY : r = 'Y' ∨ r = 'y' := by
      simp only [List.mem_cons, List.not_mem_nil, or_false] at hr hX
      tauto
    have hindexed : Shape.IndexedBy 'Y' (t ++ w₁) (t ++ w₁ ++ ',' :: (w₂ ++ [r])) :=
      ⟨w₂, r, h₂, hY, rfl⟩
    rw [if_neg hX]
    exact read_of_numericOperand (.indexedY hread hlooks hindexed)

theorem Instruction.read_spaced_indirectX {r : Char} (hr : r ∈ ['X', 'x']) :
    read m ('(' :: (t ++ w₁ ++ ',' :: (w₂ ++ [r, ')']))) = .ok ⟨m, .indirectX, .value v⟩ := by
  have hindexed : Shape.IndexedBy 'X' (t ++ w₁) (t ++ w₁ ++ ',' :: (w₂ ++ [r])) :=
    ⟨w₂, r, h₂, List.mem_pair.mp hr, rfl⟩
  have hspelled := NumericOperand.indirectX (m := m) (Literal.read_append_blank ht h₁) hindexed
  rw [List.append_assoc (t ++ w₁), List.cons_append, List.append_assoc w₂] at hspelled
  exact read_of_numericOperand hspelled

omit h₁

theorem Instruction.read_spaced_indirectY {r : Char} (hr : r ∈ ['Y', 'y']) :
    read m ('(' :: (t ++ ')' :: ',' :: (w₂ ++ [r]))) = .ok ⟨m, .indirectY, .value v⟩ := by
  have hindexed : Shape.IndexedBy 'Y' (t ++ [')']) (t ++ ')' :: ',' :: (w₂ ++ [r])) :=
    ⟨w₂, r, h₂, List.mem_pair.mp hr, by simp⟩
  exact read_of_numericOperand (.indirectY ht hindexed)

end Blanks

/-- A blank before the comma hides the pointer: all in front of the comma is a name. -/
theorem Instruction.read_parted_pointer (t : Text) {w₁ w₂ : Text} (hne : w₁ ≠ [])
    (h₁ : ∀ c ∈ w₁, Text.isBlank c = true) (h₂ : ∀ c ∈ w₂, Text.isBlank c = true) {r : Char}
    (hr : r ∈ ['Y', 'y']) (m : Mnemonic) :
    read m ('(' :: (t ++ ')' :: (w₁ ++ ',' :: (w₂ ++ [r])))) =
      .ok ⟨m, .absoluteY, .label ('(' :: (t ++ [')']))⟩ := by
  have hindexed : Shape.IndexedBy 'Y' ('(' :: (t ++ [')']) ++ w₁)
      ('(' :: (t ++ ')' :: (w₁ ++ ',' :: (w₂ ++ [r])))) :=
    ⟨w₂, r, h₂, List.mem_pair.mp hr, by simp⟩
  have hindexable : Shape.Indexable ('(' :: (t ++ [')']) ++ w₁) := ⟨'(', rfl, by decide, by decide⟩
  have hlast : ('(' :: (t ++ [')']) ++ w₁).getLast? = w₁.getLast? := by
    rw [List.getLast?_append, List.getLast?_eq_some_getLast hne]
    rfl
  have hnoPointer : ¬(('(' :: (t ++ [')']) ++ w₁).head? = some '(' ∧
      ('(' :: (t ++ [')']) ++ w₁).getLast? = some ')') := by
    rintro ⟨-, hclose⟩
    rw [hlast] at hclose
    exact absurd (h₁ ')' (List.mem_of_getLast? hclose)) (by decide)
  have htrim : Text.trim ('(' :: (t ++ [')']) ++ w₁) = '(' :: (t ++ [')']) := by
    rw [Text.trim_append_blank h₁, ← List.cons_append]
    apply Text.trim_append (by simp) (by simp)
    · rintro c ⟨⟩
      decide
    · decide
  rw [read, Shape.ofText_indexedY hindexable hindexed hnoPointer, ofShape, indexed, htrim]
  rfl

/-! ## All indexed operands -/

/-- Blanks around the comma of an index leave what `Instruction.read` gives, in every form but one:
before the comma of `(t),Y` they make a label of the number, whatever the mnemonic. -/
theorem index_blanks {t : Text} {v : Int32} (ht : Literal.read t = .ok v)
    (hnumeric : Literal.looksNumeric t = true) {w₁ w₂ : Text}
    (h₁ : ∀ c ∈ w₁, Text.isBlank c = true) (h₂ : ∀ c ∈ w₂, Text.isBlank c = true) (m : Mnemonic) :
    (∀ r ∈ ['X', 'x', 'Y', 'y'],
      Instruction.read m (t ++ w₁ ++ ',' :: (w₂ ++ [r])) = Instruction.read m (t ++ [',', r])) ∧
    (∀ r ∈ ['X', 'x'],
      Instruction.read m ('(' :: (t ++ w₁ ++ ',' :: (w₂ ++ [r, ')']))) =
        Instruction.read m ('(' :: (t ++ [',', r, ')']))) ∧
    ∀ r ∈ ['Y', 'y'],
      (Instruction.read m ('(' :: (t ++ ')' :: (w₁ ++ ',' :: (w₂ ++ [r])))) =
        Instruction.read m ('(' :: (t ++ [')', ',', r])) ↔ w₁ = []) ∧
      (w₁ ≠ [] → Instruction.read m ('(' :: (t ++ ')' :: (w₁ ++ ',' :: (w₂ ++ [r])))) =
        .ok ⟨m, .absoluteY, .label ('(' :: (t ++ [')']))⟩) := by
  have hnil : ∀ c ∈ ([] : Text), Text.isBlank c = true := by simp
  refine ⟨?_, ?_, ?_⟩
  · intro r hr
    have hplain := Instruction.read_spaced_index ht hnil hnil m hnumeric hr
    rw [List.append_nil, List.nil_append] at hplain
    rw [Instruction.read_spaced_index ht h₁ h₂ m hnumeric hr, hplain]
  · intro r hr
    have hplain := Instruction.read_spaced_indirectX ht hnil hnil m hr
    rw [List.append_nil, List.nil_append] at hplain
    rw [Instruction.read_spaced_indirectX ht h₁ h₂ m hr, hplain]
  · intro r hr
    have hplain := Instruction.read_spaced_indirectY ht hnil m hr
    rw [List.nil_append] at hplain
    refine ⟨⟨?_, ?_⟩, fun hne => Instruction.read_parted_pointer t hne h₁ h₂ hr m⟩
    · intro hsame
      by_contra hne
      rw [Instruction.read_parted_pointer t hne h₁ h₂ hr m, hplain] at hsame
      cases hsame
    · rintro rfl
      rw [List.nil_append, Instruction.read_spaced_indirectY ht h₂ m hr, hplain]

theorem index_blanks_of_wide_blank :
    Literal.read "%101 ".toList = .ok 5 ∧ Literal.looksNumeric "%101 ".toList = true ∧
      Instruction.read .sta "%101 \u3000,\ty".toList = Instruction.read .sta "%101 ,y".toList ∧
      Instruction.read .sta "(%101 \u3000,\tx)".toList = Instruction.read .sta "(%101 ,x)".toList ∧
      Instruction.read .sta "(%101 )\u3000,\ty".toList =
        .ok ⟨.sta, .absoluteY, .label "(%101 )".toList⟩ := by
  have hread : Literal.read "%101 ".toList = .ok 5 := by decide +kernel
  have hnumeric : Literal.looksNumeric "%101 ".toList = true := rfl
  have hwide : ∀ c ∈ ['\u3000'], Text.isBlank c = true := by decide
  have htab : ∀ c ∈ ['\t'], Text.isBlank c = true := by decide
  obtain ⟨hindex, hindirectX, hindirectY⟩ := index_blanks hread hnumeric hwide htab .sta
  exact ⟨hread, hnumeric, hindex 'y' (by simp), hindirectX 'x' (by simp),
    (hindirectY 'y' (by simp)).2 (by simp)⟩

/-- A pointer with a blank before the comma of its index is read as a label. -/
theorem index_blanks_of_parted_pointer :
    Literal.read "$20".toList = .ok 32 ∧ Literal.looksNumeric "$20".toList = true ∧
      Text.isBlank ' ' = true ∧
      Instruction.read .lda "($20),Y".toList = .ok ⟨.lda, .indirectY, .value 32⟩ ∧
      Instruction.read .lda "($20) ,Y".toList = .ok ⟨.lda, .absoluteY, .label "($20)".toList⟩ := by
  have hread : Literal.read "$20".toList = .ok 32 := by decide +kernel
  have hplain : Instruction.read .lda "($20),Y".toList = .ok ⟨.lda, .indirectY, .value 32⟩ := by
    decide +kernel
  exact ⟨hread, rfl, rfl, hplain, rfl⟩

end Asm6502
