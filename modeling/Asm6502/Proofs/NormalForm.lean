import Asm6502.Proofs.Capitals
import Asm6502.Proofs.Formatting

/-!
What is read from a line is a normal form. Its parts have no comment, no stray blanks and no second
label in them, so written behind one another they are read as the same line again.
-/

namespace Asm6502

/-! ## Trimmed texts -/

namespace Text

/-- Without blanks at its ends. -/
structure Trimmed (t : Text) : Prop where
  head : ∀ c ∈ t.head?, isBlank c = false
  last : ∀ c ∈ t.getLast?, isBlank c = false

theorem trimmed_trim (t : Text) : Trimmed (trim t) :=
  ⟨fun _ => isBlank_head_trim, fun _ => isBlank_getLast_trim⟩

theorem Trimmed.trim_eq {t : Text} (h : Trimmed t) : trim t = t :=
  trim_eq_self h.head h.last

end Text

namespace SourceLine

/-! ## The parts of a line -/

theorem mem_of_mem_statementPart {code : Text} {c : Char} (h : c ∈ statementPart code) :
    c ∈ code := by
  unfold statementPart at h
  split at h
  · rename_i rest hrest
    obtain ⟨d, -, hcode⟩ := Text.after?_eq_some hrest
    rw [hcode]
    exact List.mem_append_right _ (List.mem_cons_of_mem d (Text.mem_of_mem_trim h))
  · exact h

theorem trimmed_statementPart (text : Text) : Text.Trimmed (statementPart (code text)) := by
  unfold statementPart
  split
  · exact Text.trimmed_trim _
  · exact Text.trimmed_trim _

theorem operandPart_isSuffix (statement : Text) : operandPart statement <:+ statement := by
  unfold operandPart
  split
  · rename_i rest hrest
    obtain ⟨c, -, hstatement⟩ := Text.after?_eq_some hrest
    have hbehind : c :: rest <:+ statement := ⟨_, hstatement.symm⟩
    exact ((List.dropWhile_suffix Text.isBlank).trans (List.suffix_cons c rest)).trans hbehind
  · exact List.nil_suffix

theorem trimmed_operandPart {statement : Text} (h : Text.Trimmed statement) :
    Text.Trimmed (operandPart statement) := by
  constructor
  · intro c hc
    unfold operandPart at hc
    split at hc
    · exact Text.isBlank_head_trimStart hc
    · cases hc
  · intro c hc
    apply h.last
    obtain ⟨front, hfront⟩ := operandPart_isSuffix statement
    rw [← hfront, List.getLast?_append, Option.mem_def.mp hc]
    rfl

/-- A statement without an operation is empty, as it would begin with a blank otherwise. -/
theorem eq_nil_of_operationPart_eq_none {statement : Text} (h : Text.Trimmed statement)
    (hnone : operationPart statement = none) : statement = [] := by
  obtain ⟨rest, hstatement, hrest⟩ := Text.exists_behind Text.isBlank statement
  have hbefore : Text.before Text.isBlank statement = [] := by
    by_contra hne
    rw [operationPart, Text.nonempty?, if_neg hne] at hnone
    cases hnone
  rw [hbefore, List.nil_append] at hstatement
  cases rest with
  | nil => exact hstatement
  | cons c rest =>
    have hblank := hrest c rfl
    rw [h.head c (by rw [hstatement]; rfl)] at hblank
    cases hblank

/-! ## Normal lines -/

/-- A word as it stands for an operation: whole, and in upper case. -/
structure IsOperation (word : Text) : Prop where
  nonempty : word ≠ []
  solid : ∀ c ∈ word, Text.isBlank c = false ∧ c ≠ ';'
  capital : Text.upper word = word

structure IsLabel (name : Text) : Prop where
  nonempty : name ≠ []
  colon : ':' ∉ name
  semicolon : ';' ∉ name
  trimmed : Text.Trimmed name

structure Normal (l : SourceLine) : Prop where
  label : ∀ name ∈ l.label, IsLabel name
  operation : ∀ word ∈ l.operation, IsOperation word
  semicolon : ';' ∉ l.operand
  trimmed : Text.Trimmed l.operand
  bare : l.operation = none → l.operand = []

/-- The parts of a line behind one another, with a colon even where there is no label. -/
def text (l : SourceLine) : Text :=
  l.label.getD [] ++ ':' :: ' ' :: (l.operation.getD [] ++ ' ' :: l.operand)

theorem isLabel_of_labelPart {text name : Text} (h : labelPart (code text) = some name) :
    IsLabel name := by
  unfold labelPart at h
  split at h
  · rename_i rest hrest
    obtain ⟨htrim, hne⟩ := Text.nonempty?_eq_some.mp h
    rw [← htrim]
    have hmem : ∀ {c : Char}, c ∈ Text.trim (Text.before (· = ':') (code text)) →
        c ∈ Text.before (· = ':') (code text) := Text.mem_of_mem_trim
    refine ⟨htrim ▸ hne, ?_, ?_, Text.trimmed_trim _⟩
    · exact fun hcolon => absurd (Text.eq_false_of_mem_before (hmem hcolon)) (by decide)
    · intro hsemicolon
      exact semicolon_not_mem_code text ((List.takeWhile_prefix _).subset (hmem hsemicolon))
  · cases h

theorem isOperation_of_operationPart {statement word : Text} (hsemicolon : ';' ∉ statement)
    (h : operationPart statement = some word) : IsOperation word := by
  obtain ⟨first, hfirst, rfl⟩ := Option.map_eq_some_iff.mp h
  obtain ⟨hbefore, hne⟩ := Text.nonempty?_eq_some.mp hfirst
  refine ⟨Text.upper_ne_nil hne, ?_, Text.upper_upper first⟩
  intro c hc
  obtain hcapital | hmem := Text.mem_upper hc
  · exact ⟨hcapital.isBlank_eq, hcapital.ne_semicolon⟩
  · rw [← hbefore] at hmem
    refine ⟨Text.eq_false_of_mem_before hmem, ?_⟩
    rintro rfl
    exact hsemicolon ((List.takeWhile_prefix _).subset hmem)

theorem normal_ofText (number : Nat) (text : Text) : (ofText number text).Normal := by
  have hsemicolon : ';' ∉ statementPart (code text) := fun hmem =>
    semicolon_not_mem_code text (mem_of_mem_statementPart hmem)
  have htrimmed := trimmed_statementPart text
  refine ⟨fun _ => isLabel_of_labelPart, fun _ => isOperation_of_operationPart hsemicolon, ?_,
    trimmed_operandPart htrimmed, ?_⟩
  · exact fun hmem => hsemicolon ((operandPart_isSuffix _).subset hmem)
  · intro hnone
    change operandPart (statementPart (code text)) = []
    rw [eq_nil_of_operationPart_eq_none htrimmed hnone]
    rfl

/-! ## Reading a normal line again -/

theorem operandPart_of_blank {operand : Text} (h : Text.Trimmed operand) :
    operandPart (Text.trimEnd (' ' :: operand)) = operand := by
  cases operand with
  | nil => decide
  | cons c rest =>
    have hend : Text.trimEnd (' ' :: c :: rest) = ' ' :: c :: rest := by
      apply Text.trimEnd_eq_self
      rw [List.getLast?_cons_cons]
      exact h.last
    have hafter : Text.after? Text.isBlank ([] ++ ' ' :: c :: rest) = some (c :: rest) :=
      Text.after?_append (by simp) (by decide)
    rw [List.nil_append] at hafter
    rw [hend, operandPart, hafter]
    exact Text.trimStart_eq_self h.head

section Normal

variable {l : SourceLine} (h : l.Normal)

include h

theorem Normal.label_not_mem : ':' ∉ l.label.getD [] ∧ ';' ∉ l.label.getD [] := by
  cases hlabel : l.label with
  | none => simp
  | some name =>
    have hname := h.label name hlabel
    exact ⟨hname.colon, hname.semicolon⟩

theorem Normal.nonempty?_label : Text.nonempty? (Text.trim (l.label.getD [])) = l.label := by
  cases hlabel : l.label with
  | none => rfl
  | some name =>
    have hname := h.label name hlabel
    exact Text.nonempty?_eq_some.mpr ⟨hname.trimmed.trim_eq, hname.nonempty⟩

theorem Normal.ofText_text : ofText l.number l.text = l := by
  obtain ⟨hcolon, hsemicolon⟩ := h.label_not_mem
  cases hoperation : l.operation with
  | none =>
    have hoperand := h.bare hoperation
    obtain ⟨hlabel, hstatement⟩ := parts_of_colon hcolon hsemicolon [' ', ' ']
    have htext : l.text = l.label.getD [] ++ [':', ' ', ' '] := by
      rw [text, hoperation, hoperand]
      rfl
    rw [htext, ofText, hlabel, hstatement, h.nonempty?_label]
    cases l
    cases hoperation
    cases hoperand
    rfl
  | some word =>
    have hword := h.operation word hoperation
    have hwritten : HasOperation (l.label.getD [] ++ [':', ' ']) word (' ' :: l.operand) :=
      ⟨.inr ⟨_, [' '], rfl, hcolon, hsemicolon, by decide⟩, hword.nonempty, hword.solid,
        fun c hc => .inl (by cases hc; decide)⟩
    have htext : l.text = l.label.getD [] ++ [':', ' '] ++ (word ++ ' ' :: l.operand) := by
      rw [text, hoperation, List.append_assoc]
      rfl
    have hoperand : Text.before (· = ';') (' ' :: l.operand) = ' ' :: l.operand := by
      apply Text.before_eq_self
      apply Text.ne_of_not_mem
      simpa using h.semicolon
    rw [htext, hwritten.ofText_eq, (parts_of_colon hcolon hsemicolon [' ']).1, h.nonempty?_label,
      hword.capital, hoperand, operandPart_of_blank h.trimmed, ← hoperation]

end Normal

end SourceLine

/-- Every line is read as a `Normal` one, and reads the same from its `text`. There are no other
normal lines than those. -/
theorem line_normal_form (number : Nat) (text : Text) (l : SourceLine) :
    (SourceLine.ofText number text).Normal ∧
      SourceLine.ofText number (SourceLine.ofText number text).text =
        SourceLine.ofText number text ∧
      (l.Normal ↔ SourceLine.ofText l.number l.text = l) := by
  have hnormal := SourceLine.normal_ofText number text
  refine ⟨hnormal, hnormal.ofText_text, fun h => h.ofText_text, ?_⟩
  intro hread
  have hl := SourceLine.normal_ofText l.number l.text
  rwa [hread] at hl

end Asm6502
