import Asm6502.Proofs.Reading
import Asm6502.Proofs.Shapes
import Mathlib.Data.List.Basic

/-!
The grammar of numeric operands: a literal between the marks of a mode. Every spelling of the
grammar is read as what it says, whichever other shapes its text also has, and nothing else is read
as a number. What is left are labels and malformed literals.
-/

namespace Asm6502

/-! ## Numerals -/

namespace Text

variable {radix : Nat}

theorem exists_digit_of_foldlM {ds : Text} {k n : Nat}
    (h : ds.foldlM (readDigit radix) k = some n) : ∀ c ∈ ds, ∃ d, digit? radix c = some d := by
  induction ds generalizing k with
  | nil => simp
  | cons c ds ih =>
    rw [List.foldlM_cons, Option.bind_eq_bind, Option.bind_eq_some_iff] at h
    obtain ⟨k', hk', hds⟩ := h
    obtain ⟨d, hd, -⟩ := Option.map_eq_some_iff.mp hk'
    intro c' hc'
    obtain rfl | hmem := List.mem_cons.mp hc'
    · exact ⟨d, hd⟩
    · exact ih hds c' hmem

theorem natural?_eq_some {ds : Text} {n : Nat} (h : natural? radix ds = some n) :
    ds ≠ [] ∧ ∀ c ∈ ds, ∃ d, digit? radix c = some d := by
  cases ds with
  | nil => cases h
  | cons c ds => exact ⟨by simp, exists_digit_of_foldlM h⟩

/-- The digits of a number stand behind at most one sign. -/
theorem signed?_eq_some {t : Text} {v : Int} (h : signed? radix t = some v) :
    ∃ ds n, natural? radix ds = some n ∧ (t = '+' :: ds ∨ t = '-' :: ds ∨ t = ds) := by
  have hnatural : ∀ {ds : Text} {f : Int → Int},
      ((natural? radix ds >>= fun n => some (n : Int)).map f) = some v →
        ∃ n, natural? radix ds = some n := by
    intro ds f hmap
    obtain ⟨w, hw, -⟩ := Option.map_eq_some_iff.mp hmap
    obtain ⟨n, hn, -⟩ := Option.bind_eq_some_iff.mp hw
    exact ⟨n, hn⟩
  unfold signed? at h
  split at h
  · rename_i ds
    obtain ⟨n, hn⟩ := hnatural h
    exact ⟨ds, n, hn, .inl rfl⟩
  · rename_i ds
    obtain ⟨n, hn⟩ := hnatural h
    exact ⟨ds, n, hn, .inr (.inl rfl)⟩
  · obtain ⟨n, hn⟩ := hnatural h
    exact ⟨t, n, hn, .inr (.inr rfl)⟩

/-- A number holds nothing but digits and a sign. -/
theorem not_mem_of_signed? {t : Text} {v : Int} (h : signed? radix t = some v) {c : Char}
    (hplus : c ≠ '+') (hminus : c ≠ '-') (hc : digit? radix c = none) : c ∉ t := by
  obtain ⟨ds, n, hn, ht⟩ := signed?_eq_some h
  have hds : c ∉ ds := by
    intro hmem
    obtain ⟨d, hd⟩ := (natural?_eq_some hn).2 c hmem
    rw [hc] at hd
    cases hd
  obtain rfl | rfl | rfl := ht
  · exact List.not_mem_cons_of_ne_of_not_mem hplus hds
  · exact List.not_mem_cons_of_ne_of_not_mem hminus hds
  · exact hds

theorem comma_not_mem_of_signed? {t : Text} {v : Int} (h : signed? radix t = some v) :
    ',' ∉ t := by
  have hnone : digitValue? ',' = none := by decide
  apply not_mem_of_signed? h (by decide) (by decide)
  rw [digit?, hnone]
  rfl

end Text

/-! ## Literals -/

namespace Literal

/-- The announcements of a radix; without one a literal is decimal. -/
def announcements : List (Nat × Text) :=
  [(16, ['$']), (16, ['0', 'x']), (16, ['0', 'X']), (2, ['%']), (10, [])]

theorem value?_eq_some {t : Text} {v : Int} (h : value? t = some v) :
    ∃ p ∈ announcements, ∃ ds, t = p.2 ++ ds ∧ Text.signed? p.1 ds = some v := by
  unfold value? radix at h
  split at h
  · rename_i ds
    exact ⟨(16, ['$']), by decide, ds, rfl, h⟩
  · rename_i ds
    exact ⟨(16, ['0', 'x']), by decide, ds, rfl, h⟩
  · rename_i ds
    exact ⟨(16, ['0', 'X']), by decide, ds, rfl, h⟩
  · rename_i ds
    exact ⟨(2, ['%']), by decide, ds, rfl, h⟩
  · exact ⟨(10, []), by decide, t, rfl, h⟩

theorem exists_value?_of_read {t : Text} {v : Int32} (h : read t = .ok v) :
    ∃ w, value? (Text.trim t) = some w := by
  unfold read at h
  split at h
  · cases h
  · rename_i w hw
    exact ⟨w, hw⟩

section Accepted

variable {t : Text} {v : Int32} (h : read t = .ok v)

include h

theorem trim_ne_nil_of_read : Text.trim t ≠ [] := by
  obtain ⟨w, hw⟩ := exists_value?_of_read h
  intro hnil
  rw [hnil] at hw
  cases hw

theorem ne_nil_of_read : t ≠ [] := by
  rintro rfl
  exact trim_ne_nil_of_read h rfl

theorem comma_not_mem_of_read : ',' ∉ t := by
  obtain ⟨w, hw⟩ := exists_value?_of_read h
  obtain ⟨p, hp, ds, htrim, hds⟩ := value?_eq_some hw
  have hannounced : ∀ p ∈ announcements, ',' ∉ p.2 := by decide
  obtain ⟨a, b, ht, ha, hb⟩ := Text.exists_trim t
  have hsolid : ¬Text.isBlank ',' = true := by decide
  rw [ht, htrim]
  simp only [List.mem_append, not_or]
  exact ⟨fun hmem => hsolid (ha ',' hmem),
    ⟨hannounced p hp, Text.comma_not_mem_of_signed? hds⟩, fun hmem => hsolid (hb ',' hmem)⟩

end Accepted

/-- What looks like a number does not look like any mark. -/
theorem exists_of_looksNumeric {t : Text} (h : looksNumeric t = true) :
    ∃ c rest, t = c :: rest ∧ c ≠ '#' ∧ c ≠ '(' ∧ c ≠ 'A' ∧ c ≠ 'a' := by
  cases t with
  | nil => cases h
  | cons c rest =>
    refine ⟨c, rest, rfl, ?_, ?_, ?_, ?_⟩ <;>
    · rintro rfl
      cases h

end Literal

/-! ## Spellings -/

/-- The spellings of a numeric operand behind a mnemonic, with the mode and the number that each
stands for: `#t`, `(t,X)`, `(t),Y`, `(t)`, `t,X`, `t,Y` and `t`. Without marks around it a literal
`t` also has to look like a number, since it would be a label otherwise. -/
inductive NumericOperand (m : Mnemonic) : Text → Mode → Int32 → Prop
  | immediate {t : Text} {v : Int32} (ht : Literal.read t = .ok v) :
      NumericOperand m ('#' :: t) .immediate v
  | indirectX {t inner : Text} {v : Int32} (ht : Literal.read t = .ok v)
      (h : Shape.IndexedBy 'X' t inner) :
      NumericOperand m ('(' :: (inner ++ [')'])) .indirectX v
  | indirectY {t rest : Text} {v : Int32} (ht : Literal.read t = .ok v)
      (h : Shape.IndexedBy 'Y' (t ++ [')']) rest) :
      NumericOperand m ('(' :: rest) .indirectY v
  | indirect {t : Text} {v : Int32} (ht : Literal.read t = .ok v) :
      NumericOperand m ('(' :: (t ++ [')'])) .indirect v
  | indexedX {t o : Text} {v : Int32} (ht : Literal.read t = .ok v)
      (hnumeric : Literal.looksNumeric (Text.trim t) = true) (h : Shape.IndexedBy 'X' t o) :
      NumericOperand m o (if v.toInt ≤ 0xFF then .zeroPageX else .absoluteX) v
  | indexedY {t o : Text} {v : Int32} (ht : Literal.read t = .ok v)
      (hnumeric : Literal.looksNumeric (Text.trim t) = true) (h : Shape.IndexedBy 'Y' t o) :
      NumericOperand m o (if v.toInt ≤ 0xFF then .zeroPageY else .absoluteY) v
  | target {t : Text} {v : Int32} (ht : Literal.read t = .ok v)
      (hnumeric : Literal.looksNumeric (Text.trim t) = true) (hbranch : m.isBranch = true) :
      NumericOperand m t .relative v
  | place {t : Text} {v : Int32} (ht : Literal.read t = .ok v)
      (hnumeric : Literal.looksNumeric (Text.trim t) = true) (hbranch : m.isBranch = false) :
      NumericOperand m t (if v.toInt ≤ 0xFF then .zeroPage else .absolute) v

/-- A literal that looks like a number can stand before an index, blanks in front apart, and it is
no pointer. -/
theorem Literal.indexable_trimStart {t : Text}
    (h : Literal.looksNumeric (Text.trim t) = true) :
    Shape.Indexable (Text.trimStart t) ∧ (Text.trimStart t).head? ≠ some '(' := by
  obtain ⟨c, rest, htrim, hhash, hopen, -⟩ := exists_of_looksNumeric h
  obtain ⟨b, hstart, -⟩ := Text.exists_trimEnd (Text.trimStart t)
  have hhead : (Text.trimStart t).head? = some c := by
    rw [hstart, ← Text.trim, htrim]
    rfl
  have hsolid : Text.isBlank c = false := by
    apply Text.isBlank_head_trim (t := t)
    rw [htrim]
    rfl
  refine ⟨⟨c, hhead, hsolid, hhash⟩, ?_⟩
  rw [hhead]
  simpa using hopen

theorem Literal.ofText_bare {t : Text} (hnumeric : Literal.looksNumeric (Text.trim t) = true)
    (hcomma : ',' ∉ t) : Shape.ofText t = .bare (Text.trim t) := by
  obtain ⟨c, rest, htrim, hhash, hopen, hA, ha⟩ := exists_of_looksNumeric hnumeric
  have hcomma' : ',' ∉ Text.trim t := fun hmem => hcomma (Text.mem_of_mem_trim hmem)
  rw [htrim] at hcomma'
  rw [Shape.ofText, htrim]
  apply Shape.ofTrimmed_bare (by simp) (by simp [hA, ha]) _ _ hcomma'
  · simp [Text.dropFirst?, hhash]
  · simp [Text.dropFirst?, hopen]

namespace Instruction

variable {m : Mnemonic} {o : Text} {mode : Mode} {v : Int32}

theorem indexed_literal {short long : Mode} {t : Text} (ht : Literal.read t = .ok v)
    (hnumeric : Literal.looksNumeric (Text.trim t) = true) :
    indexed m short long (Text.trimStart t) = .ok ⟨m, Mode.sized short long v, .value v⟩ := by
  rw [indexed, Text.trim_trimStart, if_pos hnumeric,
    Literal.read_congr (Text.trim_trimStart t), ht]
  rfl

theorem bare_literal {t : Text} (ht : Literal.read t = .ok v)
    (hnumeric : Literal.looksNumeric (Text.trim t) = true) :
    bare m (Text.trim t) =
      .ok ⟨m, if m.isBranch then .relative else Mode.sized .zeroPage .absolute v, .value v⟩ := by
  rw [bare, if_pos hnumeric, Literal.read_congr (Text.trim_trim t), ht]
  rfl

/-- No shape that is tried earlier takes a spelling for something else. -/
theorem read_of_numericOperand (h : NumericOperand m o mode v) :
    read m o = .ok ⟨m, mode, .value v⟩ := by
  cases h with
  | @immediate t _ ht =>
    rw [read, Shape.ofText_immediate, ofShape, withLiteral,
      Literal.read_congr (Text.trim_trimEnd t), ht]
    rfl
  | indirectX ht h =>
    rw [read, Shape.ofText_indirectX (Literal.ne_nil_of_read ht) h, ofShape, withLiteral, ht]
    rfl
  | indirectY ht h =>
    rw [read, Shape.ofText_indirectY (Literal.ne_nil_of_read ht) h, ofShape, withLiteral, ht]
    rfl
  | indirect ht =>
    have hindex := Shape.indexed?_of_no_comma (Literal.comma_not_mem_of_read ht) 'X'
    rw [read, Shape.ofText_indirect (Literal.ne_nil_of_read ht) hindex, ofShape, withLiteral, ht]
    rfl
  | indexedX ht hnumeric h =>
    obtain ⟨hindexable, -⟩ := Literal.indexable_trimStart hnumeric
    rw [read, ← Shape.ofText_trimStart, Shape.ofText_indexedX hindexable h.trimStart]
    exact indexed_literal ht hnumeric
  | indexedY ht hnumeric h =>
    obtain ⟨hindexable, hopen⟩ := Literal.indexable_trimStart hnumeric
    rw [read, ← Shape.ofText_trimStart,
      Shape.ofText_indexedY hindexable h.trimStart fun hpointer => hopen hpointer.1]
    exact indexed_literal ht hnumeric
  | target ht hnumeric hbranch =>
    rw [read, Literal.ofText_bare hnumeric (Literal.comma_not_mem_of_read ht), ofShape,
      bare_literal ht hnumeric, if_pos hbranch]
  | place ht hnumeric hbranch =>
    rw [read, Literal.ofText_bare hnumeric (Literal.comma_not_mem_of_read ht), ofShape,
      bare_literal ht hnumeric, if_neg (Bool.eq_false_iff.mp hbranch)]
    rfl

/-- A number can only come from a `NumericOperand`. -/
theorem numericOperand_of_read {i : Instruction} (h : read m o = .ok i)
    (hv : i.operand = .value v) :
    i.mnemonic = m ∧ NumericOperand m (Text.trim o) i.mode v := by
  have hfound := Shape.foundIn_ofTrimmed (Text.trim o)
  unfold read Shape.ofText at h
  cases hshape : Shape.ofTrimmed (Text.trim o) with
  | absent =>
    rw [hshape] at h
    cases h
    cases hv
  | accumulator =>
    rw [hshape] at h
    cases h
    cases hv
  | immediate e =>
    rw [hshape] at h hfound
    obtain ⟨w, hw, rfl⟩ := withLiteral_eq_ok.mp h
    cases hv
    have htext : Text.trim o = '#' :: e := hfound
    rw [htext]
    exact ⟨rfl, .immediate hw⟩
  | indirectX e =>
    rw [hshape] at h hfound
    obtain ⟨w, hw, rfl⟩ := withLiteral_eq_ok.mp h
    cases hv
    obtain ⟨-, inner, hinner, htext⟩ := Shape.indirectX?_eq_some.mp hfound
    rw [htext]
    exact ⟨rfl, .indirectX hw hinner⟩
  | indirectY e =>
    rw [hshape] at h hfound
    obtain ⟨w, hw, rfl⟩ := withLiteral_eq_ok.mp h
    cases hv
    obtain ⟨-, rest, hrest, htext⟩ := Shape.indirectY?_eq_some.mp hfound
    rw [htext]
    exact ⟨rfl, .indirectY hw hrest⟩
  | indirect e =>
    rw [hshape] at h hfound
    obtain ⟨w, hw, rfl⟩ := withLiteral_eq_ok.mp h
    cases hv
    obtain ⟨-, htext⟩ := Shape.indirect?_eq_some.mp hfound
    rw [htext]
    exact ⟨rfl, .indirect hw⟩
  | indexedX e =>
    rw [hshape] at h hfound
    obtain ⟨w, hnumeric, hw, rfl⟩ | ⟨-, rfl⟩ := indexed_eq_ok h
    · cases hv
      exact ⟨rfl, .indexedX hw hnumeric (Shape.indexed?_eq_some.mp hfound.2).2⟩
    · cases hv
  | indexedY e =>
    rw [hshape] at h hfound
    obtain ⟨w, hnumeric, hw, rfl⟩ | ⟨-, rfl⟩ := indexed_eq_ok h
    · cases hv
      exact ⟨rfl, .indexedY hw hnumeric (Shape.indexed?_eq_some.mp hfound.2).2⟩
    · cases hv
  | bare e =>
    rw [hshape] at h hfound
    have htext : e = Text.trim o := hfound
    obtain ⟨w, hnumeric, hw, rfl⟩ | ⟨-, rfl⟩ := bare_eq_ok h
    · cases hv
      have htrim : Text.trim e = e := by rw [htext, Text.trim_trim]
      rw [← htrim] at hnumeric
      rw [← htext]
      cases hbranch : m.isBranch with
      | true => exact ⟨rfl, .target hw hnumeric hbranch⟩
      | false => exact ⟨rfl, .place hw hnumeric hbranch⟩
    · cases hv

end Instruction

/-- A `NumericOperand` is read as the number that its literal stands for, in the mode of its marks;
an operand that is read as a number is one, blanks around it apart; and all that an operand can be
refused for is a malformed literal. -/
theorem operand_grammar (m : Mnemonic) (o : Text) :
    (∀ mode v, NumericOperand m o mode v → Instruction.read m o = .ok ⟨m, mode, .value v⟩) ∧
      (∀ i v, Instruction.read m o = .ok i → i.operand = .value v →
        i.mnemonic = m ∧ NumericOperand m (Text.trim o) i.mode v) ∧
      ∀ fault, Instruction.read m o = .error fault →
        ∃ literal, fault = .malformedLiteral literal := by
  refine ⟨?_, ?_, ?_⟩
  · intro mode v hspelled
    exact Instruction.read_of_numericOperand hspelled
  · intro i v hread hv
    exact Instruction.numericOperand_of_read hread hv
  · intro fault hread
    exact Instruction.read_eq_error hread

/-- A negative number with blanks inside of the marks, and a label between marks that need a
literal. -/
theorem operand_grammar_of_pointers :
    NumericOperand .lda "( 0X-1f ),\u3000y".toList .indirectY (-31) ∧
      Instruction.read .lda "( 0X-1f ),\u3000y".toList = .ok ⟨.lda, .indirectY, .value (-31)⟩ ∧
      NumericOperand .lda (Text.trim " ( 0X-1f ),\u3000y".toList) .indirectY (-31) ∧
      ∃ fault literal, Instruction.read .lda "(ptr,X)".toList = .error fault ∧
        fault = .malformedLiteral literal := by
  have hliteral : Literal.read " 0X-1f ".toList = .ok (-31) := by decide +kernel
  have hspelled : NumericOperand .lda "( 0X-1f ),\u3000y".toList .indirectY (-31) :=
    .indirectY hliteral ⟨['\u3000'], 'y', by decide, .inr rfl, rfl⟩
  have hblank : Instruction.read .lda " ( 0X-1f ),\u3000y".toList =
      .ok ⟨.lda, .indirectY, .value (-31)⟩ := by decide +kernel
  have hlabel : Instruction.read .lda "(ptr,X)".toList = .error (.malformedLiteral "ptr".toList) := by
    decide
  obtain ⟨hread, -, -⟩ := operand_grammar .lda "( 0X-1f ),\u3000y".toList
  obtain ⟨-, hfound, -⟩ := operand_grammar .lda " ( 0X-1f ),\u3000y".toList
  obtain ⟨-, -, hrefused⟩ := operand_grammar .lda "(ptr,X)".toList
  obtain ⟨literal, hfault⟩ := hrefused _ hlabel
  exact ⟨hspelled, hread _ _ hspelled, (hfound _ (-31) hblank rfl).2, _, literal, hlabel, hfault⟩

end Asm6502
