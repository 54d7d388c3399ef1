import Asm6502.Proofs.Result
import Asm6502.SourceLine

/-!
Why a line cannot be read: its operation is unknown, a literal is malformed, or an origin lies
outside of the address space. And what a line that can be read was read from.
-/

namespace Asm6502

/-! ## Literals and operands -/

theorem Literal.read_congr {s t : Text} (h : Text.trim s = Text.trim t) : read s = read t := by
  rw [read, read, h]

theorem Literal.read_eq_error {text : Text} {f : Fault} (h : Literal.read text = .error f) :
    f = .malformedLiteral (Text.trim text) := by
  unfold Literal.read at h
  split at h
  · cases h
    rfl
  · split at h
    · cases h
    · cases h
      rfl

theorem Instruction.read_eq_error {m : Mnemonic} {operand : Text} {f : Fault}
    (h : Instruction.read m operand = .error f) : ∃ text, f = .malformedLiteral text := by
  have hliteral : ∀ {e : Text} {g : Int32 → Instruction}, (Literal.read e).map g = .error f →
      ∃ text, f = .malformedLiteral text :=
    fun hmap => ⟨_, Literal.read_eq_error (map_eq_error.mp hmap)⟩
  unfold Instruction.read at h
  -- a shape either gives an instruction at once or reads one literal
  cases hshape : Shape.ofText operand with
  | absent => simp [hshape, ofShape] at h
  | accumulator => simp [hshape, ofShape] at h
  | immediate e => exact hliteral (hshape ▸ h)
  | indirectX e => exact hliteral (hshape ▸ h)
  | indirectY e => exact hliteral (hshape ▸ h)
  | indirect e => exact hliteral (hshape ▸ h)
  | indexedX e =>
    simp only [hshape, ofShape, indexed] at h
    split at h
    · exact hliteral h
    · cases h
  | indexedY e =>
    simp only [hshape, ofShape, indexed] at h
    split at h
    · exact hliteral h
    · cases h
  | bare e =>
    simp only [hshape, ofShape, bare] at h
    split at h
    · exact hliteral h
    · cases h

theorem Instruction.withLiteral_eq_ok {m : Mnemonic} {mode : Mode} {e : Text} {i : Instruction} :
    withLiteral m mode e = .ok i ↔ ∃ v, Literal.read e = .ok v ∧ i = ⟨m, mode, .value v⟩ := by
  rw [withLiteral, map_eq_ok]
  simp only [eq_comm]

theorem Instruction.indexed_eq_ok {m : Mnemonic} {short long : Mode} {e : Text} {i : Instruction}
    (h : indexed m short long e = .ok i) :
    (∃ v, Literal.looksNumeric (Text.trim e) = true ∧ Literal.read e = .ok v ∧
        i = ⟨m, Mode.sized short long v, .value v⟩) ∨
      Literal.looksNumeric (Text.trim e) = false ∧ i = ⟨m, long, .label (Text.trim e)⟩ := by
  unfold indexed at h
  split at h
  · rename_i hnumeric
    obtain ⟨v, hv, rfl⟩ := map_eq_ok.mp h
    exact .inl ⟨v, hnumeric, hv, rfl⟩
  · rename_i hlabel
    cases h
    exact .inr ⟨Bool.eq_false_iff.mpr hlabel, rfl⟩

theorem Instruction.bare_eq_ok {m : Mnemonic} {e : Text} {i : Instruction}
    (h : bare m e = .ok i) :
    (∃ v, Literal.looksNumeric e = true ∧ Literal.read e = .ok v ∧
        i = ⟨m, if m.isBranch then .relative else Mode.sized .zeroPage .absolute v, .value v⟩) ∨
      Literal.looksNumeric e = false ∧
        i = ⟨m, if m.isBranch then .relative else .absolute, .label e⟩ := by
  unfold bare at h
  split at h
  · rename_i hnumeric
    obtain ⟨v, hv, rfl⟩ := map_eq_ok.mp h
    exact .inl ⟨v, hnumeric, hv, rfl⟩
  · rename_i hlabel
    cases h
    exact .inr ⟨Bool.eq_false_iff.mpr hlabel, rfl⟩

theorem Operand.readWord_literal {entry : Text} {v : Int32}
    (hnumeric : Literal.looksNumeric (Text.trim entry) = true)
    (h : Literal.read entry = .ok v) : readWord entry = .ok (.value v) := by
  simp only [readWord]
  rw [if_pos (.inr hnumeric), Literal.read_congr (Text.trim_trim entry), h]
  rfl

theorem Operand.readWord_eq_error {entry : Text} {f : Fault}
    (h : Operand.readWord entry = .error f) : ∃ text, f = .malformedLiteral text := by
  simp only [Operand.readWord] at h
  split at h
  · exact ⟨_, Literal.read_eq_error (map_eq_error.mp h)⟩
  · cases h

/-! ## Statements -/

namespace Statement

theorem readOrigin_eq_error {operand : Text} {f : Fault} (h : readOrigin operand = .error f) :
    (∃ text, f = .malformedLiteral text) ∨
      ∃ v, f = .addressOverflow v ∧ (v < 0 ∨ 0xFFFF < v) := by
  simp only [readOrigin, bind_eq_error] at h
  obtain hliteral | ⟨v, -, hrange⟩ := h
  · exact .inl ⟨_, Literal.read_eq_error hliteral⟩
  · split at hrange
    · cases hrange
    · rename_i hout
      cases hrange
      exact .inr ⟨v.toInt, rfl, by omega⟩

theorem readDirective_eq_error {name operand : Text} {f : Fault}
    (h : readDirective name operand = .error f) :
    (∃ word, f = .unknownInstruction word) ∨ (∃ text, f = .malformedLiteral text) ∨
      (name = "ORG".toList ∧ ∃ v, f = .addressOverflow v ∧ (v < 0 ∨ 0xFFFF < v)) := by
  unfold readDirective at h
  split at h
  · rename_i hname
    obtain hliteral | hrange := readOrigin_eq_error h
    · exact .inr (.inl hliteral)
    · exact .inr (.inr ⟨hname, hrange⟩)
  split at h
  · obtain ⟨entry, -, hentry⟩ := exists_of_mapM_eq_error (map_eq_error.mp h)
    exact .inr (.inl ⟨_, Literal.read_eq_error hentry⟩)
  split at h
  · obtain ⟨entry, -, hentry⟩ := exists_of_mapM_eq_error (map_eq_error.mp h)
    exact .inr (.inl (Operand.readWord_eq_error hentry))
  · cases h
    exact .inl ⟨_, rfl⟩

theorem read_eq_error {operation operand : Text} {f : Fault}
    (h : read operation operand = .error f) :
    (∃ word, f = .unknownInstruction word) ∨ (∃ text, f = .malformedLiteral text) ∨
      (operation = ".ORG".toList ∧ ∃ v, f = .addressOverflow v ∧ (v < 0 ∨ 0xFFFF < v)) := by
  unfold read at h
  split at h
  · rename_i name hdot
    obtain hword | hliteral | ⟨rfl, hrange⟩ := readDirective_eq_error h
    · exact .inl hword
    · exact .inr (.inl hliteral)
    · refine .inr (.inr ⟨?_, hrange⟩)
      rcases operation with _ | ⟨c, rest⟩
      · cases hdot
      · simp only [Text.dropFirst?] at hdot
        split at hdot
        · rename_i hc
          cases hdot
          rw [hc]
          rfl
        · cases hdot
  · split at h
    · exact .inr (.inl (Instruction.read_eq_error (map_eq_error.mp h)))
    · cases h
      exact .inl ⟨_, rfl⟩

theorem readDirective_eq_ok {name operand : Text} {statement : Statement}
    (h : readDirective name operand = .ok statement) :
    readOrigin operand = .ok statement ∨
      (∃ values, (operand.splitOn ',').mapM Literal.read = .ok values ∧ statement = bytes values) ∨
      ∃ entries, (operand.splitOn ',').mapM Operand.readWord = .ok entries ∧
        statement = words entries := by
  unfold readDirective at h
  split at h
  · exact .inl h
  split at h
  · obtain ⟨values, hvalues, rfl⟩ := map_eq_ok.mp h
    exact .inr (.inl ⟨values, hvalues, rfl⟩)
  split at h
  · obtain ⟨entries, hentries, rfl⟩ := map_eq_ok.mp h
    exact .inr (.inr ⟨entries, hentries, rfl⟩)
  · cases h

theorem read_eq_ok {operation operand : Text} {statement : Statement}
    (h : read operation operand = .ok statement) :
    (∃ m i, Instruction.read m operand = .ok i ∧ statement = instruction i) ∨
      readOrigin operand = .ok statement ∨
      (∃ values, (operand.splitOn ',').mapM Literal.read = .ok values ∧ statement = bytes values) ∨
      ∃ entries, (operand.splitOn ',').mapM Operand.readWord = .ok entries ∧
        statement = words entries := by
  unfold read at h
  split at h
  · exact .inr (readDirective_eq_ok h)
  · split at h
    · obtain ⟨i, hi, rfl⟩ := map_eq_ok.mp h
      exact .inl ⟨_, i, hi, rfl⟩
    · cases h

theorem readOrigin_eq_ok {operand : Text} {statement : Statement}
    (h : readOrigin operand = .ok statement) : ∃ address, statement = origin address := by
  simp only [readOrigin, bind_eq_ok] at h
  obtain ⟨v, -, hrange⟩ := h
  split at hrange
  · cases hrange
    exact ⟨_, rfl⟩
  · cases hrange

/-- A list between commas has at least one entry, so every statement but an origin places bytes. -/
theorem size_pos_of_read {operation operand : Text} {statement : Statement}
    (h : read operation operand = .ok statement)
    (hplacing : ∀ address, statement ≠ origin address) : 0 < statement.size := by
  have hentries : 0 < (operand.splitOn ',').length :=
    List.length_pos_iff.mpr (List.splitOn_ne_nil ',' operand)
  obtain ⟨m, i, -, rfl⟩ | horigin | ⟨values, hvalues, rfl⟩ | ⟨entries, hwords, rfl⟩ := read_eq_ok h
  · exact Nat.lt_of_lt_of_le Nat.zero_lt_one (Nat.le_add_right 1 _)
  · obtain ⟨address, rfl⟩ := readOrigin_eq_ok horigin
    exact absurd rfl (hplacing address)
  · rw [size, length_mapM hvalues]
    exact hentries
  · rw [size, length_mapM hwords]
    omega

end Statement

/-! ## Lines -/

theorem SourceLine.statement_eq_error {l : SourceLine} {f : Fault} (h : l.statement = .error f) :
    (∃ word, f = .unknownInstruction word) ∨ (∃ text, f = .malformedLiteral text) ∨
      (l.operation = some ".ORG".toList ∧ ∃ v, f = .addressOverflow v ∧ (v < 0 ∨ 0xFFFF < v)) := by
  unfold SourceLine.statement at h
  split at h
  · cases h
  · rename_i operation hoperation
    rw [hoperation, Option.some.injEq]
    exact Statement.read_eq_error (map_eq_error.mp h)

theorem SourceLine.size_pos {l : SourceLine} {statement : Statement}
    (h : l.statement = .ok (some statement))
    (hplacing : ∀ address, statement ≠ .origin address) : 0 < statement.size := by
  unfold SourceLine.statement at h
  split at h
  · cases h
  · obtain ⟨statement', hread, hsome⟩ := map_eq_ok.mp h
    cases hsome
    exact Statement.size_pos_of_read hread hplacing

/-- The number of a line is its place in the listing, counted from one. -/
theorem SourceLine.number_listing {source : Text} {before after : List SourceLine}
    {l : SourceLine} (h : listing source = before ++ l :: after) :
    l.number = before.length + 1 := by
  have hget : (listing source)[before.length]? = some l := by
    rw [h]
    simp
  simp only [listing, List.getElem?_map, List.getElem?_zipIdx, Option.map_eq_some_iff] at hget
  obtain ⟨pair, ⟨text, -, rfl⟩, rfl⟩ := hget
  exact Nat.add_comm 1 _

end Asm6502
