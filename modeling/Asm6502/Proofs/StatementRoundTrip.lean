import Asm6502.Proofs.LabelReferences
import Asm6502.Proofs.Narrowing
import Asm6502.Proofs.Numerals
import Asm6502.Proofs.OperandGrammar
import Asm6502.Statement.Printer

/-!
Statements are read back from their texts. What is printed and read again is a statement of the
same kind, mnemonic and mode, with the same labels and with its numbers cut down to the bytes that
they take, so it has the same machine code.
-/

namespace Asm6502

/-! ## Numbers -/

theorem Literal.read_byteText (v : Int32) :
    Literal.read (Operand.byteText v) = .ok (narrow 1 v) := by
  have hresidue : (residue 0x100 v.toInt : Int) = v.toInt % 0x100 := coe_residue (by decide) v.toInt
  rw [Operand.byteText, Literal.read_hex (by omega), hresidue]
  rfl

theorem Literal.read_wordText (v : Int32) :
    Literal.read (Operand.wordText v) = .ok (narrow 2 v) := by
  have hresidue : (residue 0x10000 v.toInt : Int) = v.toInt % 0x10000 :=
    coe_residue (by decide) v.toInt
  rw [Operand.wordText, Literal.read_hex (by omega), hresidue]
  rfl

/-- A printed number is a hexadecimal literal. -/
theorem Operand.exists_text_value {size : Nat} (h : size = 1 ∨ size = 2) (v : Int32) :
    ∃ width n, Operand.text size (.value v) = '$' :: Text.hex width n ∧
      Literal.read ('$' :: Text.hex width n) = .ok (narrow size v) := by
  obtain rfl | rfl := h
  · exact ⟨2, residue 0x100 v.toInt, rfl, Literal.read_byteText v⟩
  · exact ⟨4, residue 0x10000 v.toInt, rfl, Literal.read_wordText v⟩

theorem Mode.sized_narrow {short long : Mode} (hshort : short.operandSize = 1)
    (hlong : long.operandSize = 2) {v : Int32}
    (hfit : Mode.sized short long v = long → v.toInt ≤ 0xFFFF) :
    Mode.sized short long (narrow (Mode.sized short long v).operandSize v) =
      Mode.sized short long v := by
  by_cases hv : v.toInt ≤ 0xFF
  · have hmode : Mode.sized short long v = short := if_pos hv
    rw [hmode, hshort, Mode.sized, if_pos]
    rw [toInt_narrow_one]
    omega
  · have hmode : Mode.sized short long v = long := if_neg hv
    have hword := hfit hmode
    rw [hmode, hlong, Mode.sized, if_neg]
    rw [toInt_narrow_two]
    omega

theorem Mode.sized_eq (short long : Mode) (v : Int32) :
    Mode.sized short long v = short ∨ Mode.sized short long v = long := by
  unfold Mode.sized
  split
  · exact .inl rfl
  · exact .inr rfl

/-! ## Instructions -/

namespace Instruction

/-- The instructions that are read back. The text of a number shows its low bytes only, which is
not enough for the target of a branch or for an address that takes more than two bytes; and
`(e),Y` is always taken for a pointer. -/
structure Legible (i : Instruction) : Prop where
  supported : i.mnemonic.supports i.mode = true
  target : i.mode = .relative → ∀ v, i.operand ≠ .value v
  address : i.mode = .absolute ∨ i.mode = .absoluteX ∨ i.mode = .absoluteY →
    ∀ v, i.operand = .value v → v.toInt ≤ 0xFFFF
  pointer : i.mode = .absoluteY → ∀ name, i.operand = .label name →
    ¬(name.head? = some '(' ∧ name.getLast? = some ')')

def operandText (i : Instruction) : Text :=
  match i.operand with
  | .implied => []
  | operand => i.mode.decorate (operand.text i.mode.operandSize)

/-! ### What an operand is read as -/

/-- The modes and operands that a mnemonic can be read with. A label behind an index starts where
the text does, and a bare one has no marks at all. -/
inductive Readable (m : Mnemonic) : Mode → Operand → Prop
  | accumulator : Readable m .accumulator .implied
  | implied (h : m.supports .accumulator = false) : Readable m .implied .implied
  | literal {mode : Mode}
      (h : mode = .immediate ∨ mode = .indirectX ∨ mode = .indirectY ∨ mode = .indirect)
      (v : Int32) : Readable m mode (.value v)
  | numberX (v : Int32) : Readable m (Mode.sized .zeroPageX .absoluteX v) (.value v)
  | labelX {name : Text} (hname : Shape.Indexable name) (htrim : Text.trim name = name)
      (hlabel : Literal.looksNumeric name = false) : Readable m .absoluteX (.label name)
  | numberY (v : Int32) : Readable m (Mode.sized .zeroPageY .absoluteY v) (.value v)
  | labelY {name : Text} (hname : Shape.Indexable name) (htrim : Text.trim name = name)
      (hlabel : Literal.looksNumeric name = false) : Readable m .absoluteY (.label name)
  | target (h : m.isBranch = true) (v : Int32) : Readable m .relative (.value v)
  | number (h : m.isBranch = false) (v : Int32) :
      Readable m (Mode.sized .zeroPage .absolute v) (.value v)
  | label {name : Text} (hname : Shape.ofText name = .bare name)
      (hlabel : Literal.looksNumeric name = false) :
      Readable m (if m.isBranch then .relative else .absolute) (.label name)

theorem readable_of_bare {m : Mnemonic} {e : Text} {i : Instruction}
    (he : Shape.ofText e = .bare e) (h : bare m e = .ok i) :
    i.mnemonic = m ∧ Readable m i.mode i.operand := by
  obtain ⟨v, -, -, rfl⟩ | ⟨hlabel, rfl⟩ := bare_eq_ok h
  · refine ⟨rfl, ?_⟩
    cases hbranch : m.isBranch with
    | true => exact .target hbranch v
    | false => exact .number hbranch v
  · exact ⟨rfl, .label he hlabel⟩

theorem readable_of_read {m : Mnemonic} {operand : Text} {i : Instruction}
    (h : read m operand = .ok i) : i.mnemonic = m ∧ Readable m i.mode i.operand := by
  have hfound := Shape.foundIn_ofTrimmed (Text.trim operand)
  have hliteral : ∀ {mode : Mode} {e : Text},
      mode = .immediate ∨ mode = .indirectX ∨ mode = .indirectY ∨ mode = .indirect →
      withLiteral m mode e = .ok i → i.mnemonic = m ∧ Readable m i.mode i.operand := by
    intro mode e hmode hread
    obtain ⟨v, -, rfl⟩ := withLiteral_eq_ok.mp hread
    exact ⟨rfl, .literal hmode v⟩
  -- only the shapes with an index and the bare one tell about the label in them
  unfold read Shape.ofText at h
  cases hshape : Shape.ofTrimmed (Text.trim operand) with
  | absent =>
    rw [hshape] at h
    cases h
    refine ⟨rfl, ?_⟩
    cases hmode : m.supports .accumulator with
    | true => exact .accumulator
    | false => exact .implied hmode
  | accumulator =>
    rw [hshape] at h
    cases h
    exact ⟨rfl, .accumulator⟩
  | immediate e => exact hliteral (.inl rfl) (hshape ▸ h)
  | indirectX e => exact hliteral (.inr (.inl rfl)) (hshape ▸ h)
  | indirectY e => exact hliteral (.inr (.inr (.inl rfl))) (hshape ▸ h)
  | indirect e => exact hliteral (.inr (.inr (.inr rfl))) (hshape ▸ h)
  | indexedX e =>
    rw [hshape] at h hfound
    obtain ⟨v, -, -, rfl⟩ | ⟨hlabel, rfl⟩ := indexed_eq_ok h
    · exact ⟨rfl, .numberX v⟩
    · exact ⟨rfl, .labelX (Shape.indexable_trim hfound.1 hfound.2) (Text.trim_trim e) hlabel⟩
  | indexedY e =>
    rw [hshape] at h hfound
    obtain ⟨v, -, -, rfl⟩ | ⟨hlabel, rfl⟩ := indexed_eq_ok h
    · exact ⟨rfl, .numberY v⟩
    · exact ⟨rfl, .labelY (Shape.indexable_trim hfound.1 hfound.2) (Text.trim_trim e) hlabel⟩
  | bare e =>
    rw [hshape] at h hfound
    cases hfound
    refine readable_of_bare ?_ h
    rw [Shape.ofText, Text.trim_trim, hshape]

/-! ### Operands between their marks -/

theorem operandText_value (m : Mnemonic) (mode : Mode) (v : Int32) :
    operandText ⟨m, mode, .value v⟩ = mode.decorate (Operand.text mode.operandSize (.value v)) :=
  rfl

theorem read_literal (m : Mnemonic) {mode : Mode}
    (hmode : mode = .immediate ∨ mode = .indirectX ∨ mode = .indirectY ∨ mode = .indirect)
    (v : Int32) :
    read m (operandText ⟨m, mode, .value v⟩) = .ok (narrowed ⟨m, mode, .value v⟩) := by
  have hsize : mode.operandSize = 1 ∨ mode.operandSize = 2 := by
    obtain rfl | rfl | rfl | rfl := hmode <;> decide
  obtain ⟨width, n, htext, hread⟩ := Operand.exists_text_value hsize v
  have hspelled : NumericOperand m (mode.decorate ('$' :: Text.hex width n)) mode
      (narrow mode.operandSize v) := by
    obtain rfl | rfl | rfl | rfl := hmode
    · exact .immediate hread
    · simpa [Mode.decorate] using
        NumericOperand.indirectX (m := m) hread (Shape.indexedBy_marked 'X' _)
    · simpa [Mode.decorate] using
        NumericOperand.indirectY (m := m) hread (Shape.indexedBy_marked 'Y' _)
    · exact .indirect hread
  rw [operandText_value, htext, read_of_numericOperand hspelled]
  rfl

/-- A number whose mode follows from its size is printed with enough digits to choose that mode
again. -/
theorem exists_sized_text (m : Mnemonic) {short long : Mode} (hshort : short.operandSize = 1)
    (hlong : long.operandSize = 2) {v : Int32}
    (hfit : Mode.sized short long v = long → v.toInt ≤ 0xFFFF) :
    ∃ t w, operandText ⟨m, Mode.sized short long v, .value v⟩ =
        (Mode.sized short long v).decorate t ∧
      Literal.read t = .ok w ∧ Literal.looksNumeric (Text.trim t) = true ∧
      Instruction.mk m (Mode.sized short long w) (.value w) =
        narrowed ⟨m, Mode.sized short long v, .value v⟩ := by
  have hsize : (Mode.sized short long v).operandSize = 1 ∨
      (Mode.sized short long v).operandSize = 2 := by
    obtain hmode | hmode := Mode.sized_eq short long v
    · exact .inl (by rw [hmode, hshort])
    · exact .inr (by rw [hmode, hlong])
  obtain ⟨width, n, htext, hread⟩ := Operand.exists_text_value hsize v
  refine ⟨'$' :: Text.hex width n, _, ?_, hread, ?_, ?_⟩
  · rw [operandText_value, htext]
  · rw [Literal.trim_hex]
    rfl
  · rw [Mode.sized_narrow hshort hlong hfit]
    rfl

/-- Whatever an operand is read as, its text is read as the same with narrower numbers. -/
theorem read_operandText {m : Mnemonic} {mode : Mode} {operand : Operand}
    (h : Readable m mode operand) (hi : Legible ⟨m, mode, operand⟩) :
    read m (operandText ⟨m, mode, operand⟩) = .ok (narrowed ⟨m, mode, operand⟩) := by
  have habsent : read m [] = .ok ⟨m, if m.supports .accumulator then .accumulator else .implied,
      .implied⟩ := rfl
  cases h with
  | accumulator =>
    rw [if_pos hi.supported] at habsent
    exact habsent
  | implied hmode =>
    rw [if_neg (Bool.eq_false_iff.mp hmode)] at habsent
    exact habsent
  | literal hmode v => exact read_literal m hmode v
  | numberX v =>
    obtain ⟨t, w, htext, hread, hnumeric, hnarrow⟩ :=
      exists_sized_text m rfl rfl fun hmode => hi.address (.inr (.inl hmode)) v rfl
    have hmarks : (Mode.sized .zeroPageX .absoluteX v).decorate t = t ++ [',', 'X'] := by
      obtain hmode | hmode := Mode.sized_eq .zeroPageX .absoluteX v <;> rw [hmode] <;> rfl
    rw [htext, hmarks, ← hnarrow]
    exact read_of_numericOperand (.indexedX hread hnumeric (Shape.indexedBy_marked 'X' t))
  | labelX hname htrim hlabel =>
    exact read_labelX hlabel hname htrim (Shape.indexedBy_marked 'X' _) m
  | numberY v =>
    obtain ⟨t, w, htext, hread, hnumeric, hnarrow⟩ :=
      exists_sized_text m rfl rfl fun hmode => hi.address (.inr (.inr hmode)) v rfl
    have hmarks : (Mode.sized .zeroPageY .absoluteY v).decorate t = t ++ [',', 'Y'] := by
      obtain hmode | hmode := Mode.sized_eq .zeroPageY .absoluteY v <;> rw [hmode] <;> rfl
    rw [htext, hmarks, ← hnarrow]
    exact read_of_numericOperand (.indexedY hread hnumeric (Shape.indexedBy_marked 'Y' t))
  | labelY hname htrim hlabel =>
    exact read_labelY hlabel hname htrim (hi.pointer rfl _ rfl) (Shape.indexedBy_marked 'Y' _) m
  | target hbranch v => exact absurd rfl (hi.target rfl v)
  | number hbranch v =>
    obtain ⟨t, w, htext, hread, hnumeric, hnarrow⟩ :=
      exists_sized_text m rfl rfl fun hmode => hi.address (.inl hmode) v rfl
    have hmarks : (Mode.sized .zeroPage .absolute v).decorate t = t := by
      obtain hmode | hmode := Mode.sized_eq .zeroPage .absolute v <;> rw [hmode] <;> rfl
    rw [htext, hmarks, ← hnarrow]
    exact read_of_numericOperand (.place hread hnumeric hbranch)
  | label hname hlabel =>
    rename_i name
    have htext : operandText ⟨m, if m.isBranch then .relative else .absolute, .label name⟩ =
        name := by cases m.isBranch <;> rfl
    rw [htext]
    exact read_label hlabel hname m

end Instruction

/-! ## Lists between commas -/

/-- The entries of a list are found again by a reader to which a blank in front does not count. -/
theorem Statement.mapM_splitOn_entriesText {α : Type} {f : Text → Except Fault α}
    (hblank : ∀ t, f (' ' :: t) = f t) {ts : List Text} (hne : ts ≠ [])
    (hcomma : ∀ t ∈ ts, ',' ∉ t) : ((entriesText ts).splitOn ',').mapM f = ts.mapM f := by
  induction ts with
  | nil => exact absurd rfl hne
  | cons t ts ih =>
    have ht := hcomma t List.mem_cons_self
    cases ts with
    | nil => rw [entriesText, List.intercalate_singleton, List.splitOn_eq_singleton ht]
    | cons u us =>
      have hrest := ih (by simp) fun v hv => hcomma v (List.mem_cons_of_mem t hv)
      have htext : entriesText (t :: u :: us) = t ++ ',' :: ' ' :: entriesText (u :: us) := by
        rw [entriesText, List.intercalate_cons_cons, List.append_assoc]
        rfl
      obtain ⟨e, es, hes⟩ :=
        List.exists_cons_of_ne_nil (List.splitOn_ne_nil ',' (entriesText (u :: us)))
      -- the space behind the comma goes to the entry that follows
      have hsplit : (' ' :: entriesText (u :: us)).splitOn ',' = (' ' :: e) :: es := by
        rw [List.splitOn_cons_eq_if_modifyHead, hes]
        rfl
      rw [hes, List.mapM_cons] at hrest
      rw [htext, List.splitOn_append_cons_self_of_not_mem ht, hsplit, List.mapM_cons,
        List.mapM_cons, hblank, hrest, ← List.mapM_cons]

theorem not_mem_of_mem_splitOn {t e : Text} (h : e ∈ t.splitOn ',') : ',' ∉ e := by
  induction t generalizing e with
  | nil =>
    rw [List.splitOn_nil, List.mem_singleton] at h
    simp [h]
  | cons c t ih =>
    rw [List.splitOn_cons_eq_if_modifyHead] at h
    obtain ⟨e', es, hes⟩ := List.exists_cons_of_ne_nil (List.splitOn_ne_nil ',' t)
    rw [hes] at h ih
    split at h
    · obtain rfl | hmem := List.mem_cons.mp h
      · simp
      · exact ih hmem
    · rename_i hc
      obtain rfl | hmem := List.mem_cons.mp h
      · rw [List.mem_cons, not_or]
        exact ⟨fun heq => hc (by simp [← heq]), ih List.mem_cons_self⟩
      · exact ih (List.mem_cons_of_mem e' hmem)

theorem comma_not_mem_numeral (width n : Nat) : ',' ∉ '$' :: Text.hex width n := by
  have hdigit : ',' ∉ '$' :: Text.hexDigits := by decide
  intro hmem
  obtain heq | hmem := List.mem_cons.mp hmem
  · cases heq
  · exact hdigit (List.mem_cons_of_mem '$' (Text.mem_hex hmem))

theorem Literal.read_blank (t : Text) : Literal.read (' ' :: t) = Literal.read t := by
  rw [Literal.read, Literal.read, Text.trim_cons rfl]

theorem Operand.readWord_blank (t : Text) : Operand.readWord (' ' :: t) = Operand.readWord t := by
  rw [Operand.readWord, Operand.readWord, Text.trim_cons rfl]

/-- An entry that reading a list of words can give. -/
def Operand.IsWord : Operand → Prop
  | implied => False
  | value _ => True
  | label name =>
    name ≠ [] ∧ Text.trim name = name ∧ Literal.looksNumeric name = false ∧ ',' ∉ name

theorem Operand.isWord_of_readWord {entry : Text} {operand : Operand} (hcomma : ',' ∉ entry)
    (h : Operand.readWord entry = .ok operand) : operand.IsWord := by
  simp only [readWord] at h
  split at h
  · obtain ⟨v, -, rfl⟩ := map_eq_ok.mp h
    trivial
  · rename_i hlabel
    rw [not_or] at hlabel
    cases h
    exact ⟨hlabel.1, Text.trim_trim entry, Bool.eq_false_iff.mpr hlabel.2,
      fun hmem => hcomma (Text.mem_of_mem_trim hmem)⟩

theorem Operand.readWord_text {operand : Operand} (h : operand.IsWord) :
    Operand.readWord (operand.text 2) = .ok (operand.narrowed 2) := by
  cases operand with
  | implied => cases h
  | value v =>
    have htrim : Text.trim (wordText v) = wordText v := Literal.trim_hex 4 _
    have hnumeric : Literal.looksNumeric (Text.trim (wordText v)) = true := by
      rw [htrim]
      rfl
    exact readWord_literal hnumeric (Literal.read_wordText v)
  | label name =>
    obtain ⟨hne, htrim, hlabel, -⟩ := h
    exact readWord_label hlabel htrim hne

theorem Operand.comma_not_mem_text {operand : Operand} (h : operand.IsWord) :
    ',' ∉ operand.text 2 := by
  cases operand with
  | implied => cases h
  | value v => exact comma_not_mem_numeral 4 _
  | label name => exact h.2.2.2

/-! ## Statements -/

theorem Mnemonic.mem_name (m : Mnemonic) : ∀ c ∈ m.name, c ≠ ' ' ∧ c ≠ '.' := by
  cases m <;> decide

theorem Mnemonic.read_name (m : Mnemonic) (operand : Text) :
    Statement.read m.name operand = (Instruction.read m operand).map .instruction := by
  have hdot : Text.dropFirst? '.' m.name = none := by
    rw [Option.eq_none_iff_forall_ne_some]
    intro rest hrest
    have hmem : '.' ∈ m.name := by
      rw [Text.dropFirst?_eq_some.mp hrest]
      exact List.mem_cons_self
    exact (m.mem_name '.' hmem).2 rfl
  simp only [Statement.read, hdot, m.ofName?_name]

theorem Instruction.split_text (i : Instruction) :
    Text.before (· = ' ') i.text = i.mnemonic.name ∧
      (Text.after? (· = ' ') i.text).getD [] = i.operandText := by
  obtain ⟨m, mode, operand⟩ := i
  have hname : ∀ c ∈ m.name, decide (c = ' ') = false :=
    fun c hc => decide_eq_false (m.mem_name c hc).1
  cases operand with
  | implied => exact ⟨Text.before_eq_self hname, by rw [text, Text.after?_eq_none hname]; rfl⟩
  | value v =>
    exact ⟨Text.before_append hname rfl, by rw [text, Text.after?_append hname rfl]; rfl⟩
  | label name =>
    exact ⟨Text.before_append hname rfl, by rw [text, Text.after?_append hname rfl]; rfl⟩

namespace Statement

theorem readOrigin_hex (address : UInt16) :
    readOrigin ('$' :: Text.hex 4 address.toNat) = .ok (origin address) := by
  have hlt := address.toNat_lt
  have hread := @Literal.read_hex 4 address.toNat (by omega)
  have hvalue : (Int32.ofInt address.toNat).toInt = address.toNat :=
    Int32.toInt_ofInt_of_le (by omega) (by omega)
  rw [readOrigin, hread, bind_eq_ok]
  refine ⟨_, rfl, ?_⟩
  rw [hvalue, if_pos (by omega), Int.toNat_natCast, UInt16.ofNat_toNat]

theorem readBytes_entriesText {values : List Int32} (hne : values ≠ []) :
    readBytes (entriesText (values.map Operand.byteText)) =
      .ok (bytes (values.map (narrow 1))) := by
  have hcomma : ∀ t ∈ values.map Operand.byteText, ',' ∉ t := by
    intro t ht
    obtain ⟨v, -, rfl⟩ := List.mem_map.mp ht
    exact comma_not_mem_numeral 2 _
  rw [readBytes, mapM_splitOn_entriesText Literal.read_blank (by simpa using hne) hcomma,
    mapM_map_eq_ok fun v _ => Literal.read_byteText v]
  rfl

theorem readWords_entriesText {entries : List Operand} (hne : entries ≠ [])
    (h : ∀ operand ∈ entries, operand.IsWord) :
    readWords (entriesText (entries.map (Operand.text 2))) =
      .ok (words (entries.map (Operand.narrowed 2))) := by
  have hcomma : ∀ t ∈ entries.map (Operand.text 2), ',' ∉ t := by
    intro t ht
    obtain ⟨operand, hmem, rfl⟩ := List.mem_map.mp ht
    exact Operand.comma_not_mem_text (h operand hmem)
  rw [readWords, mapM_splitOn_entriesText Operand.readWord_blank (by simpa using hne) hcomma,
    mapM_map_eq_ok fun operand hmem => Operand.readWord_text (h operand hmem)]
  rfl

/-- A statement that was read is read again from its `text`, with its numbers `narrowed`. -/
theorem read_text {operation operand : Text} {statement : Statement}
    (h : read operation operand = .ok statement)
    (hlegible : ∀ i, statement = instruction i → i.Legible) :
    read (Text.before (· = ' ') statement.text)
        ((Text.after? (· = ' ') statement.text).getD []) = .ok statement.narrowed := by
  have hentries : operand.splitOn ',' ≠ [] := List.splitOn_ne_nil ',' operand
  obtain ⟨m, i, hi, rfl⟩ | horigin | ⟨values, hvalues, rfl⟩ | ⟨entries, hwords, rfl⟩ := read_eq_ok h
  · obtain ⟨hbefore, hafter⟩ := i.split_text
    obtain ⟨rfl, hreadable⟩ := Instruction.readable_of_read hi
    have hagain := Instruction.read_operandText hreadable (hlegible i rfl)
    have htext : (instruction i).text = i.text := rfl
    rw [htext, hbefore, hafter, Mnemonic.read_name, hagain]
    rfl
  · obtain ⟨address, rfl⟩ := readOrigin_eq_ok horigin
    exact readOrigin_hex address
  · have hne : values ≠ [] := by
      rw [← List.length_pos_iff, length_mapM hvalues, List.length_pos_iff]
      exact hentries
    exact readBytes_entriesText hne
  · have hne : entries ≠ [] := by
      rw [← List.length_pos_iff, length_mapM hwords, List.length_pos_iff]
      exact hentries
    have hword : ∀ word ∈ entries, word.IsWord := by
      intro word hmem
      obtain ⟨entry, hentry, hread⟩ := exists_of_mem_mapM hwords hmem
      exact Operand.isWord_of_readWord (not_mem_of_mem_splitOn hentry) hread
    exact readWords_entriesText hne hword

end Statement

/-! ## Lines -/

/-- The line that shows a statement: its text, cut at the first space. -/
def SourceLine.ofStatement (number : Nat) (label : Option Text) (statement : Statement) :
    SourceLine :=
  { number
    label
    operation := some (Text.before (· = ' ') statement.text)
    operand := (Text.after? (· = ' ') statement.text).getD [] }

theorem statement_round_trip {l : SourceLine} {statement : Statement}
    (h : l.statement = .ok (some statement))
    (hlegible : ∀ i, statement = .instruction i → i.Legible) (number : Nat) (label : Option Text) :
    (SourceLine.ofStatement number label statement).statement = .ok (some statement.narrowed) ∧
      ∀ labels address,
        statement.narrowed.encode labels address = statement.encode labels address := by
  constructor
  · unfold SourceLine.statement at h
    split at h
    · cases h
    · obtain ⟨statement', hread, hsome⟩ := map_eq_ok.mp h
      cases hsome
      exact congrArg (Except.map some) (Statement.read_text hread hlegible)
  · intro labels address
    exact Statement.encode_narrowed (fun i hi => (hlegible i hi).target) labels address

/-- `LDA $-2,X` is printed as `LDA $FE,X`; the label of `STA (a,X),b , y` keeps its marks. -/
theorem statement_round_trip_of_marks :
    ∃ number label : Instruction,
      (SourceLine.mk 1 none (some "LDA".toList) "$-2,X".toList).statement =
          .ok (some (.instruction number)) ∧
        number.Legible ∧
        (SourceLine.ofStatement 1 none (.instruction number)).statement =
          .ok (some (.instruction ⟨.lda, .zeroPageX, .value 0xFE⟩)) ∧
      (SourceLine.mk 2 none (some "STA".toList) "(a,X),b , y".toList).statement =
          .ok (some (.instruction label)) ∧
        label.Legible ∧
        (SourceLine.ofStatement 2 none (.instruction label)).statement =
          .ok (some (.instruction ⟨.sta, .absoluteY, .label "(a,X),b".toList⟩)) := by
  have hnumber : (SourceLine.mk 1 none (some "LDA".toList) "$-2,X".toList).statement =
      .ok (some (.instruction ⟨.lda, .zeroPageX, .value (-2)⟩)) := by rfl
  have hlabel : (SourceLine.mk 2 none (some "STA".toList) "(a,X),b , y".toList).statement =
      .ok (some (.instruction ⟨.sta, .absoluteY, .label "(a,X),b".toList⟩)) := by rfl
  have hfirst : (Instruction.mk .lda .zeroPageX (.value (-2))).Legible :=
    ⟨rfl, by rintro ⟨⟩, by rintro (⟨⟨⟩⟩ | ⟨⟨⟩⟩ | ⟨⟨⟩⟩), by rintro ⟨⟩⟩
  have hsecond : (Instruction.mk .sta .absoluteY (.label "(a,X),b".toList)).Legible := by
    refine ⟨rfl, by rintro ⟨⟩, by rintro - v ⟨⟩, ?_⟩
    rintro - name ⟨⟩
    decide
  refine ⟨_, _, hnumber, hfirst, ?_, hlabel, hsecond, ?_⟩
  · exact (statement_round_trip hnumber (by rintro i ⟨⟩; exact hfirst) 1 none).1
  · exact (statement_round_trip hlabel (by rintro i ⟨⟩; exact hsecond) 2 none).1

end Asm6502
