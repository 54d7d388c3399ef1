import Asm6502.Proofs.ImageContents

/-!
A line is emitted as a whole or not at all. Whatever it is refused for, and wherever it stands, the
location and the image stay as they were, down to the count of lost bytes. A line that is not
refused writes its bytes from the location on and touches no other cell.
-/

namespace Asm6502

/-! ## Refusals -/

/-- Why a line is refused at a location, for each cause with the fault that is told: it cannot be
read; its mnemonic does not have its mode; it mentions an unknown name, of which the first counts;
it branches out of reach; or its bytes do not fit into the address space. -/
inductive Refusal (labels : LabelTable) (c : Nat) (l : SourceLine) : Fault → Prop
  | unreadable {f : Fault} (h : l.statement = .error f) : Refusal labels c l f
  | noOpcode {i : Instruction} (h : l.statement = .ok (some (.instruction i)))
      (hmode : i.mnemonic.opcode? i.mode = none) :
      Refusal labels c l (.invalidMode i.mnemonic i.mode)
  | unknownName {statement : Statement} {name : Text} (h : l.statement = .ok (some statement))
      (hopcode : ∀ i, statement = .instruction i → ∃ code, i.opcode = .ok code)
      (hname : statement.names.find? (fun n => labels.find? n = none) = some name) :
      Refusal labels c l (.unknownLabel name)
  | farBranch {i : Instruction} {code : UInt8} {target : Int}
      (h : l.statement = .ok (some (.instruction i))) (hcode : i.opcode = .ok code)
      (hbranch : i.mnemonic.isBranch = true) (htarget : i.operand.number? labels = some target)
      (hfar : Far (distance c 2 target)) :
      Refusal labels c l (.branchOutOfRange ((distance c 2 target).bmod 0x100000000))
  | noRoom {statement : Statement} {bytes : List UInt8} (h : l.statement = .ok (some statement))
      (hplacing : ∀ address, statement ≠ .origin address)
      (hcode : statement.encode labels c = .ok bytes)
      (hover : Location.limit < c + bytes.length) :
      Refusal labels c l (.addressOverflow (c + bytes.length : Nat))

theorem Instruction.opcode_eq_error {i : Instruction} {f : Fault} :
    i.opcode = .error f ↔
      i.mnemonic.opcode? i.mode = none ∧ f = .invalidMode i.mnemonic i.mode := by
  unfold Instruction.opcode
  cases i.mnemonic.opcode? i.mode with
  | none => simp [@eq_comm Fault f]
  | some code => simp

/-- An instruction that the table does not have is refused before its operand is looked at. -/
theorem Instruction.encode_of_opcode_eq_error {i : Instruction} {f : Fault}
    (h : i.opcode = .error f) (labels : LabelTable) (c : Nat) :
    i.encode labels c = .error f := by
  rw [Instruction.encode, h]
  rfl

section Refused

variable {labels : LabelTable} {c : Nat} {l : SourceLine} {f : Fault}

theorem Refusal.of_encode {statement : Statement} (hstatement : l.statement = .ok (some statement))
    (h : statement.encode labels c = .error f) : Refusal labels c l f := by
  have hknown : (∀ i, statement = .instruction i → ∃ code, i.opcode = .ok code) →
      Refusal labels c l f := by
    intro hopcode
    obtain ⟨name, hname, rfl⟩ | ⟨i, target, rfl, htarget, hbranch, hfar, rfl⟩ :=
      (Statement.encode_eq_error hopcode).mp h
    · exact .unknownName hstatement hopcode hname
    · obtain ⟨code, hcode⟩ := hopcode i rfl
      exact .farBranch hstatement hcode hbranch htarget hfar
  cases statement with
  | origin | bytes | words => exact hknown (by simp)
  | instruction i =>
    cases hcode : i.opcode with
    | error f' =>
      rw [Statement.encode, Instruction.encode_of_opcode_eq_error hcode] at h
      cases h
      obtain ⟨hmode, rfl⟩ := Instruction.opcode_eq_error.mp hcode
      exact .noOpcode hstatement hmode
    | ok code =>
      apply hknown
      rintro i' ⟨⟩
      exact ⟨code, hcode⟩

/-- What `Emission.line` finds in a line is its `Refusal`. -/
theorem Emission.line_fault_iff_refusal {e : Emission} :
    (line labels l e).2 = some f ↔ Refusal labels e.location l f := by
  rw [line_fault]
  constructor
  · rintro (hunread | ⟨statement, hstatement, hplacing, hrefused | ⟨bytes, hcode, hover, rfl⟩⟩)
    · exact .unreadable hunread
    · exact .of_encode hstatement hrefused
    · exact .noRoom hstatement hplacing hcode hover
  · intro hrefusal
    cases hrefusal with
    | unreadable h => exact .inl h
    | @noOpcode i h hmode =>
      have hopcode := Instruction.opcode_eq_error.mpr ⟨hmode, rfl⟩
      exact .inr ⟨_, h, by simp, .inl (Instruction.encode_of_opcode_eq_error hopcode _ _)⟩
    | @unknownName statement name h hopcode hname =>
      have hencode : statement.encode labels e.location = .error (.unknownLabel name) :=
        (Statement.encode_eq_error hopcode).mpr (.inl ⟨name, hname, rfl⟩)
      refine .inr ⟨statement, h, ?_, .inl hencode⟩
      rintro address rfl
      cases hname
    | @farBranch i code target h hcode hbranch htarget hfar =>
      have hencode := (Instruction.encode_eq_error hcode).mpr
        (.inr ⟨target, htarget, hbranch, hfar, rfl⟩)
      exact .inr ⟨_, h, by simp, .inl hencode⟩
    | noRoom h hplacing hcode hover =>
      exact .inr ⟨_, h, hplacing, .inr ⟨_, hcode, hover, rfl⟩⟩

end Refused

/-! ## Bytes -/

/-- The bytes of a line at a location; a line without statement has none. -/
def SourceLine.encode (labels : LabelTable) (c : Location) (l : SourceLine) :
    Except Fault (List UInt8) := do
  match ← l.statement with
  | none => .ok []
  | some statement => statement.encode labels c

theorem SourceLine.encode_of_some {labels : LabelTable} {c : Location} {l : SourceLine}
    {statement : Statement} (h : l.statement = .ok (some statement)) :
    l.encode labels c = statement.encode labels c := by
  rw [encode, h]
  rfl

/-- What a line without fault does to the image, an origin included: it writes the bytes of the
line from the location on. -/
theorem Emission.image_of_line {labels : LabelTable} {l : SourceLine} {e u : Emission}
    (h : line labels l e = (u, none)) :
    ∃ bytes, l.encode labels e.location = .ok bytes ∧
      u.image = e.image.writeAll (bytes.zipIdx e.location) := by
  obtain ⟨hnone, rfl⟩ | ⟨address, horigin, rfl⟩ | ⟨statement, bytes, hsome, -, hcode, -, rfl⟩ :=
    line_eq_none h
  · refine ⟨[], ?_, rfl⟩
    rw [SourceLine.encode, hnone]
    rfl
  · exact ⟨[], SourceLine.encode_of_some horigin, rfl⟩
  · exact ⟨bytes, (SourceLine.encode_of_some hsome).trans hcode, image_foldl_put _ _⟩

/-- Bytes in a row fill the cells from the first on, as far as the image goes. -/
theorem Image.getElem?_writeAll_zipIdx (m : Image) (bytes : List UInt8) (start a : Nat) :
    (m.writeAll (bytes.zipIdx start)).toList[a]? =
      if start ≤ a ∧ a < start + bytes.length ∧ a < m.capacity then bytes[a - start]?
      else m.toList[a]? := by
  rw [getElem?_toList, getElem?_toList, capacity_writeAll]
  by_cases hinside : a < m.capacity
  · rw [if_pos hinside, if_pos hinside, read_writeAll m _ hinside, lastWritten?_zipIdx]
    by_cases hstart : start ≤ a
    · rw [if_pos hstart]
      by_cases hstop : a < start + bytes.length
      · have hindex : a - start < bytes.length := by omega
        rw [if_pos ⟨hstart, hstop, hinside⟩, List.getElem?_eq_getElem hindex, Option.getD_some]
      · have hindex : bytes.length ≤ a - start := by omega
        rw [if_neg fun hand => hstop hand.2.1, List.getElem?_eq_none hindex, Option.getD_none]
    · rw [if_neg hstart, if_neg fun hand => hstart hand.1, Option.getD_none]
  · rw [if_neg hinside, if_neg fun hand => hinside hand.2.2, if_neg hinside]

/-! ## All or nothing -/

/-- `Emission.line` is at fault exactly for a `Refusal`, and then neither the location nor the image
changes. Otherwise the bytes of the line stand in the cells from the location on, and every cell
before or behind them is as it was. -/
theorem line_all_or_nothing (labels : LabelTable) (l : SourceLine) (e : Emission) :
    (∀ fault, (Emission.line labels l e).2 = some fault ↔ Refusal labels e.location l fault) ∧
    (∀ u fault, Emission.line labels l e = (u, some fault) →
      u.location = e.location ∧ u.image = e.image) ∧
    ∀ u, Emission.line labels l e = (u, none) →
      ∃ bytes, l.encode labels e.location = .ok bytes ∧
        (∀ a, a < e.location ∨ e.location + bytes.length ≤ a →
          u.image.toList[a]? = e.image.toList[a]?) ∧
        ∀ i, i < bytes.length → e.location + i < e.image.capacity →
          u.image.toList[e.location + i]? = bytes[i]? := by
  refine ⟨fun fault => Emission.line_fault_iff_refusal, fun u fault => Emission.line_of_fault, ?_⟩
  intro u h
  obtain ⟨bytes, hcode, himage⟩ := Emission.image_of_line h
  refine ⟨bytes, hcode, ?_, ?_⟩
  · intro a hout
    rw [himage, Image.getElem?_writeAll_zipIdx]
    apply if_neg
    rintro ⟨hstart, hstop, -⟩
    obtain hbefore | hbehind := hout
    · exact Nat.not_le.mpr hbefore hstart
    · exact Nat.not_le.mpr hstop hbehind
  · intro i hi hinside
    have hstop : e.location + i < e.location + bytes.length := Nat.add_lt_add_left hi _
    rw [himage, Image.getElem?_writeAll_zipIdx, if_pos ⟨Nat.le_add_right _ _, hstop, hinside⟩,
      Nat.add_sub_cancel_left]

/-- A list of words whose second entry is unknown, and a word of which half falls outside. -/
theorem line_all_or_nothing_at_end :
    let e : Emission := ⟨3, ⟨#[9, 9, 9, 9], 5⟩, #[]⟩
    let refused := SourceLine.ofText 1 ".WORD 1, gone".toList
    let placed := SourceLine.ofText 2 ".WORD $0102".toList
    let u := (Emission.line .empty refused e).1
    let v := (Emission.line .empty placed e).1
    Refusal .empty 3 refused (.unknownLabel "gone".toList) ∧
      u.location = 3 ∧ u.image = e.image ∧
      (∀ a, a < 3 ∨ 5 ≤ a → v.image.toList[a]? = e.image.toList[a]?) ∧
      v.image.toList[3]? = some 2 := by
  intro e refused placed u v
  have hrefused : Emission.line .empty refused e = (u, some (.unknownLabel "gone".toList)) :=
    Prod.ext rfl (by decide)
  have hplaced : Emission.line .empty placed e = (v, none) := Prod.ext rfl (by decide)
  have hcode : placed.encode .empty 3 = .ok [2, 1] := by decide
  obtain ⟨hcause, hstays, -⟩ := line_all_or_nothing .empty refused e
  obtain ⟨-, -, hwrites⟩ := line_all_or_nothing .empty placed e
  obtain ⟨hlocation, himage⟩ := hstays u _ hrefused
  obtain ⟨bytes, hbytes, hout, hin⟩ := hwrites v hplaced
  obtain rfl : [2, 1] = bytes := Except.ok.inj (hcode.symm.trans hbytes)
  exact ⟨(hcause _).mp (by rw [hrefused]), hlocation, himage, hout, hin 0 (by decide) (by decide)⟩

end Asm6502
