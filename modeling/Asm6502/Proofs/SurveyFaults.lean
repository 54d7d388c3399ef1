import Asm6502.Proofs.Emission
import Asm6502.Proofs.LabelTable
import Asm6502.Proofs.MachineCode
import Asm6502.Proofs.Reading
import Asm6502.Proofs.Survey

/-!
Which fault an assembly reports. A line can offend in five ways, looked for in a fixed order; the
survey reports the first offending line with its first offence, and what it reports is what the
assembly reports.
-/

namespace Asm6502

/-! ## The documented instructions -/

theorem mem_instructionSet_iff {m : Mnemonic} {mode : Mode} :
    (m, mode) ∈ instructionSet.map (fun entry => (entry.1, entry.2.1)) ↔
      ∃ code, m.opcode? mode = some code := by
  rw [← Option.isSome_iff_exists, Mnemonic.opcode?, List.lookup_isSome_iff]
  simp only [instructionSet, List.mem_map, List.mem_flatMap]
  constructor
  · rintro ⟨entry, ⟨m', -, p, hp, rfl⟩, hentry⟩
    cases hentry
    exact ⟨p, hp, beq_self_eq_true _⟩
  · rintro ⟨p, hp, hmode⟩
    exact ⟨(m, p.1, p.2), ⟨m, m.mem_all, p, hp, rfl⟩, by rw [eq_of_beq hmode]⟩

/-! ## Offences -/

namespace SourceLine

/-- A label where the location counter stands one past the last address. -/
def labelOutside? (c : Location) (l : SourceLine) : Option Fault :=
  if l.label.isSome ∧ c = Location.limit then some (.addressOverflow Location.limit) else none

/-- A label that an earlier line has; the earliest of them is told. -/
def labelTaken? (earlier : List SourceLine) (l : SourceLine) : Option Fault := do
  let name ← l.label
  let first ← earlier.find? fun m => m.label = some name
  some (.duplicateLabel name first.number)

def unreadable? (l : SourceLine) : Option Fault :=
  match l.statement with
  | .error fault => some fault
  | .ok _ => none

/-- An instruction that is not documented. -/
def modeMissing? (l : SourceLine) : Option Fault :=
  match l.statement with
  | .ok (some (.instruction i)) =>
    if (i.mnemonic, i.mode) ∈ instructionSet.map (fun entry => (entry.1, entry.2.1)) then none
    else some (.invalidMode i.mnemonic i.mode)
  | _ => none

/-- A statement that goes beyond the last address. -/
def roomMissing? (c : Location) (l : SourceLine) : Option Fault :=
  match l.statement with
  | .ok (some statement) =>
    if Location.limit < c + statement.size then some (.addressOverflow (c + statement.size : Nat))
    else none
  | _ => none

/-- The first offence of a line at a location behind some earlier lines. -/
def offence? (earlier : List SourceLine) (c : Location) (l : SourceLine) : Option Fault :=
  ((l.labelOutside? c).or (l.labelTaken? earlier)).or
    ((l.unreadable?.or l.modeMissing?).or (l.roomMissing? c))

end SourceLine

/-! ## One line -/

namespace Survey

theorem defineLabel_eq_error {earlier : List SourceLine} {l : SourceLine} {s : Survey} {f : Fault}
    (hfits : s.location ≤ Location.limit)
    (htable : ∀ name, (s.labels.find? name).map Label.line =
      (earlier.find? fun m => m.label = some name).map SourceLine.number) :
    s.defineLabel l = .error f ↔
      (l.labelOutside? s.location).or (l.labelTaken? earlier) = some f := by
  unfold defineLabel SourceLine.labelOutside? SourceLine.labelTaken?
  cases l.label with
  | none => simp
  | some name =>
    by_cases hlimit : s.location = Location.limit
    · simp [bind_eq_error, Location.labelAddress, hlimit]
    · have hlt : s.location < Location.limit := Nat.lt_of_le_of_ne hfits hlimit
      cases hearlier : earlier.find? fun m => m.label = some name with
      | none =>
        simp [bind_eq_error, Location.labelAddress, hlt, hlimit, LabelTable.define_eq_error,
          htable, hearlier]
      | some first =>
        simp [bind_eq_error, Location.labelAddress, hlt, hlimit, LabelTable.define_eq_error,
          htable, hearlier, @eq_comm Fault f]

theorem locationAfter_eq_error {c : Location} {statement : Statement} {f : Fault} :
    locationAfter c statement = .error f ↔
      (∃ i, statement = .instruction i ∧ i.mnemonic.opcode? i.mode = none ∧
        f = .invalidMode i.mnemonic i.mode) ∨
      ((∀ i, statement = .instruction i → ∃ code, i.mnemonic.opcode? i.mode = some code) ∧
        (∀ address, statement ≠ .origin address) ∧ Location.limit < c + statement.size ∧
        f = .addressOverflow (c + statement.size : Nat)) := by
  cases statement with
  | instruction i =>
    simp only [locationAfter, bind_eq_error, Instruction.opcode]
    cases hcode : i.mnemonic.opcode? i.mode with
    | none => simp [hcode, eq_comm]
    | some code => simp [hcode, Location.advance_eq_error, Statement.size]
  | origin address => simp [locationAfter]
  | bytes values => simp [locationAfter, Location.advance_eq_error]
  | words entries => simp [locationAfter, Location.advance_eq_error]

theorem reserve_eq_error {l : SourceLine} {s : Survey} {f : Fault}
    (hfits : s.location ≤ Location.limit) :
    s.reserve l = .error f ↔
      (l.unreadable?.or l.modeMissing?).or (l.roomMissing? s.location) = some f := by
  simp only [reserve, bind_eq_error]
  unfold SourceLine.unreadable? SourceLine.modeMissing? SourceLine.roomMissing?
  rcases l.statement with f' | _ | statement
  · simp
  · simp
  · simp only [reduceCtorEq, false_or, Except.ok.injEq, exists_eq_left', bind_eq_error, and_false,
      exists_false, or_false, locationAfter_eq_error]
    by_cases hroom : Location.limit < s.location + statement.size
    all_goals
      cases statement with
      | instruction i =>
        cases hcode : i.mnemonic.opcode? i.mode with
        | none => simp [mem_instructionSet_iff, hcode, eq_comm]
        | some code => simp [mem_instructionSet_iff, hcode, hroom, eq_comm]
      | origin address => simp [Statement.size, Nat.not_lt.mpr hfits]
      | bytes values => simp [hroom, eq_comm]
      | words entries => simp [hroom, eq_comm]

/-- `Survey.line` finds in a line its `offence?`, if the table has the labels of the earlier lines.
-/
theorem line_fault_iff_offence {earlier : List SourceLine} {l : SourceLine} {s : Survey}
    {f : Fault} (hfits : s.location ≤ Location.limit)
    (htable : ∀ name, (s.labels.find? name).map Label.line =
      (earlier.find? fun m => m.label = some name).map SourceLine.number) :
    (line l s).2 = some f ↔ l.offence? earlier s.location = some f := by
  have hlabel : ∀ f', s.defineLabel l = .error f' ↔
      (l.labelOutside? s.location).or (l.labelTaken? earlier) = some f' :=
    fun f' => defineLabel_eq_error hfits htable
  rw [line_fault, SourceLine.offence?, Option.or_eq_some_iff, hlabel]
  apply or_congr Iff.rfl
  constructor
  · rintro ⟨t, hdefine, hreserve⟩
    obtain ⟨hlocation, -, -⟩ := defineLabel_eq_ok hdefine
    rw [reserve_eq_error (hlocation ▸ hfits), hlocation] at hreserve
    refine ⟨?_, hreserve⟩
    rcases hor : (l.labelOutside? s.location).or (l.labelTaken? earlier) with _ | f'
    · rfl
    · rw [(hlabel f').mpr hor] at hdefine
      cases hdefine
  · rintro ⟨hnone, hreserve⟩
    rcases hdefine : s.defineLabel l with f' | t
    · rw [(hlabel f').mp hdefine] at hnone
      cases hnone
    · obtain ⟨hlocation, -, -⟩ := defineLabel_eq_ok hdefine
      refine ⟨t, rfl, ?_⟩
      rw [reserve_eq_error (hlocation ▸ hfits), hlocation]
      exact hreserve

/-! ## All lines -/

theorem run_judged {lines : List SourceLine} {start : UInt16} :
    ∀ before l after s f, lines = before ++ l :: after →
      walk line before (initial start) = (s, none) →
      ((line l s).2 = some f ↔
        l.offence? before (Location.behind start.toNat before) = some f) := by
  intro before l after s f _ hs
  have hcovers := run_eq_none hs
  rw [line_fault_iff_offence hcovers.fits hcovers.find?_line, hcovers.location]

end Survey

/-- `Survey.run` fails exactly when some line has an `offence?`, with the first such line and its
first offence; and what the survey finds is what `ofSource` reports, whatever the emission would
have found. -/
theorem survey_faults (source : Text) (start : UInt16) :
    let lines := SourceLine.listing source
    let Offends := fun before (l : SourceLine) f =>
      l.offence? before (Location.behind start.toNat before) = some f
    ((Survey.run lines start).2 ≠ none ↔
      ∃ before l after f, lines = before ++ l :: after ∧ Offends before l f) ∧
    (∀ fault, (Survey.run lines start).2 = some fault ↔ FirstFault Offends lines fault) ∧
    (∀ before l after, lines = before ++ l :: after → l.number = before.length + 1) ∧
    (∀ before l after name first, lines = before ++ l :: after →
      l.labelTaken? before = some (.duplicateLabel name first) → first < l.number) ∧
    (∀ l ∈ lines, ∀ f, l.unreadable? = some f →
      (∃ word, f = .unknownInstruction word) ∨ (∃ text, f = .malformedLiteral text) ∨
        (l.operation = some ".ORG".toList ∧ ∃ v, f = .addressOverflow v ∧ (v < 0 ∨ 0xFFFF < v))) ∧
    (∀ capacity fault, (Survey.run lines start).2 = some fault →
      (Assembly.ofSource ⟨capacity, start⟩ source).result = .error fault) := by
  intro lines Offends
  refine ⟨?_, walk_fault_iff Survey.run_judged, ?_, ?_, ?_, ?_⟩
  · refine (not_congr (walk_faultless_iff Survey.run_judged)).trans ?_
    simp [Offends]
  · intro before l after hsplit
    exact SourceLine.number_listing hsplit
  · intro before l after name first hsplit htaken
    simp only [SourceLine.labelTaken?, Option.bind_eq_bind, Option.bind_eq_some_iff,
      Option.some.injEq, Fault.duplicateLabel.injEq] at htaken
    obtain ⟨name', -, m, hm, -, rfl⟩ := htaken
    obtain ⟨before', after', rfl⟩ := List.append_of_mem (List.mem_of_find?_eq_some hm)
    have hnumber := SourceLine.number_listing hsplit
    rw [List.append_assoc] at hsplit
    have hearlier := SourceLine.number_listing hsplit
    rw [hnumber, hearlier, List.length_append, List.length_cons]
    omega
  · intro l _ f hunread
    apply SourceLine.statement_eq_error
    unfold SourceLine.unreadable? at hunread
    split at hunread
    · rename_i hstatement
      cases hunread
      exact hstatement
    · cases hunread
  · intro capacity fault hfault
    exact Assembly.ofLines_eq_error.mpr (.inl hfault)

-- the unknown name on the first line would end the emission, but the survey comes before it
example : (Assembly.ofSource ⟨4, 0⟩ "JMP nowhere\nx: NOP\nx: FOO".toList).result =
    .error ⟨3, .duplicateLabel "x".toList 2⟩ := by decide

end Asm6502
