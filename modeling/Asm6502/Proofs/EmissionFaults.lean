import Asm6502.Proofs.Emission
import Asm6502.Proofs.Survey

/-!
What the emission can find at fault once the survey has found nothing: a name that no line
defines, or a branch out of reach. All else that could go wrong was already asked of the same
lines at the same locations.
-/

namespace Asm6502

/-! ## Faults by their rules -/

/-- The faults of a line at a location when the survey has passed it. Of several undefined names
the first one counts. -/
inductive EmissionFault (lines : List SourceLine) (labels : LabelTable) (c : Location)
    (l : SourceLine) : Fault → Prop
  | undefinedName {statement : Statement} {name : Text}
      (hstatement : l.statement = .ok (some statement))
      (hname : statement.names.find? (fun n => ∀ m ∈ lines, m.label ≠ some n) = some name) :
      EmissionFault lines labels c l (.unknownLabel name)
  | farBranch {i : Instruction} {target : Int}
      (hstatement : l.statement = .ok (some (.instruction i)))
      (hbranch : i.mnemonic.isBranch = true)
      (htarget : i.operand.number? labels = some target)
      (hfar : Far (target - (c + 2))) :
      EmissionFault lines labels c l
        (.branchOutOfRange ((target - (c + 2)).bmod 0x100000000))

/-- Some fault is there exactly when an undefined name is mentioned or a branch is out of reach. -/
theorem exists_emissionFault_iff {lines : List SourceLine} {labels : LabelTable} {c : Location}
    {l : SourceLine} :
    (∃ f, EmissionFault lines labels c l f) ↔
      (∃ statement name, l.statement = .ok (some statement) ∧ name ∈ statement.names ∧
        ∀ m ∈ lines, m.label ≠ some name) ∨
      ∃ i target, l.statement = .ok (some (.instruction i)) ∧ i.mnemonic.isBranch = true ∧
        i.operand.number? labels = some target ∧ Far (target - (c + 2)) := by
  constructor
  · rintro ⟨f, ⟨hstatement, hname⟩ | ⟨hstatement, hbranch, htarget, hfar⟩⟩
    · exact .inl ⟨_, _, hstatement, List.mem_of_find?_eq_some hname, by
        simpa using List.find?_some hname⟩
    · exact .inr ⟨_, _, hstatement, hbranch, htarget, hfar⟩
  · rintro (⟨statement, name, hstatement, hmem, hundefined⟩ |
      ⟨i, target, hstatement, hbranch, htarget, hfar⟩)
    · have hsome : (statement.names.find? fun n => ∀ m ∈ lines, m.label ≠ some n).isSome := by
        rw [List.find?_isSome]
        exact ⟨name, hmem, by simpa using hundefined⟩
      obtain ⟨first, hfirst⟩ := Option.isSome_iff_exists.mp hsome
      exact ⟨_, .undefinedName hstatement hfirst⟩
    · exact ⟨_, .farBranch hstatement hbranch htarget hfar⟩

/-! ## Lines that the survey has passed -/

/-- Where the survey has passed a line, its statement has room. -/
theorem Survey.Passes.room {l : SourceLine} {s u : Survey} {statement : Statement}
    (h : Survey.Passes l s u) (hfits : s.location ≤ Location.limit)
    (hstatement : l.statement = .ok (some statement))
    (hplacing : ∀ address, statement ≠ .origin address) :
    s.location + statement.size ≤ Location.limit := by
  have hle := h.fits hfits
  rw [h.location, l.locationAfter_of_placing _ hstatement hplacing] at hle
  exact hle

/-- What `Emission.line` finds in a line is its `EmissionFault`, if the survey of all lines passed
it at the same location. -/
theorem line_fault_iff_emissionFault {lines : List SourceLine} {start : UInt16}
    {survey s u : Survey} {l : SourceLine} {e : Emission} {f : Fault}
    (hcovers : Survey.Covers start lines survey) (hpasses : Survey.Passes l s u)
    (hfits : s.location ≤ Location.limit) (hlocation : e.location = s.location) :
    (Emission.line survey.labels l e).2 = some f ↔
      EmissionFault lines survey.labels s.location l f := by
  have hnames : (fun n => decide (survey.labels.find? n = none)) =
      fun n => decide (∀ m ∈ lines, m.label ≠ some n) := by
    funext n
    rw [decide_eq_decide]
    exact hcovers.find?_eq_none_iff n
  have hencode : ∀ statement, l.statement = .ok (some statement) →
      (statement.encode survey.labels s.location = .error f ↔
        EmissionFault lines survey.labels s.location l f) := by
    intro statement hstatement
    rw [Statement.encode_eq_error (fun i hi => hpasses.encodable i (hi ▸ hstatement)), hnames]
    constructor
    · rintro (⟨name, hname, rfl⟩ | ⟨i, target, rfl, htarget, hbranch, hfar, rfl⟩)
      · exact .undefinedName hstatement hname
      · rw [distance_eq hfits (Operand.number?_bounds htarget)] at hfar ⊢
        exact .farBranch hstatement hbranch htarget hfar
    · rintro (⟨hstatement', hname⟩ | ⟨hstatement', hbranch, htarget, hfar⟩)
      · rw [hstatement] at hstatement'
        cases hstatement'
        exact .inl ⟨_, hname, rfl⟩
      · rw [hstatement] at hstatement'
        cases hstatement'
        rw [← distance_eq hfits (Operand.number?_bounds htarget)] at hfar ⊢
        exact .inr ⟨_, _, rfl, htarget, hbranch, hfar, rfl⟩
  rw [Emission.line_fault, hlocation]
  constructor
  · rintro (hunread | ⟨statement, hstatement, hplacing, hrefused | ⟨bytes, hbytes, hover, -⟩⟩)
    · obtain ⟨statement, hread⟩ := hpasses.readable
      rw [hunread] at hread
      cases hread
    · exact (hencode statement hstatement).mp hrefused
    · rw [Statement.length_encode hbytes] at hover
      exact absurd (hpasses.room hfits hstatement hplacing) (Nat.not_le.mpr hover)
  · intro hfault
    obtain ⟨statement, hstatement⟩ : ∃ statement, l.statement = .ok (some statement) := by
      cases hfault with
      | undefinedName hstatement _ => exact ⟨_, hstatement⟩
      | farBranch hstatement _ _ _ => exact ⟨_, hstatement⟩
    have hrefused := (hencode statement hstatement).mpr hfault
    refine .inr ⟨statement, hstatement, ?_, .inl hrefused⟩
    rintro address rfl
    cases hrefused

/-! ## The whole emission -/

/-- After a `Survey` without fault, the `Emission` fails exactly when some line mentions a name that
no line defines or branches out of reach; the first such line is reported with its `EmissionFault`,
and no other kind of fault arises. -/
theorem emission_faults (lines : List SourceLine) (start : UInt16) (capacity : Nat)
    (survey : Survey) (h : Survey.run lines start = (survey, none)) :
    ((Emission.run ⟨capacity, start⟩ survey.labels lines).2 ≠ none ↔
      ∃ before l after, lines = before ++ l :: after ∧
        ((∃ statement name, l.statement = .ok (some statement) ∧ name ∈ statement.names ∧
          ∀ m ∈ lines, m.label ≠ some name) ∨
        ∃ i target, l.statement = .ok (some (.instruction i)) ∧ i.mnemonic.isBranch = true ∧
          i.operand.number? survey.labels = some target ∧
          Far (target - (Location.behind start.toNat before + 2)))) ∧
    (∀ fault, (Emission.run ⟨capacity, start⟩ survey.labels lines).2 = some fault ↔
      FirstFault (fun before => EmissionFault lines survey.labels
        (Location.behind start.toNat before)) lines fault) ∧
    (∀ fault, (Emission.run ⟨capacity, start⟩ survey.labels lines).2 = some fault →
      (∃ name, fault.fault = .unknownLabel name) ∨
        ∃ distance, fault.fault = .branchOutOfRange distance) := by
  have hjudge : ∀ before l after e f, lines = before ++ l :: after →
      walk (Emission.line survey.labels) before (Emission.initial ⟨capacity, start⟩) = (e, none) →
      ((Emission.line survey.labels l e).2 = some f ↔
        EmissionFault lines survey.labels (Location.behind start.toNat before) l f) := by
    intro before l after e f hsplit he
    have hsplit' := h
    rw [hsplit] at hsplit'
    obtain ⟨s, u, -, -, hs, hpasses⟩ := Survey.run_split hsplit'
    have hlocation : e.location = s.location := by
      rw [(Emission.run_eq_none he).location, hs.location]
    rw [line_fault_iff_emissionFault (Survey.run_eq_none h) hpasses hs.fits hlocation,
      hs.location]
  have hfirst := walk_fault_iff hjudge
  refine ⟨?_, hfirst, ?_⟩
  · simp only [← exists_emissionFault_iff]
    refine (not_congr (walk_faultless_iff hjudge)).trans ?_
    simp
  · intro fault hfault
    obtain ⟨before, l, after, -, -, hl, -⟩ := (hfirst fault).mp hfault
    generalize fault.fault = f at hl
    cases hl with
    | undefinedName _ _ => exact .inl ⟨_, rfl⟩
    | farBranch _ _ _ _ => exact .inr ⟨_, rfl⟩

/-- Two unknown names on a line, before a branch out of reach. -/
theorem emission_faults_at_unknown_name :
    let lines := SourceLine.listing "loop: JMP loop\n.WORD loop, gone, lost\nBNE $2000".toList
    let survey := (Survey.run lines 0x1000).1
    Survey.run lines 0x1000 = (survey, none) ∧
      FirstFault (fun before => EmissionFault lines survey.labels (Location.behind 0x1000 before))
        lines ⟨2, .unknownLabel "gone".toList⟩ := by
  intro lines survey
  have hsurvey : Survey.run lines 0x1000 = (survey, none) := Prod.ext rfl (by decide)
  obtain ⟨-, hfirst, -⟩ := emission_faults lines 0x1000 8 survey hsurvey
  exact ⟨hsurvey, (hfirst _).mp (by decide)⟩

end Asm6502
