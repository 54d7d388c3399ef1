import Asm6502.Proofs.Emission
import Asm6502.Proofs.Survey

/-!
The two passes agree. Both count the running location, the survey by the sizes of statements and
the emission by the bytes it has made, so a label has in the table the address at which the
emission meets its line.
-/

namespace Asm6502

/-- After a `Survey` without fault, the `Emission` is where the survey was after the same lines;
each statement that places bytes places as many as the survey made room for; and a name means,
wherever it is used, the address at which the emission meets the line that has it as its label. -/
theorem passes_agree (lines : List SourceLine) (start : UInt16) (capacity : Nat) (survey : Survey)
    (h : Survey.run lines start = (survey, none)) :
    (∀ before after e, lines = before ++ after →
      Emission.run ⟨capacity, start⟩ survey.labels before = (e, none) →
      ∃ s, Survey.run before start = (s, none) ∧ e.location = s.location) ∧
    (∀ before l after statement e e', lines = before ++ l :: after →
      l.statement = .ok (some statement) → (∀ address, statement ≠ .origin address) →
      Emission.run ⟨capacity, start⟩ survey.labels before = (e, none) →
      Emission.line survey.labels l e = (e', none) →
      ∃ s s' bytes, Survey.run before start = (s, none) ∧
        Survey.run (before ++ [l]) start = (s', none) ∧
        statement.encode survey.labels e.location = .ok bytes ∧
        e'.image = e.image.writeAll (bytes.zipIdx e.location) ∧
        s'.location = s.location + bytes.length) ∧
    (∀ before l after name, lines = before ++ l :: after → l.label = some name →
      ∃ s address later, Survey.run before start = (s, none) ∧
        survey.labels.entries = s.labels.entries ++ ⟨name, address, l.number⟩ :: later ∧
        (∀ e, Emission.run ⟨capacity, start⟩ survey.labels before = (e, none) →
          e.location = address.toNat) ∧
        (Operand.label name).resolve survey.labels = .ok address.toNat) := by
  -- both counters are the running location
  have hcounters : ∀ before s e, Survey.run before start = (s, none) →
      Emission.run ⟨capacity, start⟩ survey.labels before = (e, none) →
      e.location = s.location := by
    intro before s e hs he
    rw [(Emission.run_eq_none he).location, (Survey.run_eq_none hs).location]
  refine ⟨?_, ?_, ?_⟩
  · rintro before after e rfl he
    obtain ⟨s, hs, -⟩ := walk_append_eq_none.mp h
    exact ⟨s, hs, hcounters before s e hs he⟩
  · rintro before l after statement e e' rfl hstatement hplacing he he'
    obtain ⟨s, s', hs, hs', -, hpasses⟩ := Survey.run_split h
    obtain ⟨hnone, -⟩ | ⟨address, horigin, -⟩ |
      ⟨statement', bytes, hsome, -, hencode, -, rfl⟩ := Emission.line_eq_none he'
    · rw [hstatement] at hnone
      cases hnone
    · rw [hstatement] at horigin
      cases horigin
      exact absurd rfl (hplacing address)
    · rw [hstatement] at hsome
      cases hsome
      refine ⟨s, s', bytes, hs, hs', hencode, Emission.image_foldl_put _ _, ?_⟩
      rw [hpasses.location, l.locationAfter_of_placing _ hstatement hplacing,
        Statement.length_encode hencode]
  · rintro before l after name rfl hname
    obtain ⟨s, address, later, hs, hlocation, hentries, hfind⟩ := Survey.run_label h hname
    refine ⟨s, address, later, hs, hentries, ?_, ?_⟩
    · intro e he
      rw [hcounters before s e hs he, hlocation]
    · simp [Operand.resolve, LabelTable.address?, hfind]

/-- A name used before the line that defines it, and one used behind it. -/
theorem passes_agree_on_references :
    let lines := SourceLine.listing "JMP end\nloop: BNE loop\nend: .WORD loop, end".toList
    let survey := (Survey.run lines 0x1000).1
    let e := (Emission.run ⟨8, 0x1000⟩ survey.labels (lines.take 2)).1
    Survey.run lines 0x1000 = (survey, none) ∧
      Emission.run ⟨8, 0x1000⟩ survey.labels (lines.take 2) = (e, none) ∧
      e.location = 0x1005 ∧
      (∃ s, Survey.run (lines.take 2) 0x1000 = (s, none) ∧ e.location = s.location) ∧
      ∃ address : UInt16, e.location = address.toNat ∧
        (Operand.label "end".toList).resolve survey.labels = .ok address.toNat := by
  intro lines survey e
  have hsurvey : Survey.run lines 0x1000 = (survey, none) := Prod.ext rfl (by decide)
  have he : Emission.run ⟨8, 0x1000⟩ survey.labels (lines.take 2) = (e, none) :=
    Prod.ext rfl (by decide)
  obtain ⟨hcounters, -, hlabels⟩ := passes_agree lines 0x1000 8 survey hsurvey
  obtain ⟨s, address, later, -, -, hmet, hmeans⟩ := hlabels (lines.take 2)
    ⟨3, some "end".toList, some ".WORD".toList, "loop, end".toList⟩ [] "end".toList (by decide) rfl
  exact ⟨hsurvey, he, by decide, hcounters (lines.take 2) (lines.drop 2) e (by decide) he,
    address, hmet e he, hmeans⟩

end Asm6502
