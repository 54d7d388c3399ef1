import Asm6502.Proofs.ImageContents
import Asm6502.Proofs.Reading
import Asm6502.Proofs.Survey

/-!
The address space is never left. In every state that a pass comes to, also where it stops at a
fault, the location counter is inside the space or right behind it, and it is behind it only after
a byte at the last address; labels and bytes lie inside.
-/

namespace Asm6502

/-! ## Behind the last address -/

/-- The last statement of the lines, no origin, takes room up to the last address. -/
def FillsSpace (start : UInt16) (lines : List SourceLine) : Prop :=
  ∃ before l after statement, lines = before ++ l :: after ∧
    l.statement = .ok (some statement) ∧ (∀ address, statement ≠ .origin address) ∧
    0 < statement.size ∧ Location.behind start.toNat before + (statement.size - 1) = 0xFFFF ∧
    ∀ m ∈ after, ∀ statement', m.statement ≠ .ok (some statement')

theorem Location.last_byte_iff {c size : Nat} (h : 0 < size) :
    c + (size - 1) = 0xFFFF ↔ c + size = limit := by
  unfold limit
  omega

theorem SourceLine.locationAfter_of_no_statement {l : SourceLine} (c : Location)
    (h : ∀ statement, l.statement ≠ .ok (some statement)) : l.locationAfter c = c := by
  unfold locationAfter
  split
  · rename_i horigin
    exact absurd horigin (h _)
  · rename_i hplacing
    exact absurd hplacing (h _)
  · rfl

theorem Location.behind_of_no_statement {lines : List SourceLine} (c : Location)
    (h : ∀ l ∈ lines, ∀ statement, l.statement ≠ .ok (some statement)) : c.behind lines = c := by
  induction lines with
  | nil => rfl
  | cons l lines ih =>
    have hl := h l List.mem_cons_self
    have hlines := fun m hm => h m (List.mem_cons_of_mem l hm)
    rw [behind_cons, l.locationAfter_of_no_statement c hl]
    exact ih hlines

theorem FillsSpace.behind_eq {start : UInt16} {lines : List SourceLine}
    (h : FillsSpace start lines) : Location.behind start.toNat lines = Location.limit := by
  obtain ⟨before, l, after, statement, rfl, hstatement, hplacing, hpos, hlast, hafter⟩ := h
  rw [Location.behind_append, Location.behind_cons, Location.behind_of_no_statement _ hafter,
    l.locationAfter_of_placing _ hstatement hplacing]
  exact (Location.last_byte_iff hpos).mp hlast

theorem FillsSpace.concat {start : UInt16} {lines : List SourceLine} {l : SourceLine}
    (h : FillsSpace start lines) (hl : ∀ statement, l.statement ≠ .ok (some statement)) :
    FillsSpace start (lines ++ [l]) := by
  obtain ⟨before, m, after, statement, rfl, hstatement, hplacing, hpos, hlast, hafter⟩ := h
  refine ⟨before, m, after ++ [l], statement, by simp, hstatement, hplacing, hpos, hlast, ?_⟩
  intro m' hm'
  obtain hm' | hm' := List.mem_append.mp hm'
  · exact hafter m' hm'
  · rw [List.mem_singleton.mp hm']
    exact hl

theorem fillsSpace_of_behind_eq {start : UInt16} {lines : List SourceLine}
    (h : Location.behind start.toNat lines = Location.limit) : FillsSpace start lines := by
  induction lines using List.reverseRecOn with
  | nil => exact absurd h (Nat.ne_of_lt (Location.toNat_lt_limit start))
  | append_singleton lines l ih =>
    rw [Location.behind_append, Location.behind_cons, Location.behind_nil] at h
    by_cases hl : ∃ statement, l.statement = .ok (some statement)
    · obtain ⟨statement, hstatement⟩ := hl
      by_cases horigin : ∃ address, statement = .origin address
      · obtain ⟨address, rfl⟩ := horigin
        rw [l.locationAfter_of_origin _ hstatement] at h
        exact absurd h (Nat.ne_of_lt (Location.toNat_lt_limit address))
      · have hplacing : ∀ address, statement ≠ .origin address := not_exists.mp horigin
        have hpos := SourceLine.size_pos hstatement hplacing
        rw [l.locationAfter_of_placing _ hstatement hplacing] at h
        exact ⟨lines, l, [], statement, rfl, hstatement, hplacing, hpos,
          (Location.last_byte_iff hpos).mpr h, by simp⟩
    · have hno : ∀ statement, l.statement ≠ .ok (some statement) := not_exists.mp hl
      rw [l.locationAfter_of_no_statement _ hno] at h
      exact (ih h).concat hno

theorem behind_eq_limit_iff {start : UInt16} {lines : List SourceLine} :
    Location.behind start.toNat lines = Location.limit ↔ FillsSpace start lines :=
  ⟨fillsSpace_of_behind_eq, FillsSpace.behind_eq⟩

/-! ## The survey -/

namespace Survey

/-- A line adds at most its own label, at the location before it, whether or not it is at fault. -/
theorem line_entries {l : SourceLine} {s u : Survey} {f : Option Fault} (h : line l s = (u, f)) :
    ∀ label ∈ u.labels.entries, label ∈ s.labels.entries ∨
      (l.label = some label.name ∧ label.address.toNat = s.location) := by
  have hdefined : ∀ t, s.defineLabel l = .ok t → ∀ label ∈ t.labels.entries,
      label ∈ s.labels.entries ∨
        (l.label = some label.name ∧ label.address.toNat = s.location) := by
    intro t ht label hlabel
    obtain ⟨-, hentries, hlabelled⟩ := defineLabel_eq_ok ht
    rw [hentries, List.mem_append, Option.mem_toList, SourceLine.definition?] at hlabel
    obtain hold | hnew := hlabel
    · exact .inl hold
    · obtain ⟨name, hname, rfl⟩ := Option.map_eq_some_iff.mp hnew
      obtain ⟨hlt, -⟩ := hlabelled name hname
      exact .inr ⟨hname, UInt16.toNat_ofNat_of_lt' hlt⟩
  unfold line at h
  rcases hdefine : s.defineLabel l with fault | t
  · rw [hdefine] at h
    cases h
    exact fun label hlabel => .inl hlabel
  rcases hreserve : t.reserve l with fault | v
  · simp only [hdefine, hreserve, Prod.mk.injEq] at h
    obtain ⟨rfl, -⟩ := h
    exact hdefined t hdefine
  · simp only [hdefine, hreserve, Prod.mk.injEq] at h
    obtain ⟨rfl, -⟩ := h
    have hlabels : v.labels = t.labels := by
      obtain ⟨-, rfl⟩ | ⟨statement, d, -, -, rfl⟩ := reserve_eq_ok hreserve <;> rfl
    rw [hlabels]
    exact hdefined t hdefine

theorem line_location_of_fault {l : SourceLine} {s u : Survey} {f : Fault}
    (h : line l s = (u, some f)) : u.location = s.location := by
  unfold line at h
  rcases hdefine : s.defineLabel l with fault | t
  · rw [hdefine] at h
    cases h
    rfl
  rcases hreserve : t.reserve l with fault | v
  · simp only [hdefine, hreserve, Prod.mk.injEq] at h
    obtain ⟨rfl, -⟩ := h
    exact (defineLabel_eq_ok hdefine).1
  · simp [hdefine, hreserve] at h

/-- Each label in the table is that of a line, at the location to which the lines before it lead. -/
def Placed (start : UInt16) (lines : List SourceLine) (labels : LabelTable) : Prop :=
  ∀ label ∈ labels.entries, ∃ before l after, lines = before ++ l :: after ∧
    l.label = some label.name ∧ label.address.toNat = Location.behind start.toNat before

theorem Placed.line {start : UInt16} {lines : List SourceLine} {l : SourceLine} {s u : Survey}
    {f : Option Fault} (h : Placed start lines s.labels)
    (hlocation : s.location = Location.behind start.toNat lines) (hline : line l s = (u, f)) :
    Placed start (lines ++ [l]) u.labels := by
  intro label hlabel
  obtain hold | ⟨hname, haddress⟩ := line_entries hline label hlabel
  · obtain ⟨before, m, after, rfl, hname, haddress⟩ := h label hold
    exact ⟨before, m, after ++ [l], by simp, hname, haddress⟩
  · exact ⟨lines, l, [], rfl, hname, by rw [haddress, hlocation]⟩

theorem placed_of_run_eq_none {start : UInt16} {lines : List SourceLine} {s : Survey}
    (h : run lines start = (s, none)) : Placed start lines s.labels := by
  have hboth : Placed start lines s.labels ∧
      s.location = Location.behind start.toNat lines := by
    apply walk_keeps (fun ls t => Placed start ls t.labels ∧
      t.location = Location.behind start.toNat ls) ?_ ?_ h
    · exact ⟨by simp [Placed, initial, LabelTable.empty], rfl⟩
    · rintro ls l t u ⟨ht, hlocation⟩ hl
      refine ⟨ht.line hlocation hl, ?_⟩
      rw [(passes_of_line_eq_none hl).location, hlocation, Location.behind_append]
      rfl
  exact hboth.1

end Survey

/-! ## All states -/

theorem Survey.run_state {lines : List SourceLine} {start : UInt16} {s : Survey}
    {fault : Option LineFault} (h : run lines start = (s, fault)) :
    ∃ passed rest t, lines = passed ++ rest ∧ run passed start = (t, none) ∧
      (∀ l rest', rest = l :: rest' → (line l t).2 ≠ none) ∧ s.location = t.location ∧
      Placed start lines s.labels := by
  obtain ⟨passed, rest, t, rfl, hpassed, ⟨rfl, rfl⟩ | ⟨l, rest', f, rfl, hl⟩⟩ := walk_stops h
  · refine ⟨passed, [], s, rfl, hpassed, by simp, rfl, ?_⟩
    rw [List.append_nil]
    exact placed_of_run_eq_none hpassed
  · have hplaced : Placed start (passed ++ [l]) s.labels :=
      (placed_of_run_eq_none hpassed).line (run_eq_none hpassed).location hl
    refine ⟨passed, l :: rest', t, rfl, hpassed, ?_, line_location_of_fault hl, ?_⟩
    · rintro m rest'' ⟨⟩
      simp [hl]
    · intro label hlabel
      obtain ⟨before, m, after, hsplit, hname, haddress⟩ := hplaced label hlabel
      exact ⟨before, m, after ++ rest', by rw [List.append_cons, hsplit]; simp, hname, haddress⟩

theorem Emission.run_state {config : Config} {labels : LabelTable} {lines : List SourceLine}
    {e : Emission} {fault : Option LineFault} (h : run config labels lines = (e, fault)) :
    ∃ passed rest t, lines = passed ++ rest ∧ run config labels passed = (t, none) ∧
      (∀ l rest', rest = l :: rest' → (line labels l t).2 ≠ none) ∧
      e.location = t.location ∧ e.image = t.image := by
  obtain ⟨passed, rest, t, rfl, hpassed, ⟨rfl, rfl⟩ | ⟨l, rest', f, rfl, hl⟩⟩ := walk_stops h
  · exact ⟨passed, [], e, rfl, hpassed, by simp, rfl, rfl⟩
  · obtain ⟨hlocation, himage⟩ := line_of_fault hl
    refine ⟨passed, l :: rest', t, rfl, hpassed, ?_, hlocation, himage⟩
    rintro m rest'' ⟨⟩
    simp [hl]

theorem Emission.dropped_eq_zero {config : Config} {labels : LabelTable}
    {lines : List SourceLine} {e : Emission} (h : run config labels lines = (e, none))
    (hcapacity : Location.limit ≤ config.capacity) : e.image.dropped = 0 := by
  obtain ⟨cells, hcells, himage⟩ := (run_eq_none h).image
  have hinside := (run_eq_none h).inside cells hcells
  rw [himage, Image.dropped_writeAll, Image.capacity_blank]
  have hnone : cells.countP (fun cell => config.capacity ≤ cell.2) = 0 := by
    rw [List.countP_eq_zero]
    intro cell hcell
    have hlt := Nat.lt_of_lt_of_le (hinside cell hcell) hcapacity
    simp [hlt]
  rw [hnone]
  rfl

/-- Whatever lines a pass is given and wherever it stops, its location is that `behind` the lines it
has passed, at most `Location.limit` and there only if these lines fill the space (`FillsSpace`).
Labels and bytes have addresses inside, so a memory of the whole space loses nothing. The emission
may be given any labels. -/
theorem address_space (lines : List SourceLine) (start : UInt16) :
    (∀ s fault, Survey.run lines start = (s, fault) →
      ∃ passed rest t, lines = passed ++ rest ∧ Survey.run passed start = (t, none) ∧
        (∀ l rest', rest = l :: rest' → (Survey.line l t).2 ≠ none) ∧
        s.location = t.location ∧ s.location ≤ 0x10000 ∧
        (s.location = 0x10000 ↔ FillsSpace start passed) ∧
        ∀ label ∈ s.labels.entries, label.address.toNat ≤ 0xFFFF ∧
          ∃ before l after, lines = before ++ l :: after ∧ l.label = some label.name ∧
            label.address.toNat = Location.behind start.toNat before) ∧
    (∀ labels capacity e fault, Emission.run ⟨capacity, start⟩ labels lines = (e, fault) →
      ∃ passed rest t cells, lines = passed ++ rest ∧
        Emission.run ⟨capacity, start⟩ labels passed = (t, none) ∧
        (∀ l rest', rest = l :: rest' → (Emission.line labels l t).2 ≠ none) ∧
        e.location = t.location ∧ e.location ≤ 0x10000 ∧
        (e.location = 0x10000 ↔ FillsSpace start passed) ∧
        Location.cells? labels start.toNat passed = some cells ∧
        e.image = (Image.blank capacity).writeAll cells ∧ ∀ cell ∈ cells, cell.2 ≤ 0xFFFF) ∧
    (∀ labels capacity e fault, 0x10000 ≤ capacity →
      Emission.run ⟨capacity, start⟩ labels lines = (e, fault) → e.image.dropped = 0) ∧
    (∀ capacity a, 0x10000 ≤ capacity →
      (Assembly.ofLines ⟨capacity, start⟩ lines).result = .ok a → a.image.dropped = 0) := by
  refine ⟨?_, ?_, ?_, ?_⟩
  · intro s fault h
    obtain ⟨passed, rest, t, hsplit, hpassed, hrest, hlocation, hplaced⟩ := Survey.run_state h
    have hcovers := Survey.run_eq_none hpassed
    refine ⟨passed, rest, t, hsplit, hpassed, hrest, hlocation, ?_, ?_, ?_⟩
    · rw [hlocation]
      exact hcovers.fits
    · rw [hlocation, hcovers.location]
      exact behind_eq_limit_iff
    · intro label hlabel
      exact ⟨Nat.le_of_lt_succ label.address.toNat_lt, hplaced label hlabel⟩
  · intro labels capacity e fault h
    obtain ⟨passed, rest, t, hsplit, hpassed, hrest, hlocation, himage⟩ := Emission.run_state h
    have hcovers := Emission.run_eq_none hpassed
    obtain ⟨cells, hcells, hwritten⟩ := hcovers.image
    refine ⟨passed, rest, t, cells, hsplit, hpassed, hrest, hlocation, ?_, ?_, hcells, ?_, ?_⟩
    · rw [hlocation]
      exact hcovers.fits
    · rw [hlocation, hcovers.location]
      exact behind_eq_limit_iff
    · rw [himage, hwritten]
    · intro cell hcell
      exact Nat.le_of_lt_succ (hcovers.inside cells hcells cell hcell)
  · intro labels capacity e fault hcapacity h
    obtain ⟨passed, rest, t, -, hpassed, -, -, himage⟩ := Emission.run_state h
    rw [himage]
    exact Emission.dropped_eq_zero hpassed hcapacity
  · intro capacity a hcapacity h
    obtain ⟨survey, e, -, hemission, rfl⟩ := Assembly.ofLines_eq_ok.mp h
    exact Emission.dropped_eq_zero hemission hcapacity

/-- A label right behind a byte at the last address: the survey stops there, with the space full. -/
theorem address_space_filled :
    let lines := SourceLine.listing ".ORG $FFFE\nend: .BYTE 1, 2\n; full\nlate: NOP".toList
    let s := (Survey.run lines 0).1
    let fault : LineFault := ⟨4, .addressOverflow 0x10000⟩
    Survey.run lines 0 = (s, some fault) ∧ s.location = 0x10000 ∧
      (∃ passed rest, lines = passed ++ rest ∧ FillsSpace 0 passed) ∧
      (Emission.run ⟨0x10000, 0⟩ .empty lines).1.image.dropped = 0 := by
  intro lines s fault
  have hsurvey : Survey.run lines 0 = (s, some fault) := Prod.ext rfl (by decide)
  have hlocation : s.location = 0x10000 := by decide
  obtain ⟨hstates, -, hlossless, -⟩ := address_space lines 0
  obtain ⟨passed, rest, t, hsplit, -, -, -, -, hfills, -⟩ := hstates s (some fault) hsurvey
  exact ⟨hsurvey, hlocation, ⟨passed, rest, hsplit, hfills.mp hlocation⟩,
    hlossless .empty 0x10000 _ _ (by decide) rfl⟩

end Asm6502
