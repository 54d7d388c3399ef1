import Asm6502.Proofs.Acceptance
import Asm6502.Proofs.ImageContents

/-!
The capacity only clips. It takes no part in addresses, labels or faults: of two images of one
source, the smaller one is the beginning of the larger one, and what it has lost besides are the
bytes between the two ends.
-/

namespace Asm6502

/-! ## Images of two capacities -/

namespace Image

variable {small large : Nat}

theorem toList_writeAll_blank (h : small ≤ large) (cells : List (UInt8 × Nat)) :
    ((blank small).writeAll cells).toList = ((blank large).writeAll cells).toList.take small := by
  have hread : ∀ capacity a, a < capacity →
      ((blank capacity).writeAll cells).read a = (lastWritten? cells a).getD 0 := by
    intro capacity a ha
    rw [read_writeAll _ _ (by rw [capacity_blank]; exact ha), read_blank]
  apply List.ext_getElem?
  intro a
  rw [List.getElem?_take, getElem?_toList, getElem?_toList]
  simp only [capacity_writeAll, capacity_blank]
  by_cases ha : a < small
  · have hlarge : a < large := Nat.lt_of_lt_of_le ha h
    rw [if_pos ha, if_pos ha, if_pos hlarge, hread small a ha, hread large a hlarge]
  · rw [if_neg ha, if_neg ha]

/-- A byte that the small image loses is lost by the large one too, or lies between the ends. -/
theorem countP_beyond (h : small ≤ large) (cells : List (UInt8 × Nat)) :
    cells.countP (fun cell => small ≤ cell.2) =
      cells.countP (fun cell => large ≤ cell.2) +
        cells.countP fun cell => small ≤ cell.2 ∧ cell.2 < large := by
  induction cells with
  | nil => rfl
  | cons cell cells ih =>
    rw [List.countP_cons, List.countP_cons, List.countP_cons, ih]
    by_cases hlarge : large ≤ cell.2
    · have hsmall : small ≤ cell.2 := Nat.le_trans h hlarge
      have hbetween : ¬cell.2 < large := Nat.not_lt.mpr hlarge
      simp only [hsmall, hlarge, hbetween, and_false, decide_true, decide_false, if_true]
      simp only [Bool.false_eq_true, if_false]
      omega
    · have hbelow : cell.2 < large := Nat.lt_of_not_le hlarge
      simp only [hlarge, hbelow, and_true, decide_false, Bool.false_eq_true, if_false]
      omega

theorem dropped_writeAll_blank (h : small ≤ large) (cells : List (UInt8 × Nat)) :
    ((blank small).writeAll cells).dropped = ((blank large).writeAll cells).dropped +
      cells.countP fun cell => small ≤ cell.2 ∧ cell.2 < large := by
  have hdropped : ∀ capacity, ((blank capacity).writeAll cells).dropped =
      cells.countP fun cell => capacity ≤ cell.2 := by
    intro capacity
    rw [dropped_writeAll, capacity_blank]
    exact Nat.zero_add _
  rw [hdropped, hdropped, countP_beyond h]

end Image

/-! ## Assemblies under two capacities -/

/-- `ofLines` fails alike under all capacities, or it writes the same `cells?` under all of them. -/
theorem Assembly.ofLines_under_capacities (lines : List SourceLine) (start : UInt16) :
    (∃ fault, ∀ capacity, (ofLines ⟨capacity, start⟩ lines).result = .error fault) ∨
      ∃ labels cells, Location.cells? labels start.toNat lines = some cells ∧
        ∀ capacity, (ofLines ⟨capacity, start⟩ lines).result =
          .ok ⟨(Image.blank capacity).writeAll cells, labels, Location.behind start.toNat lines⟩ := by
  rcases hsurvey : Survey.run lines start with ⟨survey, _ | fault⟩
  · cases hrefusal : Location.refusal? survey.labels start.toNat lines with
    | some fault =>
      refine .inl ⟨fault, fun capacity => ofLines_eq_error.mpr (.inr ⟨survey, hsurvey, ?_⟩)⟩
      rw [Emission.run_snd, hrefusal]
    | none =>
      have hrun : ∀ capacity, ∃ e, Emission.run ⟨capacity, start⟩ survey.labels lines = (e, none) :=
        fun capacity => Emission.exists_run_of_refusal?_eq_none hrefusal
      obtain ⟨e, he⟩ := hrun 0
      obtain ⟨cells, hcells, -⟩ := (Emission.run_eq_none he).image
      refine .inr ⟨survey.labels, cells, hcells, ?_⟩
      intro capacity
      obtain ⟨u, hu⟩ := hrun capacity
      have hcovers := Emission.run_eq_none hu
      obtain ⟨cells', hcells', himage⟩ := hcovers.image
      obtain rfl : cells = cells' := Option.some.inj (hcells.symm.trans hcells')
      rw [← himage, ← hcovers.location]
      exact ofLines_eq_ok.mpr ⟨survey, u, hsurvey, hu, rfl⟩
  · exact .inl ⟨fault, fun capacity => ofLines_eq_error.mpr (.inl (by rw [hsurvey]))⟩

/-- Under two capacities, `ofSource` either fails with the same fault or gives the same labels and
the same location behind the source. Then the `small` image is the beginning of the `large` one, and
the bytes that it alone has lost are those of the `cells` between the two ends. -/
theorem capacity_clips (source : Text) (start : UInt16) (small large : Nat) (h : small ≤ large) :
    (∃ fault, (Assembly.ofSource ⟨small, start⟩ source).result = .error fault ∧
      (Assembly.ofSource ⟨large, start⟩ source).result = .error fault) ∨
    ∃ a b cells, (Assembly.ofSource ⟨small, start⟩ source).result = .ok a ∧
      (Assembly.ofSource ⟨large, start⟩ source).result = .ok b ∧
      a.labels = b.labels ∧ a.location = b.location ∧
      a.image.capacity = small ∧ b.image.capacity = large ∧
      a.image.toList = b.image.toList.take small ∧
      Location.cells? b.labels start.toNat (SourceLine.listing source) = some cells ∧
      a.image.dropped = b.image.dropped +
        cells.countP fun cell => small ≤ cell.2 ∧ cell.2 < large := by
  obtain ⟨fault, hfails⟩ | ⟨labels, cells, hcells, hresult⟩ :=
    Assembly.ofLines_under_capacities (SourceLine.listing source) start
  · exact .inl ⟨fault, hfails small, hfails large⟩
  · have hcapacity : ∀ capacity, ((Image.blank capacity).writeAll cells).capacity = capacity := by
      intro capacity
      rw [Image.capacity_writeAll, Image.capacity_blank]
    exact .inr ⟨_, _, cells, hresult small, hresult large, rfl, rfl, hcapacity small,
      hcapacity large, Image.toList_writeAll_blank h cells, hcells,
      Image.dropped_writeAll_blank h cells⟩

/-- A word across the end of the small image and bytes beyond both, one address written twice. -/
theorem capacity_clips_across_ends :
    let source := ".ORG 2\n.WORD $0102\nlast: .BYTE 3, 4\n.ORG 3\n.BYTE 5".toList
    let a : Assembly := ⟨⟨#[0, 0, 2], 4⟩, ⟨[⟨"last".toList, 4, 3⟩]⟩, 4⟩
    let b : Assembly := ⟨⟨#[0, 0, 2, 5, 3], 1⟩, ⟨[⟨"last".toList, 4, 3⟩]⟩, 4⟩
    3 ≤ 5 ∧ (Assembly.ofSource ⟨3, 0⟩ source).result = .ok a ∧
      (Assembly.ofSource ⟨5, 0⟩ source).result = .ok b ∧
      a.image.toList = b.image.toList.take 3 ∧
      ∃ cells, Location.cells? b.labels 0 (SourceLine.listing source) = some cells ∧
        a.image.dropped = b.image.dropped + cells.countP fun cell => 3 ≤ cell.2 ∧ cell.2 < 5 := by
  intro source a b
  have ha : (Assembly.ofSource ⟨3, 0⟩ source).result = .ok a := by decide
  have hb : (Assembly.ofSource ⟨5, 0⟩ source).result = .ok b := by decide
  obtain ⟨fault, hfault, -⟩ | ⟨a', b', cells, ha', hb', -, -, -, -, htake, hcells, hdropped⟩ :=
    capacity_clips source 0 3 5 (by decide)
  · rw [ha] at hfault
    cases hfault
  · obtain rfl : a = a' := Except.ok.inj (ha.symm.trans ha')
    obtain rfl : b = b' := Except.ok.inj (hb.symm.trans hb')
    exact ⟨by decide, ha, hb, htake, cells, hcells, hdropped⟩

end Asm6502
