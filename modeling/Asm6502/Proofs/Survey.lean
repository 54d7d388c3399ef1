import Asm6502.Assembly
import Asm6502.Proofs.Result
import Asm6502.Proofs.Walk

/-!
What the survey finds. A survey without fault has counted the running location, and its table
holds the labels of the lines, each at the running location of its line. So a name is in the table
exactly when some line has it as a label, and then with the number of the first such line.
-/

namespace Asm6502

/-! ## The labels of lines -/

def SourceLine.definition? (c : Location) (l : SourceLine) : Option Label :=
  l.label.map fun name => ⟨name, UInt16.ofNat c, l.number⟩

/-- The labels that lines define from a location on, in order. -/
def Location.definitions : Location → List SourceLine → List Label
  | _, [] => []
  | c, l :: lines => (l.definition? c).toList ++ definitions (l.locationAfter c) lines

namespace Location

theorem definitions_append (c : Location) (ls ms : List SourceLine) :
    c.definitions (ls ++ ms) = c.definitions ls ++ (c.behind ls).definitions ms := by
  induction ls generalizing c with
  | nil => rfl
  | cons l ls ih => simp [definitions, ih]

theorem definitions_concat (c : Location) (ls : List SourceLine) (l : SourceLine) :
    c.definitions (ls ++ [l]) = c.definitions ls ++ (l.definition? (c.behind ls)).toList := by
  simp [definitions_append, definitions]

theorem find?_definitions (c : Location) (lines : List SourceLine) (name : Text) :
    ((c.definitions lines).find? fun d => d.name = name).map Label.line =
      (lines.find? fun l => l.label = some name).map SourceLine.number := by
  induction lines generalizing c with
  | nil => rfl
  | cons l lines ih =>
    rw [definitions, List.find?_append, List.find?_cons]
    cases hlabel : l.label with
    | none => simpa [SourceLine.definition?, hlabel] using ih (l.locationAfter c)
    | some other =>
      by_cases hname : other = name
      · simp [SourceLine.definition?, hlabel, hname]
      · simpa [SourceLine.definition?, hlabel, hname] using ih (l.locationAfter c)

end Location

/-! ## One line -/

namespace Survey

/-- What holds of the states around a line in which the survey finds no fault. -/
structure Passes (l : SourceLine) (s u : Survey) : Prop where
  location : u.location = l.locationAfter s.location
  entries : u.labels.entries = s.labels.entries ++ (l.definition? s.location).toList
  labelled : ∀ name, l.label = some name → s.location < Location.limit ∧ s.labels.find? name = none
  readable : ∃ statement, l.statement = .ok statement
  encodable : ∀ i, l.statement = .ok (some (.instruction i)) → ∃ code, i.opcode = .ok code
  fits : s.location ≤ Location.limit → u.location ≤ Location.limit

theorem defineLabel_eq_ok {l : SourceLine} {s u : Survey} (h : s.defineLabel l = .ok u) :
    u.location = s.location ∧
      u.labels.entries = s.labels.entries ++ (l.definition? s.location).toList ∧
      ∀ name, l.label = some name →
        s.location < Location.limit ∧ s.labels.find? name = none := by
  unfold defineLabel at h
  cases hlabel : l.label with
  | none =>
    rw [hlabel] at h
    cases h
    simp [SourceLine.definition?, hlabel]
  | some name =>
    rw [hlabel] at h
    simp only [bind_eq_ok, Except.ok.injEq] at h
    obtain ⟨address, haddress, labels, hdefine, rfl⟩ := h
    obtain ⟨hfresh, hentries⟩ := LabelTable.define_eq_ok hdefine
    have hto : address.toNat = s.location := Location.labelAddress_eq_ok haddress
    have hlt : s.location < Location.limit := hto ▸ Location.toNat_lt_limit address
    have hof : address = UInt16.ofNat s.location := by
      rw [← hto]
      simp
    refine ⟨rfl, ?_, ?_⟩
    · simp [SourceLine.definition?, hlabel, hentries, hof]
    · rintro name' ⟨⟩
      exact ⟨hlt, hfresh⟩

theorem locationAfter_eq_ok {c d : Location} {statement : Statement}
    (h : locationAfter c statement = .ok d) :
    (∃ address, statement = .origin address ∧ d = address.toNat) ∨
      ((∀ address, statement ≠ .origin address) ∧ d = c + statement.size ∧ d ≤ Location.limit ∧
        ∀ i, statement = .instruction i → ∃ code, i.opcode = .ok code) := by
  cases statement with
  | origin address =>
    cases h
    exact .inl ⟨address, rfl, rfl⟩
  | instruction i =>
    simp only [locationAfter, bind_eq_ok] at h
    obtain ⟨code, hcode, hadvance⟩ := h
    obtain ⟨hd, hle⟩ := Location.advance_eq_ok hadvance
    refine .inr ⟨by simp, hd, hle, ?_⟩
    rintro i' ⟨⟩
    exact ⟨code, hcode⟩
  | bytes values =>
    obtain ⟨hd, hle⟩ := Location.advance_eq_ok h
    exact .inr ⟨by simp, hd, hle, by simp⟩
  | words entries =>
    obtain ⟨hd, hle⟩ := Location.advance_eq_ok h
    exact .inr ⟨by simp, hd, hle, by simp⟩

theorem reserve_eq_ok {l : SourceLine} {s u : Survey} (h : s.reserve l = .ok u) :
    (l.statement = .ok none ∧ u = s) ∨
      ∃ statement location, l.statement = .ok (some statement) ∧
        locationAfter s.location statement = .ok location ∧ u = { s with location } := by
  simp only [reserve, bind_eq_ok] at h
  obtain ⟨_ | statement, hstatement, hu⟩ := h
  · cases hu
    exact .inl ⟨hstatement, rfl⟩
  · simp only [bind_eq_ok, Except.ok.injEq] at hu
    obtain ⟨location, hlocation, rfl⟩ := hu
    exact .inr ⟨statement, location, hstatement, hlocation, rfl⟩

theorem line_eq_none {l : SourceLine} {s u : Survey} :
    line l s = (u, none) ↔ ∃ t, s.defineLabel l = .ok t ∧ t.reserve l = .ok u := by
  unfold line
  cases s.defineLabel l with
  | error f => simp
  | ok t =>
    cases hreserve : t.reserve l with
    | error f => simp [hreserve]
    | ok v => simp [hreserve]

theorem line_fault {l : SourceLine} {s : Survey} {f : Fault} :
    (line l s).2 = some f ↔
      s.defineLabel l = .error f ∨ ∃ t, s.defineLabel l = .ok t ∧ t.reserve l = .error f := by
  unfold line
  cases s.defineLabel l with
  | error f' => simp
  | ok t =>
    cases hreserve : t.reserve l with
    | error f' => simp [hreserve]
    | ok u => simp [hreserve]

theorem passes_of_line_eq_none {l : SourceLine} {s u : Survey} (h : line l s = (u, none)) :
    Passes l s u := by
  obtain ⟨t, hdefine, hreserve⟩ := line_eq_none.mp h
  obtain ⟨hlocation, hentries, hlabelled⟩ := defineLabel_eq_ok hdefine
  obtain ⟨hnone, rfl⟩ | ⟨statement, d, hsome, hafter, rfl⟩ := reserve_eq_ok hreserve
  · exact {
      location := by rw [l.locationAfter_of_none _ hnone, hlocation]
      entries := hentries
      labelled := hlabelled
      readable := ⟨none, hnone⟩
      encodable := by simp [hnone]
      fits := by rw [hlocation]; exact id }
  obtain ⟨address, rfl, hd⟩ | ⟨hplacing, hd, hle, hcode⟩ := locationAfter_eq_ok hafter
  · have hle : d ≤ Location.limit := hd ▸ Nat.le_of_lt (Location.toNat_lt_limit address)
    exact {
      location := by rw [l.locationAfter_of_origin _ hsome, hd]
      entries := hentries
      labelled := hlabelled
      readable := ⟨_, hsome⟩
      encodable := by simp [hsome]
      fits := fun _ => hle }
  · have hencodable : ∀ i, l.statement = .ok (some (.instruction i)) →
        ∃ code, i.opcode = .ok code := by
      intro i hi
      rw [hsome] at hi
      cases hi
      exact hcode i rfl
    exact {
      location := by rw [l.locationAfter_of_placing _ hsome hplacing, ← hlocation, hd]
      entries := hentries
      labelled := hlabelled
      readable := ⟨_, hsome⟩
      encodable := hencodable
      fits := fun _ => hle }

/-! ## All lines -/

/-- What a survey without fault knows after some lines. -/
structure Covers (start : UInt16) (lines : List SourceLine) (s : Survey) : Prop where
  location : s.location = Location.behind start.toNat lines
  entries : s.labels.entries = Location.definitions start.toNat lines
  fits : s.location ≤ Location.limit

theorem run_eq_none {start : UInt16} {lines : List SourceLine} {s : Survey}
    (h : run lines start = (s, none)) : Covers start lines s := by
  apply walk_keeps (Covers start) ?_ ?_ h
  · exact ⟨rfl, rfl, Nat.le_of_lt (Location.toNat_lt_limit start)⟩
  · intro ls l t u ht hl
    have hpasses := passes_of_line_eq_none hl
    refine ⟨?_, ?_, hpasses.fits ht.fits⟩
    · rw [hpasses.location, ht.location, Location.behind_append]
      rfl
    · rw [hpasses.entries, ht.entries, ht.location, Location.definitions_concat]

theorem run_split {start : UInt16} {before after : List SourceLine} {l : SourceLine} {s : Survey}
    (h : run (before ++ l :: after) start = (s, none)) :
    ∃ t u, run before start = (t, none) ∧ run (before ++ [l]) start = (u, none) ∧
      Covers start before t ∧ Passes l t u := by
  obtain ⟨t, hbefore, hrest⟩ := walk_append_eq_none.mp h
  obtain ⟨u, hl, -⟩ := walk_cons_eq_none.mp hrest
  exact ⟨t, u, hbefore, walk_concat_eq_none.mpr ⟨t, hbefore, hl⟩, run_eq_none hbefore,
    passes_of_line_eq_none hl⟩

/-! ## Names -/

/-- The label of a line stands in the table behind the labels of the lines before it, at the
location that these leave, and is what its name means. -/
theorem run_label {start : UInt16} {before after : List SourceLine} {l : SourceLine} {s : Survey}
    {name : Text} (h : run (before ++ l :: after) start = (s, none)) (hname : l.label = some name) :
    ∃ t address later, run before start = (t, none) ∧ t.location = address.toNat ∧
      s.labels.entries = t.labels.entries ++ ⟨name, address, l.number⟩ :: later ∧
      s.labels.find? name = some ⟨name, address, l.number⟩ := by
  obtain ⟨t, u, hbefore, -, hcovers, hpasses⟩ := run_split h
  obtain ⟨hlt, hfresh⟩ := hpasses.labelled name hname
  have hentries : s.labels.entries = t.labels.entries ++ ⟨name, UInt16.ofNat t.location, l.number⟩ ::
      Location.definitions (l.locationAfter t.location) after := by
    rw [(run_eq_none h).entries, Location.definitions_append, hcovers.entries, hcovers.location]
    simp [Location.definitions, SourceLine.definition?, hname]
  refine ⟨t, UInt16.ofNat t.location, _, hbefore, ?_, hentries, ?_⟩
  · exact (UInt16.toNat_ofNat_of_lt' hlt).symm
  · unfold LabelTable.find? at hfresh ⊢
    rw [hentries, List.find?_append, hfresh]
    simp

theorem Covers.find?_line {start : UInt16} {lines : List SourceLine} {s : Survey}
    (h : Covers start lines s) (name : Text) :
    (s.labels.find? name).map Label.line =
      (lines.find? fun l => l.label = some name).map SourceLine.number := by
  unfold LabelTable.find?
  rw [h.entries, Location.find?_definitions]

theorem Covers.find?_eq_none_iff {start : UInt16} {lines : List SourceLine} {s : Survey}
    (h : Covers start lines s) (name : Text) :
    s.labels.find? name = none ↔ ∀ l ∈ lines, l.label ≠ some name := by
  have hline : (s.labels.find? name).map Label.line = none ↔
      (lines.find? fun l => l.label = some name).map SourceLine.number = none := by
    rw [h.find?_line name]
  rw [Option.map_eq_none_iff, Option.map_eq_none_iff, List.find?_eq_none] at hline
  simpa using hline

end Survey

end Asm6502
