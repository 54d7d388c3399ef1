import Asm6502.Proofs.Emission
import Asm6502.Proofs.Survey
import Mathlib.Data.List.Nodup

/-!
Which lines the two passes accept, told by the lines and their locations alone. The survey goes
through when every line is admitted at its location and no label is there twice; the emission ends
with the first refusal, which depends on the labels and the locations and on nothing written so far.
-/

namespace Asm6502

/-! ## The survey -/

/-- A label is inside the address space, the statement can be read and there is room for it. -/
structure SourceLine.Admitted (c : Location) (l : SourceLine) : Prop where
  labelled : l.label ≠ none → c < Location.limit
  room : ∃ statement, l.statement = .ok statement ∧
    ∀ s ∈ statement, ∃ d, Survey.locationAfter c s = .ok d

/-- Each line is `Admitted` at the location to which the lines before it lead. -/
def Location.Admits : Location → List SourceLine → Prop
  | _, [] => True
  | c, l :: lines => l.Admitted c ∧ Admits (l.locationAfter c) lines

def labelNames (lines : List SourceLine) : List Text :=
  lines.filterMap SourceLine.label

theorem Location.admits_append (c : Location) (ls ms : List SourceLine) :
    c.Admits (ls ++ ms) ↔ c.Admits ls ∧ (c.behind ls).Admits ms := by
  induction ls generalizing c with
  | nil => simp [Admits]
  | cons l ls ih => simp [Admits, ih, and_assoc]

theorem Location.names_definitions (c : Location) (lines : List SourceLine) :
    (c.definitions lines).map Label.name = labelNames lines := by
  induction lines generalizing c with
  | nil => rfl
  | cons l lines ih =>
    have hrest := ih (l.locationAfter c)
    cases hlabel : l.label with
    | none => simpa [definitions, SourceLine.definition?, labelNames, hlabel] using hrest
    | some name => simpa [definitions, SourceLine.definition?, labelNames, hlabel] using hrest

namespace Survey

theorem defineLabel_faultless_iff {l : SourceLine} {s : Survey} :
    (∃ u, s.defineLabel l = .ok u) ↔
      (l.label ≠ none → s.location < Location.limit) ∧
        ∀ name, l.label = some name → s.labels.find? name = none := by
  constructor
  · rintro ⟨u, hu⟩
    obtain ⟨-, -, hlabelled⟩ := defineLabel_eq_ok hu
    refine ⟨?_, fun name hname => (hlabelled name hname).2⟩
    intro hsome
    obtain ⟨name, hname⟩ := Option.ne_none_iff_exists'.mp hsome
    exact (hlabelled name hname).1
  · rintro ⟨hinside, hfresh⟩
    unfold defineLabel
    cases hlabel : l.label with
    | none => exact ⟨s, rfl⟩
    | some name =>
      have hlt : s.location < Location.limit := hinside (by simp [hlabel])
      have hnone : s.labels.find? name = none := hfresh name hlabel
      simp [Location.labelAddress, hlt, LabelTable.define, hnone, bind, Except.bind]

theorem reserve_faultless_iff {l : SourceLine} {s : Survey} :
    (∃ u, s.reserve l = .ok u) ↔
      ∃ statement, l.statement = .ok statement ∧
        ∀ st ∈ statement, ∃ d, locationAfter s.location st = .ok d := by
  constructor
  · rintro ⟨u, hu⟩
    obtain ⟨hnone, -⟩ | ⟨statement, d, hsome, hd, -⟩ := reserve_eq_ok hu
    · exact ⟨none, hnone, by simp⟩
    · refine ⟨some statement, hsome, ?_⟩
      rintro st ⟨⟩
      exact ⟨d, hd⟩
  · rintro ⟨statement, hstatement, hroom⟩
    unfold reserve
    rw [hstatement]
    cases statement with
    | none => exact ⟨s, rfl⟩
    | some st =>
      obtain ⟨d, hd⟩ := hroom st rfl
      simp [hd, bind, Except.bind]

theorem line_faultless_iff {l : SourceLine} {s : Survey} :
    (line l s).2 = none ↔
      l.Admitted s.location ∧ ∀ name, l.label = some name → s.labels.find? name = none := by
  have hline : (line l s).2 = none ↔ ∃ u, line l s = (u, none) :=
    ⟨fun h => ⟨(line l s).1, Prod.ext rfl h⟩, fun ⟨u, hu⟩ => by rw [hu]⟩
  rw [hline]
  constructor
  · rintro ⟨u, hu⟩
    obtain ⟨t, hdefine, hreserve⟩ := line_eq_none.mp hu
    obtain ⟨hlocation, -, -⟩ := defineLabel_eq_ok hdefine
    obtain ⟨hinside, hfresh⟩ := defineLabel_faultless_iff.mp ⟨t, hdefine⟩
    have hroom := reserve_faultless_iff.mp ⟨u, hreserve⟩
    rw [hlocation] at hroom
    exact ⟨⟨hinside, hroom⟩, hfresh⟩
  · rintro ⟨⟨hinside, hroom⟩, hfresh⟩
    obtain ⟨t, hdefine⟩ := defineLabel_faultless_iff.mpr ⟨hinside, hfresh⟩
    obtain ⟨hlocation, -, -⟩ := defineLabel_eq_ok hdefine
    rw [← hlocation] at hroom
    obtain ⟨u, hreserve⟩ := reserve_faultless_iff.mpr hroom
    exact ⟨u, line_eq_none.mpr ⟨t, hdefine, hreserve⟩⟩

theorem Passes.find?_eq_none_iff {l : SourceLine} {s u : Survey} (h : Passes l s u)
    (name : Text) : u.labels.find? name = none ↔
      l.label ≠ some name ∧ s.labels.find? name = none := by
  unfold LabelTable.find?
  rw [h.entries, List.find?_append, Option.or_eq_none_iff, and_comm]
  cases hlabel : l.label with
  | none => simp [SourceLine.definition?, hlabel]
  | some other => simp [SourceLine.definition?, hlabel]

/-- From any state on, the names in `s.labels` count as labels of earlier lines. -/
theorem walk_faultless_iff_admits {lines : List SourceLine} {s : Survey} :
    (walk line lines s).2 = none ↔
      s.location.Admits lines ∧ (labelNames lines).Nodup ∧
        ∀ name ∈ labelNames lines, s.labels.find? name = none := by
  induction lines generalizing s with
  | nil => simp [walk, Location.Admits, labelNames]
  | cons l lines ih =>
    rw [Location.Admits]
    rcases hline : line l s with ⟨u, _ | fault⟩
    · have hpasses := passes_of_line_eq_none hline
      obtain ⟨hadmitted, hfresh⟩ := line_faultless_iff.mp (congrArg Prod.snd hline)
      simp only [walk, hline, ih, hpasses.location, hpasses.find?_eq_none_iff, hadmitted, true_and,
        labelNames]
      cases hlabel : l.label with
      | none => simp [hlabel]
      | some name =>
        have hname := hfresh name hlabel
        simp only [List.filterMap_cons, hlabel, List.nodup_cons, List.mem_cons, forall_eq_or_imp,
          hname, true_and, ne_eq, Option.some.injEq]
        constructor
        · rintro ⟨hadmits, hnodup, hfresh'⟩
          exact ⟨hadmits, ⟨fun hmem => (hfresh' name hmem).1 rfl, hnodup⟩,
            fun other hmem => (hfresh' other hmem).2⟩
        · rintro ⟨hadmits, ⟨hnew, hnodup⟩, hfresh'⟩
          exact ⟨hadmits, hnodup, fun other hmem =>
            ⟨fun hsame => hnew (hsame ▸ hmem), hfresh' other hmem⟩⟩
    · have hfault : ¬(line l s).2 = none := by simp [hline]
      rw [line_faultless_iff] at hfault
      simp only [walk, hline, reduceCtorEq, false_iff]
      rintro ⟨⟨hadmitted, -⟩, -, hfresh⟩
      refine hfault ⟨hadmitted, ?_⟩
      intro name hname
      exact hfresh name (List.mem_filterMap.mpr ⟨l, List.mem_cons_self, hname⟩)

theorem run_faultless_iff {lines : List SourceLine} {start : UInt16} :
    (run lines start).2 = none ↔
      Location.Admits start.toNat lines ∧ (labelNames lines).Nodup := by
  unfold run
  rw [walk_faultless_iff_admits]
  simp [initial, LabelTable.find?, LabelTable.empty]

end Survey

/-! ## The emission -/

/-- Why a line cannot be emitted at a location. -/
def SourceLine.refusal? (labels : LabelTable) (c : Location) (l : SourceLine) : Option Fault :=
  match l.statement with
  | .error fault => some fault
  | .ok none => none
  | .ok (some (.origin _)) => none
  | .ok (some statement) =>
    match statement.encode labels c with
    | .error fault => some fault
    | .ok bytes =>
      match c.advance bytes.length with
      | .error fault => some fault
      | .ok _ => none

/-- The first `SourceLine.refusal?` among lines from a location on. -/
def Location.refusal? (labels : LabelTable) : Location → List SourceLine → Option LineFault
  | _, [] => none
  | c, l :: lines =>
    ((l.refusal? labels c).map fun fault => ⟨l.number, fault⟩).or
      (refusal? labels (l.locationAfter c) lines)

theorem Location.refusal?_append (labels : LabelTable) (c : Location) (ls ms : List SourceLine) :
    c.refusal? labels (ls ++ ms) = (c.refusal? labels ls).or ((c.behind ls).refusal? labels ms) := by
  induction ls generalizing c with
  | nil => rfl
  | cons l ls ih => simp [refusal?, ih, Option.or_assoc]

namespace Emission

theorem line_snd (labels : LabelTable) (l : SourceLine) (e : Emission) :
    (line labels l e).2 = l.refusal? labels e.location := by
  unfold line SourceLine.refusal?
  rcases l.statement with fault | _ | statement
  · rfl
  · rfl
  · cases statement with
    | origin address => rfl
    | _ =>
      simp only [perform, record_location]
      generalize Statement.encode labels e.location _ = code
      rcases code with fault | bytes
      · rfl
      · simp only [place, record_location]
        generalize e.location.advance bytes.length = advanced
        rcases advanced with fault | d <;> rfl

theorem location_of_line {labels : LabelTable} {l : SourceLine} {e e' : Emission}
    (h : line labels l e = (e', none)) : e'.location = l.locationAfter e.location := by
  obtain ⟨hnone, rfl⟩ | ⟨address, horigin, rfl⟩ |
    ⟨statement, bytes, hsome, hplacing, hencode, -, rfl⟩ := line_eq_none h
  · exact (l.locationAfter_of_none _ hnone).symm
  · exact (l.locationAfter_of_origin _ horigin).symm
  · rw [l.locationAfter_of_placing _ hsome hplacing, ← Statement.length_encode hencode]

theorem walk_snd (labels : LabelTable) (lines : List SourceLine) (e : Emission) :
    (walk (line labels) lines e).2 = e.location.refusal? labels lines := by
  induction lines generalizing e with
  | nil => rfl
  | cons l lines ih =>
    have hsnd := line_snd labels l e
    rw [Location.refusal?, ← hsnd]
    rcases hline : line labels l e with ⟨e', _ | fault⟩
    · simp only [walk, hline, ih, location_of_line hline, Option.map_none, Option.none_or]
    · simp only [walk, hline, Option.map_some, Option.some_or]

/-- The fault of an `Emission` depends on the start and the labels; the capacity has no part in it.
-/
theorem run_snd (config : Config) (labels : LabelTable) (lines : List SourceLine) :
    (run config labels lines).2 = Location.refusal? labels config.start.toNat lines :=
  walk_snd labels lines (initial config)

theorem exists_run_of_refusal?_eq_none {config : Config} {labels : LabelTable}
    {lines : List SourceLine} (h : Location.refusal? labels config.start.toNat lines = none) :
    ∃ e, run config labels lines = (e, none) :=
  ⟨(run config labels lines).1, Prod.ext rfl ((run_snd config labels lines).trans h)⟩

end Emission

/-- Where a line is `Admitted`, only `Statement.encode` can refuse it. -/
theorem SourceLine.refusal?_of_admitted {labels : LabelTable} {l : SourceLine}
    {statement : Statement} {c : Nat} (h : l.Admitted c)
    (hstatement : l.statement = .ok (some statement))
    (hplacing : ∀ address, statement ≠ .origin address) (fault : Fault) :
    l.refusal? labels c = some fault ↔ statement.encode labels c = .error fault := by
  obtain ⟨_, hread, hroom⟩ := h.room
  rw [hstatement] at hread
  cases hread
  obtain ⟨d, hd⟩ := hroom statement rfl
  obtain ⟨address, horigin, -⟩ | ⟨-, rfl, hle, -⟩ := Survey.locationAfter_eq_ok hd
  · exact absurd horigin (hplacing address)
  -- the state in which the line is met has no part in this, but for its location
  let e : Emission := ⟨c, .blank 0, #[]⟩
  have hrefusal : (Emission.line labels l e).2 = l.refusal? labels c := Emission.line_snd labels l e
  rw [← hrefusal, Emission.line_fault]
  constructor
  · rintro (herror | ⟨found, hfound, -, hencode | ⟨bytes, hencode, hover, -⟩⟩)
    · rw [hstatement] at herror
      cases herror
    · rw [hstatement] at hfound
      cases hfound
      exact hencode
    · rw [hstatement] at hfound
      cases hfound
      rw [Statement.length_encode hencode] at hover
      exact absurd hle (Nat.not_le.mpr hover)
  · intro hencode
    exact .inr ⟨statement, hstatement, hplacing, .inl hencode⟩

theorem SourceLine.refusal?_eq_none_iff {labels : LabelTable} {l : SourceLine}
    {statement : Statement} {c : Nat} (h : l.Admitted c)
    (hstatement : l.statement = .ok (some statement))
    (hplacing : ∀ address, statement ≠ .origin address) :
    l.refusal? labels c = none ↔ ∃ bytes, statement.encode labels c = .ok bytes := by
  have hsome : ∀ fault, l.refusal? labels c = some fault ↔
      statement.encode labels c = .error fault := refusal?_of_admitted h hstatement hplacing
  rw [Option.eq_none_iff_forall_ne_some]
  cases hencode : statement.encode labels c with
  | error fault => simp [hsome, hencode]
  | ok bytes => simp [hsome, hencode]

/-! ## Tables that agree -/

/-- Two tables give the same address, or none, to each name that the lines mention. -/
def AgreeOn (lines : List SourceLine) (labels labels' : LabelTable) : Prop :=
  ∀ l ∈ lines, ∀ statement, l.statement = .ok (some statement) →
    ∀ name ∈ statement.names, labels.address? name = labels'.address? name

section Agreement

variable {labels labels' : LabelTable} {l : SourceLine} {lines : List SourceLine}

theorem AgreeOn.head (h : AgreeOn (l :: lines) labels labels') : AgreeOn [l] labels labels' := by
  intro m hm
  rw [List.mem_singleton.mp hm]
  exact h l List.mem_cons_self

theorem AgreeOn.tail (h : AgreeOn (l :: lines) labels labels') : AgreeOn lines labels labels' :=
  fun m hm => h m (List.mem_cons_of_mem l hm)

theorem SourceLine.refusal?_congr (h : AgreeOn [l] labels labels') (c : Location) :
    l.refusal? labels c = l.refusal? labels' c := by
  unfold refusal?
  rcases hstatement : l.statement with fault | _ | statement
  · rfl
  · rfl
  · have hencode : statement.encode labels c = statement.encode labels' c :=
      Statement.encode_congr (h l List.mem_cons_self statement hstatement) c
    cases statement with
    | origin address => rfl
    | _ => simp only [hencode]

theorem SourceLine.code?_congr (h : AgreeOn [l] labels labels') (c : Location) :
    l.code? labels c = l.code? labels' c := by
  unfold code?
  rcases hstatement : l.statement with fault | _ | statement
  · rfl
  · rfl
  · exact Statement.code?_congr (h l List.mem_cons_self statement hstatement) c

theorem Location.refusal?_congr (h : AgreeOn lines labels labels') (c : Location) :
    c.refusal? labels lines = c.refusal? labels' lines := by
  induction lines generalizing c with
  | nil => rfl
  | cons l lines ih => rw [refusal?, refusal?, l.refusal?_congr h.head, ih h.tail]

theorem Location.cells?_congr (h : AgreeOn lines labels labels') (c : Location) :
    c.cells? labels lines = c.cells? labels' lines := by
  induction lines generalizing c with
  | nil => rfl
  | cons l lines ih => rw [cells?, cells?, l.code?_congr h.head, ih h.tail]

end Agreement

/-! ## Assemblies -/

/-- The `definitions` of lines as a table. -/
def Location.table (c : Location) (lines : List SourceLine) : LabelTable :=
  ⟨c.definitions lines⟩

theorem Survey.Covers.labels_eq {start : UInt16} {lines : List SourceLine} {s : Survey}
    (h : Covers start lines s) : s.labels = Location.table start.toNat lines :=
  congrArg LabelTable.mk h.entries

/-- `ofLines` succeeds exactly if the start `Admits` all lines, no label is there twice and no line
is refused under the `table` of all; the image then holds the `cells?` of the lines. -/
theorem Assembly.ofLines_eq_ok_iff {config : Config} {lines : List SourceLine} {a : Assembly} :
    (ofLines config lines).result = .ok a ↔
      Location.Admits config.start.toNat lines ∧ (labelNames lines).Nodup ∧
        Location.refusal? (Location.table config.start.toNat lines) config.start.toNat lines = none ∧
        ∃ cells, Location.cells? (Location.table config.start.toNat lines) config.start.toNat lines =
          some cells ∧
          a = ⟨(Image.blank config.capacity).writeAll cells,
            Location.table config.start.toNat lines, Location.behind config.start.toNat lines⟩ := by
  rw [ofLines_eq_ok]
  constructor
  · rintro ⟨survey, e, hsurvey, hemission, rfl⟩
    obtain ⟨hadmits, hnodup⟩ := Survey.run_faultless_iff.mp (congrArg Prod.snd hsurvey)
    have hlabels := (Survey.run_eq_none hsurvey).labels_eq
    rw [hlabels] at hemission
    have hcovers := Emission.run_eq_none hemission
    obtain ⟨cells, hcells, himage⟩ := hcovers.image
    have hrefusal := Emission.run_snd config (Location.table config.start.toNat lines) lines
    rw [hemission] at hrefusal
    refine ⟨hadmits, hnodup, hrefusal.symm, cells, hcells, ?_⟩
    rw [himage, hlabels, hcovers.location]
  · rintro ⟨hadmits, hnodup, hrefusal, cells, hcells, rfl⟩
    have hfaultless := Survey.run_faultless_iff.mpr ⟨hadmits, hnodup⟩
    have hsurvey : Survey.run lines config.start = ((Survey.run lines config.start).1, none) :=
      Prod.ext rfl hfaultless
    have hlabels := (Survey.run_eq_none hsurvey).labels_eq
    obtain ⟨e, hemission⟩ := Emission.exists_run_of_refusal?_eq_none hrefusal
    have hcovers := Emission.run_eq_none hemission
    obtain ⟨cells', hcells', himage⟩ := hcovers.image
    obtain rfl : cells = cells' := Option.some.inj (hcells.symm.trans hcells')
    refine ⟨_, e, hsurvey, by rw [hlabels]; exact hemission, ?_⟩
    rw [himage, hlabels, hcovers.location]

end Asm6502
