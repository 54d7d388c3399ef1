import Asm6502.Proofs.Acceptance
import Asm6502.Proofs.AddressSpace
import Asm6502.Proofs.SurveyFaults
import Mathlib.Data.List.Find
import Mathlib.Data.List.Forall2

/-!
What labels are called does not matter, nor how lines are numbered, as long as names that differ
still differ. Both passes do to renamed lines what they do to the lines themselves, with the names
and numbers replaced wherever they are told: in the table, in the log and in faults.
-/

namespace Asm6502

/-! ## New names and numbers -/

/-- New names for labels and new numbers for lines. -/
structure Renaming where
  name : Text → Text := id
  number : Nat → Nat := id

section Renamed

variable (ρ : Renaming)

def Operand.renamed : Operand → Operand
  | implied => implied
  | value v => value v
  | label name => label (ρ.name name)

def Statement.renamed : Statement → Statement
  | instruction i => instruction { i with operand := i.operand.renamed ρ }
  | origin address => origin address
  | bytes values => bytes values
  | words entries => words (entries.map (Operand.renamed ρ))

/-- Only two kinds of faults name a label. -/
def Fault.renamed : Fault → Fault
  | unknownLabel name => unknownLabel (ρ.name name)
  | duplicateLabel name firstLine => duplicateLabel (ρ.name name) (ρ.number firstLine)
  | fault => fault

def LineFault.renamed (f : LineFault) : LineFault :=
  ⟨ρ.number f.line, f.fault.renamed ρ⟩

def Label.renamed (d : Label) : Label :=
  ⟨ρ.name d.name, d.address, ρ.number d.line⟩

def LabelTable.renamed (t : LabelTable) : LabelTable :=
  ⟨t.entries.map (Label.renamed ρ)⟩

def Event.renamed : Event → Event
  | labelDefined name address => labelDefined (ρ.name name) address
  | statementReached location statement => statementReached location (statement.renamed ρ)
  | event => event

def Survey.renamed (s : Survey) : Survey :=
  ⟨s.location, s.labels.renamed ρ, s.log.map (Event.renamed ρ)⟩

/-- Only the log of an emission holds names. -/
def Emission.renamed (e : Emission) : Emission :=
  { e with log := e.log.map (Event.renamed ρ) }

def Assembly.renamed (a : Assembly) : Assembly :=
  { a with labels := a.labels.renamed ρ }

/-- A line with its label, its number and the names in its statement replaced. -/
structure SourceLine.Renamed (l l' : SourceLine) : Prop where
  number : l'.number = ρ.number l.number
  label : l'.label = l.label.map ρ.name
  statement : l'.statement = l.statement.map (Option.map (Statement.renamed ρ))

end Renamed

/-! ## Lines -/

def SourceLine.names (l : SourceLine) : List Text :=
  l.label.toList ++
    match l.statement with
    | .ok (some statement) => statement.names
    | _ => []

def occurringNames (lines : List SourceLine) : List Text :=
  lines.flatMap SourceLine.names

/-- Neither a label nor an operation. -/
structure SourceLine.IsVoid (l : SourceLine) : Prop where
  label : l.label = none
  operation : l.operation = none

/-- Lines with their names and numbers replaced, and between them lines that hold nothing. -/
inductive RenamedLines (ρ : Renaming) : List SourceLine → List SourceLine → Prop
  | nil : RenamedLines ρ [] []
  | line {l l' : SourceLine} {ls ls' : List SourceLine} (hl : l.Renamed ρ l')
      (hls : RenamedLines ρ ls ls') : RenamedLines ρ (l :: ls) (l' :: ls')
  | void {l' : SourceLine} {ls ls' : List SourceLine} (hl' : l'.IsVoid)
      (hls : RenamedLines ρ ls ls') : RenamedLines ρ ls (l' :: ls')

theorem SourceLine.IsVoid.statement {l : SourceLine} (h : l.IsVoid) : l.statement = .ok none := by
  rw [SourceLine.statement, h.operation]

theorem SourceLine.mem_names_of_label {l : SourceLine} {name : Text} (h : l.label = some name) :
    name ∈ l.names := by
  simp [names, h]

theorem SourceLine.mem_names_of_statement {l : SourceLine} {statement : Statement} {name : Text}
    (h : l.statement = .ok (some statement)) (hname : name ∈ statement.names) :
    name ∈ l.names := by
  simp [names, h, hname]

theorem mem_occurringNames {lines : List SourceLine} {l : SourceLine} {name : Text}
    (hl : l ∈ lines) (h : name ∈ l.names) : name ∈ occurringNames lines :=
  List.mem_flatMap.mpr ⟨l, hl, h⟩

theorem renamedLines_of_forall₂ {ρ : Renaming} {lines lines' : List SourceLine}
    (h : List.Forall₂ (SourceLine.Renamed ρ) lines lines') : RenamedLines ρ lines lines' := by
  induction h with
  | nil => exact .nil
  | cons hl _ ih => exact .line hl ih

/-! ## Walks -/

/-- Two steps that differ by a renaming, from the states that satisfy `P` on, make two walks that
differ by it. -/
theorem walk_renamed {σ : Type} {step step' : SourceLine → σ → σ × Option Fault} {f : σ → σ}
    {ρ : Renaming} (P : σ → Prop) {lines lines' : List SourceLine}
    (hlines : RenamedLines ρ lines lines')
    (hvoid : ∀ l s, l.IsVoid → step' l s = (s, none))
    (hstep : ∀ l ∈ lines, ∀ l' s, l.Renamed ρ l' → P s →
      step' l' (f s) = (f (step l s).1, (step l s).2.map (Fault.renamed ρ)))
    (hkeeps : ∀ l ∈ lines, ∀ s s', P s → step l s = (s', none) → P s') {s : σ} (hs : P s) :
    walk step' lines' (f s) =
      (f (walk step lines s).1, (walk step lines s).2.map (LineFault.renamed ρ)) := by
  induction hlines generalizing s with
  | nil => rfl
  | @line l l' ls ls' hl _ ih =>
    have hrest := @ih (fun m hm => hstep m (List.mem_cons_of_mem l hm))
      (fun m hm => hkeeps m (List.mem_cons_of_mem l hm))
    have hfirst := hstep l List.mem_cons_self l' s hl hs
    rcases hline : step l s with ⟨t, _ | fault⟩
    · have ht := hkeeps l List.mem_cons_self s t hs hline
      simp only [hline, Option.map_none] at hfirst
      simp only [walk, hline, hfirst, hrest ht]
    · simp only [hline, Option.map_some] at hfirst
      simp only [walk, hline, hfirst, Option.map_some, LineFault.renamed, hl.number]
  | @void l' ls ls' hl' _ ih =>
    simp only [walk, hvoid l' _ hl', ih hstep hkeeps hs]

/-! ## Label tables -/

section Tables

variable {ρ : Renaming} {names : List Text}
  (hinj : ∀ a ∈ names, ∀ b ∈ names, ρ.name a = ρ.name b → a = b)

include hinj

/-- Among names that the renaming keeps apart, a renamed name is found where the name was. -/
theorem LabelTable.find?_renamed {t : LabelTable} (ht : ∀ d ∈ t.entries, d.name ∈ names)
    {name : Text} (hname : name ∈ names) :
    (t.renamed ρ).find? (ρ.name name) = (t.find? name).map (Label.renamed ρ) := by
  have hsame : ∀ d ∈ t.entries,
      decide ((d.renamed ρ).name = ρ.name name) = decide (d.name = name) := by
    intro d hd
    apply decide_eq_decide.mpr
    exact ⟨hinj d.name (ht d hd) name hname, congrArg ρ.name⟩
  unfold find? renamed
  rw [List.find?_map]
  congr 1
  exact List.find?_congr hsame

theorem LabelTable.address?_renamed {t : LabelTable} (ht : ∀ d ∈ t.entries, d.name ∈ names)
    {name : Text} (hname : name ∈ names) :
    (t.renamed ρ).address? (ρ.name name) = t.address? name := by
  unfold address?
  rw [find?_renamed hinj ht hname, Option.map_map]
  rfl

theorem LabelTable.define_renamed {t : LabelTable} (ht : ∀ d ∈ t.entries, d.name ∈ names)
    {d : Label} (hd : d.name ∈ names) :
    (t.renamed ρ).define (d.renamed ρ) =
      ((t.define d).map (LabelTable.renamed ρ)).mapError (Fault.renamed ρ) := by
  have hfind : (t.renamed ρ).find? (d.renamed ρ).name = (t.find? d.name).map (Label.renamed ρ) :=
    find?_renamed hinj ht hd
  unfold define
  rw [hfind]
  cases t.find? d.name with
  | none => simp [Except.map, Except.mapError, renamed]
  | some earlier => rfl

end Tables

/-! ## Statements -/

namespace Statement

/-- New numbers alone change no statement. -/
theorem renamed_eq_self {ρ : Renaming} (h : ∀ name, ρ.name name = name) (statement : Statement) :
    statement.renamed ρ = statement := by
  have hoperand : ∀ o : Operand, o.renamed ρ = o := by
    intro o
    cases o <;> simp [Operand.renamed, h]
  have hentries : ∀ entries : List Operand, entries.map (Operand.renamed ρ) = entries := by
    intro entries
    rw [funext hoperand]
    exact List.map_id' entries
  cases statement with
  | instruction i => rw [renamed, hoperand]
  | origin address => rfl
  | bytes values => rfl
  | words entries => rw [renamed, hentries]

theorem locationAfter_renamed (ρ : Renaming) (c : Location) (statement : Statement) :
    Survey.locationAfter c (statement.renamed ρ) = Survey.locationAfter c statement := by
  cases statement with
  | instruction i => rfl
  | origin address => rfl
  | bytes values => rfl
  | words entries => simp [renamed, Survey.locationAfter, size]

end Statement

section Addresses

variable {ρ : Renaming} {labels labels' : LabelTable}

theorem Operand.resolve_renamed {o : Operand}
    (h : ∀ name, o.name? = some name → labels'.address? (ρ.name name) = labels.address? name) :
    (o.renamed ρ).resolve labels' = (o.resolve labels).mapError (Fault.renamed ρ) := by
  cases o with
  | implied => rfl
  | value v => rfl
  | label name =>
    rw [renamed, resolve, resolve, h name rfl]
    cases labels.address? name <;> rfl

theorem Operand.mapM_resolve_renamed {entries : List Operand}
    (h : ∀ o ∈ entries, ∀ name, o.name? = some name →
      labels'.address? (ρ.name name) = labels.address? name) :
    (entries.map (renamed ρ)).mapM (resolve labels') =
      (entries.mapM (resolve labels)).mapError (Fault.renamed ρ) := by
  induction entries with
  | nil => rfl
  | cons o entries ih =>
    have ho : (o.renamed ρ).resolve labels' = (o.resolve labels).mapError (Fault.renamed ρ) :=
      resolve_renamed (h o List.mem_cons_self)
    have hentries := ih fun p hp => h p (List.mem_cons_of_mem o hp)
    simp only [List.map_cons, List.mapM_cons, mapError_bind, ho, hentries]
    rfl

/-- Whether there is an opcode and a branch reaches its target has nothing to do with names. -/
theorem Instruction.opcode_mapError (i : Instruction) :
    i.opcode.mapError (Fault.renamed ρ) = i.opcode := by
  unfold opcode
  split <;> rfl

theorem Mode.operandBytes_mapError (mode : Mode) (c : Nat) (v : Int) :
    (mode.operandBytes c v).mapError (Fault.renamed ρ) = mode.operandBytes c v := by
  unfold operandBytes displacement
  split
  · dsimp only
    split <;> rfl
  · rfl

theorem Statement.encode_renamed {statement : Statement}
    (h : ∀ name ∈ statement.names, labels'.address? (ρ.name name) = labels.address? name)
    (c : Nat) :
    (statement.renamed ρ).encode labels' c =
      (statement.encode labels c).mapError (Fault.renamed ρ) := by
  cases statement with
  | instruction i =>
    have hoperand : (i.operand.renamed ρ).resolve labels' =
        (i.operand.resolve labels).mapError (Fault.renamed ρ) :=
      Operand.resolve_renamed fun name hname => h name (by simp [names, hname])
    simp only [renamed, encode, Instruction.encode, mapError_bind, Instruction.opcode_mapError,
      Mode.operandBytes_mapError, hoperand]
    rfl
  | origin address => rfl
  | bytes values => rfl
  | words entries =>
    have hentries : (entries.map (Operand.renamed ρ)).mapM (Operand.resolve labels') =
        (entries.mapM (Operand.resolve labels)).mapError (Fault.renamed ρ) :=
      Operand.mapM_resolve_renamed fun o ho name hname =>
        h name (List.mem_filterMap.mpr ⟨o, ho, hname⟩)
    rw [renamed, encode, encode, hentries]
    cases entries.mapM (Operand.resolve labels) <;> rfl

end Addresses

/-! ## The survey -/

section Passes

variable {ρ : Renaming} {l l' : SourceLine}

/-- A line that cannot be read is not read any better under other names. -/
theorem SourceLine.renamed_of_statement_eq_error {fault : Fault} (h : l.statement = .error fault) :
    fault.renamed ρ = fault := by
  obtain ⟨word, rfl⟩ | ⟨text, rfl⟩ | ⟨-, v, rfl, -⟩ := statement_eq_error h <;> rfl

theorem Survey.renamed_of_locationAfter_eq_error {c : Location} {statement : Statement}
    {fault : Fault} (h : locationAfter c statement = .error fault) : fault.renamed ρ = fault := by
  obtain ⟨i, -, -, rfl⟩ | ⟨-, -, -, rfl⟩ := locationAfter_eq_error.mp h <;> rfl

theorem Survey.reserve_renamed (hl : l.Renamed ρ l') (s : Survey) :
    (s.renamed ρ).reserve l' =
      ((s.reserve l).map (Survey.renamed ρ)).mapError (Fault.renamed ρ) := by
  unfold reserve
  rw [hl.statement]
  rcases hstatement : l.statement with fault | _ | statement
  · have hfixed : fault.renamed ρ = fault := SourceLine.renamed_of_statement_eq_error hstatement
    simp [Except.map, Except.mapError, bind, Except.bind, hfixed]
  · rfl
  · have hafter : locationAfter (s.renamed ρ).location (statement.renamed ρ) =
        locationAfter s.location statement := statement.locationAfter_renamed ρ s.location
    simp only [Except.map, Option.map_some, bind, Except.bind, hafter]
    rcases hlocation : locationAfter s.location statement with fault | location
    · have hfixed : fault.renamed ρ = fault := renamed_of_locationAfter_eq_error hlocation
      simp [Except.mapError, hfixed]
    · rfl

section Names

variable {names : List Text} (hinj : ∀ a ∈ names, ∀ b ∈ names, ρ.name a = ρ.name b → a = b)

include hinj

theorem Survey.defineLabel_renamed (hl : l.Renamed ρ l') {s : Survey}
    (hname : ∀ name, l.label = some name → name ∈ names)
    (hs : ∀ d ∈ s.labels.entries, d.name ∈ names) :
    (s.renamed ρ).defineLabel l' =
      ((s.defineLabel l).map (Survey.renamed ρ)).mapError (Fault.renamed ρ) := by
  unfold defineLabel
  rw [hl.label]
  cases hlabel : l.label with
  | none => rfl
  | some name =>
    have hlocation : (s.renamed ρ).location = s.location := rfl
    simp only [Option.map_some, hlocation, bind, Except.bind]
    rcases haddress : s.location.labelAddress with fault | address
    · have hfixed : fault.renamed ρ = fault := by
        unfold Location.labelAddress at haddress
        split at haddress
        · cases haddress
        · cases haddress
          rfl
      simp [Except.map, Except.mapError, hfixed]
    · have hdefine : (s.renamed ρ).labels.define ⟨ρ.name name, address, l'.number⟩ =
          ((s.labels.define ⟨name, address, l.number⟩).map (LabelTable.renamed ρ)).mapError
            (Fault.renamed ρ) := by
        rw [hl.number]
        exact LabelTable.define_renamed hinj hs (d := ⟨name, address, l.number⟩) (hname name hlabel)
      simp only [hdefine]
      rcases s.labels.define ⟨name, address, l.number⟩ with fault | labels
      · rfl
      · simp [Except.map, Except.mapError, renamed, Event.renamed]

theorem Survey.line_renamed (hl : l.Renamed ρ l') {s : Survey}
    (hname : ∀ name, l.label = some name → name ∈ names)
    (hs : ∀ d ∈ s.labels.entries, d.name ∈ names) :
    line l' (s.renamed ρ) = ((line l s).1.renamed ρ, (line l s).2.map (Fault.renamed ρ)) := by
  unfold line
  rw [defineLabel_renamed hinj hl hname hs]
  rcases s.defineLabel l with fault | t
  · rfl
  · simp only [Except.map, Except.mapError, reserve_renamed hl t]
    rcases t.reserve l with fault | u <;> rfl

end Names

theorem Survey.names_of_line {names : List Text} {s u : Survey} (h : line l s = (u, none))
    (hname : ∀ name, l.label = some name → name ∈ names)
    (hs : ∀ d ∈ s.labels.entries, d.name ∈ names) : ∀ d ∈ u.labels.entries, d.name ∈ names := by
  intro d hd
  obtain hold | ⟨hlabel, -⟩ := line_entries h d hd
  · exact hs d hold
  · exact hname d.name hlabel

theorem Survey.line_of_isVoid (h : l.IsVoid) (s : Survey) : line l s = (s, none) := by
  simp [line, defineLabel, reserve, h.label, h.statement, bind, Except.bind]

/-! ## The emission -/

namespace Emission

theorem record_renamed (e : Emission) (event : Event) :
    (e.renamed ρ).record (event.renamed ρ) = (e.record event).renamed ρ := by
  simp [record, renamed]

theorem put_renamed (e : Emission) (cell : UInt8 × Nat) :
    (e.renamed ρ).put cell = (e.put cell).renamed ρ := by
  by_cases hinside : cell.2 < e.image.capacity
  · simp [put, renamed, hinside]
  · simp [put, renamed, hinside, record, Event.renamed]

theorem foldl_put_renamed (cells : List (UInt8 × Nat)) (e : Emission) :
    cells.foldl put (e.renamed ρ) = (cells.foldl put e).renamed ρ := by
  induction cells generalizing e with
  | nil => rfl
  | cons cell cells ih => rw [List.foldl_cons, List.foldl_cons, put_renamed, ih]

theorem place_renamed (bytes : List UInt8) (e : Emission) :
    (e.renamed ρ).place bytes =
      ((e.place bytes).1.renamed ρ, (e.place bytes).2.map (Fault.renamed ρ)) := by
  have hlocation : (e.renamed ρ).location = e.location := rfl
  unfold place
  rw [hlocation]
  cases hadvance : e.location.advance bytes.length with
  | error fault =>
    obtain ⟨-, rfl⟩ := Location.advance_eq_error.mp hadvance
    rfl
  | ok location =>
    simp only [foldl_put_renamed]
    rfl

variable {labels labels' : LabelTable}

theorem perform_renamed {statement : Statement}
    (h : ∀ name ∈ statement.names, labels'.address? (ρ.name name) = labels.address? name)
    (e : Emission) :
    (e.renamed ρ).perform labels' (statement.renamed ρ) =
      ((e.perform labels statement).1.renamed ρ,
        (e.perform labels statement).2.map (Fault.renamed ρ)) := by
  have hencode := statement.encode_renamed h e.location
  have hlocation : (e.renamed ρ).location = e.location := rfl
  cases statement with
  | origin address =>
    simp [Statement.renamed, perform, moveTo, record, renamed, Event.renamed]
  | _ =>
    simp only [Statement.renamed, perform, hlocation] at hencode ⊢
    rw [hencode]
    generalize Statement.encode labels e.location _ = code
    rcases code with fault | bytes
    · rfl
    · exact place_renamed bytes e

theorem line_renamed (hl : l.Renamed ρ l')
    (h : ∀ statement, l.statement = .ok (some statement) → ∀ name ∈ statement.names,
      labels'.address? (ρ.name name) = labels.address? name) (e : Emission) :
    line labels' l' (e.renamed ρ) =
      ((line labels l e).1.renamed ρ, (line labels l e).2.map (Fault.renamed ρ)) := by
  unfold line
  rw [hl.statement]
  rcases hstatement : l.statement with fault | _ | statement
  · have hfixed : fault.renamed ρ = fault := SourceLine.renamed_of_statement_eq_error hstatement
    simp [Except.map, hfixed]
  · rfl
  · have hlocation : (e.renamed ρ).location = e.location := rfl
    have hrecord := record_renamed (ρ := ρ) e (.statementReached e.location statement)
    simp only [Event.renamed] at hrecord
    simp only [Except.map, Option.map_some, hlocation, hrecord,
      perform_renamed (h statement hstatement)]

theorem line_of_isVoid (h : l.IsVoid) (e : Emission) : line labels l e = (e, none) := by
  simp [line, h.statement]

end Emission

end Passes

/-! ## Whole runs -/

section Runs

variable {ρ : Renaming} {lines lines' : List SourceLine} (h : RenamedLines ρ lines lines')

include h

theorem Survey.run_renamed
    (hinj : ∀ a ∈ occurringNames lines, ∀ b ∈ occurringNames lines,
      ρ.name a = ρ.name b → a = b) (start : UInt16) :
    run lines' start =
      ((run lines start).1.renamed ρ, (run lines start).2.map (LineFault.renamed ρ)) := by
  have hname : ∀ l ∈ lines, ∀ name, l.label = some name → name ∈ occurringNames lines :=
    fun l hl name hlabel => mem_occurringNames hl (SourceLine.mem_names_of_label hlabel)
  have hinitial : (initial start).renamed ρ = initial start := by
    simp [initial, renamed, LabelTable.renamed, LabelTable.empty]
  have hwalk : walk line lines' ((initial start).renamed ρ) =
      ((run lines start).1.renamed ρ, (run lines start).2.map (LineFault.renamed ρ)) := by
    apply walk_renamed (f := Survey.renamed ρ)
      (fun s : Survey => ∀ d ∈ s.labels.entries, d.name ∈ occurringNames lines) h
    · exact fun l s hl => line_of_isVoid hl s
    · intro l hl l' s hrenamed hs
      exact line_renamed hinj hrenamed (hname l hl) hs
    · intro l hl s u hs hline
      exact names_of_line hline (hname l hl) hs
    · simp [initial, LabelTable.empty]
  rwa [hinitial] at hwalk

theorem Emission.run_renamed {labels labels' : LabelTable}
    (haddress : ∀ name ∈ occurringNames lines,
      labels'.address? (ρ.name name) = labels.address? name) (config : Config) :
    run config labels' lines' =
      ((run config labels lines).1.renamed ρ,
        (run config labels lines).2.map (LineFault.renamed ρ)) := by
  have hinitial : (initial config).renamed ρ = initial config := by
    simp [initial, renamed]
  have hwalk : walk (line labels') lines' ((initial config).renamed ρ) =
      ((run config labels lines).1.renamed ρ,
        (run config labels lines).2.map (LineFault.renamed ρ)) := by
    apply walk_renamed (f := Emission.renamed ρ) (fun _ => True) h
    · exact fun l e hl => line_of_isVoid hl e
    · intro l hl l' e hrenamed _
      apply line_renamed hrenamed
      intro statement hstatement name hname
      exact haddress name
        (mem_occurringNames hl (SourceLine.mem_names_of_statement hstatement hname))
    · exact fun _ _ _ _ _ _ => trivial
    · trivial
  rwa [hinitial] at hwalk

end Runs

theorem Survey.Covers.name_mem {start : UInt16} {lines : List SourceLine} {s : Survey}
    (h : Covers start lines s) {d : Label} (hd : d ∈ s.labels.entries) :
    d.name ∈ occurringNames lines := by
  have hname : d.name ∈ labelNames lines := by
    rw [← Location.names_definitions start.toNat, ← h.entries]
    exact List.mem_map_of_mem hd
  obtain ⟨l, hl, hlabel⟩ := List.mem_filterMap.mp hname
  exact mem_occurringNames hl (SourceLine.mem_names_of_label hlabel)

section Assemblies

variable {ρ : Renaming} {lines lines' : List SourceLine} (h : RenamedLines ρ lines lines')
  (hinj : ∀ a ∈ occurringNames lines, ∀ b ∈ occurringNames lines, ρ.name a = ρ.name b → a = b)

include h hinj

theorem Emission.run_renamed_of_survey {config : Config} {survey : Survey}
    (hsurvey : Survey.run lines config.start = (survey, none)) :
    run config (survey.labels.renamed ρ) lines' =
      ((run config survey.labels lines).1.renamed ρ,
        (run config survey.labels lines).2.map (LineFault.renamed ρ)) := by
  apply run_renamed h
  intro name hname
  have hcovers := Survey.run_eq_none hsurvey
  exact LabelTable.address?_renamed hinj (fun d hd => hcovers.name_mem hd) hname

/-- The assembly of `RenamedLines` is the renamed assembly, or fails with the renamed fault. -/
theorem Assembly.ofLines_renamed (config : Config) :
    (ofLines config lines').result =
      ((ofLines config lines).result.map (Assembly.renamed ρ)).mapError (LineFault.renamed ρ) := by
  have hrun := Survey.run_renamed h hinj config.start
  unfold ofLines
  rw [hrun]
  rcases hsurvey : Survey.run lines config.start with ⟨survey, _ | fault⟩
  · have hemission := Emission.run_renamed_of_survey h hinj hsurvey
    have hlabels : (survey.renamed ρ).labels = survey.labels.renamed ρ := rfl
    simp only [Option.map_none, emit, hlabels, hemission]
    rcases Emission.run config survey.labels lines with ⟨e, _ | fault⟩ <;> rfl
  · rfl

end Assemblies

/-! ## Tables that agree -/

section Agreement

variable {labels labels' : LabelTable} {lines : List SourceLine}

theorem Emission.line_congr {l : SourceLine} (h : AgreeOn lines labels labels') (hl : l ∈ lines)
    (e : Emission) : line labels l e = line labels' l e := by
  unfold line
  rcases hstatement : l.statement with fault | _ | statement
  · rfl
  · rfl
  · have hencode : ∀ c, statement.encode labels c = statement.encode labels' c :=
      Statement.encode_congr (h l hl statement hstatement)
    cases statement with
    | origin address => rfl
    | _ => simp only [perform, hencode]

theorem Emission.run_congr (h : AgreeOn lines labels labels') (config : Config) :
    run config labels lines = run config labels' lines :=
  walk_congr fun _ hl e => line_congr h hl e

end Agreement

/-- Names that differ may be replaced by any others that differ. If `r` keeps the names of the lines
apart, the surveys of both versions go through with tables that differ by the names only, or fail at
the same line for the same reason, up to the name that it tells; and behind a `Survey` without fault
the emissions give the same image and come to the same location, or fail alike. Besides, an
`Emission` asks its table for nothing but the addresses of the names that the lines mention. -/
theorem names_interchangeable (r : Text → Text) (lines lines' : List SourceLine) (config : Config)
    (hinj : ∀ a ∈ occurringNames lines, ∀ b ∈ occurringNames lines, r a = r b → a = b)
    (h : List.Forall₂ (SourceLine.Renamed ⟨r, id⟩) lines lines') :
    let survey := Survey.run lines config.start
    let survey' := Survey.run lines' config.start
    let emission := Emission.run config survey.1.labels lines
    let emission' := Emission.run config survey'.1.labels lines'
    (survey.2 = none ↔ survey'.2 = none) ∧
    survey'.2 = survey.2.map (LineFault.renamed ⟨r, id⟩) ∧
    (survey.2 = none →
      survey'.1.labels = survey.1.labels.renamed ⟨r, id⟩ ∧
      emission'.2 = emission.2.map (LineFault.renamed ⟨r, id⟩) ∧
      (emission.2 = none →
        emission'.1.image = emission.1.image ∧ emission'.1.location = emission.1.location)) ∧
    ∀ labels labels', AgreeOn lines labels labels' →
      Emission.run config labels lines = Emission.run config labels' lines := by
  intro survey survey' emission emission'
  have hlines := renamedLines_of_forall₂ h
  have hsurvey : survey' =
      (survey.1.renamed ⟨r, id⟩, survey.2.map (LineFault.renamed ⟨r, id⟩)) :=
    Survey.run_renamed hlines hinj config.start
  have hlabels : survey'.1.labels = survey.1.labels.renamed ⟨r, id⟩ :=
    congrArg (fun s => s.1.labels) hsurvey
  have hfault : survey'.2 = survey.2.map (LineFault.renamed ⟨r, id⟩) := congrArg Prod.snd hsurvey
  refine ⟨?_, hfault, ?_, fun labels labels' hagree => Emission.run_congr hagree config⟩
  · rw [hfault, Option.map_eq_none_iff]
  · intro hnone
    have hemission : emission' =
        (emission.1.renamed ⟨r, id⟩, emission.2.map (LineFault.renamed ⟨r, id⟩)) := by
      have hrun := Emission.run_renamed_of_survey hlines hinj (Prod.ext rfl hnone)
      rwa [← hlabels] at hrun
    refine ⟨hlabels, congrArg Prod.snd hemission, fun _ => ⟨?_, ?_⟩⟩
    · exact congrArg (fun e => e.1.image) hemission
    · exact congrArg (fun e => e.1.location) hemission

/-- Three names, one of them unknown, under names of which one was there before. Elsewhere the
function is not injective. -/
theorem names_interchangeable_up_to_unknown :
    let lines := SourceLine.listing "loop: DEX\nBNE loop\nend: .WORD loop, end\nJMP gone".toList
    let lines' :=
      SourceLine.listing "again: DEX\nBNE again\nloop: .WORD again, loop\nJMP away".toList
    let r : Text → Text := fun name =>
      if name = "end".toList then "loop".toList
      else if name = "gone".toList then "away".toList
      else "again".toList
    (∀ a ∈ occurringNames lines, ∀ b ∈ occurringNames lines, r a = r b → a = b) ∧
      List.Forall₂ (SourceLine.Renamed ⟨r, id⟩) lines lines' ∧
      (Survey.run lines 0x1000).1.labels =
        ⟨[⟨"loop".toList, 0x1000, 1⟩, ⟨"end".toList, 0x1003, 3⟩]⟩ ∧
      (Survey.run lines' 0x1000).1.labels =
        ⟨[⟨"again".toList, 0x1000, 1⟩, ⟨"loop".toList, 0x1003, 3⟩]⟩ ∧
      (Emission.run ⟨0, 0x1000⟩ (Survey.run lines 0x1000).1.labels lines).2 =
        some ⟨4, .unknownLabel "gone".toList⟩ ∧
      (Emission.run ⟨0, 0x1000⟩ (Survey.run lines' 0x1000).1.labels lines').2 =
        some ⟨4, .unknownLabel "away".toList⟩ := by
  intro lines lines' r
  have hinj : ∀ a ∈ occurringNames lines, ∀ b ∈ occurringNames lines, r a = r b → a = b := by
    decide
  have hlines : List.Forall₂ (SourceLine.Renamed ⟨r, id⟩) lines lines' :=
    .cons ⟨by decide, by decide, by decide⟩ (.cons ⟨by decide, by decide, by decide⟩
      (.cons ⟨by decide, by decide, by decide⟩ (.cons ⟨by decide, by decide, by decide⟩ .nil)))
  have hsurvey : (Survey.run lines 0x1000).2 = none := by decide
  have hlabels : (Survey.run lines 0x1000).1.labels =
      ⟨[⟨"loop".toList, 0x1000, 1⟩, ⟨"end".toList, 0x1003, 3⟩]⟩ := by decide
  have hfault : (Emission.run ⟨0, 0x1000⟩ (Survey.run lines 0x1000).1.labels lines).2 =
      some ⟨4, .unknownLabel "gone".toList⟩ := by decide
  obtain ⟨-, -, hbehind, -⟩ := names_interchangeable r lines lines' ⟨0, 0x1000⟩ hinj hlines
  obtain ⟨hlabels', hfault', -⟩ := hbehind hsurvey
  refine ⟨hinj, hlines, hlabels, ?_, hfault, ?_⟩
  · rw [hlabels', hlabels]
    decide
  · rw [hfault', hfault]
    decide

end Asm6502
