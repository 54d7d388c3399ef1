import Asm6502.Proofs.Acceptance

/-!
Lists of data may be cut at any comma. Each entry is read, measured and encoded on its own, so a
line with a list and two lines with its halves may stand for each other in any program.
-/

namespace Asm6502

/-! ## Lines that stand for each other -/

/-- Lines that are admitted at the same locations, where they define the same labels, lead to the
same location and are encoded, if they can be, as the same bytes. -/
structure Interchangeable (ms ms' : List SourceLine) : Prop where
  admits : ∀ c : Location, c.Admits ms ↔ c.Admits ms'
  definitions : ∀ c : Location, c.Admits ms → c.definitions ms = c.definitions ms'
  behind : ∀ c : Location, c.Admits ms → c.behind ms = c.behind ms'
  refusal : ∀ (labels : LabelTable) (c : Location), c.Admits ms →
    (c.refusal? labels ms = none ↔ c.refusal? labels ms' = none)
  cells : ∀ (labels : LabelTable) (c : Location), c.Admits ms → c.refusal? labels ms = none →
    c.cells? labels ms = c.cells? labels ms'

namespace Interchangeable

variable {ms ms' : List SourceLine}

theorem of_not_admitted (h : ∀ c : Location, ¬c.Admits ms) (h' : ∀ c : Location, ¬c.Admits ms') :
    Interchangeable ms ms' where
  admits c := iff_of_false (h c) (h' c)
  definitions c hms := absurd hms (h c)
  behind c hms := absurd hms (h c)
  refusal _ c hms := absurd hms (h c)
  cells _ c hms := absurd hms (h c)

theorem symm (h : Interchangeable ms ms') : Interchangeable ms' ms where
  admits c := (h.admits c).symm
  definitions c hms := (h.definitions c ((h.admits c).mpr hms)).symm
  behind c hms := (h.behind c ((h.admits c).mpr hms)).symm
  refusal labels c hms := (h.refusal labels c ((h.admits c).mpr hms)).symm
  cells labels c hms hrefusal :=
    have hms' := (h.admits c).mpr hms
    (h.cells labels c hms' ((h.refusal labels c hms').mpr hrefusal)).symm

theorem append_left (h : Interchangeable ms ms') (before : List SourceLine) :
    Interchangeable (before ++ ms) (before ++ ms') where
  admits c := by rw [Location.admits_append, Location.admits_append, h.admits]
  definitions c hadmits := by
    obtain ⟨-, hms⟩ := (Location.admits_append ..).mp hadmits
    rw [Location.definitions_append, Location.definitions_append, h.definitions _ hms]
  behind c hadmits := by
    obtain ⟨-, hms⟩ := (Location.admits_append ..).mp hadmits
    rw [Location.behind_append, Location.behind_append, h.behind _ hms]
  refusal labels c hadmits := by
    obtain ⟨-, hms⟩ := (Location.admits_append ..).mp hadmits
    simp only [Location.refusal?_append, Option.or_eq_none_iff, h.refusal labels _ hms]
  cells labels c hadmits hrefusal := by
    obtain ⟨-, hms⟩ := (Location.admits_append ..).mp hadmits
    rw [Location.refusal?_append, Option.or_eq_none_iff] at hrefusal
    apply Option.ext
    intro cells
    simp only [Location.cells?_append_eq_some, h.cells labels _ hms hrefusal.2]

theorem append_right (h : Interchangeable ms ms') (after : List SourceLine) :
    Interchangeable (ms ++ after) (ms' ++ after) where
  admits c := by
    rw [Location.admits_append, Location.admits_append, ← h.admits]
    exact and_congr_right fun hms => by rw [h.behind c hms]
  definitions c hadmits := by
    obtain ⟨hms, -⟩ := (Location.admits_append ..).mp hadmits
    rw [Location.definitions_append, Location.definitions_append, h.definitions c hms,
      h.behind c hms]
  behind c hadmits := by
    obtain ⟨hms, -⟩ := (Location.admits_append ..).mp hadmits
    rw [Location.behind_append, Location.behind_append, h.behind c hms]
  refusal labels c hadmits := by
    obtain ⟨hms, -⟩ := (Location.admits_append ..).mp hadmits
    simp only [Location.refusal?_append, Option.or_eq_none_iff, h.refusal labels c hms,
      h.behind c hms]
  cells labels c hadmits hrefusal := by
    obtain ⟨hms, -⟩ := (Location.admits_append ..).mp hadmits
    rw [Location.refusal?_append, Option.or_eq_none_iff] at hrefusal
    apply Option.ext
    intro cells
    simp only [Location.cells?_append_eq_some, h.cells labels c hms hrefusal.1, h.behind c hms]

theorem ofLines_eq_ok {config : Config} {a : Assembly} (h : Interchangeable ms ms')
    (ha : (Assembly.ofLines config ms).result = .ok a) :
    (Assembly.ofLines config ms').result = .ok a := by
  obtain ⟨hadmits, hnodup, hrefusal, cells, hcells, rfl⟩ := Assembly.ofLines_eq_ok_iff.mp ha
  have hdefinitions := h.definitions _ hadmits
  have htable : Location.table config.start.toNat ms = Location.table config.start.toNat ms' :=
    congrArg LabelTable.mk hdefinitions
  have hnames : labelNames ms = labelNames ms' := by
    rw [← Location.names_definitions config.start.toNat ms, hdefinitions,
      Location.names_definitions]
  rw [h.cells _ _ hadmits hrefusal, htable] at hcells
  rw [h.refusal _ _ hadmits, htable] at hrefusal
  rw [htable, h.behind _ hadmits]
  exact Assembly.ofLines_eq_ok_iff.mpr
    ⟨(h.admits _).mp hadmits, hnames ▸ hnodup, hrefusal, cells, hcells, rfl⟩

/-- In any program, `ms'` may stand for `ms`. -/
theorem ofLines_eq_ok_iff (h : Interchangeable ms ms') (config : Config)
    (before after : List SourceLine) (a : Assembly) :
    (Assembly.ofLines config (before ++ (ms ++ after))).result = .ok a ↔
      (Assembly.ofLines config (before ++ (ms' ++ after))).result = .ok a := by
  have hprogram := (h.append_right after).append_left before
  exact ⟨hprogram.ofLines_eq_ok, hprogram.symm.ofLines_eq_ok⟩

end Interchangeable

/-! ## Lists of entries -/

inductive DataDirective where
  | byte
  | word
  deriving DecidableEq, Repr

namespace DataDirective

def operation : DataDirective → Text
  | byte => ".BYTE".toList
  | word => ".WORD".toList

def Entry : DataDirective → Type
  | byte => Int32
  | word => Operand

def readEntry : (d : DataDirective) → Text → Except Fault d.Entry
  | byte => Literal.read
  | word => Operand.readWord

def statement : (d : DataDirective) → List d.Entry → Statement
  | byte => Statement.bytes
  | word => Statement.words

def entries (d : DataDirective) (operand : Text) : Except Fault (List d.Entry) :=
  (operand.splitOn ',').mapM d.readEntry

theorem read_eq (d : DataDirective) (operand : Text) :
    Statement.read d.operation operand = (d.entries operand).map d.statement := by
  cases d <;> rfl

theorem statement_inj {d : DataDirective} {xs ys : List d.Entry}
    (h : d.statement xs = d.statement ys) : xs = ys := by
  cases d with
  | byte => exact Statement.bytes.inj h
  | word => exact Statement.words.inj h

theorem read_eq_ok_iff {d : DataDirective} {operand : Text} {xs : List d.Entry} :
    Statement.read d.operation operand = .ok (d.statement xs) ↔ d.entries operand = .ok xs := by
  rw [read_eq, map_eq_ok]
  constructor
  · rintro ⟨ys, hys, hsame⟩
    rw [hys, statement_inj hsame]
  · intro hxs
    exact ⟨xs, hxs, rfl⟩

theorem read_eq_error_iff {d : DataDirective} {operand : Text} {f : Fault} :
    Statement.read d.operation operand = .error f ↔ d.entries operand = .error f := by
  rw [read_eq, map_eq_error]

theorem entries_append (d : DataDirective) (o₁ o₂ : Text) :
    d.entries (o₁ ++ ',' :: o₂) = do
      let xs ← d.entries o₁
      let ys ← d.entries o₂
      return xs ++ ys := by
  have hsplit : (o₁ ++ ',' :: o₂).splitOn ',' = o₁.splitOn ',' ++ o₂.splitOn ',' := by
    simp only [List.splitOn_eq_splitOnP]
    exact List.splitOnP_append_cons o₁ o₂ (by decide)
  rw [entries, hsplit, List.mapM_append]
  rfl

theorem size_append (d : DataDirective) (xs ys : List d.Entry) :
    (d.statement (xs ++ ys)).size = (d.statement xs).size + (d.statement ys).size := by
  cases d with
  | byte => exact List.length_append
  | word =>
    change 2 * (xs ++ ys).length = 2 * xs.length + 2 * ys.length
    rw [List.length_append]
    omega

theorem placing (d : DataDirective) (xs : List d.Entry) (address : UInt16) :
    d.statement xs ≠ .origin address := by
  cases d <;> exact nofun

/-- No entry asks where it is placed. -/
theorem encode_append (d : DataDirective) (labels : LabelTable) (c c' : Nat)
    (xs ys : List d.Entry) :
    (d.statement (xs ++ ys)).encode labels c = do
      let bs ← (d.statement xs).encode labels c
      let bs' ← (d.statement ys).encode labels c'
      return bs ++ bs' := by
  cases d with
  | byte => exact congrArg Except.ok List.map_append
  | word => exact Statement.encode_words_append xs ys

theorem encode_append_eq_ok_iff {d : DataDirective} {labels : LabelTable} {c : Nat} (c' : Nat)
    {xs ys : List d.Entry} {bytes : List UInt8} :
    (d.statement (xs ++ ys)).encode labels c = .ok bytes ↔
      ∃ bs bs', (d.statement xs).encode labels c = .ok bs ∧
        (d.statement ys).encode labels c' = .ok bs' ∧ bytes = bs ++ bs' := by
  rw [d.encode_append labels c c']
  simp only [bind_eq_ok, pure, Except.pure, Except.ok.injEq]
  constructor
  · rintro ⟨bs, hbs, bs', hbs', rfl⟩
    exact ⟨bs, bs', hbs, hbs', rfl⟩
  · rintro ⟨bs, bs', hbs, hbs', rfl⟩
    exact ⟨bs, hbs, bs', hbs', rfl⟩

/-! ## Lines of data -/

def line (d : DataDirective) (number : Nat) (label : Option Text) (operand : Text) : SourceLine :=
  ⟨number, label, some d.operation, operand⟩

section Line

variable {d : DataDirective} {number : Nat} {label : Option Text} {operand : Text} {c : Nat}

theorem statement_line : (d.line number label operand).statement =
    (d.entries operand).map fun xs => some (d.statement xs) := by
  change (Statement.read d.operation operand).map some = _
  rw [read_eq]
  cases d.entries operand <;> rfl

theorem not_admitted_of_error {f : Fault} (h : d.entries operand = .error f) :
    ¬(d.line number label operand).Admitted c := by
  rintro ⟨-, _, hstatement, -⟩
  rw [statement_line, h] at hstatement
  cases hstatement

variable {xs : List d.Entry} (h : d.entries operand = .ok xs)

include h

theorem statement_line_of_ok :
    (d.line number label operand).statement = .ok (some (d.statement xs)) := by
  rw [statement_line, h]
  rfl

theorem locationAfter_line :
    (d.line number label operand).locationAfter c = c + (d.statement xs).size :=
  SourceLine.locationAfter_of_placing c (statement_line_of_ok h) (d.placing xs)

theorem admitted_iff :
    (d.line number label operand).Admitted c ↔
      (label ≠ none → c < Location.limit) ∧ c + (d.statement xs).size ≤ Location.limit := by
  have hadvance : Survey.locationAfter c (d.statement xs) =
      Location.advance c (d.statement xs).size := by
    cases d <;> rfl
  constructor
  · rintro ⟨hlabelled, _, hstatement, hroom⟩
    rw [statement_line_of_ok h] at hstatement
    cases hstatement
    obtain ⟨after, hafter⟩ := hroom _ rfl
    rw [hadvance] at hafter
    obtain ⟨rfl, hle⟩ := Location.advance_eq_ok hafter
    exact ⟨hlabelled, hle⟩
  · rintro ⟨hlabelled, hle⟩
    refine ⟨hlabelled, some (d.statement xs), statement_line_of_ok h, ?_⟩
    rintro _ ⟨⟩
    exact ⟨c + (d.statement xs).size, hadvance.trans (if_pos hle)⟩

theorem refusal?_line_eq_none_iff {labels : LabelTable}
    (hadmitted : (d.line number label operand).Admitted c) :
    (d.line number label operand).refusal? labels c = none ↔
      ∃ bytes, (d.statement xs).encode labels c = .ok bytes :=
  SourceLine.refusal?_eq_none_iff hadmitted (statement_line_of_ok h) (d.placing xs)

theorem code?_line {labels : LabelTable} {bytes : List UInt8} (hc : c ≤ Location.limit)
    (hbytes : (d.statement xs).encode labels c = .ok bytes) :
    (d.line number label operand).code? labels c = some bytes := by
  simp only [SourceLine.code?, statement_line_of_ok h]
  exact Statement.encode_eq_ok hc hbytes

end Line

section Cut

variable {d : DataDirective} {number : Nat} {label : Option Text} {o₁ o₂ : Text}
  {xs ys : List d.Entry} {c : Nat} (h₁ : d.entries o₁ = .ok xs) (h₂ : d.entries o₂ = .ok ys)

include h₁ h₂

theorem entries_append_of_ok : d.entries (o₁ ++ ',' :: o₂) = .ok (xs ++ ys) := by
  rw [entries_append, h₁, h₂]
  rfl

theorem admits_cut_iff :
    Location.Admits c [d.line number label (o₁ ++ ',' :: o₂)] ↔
      Location.Admits c [d.line number label o₁, d.line number none o₂] := by
  simp only [Location.Admits, admitted_iff (entries_append_of_ok h₁ h₂), admitted_iff h₁,
    admitted_iff h₂, locationAfter_line h₁, d.size_append xs ys, and_true]
  constructor
  · rintro ⟨hlabelled, hroom⟩
    -- the second line has no label, so it is asked for its room alone
    exact ⟨⟨hlabelled, by omega⟩, fun hnone => absurd rfl hnone, by omega⟩
  · rintro ⟨⟨hlabelled, -⟩, -, hroom⟩
    exact ⟨hlabelled, by omega⟩

/-- Both lines of a list that is cut are emitted, or the list is not either. -/
theorem refusal?_cut_iff {labels : LabelTable}
    (hadmits : Location.Admits c [d.line number label (o₁ ++ ',' :: o₂)]) :
    Location.refusal? labels c [d.line number label (o₁ ++ ',' :: o₂)] = none ↔
      Location.refusal? labels c [d.line number label o₁, d.line number none o₂] = none := by
  obtain ⟨hfirst, hsecond, -⟩ := (admits_cut_iff h₁ h₂).mp hadmits
  rw [locationAfter_line h₁] at hsecond
  simp only [Location.refusal?, Option.or_eq_none_iff, Option.map_eq_none_iff, and_true,
    locationAfter_line h₁, refusal?_line_eq_none_iff (entries_append_of_ok h₁ h₂) hadmits.1,
    refusal?_line_eq_none_iff h₁ hfirst, refusal?_line_eq_none_iff h₂ hsecond,
    encode_append_eq_ok_iff (c + (d.statement xs).size)]
  constructor
  · rintro ⟨_, bs, bs', hbs, hbs', rfl⟩
    exact ⟨⟨bs, hbs⟩, bs', hbs'⟩
  · rintro ⟨⟨bs, hbs⟩, bs', hbs'⟩
    exact ⟨bs ++ bs', bs, bs', hbs, hbs', rfl⟩

theorem cells?_cut {labels : LabelTable}
    (hadmits : Location.Admits c [d.line number label (o₁ ++ ',' :: o₂)])
    (hrefusal : Location.refusal? labels c [d.line number label (o₁ ++ ',' :: o₂)] = none) :
    Location.cells? labels c [d.line number label (o₁ ++ ',' :: o₂)] =
      Location.cells? labels c [d.line number label o₁, d.line number none o₂] := by
  have h := entries_append_of_ok h₁ h₂
  obtain ⟨-, hroom⟩ := (admitted_iff h).mp hadmits.1
  rw [d.size_append] at hroom
  rw [Location.refusal?, Option.or_eq_none_iff, Option.map_eq_none_iff,
    refusal?_line_eq_none_iff h hadmits.1] at hrefusal
  obtain ⟨⟨bytes, hbytes⟩, -⟩ := hrefusal
  obtain ⟨bs, bs', hbs, hbs', rfl⟩ :=
    (encode_append_eq_ok_iff (c + (d.statement xs).size)).mp hbytes
  have hsecond : (d.line number none o₂).code? labels (c + (d.statement xs).size) = some bs' :=
    code?_line h₂ (by omega) hbs'
  simp [Location.cells?, code?_line h (by omega) hbytes, code?_line h₁ (by omega) hbs,
    locationAfter_line h₁, hsecond, List.zipIdx_append, Statement.length_encode hbs]

theorem interchangeable_of_ok :
    Interchangeable [d.line number label (o₁ ++ ',' :: o₂)]
      [d.line number label o₁, d.line number none o₂] where
  admits _ := admits_cut_iff h₁ h₂
  definitions c _ := by simp [Location.definitions, SourceLine.definition?, line]
  behind c _ := by
    simp only [Location.behind_cons, Location.behind_nil, locationAfter_line h₁,
      locationAfter_line h₂, locationAfter_line (entries_append_of_ok h₁ h₂), d.size_append]
    exact (Nat.add_assoc ..).symm
  refusal _ _ hadmits := refusal?_cut_iff h₁ h₂ hadmits
  cells _ _ hadmits hrefusal := cells?_cut h₁ h₂ hadmits hrefusal

end Cut

/-- A list may be cut whether its entries can be read or not. -/
theorem interchangeable_cut (d : DataDirective) (number : Nat) (label : Option Text)
    (o₁ o₂ : Text) :
    Interchangeable [d.line number label (o₁ ++ ',' :: o₂)]
      [d.line number label o₁, d.line number none o₂] := by
  have happend := d.entries_append o₁ o₂
  -- what cannot be read is admitted nowhere, cut or not
  cases h₁ : d.entries o₁ with
  | error f =>
    rw [h₁] at happend
    exact .of_not_admitted (fun _ hadmits => not_admitted_of_error happend hadmits.1)
      fun _ hadmits => not_admitted_of_error h₁ hadmits.1
  | ok xs =>
    cases h₂ : d.entries o₂ with
    | error f =>
      rw [h₁, h₂] at happend
      exact .of_not_admitted (fun _ hadmits => not_admitted_of_error happend hadmits.1)
        fun _ hadmits => not_admitted_of_error h₂ hadmits.2.1
    | ok ys => exact interchangeable_of_ok h₁ h₂

end DataDirective

/-- A list of data is read as the entries `o₁` and `o₂` on both sides of any of its commas, or fails
as the first side does that cannot be read. In every program it may be cut there into two lines, the
second one without a label: `ofLines` succeeds on both programs or on neither, with the same image,
labels and location. -/
theorem data_lists_cut (d : DataDirective) (o₁ o₂ : Text) :
    (∀ o, (∃ xs, Statement.read d.operation o = .ok (d.statement xs)) ∨
        ∃ f, Statement.read d.operation o = .error f) ∧
      (∀ xs ys, Statement.read d.operation o₁ = .ok (d.statement xs) →
        Statement.read d.operation o₂ = .ok (d.statement ys) →
        Statement.read d.operation (o₁ ++ ',' :: o₂) = .ok (d.statement (xs ++ ys))) ∧
      (∀ f, Statement.read d.operation o₁ = .error f →
        Statement.read d.operation (o₁ ++ ',' :: o₂) = .error f) ∧
      (∀ xs f, Statement.read d.operation o₁ = .ok (d.statement xs) →
        Statement.read d.operation o₂ = .error f →
        Statement.read d.operation (o₁ ++ ',' :: o₂) = .error f) ∧
      ∀ (config : Config) (before after : List SourceLine) (number : Nat) (label : Option Text)
        (a : Assembly),
        (Assembly.ofLines config
            (before ++ ⟨number, label, some d.operation, o₁ ++ ',' :: o₂⟩ :: after)).result = .ok a ↔
          (Assembly.ofLines config
            (before ++ ⟨number, label, some d.operation, o₁⟩ ::
              ⟨number, none, some d.operation, o₂⟩ :: after)).result = .ok a := by
  simp only [DataDirective.read_eq_ok_iff, DataDirective.read_eq_error_iff]
  refine ⟨?_, ?_, ?_, ?_, ?_⟩
  · intro o
    cases d.entries o with
    | error f => exact .inr ⟨f, rfl⟩
    | ok xs => exact .inl ⟨xs, rfl⟩
  · intro xs ys h₁ h₂
    exact DataDirective.entries_append_of_ok h₁ h₂
  · intro f h₁
    rw [d.entries_append, h₁]
    rfl
  · intro xs f h₁ h₂
    rw [d.entries_append, h₁, h₂]
    rfl
  · intro config before after number label a
    exact (d.interchangeable_cut number label o₁ o₂).ofLines_eq_ok_iff config before after a

/-- A list with a forward reference, across the end of the image; the last byte of the program is
the last of the address space. -/
theorem data_lists_cut_across_end :
    let after : List SourceLine :=
      [⟨2, none, some ".ORG".toList, "$FFFF".toList⟩,
        ⟨3, some "last".toList, some ".BYTE".toList, "7".toList⟩]
    let a : Assembly :=
      ⟨⟨#[0xFF, 0xFF, 2], 2⟩, ⟨[⟨"top".toList, 0, 1⟩, ⟨"last".toList, 0xFFFF, 3⟩]⟩, 0x10000⟩
    Statement.read ".WORD".toList "last, $0102".toList =
        .ok (.words [.label "last".toList, .value 0x102]) ∧
      Statement.read ".BYTE".toList "7,".toList = .error (.malformedLiteral []) ∧
      (Assembly.ofLines ⟨3, 0⟩ (⟨1, some "top".toList, some ".WORD".toList, "last".toList⟩ ::
        ⟨1, none, some ".WORD".toList, " $0102".toList⟩ :: after)).result = .ok a ∧
      (Assembly.ofLines ⟨3, 0⟩
        (⟨1, some "top".toList, some ".WORD".toList, "last, $0102".toList⟩ :: after)).result =
          .ok a := by
  intro after a
  obtain ⟨-, hwords, -, -, hprogram⟩ := data_lists_cut .word "last".toList " $0102".toList
  obtain ⟨-, -, -, hfault, -⟩ := data_lists_cut .byte "7".toList []
  have hcut : (Assembly.ofLines ⟨3, 0⟩
      (⟨1, some "top".toList, some ".WORD".toList, "last".toList⟩ ::
        ⟨1, none, some ".WORD".toList, " $0102".toList⟩ :: after)).result = .ok a := by
    decide
  refine ⟨hwords [.label "last".toList] [.value 0x102] rfl (by decide), ?_, hcut,
    (hprogram ⟨3, 0⟩ [] after 1 (some "top".toList) a).mpr hcut⟩
  exact hfault [(7 : Int32)] (.malformedLiteral []) (by decide) (by decide)

end Asm6502
