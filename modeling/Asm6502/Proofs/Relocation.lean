import Asm6502.Proofs.Acceptance
import Asm6502.Proofs.StatementRoundTrip
import Mathlib.Data.List.Forall2

/-!
Lines without an origin can be moved as a whole. From another start, every label moves by the
difference of the starts, and so do the words that hold the address of a label; all other bytes
stay, those of branches to labels among them, and the same line is at fault, if any is.
-/

namespace Asm6502

/-! ## Words that hold an address -/

def word? (bytes : List UInt8) (place : Nat) : Option Nat := do
  let low ← bytes[place]?
  let high ← bytes[place + 1]?
  some (low.toNat + 0x100 * high.toNat)

/-- The places of words, each with the label whose address the word holds. -/
abbrev AddressFields := List (Nat × Text)

/-- The same fields behind `count` more bytes. -/
def AddressFields.behind (count : Nat) (fields : AddressFields) : AddressFields :=
  fields.map fun field => (count + field.1, field.2)

/-- The field of an operand whose bytes are a word. -/
def Operand.addressFields (o : Operand) : AddressFields :=
  o.name?.toList.map fun name => (0, name)

def Operand.wordFields : List Operand → AddressFields
  | [] => []
  | o :: entries => o.addressFields ++ AddressFields.behind 2 (wordFields entries)

/-- The fields among the bytes of a statement. A branch holds a distance, and no address. -/
def Statement.addressFields : Statement → AddressFields
  | instruction i =>
    if i.mode = .relative then [] else AddressFields.behind 1 i.operand.addressFields
  | words entries => Operand.wordFields entries
  | origin _ | bytes _ => []

theorem word?_append_left {bs : List UInt8} {place n : Nat} (h : word? bs place = some n)
    (cs : List UInt8) : word? (bs ++ cs) place = some n := by
  simp only [word?, Option.bind_eq_bind, Option.bind_eq_some_iff] at h ⊢
  obtain ⟨low, hlow, high, hhigh, hn⟩ := h
  have hlow' : place < bs.length := (List.getElem?_eq_some_iff.mp hlow).1
  have hhigh' : place + 1 < bs.length := (List.getElem?_eq_some_iff.mp hhigh).1
  exact ⟨low, by rw [List.getElem?_append_left hlow', hlow], high,
    by rw [List.getElem?_append_left hhigh', hhigh], hn⟩

theorem word?_append_right (bs cs : List UInt8) (place : Nat) :
    word? (bs ++ cs) (bs.length + place) = word? cs place := by
  have hlow : (bs ++ cs)[bs.length + place]? = cs[place]? := by
    rw [List.getElem?_append_right (Nat.le_add_right ..), Nat.add_sub_cancel_left]
  have hhigh : (bs ++ cs)[bs.length + place + 1]? = cs[place + 1]? := by
    rw [Nat.add_assoc, List.getElem?_append_right (Nat.le_add_right ..), Nat.add_sub_cancel_left]
  rw [word?, word?, hlow, hhigh]

theorem word?_littleEndian (a : UInt16) : word? (littleEndian a.toNat) 0 = some a.toNat := by
  have hlt : a.toNat < 0x10000 := a.toNat_lt
  have hlow := toNat_lowByte a.toNat
  have hhigh := toNat_lowByte (a.toNat / 0x100)
  show some ((lowByte (a.toNat : Int)).toNat +
    0x100 * (lowByte ((a.toNat : Int) / 0x100)).toNat) = some a.toNat
  congr 1
  omega

/-! ## Two tables a shift apart -/

/-- A label at another place. -/
structure Label.Moved (shift : Int) (d d' : Label) : Prop where
  name : d'.name = d.name
  line : d'.line = d.line
  address : (d'.address.toNat : Int) = d.address.toNat + shift

/-- A name has no address in either table, or two that are the shift apart. -/
def LabelTable.Moved (shift : Int) (labels labels' : LabelTable) : Prop :=
  ∀ name, (labels.address? name = none ∧ labels'.address? name = none) ∨
    ∃ a a', labels.address? name = some a ∧ labels'.address? name = some a' ∧
      (a'.toNat : Int) = a.toNat + shift

/-- The bytes are the same but for the words in `fields`, which hold the address of a label, and
these hold addresses that are `shift` apart. -/
structure Relocated (shift : Int) (labels labels' : LabelTable) (fields : AddressFields)
    (bytes bytes' : List UInt8) : Prop where
  length : bytes'.length = bytes.length
  fixed : ∀ place, (∀ field ∈ fields, place ≠ field.1 ∧ place ≠ field.1 + 1) →
    bytes'[place]? = bytes[place]?
  moved : ∀ field ∈ fields, ∃ a a', labels.address? field.2 = some a ∧
    labels'.address? field.2 = some a' ∧ word? bytes field.1 = some a.toNat ∧
    word? bytes' field.1 = some a'.toNat ∧ (a'.toNat : Int) = a.toNat + shift

section Shift

variable {shift : Int} {labels labels' : LabelTable}

theorem find?_moved {ds ds' : List Label} (h : List.Forall₂ (Label.Moved shift) ds ds')
    (name : Text) :
    (ds.find? (fun d => d.name = name) = none ∧ ds'.find? (fun d => d.name = name) = none) ∨
      ∃ d d', ds.find? (fun d => d.name = name) = some d ∧
        ds'.find? (fun d => d.name = name) = some d' ∧ Label.Moved shift d d' := by
  induction h with
  | nil => exact .inl ⟨rfl, rfl⟩
  | @cons d d' ds ds' hd _ ih =>
    rw [List.find?_cons, List.find?_cons, hd.name]
    by_cases hname : d.name = name
    · simp only [hname, decide_true]
      exact .inr ⟨d, d', rfl, rfl, hd⟩
    · simp only [hname, decide_false]
      exact ih

theorem LabelTable.moved_of_entries
    (h : List.Forall₂ (Label.Moved shift) labels.entries labels'.entries) :
    LabelTable.Moved shift labels labels' := by
  intro name
  unfold address? find?
  obtain ⟨hnone, hnone'⟩ | ⟨d, d', hd, hd', hmoved⟩ := find?_moved h name
  · rw [hnone, hnone']
    exact .inl ⟨rfl, rfl⟩
  · rw [hd, hd']
    exact .inr ⟨d.address, d'.address, rfl, rfl, hmoved.address⟩

theorem relocated_self (bytes : List UInt8) : Relocated shift labels labels' [] bytes bytes :=
  ⟨rfl, fun _ _ => rfl, by simp⟩

theorem Relocated.eq_of_nil {bytes bytes' : List UInt8}
    (h : Relocated shift labels labels' [] bytes bytes') : bytes' = bytes :=
  List.ext_getElem? fun place => h.fixed place (by simp)

theorem Relocated.append {fields later : AddressFields} {bs bs' cs cs' : List UInt8}
    (h : Relocated shift labels labels' fields bs bs')
    (k : Relocated shift labels labels' later cs cs') :
    Relocated shift labels labels' (fields ++ AddressFields.behind bs.length later) (bs ++ cs)
      (bs' ++ cs') := by
  refine ⟨?_, ?_, ?_⟩
  · rw [List.length_append, List.length_append, h.length, k.length]
  · intro place hplace
    by_cases hlt : place < bs.length
    · rw [List.getElem?_append_left hlt, List.getElem?_append_left (h.length ▸ hlt)]
      exact h.fixed place fun field hfield => hplace field (List.mem_append_left _ hfield)
    · have hle : bs.length ≤ place := Nat.le_of_not_lt hlt
      rw [List.getElem?_append_right hle, List.getElem?_append_right (h.length ▸ hle), h.length]
      apply k.fixed
      intro field hfield
      have hne := hplace (bs.length + field.1, field.2)
        (List.mem_append_right _ (List.mem_map.mpr ⟨field, hfield, rfl⟩))
      omega
  · intro field hfield
    obtain hfield | hfield := List.mem_append.mp hfield
    · obtain ⟨a, a', ha, ha', hword, hword', hshift⟩ := h.moved field hfield
      exact ⟨a, a', ha, ha', word?_append_left hword cs, word?_append_left hword' cs', hshift⟩
    · obtain ⟨g, hg, rfl⟩ := List.mem_map.mp hfield
      obtain ⟨a, a', ha, ha', hword, hword', hshift⟩ := k.moved g hg
      refine ⟨a, a', ha, ha', ?_, ?_, hshift⟩
      · rw [word?_append_right, hword]
      · rw [← h.length, word?_append_right, hword']

/-! ## Operands -/

/-- The values of an operand under the two tables: the same number, or the two addresses of its
label. -/
inductive Operand.Shifted (shift : Int) (labels labels' : LabelTable) : Operand → Int → Int → Prop
  | number {o : Operand} (h : o.name? = none) (v : Int) : Shifted shift labels labels' o v v
  | address {name : Text} {a a' : UInt16} (ha : labels.address? name = some a)
      (ha' : labels'.address? name = some a') (h : (a'.toNat : Int) = a.toNat + shift) :
      Shifted shift labels labels' (.label name) a.toNat a'.toNat

theorem Operand.resolve_shifted (h : LabelTable.Moved shift labels labels') (o : Operand) :
    Alike (o.Shifted shift labels labels') (o.resolve labels) (o.resolve labels') := by
  cases o with
  | implied => exact .ok (.number rfl 0)
  | value v => exact .ok (.number rfl v.toInt)
  | label name =>
    obtain ⟨hnone, hnone'⟩ | ⟨a, a', ha, ha', hshift⟩ := h name
    · simp only [resolve, hnone, hnone']
      exact .error _
    · simp only [resolve, ha, ha']
      exact .ok (.address ha ha' hshift)

theorem Operand.Shifted.eq_of_number {o : Operand} {v v' : Int}
    (h : o.Shifted shift labels labels' v v') (hname : o.name? = none) : v' = v := by
  cases h with
  | number => rfl
  | address => cases hname

theorem Operand.Shifted.eq_of_label {o : Operand} {v v' : Int} {name : Text}
    (h : o.Shifted shift labels labels' v v') (hname : o.name? = some name) : v' = v + shift := by
  cases h with
  | number hnone =>
    rw [hnone] at hname
    cases hname
  | address ha ha' hshift => exact hshift

theorem Operand.Shifted.relocated {o : Operand} {v v' : Int}
    (h : o.Shifted shift labels labels' v v') :
    Relocated shift labels labels' o.addressFields (littleEndian v) (littleEndian v') := by
  cases h with
  | number hname =>
    rw [addressFields, hname]
    exact relocated_self _
  | @address name a a' ha ha' hshift =>
    have hlength : ∀ u : Int, (littleEndian u).length = 2 := fun _ => rfl
    refine ⟨rfl, ?_, ?_⟩
    · intro place hplace
      have hne := hplace (0, name) (by simp [addressFields, name?])
      have hle : 2 ≤ place := by omega
      rw [List.getElem?_eq_none (by rw [hlength]; exact hle),
        List.getElem?_eq_none (by rw [hlength]; exact hle)]
    · intro field hfield
      obtain rfl : field = (0, name) := by simpa [addressFields, name?] using hfield
      exact ⟨a, a', ha, ha', word?_littleEndian a, word?_littleEndian a', hshift⟩

theorem words_relocated (h : LabelTable.Moved shift labels labels') (entries : List Operand) :
    Alike (fun vs vs' => Relocated shift labels labels' (Operand.wordFields entries)
        (vs.flatMap littleEndian) (vs'.flatMap littleEndian))
      (entries.mapM (Operand.resolve labels)) (entries.mapM (Operand.resolve labels')) := by
  induction entries with
  | nil => exact .ok (relocated_self _)
  | cons o entries ih =>
    rw [List.mapM_cons, List.mapM_cons]
    apply (Operand.resolve_shifted h o).bind
    intro v v' hv
    apply ih.bind
    intro vs vs' hvs
    exact .ok (hv.relocated.append hvs)

/-! ## Statements -/

/-- What an instruction needs to be moved: a branch has a label as its target, and a label
elsewhere takes a word. -/
structure Instruction.Movable (i : Instruction) : Prop where
  target : i.mode = .relative → ∃ name, i.operand = .label name
  word : i.mode ≠ .relative → ∀ name, i.operand = .label name → i.mode.operandSize = 2

theorem distance_shifted {c c' size : Nat} {v v' : Int} (hc : (c' : Int) = c + shift)
    (hv : v' = v + shift) : distance c' size v' = distance c size v := by
  have hsame : v' - (c' + size : Int) = v - (c + size : Int) := by omega
  rw [distance, distance, hsame]

theorem Instruction.operandBytes_relocated {i : Instruction} (hi : i.Movable) {c c' : Nat}
    {v v' : Int} (hc : (c' : Int) = c + shift) (hv : i.operand.Shifted shift labels labels' v v') :
    Alike (Relocated shift labels labels'
        (if i.mode = .relative then [] else i.operand.addressFields))
      (i.mode.operandBytes c v) (i.mode.operandBytes c' v') := by
  unfold Mode.operandBytes
  by_cases hmode : i.mode = .relative
  · rw [if_pos hmode, if_pos hmode, if_pos hmode]
    obtain ⟨name, hname⟩ := hi.target hmode
    have hshift : v' = v + shift := hv.eq_of_label (Operand.name?_eq_some.mpr hname)
    have hdistance : displacement c' i.mode.instructionSize v' =
        displacement c i.mode.instructionSize v := by
      rw [displacement, displacement, distance_shifted hc hshift]
    rw [hdistance]
    exact Alike.refl relocated_self _
  · rw [if_neg hmode, if_neg hmode, if_neg hmode]
    cases hname : i.operand.name? with
    | none =>
      rw [Operand.addressFields, hname, hv.eq_of_number hname]
      exact .ok (relocated_self _)
    | some name =>
      have hsize := hi.word hmode name (Operand.name?_eq_some.mp hname)
      have htake : ∀ u : Int, (littleEndian u).take i.mode.operandSize = littleEndian u := by
        intro u
        rw [hsize]
        rfl
      rw [htake, htake]
      exact .ok hv.relocated

theorem Instruction.encode_relocated {i : Instruction} (hi : i.Movable) {c c' : Nat}
    (hc : (c' : Int) = c + shift) (h : LabelTable.Moved shift labels labels') :
    Alike (Relocated shift labels labels' (Statement.instruction i).addressFields)
      (i.encode labels c) (i.encode labels' c') := by
  have hfields : (Statement.instruction i).addressFields = [] ++
      AddressFields.behind 1 (if i.mode = .relative then [] else i.operand.addressFields) := by
    by_cases hmode : i.mode = .relative <;>
      simp [Statement.addressFields, AddressFields.behind, hmode]
  unfold Instruction.encode
  apply (Alike.refl (R := Eq) (fun _ => rfl) i.opcode).bind
  rintro code _ rfl
  apply (Operand.resolve_shifted h i.operand).bind
  intro v v' hv
  apply (Instruction.operandBytes_relocated hi hc hv).bind
  intro bytes bytes' hbytes
  rw [hfields]
  exact .ok ((relocated_self [code]).append hbytes)

theorem Statement.encode_relocated {statement : Statement}
    (hi : ∀ i, statement = .instruction i → i.Movable) {c c' : Nat}
    (hc : (c' : Int) = c + shift) (h : LabelTable.Moved shift labels labels') :
    Alike (Relocated shift labels labels' statement.addressFields)
      (statement.encode labels c) (statement.encode labels' c') := by
  cases statement with
  | instruction i => exact Instruction.encode_relocated (hi i rfl) hc h
  | origin address => exact .ok (relocated_self _)
  | bytes values => exact .ok (relocated_self _)
  | words entries => exact (words_relocated h entries).map fun _ _ hvs => hvs

theorem Statement.addressFields_of_branch {i : Instruction} {c : Location} {bytes : List UInt8}
    (h : i.encode labels c = .ok bytes) (hbranch : i.mnemonic.isBranch = true) :
    (Statement.instruction i).addressFields = [] := by
  obtain ⟨code, hcode, -⟩ := bind_eq_ok.mp h
  have hmode := (Mnemonic.relative_iff (Instruction.opcode_eq_ok.mp hcode)).mpr hbranch
  exact if_pos hmode

/-! ## Lines -/

structure SourceLine.Movable (l : SourceLine) : Prop where
  plain : ∀ address, l.statement ≠ .ok (some (.origin address))
  instruction : ∀ i, l.statement = .ok (some (.instruction i)) → i.Movable

theorem SourceLine.readable {l : SourceLine} {i : Instruction}
    (h : l.statement = .ok (some (.instruction i))) :
    Instruction.Readable i.mnemonic i.mode i.operand := by
  unfold SourceLine.statement at h
  split at h
  · cases h
  · obtain ⟨statement, hread, hsome⟩ := map_eq_ok.mp h
    cases hsome
    obtain ⟨m, j, hj, hij⟩ | horigin | ⟨values, -, hvalues⟩ | ⟨entries, -, hentries⟩ :=
      Statement.read_eq_ok hread
    · cases hij
      obtain ⟨rfl, hreadable⟩ := Instruction.readable_of_read hj
      exact hreadable
    · obtain ⟨address, haddress⟩ := Statement.readOrigin_eq_ok horigin
      cases haddress
    · cases hvalues
    · cases hentries

theorem Mode.sized_ne_relative {short long : Mode} (hshort : short ≠ .relative)
    (hlong : long ≠ .relative) (v : Int32) : Mode.sized short long v ≠ .relative := by
  obtain hmode | hmode := Mode.sized_eq short long v
  · rw [hmode]
    exact hshort
  · rw [hmode]
    exact hlong

/-- A label is read only where a word or the target of a branch is expected. -/
theorem Instruction.Readable.movable {m : Mnemonic} {mode : Mode} {operand : Operand}
    (h : Readable m mode operand) (htarget : m.isBranch = true → ∀ v, operand ≠ .value v) :
    Movable ⟨m, mode, operand⟩ := by
  cases h with
  | accumulator => exact ⟨by simp, by simp⟩
  | implied => exact ⟨by simp, by simp⟩
  | literal hmode v =>
    refine ⟨?_, by simp⟩
    intro hrelative
    obtain hmode | hmode | hmode | hmode := hmode <;> rw [hmode] at hrelative <;> cases hrelative
  | numberX v =>
    exact ⟨fun h => absurd h (Mode.sized_ne_relative (by decide) (by decide) v), by simp⟩
  | labelX => exact ⟨by simp, by simp [Mode.operandSize]⟩
  | numberY v =>
    exact ⟨fun h => absurd h (Mode.sized_ne_relative (by decide) (by decide) v), by simp⟩
  | labelY => exact ⟨by simp, by simp [Mode.operandSize]⟩
  | target hbranch v => exact absurd rfl (htarget hbranch v)
  | number hbranch v =>
    exact ⟨fun h => absurd h (Mode.sized_ne_relative (by decide) (by decide) v), by simp⟩
  | label =>
    refine ⟨fun _ => ⟨_, rfl⟩, ?_⟩
    intro hmode
    cases hbranch : m.isBranch with
    | true => simp [hbranch] at hmode
    | false => simp [Mode.operandSize]

theorem SourceLine.movable {l : SourceLine}
    (hplain : ∀ address, l.statement ≠ .ok (some (.origin address)))
    (htarget : ∀ i v, l.statement = .ok (some (.instruction i)) →
      i.mnemonic.isBranch = true → i.operand ≠ .value v) : l.Movable :=
  ⟨hplain, fun i hi => (SourceLine.readable hi).movable fun hbranch v => htarget i v hi hbranch⟩

theorem SourceLine.locationAfter_shifted {l : SourceLine}
    (h : ∀ address, l.statement ≠ .ok (some (.origin address))) {c c' : Nat}
    (hc : (c' : Int) = c + shift) :
    (l.locationAfter c' : Int) = (l.locationAfter c : Int) + shift := by
  unfold locationAfter
  split
  · rename_i address horigin
    exact absurd horigin (h address)
  · push_cast
    omega
  · exact hc

theorem Location.behind_shifted {lines : List SourceLine}
    (h : ∀ l ∈ lines, ∀ address, l.statement ≠ .ok (some (.origin address))) {c c' : Nat}
    (hc : (c' : Int) = c + shift) :
    (Location.behind c' lines : Int) = (Location.behind c lines : Int) + shift := by
  induction lines generalizing c c' with
  | nil => exact hc
  | cons l lines ih =>
    have hl := l.locationAfter_shifted (h l List.mem_cons_self) hc
    exact ih (fun m hm => h m (List.mem_cons_of_mem l hm)) hl

theorem SourceLine.definition?_moved {l : SourceLine} {c c' : Nat} (h : l.Admitted c)
    (h' : l.Admitted c') (hc : (c' : Int) = c + shift) :
    List.Forall₂ (Label.Moved shift) (l.definition? c).toList (l.definition? c').toList := by
  unfold definition?
  cases hlabel : l.label with
  | none => exact .nil
  | some name =>
    have hlt : c < Location.limit := h.labelled (by simp [hlabel])
    have hlt' : c' < Location.limit := h'.labelled (by simp [hlabel])
    refine .cons ⟨rfl, rfl, ?_⟩ .nil
    show ((UInt16.ofNat c').toNat : Int) = (UInt16.ofNat c).toNat + shift
    rw [UInt16.toNat_ofNat_of_lt' hlt, UInt16.toNat_ofNat_of_lt' hlt', hc]

theorem Location.definitions_moved {lines : List SourceLine}
    (hplain : ∀ l ∈ lines, ∀ address, l.statement ≠ .ok (some (.origin address))) {c c' : Nat}
    (h : Location.Admits c lines) (h' : Location.Admits c' lines) (hc : (c' : Int) = c + shift) :
    List.Forall₂ (Label.Moved shift) (Location.definitions c lines)
      (Location.definitions c' lines) := by
  induction lines generalizing c c' with
  | nil => exact .nil
  | cons l lines ih =>
    have hl := l.locationAfter_shifted (hplain l List.mem_cons_self) hc
    have hrest := ih (fun m hm => hplain m (List.mem_cons_of_mem l hm)) h.2 h'.2 hl
    exact List.rel_append (SourceLine.definition?_moved h.1 h'.1 hc) hrest

theorem SourceLine.Movable.placing {l : SourceLine} (hl : l.Movable) {statement : Statement}
    (h : l.statement = .ok (some statement)) (address : UInt16) : statement ≠ .origin address := by
  rintro rfl
  exact hl.plain address h

theorem SourceLine.Movable.encode_relocated {l : SourceLine} (hl : l.Movable)
    {statement : Statement} (h : l.statement = .ok (some statement)) {c c' : Nat}
    (hc : (c' : Int) = c + shift) (htable : LabelTable.Moved shift labels labels') :
    Alike (Relocated shift labels labels' statement.addressFields)
      (statement.encode labels c) (statement.encode labels' c') := by
  apply Statement.encode_relocated ?_ hc htable
  rintro i rfl
  exact hl.instruction i h

theorem SourceLine.refusal?_relocated {l : SourceLine} (hl : l.Movable) {c c' : Nat}
    (h : l.Admitted c) (h' : l.Admitted c') (hc : (c' : Int) = c + shift)
    (htable : LabelTable.Moved shift labels labels') :
    l.refusal? labels' c' = l.refusal? labels c := by
  obtain ⟨statement, hstatement, -⟩ := h.room
  cases statement with
  | none => simp [refusal?, hstatement]
  | some statement =>
    have hplacing := hl.placing hstatement
    have halike := hl.encode_relocated hstatement hc htable
    apply Option.ext
    intro fault
    rw [refusal?_of_admitted h' hstatement hplacing, refusal?_of_admitted h hstatement hplacing]
    exact halike.eq_error_iff.symm

theorem Location.refusal?_relocated {lines : List SourceLine} (hlines : ∀ l ∈ lines, l.Movable)
    {c c' : Nat} (h : Location.Admits c lines) (h' : Location.Admits c' lines)
    (hc : (c' : Int) = c + shift) (htable : LabelTable.Moved shift labels labels') :
    Location.refusal? labels' c' lines = Location.refusal? labels c lines := by
  induction lines generalizing c c' with
  | nil => rfl
  | cons l lines ih =>
    have hl := hlines l List.mem_cons_self
    have hafter := l.locationAfter_shifted hl.plain hc
    have hrest := ih (fun m hm => hlines m (List.mem_cons_of_mem l hm)) h.2 h'.2 hafter
    rw [Location.refusal?, Location.refusal?, l.refusal?_relocated hl h.1 h'.1 hc htable, hrest]

/-! ## Emissions -/

/-- Between the two states, the bytes of the statement have been written where it stands. -/
structure Emission.Writes (labels : LabelTable) (statement : Statement) (bytes : List UInt8)
    (e u : Emission) : Prop where
  code : statement.encode labels e.location = .ok bytes
  image : u.image = e.image.writeAll (bytes.zipIdx e.location)

theorem Emission.exists_writes {l : SourceLine} {statement : Statement} {e u : Emission}
    (hstatement : l.statement = .ok (some statement))
    (hplacing : ∀ address, statement ≠ .origin address) (h : line labels l e = (u, none)) :
    ∃ bytes, Writes labels statement bytes e u := by
  obtain ⟨hnone, -⟩ | ⟨address, horigin, -⟩ | ⟨found, bytes, hfound, -, hencode, -, rfl⟩ :=
    line_eq_none h
  · rw [hstatement] at hnone
    cases hnone
  · rw [hstatement] at horigin
    cases horigin
    exact absurd rfl (hplacing address)
  · rw [hstatement] at hfound
    cases hfound
    exact ⟨bytes, hencode, image_foldl_put _ _⟩

/-- What one emission passes, the other passes too, with bytes that are relocated. -/
theorem Emission.line_relocated {l : SourceLine} (hl : l.Movable) {e e' u : Emission}
    (hadmitted : l.Admitted e.location) (hadmitted' : l.Admitted e'.location)
    (hc : (e'.location : Int) = (e.location : Int) + shift)
    (htable : LabelTable.Moved shift labels labels') (h : line labels l e = (u, none)) :
    ∃ u', line labels' l e' = (u', none) ∧
      ∀ statement, l.statement = .ok (some statement) →
        ∃ bytes bytes', Writes labels statement bytes e u ∧ Writes labels' statement bytes' e' u' ∧
          Relocated shift labels labels' statement.addressFields bytes bytes' := by
  have hnone : (line labels' l e').2 = none := by
    have hsame := l.refusal?_relocated hl hadmitted hadmitted' hc htable
    rw [line_snd, hsame, ← line_snd, h]
  have h' : line labels' l e' = ((line labels' l e').1, none) := Prod.ext rfl hnone
  refine ⟨_, h', ?_⟩
  intro statement hstatement
  obtain ⟨bytes, hwrites⟩ := exists_writes hstatement (hl.placing hstatement) h
  obtain ⟨bytes', hwrites'⟩ := exists_writes hstatement (hl.placing hstatement) h'
  refine ⟨bytes, bytes', hwrites, hwrites', ?_⟩
  have halike := hl.encode_relocated hstatement hc htable
  rw [hwrites.code, hwrites'.code] at halike
  cases halike with
  | ok hrelocated => exact hrelocated

section Runs

variable {lines : List SourceLine} {config config' : Config}

theorem Emission.run_snd_relocated (hlines : ∀ l ∈ lines, l.Movable)
    (h : Location.Admits config.start.toNat lines)
    (h' : Location.Admits config'.start.toNat lines)
    (hc : (config'.start.toNat : Int) = config.start.toNat + shift)
    (htable : LabelTable.Moved shift labels labels') :
    (run config' labels' lines).2 = (run config labels lines).2 := by
  rw [run_snd, run_snd]
  exact Location.refusal?_relocated hlines h h' hc htable

theorem Emission.location_relocated (hlines : ∀ l ∈ lines, l.Movable)
    (hc : (config'.start.toNat : Int) = config.start.toNat + shift) {e e' : Emission}
    (h : run config labels lines = (e, none)) (h' : run config' labels' lines = (e', none)) :
    (e'.location : Int) = (e.location : Int) + shift := by
  rw [(run_eq_none h).location, (run_eq_none h').location]
  exact Location.behind_shifted (fun l hl => (hlines l hl).plain) hc

variable (config config') in
/-- Where one emission gets behind some lines and past the next, the other does so as well. -/
theorem Emission.run_relocated {before after : List SourceLine} {l : SourceLine}
    (hlines : ∀ m ∈ before ++ l :: after, m.Movable)
    (h : Location.Admits config.start.toNat (before ++ l :: after))
    (h' : Location.Admits config'.start.toNat (before ++ l :: after))
    (hc : (config'.start.toNat : Int) = config.start.toNat + shift)
    (htable : LabelTable.Moved shift labels labels') {e u : Emission}
    (hbefore : run config labels before = (e, none)) (hline : line labels l e = (u, none)) :
    ∃ e' u', run config' labels' before = (e', none) ∧ line labels' l e' = (u', none) ∧
      (e'.location : Int) = (e.location : Int) + shift ∧
      ∀ statement, l.statement = .ok (some statement) →
        ∃ bytes bytes', Writes labels statement bytes e u ∧ Writes labels' statement bytes' e' u' ∧
          Relocated shift labels labels' statement.addressFields bytes bytes' := by
  have hearlier : ∀ m ∈ before, m.Movable := fun m hm => hlines m (List.mem_append_left _ hm)
  obtain ⟨hadmits, hadmitted, -⟩ := (Location.admits_append _ _ _).mp h
  obtain ⟨hadmits', hadmitted', -⟩ := (Location.admits_append _ _ _).mp h'
  have hpassed := run_snd_relocated hearlier hadmits hadmits' hc htable
  rw [hbefore] at hpassed
  have hbefore' : run config' labels' before = ((run config' labels' before).1, none) :=
    Prod.ext rfl hpassed
  rw [← (run_eq_none hbefore).location] at hadmitted
  rw [← (run_eq_none hbefore').location] at hadmitted'
  have hlocation := location_relocated hearlier hc hbefore hbefore'
  obtain ⟨u', hline', hwritten⟩ :=
    line_relocated (hlines l (by simp)) hadmitted hadmitted' hlocation htable hline
  exact ⟨_, u', hbefore', hline', hlocation, hwritten⟩

end Runs

end Shift

/-- Lines without an origin, surveyed from two starts. The labels are `Moved` by the difference of
the starts. Unless a branch has a number as its target, the two emissions end with the same fault or
both without one, and then as far apart as they began; and every line that the first of them passes,
the second passes as far away. The bytes written for it are `Relocated`: the same but for the
`addressFields`, of which a branch has none. -/
theorem relocation (lines : List SourceLine) (start start' : UInt16) (survey survey' : Survey)
    (hplain : ∀ l ∈ lines, ∀ address, l.statement ≠ .ok (some (.origin address)))
    (h : Survey.run lines start = (survey, none))
    (h' : Survey.run lines start' = (survey', none)) :
    let shift : Int := start'.toNat - start.toNat
    List.Forall₂ (Label.Moved shift) survey.labels.entries survey'.labels.entries ∧
    ((∀ l ∈ lines, ∀ i v, l.statement = .ok (some (.instruction i)) →
        i.mnemonic.isBranch = true → i.operand ≠ .value v) →
      ∀ capacity capacity',
        let run := Emission.run ⟨capacity, start⟩ survey.labels
        let run' := Emission.run ⟨capacity', start'⟩ survey'.labels
        (run' lines).2 = (run lines).2 ∧
        ((run lines).2 = none →
          ((run' lines).1.location : Int) = ((run lines).1.location : Int) + shift) ∧
        ∀ before l after statement e u, lines = before ++ l :: after →
          l.statement = .ok (some statement) → run before = (e, none) →
          Emission.line survey.labels l e = (u, none) →
          ∃ e' u' bytes bytes', run' before = (e', none) ∧
            Emission.line survey'.labels l e' = (u', none) ∧
            (e'.location : Int) = (e.location : Int) + shift ∧
            Emission.Writes survey.labels statement bytes e u ∧
            Emission.Writes survey'.labels statement bytes' e' u' ∧
            Relocated shift survey.labels survey'.labels statement.addressFields bytes bytes' ∧
            ∀ i, statement = .instruction i → i.mnemonic.isBranch = true → bytes' = bytes) := by
  intro shift
  have hc : (start'.toNat : Int) = start.toNat + shift := by omega
  obtain ⟨hadmits, -⟩ := Survey.run_faultless_iff.mp (congrArg Prod.snd h)
  obtain ⟨hadmits', -⟩ := Survey.run_faultless_iff.mp (congrArg Prod.snd h')
  have hentries : List.Forall₂ (Label.Moved shift) survey.labels.entries
      survey'.labels.entries := by
    rw [(Survey.run_eq_none h).entries, (Survey.run_eq_none h').entries]
    exact Location.definitions_moved hplain hadmits hadmits' hc
  refine ⟨hentries, ?_⟩
  intro htarget capacity capacity' run run'
  have htable := LabelTable.moved_of_entries hentries
  have hmovable : ∀ l ∈ lines, l.Movable := fun l hl =>
    SourceLine.movable (hplain l hl) (htarget l hl)
  have hfault : (run' lines).2 = (run lines).2 :=
    Emission.run_snd_relocated hmovable hadmits hadmits' hc htable
  refine ⟨hfault, ?_, ?_⟩
  · intro hnone
    exact Emission.location_relocated hmovable hc (Prod.ext rfl hnone)
      (Prod.ext rfl (hfault.trans hnone))
  · rintro before l after statement e u rfl hstatement hbefore hline
    obtain ⟨e', u', hbefore', hline', hlocation, hwritten⟩ :=
      Emission.run_relocated ⟨capacity, start⟩ ⟨capacity', start'⟩ hmovable hadmits hadmits' hc
        htable hbefore hline
    obtain ⟨bytes, bytes', hwrites, hwrites', hrelocated⟩ := hwritten statement hstatement
    refine ⟨e', u', bytes, bytes', hbefore', hline', hlocation, hwrites, hwrites', hrelocated, ?_⟩
    rintro i rfl hbranch
    rw [Statement.addressFields_of_branch hwrites.code hbranch] at hrelocated
    exact hrelocated.eq_of_nil

/-- A branch ahead, a branch back and a jump, and behind them a table of which one word holds an
address, moved across a page. -/
theorem relocation_of_table :
    let before := SourceLine.listing
      "loop: LDA table,X\nBEQ done\nBNE loop\ndone: JMP loop".toList
    let l := SourceLine.ofText 5 "table: .WORD done, 5".toList
    let lines := before ++ [l]
    let table : LabelTable :=
      ⟨[⟨"loop".toList, 0x1000, 1⟩, ⟨"done".toList, 0x1007, 4⟩, ⟨"table".toList, 0x100A, 5⟩]⟩
    let table' : LabelTable :=
      ⟨[⟨"loop".toList, 0x10FC, 1⟩, ⟨"done".toList, 0x1103, 4⟩, ⟨"table".toList, 0x1106, 5⟩]⟩
    (∀ l ∈ lines, ∀ address, l.statement ≠ .ok (some (.origin address))) ∧
      (∀ l ∈ lines, ∀ i v, l.statement = .ok (some (.instruction i)) →
        i.mnemonic.isBranch = true → i.operand ≠ .value v) ∧
      (∃ survey, Survey.run lines 0x1000 = (survey, none) ∧ survey.labels = table) ∧
      (∃ survey', Survey.run lines 0x10FC = (survey', none) ∧ survey'.labels = table') ∧
      List.Forall₂ (Label.Moved 0xFC) table.entries table'.entries ∧
      (Emission.run ⟨0, 0x1000⟩ table lines).2 = none ∧
      (Emission.run ⟨0, 0x10FC⟩ table' lines).2 = none ∧
      Relocated 0xFC table table' [(0, "done".toList)] [0x07, 0x10, 5, 0] [0x03, 0x11, 5, 0] := by
  intro before l lines table table'
  have hstatements : lines.map SourceLine.statement =
      [.ok (some (.instruction ⟨.lda, .absoluteX, .label "table".toList⟩)),
        .ok (some (.instruction ⟨.beq, .relative, .label "done".toList⟩)),
        .ok (some (.instruction ⟨.bne, .relative, .label "loop".toList⟩)),
        .ok (some (.instruction ⟨.jmp, .absolute, .label "loop".toList⟩)),
        .ok (some (.words [.label "done".toList, .value 5]))] := by
    decide
  have hplain : ∀ l ∈ lines, ∀ address, l.statement ≠ .ok (some (.origin address)) := by
    intro l hl address horigin
    have hmem := List.mem_map_of_mem (f := SourceLine.statement) hl
    simp [hstatements, horigin] at hmem
  have htarget : ∀ l ∈ lines, ∀ i v, l.statement = .ok (some (.instruction i)) →
      i.mnemonic.isBranch = true → i.operand ≠ .value v := by
    intro l hl i v hi _
    have hmem := List.mem_map_of_mem (f := SourceLine.statement) hl
    simp only [hstatements, hi, List.mem_cons, List.not_mem_nil, Except.ok.injEq, Option.some.injEq,
      Statement.instruction.injEq, reduceCtorEq, or_false] at hmem
    obtain rfl | rfl | rfl | rfl := hmem <;> simp
  have hsurvey : Survey.run lines 0x1000 = ((Survey.run lines 0x1000).1, none) :=
    Prod.ext rfl (by decide)
  have hsurvey' : Survey.run lines 0x10FC = ((Survey.run lines 0x10FC).1, none) :=
    Prod.ext rfl (by decide)
  have hlabels : (Survey.run lines 0x1000).1.labels = table := by decide
  have hlabels' : (Survey.run lines 0x10FC).1.labels = table' := by decide
  have hshift : ((0x10FC : UInt16).toNat : Int) - (0x1000 : UInt16).toNat = 0xFC := by decide
  have hmoved := relocation lines 0x1000 0x10FC _ _ hplain hsurvey hsurvey'
  simp only [hlabels, hlabels', hshift] at hmoved
  obtain ⟨hentries, hemissions⟩ := hmoved
  obtain ⟨hfault, -, hbytes⟩ := hemissions htarget 0 0
  have hnone : (Emission.run ⟨0, 0x1000⟩ table lines).2 = none := by decide
  have hbefore : Emission.run ⟨0, 0x1000⟩ table before =
      ((Emission.run ⟨0, 0x1000⟩ table before).1, none) :=
    Prod.ext rfl (by decide)
  have hline : Emission.line table l (Emission.run ⟨0, 0x1000⟩ table before).1 =
      ((Emission.line table l (Emission.run ⟨0, 0x1000⟩ table before).1).1, none) :=
    Prod.ext rfl (by decide)
  obtain ⟨e', u', bytes, bytes', -, -, -, hwrites, hwrites', hrelocated, -⟩ :=
    hbytes before l [] (.words [.label "done".toList, .value 5]) _ _ rfl (by decide) hbefore hline
  obtain rfl : [0x07, 0x10, 5, 0] = bytes := Except.ok.inj hwrites.code
  obtain rfl : [0x03, 0x11, 5, 0] = bytes' := Except.ok.inj hwrites'.code
  exact ⟨hplain, htarget, ⟨_, hsurvey, hlabels⟩, ⟨_, hsurvey', hlabels'⟩, hentries, hnone,
    hfault.trans hnone, hrelocated⟩

end Asm6502
