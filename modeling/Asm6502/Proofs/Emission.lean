import Asm6502.Assembly
import Asm6502.Proofs.MachineCode
import Asm6502.Proofs.Walk

/-!
What the emission does. A line without fault moves the location as its statement says and writes
the bytes of its statement from the location before it on, so an emission without fault counts the
running location and its image is a blank one with the bytes of all lines written in order.
-/

namespace Asm6502

/-! ## Bytes with addresses -/

def Image.writeAll (m : Image) (cells : List (UInt8 × Nat)) : Image :=
  cells.foldl (fun m cell => m.write cell.2 cell.1) m

theorem Image.writeAll_append (m : Image) (xs ys : List (UInt8 × Nat)) :
    m.writeAll (xs ++ ys) = (m.writeAll xs).writeAll ys :=
  List.foldl_append ..

def SourceLine.code? (labels : LabelTable) (c : Location) (l : SourceLine) :
    Option (List UInt8) :=
  match l.statement with
  | .ok (some statement) => statement.code? labels c
  | .ok none => some []
  | .error _ => none

/-- The `code?` of lines from a location on, each byte with its address, in the order of the lines.
-/
def Location.cells? (labels : LabelTable) :
    Location → List SourceLine → Option (List (UInt8 × Nat))
  | _, [] => some []
  | c, l :: lines => do
    let bytes ← l.code? labels c
    let rest ← cells? labels (l.locationAfter c) lines
    some (bytes.zipIdx c ++ rest)

theorem Location.cells?_append_eq_some {labels : LabelTable} {c : Location}
    {ls ms : List SourceLine} {cells : List (UInt8 × Nat)} :
    c.cells? labels (ls ++ ms) = some cells ↔
      ∃ xs ys, c.cells? labels ls = some xs ∧ (c.behind ls).cells? labels ms = some ys ∧
        cells = xs ++ ys := by
  induction ls generalizing c cells with
  | nil => simp [cells?, eq_comm]
  | cons l ls ih =>
    simp only [List.cons_append, cells?, Option.bind_eq_bind, Option.bind_eq_some_iff,
      Option.some.injEq, ih, behind_cons]
    constructor
    · rintro ⟨bytes, hbytes, _, ⟨xs, ys, hxs, hys, rfl⟩, rfl⟩
      exact ⟨_, ys, ⟨bytes, hbytes, xs, hxs, rfl⟩, hys, (List.append_assoc ..).symm⟩
    · rintro ⟨_, ys, ⟨bytes, hbytes, xs, hxs, rfl⟩, hys, rfl⟩
      exact ⟨bytes, hbytes, _, ⟨xs, ys, hxs, hys, rfl⟩, (List.append_assoc ..).symm⟩

theorem Location.cells?_concat {labels : LabelTable} {c : Location} {lines : List SourceLine}
    {l : SourceLine} {cells : List (UInt8 × Nat)} {bytes : List UInt8}
    (hlines : c.cells? labels lines = some cells)
    (hl : l.code? labels (c.behind lines) = some bytes) :
    c.cells? labels (lines ++ [l]) = some (cells ++ bytes.zipIdx (c.behind lines)) := by
  have hlast : (c.behind lines).cells? labels [l] = some (bytes.zipIdx (c.behind lines)) := by
    simp [cells?, hl]
  exact cells?_append_eq_some.mpr ⟨cells, _, hlines, hlast, rfl⟩

namespace Emission

/-! ## One line -/

@[simp] theorem record_location (event : Event) (e : Emission) :
    (e.record event).location = e.location := rfl

theorem image_foldl_put (cells : List (UInt8 × Nat)) (e : Emission) :
    (cells.foldl put e).image = e.image.writeAll cells := by
  induction cells generalizing e with
  | nil => rfl
  | cons cell cells ih =>
    have hput : (put e cell).image = e.image.write cell.2 cell.1 := by
      simp only [put]
      split <;> rfl
    rw [List.foldl_cons, ih, hput]
    rfl

theorem place_eq_none {bytes : List UInt8} {e e' : Emission} (h : e.place bytes = (e', none)) :
    e.location + bytes.length ≤ Location.limit ∧
      e' = { (bytes.zipIdx e.location).foldl put e with
        location := e.location + bytes.length } := by
  unfold place at h
  cases hadvance : e.location.advance bytes.length with
  | error f => simp [hadvance] at h
  | ok location =>
    obtain ⟨rfl, hle⟩ := Location.advance_eq_ok hadvance
    simp only [hadvance, Prod.mk.injEq, and_true] at h
    exact ⟨hle, h.symm⟩

theorem place_fault {bytes : List UInt8} {e : Emission} {f : Fault} :
    (e.place bytes).2 = some f ↔
      Location.limit < e.location + bytes.length ∧
        f = .addressOverflow (e.location + bytes.length : Nat) := by
  rw [← Location.advance_eq_error]
  unfold place
  cases e.location.advance bytes.length with
  | error f' => simp
  | ok location => simp

/-- Everything a line can do to the state if no fault is found in it. -/
theorem line_eq_none {labels : LabelTable} {l : SourceLine} {e e' : Emission}
    (h : line labels l e = (e', none)) :
    (l.statement = .ok none ∧ e' = e) ∨
      (∃ address, l.statement = .ok (some (.origin address)) ∧
        e' = (e.record (.statementReached e.location (.origin address))).moveTo address) ∨
      ∃ statement bytes, l.statement = .ok (some statement) ∧
        (∀ address, statement ≠ .origin address) ∧
        statement.encode labels e.location = .ok bytes ∧
        e.location + bytes.length ≤ Location.limit ∧
        e' = { (bytes.zipIdx e.location).foldl put
          (e.record (.statementReached e.location statement)) with
            location := e.location + bytes.length } := by
  unfold line at h
  rcases hstatement : l.statement with f | _ | statement
  · simp [hstatement] at h
  · simp only [hstatement, Prod.mk.injEq, and_true] at h
    exact .inl ⟨rfl, h.symm⟩
  · right
    simp only [hstatement, perform] at h
    split at h
    · rename_i address
      simp only [Prod.mk.injEq, and_true] at h
      exact .inl ⟨address, rfl, h.symm⟩
    · rename_i hplacing
      split at h
      · cases h
      · rename_i bytes hencode
        obtain ⟨hle, he'⟩ := place_eq_none h
        exact .inr ⟨statement, bytes, rfl, hplacing, hencode, hle, he'⟩

/-- Everything that can be found at fault in a line. -/
theorem line_fault {labels : LabelTable} {l : SourceLine} {e : Emission} {f : Fault} :
    (line labels l e).2 = some f ↔
      l.statement = .error f ∨
        ∃ statement, l.statement = .ok (some statement) ∧
          (∀ address, statement ≠ .origin address) ∧
          (statement.encode labels e.location = .error f ∨
            ∃ bytes, statement.encode labels e.location = .ok bytes ∧
              Location.limit < e.location + bytes.length ∧
              f = .addressOverflow (e.location + bytes.length : Nat)) := by
  unfold line
  rcases hstatement : l.statement with f' | _ | statement
  · simp
  · simp
  · simp only [perform, record_location, reduceCtorEq, false_or, Except.ok.injEq,
      Option.some.injEq, exists_eq_left']
    split
    · simp
    · rename_i hplacing
      rw [and_iff_right hplacing]
      cases hencode : statement.encode labels e.location with
      | error f' => simp
      | ok bytes => simp [place_fault]

/-- A line at fault writes and moves nothing, it is only told. -/
theorem line_of_fault {labels : LabelTable} {l : SourceLine} {e u : Emission} {f : Fault}
    (h : line labels l e = (u, some f)) : u.location = e.location ∧ u.image = e.image := by
  unfold line at h
  rcases hstatement : l.statement with fault | _ | statement
  · rw [hstatement] at h
    cases h
    exact ⟨rfl, rfl⟩
  · simp [hstatement] at h
  simp only [hstatement, perform] at h
  split at h
  · cases h
  split at h
  · cases h
    exact ⟨rfl, rfl⟩
  · rename_i bytes _
    unfold place at h
    split at h
    · cases h
      exact ⟨rfl, rfl⟩
    · cases h

/-- What holds of the states around a line without fault. -/
structure Passes (labels : LabelTable) (l : SourceLine) (e e' : Emission) : Prop where
  location : e'.location = l.locationAfter e.location
  fits : e'.location ≤ Location.limit
  image : ∃ bytes, l.code? labels e.location = some bytes ∧
    e'.image = e.image.writeAll (bytes.zipIdx e.location)
  room : ∀ bytes, l.code? labels e.location = some bytes →
    e.location + bytes.length ≤ Location.limit

theorem passes_of_line_eq_none {labels : LabelTable} {l : SourceLine} {e e' : Emission}
    (hfits : e.location ≤ Location.limit) (h : line labels l e = (e', none)) :
    Passes labels l e e' := by
  obtain ⟨hnone, rfl⟩ | ⟨address, horigin, rfl⟩ |
    ⟨statement, bytes, hsome, hplacing, hencode, hle, rfl⟩ := line_eq_none h
  · have hcode : l.code? labels e'.location = some [] := by
      simp [SourceLine.code?, hnone]
    exact ⟨(l.locationAfter_of_none _ hnone).symm, hfits, ⟨[], hcode, rfl⟩, by simpa [hcode]⟩
  · have hcode : l.code? labels e.location = some [] := by
      simp [SourceLine.code?, horigin, Statement.code?]
    exact ⟨(l.locationAfter_of_origin _ horigin).symm,
      Nat.le_of_lt (Location.toNat_lt_limit address), ⟨[], hcode, rfl⟩, by simpa [hcode]⟩
  · have hcode : l.code? labels e.location = some bytes := by
      simp [SourceLine.code?, hsome, Statement.encode_eq_ok hfits hencode]
    refine ⟨?_, hle, ⟨bytes, hcode, image_foldl_put _ _⟩, by simpa [hcode]⟩
    rw [l.locationAfter_of_placing _ hsome hplacing, ← Statement.length_encode hencode]

/-! ## All lines -/

/-- What an emission without fault has done after some lines. -/
structure Covers (config : Config) (labels : LabelTable) (lines : List SourceLine)
    (e : Emission) : Prop where
  location : e.location = Location.behind config.start.toNat lines
  fits : e.location ≤ Location.limit
  image : ∃ cells, Location.cells? labels config.start.toNat lines = some cells ∧
    e.image = (Image.blank config.capacity).writeAll cells
  inside : ∀ cells, Location.cells? labels config.start.toNat lines = some cells →
    ∀ cell ∈ cells, cell.2 < Location.limit

theorem run_eq_none {config : Config} {labels : LabelTable} {lines : List SourceLine}
    {e : Emission} (h : run config labels lines = (e, none)) : Covers config labels lines e := by
  apply walk_keeps (Covers config labels) ?_ ?_ h
  · refine ⟨rfl, Nat.le_of_lt (Location.toNat_lt_limit config.start), ⟨[], rfl, rfl⟩, ?_⟩
    simp [Location.cells?]
  · intro ls l t t' ht hl
    have hpasses := passes_of_line_eq_none ht.fits hl
    obtain ⟨cells, hcells, himage⟩ := ht.image
    obtain ⟨bytes, hbytes, himage'⟩ := hpasses.image
    have hall : Location.cells? labels config.start.toNat (ls ++ [l]) =
        some (cells ++ bytes.zipIdx t.location) := by
      rw [ht.location] at hbytes ⊢
      exact Location.cells?_concat hcells hbytes
    refine ⟨?_, hpasses.fits, ⟨cells ++ bytes.zipIdx t.location, hall, ?_⟩, ?_⟩
    · rw [hpasses.location, ht.location, Location.behind_append]
      rfl
    · rw [himage', himage, Image.writeAll_append]
    · rw [hall]
      rintro _ ⟨⟩ cell hcell
      obtain hearlier | hnew := List.mem_append.mp hcell
      · exact ht.inside cells hcells cell hearlier
      · have hbehind := List.snd_lt_of_mem_zipIdx hnew
        exact Nat.lt_of_lt_of_le hbehind (Nat.add_comm _ _ ▸ hpasses.room bytes hbytes)

theorem run_split {config : Config} {labels : LabelTable} {before after : List SourceLine}
    {l : SourceLine} {e : Emission} (h : run config labels (before ++ l :: after) = (e, none)) :
    ∃ t u, run config labels before = (t, none) ∧ line labels l t = (u, none) ∧
      Covers config labels before t := by
  obtain ⟨t, hbefore, hrest⟩ := walk_append_eq_none.mp h
  obtain ⟨u, hl, -⟩ := walk_cons_eq_none.mp hrest
  exact ⟨t, u, hbefore, hl, run_eq_none hbefore⟩

end Emission

/-! ## Both passes -/

namespace Assembly

variable {config : Config} {lines : List SourceLine}

theorem ofLines_eq_ok {a : Assembly} :
    (ofLines config lines).result = .ok a ↔
      ∃ survey e, Survey.run lines config.start = (survey, none) ∧
        Emission.run config survey.labels lines = (e, none) ∧
        a = ⟨e.image, survey.labels, e.location⟩ := by
  unfold ofLines
  obtain ⟨survey, _ | fault⟩ := Survey.run lines config.start
  · rcases hemission : Emission.run config survey.labels lines with ⟨e, _ | fault⟩
    · simp [emit, hemission, eq_comm]
    · simp [emit, hemission]
  · simp

/-- A fault of `Survey.run` is reported whatever the emission would find. -/
theorem ofLines_eq_error {fault : LineFault} :
    (ofLines config lines).result = .error fault ↔
      (Survey.run lines config.start).2 = some fault ∨
        ∃ survey, Survey.run lines config.start = (survey, none) ∧
          (Emission.run config survey.labels lines).2 = some fault := by
  unfold ofLines
  obtain ⟨survey, _ | fault'⟩ := Survey.run lines config.start
  · rcases hemission : Emission.run config survey.labels lines with ⟨e, _ | fault'⟩
    · simp [emit, hemission]
    · simp [emit, hemission]
  · simp

end Assembly

end Asm6502
