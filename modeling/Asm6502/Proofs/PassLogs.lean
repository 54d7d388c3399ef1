import Asm6502.Proofs.ImageContents
import Asm6502.Proofs.Survey
import Mathlib.Data.List.Forall2

/-!
What each pass tells. The survey tells of the labels of its table and of nothing else. The emission
tells of every statement it reaches, at the location at which the survey met it, of every move of
the origin, and of every byte that the image has dropped. Events are told apart by their `Kind`,
which their level and the first words of their messages give away.
-/

namespace Asm6502

/-! ## Kinds of events -/

namespace Event

inductive Kind where
  | label
  | count
  | statement
  | origin
  | drop
  | loss
  deriving DecidableEq, Repr

def kind : Event → Kind
  | labelDefined .. => .label
  | labelsCounted _ => .count
  | statementReached .. => .statement
  | originMoved _ => .origin
  | writeDropped .. => .drop
  | bytesLost .. => .loss

namespace Kind

def level : Kind → Level
  | label | count | origin => .debug
  | statement | drop => .trace
  | loss => .warn

/-- The words that a message opens with, none for the only kind of its level. -/
def opening : Kind → Text
  | label => "Label ".toList
  | count => "Pass 1 found ".toList
  | statement => "$".toList
  | origin => "Origin moved to $".toList
  | drop => "Dropped write of 0x".toList
  | loss => []

/-- On one level no opening begins another. -/
theorem eq_of_opening_prefix {k k' : Kind} (hlevel : k.level = k'.level)
    (h : k.opening <+: k'.opening) : k = k' := by
  revert hlevel h
  cases k <;> cases k' <;> decide

end Kind

theorem level_eq (e : Event) : e.level = e.kind.level := by
  cases e <;> rfl

theorem opening_prefix_message (e : Event) : e.kind.opening <+: e.message := by
  have htwo : ∀ s t u : Text, s <+: s ++ t ++ u := fun s t u => by
    rw [List.append_assoc]
    exact List.prefix_append s (t ++ u)
  have hthree : ∀ s t u v : Text, s <+: s ++ t ++ u ++ v := fun s t u v =>
    (htwo s t u).trans (List.prefix_append _ v)
  cases e with
  | labelDefined name address => exact hthree _ _ _ _
  | labelsCounted count => exact htwo _ _ _
  | statementReached location statement => exact hthree _ _ _ _
  | originMoved address => exact List.prefix_append _ _
  | writeDropped byte address => exact hthree _ _ _ _
  | bytesLost count capacity => exact List.nil_prefix

theorem kind_eq_loss (e : Event) (h : e.level = .warn) : e.kind = .loss := by
  revert h
  cases e <;> simp [level, kind]

/-- The level and the opening of a message tell the kind of its event. -/
theorem kind_eq_iff (e : Event) (k : Kind) :
    e.kind = k ↔ e.level = k.level ∧ k.opening <+: e.message := by
  constructor
  · rintro rfl
    exact ⟨e.level_eq, e.opening_prefix_message⟩
  · rintro ⟨hlevel, hopening⟩
    rw [level_eq] at hlevel
    rcases List.prefix_or_prefix_of_prefix e.opening_prefix_message hopening with h | h
    · exact Kind.eq_of_opening_prefix hlevel h
    · exact (Kind.eq_of_opening_prefix hlevel.symm h).symm

def ofKind (k : Kind) (log : List Event) : List Event :=
  log.filter fun e => e.kind = k

variable {k : Kind} {log : List Event}

@[simp] theorem ofKind_append (k : Kind) (log log' : List Event) :
    ofKind k (log ++ log') = ofKind k log ++ ofKind k log' :=
  List.filter_append ..

theorem mem_ofKind {e : Event} : e ∈ ofKind k log ↔ e ∈ log ∧ e.kind = k := by
  rw [ofKind, List.mem_filter, decide_eq_true_iff]

theorem ofKind_eq_self (h : ∀ e ∈ log, e.kind = k) : ofKind k log = log :=
  List.filter_eq_self.mpr fun e he => decide_eq_true (h e he)

theorem ofKind_eq_nil (h : ∀ e ∈ log, e.kind ≠ k) : ofKind k log = [] :=
  List.filter_eq_nil_iff.mpr fun e he hk => h e he (of_decide_eq_true hk)

end Event

/-! ## The survey -/

namespace Survey

/-- The log holds the entries of the table, in their order, and nothing else. -/
def Recorded (s : Survey) : Prop :=
  s.log.toList = s.labels.entries.map fun l => .labelDefined l.name l.address

theorem Recorded.defineLabel {l : SourceLine} {s u : Survey} (hs : s.Recorded)
    (h : s.defineLabel l = .ok u) : u.Recorded := by
  unfold Survey.defineLabel at h
  cases hlabel : l.label with
  | none =>
    rw [hlabel] at h
    cases h
    exact hs
  | some name =>
    rw [hlabel] at h
    simp only [bind_eq_ok, Except.ok.injEq] at h
    obtain ⟨address, -, labels, hdefine, rfl⟩ := h
    have hentries := (LabelTable.define_eq_ok hdefine).2
    show (s.log.push (.labelDefined name address)).toList = _
    rw [Array.toList_push, hs, hentries, List.map_append]
    rfl

theorem Recorded.line {s : Survey} (hs : s.Recorded) (l : SourceLine) : (line l s).1.Recorded := by
  unfold Survey.line
  cases hdefine : s.defineLabel l with
  | error f => exact hs
  | ok t =>
    have ht := hs.defineLabel hdefine
    cases hreserve : t.reserve l with
    | error f =>
      simp only [hreserve]
      exact ht
    | ok u =>
      simp only [hreserve]
      obtain ⟨-, rfl⟩ | ⟨statement, location, -, -, rfl⟩ := reserve_eq_ok hreserve
      · exact ht
      · exact ht

theorem Recorded.kind_eq_label {s : Survey} (hs : s.Recorded) {e : Event} (h : e ∈ s.log.toList) :
    e.kind = .label := by
  rw [hs] at h
  obtain ⟨l, -, rfl⟩ := List.mem_map.mp h
  rfl

theorem Recorded.ofKind_eq_nil {s : Survey} (hs : s.Recorded) {k : Event.Kind} (hk : k ≠ .label) :
    Event.ofKind k s.log.toList = [] := by
  apply Event.ofKind_eq_nil
  rintro e he rfl
  exact hk (hs.kind_eq_label he)

theorem recorded_of_run {lines : List SourceLine} {start : UInt16} {s : Survey}
    {stop : Option LineFault} (h : run lines start = (s, stop)) : s.Recorded := by
  have hrun : (run lines start).1.Recorded := by
    apply walk_state Recorded
    · rfl
    · intro l t ht
      exact ht.line l
  rwa [h] at hrun

/-- The lines that have an operation, each with the location at which the survey meets it. -/
def sites : Survey → List SourceLine → List (Location × SourceLine)
  | _, [] => []
  | s, l :: lines =>
    (if l.operation.isSome then [(s.location, l)] else []) ++ sites (line l s).1 lines

theorem sites_append {ls ms : List SourceLine} {s t : Survey} (h : walk line ls s = (t, none)) :
    s.sites (ls ++ ms) = s.sites ls ++ t.sites ms := by
  induction ls generalizing s with
  | nil =>
    cases h
    rfl
  | cons l ls ih =>
    obtain ⟨u, hl, hls⟩ := walk_cons_eq_none.mp h
    have hnext : (line l s).1 = u := by rw [hl]
    rw [List.cons_append, sites, sites, hnext, ih hls, List.append_assoc]

theorem statement_of_mem_sites {ls : List SourceLine} {s t : Survey}
    (h : walk line ls s = (t, none)) {site : Location × SourceLine} (hsite : site ∈ s.sites ls) :
    ∃ statement, site.2.statement = .ok (some statement) := by
  induction ls generalizing s with
  | nil => cases hsite
  | cons l ls ih =>
    obtain ⟨u, hl, hls⟩ := walk_cons_eq_none.mp h
    have hnext : (line l s).1 = u := by rw [hl]
    rw [sites, hnext, List.mem_append] at hsite
    rcases hsite with hhere | hlater
    · cases hoperation : l.operation with
      | none => simp [hoperation] at hhere
      | some operation =>
        obtain rfl : site = (s.location, l) := by simpa [hoperation] using hhere
        obtain ⟨statement, hstatement⟩ := (passes_of_line_eq_none hl).readable
        have hread : l.statement = (Statement.read operation l.operand).map some := by
          rw [SourceLine.statement, hoperation]
        obtain ⟨read, -, rfl⟩ := map_eq_ok.mp (hread.symm.trans hstatement)
        exact ⟨read, hstatement⟩
    · exact ih hls hlater

end Survey

/-! ## Events of a line -/

def Statement.origin? : Statement → Option UInt16
  | origin address => some address
  | _ => none

theorem Statement.origin?_of_placing {statement : Statement}
    (h : ∀ address, statement ≠ .origin address) : statement.origin? = none := by
  cases statement with
  | origin address => exact absurd rfl (h address)
  | instruction _ => rfl
  | bytes _ => rfl
  | words _ => rfl

namespace SourceLine

def origin? (l : SourceLine) : Option UInt16 :=
  match l.statement with
  | .ok (some statement) => statement.origin?
  | _ => none

/-- What is told of a line before anything of it is written. -/
def announced (c : Location) (l : SourceLine) : List Event :=
  match l.statement with
  | .ok (some statement) =>
    .statementReached c statement :: statement.origin?.toList.map .originMoved
  | _ => []

theorem announced_of_none {l : SourceLine} (h : l.statement = .ok none) (c : Location) :
    l.announced c = [] := by
  rw [announced, h]

theorem announced_of_some {l : SourceLine} {statement : Statement}
    (h : l.statement = .ok (some statement)) (c : Location) :
    l.announced c =
      .statementReached c statement :: statement.origin?.toList.map .originMoved := by
  rw [announced, h]

theorem kind_of_mem_announced {c : Location} {l : SourceLine} {e : Event}
    (h : e ∈ l.announced c) : e.kind ∈ [Event.Kind.statement, .origin] := by
  unfold announced at h
  split at h
  · rcases List.mem_cons.mp h with rfl | horigin
    · exact .head _
    · obtain ⟨address, -, rfl⟩ := List.mem_map.mp horigin
      exact .tail _ (.head _)
  · cases h

theorem kind_ne_drop {c : Location} {l : SourceLine} {e : Event} (h : e ∈ l.announced c) :
    e.kind ≠ .drop := by
  intro hdrop
  have hkind := kind_of_mem_announced h
  rw [hdrop] at hkind
  exact absurd hkind (by decide)

/-- What is `announced` of lines at their locations. -/
def announcements (sites : List (Location × SourceLine)) : List Event :=
  sites.flatMap fun site => site.2.announced site.1

theorem ofKind_announcements {k : Event.Kind} (hk : k ∉ [Event.Kind.statement, .origin])
    (sites : List (Location × SourceLine)) : Event.ofKind k (announcements sites) = [] := by
  apply Event.ofKind_eq_nil
  rintro e he rfl
  obtain ⟨site, -, he⟩ := List.mem_flatMap.mp he
  exact hk (kind_of_mem_announced he)

theorem statements_announced {sites : List (Location × SourceLine)}
    (h : ∀ site ∈ sites, ∃ statement, site.2.statement = .ok (some statement)) :
    List.Forall₂ (fun site event => ∃ statement, site.2.statement = .ok (some statement) ∧
      event = .statementReached site.1 statement) sites
      (Event.ofKind .statement (announcements sites)) := by
  induction sites with
  | nil => exact .nil
  | cons site sites ih =>
    obtain ⟨⟨statement, hstatement⟩, hrest⟩ := List.forall_mem_cons.mp h
    have horigins : Event.ofKind .statement (statement.origin?.toList.map .originMoved) = [] := by
      apply Event.ofKind_eq_nil
      intro e he
      obtain ⟨address, -, rfl⟩ := List.mem_map.mp he
      exact (by decide : Event.Kind.origin ≠ .statement)
    have hfirst : Event.ofKind .statement (site.2.announced site.1) =
        [.statementReached site.1 statement] := by
      rw [announced_of_some hstatement, ← List.singleton_append, Event.ofKind_append, horigins]
      rfl
    rw [announcements, List.flatMap_cons, Event.ofKind_append, hfirst]
    exact .cons ⟨statement, hstatement, rfl⟩ (ih hrest)

theorem origins_announced (sites : List (Location × SourceLine)) :
    Event.ofKind .origin (announcements sites) =
      (sites.filterMap fun site => site.2.origin?).map .originMoved := by
  induction sites with
  | nil => rfl
  | cons site sites ih =>
    have hfirst : Event.ofKind .origin (site.2.announced site.1) =
        site.2.origin?.toList.map .originMoved := by
      unfold announced origin?
      split
      · rename_i statement _
        cases statement.origin? <;> rfl
      · rfl
    have hcons : (site :: sites).filterMap (fun site => site.2.origin?) =
        site.2.origin?.toList ++ sites.filterMap fun site => site.2.origin? := by
      rw [List.filterMap_cons]
      cases site.2.origin? <;> rfl
    rw [announcements, List.flatMap_cons, Event.ofKind_append, hfirst, hcons, List.map_append]
    exact congrArg (_ ++ ·) ih

end SourceLine

/-- What is told of bytes that lie beyond an image. -/
def Image.drops (capacity : Nat) (cells : List (UInt8 × Nat)) : List Event :=
  (cells.filter fun cell => capacity ≤ cell.2).map fun cell => .writeDropped cell.1 cell.2

theorem Image.kind_of_mem_drops {capacity : Nat} {cells : List (UInt8 × Nat)} {e : Event}
    (h : e ∈ drops capacity cells) : e.kind = .drop := by
  obtain ⟨cell, -, rfl⟩ := List.mem_map.mp h
  rfl

theorem Image.drops_append (capacity : Nat) (xs ys : List (UInt8 × Nat)) :
    drops capacity (xs ++ ys) = drops capacity xs ++ drops capacity ys := by
  rw [drops, List.filter_append, List.map_append]
  rfl

namespace Emission

theorem toList_record (event : Event) (e : Emission) :
    (e.record event).log.toList = e.log.toList ++ [event] :=
  Array.toList_push

theorem log_put (cell : UInt8 × Nat) (e : Emission) :
    (e.put cell).log.toList = e.log.toList ++ Image.drops e.image.capacity [cell] := by
  unfold put
  simp only [Image.capacity_write]
  by_cases hinside : cell.2 < e.image.capacity
  · rw [if_pos hinside]
    simp [Image.drops, Nat.not_le.mpr hinside]
  · rw [if_neg hinside, toList_record]
    simp [Image.drops, Nat.not_lt.mp hinside]

theorem log_putAll (cells : List (UInt8 × Nat)) (e : Emission) :
    (cells.foldl put e).log.toList = e.log.toList ++ Image.drops e.image.capacity cells := by
  induction cells generalizing e with
  | nil => exact (List.append_nil _).symm
  | cons cell cells ih =>
    have hsize : (e.put cell).image.capacity = e.image.capacity := by
      have himage := image_foldl_put [cell] e
      rw [List.foldl_cons, List.foldl_nil] at himage
      rw [himage, Image.capacity_writeAll]
    have hcons := Image.drops_append e.image.capacity [cell] cells
    rw [List.foldl_cons, ih, hsize, log_put, List.append_assoc, ← hcons, List.singleton_append]

/-- Everything that a line without fault adds to the log. -/
theorem log_line {labels : LabelTable} {l : SourceLine} {e e' : Emission} {bytes : List UInt8}
    (hfits : e.location ≤ Location.limit) (hcode : l.code? labels e.location = some bytes)
    (h : line labels l e = (e', none)) :
    e'.log.toList = e.log.toList ++ l.announced e.location ++
      Image.drops e.image.capacity (bytes.zipIdx e.location) := by
  obtain ⟨hnone, rfl⟩ | ⟨address, horigin, rfl⟩ |
    ⟨statement, bytes', hsome, hplacing, hencode, -, rfl⟩ := line_eq_none h
  · simp only [SourceLine.code?, hnone, Option.some.injEq] at hcode
    rw [l.announced_of_none hnone, ← hcode]
    simp [Image.drops]
  · simp only [SourceLine.code?, horigin, Statement.code?, Option.some.injEq] at hcode
    rw [l.announced_of_some horigin, ← hcode]
    simp [Image.drops, moveTo, record, Statement.origin?]
  · simp only [SourceLine.code?, hsome, Statement.encode_eq_ok hfits hencode,
      Option.some.injEq] at hcode
    have hlog := log_putAll (bytes'.zipIdx e.location)
      (e.record (.statementReached e.location statement))
    rw [l.announced_of_some hsome, Statement.origin?_of_placing hplacing, ← hcode]
    rw [toList_record] at hlog
    exact hlog

/-- A line at fault is told, if it can be read, and nothing more. -/
theorem log_line_fault {labels : LabelTable} {l : SourceLine} {e u : Emission} {f : Fault}
    (h : line labels l e = (u, some f)) :
    u.log.toList = e.log.toList ++ l.announced e.location := by
  unfold line at h
  rcases hstatement : l.statement with fault | _ | statement
  · rw [hstatement] at h
    cases h
    rw [SourceLine.announced, hstatement, List.append_nil]
  · simp [hstatement] at h
  simp only [hstatement, perform] at h
  split at h
  · cases h
  rename_i hplacing
  -- the state at the fault is the one in which the line has been told
  have hu : u = e.record (.statementReached e.location statement) := by
    split at h
    · cases h
      rfl
    · unfold place at h
      split at h
      · cases h
        rfl
      · cases h
  rw [l.announced_of_some hstatement, Statement.origin?_of_placing hplacing, hu, toList_record]
  rfl

/-! ## All lines -/

section Run

variable {config : Config} {labels : LabelTable} {lines : List SourceLine} {l : SourceLine}
  {s : Survey} {e e' : Emission}

theorem announcements_concat (hs : Survey.run (lines ++ [l]) config.start = (s, none))
    (he : run config labels lines = (e, none)) :
    SourceLine.announcements ((Survey.initial config.start).sites (lines ++ [l])) =
      SourceLine.announcements ((Survey.initial config.start).sites lines) ++
        l.announced e.location := by
  obtain ⟨t, u, ht, -, hcovers, -⟩ := Survey.run_split hs
  have hlocation : e.location = t.location := by
    rw [(run_eq_none he).location, hcovers.location]
  rw [SourceLine.announcements, Survey.sites_append ht, List.flatMap_append, hlocation]
  congr 1
  cases hoperation : l.operation with
  | none =>
    have hnone : l.statement = .ok none := by rw [SourceLine.statement, hoperation]
    simp [Survey.sites, hoperation, l.announced_of_none hnone]
  | some operation => simp [Survey.sites, hoperation]

theorem capacity_of_run (h : run config labels lines = (e, none)) :
    e.image.capacity = config.capacity := by
  obtain ⟨cells, -, himage⟩ := (run_eq_none h).image
  rw [himage, Image.capacity_writeAll, Image.capacity_blank]

/-- The log of an emission holds some announcements in their order, and between them the bytes that
were dropped. -/
structure Logs (announced drops log : List Event) : Prop where
  announced : ∀ k, k ≠ .drop → Event.ofKind k log = Event.ofKind k announced
  dropped : Event.ofKind .drop log = drops

theorem Logs.announce {announced announced' drops log : List Event}
    (h : Logs announced drops log) (hannounced : ∀ e ∈ announced', e.kind ≠ .drop) :
    Logs (announced ++ announced') drops (log ++ announced') := by
  constructor
  · intro k hk
    rw [Event.ofKind_append, Event.ofKind_append, h.announced k hk]
  · rw [Event.ofKind_append, h.dropped, Event.ofKind_eq_nil hannounced, List.append_nil]

theorem Logs.drop {announced drops drops' log : List Event} (h : Logs announced drops log)
    (hdrops : ∀ e ∈ drops', e.kind = .drop) : Logs announced (drops ++ drops') (log ++ drops') := by
  constructor
  · intro k hk
    have hnone : Event.ofKind k drops' = [] := by
      apply Event.ofKind_eq_nil
      rintro e he rfl
      exact hk (hdrops e he)
    rw [Event.ofKind_append, h.announced k hk, hnone, List.append_nil]
  · rw [Event.ofKind_append, h.dropped, Event.ofKind_eq_self hdrops]

theorem logs_run {cells : List (UInt8 × Nat)}
    (hs : Survey.run lines config.start = (s, none)) (he : run config labels lines = (e, none))
    (hcells : Location.cells? labels config.start.toNat lines = some cells) :
    Logs (SourceLine.announcements ((Survey.initial config.start).sites lines))
      (Image.drops config.capacity cells) e.log.toList := by
  -- from the last line backwards, as the location of a line is that behind the lines before it
  induction lines using List.reverseRecOn generalizing s e cells with
  | nil =>
    cases he
    cases hcells
    exact ⟨fun k _ => rfl, rfl⟩
  | append_singleton lines l ih =>
    obtain ⟨t, ht, -⟩ := walk_append_eq_none.mp hs
    obtain ⟨e', he', hl⟩ := walk_concat_eq_none.mp he
    have hcovers := run_eq_none he'
    obtain ⟨xs, ys, hxs, hys, rfl⟩ := Location.cells?_append_eq_some.mp hcells
    rw [← hcovers.location] at hys
    simp only [Location.cells?, Option.bind_eq_bind, Option.bind_eq_some_iff,
      Option.some.injEq] at hys
    obtain ⟨bytes, hcode, _, rfl, rfl⟩ := hys
    rw [announcements_concat hs he', log_line hcovers.fits hcode hl, capacity_of_run he',
      List.append_nil, Image.drops_append]
    exact ((ih ht he' hxs).announce (fun _ => SourceLine.kind_ne_drop)).drop
      fun _ => Image.kind_of_mem_drops

theorem logs_fault {cells : List (UInt8 × Nat)} {f : Fault}
    (hs : Survey.run (lines ++ [l]) config.start = (s, none))
    (he : run config labels lines = (e, none))
    (hcells : Location.cells? labels config.start.toNat lines = some cells)
    (hl : line labels l e = (e', some f)) :
    Logs (SourceLine.announcements ((Survey.initial config.start).sites (lines ++ [l])))
      (Image.drops config.capacity cells) e'.log.toList := by
  obtain ⟨t, ht, -⟩ := walk_append_eq_none.mp hs
  rw [announcements_concat hs he, log_line_fault hl]
  exact (logs_run ht he hcells).announce fun _ => SourceLine.kind_ne_drop

end Run

end Emission

end Asm6502
