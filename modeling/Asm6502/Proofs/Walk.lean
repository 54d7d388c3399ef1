import Asm6502.Labels
import Asm6502.SourceLine
import Mathlib.Data.List.Induction

/-!
Where a walk stops. A walk without fault has passed every prefix without fault; a walk with a
fault stopped at the first line whose step was at fault, all lines before it behind it. What each
step keeps, the whole walk keeps.

The running location is where lines leave the location counter, read off their statements alone.
Neither labels nor room are asked about, so it is there for every list of lines, and it is what
both passes count as long as they meet no fault.
-/

namespace Asm6502

/-! ## The first line at fault -/

/-- `fault` belongs to the first line for which `Fails` names a fault. `Fails` is told the lines
before the one it judges. -/
def FirstFault (Fails : List SourceLine → SourceLine → Fault → Prop) (lines : List SourceLine)
    (fault : LineFault) : Prop :=
  ∃ before l after, lines = before ++ l :: after ∧ fault.line = l.number ∧
    Fails before l fault.fault ∧
    ∀ before' l' after' f, before = before' ++ l' :: after' → ¬Fails before' l' f

section Steps

variable {σ : Type} {step : SourceLine → σ → σ × Option Fault} {s u : σ}

/-! ## Splitting a walk -/

theorem walk_append_eq_none {ls ms : List SourceLine} :
    walk step (ls ++ ms) s = (u, none) ↔
      ∃ t, walk step ls s = (t, none) ∧ walk step ms t = (u, none) := by
  rw [walk_append]
  rcases walk step ls s with ⟨t, _ | fault⟩ <;> simp

theorem walk_cons_eq_none {l : SourceLine} {ls : List SourceLine} :
    walk step (l :: ls) s = (u, none) ↔
      ∃ t, step l s = (t, none) ∧ walk step ls t = (u, none) := by
  simp only [walk]
  rcases step l s with ⟨t, _ | fault⟩ <;> simp

theorem walk_concat_eq_none {ls : List SourceLine} {l : SourceLine} :
    walk step (ls ++ [l]) s = (u, none) ↔
      ∃ t, walk step ls s = (t, none) ∧ step l t = (u, none) := by
  simp only [walk_append_eq_none, walk_cons_eq_none]
  simp [walk]

/-- What the start satisfies and each step without fault keeps, a walk without fault keeps. The
property may speak of the lines walked so far. -/
theorem walk_keeps (P : List SourceLine → σ → Prop) (hstart : P [] s)
    (hstep : ∀ ls l t t', P ls t → step l t = (t', none) → P (ls ++ [l]) t')
    {ls : List SourceLine} (h : walk step ls s = (u, none)) : P ls u := by
  induction ls using List.reverseRecOn generalizing u with
  | nil =>
    cases h
    exact hstart
  | append_singleton ls l ih =>
    obtain ⟨t, ht, hl⟩ := walk_concat_eq_none.mp h
    exact hstep ls l t u (ih ht) hl

/-- What every step keeps, at fault or not, a walk keeps. -/
theorem walk_state (P : σ → Prop) (hstart : P s) (hstep : ∀ l t, P t → P (step l t).1)
    (ls : List SourceLine) : P (walk step ls s).1 := by
  induction ls generalizing s with
  | nil => exact hstart
  | cons l ls ih =>
    have hl := hstep l s hstart
    rw [walk]
    rcases hline : step l s with ⟨t, _ | fault⟩
    · rw [hline] at hl
      exact ih hl
    · rw [hline] at hl
      exact hl

theorem walk_congr {step' : SourceLine → σ → σ × Option Fault} {ls : List SourceLine}
    (h : ∀ l ∈ ls, ∀ t, step l t = step' l t) : walk step ls s = walk step' ls s := by
  induction ls generalizing s with
  | nil => rfl
  | cons l ls ih =>
    have hls := fun m hm => h m (List.mem_cons_of_mem l hm)
    rw [walk, walk, h l List.mem_cons_self]
    rcases step' l s with ⟨t, _ | fault⟩
    · exact ih hls
    · rfl

/-! ## Faults of a walk -/

theorem walk_cons_fault {l : SourceLine} {ls : List SourceLine} {fault : LineFault} :
    (walk step (l :: ls) s).2 = some fault ↔
      (fault.line = l.number ∧ (step l s).2 = some fault.fault) ∨
        ∃ t, step l s = (t, none) ∧ (walk step ls t).2 = some fault := by
  rcases h : step l s with ⟨t, _ | f⟩
  · simp [walk, h]
  · rcases fault with ⟨line, f'⟩
    simp [walk, h, eq_comm]

theorem walk_fault {ls : List SourceLine} {fault : LineFault} :
    (walk step ls s).2 = some fault ↔
      ∃ before l after t, ls = before ++ l :: after ∧ fault.line = l.number ∧
        walk step before s = (t, none) ∧ (step l t).2 = some fault.fault := by
  induction ls generalizing s with
  | nil => simp [walk]
  | cons m ms ih =>
    rw [walk_cons_fault]
    constructor
    · rintro (⟨hline, hfault⟩ | ⟨t, hm, hrest⟩)
      · exact ⟨[], m, ms, s, rfl, hline, rfl, hfault⟩
      · obtain ⟨before, l, after, t', rfl, hline, hwalk, hfault⟩ := ih.mp hrest
        exact ⟨m :: before, l, after, t', rfl, hline, walk_cons_eq_none.mpr ⟨t, hm, hwalk⟩, hfault⟩
    · rintro ⟨before, l, after, t', hsplit, hline, hwalk, hfault⟩
      rcases before with _ | ⟨b, before⟩
      · obtain ⟨rfl, rfl⟩ := List.cons.inj hsplit
        cases hwalk
        exact .inl ⟨hline, hfault⟩
      · obtain ⟨rfl, rfl⟩ := List.cons.inj hsplit
        obtain ⟨t, hm, hrest⟩ := walk_cons_eq_none.mp hwalk
        exact .inr ⟨t, hm, ih.mpr ⟨before, l, after, t', rfl, hline, hrest, hfault⟩⟩

theorem walk_of_fault {before : List SourceLine} {l : SourceLine} {t : σ} {f : Fault}
    (hbefore : walk step before s = (t, none)) (hl : step l t = (u, some f))
    (after : List SourceLine) :
    walk step (before ++ l :: after) s = (u, some ⟨l.number, f⟩) := by
  rw [walk_append, hbefore]
  simp only [walk, hl]

/-- A walk leaves the state behind the lines it has passed, or behind the step of the line at
fault. -/
theorem walk_stops {ls : List SourceLine} {fault : Option LineFault}
    (h : walk step ls s = (u, fault)) :
    ∃ passed rest t, ls = passed ++ rest ∧ walk step passed s = (t, none) ∧
      ((rest = [] ∧ u = t) ∨ ∃ l rest' f, rest = l :: rest' ∧ step l t = (u, some f)) := by
  induction ls generalizing s with
  | nil =>
    cases h
    exact ⟨[], [], _, rfl, rfl, .inl ⟨rfl, rfl⟩⟩
  | cons m ms ih =>
    rcases hm : step m s with ⟨t, _ | f⟩
    · rw [walk, hm] at h
      obtain ⟨passed, rest, t', rfl, hpassed, hend⟩ := ih h
      exact ⟨m :: passed, rest, t', rfl, walk_cons_eq_none.mpr ⟨t, hm, hpassed⟩, hend⟩
    · rw [walk, hm] at h
      cases h
      exact ⟨[], m :: ms, s, rfl, rfl, .inr ⟨m, ms, f, rfl, hm⟩⟩

section Judged

variable {lines : List SourceLine} {Fails : List SourceLine → SourceLine → Fault → Prop}

/-- A walk goes through exactly when no line fails, if `Fails` says what each step reached finds. -/
theorem walk_faultless_iff
    (hFails : ∀ before l after t f, lines = before ++ l :: after →
      walk step before s = (t, none) → ((step l t).2 = some f ↔ Fails before l f)) :
    (walk step lines s).2 = none ↔
      ∀ before l after f, lines = before ++ l :: after → ¬Fails before l f := by
  constructor
  · intro hnone before l after f hsplit hfail
    have hwalk : walk step lines s = ((walk step lines s).1, none) := by rw [← hnone]
    rw [hsplit] at hwalk
    obtain ⟨t, hbefore, hrest⟩ := walk_append_eq_none.mp hwalk
    obtain ⟨t', hl, -⟩ := walk_cons_eq_none.mp hrest
    have hfault := (hFails before l after t f hsplit hbefore).mpr hfail
    rw [hl] at hfault
    cases hfault
  · intro hno
    rcases hwalk : (walk step lines s).2 with _ | fault
    · rfl
    · obtain ⟨before, l, after, t, hsplit, -, hbefore, hfault⟩ := walk_fault.mp hwalk
      exact absurd ((hFails before l after t _ hsplit hbefore).mp hfault) (hno _ _ _ _ hsplit)

/-- The fault of a walk is the first one, if `Fails` says what each step reached finds. -/
theorem walk_fault_iff
    (hFails : ∀ before l after t f, lines = before ++ l :: after →
      walk step before s = (t, none) → ((step l t).2 = some f ↔ Fails before l f))
    (fault : LineFault) : (walk step lines s).2 = some fault ↔ FirstFault Fails lines fault := by
  -- judged by the same `Fails`, every prefix is passed exactly when none of its lines fails
  have hpassed : ∀ before l after, lines = before ++ l :: after →
      ((walk step before s).2 = none ↔
        ∀ before' l' after' f, before = before' ++ l' :: after' → ¬Fails before' l' f) := by
    intro before l after hsplit
    apply walk_faultless_iff
    intro before' l' after' t f hbefore hwalk
    exact hFails before' l' (after' ++ l :: after) t f (by rw [hsplit, hbefore]; simp) hwalk
  constructor
  · intro hfault
    obtain ⟨before, l, after, t, hsplit, hline, hbefore, hl⟩ := walk_fault.mp hfault
    refine ⟨before, l, after, hsplit, hline, (hFails before l after t _ hsplit hbefore).mp hl, ?_⟩
    exact (hpassed before l after hsplit).mp (by rw [hbefore])
  · rintro ⟨before, l, after, hsplit, hline, hl, hno⟩
    have hbefore : walk step before s = ((walk step before s).1, none) := by
      rw [← (hpassed before l after hsplit).mpr hno]
    exact walk_fault.mpr ⟨before, l, after, _, hsplit, hline, hbefore,
      (hFails before l after _ _ hsplit hbefore).mpr hl⟩

end Judged

end Steps

/-! ## The running location -/

/-- The location behind a line. A line without a readable statement does not move it. -/
def SourceLine.locationAfter (c : Location) (l : SourceLine) : Location :=
  match l.statement with
  | .ok (some (.origin address)) => address.toNat
  | .ok (some statement) => c + statement.size
  | _ => c

def Location.behind (c : Location) (lines : List SourceLine) : Location :=
  lines.foldl SourceLine.locationAfter c

namespace SourceLine

variable {l : SourceLine} {statement : Statement}

theorem locationAfter_of_none (c : Location) (h : l.statement = .ok none) :
    l.locationAfter c = c := by
  simp [locationAfter, h]

theorem locationAfter_of_origin (c : Location) {address : UInt16}
    (h : l.statement = .ok (some (.origin address))) : l.locationAfter c = address.toNat := by
  simp [locationAfter, h]

/-- Everything but an origin moves the location by its size. -/
theorem locationAfter_of_placing (c : Location) (h : l.statement = .ok (some statement))
    (hplacing : ∀ address, statement ≠ .origin address) :
    l.locationAfter c = c + statement.size := by
  unfold locationAfter
  rw [h]
  cases statement with
  | origin address => exact absurd rfl (hplacing address)
  | instruction i => rfl
  | bytes values => rfl
  | words entries => rfl

end SourceLine

namespace Location

theorem toNat_lt_limit (address : UInt16) : address.toNat < limit :=
  address.toNat_lt

theorem advance_eq_error {c size : Nat} {f : Fault} :
    advance c size = .error f ↔ limit < c + size ∧ f = .addressOverflow (c + size : Nat) := by
  unfold advance
  split
  · rename_i hroom
    simp [Nat.not_lt.mpr hroom]
  · rename_i hover
    simp [Nat.lt_of_not_le hover, eq_comm]

@[simp] theorem behind_nil (c : Location) : c.behind [] = c := rfl

@[simp] theorem behind_cons (c : Location) (l : SourceLine) (lines : List SourceLine) :
    c.behind (l :: lines) = (l.locationAfter c).behind lines := rfl

theorem behind_append (c : Location) (ls ms : List SourceLine) :
    c.behind (ls ++ ms) = (c.behind ls).behind ms :=
  List.foldl_append ..

end Location

end Asm6502
