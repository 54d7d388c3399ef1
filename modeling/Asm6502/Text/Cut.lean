import Asm6502.Text.Blank

/-!
Taking a text apart: into lines, at its first character of a kind, and at its last character.
-/

namespace Asm6502.Text

/-! ## Lines -/

/-- Puts a character in front of the first line; a line feed ends an empty first line. -/
def consLine (c : Char) (ls : List Text) : List Text :=
  if c = '\n' then [] :: ls
  else
    match ls with
    | [] => [[c]]
    | l :: ls => (c :: l) :: ls

/-- The lines of a text, each ended by a line feed or by the end of the text. Nothing follows a
final line feed, so it starts no empty line. -/
def lines (t : Text) : List Text :=
  t.foldr consLine []

theorem lines_cons (c : Char) (t : Text) : lines (c :: t) = consLine c (lines t) := rfl

/-- What ends in a line feed contributes its lines whole. -/
theorem lines_append_newline (s t : Text) :
    lines (s ++ '\n' :: t) = lines (s ++ ['\n']) ++ lines t := by
  induction s with
  | nil => rfl
  | cons c s ih =>
    simp only [List.cons_append, lines_cons, ih]
    have hne : lines (s ++ ['\n']) ≠ [] := by
      cases s with
      | nil => simp [lines, consLine]
      | cons d s =>
        simp only [List.cons_append, lines_cons, consLine]
        split
        · simp
        · split <;> simp
    obtain ⟨l, ls, hl⟩ := List.exists_cons_of_ne_nil hne
    rw [hl]
    unfold consLine
    split <;> rfl

theorem lines_append {s : Text} (h : ∀ c ∈ s.getLast?, c = '\n') (t : Text) :
    lines (s ++ t) = lines s ++ lines t := by
  rcases List.eq_nil_or_concat s with rfl | ⟨front, c, rfl⟩
  · rfl
  · obtain rfl := h c (by simp)
    rw [List.concat_eq_append, List.append_assoc, List.singleton_append, lines_append_newline]

theorem lines_solid {l : Text} (h : '\n' ∉ l) (hne : l ≠ []) : lines l = [l] := by
  induction l with
  | nil => exact absurd rfl hne
  | cons c l ih =>
    rw [List.mem_cons, not_or] at h
    by_cases hl : l = []
    · rw [hl, lines_cons, lines, List.foldr_nil, consLine, if_neg (Ne.symm h.1)]
    · rw [lines_cons, ih h.2 hl, consLine, if_neg (Ne.symm h.1)]

theorem lines_newline {l : Text} (h : '\n' ∉ l) : lines (l ++ ['\n']) = [l] := by
  induction l with
  | nil => rfl
  | cons c l ih =>
    rw [List.mem_cons, not_or] at h
    rw [List.cons_append, lines_cons, ih h.2, consLine, if_neg (Ne.symm h.1)]

/-- Lines each ended by a line feed are the lines of the whole. -/
theorem lines_flatMap {ls : List Text} (h : ∀ l ∈ ls, '\n' ∉ l) :
    lines (ls.flatMap fun l => l ++ ['\n']) = ls := by
  induction ls with
  | nil => rfl
  | cons l ls ih =>
    have hl := h l List.mem_cons_self
    have hls := fun m hm => h m (List.mem_cons_of_mem l hm)
    rw [List.flatMap_cons, List.append_assoc, List.singleton_append, lines_append_newline,
      lines_newline hl, ih hls]
    rfl

/-! ## The first character of a kind -/

/-- What stands before the first character that satisfies `p`: everything, if none does. -/
def before (p : Char → Bool) (t : Text) : Text :=
  t.takeWhile fun c => !p c

/-- What stands after the first character that satisfies `p`, if there is one. -/
def after? (p : Char → Bool) (t : Text) : Option Text :=
  match t.dropWhile fun c => !p c with
  | [] => none
  | _ :: rest => some rest

theorem ne_of_not_mem {c : Char} {t : Text} (h : c ∉ t) : ∀ d ∈ t, decide (d = c) = false := by
  intro d hd
  apply decide_eq_false
  rintro rfl
  exact h hd

section First

variable {p : Char → Bool} {s t : Text} {c : Char} (hs : ∀ d ∈ s, p d = false)

include hs

theorem before_append (hc : p c = true) : before p (s ++ c :: t) = s := by
  unfold before
  rw [List.takeWhile_append_of_pos (by simpa using hs)]
  simp [hc]

theorem after?_append (hc : p c = true) : after? p (s ++ c :: t) = some t := by
  unfold after?
  rw [List.dropWhile_append_of_pos (by simpa using hs)]
  simp [hc]

theorem before_eq_self : before p s = s := by
  have htake : ((s ++ []).takeWhile fun c => !p c) = s ++ [] :=
    List.takeWhile_append_of_pos (by simpa using hs)
  rwa [List.append_nil] at htake

theorem after?_eq_none : after? p s = none := by
  have hdrop : ((s ++ []).dropWhile fun c => !p c) = [] :=
    List.dropWhile_append_of_pos (by simpa using hs)
  rw [List.append_nil] at hdrop
  rw [after?, hdrop]

theorem before_append_left : before p (s ++ t) = s ++ before p t :=
  List.takeWhile_append_of_pos (by simpa using hs)

theorem after?_append_left : after? p (s ++ t) = after? p t := by
  unfold after?
  rw [List.dropWhile_append_of_pos (by simpa using hs)]

end First

theorem before_eq_nil {p : Char → Bool} {t : Text} (h : ∀ c ∈ t.head?, p c = true) :
    before p t = [] := by
  cases t with
  | nil => rfl
  | cons c t => exact List.takeWhile_cons_of_neg (by simp [h c rfl])

theorem eq_false_of_mem_before {p : Char → Bool} {t : Text} {c : Char} (h : c ∈ before p t) :
    p c = false := by
  have hnot := List.all_eq_true.mp List.all_takeWhile c h
  simpa using hnot

/-- A text goes on behind its first part, if at all, with a character of the kind. -/
theorem exists_behind (p : Char → Bool) (t : Text) :
    ∃ rest, t = before p t ++ rest ∧ ∀ c ∈ rest.head?, p c = true := by
  refine ⟨t.dropWhile fun c => !p c, List.takeWhile_append_dropWhile.symm, ?_⟩
  intro c hc
  have hnot := List.head?_dropWhile_not (fun c => !p c) t
  rw [Option.mem_def.mp hc] at hnot
  simpa using hnot

theorem after?_eq_some {p : Char → Bool} {t rest : Text} (h : after? p t = some rest) :
    ∃ c, p c = true ∧ t = before p t ++ c :: rest := by
  obtain ⟨behind, ht, hhead⟩ := exists_behind p t
  have hbefore : ∀ d ∈ before p t, p d = false := fun d hd => eq_false_of_mem_before hd
  rw [ht, after?_append_left hbefore] at h
  cases behind with
  | nil => cases h
  | cons c behind =>
    have hc : p c = true := hhead c rfl
    have hrest : after? p ([] ++ c :: behind) = some behind := after?_append (by simp) hc
    rw [List.nil_append] at hrest
    rw [hrest] at h
    cases h
    exact ⟨c, hc, ht⟩

theorem eq_false_of_after?_eq_none {p : Char → Bool} {t : Text} (h : after? p t = none) {c : Char}
    (hc : c ∈ t) : p c = false := by
  have hbefore : ∀ d ∈ before p t, p d = false := fun d hd => eq_false_of_mem_before hd
  obtain ⟨rest, ht, hhead⟩ := exists_behind p t
  cases rest with
  | nil =>
    rw [List.append_nil] at ht
    exact hbefore c (ht ▸ hc)
  | cons d rest =>
    rw [ht, after?_append hbefore (hhead d rfl)] at h
    cases h

theorem before_append_of_mem {p : Char → Bool} {s : Text} (h : ∃ d ∈ s, p d = true) (t : Text) :
    before p (s ++ t) = before p s := by
  obtain ⟨d, hd, hpd⟩ := h
  have hbefore : ∀ c ∈ before p s, p c = false := fun c hc => eq_false_of_mem_before hc
  obtain ⟨rest, hs, hhead⟩ := exists_behind p s
  cases rest with
  | nil =>
    rw [List.append_nil] at hs
    have hnot := hbefore d (hs ▸ hd)
    rw [hpd] at hnot
    cases hnot
  | cons c rest =>
    have hfirst : before p (before p s ++ c :: (rest ++ t)) = before p s :=
      before_append hbefore (hhead c rfl)
    rwa [← List.cons_append, ← List.append_assoc, ← hs] at hfirst

/-- The first `c` cuts a text in one way only. -/
theorem first_cut_inj {c : Char} {s s' t t' : Text} (hs : c ∉ s) (hs' : c ∉ s')
    (h : s ++ c :: t = s' ++ c :: t') : s = s' ∧ t = t' := by
  have hbefore : before (· = c) (s ++ c :: t) = s := before_append (ne_of_not_mem hs) (by simp)
  rw [h, before_append (ne_of_not_mem hs') (by simp)] at hbefore
  subst hbefore
  exact ⟨rfl, (List.cons.inj (List.append_cancel_left h)).2⟩

/-- A text that holds `c` can be cut at the last one. -/
theorem exists_last_cut {c : Char} {t : Text} (h : c ∈ t) :
    ∃ front back, t = front ++ c :: back ∧ c ∉ back := by
  obtain ⟨back, front, hreverse, hback⟩ := List.eq_append_cons_of_mem (List.mem_reverse.mpr h)
  refine ⟨front.reverse, back.reverse, ?_, by rwa [List.mem_reverse]⟩
  have ht := congrArg List.reverse hreverse
  simpa using ht

/-- The last `c` cuts a text in one way only. -/
theorem last_cut_inj {c : Char} {s s' t t' : Text} (ht : c ∉ t) (ht' : c ∉ t')
    (h : s ++ c :: t = s' ++ c :: t') : s = s' ∧ t = t' := by
  -- read from its end, the text is cut at its first `c`
  have hreverse := congrArg List.reverse h
  simp only [List.reverse_append, List.reverse_cons, List.append_assoc, List.singleton_append]
    at hreverse
  have hcut := first_cut_inj (by simpa using ht) (by simpa using ht') hreverse
  exact ⟨List.reverse_inj.mp hcut.2, List.reverse_inj.mp hcut.1⟩

/-! ## The ends -/

def nonempty? (t : Text) : Option Text :=
  if t = [] then none else some t

def dropFirst? (c : Char) : Text → Option Text
  | [] => none
  | d :: rest => if d = c then some rest else none

/-- The text without its last character, if that satisfies `p`. -/
def dropLast? (p : Char → Bool) (t : Text) : Option Text :=
  match t.getLast? with
  | none => none
  | some c => if p c then some t.dropLast else none

theorem nonempty?_eq_some {t e : Text} : nonempty? t = some e ↔ t = e ∧ e ≠ [] := by
  unfold nonempty?
  split <;> rename_i h
  · simp only [reduceCtorEq, false_iff, h]
    rintro ⟨rfl, hne⟩
    exact hne rfl
  · simp only [Option.some.injEq]
    exact ⟨fun he => ⟨he, he ▸ h⟩, fun he => he.1⟩

theorem dropFirst?_eq_some {c : Char} {t rest : Text} :
    dropFirst? c t = some rest ↔ t = c :: rest := by
  cases t with
  | nil => simp [dropFirst?]
  | cons d t =>
    by_cases h : d = c <;> simp [dropFirst?, h]

theorem dropLast?_eq_some {p : Char → Bool} {t rest : Text} :
    dropLast? p t = some rest ↔ ∃ c, p c = true ∧ t = rest ++ [c] := by
  unfold dropLast?
  cases h : t.getLast? with
  | none =>
    rw [List.getLast?_eq_none_iff] at h
    simp [h]
  | some c =>
    obtain ⟨init, rfl⟩ := List.getLast?_eq_some_iff.mp h
    by_cases hc : p c = true <;> simp [hc]

end Asm6502.Text
