import Asm6502.Labels
import Mathlib.Data.List.Nodup

/-!
What a label table holds after any history of definitions. A definition that is refused leaves the
table as it is, and one that succeeds is never undone: the table is the list of the successes, each
name in it once, and a name stands for its first definition from then on.
-/

namespace Asm6502.LabelTable

/-! ## One definition -/

theorem define_eq_error {t : LabelTable} {l : Label} {f : Fault} :
    t.define l = .error f ↔
      ∃ line, (t.find? l.name).map Label.line = some line ∧ f = .duplicateLabel l.name line := by
  unfold define
  cases hfind : t.find? l.name with
  | none => simp
  | some earlier => simp [eq_comm]

theorem define_cases (t : LabelTable) (l : Label) :
    (t.find? l.name = none ∧ t.define l = .ok ⟨t.entries ++ [l]⟩) ∨
      ∃ d, t.find? l.name = some d ∧ t.define l = .error (.duplicateLabel l.name d.line) := by
  cases hfind : t.find? l.name with
  | none =>
    left
    simp [define, hfind]
  | some d =>
    right
    simp [define, hfind]

theorem find?_eq_none_iff {t : LabelTable} {name : Text} :
    t.find? name = none ↔ name ∉ t.entries.map Label.name := by
  simp [find?]

theorem find?_eq_some_iff {t : LabelTable} (h : (t.entries.map Label.name).Nodup)
    {name : Text} {l : Label} : t.find? name = some l ↔ l ∈ t.entries ∧ l.name = name := by
  unfold find?
  constructor
  · intro hfind
    exact ⟨List.mem_of_find?_eq_some hfind, by simpa using List.find?_some hfind⟩
  · rintro ⟨hmem, rfl⟩
    have hsome : (t.entries.find? fun d => d.name = l.name).isSome := by
      rw [List.find?_isSome]
      exact ⟨l, hmem, by simp⟩
    obtain ⟨d, hd⟩ := Option.isSome_iff_exists.mp hsome
    have hname : d.name = l.name := by simpa using List.find?_some hd
    rw [hd, List.inj_on_of_nodup_map h (List.mem_of_find?_eq_some hd) hmem hname]

/-! ## A history of definitions -/

/-- The table behind a definition that is tried: a refused one leaves it as it is. -/
def offer (t : LabelTable) (l : Label) : LabelTable :=
  match t.define l with
  | .ok u => u
  | .error _ => t

def after (t : LabelTable) (history : List Label) : LabelTable :=
  history.foldl offer t

/-- The definitions of a history that succeed, each tried on the table that those before it
leave. -/
def accepted (t : LabelTable) : List Label → List Label
  | [] => []
  | l :: history =>
    match t.define l with
    | .ok u => l :: u.accepted history
    | .error _ => t.accepted history

theorem offer_of_ok {t u : LabelTable} {l : Label} (h : t.define l = .ok u) : t.offer l = u := by
  rw [offer, h]

theorem offer_of_error {t : LabelTable} {l : Label} {f : Fault} (h : t.define l = .error f) :
    t.offer l = t := by
  rw [offer, h]

theorem nodup_offer {t : LabelTable} (h : (t.entries.map Label.name).Nodup) (l : Label) :
    ((t.offer l).entries.map Label.name).Nodup := by
  rcases t.define_cases l with ⟨hnone, hok⟩ | ⟨d, -, herror⟩
  · have hnames := h.concat (find?_eq_none_iff.mp hnone)
    rw [List.concat_eq_append] at hnames
    rw [offer_of_ok hok, List.map_append]
    exact hnames
  · rw [offer_of_error herror]
    exact h

theorem nodup_after {t : LabelTable} (h : (t.entries.map Label.name).Nodup)
    (history : List Label) : ((t.after history).entries.map Label.name).Nodup := by
  induction history generalizing t with
  | nil => exact h
  | cons l history ih => exact ih (nodup_offer h l)

/-- A table keeps what it holds and adds what is `accepted` behind it. -/
theorem entries_after (t : LabelTable) (history : List Label) :
    (t.after history).entries = t.entries ++ t.accepted history := by
  induction history generalizing t with
  | nil => simp [after, accepted]
  | cons l history ih =>
    have hafter : t.after (l :: history) = (t.offer l).after history := rfl
    rcases t.define_cases l with ⟨-, hok⟩ | ⟨d, -, herror⟩
    · rw [hafter, offer_of_ok hok, ih]
      simp only [accepted, hok, List.append_assoc, List.singleton_append]
    · rw [hafter, offer_of_error herror, ih]
      simp only [accepted, herror]

theorem find?_after {t : LabelTable} {name : Text} {d : Label} (h : t.find? name = some d)
    (history : List Label) : (t.after history).find? name = some d := by
  unfold find? at h ⊢
  rw [entries_after, List.find?_append, h]
  rfl

/-- Whatever is tried on an empty table: the names in it are distinct, it lists what is `accepted`
in that order, `define` fails just if the name was defined before, a refusal names the line of that
definition and changes nothing, and `find?` gives a name as it was defined, then and later. -/
theorem definitions_stand (history : List Label) :
    let t := empty.after history
    let accepted := empty.accepted history
    (t.entries.map Label.name).Nodup ∧ t.entries = accepted ∧
      (∀ l, (∃ f, t.define l = .error f) ↔ ∃ d ∈ accepted, d.name = l.name) ∧
      (∀ l, ∀ d ∈ accepted, d.name = l.name →
        t.define l = .error (.duplicateLabel l.name d.line) ∧ t.offer l = t) ∧
      (∀ name d, t.find? name = some d ↔ d ∈ accepted ∧ d.name = name) ∧
      (∀ name a, t.address? name = some a ↔ ∃ d ∈ accepted, d.name = name ∧ d.address = a) ∧
      ∀ name d, t.find? name = some d → ∀ later,
        (empty.after (history ++ later)).find? name = some d ∧
          (empty.after (history ++ later)).address? name = some d.address := by
  intro t accepted
  have hstart : (empty.entries.map Label.name).Nodup := List.nodup_nil
  have hnodup : (t.entries.map Label.name).Nodup := nodup_after hstart history
  have hentries : t.entries = accepted := entries_after empty history
  have hfind : ∀ name d, t.find? name = some d ↔ d ∈ accepted ∧ d.name = name := by
    intro name d
    rw [find?_eq_some_iff hnodup, hentries]
  have hrefused : ∀ l, ∀ d ∈ accepted, d.name = l.name →
      t.define l = .error (.duplicateLabel l.name d.line) := by
    intro l d hd hname
    rw [define_eq_error, (hfind l.name d).mpr ⟨hd, hname⟩]
    exact ⟨d.line, rfl, rfl⟩
  refine ⟨hnodup, hentries, ?_, ?_, hfind, ?_, ?_⟩
  · intro l
    constructor
    · rintro ⟨f, hf⟩
      obtain ⟨line, hline, -⟩ := define_eq_error.mp hf
      obtain ⟨d, hd, -⟩ := Option.map_eq_some_iff.mp hline
      exact ⟨d, (hfind l.name d).mp hd⟩
    · rintro ⟨d, hd, hname⟩
      exact ⟨_, hrefused l d hd hname⟩
  · intro l d hd hname
    have herror := hrefused l d hd hname
    exact ⟨herror, offer_of_error herror⟩
  · intro name a
    simp only [address?, Option.map_eq_some_iff, hfind, and_assoc]
  · intro name d hd later
    have hlater : (empty.after (history ++ later)).find? name = some d := by
      rw [after, List.foldl_append]
      exact find?_after hd later
    exact ⟨hlater, by rw [address?, hlater]; rfl⟩

theorem definitions_stand_of_repeated_name :
    let alpha : Label := ⟨"alpha".toList, 0x1000, 1⟩
    let again : Label := ⟨"alpha".toList, 0x1008, 9⟩
    let history : List Label :=
      [⟨"zeta".toList, 0x1010, 3⟩, alpha, ⟨"Alpha".toList, 0x1004, 2⟩]
    let t := empty.after history
    (alpha ∈ empty.accepted history ∧ alpha.name = again.name) ∧
      t.define again = .error (.duplicateLabel "alpha".toList 1) ∧ t.offer again = t ∧
      (empty.after (history ++ [again])).find? "alpha".toList = some alpha ∧
      (empty.after (history ++ [again])).address? "alpha".toList = some 0x1000 := by
  intro alpha again history t
  obtain ⟨-, -, -, hrefused, hfind, -, hlater⟩ := definitions_stand history
  have hmem : alpha ∈ empty.accepted history := by decide
  obtain ⟨herror, hsame⟩ := hrefused again alpha hmem rfl
  have hfound := (hfind "alpha".toList alpha).mpr ⟨hmem, rfl⟩
  exact ⟨⟨hmem, rfl⟩, herror, hsame, hlater "alpha".toList alpha hfound [again]⟩

end Asm6502.LabelTable
