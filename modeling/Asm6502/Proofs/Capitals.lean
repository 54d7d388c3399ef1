import Asm6502.Text.Upper
import Mathlib.Data.List.Basic

/-!
What upper-casing leads to. The tables are compared span by span: no upper-case form is a character
that upper-casing changes, nor a blank or a semicolon. So a text in upper case stays as it is, and a
word in upper case is still a word.
-/

namespace Asm6502.Text

/-! ## Spans of code points -/

/-- The code points from `first` to `last`, or every other one of them. -/
structure Span where
  first : Nat
  last : Nat
  alternate : Bool

namespace Span

def single (n : Nat) : Span :=
  ⟨n, n, true⟩

def Contains (s : Span) (n : Nat) : Prop :=
  s.first ≤ n ∧ n ≤ s.last ∧ (s.alternate = true → n % 2 = s.first % 2)

/-- Each span begins behind the one before it, the first one not before `n`. -/
def ascending : Nat → List Span → Bool
  | _, [] => true
  | n, s :: spans => n.ble s.first && s.first.ble s.last && ascending s.last spans

/-- Whether a span has nothing in common with `ascending` ones. Spans that take turns count as
apart, and the search ends at the first span behind. -/
def clearOf (s : Span) : List Span → Bool
  | [] => true
  | t :: spans =>
    s.last.blt t.first ||
      (t.last.blt s.first || s.alternate && t.alternate && (s.first + t.first) % 2 == 1) &&
        s.clearOf spans

theorem le_first_of_ascending {n : Nat} {spans : List Span} (h : ascending n spans = true) {s : Span}
    (hs : s ∈ spans) : n ≤ s.first := by
  induction spans generalizing n with
  | nil => cases hs
  | cons t spans ih =>
    rw [ascending, Bool.and_eq_true, Bool.and_eq_true, Nat.ble_eq, Nat.ble_eq] at h
    obtain ⟨⟨hfirst, hlast⟩, hrest⟩ := h
    obtain rfl | hs := List.mem_cons.mp hs
    · exact hfirst
    · have hnext := ih hrest hs
      omega

theorem not_contains_of_clearOf {s : Span} {spans : List Span} {k n : Nat}
    (hascending : ascending k spans = true) (h : s.clearOf spans = true) (hn : s.Contains n)
    {t : Span} (ht : t ∈ spans) : ¬t.Contains n := by
  obtain ⟨hfirst, hlast, hturn⟩ := hn
  induction spans generalizing k with
  | nil => cases ht
  | cons u spans ih =>
    rw [clearOf, Bool.or_eq_true, Bool.and_eq_true, Bool.or_eq_true, Bool.and_eq_true,
      Bool.and_eq_true, beq_iff_eq, Nat.blt_eq, Nat.blt_eq] at h
    obtain hbehind | ⟨hapart, hclear⟩ := h
    · -- all spans from here on lie behind
      have hfrom : ascending u.first (u :: spans) = true := by
        rw [ascending, Bool.and_eq_true, Bool.and_eq_true] at hascending ⊢
        exact ⟨⟨Nat.ble_eq_true_of_le (Nat.le_refl _), hascending.1.2⟩, hascending.2⟩
      have hle := le_first_of_ascending hfrom ht
      rintro ⟨hfirst', -, -⟩
      omega
    · rw [ascending, Bool.and_eq_true] at hascending
      obtain rfl | ht := List.mem_cons.mp ht
      · rintro ⟨hfirst', hlast', hturn'⟩
        obtain hbefore | ⟨⟨hs, ht⟩, hodd⟩ := hapart
        · omega
        · have hs' := hturn hs
          have ht' := hturn' ht
          omega
      · exact ih hascending.2 hclear ht

end Span

/-! ## The tables as spans -/

namespace CaseBand

def alternate (b : CaseBand) : Bool :=
  b.stride == 2 || b.first == b.last

def lower (b : CaseBand) : Span :=
  ⟨b.first, b.last, b.alternate⟩

def upper (b : CaseBand) : Span :=
  ⟨(b.first + b.shift).toNat, (b.last + b.shift).toNat, b.alternate⟩

variable {b : CaseBand} {n : Nat} (h : b.covers n = true)

include h

theorem contains_lower : b.lower.Contains n := by
  rw [covers, Bool.and_eq_true, Bool.and_eq_true, decide_eq_true_eq, decide_eq_true_eq,
    beq_iff_eq] at h
  obtain ⟨⟨hfirst, hlast⟩, hstride⟩ := h
  refine ⟨hfirst, hlast, ?_⟩
  intro halternate
  change (b.stride == 2 || b.first == b.last) = true at halternate
  change n % 2 = b.first % 2
  rw [Bool.or_eq_true, beq_iff_eq, beq_iff_eq] at halternate
  obtain htwo | hone := halternate
  · rw [htwo] at hstride
    omega
  · omega

theorem contains_upper (hshift : 0 ≤ b.first + b.shift) :
    b.upper.Contains (n + b.shift).toNat := by
  obtain ⟨hfirst, hlast, hturn⟩ := contains_lower h
  change b.first ≤ n at hfirst
  change n ≤ b.last at hlast
  change b.alternate = true → n % 2 = b.first % 2 at hturn
  refine ⟨?_, ?_, ?_⟩
  · change (b.first + b.shift).toNat ≤ _
    omega
  · change _ ≤ (b.last + b.shift).toNat
    omega
  · intro halternate
    have hparity := hturn halternate
    change _ = (b.first + b.shift).toNat % 2
    omega

end CaseBand

/-- The semicolon and the small letters of ASCII. -/
def asciiSpans : List Span :=
  [.single 0x3B, ⟨0x61, 0x7A, false⟩]

def blankSpans : List Span :=
  blankRanges.map fun r => ⟨r.1, r.2, false⟩

def bandSpans : List Span :=
  caseBands.map CaseBand.lower

def expansionSpans : List Span :=
  caseExpansions.map fun p => .single p.1

/-- What no upper-case form lies in. -/
def barred : List (List Span) :=
  [asciiSpans, blankSpans, bandSpans, expansionSpans]

def capitals : List Span :=
  ⟨0x41, 0x5A, false⟩ :: caseBands.map CaseBand.upper ++
    caseExpansions.flatMap fun p => p.2.map Span.single

theorem ascending_barred : ∀ spans ∈ barred, Span.ascending 1 spans = true := by
  decide +kernel

theorem capitals_clear : (capitals.all fun s => barred.all s.clearOf) = true := by
  decide +kernel

theorem shift_of_mem_caseBands : ∀ b ∈ caseBands, 0 ≤ b.first + b.shift := by
  decide +kernel

/-! ## Capitals -/

def IsCapital (n : Nat) : Prop :=
  ∀ spans ∈ barred, ∀ s ∈ spans, ¬s.Contains n

theorem isCapital_of_mem {s : Span} (hs : s ∈ capitals) {n : Nat} (hn : s.Contains n) :
    IsCapital n := by
  intro spans hspans t ht
  have hclear := List.all_eq_true.mp (List.all_eq_true.mp capitals_clear s hs) spans hspans
  exact Span.not_contains_of_clearOf (ascending_barred spans hspans) hclear hn ht

/-- A number that is no code point becomes the character zero, which is a capital as well. -/
theorem isCapital_ofNat {n : Nat} (h : IsCapital n) : IsCapital (Char.ofNat n).toNat := by
  by_cases hvalid : n.isValidChar
  · have hsame : Char.ofNat n = Char.ofNatAux n hvalid := dif_pos hvalid
    rw [hsame]
    exact h
  · have hzero : (Char.ofNat n).toNat = 0 := congrArg Char.toNat (dif_neg hvalid)
    rw [hzero]
    intro spans hspans s hs hcontains
    have hfirst := Span.le_first_of_ascending (ascending_barred spans hspans) hs
    have hle := hcontains.1
    omega

section Capital

variable {c : Char} (h : IsCapital c.toNat)

include h

theorem IsCapital.upperChar_eq : upperChar c = [c] := by
  unfold upperChar
  split
  · have hletter := h asciiSpans (by simp [barred]) ⟨0x61, 0x7A, false⟩ (by simp [asciiSpans])
    have hsame : c.toUpper = c := by
      rw [← Char.toNat_inj, toNat_toUpper]
      apply if_neg
      rintro ⟨hfirst, hlast⟩
      exact hletter ⟨hfirst, hlast, by simp⟩
    rw [hsame]
  · have hexpansion : caseExpansions.lookup c.toNat = none := by
      rw [List.lookup_eq_none_iff]
      intro p hp
      have hnot := h expansionSpans (by simp [barred]) (.single p.1) (List.mem_map_of_mem hp)
      rw [bne_iff_ne]
      intro hsame
      rw [hsame] at hnot
      exact hnot ⟨Nat.le_refl _, Nat.le_refl _, fun _ => rfl⟩
    have hband : caseBands.find? (fun b => b.covers c.toNat) = none := by
      rw [List.find?_eq_none]
      intro b hb hcovers
      have hnot := h bandSpans (by simp [barred]) b.lower (List.mem_map_of_mem hb)
      exact hnot (CaseBand.contains_lower hcovers)
    rw [upperBeyondAscii, hexpansion]
    simp only [hband]

theorem IsCapital.isBlank_eq : isBlank c = false := by
  rw [Bool.eq_false_iff]
  intro hblank
  obtain ⟨r, hr, hrange⟩ := List.any_eq_true.mp hblank
  rw [Bool.and_eq_true, decide_eq_true_eq, decide_eq_true_eq] at hrange
  have hnot := h blankSpans (by simp [barred]) ⟨r.1, r.2, false⟩
    (List.mem_map.mpr ⟨r, hr, rfl⟩)
  exact hnot ⟨hrange.1, hrange.2, by simp⟩

theorem IsCapital.ne_semicolon : c ≠ ';' := by
  rintro rfl
  have hnot := h asciiSpans (by simp [barred]) (.single 0x3B) (by simp [asciiSpans])
  exact hnot ⟨by decide, by decide, by decide⟩

end Capital

/-! ## Upper-casing -/

/-- A character is left as it is, or becomes one or more capitals. -/
theorem upperChar_cases (c : Char) :
    upperChar c = [c] ∨ (upperChar c ≠ [] ∧ ∀ d ∈ upperChar c, IsCapital d.toNat) := by
  unfold upperChar
  split
  · by_cases hletter : 0x61 ≤ c.toNat ∧ c.toNat ≤ 0x7A
    · refine .inr ⟨by simp, ?_⟩
      intro d hd
      rw [List.mem_singleton.mp hd]
      apply isCapital_of_mem (s := ⟨0x41, 0x5A, false⟩) (by simp [capitals])
      rw [toNat_toUpper, if_pos hletter]
      exact ⟨by change 0x41 ≤ _; omega, by change _ ≤ 0x5A; omega, by simp⟩
    · left
      have hsame : c.toUpper = c := by
        rw [← Char.toNat_inj, toNat_toUpper, if_neg hletter]
      rw [hsame]
  · unfold upperBeyondAscii
    split
    · rename_i ns hlookup
      right
      obtain ⟨before, after, hexpansions, -⟩ := List.lookup_eq_some_iff.mp hlookup
      have hmem : (c.toNat, ns) ∈ caseExpansions := by simp [hexpansions]
      have hne : ∀ p ∈ caseExpansions, p.2 ≠ [] := by decide +kernel
      refine ⟨by simpa using hne _ hmem, ?_⟩
      intro d hd
      obtain ⟨n, hn, rfl⟩ := List.mem_map.mp hd
      apply isCapital_ofNat
      apply isCapital_of_mem (s := .single n)
      · apply List.mem_append_right
        exact List.mem_flatMap.mpr ⟨_, hmem, List.mem_map_of_mem hn⟩
      · exact ⟨Nat.le_refl n, Nat.le_refl n, fun _ => rfl⟩
    · split
      · rename_i b hfind
        refine .inr ⟨by simp, ?_⟩
        intro d hd
        have hb := List.mem_of_find?_eq_some hfind
        rw [List.mem_singleton.mp hd]
        apply isCapital_ofNat
        apply isCapital_of_mem (s := b.upper)
        · apply List.mem_append_left
          exact List.mem_cons_of_mem _ (List.mem_map_of_mem hb)
        · have hcovers : b.covers c.toNat = true :=
            List.find?_some (p := (CaseBand.covers · c.toNat)) hfind
          exact CaseBand.contains_upper hcovers (shift_of_mem_caseBands b hb)
      · exact .inl rfl

theorem upper_ne_nil {t : Text} (h : t ≠ []) : upper t ≠ [] := by
  obtain ⟨c, rest, rfl⟩ := List.exists_cons_of_ne_nil h
  rw [upper, List.flatMap_cons]
  obtain hsame | ⟨hne, -⟩ := upperChar_cases c
  · simp [hsame]
  · simp [hne]

/-- What stands in an upper-cased text is a capital or stood there before. -/
theorem mem_upper {t : Text} {d : Char} (h : d ∈ upper t) : IsCapital d.toNat ∨ d ∈ t := by
  obtain ⟨c, hc, hd⟩ := List.mem_flatMap.mp h
  obtain hsame | ⟨-, hcapital⟩ := upperChar_cases c
  · rw [hsame, List.mem_singleton] at hd
    exact .inr (hd ▸ hc)
  · exact .inl (hcapital d hd)

theorem upper_append (s t : Text) : upper (s ++ t) = upper s ++ upper t :=
  List.flatMap_append ..

theorem upper_of_capitals {t : Text} (h : ∀ c ∈ t, IsCapital c.toNat) : upper t = t := by
  induction t with
  | nil => rfl
  | cons c t ih =>
    have hrest := ih fun d hd => h d (List.mem_cons_of_mem c hd)
    unfold upper at hrest ⊢
    rw [List.flatMap_cons, (h c List.mem_cons_self).upperChar_eq, hrest]
    rfl

/-- Upper-casing a text twice changes nothing more. -/
theorem upper_upper (t : Text) : upper (upper t) = upper t := by
  induction t with
  | nil => rfl
  | cons c t ih =>
    have hchar : upper (upperChar c) = upperChar c := by
      obtain hsame | ⟨-, hcapital⟩ := upperChar_cases c
      · rw [hsame, upper, List.flatMap_cons, hsame]
        rfl
      · exact upper_of_capitals hcapital
    have hcons : upper (c :: t) = upperChar c ++ upper t := List.flatMap_cons
    rw [hcons, upper_append, hchar, ih]

end Asm6502.Text
