/-!
Text is the list of its characters. Blanks are the characters with the `White_Space` property;
trimming removes them at the ends.
-/

namespace Asm6502

abbrev Text := List Char

namespace Text

-- Characters can be enumerated, so without these two a question about some of them would be put to
-- all of them.
instance (priority := 2000) decidableForallMem (t : Text) (p : Char → Prop) [DecidablePred p] :
    Decidable (∀ c ∈ t, p c) :=
  List.decidableBAll p t

instance (priority := 2000) decidableForallMemOption (o : Option Char) (p : Char → Prop)
    [DecidablePred p] : Decidable (∀ c ∈ o, p c) :=
  Option.decidableForallMem o

/-! ## Blanks -/

/-- The code points with the `White_Space` property, as inclusive ranges in ascending order. -/
def blankRanges : List (Nat × Nat) :=
  [(0x0009, 0x000D), (0x0020, 0x0020), (0x0085, 0x0085), (0x00A0, 0x00A0), (0x1680, 0x1680),
   (0x2000, 0x200A), (0x2028, 0x2029), (0x202F, 0x202F), (0x205F, 0x205F), (0x3000, 0x3000)]

def isBlank (c : Char) : Bool :=
  blankRanges.any fun (lo, hi) => lo ≤ c.toNat && c.toNat ≤ hi

/-- There is no blank from `!` to `~`. -/
theorem toNat_of_isBlank {c : Char} (h : isBlank c = true) : c.toNat ≤ 0x20 ∨ 0x7F ≤ c.toNat := by
  simp only [isBlank, blankRanges, List.any_cons, List.any_nil, Bool.or_false, Bool.or_eq_true,
    Bool.and_eq_true, decide_eq_true_eq] at h
  omega

/-! ## Trimming -/

def trimStart (t : Text) : Text :=
  t.dropWhile isBlank

def trimEnd (t : Text) : Text :=
  (t.reverse.dropWhile isBlank).reverse

def trim (t : Text) : Text :=
  trimEnd (trimStart t)

theorem trimStart_append {s t : Text} (h : ∀ c ∈ s, isBlank c = true) :
    trimStart (s ++ t) = trimStart t :=
  List.dropWhile_append_of_pos h

theorem trimStart_eq_self {t : Text} (h : ∀ c ∈ t.head?, isBlank c = false) :
    trimStart t = t := by
  cases t with
  | nil => rfl
  | cons c t => simp [trimStart, h c rfl]

theorem trimEnd_append {s t : Text} (h : ∀ c ∈ t, isBlank c = true) :
    trimEnd (s ++ t) = trimEnd s := by
  unfold trimEnd
  rw [List.reverse_append, List.dropWhile_append_of_pos (by simpa using h)]

theorem trimEnd_eq_self {t : Text} (h : ∀ c ∈ t.getLast?, isBlank c = false) :
    trimEnd t = t := by
  have hreverse : trimStart t.reverse = t.reverse := by
    apply trimStart_eq_self
    rw [List.head?_reverse]
    exact h
  unfold trimEnd
  rw [← trimStart, hreverse, List.reverse_reverse]

theorem trimStart_append_cons {c : Char} (h : isBlank c = false) (s t : Text) :
    trimStart (s ++ c :: t) = trimStart s ++ c :: t := by
  unfold trimStart
  rw [List.dropWhile_append]
  split
  · rename_i hempty
    rw [List.isEmpty_iff.mp hempty, List.dropWhile_cons_of_neg (by simp [h])]
    rfl
  · rfl

/-- A text with no blank at its end keeps what is left behind it. -/
theorem trimEnd_append_solid {s : Text} (h : ∀ c ∈ s.getLast?, isBlank c = false) (t : Text) :
    trimEnd (s ++ t) = s ++ trimEnd t := by
  have hs : s.reverse.dropWhile isBlank = s.reverse := by
    have hself := congrArg List.reverse (trimEnd_eq_self h)
    rwa [trimEnd, List.reverse_reverse] at hself
  unfold trimEnd
  rw [List.reverse_append, List.dropWhile_append]
  split
  · rename_i hempty
    rw [List.isEmpty_iff.mp hempty, hs]
    simp
  · simp

/-- Trimming does not reach beyond a character that is no blank. -/
theorem trim_append_cons {c : Char} (h : isBlank c = false) (s t : Text) :
    trim (s ++ c :: t) = trimStart s ++ c :: trimEnd t := by
  have hlast : ∀ d ∈ (trimStart s ++ [c]).getLast?, isBlank d = false := by
    rw [List.getLast?_concat]
    rintro d ⟨⟩
    exact h
  have hend := trimEnd_append_solid hlast t
  rw [List.append_assoc, List.append_assoc] at hend
  rw [trim, trimStart_append_cons h]
  exact hend

theorem trim_blank_append {s : Text} (h : ∀ c ∈ s, isBlank c = true) (t : Text) :
    trim (s ++ t) = trim t := by
  rw [trim, trimStart_append h, trim]

theorem trim_append_blank {t : Text} (h : ∀ c ∈ t, isBlank c = true) (s : Text) :
    trim (s ++ t) = trim s := by
  unfold trim trimStart
  rw [List.dropWhile_append]
  split
  · rename_i hempty
    have ht : (t ++ []).dropWhile isBlank = [] := List.dropWhile_append_of_pos h
    rw [List.append_nil] at ht
    rw [List.isEmpty_iff.mp hempty, ht]
  · exact trimEnd_append h

theorem exists_trimEnd (t : Text) : ∃ b, t = trimEnd t ++ b ∧ ∀ c ∈ b, isBlank c = true := by
  refine ⟨(t.reverse.takeWhile isBlank).reverse, ?_, ?_⟩
  · rw [trimEnd, ← List.reverse_append, List.takeWhile_append_dropWhile, List.reverse_reverse]
  · intro c hc
    exact List.all_eq_true.mp List.all_takeWhile c (List.mem_reverse.mp hc)

/-- A text is what trimming leaves of it, with blanks around. -/
theorem exists_trim (t : Text) : ∃ a b, t = a ++ (trim t ++ b) ∧ (∀ c ∈ a, isBlank c = true) ∧
    ∀ c ∈ b, isBlank c = true := by
  have hstart : t.takeWhile isBlank ++ trimStart t = t := List.takeWhile_append_dropWhile
  obtain ⟨b, hend, hb⟩ := exists_trimEnd (trimStart t)
  refine ⟨t.takeWhile isBlank, b, ?_, List.all_eq_true.mp List.all_takeWhile, hb⟩
  rw [trim, ← hend, hstart]

/-- What ends with a solid character before the trimming does so after it. -/
theorem trimEnd_eq_concat {s t : Text} {c : Char} (hc : isBlank c = false) :
    trimEnd t = s ++ [c] ↔ ∃ b, (∀ d ∈ b, isBlank d = true) ∧ t = s ++ c :: b := by
  constructor
  · intro h
    obtain ⟨b, ht, hb⟩ := exists_trimEnd t
    rw [h, List.append_assoc] at ht
    exact ⟨b, hb, ht⟩
  · rintro ⟨b, hb, rfl⟩
    have hsolid : ∀ d ∈ (s ++ [c]).getLast?, isBlank d = false := by
      rw [List.getLast?_concat]
      rintro d ⟨⟩
      exact hc
    rw [← List.singleton_append, ← List.append_assoc, trimEnd_append hb, trimEnd_eq_self hsolid]

/-- Trimming removes the blanks around a text that has none at its ends. -/
theorem trim_padded {s t u : Text} (hs : ∀ c ∈ s, isBlank c = true)
    (hu : ∀ c ∈ u, isBlank c = true) (hne : t ≠ []) (hhead : ∀ c ∈ t.head?, isBlank c = false)
    (hlast : ∀ c ∈ t.getLast?, isBlank c = false) : trim (s ++ (t ++ u)) = t := by
  have hstart : trimStart (t ++ u) = t ++ u := by
    obtain ⟨c, rest, rfl⟩ := List.exists_cons_of_ne_nil hne
    exact trimStart_eq_self hhead
  rw [trim, trimStart_append hs, hstart, trimEnd_append hu, trimEnd_eq_self hlast]

theorem trim_padded_solid {s t u : Text} (hs : ∀ c ∈ s, isBlank c = true)
    (hu : ∀ c ∈ u, isBlank c = true) (hne : t ≠ []) (ht : ∀ c ∈ t, isBlank c = false) :
    trim (s ++ (t ++ u)) = t :=
  trim_padded hs hu hne (fun c hc => ht c (List.mem_of_head? hc))
    (fun c hc => ht c (List.mem_of_getLast? hc))

theorem trim_eq_self {t : Text} (hhead : ∀ c ∈ t.head?, isBlank c = false)
    (hlast : ∀ c ∈ t.getLast?, isBlank c = false) : trim t = t := by
  rw [trim, trimStart_eq_self hhead, trimEnd_eq_self hlast]

theorem trim_append {s t : Text} (hs : s ≠ []) (ht : t ≠ [])
    (hhead : ∀ c ∈ s.head?, isBlank c = false) (hlast : ∀ c ∈ t.getLast?, isBlank c = false) :
    trim (s ++ t) = s ++ t := by
  obtain ⟨c, rest, rfl⟩ := List.exists_cons_of_ne_nil hs
  refine trim_eq_self (fun d hd => hhead d hd) ?_
  rw [List.getLast?_append, List.getLast?_eq_some_getLast ht]
  rw [List.getLast?_eq_some_getLast ht] at hlast
  exact hlast

theorem isPrefix_trimEnd (t : Text) : trimEnd t <+: t := by
  have hsuffix : (t.reverse.dropWhile isBlank) <:+ t.reverse := List.dropWhile_suffix isBlank
  rw [← List.reverse_prefix] at hsuffix
  rwa [List.reverse_reverse] at hsuffix

theorem isBlank_head_trimStart {t : Text} {c : Char} (h : c ∈ (trimStart t).head?) :
    isBlank c = false := by
  have hnot := List.head?_dropWhile_not isBlank t
  rw [← trimStart, Option.mem_def.mp h] at hnot
  exact hnot

theorem isBlank_head_trim {t : Text} {c : Char} (h : c ∈ (trim t).head?) : isBlank c = false := by
  apply isBlank_head_trimStart (t := t)
  obtain ⟨rest, hrest⟩ := isPrefix_trimEnd (trimStart t)
  rw [← hrest, List.head?_append, ← trim, Option.mem_def.mp h]
  rfl

theorem isBlank_getLast_trim {t : Text} {c : Char} (h : c ∈ (trim t).getLast?) :
    isBlank c = false := by
  rw [trim, trimEnd, List.getLast?_reverse] at h
  have hnot := List.head?_dropWhile_not isBlank (trimStart t).reverse
  rw [Option.mem_def.mp h] at hnot
  exact hnot

@[simp] theorem trim_trim (t : Text) : trim (trim t) = trim t :=
  trim_eq_self (fun _ => isBlank_head_trim) (fun _ => isBlank_getLast_trim)

@[simp] theorem trim_trimEnd (t : Text) : trim (trimEnd t) = trim t := by
  obtain ⟨b, ht, hb⟩ := exists_trimEnd t
  have htrim := trim_append_blank hb (trimEnd t)
  rw [← ht] at htrim
  exact htrim.symm

@[simp] theorem trim_trimStart (t : Text) : trim (trimStart t) = trim t := by
  have hstart : trimStart (trimStart t) = trimStart t :=
    trimStart_eq_self fun c hc => isBlank_head_trimStart hc
  rw [trim, trim, hstart]

theorem trim_cons {c : Char} (h : isBlank c = true) (t : Text) : trim (c :: t) = trim t :=
  trim_blank_append (s := [c]) (by simpa using h) t

theorem head?_trim {t : Text} {c : Char} (hc : t.head? = some c) (hblank : isBlank c = false) :
    (trim t).head? = some c := by
  have hstart : trimStart t = t := by
    apply trimStart_eq_self
    rw [hc]
    rintro d ⟨⟩
    exact hblank
  obtain ⟨rest, rfl⟩ := List.head?_eq_some_iff.mp hc
  rw [trim, hstart, trimEnd, List.head?_reverse, List.reverse_cons, List.dropWhile_append]
  split
  · simp [hblank]
  · rw [List.getLast?_concat]

theorem mem_of_mem_trim {t : Text} {c : Char} (h : c ∈ trim t) : c ∈ t :=
  (List.dropWhile_suffix isBlank).subset ((isPrefix_trimEnd (trimStart t)).subset h)

end Text

end Asm6502
