import Asm6502.Statement.Shape

/-!
The shape of an operand. Each kind of marks is found exactly where it stands around an expression,
and it is what counts unless a shape that is tried earlier fits; only `e,Y` with `e` in parentheses
is taken for another mode.
-/

namespace Asm6502.Shape

/-! ## The marks, one by one -/

/-- `e,R` for a register `R` in either case. Blanks may follow the comma. -/
def IndexedBy (register : Char) (e t : Text) : Prop :=
  ∃ blanks c, (∀ d ∈ blanks, Text.isBlank d = true) ∧ (c = register ∨ c = register.toLower) ∧
    t = e ++ ',' :: (blanks ++ [c])

theorem indexedBy_marked (register : Char) (e : Text) :
    IndexedBy register e (e ++ [',', register]) :=
  ⟨[], register, by simp, .inl rfl, rfl⟩

theorem IndexedBy.getLast? {register : Char} {e t : Text} (h : IndexedBy register e t) :
    t.getLast? = some register ∨ t.getLast? = some register.toLower := by
  obtain ⟨blanks, c, -, hc, rfl⟩ := h
  rw [← List.cons_append, ← List.append_assoc, List.getLast?_concat]
  obtain rfl | rfl := hc
  · exact .inl rfl
  · exact .inr rfl

theorem indexed?_eq_some {register : Char} {e t : Text} :
    indexed? register t = some e ↔ e ≠ [] ∧ IndexedBy register e t := by
  have hsolid : Text.isBlank ',' = false := by decide
  simp only [indexed?, Option.bind_eq_bind, Option.bind_eq_some_iff, Text.dropLast?_eq_some,
    Text.nonempty?_eq_some, Bool.or_eq_true, decide_eq_true_eq]
  constructor
  · rintro ⟨rest, ⟨c, hc, rfl⟩, inner, ⟨comma, rfl, hinner⟩, rfl, hne⟩
    obtain ⟨blanks, hblanks, rfl⟩ := (Text.trimEnd_eq_concat hsolid).mp hinner
    exact ⟨hne, blanks, c, hblanks, hc, by simp⟩
  · rintro ⟨hne, blanks, c, hblanks, hc, rfl⟩
    refine ⟨e ++ ',' :: blanks, ⟨c, hc, by simp⟩, e, ⟨',', rfl, ?_⟩, rfl, hne⟩
    exact (Text.trimEnd_eq_concat hsolid).mpr ⟨blanks, hblanks, rfl⟩

theorem enclosed?_eq_some {e t : Text} : enclosed? t = some e ↔ t = '(' :: (e ++ [')']) := by
  simp only [enclosed?, Option.bind_eq_bind, Option.bind_eq_some_iff, Text.dropFirst?_eq_some,
    Text.dropLast?_eq_some, decide_eq_true_eq]
  constructor
  · rintro ⟨rest, rfl, c, rfl, rfl⟩
    rfl
  · rintro rfl
    exact ⟨e ++ [')'], rfl, ')', rfl, rfl⟩

theorem indirectX?_eq_some {e t : Text} :
    indirectX? t = some e ↔ e ≠ [] ∧ ∃ inner, IndexedBy 'X' e inner ∧ t = '(' :: (inner ++ [')']) := by
  simp only [indirectX?, Option.bind_eq_bind, Option.bind_eq_some_iff, enclosed?_eq_some,
    indexed?_eq_some]
  constructor
  · rintro ⟨inner, ht, hne, hinner⟩
    exact ⟨hne, inner, hinner, ht⟩
  · rintro ⟨hne, inner, hinner, ht⟩
    exact ⟨inner, ht, hne, hinner⟩

theorem indirectY?_eq_some {e t : Text} :
    indirectY? t = some e ↔ e ≠ [] ∧ ∃ rest, IndexedBy 'Y' (e ++ [')']) rest ∧ t = '(' :: rest := by
  simp only [indirectY?, Option.bind_eq_bind, Option.bind_eq_some_iff, Text.dropFirst?_eq_some,
    Text.dropLast?_eq_some, Text.nonempty?_eq_some, indexed?_eq_some, decide_eq_true_eq]
  constructor
  · rintro ⟨rest, ht, inner, ⟨-, hinner⟩, _, ⟨c, rfl, rfl⟩, rfl, hne⟩
    exact ⟨hne, rest, hinner, ht⟩
  · rintro ⟨hne, rest, hrest, ht⟩
    exact ⟨rest, ht, e ++ [')'], ⟨by simp, hrest⟩, e, ⟨')', rfl, rfl⟩, rfl, hne⟩

theorem indirect?_eq_some {e t : Text} :
    indirect? t = some e ↔ e ≠ [] ∧ t = '(' :: (e ++ [')']) := by
  simp only [indirect?, Option.bind_eq_bind, Option.bind_eq_some_iff, Text.nonempty?_eq_some,
    enclosed?_eq_some]
  constructor
  · rintro ⟨_, ht, rfl, hne⟩
    exact ⟨hne, ht⟩
  · rintro ⟨hne, ht⟩
    exact ⟨e, ht, rfl, hne⟩

/-! ## Marks that are not there -/

theorem indexed?_of_no_comma {t : Text} (h : ',' ∉ t) (register : Char) :
    indexed? register t = none := by
  rw [Option.eq_none_iff_forall_ne_some]
  intro e he
  obtain ⟨-, blanks, c, -, -, rfl⟩ := indexed?_eq_some.mp he
  exact h (by simp)

theorem indirect_of_not_opened {t : Text} (h : Text.dropFirst? '(' t = none) :
    indirectX? t = none ∧ indirectY? t = none ∧ indirect? t = none := by
  simp [indirectX?, indirectY?, indirect?, enclosed?, h]

section Ends

variable {t : Text} {last : Char} (hlast : t.getLast? = some last)

include hlast

theorem indexed?_eq_none (register : Char) (h : last ≠ register)
    (hlower : last ≠ register.toLower) : indexed? register t = none := by
  simp [indexed?, Text.dropLast?, hlast, h, hlower]

/-- What is enclosed ends with a parenthesis. -/
theorem enclosed?_eq_none (h : last ≠ ')') : enclosed? t = none := by
  obtain ⟨init, rfl⟩ := List.getLast?_eq_some_iff.mp hlast
  cases init with
  | nil =>
    by_cases hopen : last = '(' <;> simp [enclosed?, Text.dropFirst?, Text.dropLast?, hopen]
  | cons c init =>
    by_cases hopen : c = '(' <;> simp [enclosed?, Text.dropFirst?, Text.dropLast?, hopen, h]

theorem indirectX?_eq_none (h : last ≠ ')') : indirectX? t = none := by
  simp [indirectX?, enclosed?_eq_none hlast h]

theorem indirect?_eq_none (h : last ≠ ')') : indirect? t = none := by
  simp [indirect?, enclosed?_eq_none hlast h]

theorem indirectY?_eq_none (h : last ≠ 'Y') (hlower : last ≠ 'y') : indirectY? t = none := by
  obtain ⟨init, rfl⟩ := List.getLast?_eq_some_iff.mp hlast
  cases init with
  | nil =>
    by_cases hopen : last = '(' <;>
      simp [indirectY?, Text.dropFirst?, indexed?, Text.dropLast?, hopen]
  | cons c init =>
    have hrest : indexed? 'Y' (init ++ [last]) = none :=
      indexed?_eq_none (List.getLast?_concat ..) 'Y' h hlower
    by_cases hopen : c = '(' <;> simp [indirectY?, Text.dropFirst?, hopen, hrest]

end Ends

/-! ## Indexed expressions -/

theorem ofText_of_trimmed {t : Text} (h : Text.trim t = t) : ofText t = ofTrimmed t := by
  rw [ofText, h]

/-- Blanks in front of an expression are in front of the whole operand. -/
theorem IndexedBy.trimStart {register : Char} {e t : Text} (h : IndexedBy register e t) :
    IndexedBy register (Text.trimStart e) (Text.trimStart t) := by
  obtain ⟨blanks, c, hblanks, hc, rfl⟩ := h
  exact ⟨blanks, c, hblanks, hc, Text.trimStart_append_cons (by decide) e _⟩

theorem ofText_trimStart (t : Text) : ofText (Text.trimStart t) = ofText t := by
  rw [ofText, ofText, Text.trim_trimStart]

/-- An expression that may stand before an index: no blank at its start, and no mark of an
immediate. -/
def Indexable (e : Text) : Prop :=
  ∃ c, e.head? = some c ∧ Text.isBlank c = false ∧ c ≠ '#'

section Indexed

variable {e : Text} (he : Indexable e)

include he

theorem Indexable.ne_nil : e ≠ [] := by
  obtain ⟨c, hc, -⟩ := he
  rintro rfl
  cases hc

theorem Indexable.trim_indexedBy {register : Char} {t : Text} (h : IndexedBy register e t)
    (hregister : Text.isBlank register = false)
    (hlower : Text.isBlank register.toLower = false) :
    Text.trim t = t ∧ t ≠ [] ∧ Text.dropFirst? '#' t = none ∧ ∀ a, t ≠ [a] := by
  obtain ⟨first, hhead, hblank, hhash⟩ := he
  obtain ⟨rest, rfl⟩ := List.head?_eq_some_iff.mp hhead
  obtain ⟨blanks, c, -, hc, rfl⟩ := h
  have hsolid : Text.isBlank c = false := by
    obtain rfl | rfl := hc
    · exact hregister
    · exact hlower
  refine ⟨?_, by simp, by simp [Text.dropFirst?, hhash], by simp⟩
  apply Text.trim_append (by simp) (by simp)
  · rintro d ⟨⟩
    exact hblank
  · rw [← List.cons_append, List.getLast?_concat]
    rintro d ⟨⟩
    exact hsolid

theorem ofText_indexedX {t : Text} (h : IndexedBy 'X' e t) : ofText t = indexedX e := by
  obtain ⟨htrim, hne, hhash, hsingle⟩ := he.trim_indexedBy h (by decide) (by decide)
  have hindexed : indexed? 'X' t = some e := indexed?_eq_some.mpr ⟨he.ne_nil, h⟩
  obtain ⟨last, hlast, hclose, hY, hy⟩ :
      ∃ last, t.getLast? = some last ∧ last ≠ ')' ∧ last ≠ 'Y' ∧ last ≠ 'y' := by
    obtain hlast | hlast := h.getLast?
    · exact ⟨_, hlast, by decide⟩
    · exact ⟨_, hlast, by decide⟩
  rw [ofText_of_trimmed htrim]
  simp [ofTrimmed, hne, hhash, hsingle, indirectX?_eq_none hlast hclose,
    indirectY?_eq_none hlast hY hy, indirect?_eq_none hlast hclose, hindexed]

theorem indirectY?_of_indexedBy {t : Text} (h : IndexedBy 'Y' e t)
    (hpointer : ¬(e.head? = some '(' ∧ e.getLast? = some ')')) : indirectY? t = none := by
  rw [Option.eq_none_iff_forall_ne_some]
  intro pointer hsome
  obtain ⟨-, rest, ⟨blanks, c, hblanks, hc, rfl⟩, rfl⟩ := indirectY?_eq_some.mp hsome
  -- the text is also indexed with the parentheses as a part of the expression
  have hwhole : indexed? 'Y' ('(' :: (pointer ++ [')'] ++ ',' :: (blanks ++ [c]))) =
      some ('(' :: (pointer ++ [')'])) :=
    indexed?_eq_some.mpr ⟨by simp, blanks, c, hblanks, hc, rfl⟩
  rw [indexed?_eq_some.mpr ⟨he.ne_nil, h⟩, Option.some.injEq] at hwhole
  apply hpointer
  rw [hwhole, ← List.cons_append, List.getLast?_concat]
  exact ⟨rfl, rfl⟩

theorem ofText_indexedY {t : Text} (h : IndexedBy 'Y' e t)
    (hpointer : ¬(e.head? = some '(' ∧ e.getLast? = some ')')) : ofText t = indexedY e := by
  obtain ⟨htrim, hne, hhash, hsingle⟩ := he.trim_indexedBy h (by decide) (by decide)
  have hindexed : indexed? 'Y' t = some e := indexed?_eq_some.mpr ⟨he.ne_nil, h⟩
  obtain ⟨last, hlast, hclose, hX, hx⟩ :
      ∃ last, t.getLast? = some last ∧ last ≠ ')' ∧ last ≠ 'X' ∧ last ≠ 'x' := by
    obtain hlast | hlast := h.getLast?
    · exact ⟨_, hlast, by decide⟩
    · exact ⟨_, hlast, by decide⟩
  rw [ofText_of_trimmed htrim]
  simp [ofTrimmed, hne, hhash, hsingle, indirectX?_eq_none hlast hclose,
    indirectY?_of_indexedBy he h hpointer, indirect?_eq_none hlast hclose,
    indexed?_eq_none hlast 'X' hX hx, hindexed]

end Indexed

/-! ## Where a shape was found -/

def FoundIn (t : Text) : Shape → Prop
  | absent => t = []
  | accumulator => t = ['A'] ∨ t = ['a']
  | immediate e => t = '#' :: e
  | indirectX e => indirectX? t = some e
  | indirectY e => indirectY? t = some e
  | indirect e => indirect? t = some e
  | indexedX e => Text.dropFirst? '#' t = none ∧ indexed? 'X' t = some e
  | indexedY e => Text.dropFirst? '#' t = none ∧ indexed? 'Y' t = some e
  | bare e => e = t

theorem foundIn_ofTrimmed (t : Text) : FoundIn t (ofTrimmed t) := by
  unfold ofTrimmed
  repeat' split
  all_goals simp_all [FoundIn, Option.eq_none_iff_forall_ne_some, Text.dropFirst?_eq_some]

/-- The expression before an index starts where the operand does. -/
theorem indexable_trim {register : Char} {t e : Text}
    (hhash : Text.dropFirst? '#' (Text.trim t) = none)
    (h : indexed? register (Text.trim t) = some e) : Indexable (Text.trim e) := by
  obtain ⟨hne, blanks, last, -, -, ht⟩ := indexed?_eq_some.mp h
  obtain ⟨c, e, rfl⟩ := List.exists_cons_of_ne_nil hne
  have hblank : Text.isBlank c = false := by
    apply Text.isBlank_head_trim (t := t)
    rw [ht]
    rfl
  refine ⟨c, Text.head?_trim rfl hblank, hblank, ?_⟩
  rintro rfl
  rw [ht] at hhash
  cases hhash

/-! ## Immediate and indirect expressions -/

theorem ofText_immediate (e : Text) : ofText ('#' :: e) = immediate (Text.trimEnd e) := by
  have htrim : Text.trim ('#' :: e) = '#' :: Text.trimEnd e :=
    Text.trimEnd_append_solid (s := ['#']) (by decide) e
  have hhash : Text.dropFirst? '#' ('#' :: Text.trimEnd e) = some (Text.trimEnd e) :=
    Text.dropFirst?_eq_some.mpr rfl
  rw [ofText, htrim]
  simp [ofTrimmed, hhash]

/-- Behind a parenthesis, only the end of a text can be trimmed. -/
theorem ofText_opened {t : Text} {last : Char} (hlast : ('(' :: t).getLast? = some last)
    (hsolid : Text.isBlank last = false) : ofText ('(' :: t) = ofTrimmed ('(' :: t) := by
  apply ofText_of_trimmed
  apply Text.trim_eq_self
  · rintro c ⟨⟩
    decide
  · rw [hlast]
    rintro c ⟨⟩
    exact hsolid

section Indirect

variable {e : Text} (he : e ≠ [])

include he

theorem ofText_indirectX {inner : Text} (h : IndexedBy 'X' e inner) :
    ofText ('(' :: (inner ++ [')'])) = indirectX e := by
  have hlast : ('(' :: (inner ++ [')'])).getLast? = some ')' := by
    rw [← List.cons_append, List.getLast?_concat]
  have hindirect : indirectX? ('(' :: (inner ++ [')'])) = some e :=
    indirectX?_eq_some.mpr ⟨he, inner, h, rfl⟩
  rw [ofText_opened hlast (by decide)]
  simp only [ofTrimmed, hindirect]
  simp [Text.dropFirst?]

theorem ofText_indirectY {rest : Text} (h : IndexedBy 'Y' (e ++ [')']) rest) :
    ofText ('(' :: rest) = indirectY e := by
  have hindirect : indirectY? ('(' :: rest) = some e := indirectY?_eq_some.mpr ⟨he, rest, h, rfl⟩
  obtain ⟨last, hlast, hsolid, hclose⟩ :
      ∃ last, ('(' :: rest).getLast? = some last ∧ Text.isBlank last = false ∧ last ≠ ')' := by
    rw [List.getLast?_cons]
    obtain hlast | hlast := h.getLast?
    · exact ⟨'Y', by rw [hlast]; rfl, by decide⟩
    · exact ⟨'y', by rw [hlast]; rfl, by decide⟩
  rw [ofText_opened hlast hsolid]
  simp only [ofTrimmed, indirectX?_eq_none hlast hclose, hindirect]
  simp [Text.dropFirst?]

/-- An index inside of the parentheses would make `(e,X)` of `(e)`. -/
theorem ofText_indirect (hindex : indexed? 'X' e = none) :
    ofText ('(' :: (e ++ [')'])) = indirect e := by
  have hlast : ('(' :: (e ++ [')'])).getLast? = some ')' := by
    rw [← List.cons_append, List.getLast?_concat]
  have henclosed : enclosed? ('(' :: (e ++ [')'])) = some e := enclosed?_eq_some.mpr rfl
  have hnotX : indirectX? ('(' :: (e ++ [')'])) = none := by
    simp only [indirectX?, henclosed, Option.bind_eq_bind, Option.bind_some, hindex]
  have hindirect : indirect? ('(' :: (e ++ [')'])) = some e :=
    indirect?_eq_some.mpr ⟨he, rfl⟩
  rw [ofText_opened hlast (by decide)]
  simp only [ofTrimmed, hnotX, indirectY?_eq_none hlast (by decide) (by decide), hindirect]
  simp [Text.dropFirst?]

end Indirect

/-! ## No marks at all -/

theorem ofTrimmed_bare {t : Text} (hne : t ≠ []) (haccumulator : t ≠ ['A'] ∧ t ≠ ['a'])
    (hhash : Text.dropFirst? '#' t = none) (hopen : Text.dropFirst? '(' t = none)
    (hcomma : ',' ∉ t) : ofTrimmed t = bare t := by
  obtain ⟨hX, hY, hindirect⟩ := indirect_of_not_opened hopen
  simp [ofTrimmed, hne, haccumulator, hhash, hX, hY, hindirect, indexed?_of_no_comma hcomma]

end Asm6502.Shape
