import Asm6502.Proofs.Renaming
import Mathlib.Algebra.BigOperators.Group.Finset.Basic

/-!
The layout of a source is free. Blanks around the code of a line, comments, the kind of line ending
and the case of an operation leave the listing as it is, and with it everything that comes of the
source. Lines without code only move the numbers of the lines behind them.
-/

namespace Asm6502

/-! ## Places in a text -/

namespace Text

/-- Blanks, and behind them a comment; either may be missing. -/
def IsRemark (t : Text) : Prop :=
  ∃ blanks comment, t = blanks ++ comment ∧ (∀ c ∈ blanks, isBlank c = true) ∧
    ∀ c ∈ comment.head?, c = ';'

theorem isRemark_of_blank {blanks : Text} (h : ∀ c ∈ blanks, isBlank c = true) :
    IsRemark blanks :=
  ⟨blanks, [], (List.append_nil blanks).symm, h, by simp⟩

theorem IsRemark.append {remark blanks : Text} (hremark : IsRemark remark)
    (hblanks : ∀ c ∈ blanks, isBlank c = true) : IsRemark (remark ++ blanks) := by
  obtain ⟨front, comment, rfl, hfront, hcomment⟩ := hremark
  cases comment with
  | nil =>
    rw [List.append_nil]
    apply isRemark_of_blank
    intro c hc
    exact (List.mem_append.mp hc).elim (hfront c) (hblanks c)
  | cons c comment => exact ⟨front, c :: comment ++ blanks, List.append_assoc .., hfront, hcomment⟩

/-- Between the other two texts stands one of the lines of all three. -/
structure IsLine (before line after : Text) : Prop where
  start : ∀ c ∈ before.getLast?, c = '\n'
  whole : '\n' ∉ line
  stop : ∀ c ∈ after.head?, c = '\n'
  there : line ++ after ≠ []

/-- The same lines, each with a carriage return before its line feed. -/
def withReturns (t : Text) : Text :=
  t.flatMap fun c => if c = '\n' then ['\r', '\n'] else [c]

theorem IsLine.lines_eq {before line after : Text} (h : IsLine before line after) :
    lines (before ++ (line ++ after)) = lines before ++ line :: lines after.tail := by
  have hrest : lines (line ++ after) = line :: lines after.tail := by
    cases after with
    | nil =>
      have hne : line ≠ [] := by simpa using h.there
      rw [List.append_nil, lines_solid h.whole hne]
      rfl
    | cons c after =>
      obtain rfl := h.stop c rfl
      rw [lines_append_newline, lines_newline h.whole]
      rfl
  rw [lines_append h.start, hrest]

theorem IsLine.replace {before line line' after : Text} (h : IsLine before line after)
    (hwhole : '\n' ∉ line') (hlength : line.length ≤ line'.length) :
    IsLine before line' after := by
  refine ⟨h.start, hwhole, h.stop, ?_⟩
  intro hnil
  obtain ⟨rfl, rfl⟩ := List.append_eq_nil_iff.mp hnil
  have hline : line = [] := List.eq_nil_of_length_eq_zero (Nat.le_zero.mp hlength)
  exact h.there (by rw [hline]; rfl)

/-- Each line is as before, or has a carriage return behind it. -/
theorem lines_withReturns (t : Text) :
    List.Forall₂ (fun line line' => line' = line ∨ line' = line ++ ['\r']) (lines t)
      (lines (withReturns t)) := by
  induction t with
  | nil => exact .nil
  | cons c t ih =>
    by_cases hc : c = '\n'
    · have hreturns : withReturns (c :: t) = '\r' :: '\n' :: withReturns t := by
        rw [hc]
        rfl
      have hlines : lines (withReturns (c :: t)) = ['\r'] :: lines (withReturns t) := by
        rw [hreturns]
        rfl
      rw [hlines, hc]
      exact .cons (.inr rfl) ih
    · have hreturns : withReturns (c :: t) = c :: withReturns t := by
        simp [withReturns, hc]
      rw [hreturns, lines_cons, lines_cons]
      generalize lines t = ls, lines (withReturns t) = ls' at ih
      unfold consLine
      rw [if_neg hc, if_neg hc]
      cases ih with
      | nil => exact .cons (.inl rfl) .nil
      | cons hl hls =>
        refine .cons ?_ hls
        obtain hl | hl := hl
        · exact .inl (by rw [hl])
        · exact .inr (by rw [hl]; rfl)

end Text

/-! ## The code of a line -/

namespace SourceLine

theorem semicolon_not_mem {blanks : Text} (h : ∀ c ∈ blanks, Text.isBlank c = true) :
    ';' ∉ blanks :=
  fun hmem => absurd (h ';' hmem) (by decide)

theorem semicolon_not_mem_code (text : Text) : ';' ∉ code text := fun hmem =>
  absurd (Text.eq_false_of_mem_before (Text.mem_of_mem_trim hmem)) (by decide)

theorem code_append_remark {remark : Text} (h : Text.IsRemark remark) (line : Text) :
    code (line ++ remark) = code line := by
  obtain ⟨blanks, comment, rfl, hblanks, hcomment⟩ := h
  unfold code
  by_cases hline : ';' ∈ line
  · rw [Text.before_append_of_mem ⟨';', hline, decide_eq_true rfl⟩]
  · have hnone := Text.ne_of_not_mem hline
    have hblank := Text.ne_of_not_mem (semicolon_not_mem hblanks)
    have hstop : Text.before (· = ';') comment = [] :=
      Text.before_eq_nil fun c hc => decide_eq_true (hcomment c hc)
    rw [Text.before_append_left hnone, Text.before_append_left hblank, hstop, List.append_nil,
      Text.trim_append_blank hblanks, Text.before_eq_self hnone]

theorem code_blank_append {blanks : Text} (h : ∀ c ∈ blanks, Text.isBlank c = true) (line : Text) :
    code (blanks ++ line) = code line := by
  have hblank := Text.ne_of_not_mem (semicolon_not_mem h)
  rw [code, Text.before_append_left hblank, Text.trim_blank_append h, code]

/-- Only the `code` of a line counts. -/
theorem ofText_of_code {line line' : Text} (h : code line' = code line) (number : Nat) :
    ofText number line' = ofText number line := by
  unfold ofText
  rw [h]

theorem isVoid_of_remark {line : Text} (h : Text.IsRemark line) (number : Nat) :
    (ofText number line).IsVoid := by
  have hcode : code line = code [] := code_append_remark h []
  rw [ofText_of_code hcode]
  exact ⟨rfl, rfl⟩

/-! ## Operations -/

/-- A line whose operation is `word`: before it stand blanks alone, or blanks behind a label with
its colon; behind it follow blanks or a comment, if anything. -/
structure HasOperation (lead word rest : Text) : Prop where
  lead : ((∀ c ∈ lead, Text.isBlank c = true) ∧ ':' ∉ Text.before (· = ';') (word ++ rest)) ∨
    ∃ name blanks, lead = name ++ ':' :: blanks ∧ ':' ∉ name ∧ ';' ∉ name ∧
      ∀ c ∈ blanks, Text.isBlank c = true
  nonempty : word ≠ []
  solid : ∀ c ∈ word, Text.isBlank c = false ∧ c ≠ ';'
  rest : ∀ c ∈ rest.head?, Text.isBlank c = true ∨ c = ';'

/-- A statement that begins with a word: the word is the operation, and the operand is that of
what follows. -/
theorem parts_of_word {word : Text} (hne : word ≠ []) (hword : ∀ c ∈ word, Text.isBlank c = false)
    {behind : Text} (hbehind : ∀ c ∈ behind.head?, Text.isBlank c = true) :
    operationPart (word ++ behind) = some (Text.upper word) ∧
      operandPart (word ++ behind) = operandPart behind := by
  have hbefore : Text.before Text.isBlank (word ++ behind) = word := by
    cases behind with
    | nil => rw [List.append_nil, Text.before_eq_self hword]
    | cons c behind => exact Text.before_append hword (hbehind c rfl)
  constructor
  · rw [operationPart, hbefore, Text.nonempty?, if_neg hne]
    rfl
  · rw [operandPart, operandPart, Text.after?_append_left hword]

theorem labelPart_of_colon {name : Text} (h : ':' ∉ name) (behind : Text) :
    labelPart (name ++ ':' :: behind) = Text.nonempty? (Text.trim name) := by
  have hname : ∀ d ∈ name, decide (d = ':') = false := Text.ne_of_not_mem h
  rw [labelPart, Text.after?_append hname (decide_eq_true rfl),
    Text.before_append hname (decide_eq_true rfl)]

theorem statementPart_of_colon {name : Text} (h : ':' ∉ name) (behind : Text) :
    statementPart (name ++ ':' :: behind) = Text.trim behind := by
  have hname : ∀ d ∈ name, decide (d = ':') = false := Text.ne_of_not_mem h
  rw [statementPart, Text.after?_append hname (decide_eq_true rfl)]

/-- A colon parts a line: before it stands the label, and the rest is a line of its own. -/
theorem parts_of_colon {name : Text} (hcolon : ':' ∉ name) (hsemicolon : ';' ∉ name)
    (behind : Text) :
    labelPart (code (name ++ ':' :: behind)) = Text.nonempty? (Text.trim name) ∧
      statementPart (code (name ++ ':' :: behind)) = code behind := by
  have hnone : ∀ d ∈ name ++ [':'], decide (d = ';') = false := by
    apply Text.ne_of_not_mem
    simpa using hsemicolon
  have hbefore : Text.before (· = ';') (name ++ ':' :: behind) =
      name ++ ':' :: Text.before (· = ';') behind := by
    have hleft := Text.before_append_left (p := (· = ';')) (t := behind) hnone
    rw [List.append_assoc, List.append_assoc] at hleft
    exact hleft
  have hstart : ':' ∉ Text.trimStart name := fun hmem =>
    hcolon ((List.dropWhile_suffix Text.isBlank).subset hmem)
  have hcode : code (name ++ ':' :: behind) =
      Text.trimStart name ++ ':' :: Text.trimEnd (Text.before (· = ';') behind) := by
    rw [code, hbefore, Text.trim_append_cons (by decide)]
  rw [hcode, labelPart_of_colon hstart, statementPart_of_colon hstart, Text.trim_trimStart,
    Text.trim_trimEnd]
  exact ⟨rfl, rfl⟩

theorem parts_of_no_colon {code : Text} (h : ':' ∉ code) :
    labelPart code = none ∧ statementPart code = code := by
  have hcode : ∀ d ∈ code, decide (d = ':') = false := Text.ne_of_not_mem h
  rw [labelPart, statementPart, Text.after?_eq_none hcode]
  exact ⟨rfl, rfl⟩

section Operation

variable {lead word rest : Text} (h : HasOperation lead word rest)

include h

theorem HasOperation.before_semicolon :
    Text.before (· = ';') (word ++ rest) = word ++ Text.before (· = ';') rest :=
  Text.before_append_left fun d hd => decide_eq_false (h.solid d hd).2

/-- What stands behind the operation, without the comment and the blanks before that. -/
theorem HasOperation.isBlank_head {c : Char}
    (hc : c ∈ (Text.trimEnd (Text.before (· = ';') rest)).head?) : Text.isBlank c = true := by
  have hbody : c ∈ (Text.before (· = ';') rest).head? := by
    obtain ⟨blanks, hblanks⟩ := Text.isPrefix_trimEnd (Text.before (· = ';') rest)
    rw [← hblanks, List.head?_append, Option.mem_def.mp hc]
    rfl
  rw [Text.before, List.head?_takeWhile, Option.mem_filter_iff] at hbody
  obtain ⟨hrest, hnot⟩ := hbody
  obtain hblank | rfl := h.rest c hrest
  · exact hblank
  · cases hnot

theorem HasOperation.code_statement :
    code (word ++ rest) = word ++ Text.trimEnd (Text.before (· = ';') rest) := by
  have hstart : Text.trimStart (word ++ Text.before (· = ';') rest) =
      word ++ Text.before (· = ';') rest := by
    apply Text.trimStart_eq_self
    intro c hc
    obtain ⟨d, word', hword⟩ := List.exists_cons_of_ne_nil h.nonempty
    rw [hword] at hc
    cases hc
    exact (h.solid c (by rw [hword]; exact List.mem_cons_self)).1
  rw [code, h.before_semicolon, Text.trim, hstart]
  exact Text.trimEnd_append_solid (fun c hc => (h.solid c (List.mem_of_getLast? hc)).1) _

/-- The label is that of what stands before the operation, and the statement begins with it. -/
theorem HasOperation.parts : labelPart (code (lead ++ (word ++ rest))) = labelPart (code lead) ∧
    statementPart (code (lead ++ (word ++ rest))) =
      word ++ Text.trimEnd (Text.before (· = ';') rest) := by
  rw [← h.code_statement]
  obtain ⟨hblank, hcolon⟩ | ⟨name, blanks, rfl, hname, hsemicolon, hblanks⟩ := h.lead
  · have hnone : ':' ∉ code (word ++ rest) := fun hmem => hcolon (Text.mem_of_mem_trim hmem)
    have hvoid : code lead = [] := by
      rw [← List.append_nil lead, code_blank_append hblank]
      rfl
    obtain ⟨hlabel, hstatement⟩ := parts_of_no_colon hnone
    rw [code_blank_append hblank, hvoid, hlabel, hstatement]
    exact ⟨rfl, rfl⟩
  · obtain ⟨hlabel, hstatement⟩ := parts_of_colon hname hsemicolon (blanks ++ (word ++ rest))
    rw [List.append_assoc, List.cons_append, hlabel, hstatement,
      (parts_of_colon hname hsemicolon blanks).1, code_blank_append hblanks]
    exact ⟨rfl, rfl⟩

theorem HasOperation.ofText_eq (number : Nat) : ofText number (lead ++ (word ++ rest)) =
    ⟨number, labelPart (code lead), some (Text.upper word),
      operandPart (Text.trimEnd (Text.before (· = ';') rest))⟩ := by
  obtain ⟨hlabel, hstatement⟩ := h.parts
  obtain ⟨hoperation, hoperand⟩ := parts_of_word h.nonempty (fun c hc => (h.solid c hc).1)
    (fun c hc => h.isBlank_head hc)
  rw [ofText, hlabel, hstatement, hoperation, hoperand]

/-- The operation may be written in either case. -/
theorem HasOperation.recased {word' : Text}
    (hcase : word'.map Char.toLower = word.map Char.toLower) : HasOperation lead word' rest := by
  have hsolid : ∀ c ∈ word', Text.isBlank c = false ∧ c ≠ ';' := by
    intro c hc
    refine ⟨?_, ?_⟩
    · by_contra hblank
      have hrange := Text.toNat_of_isBlank (Bool.eq_true_of_not_eq_false hblank)
      have hmem := Text.mem_of_toLower hcase hc (by omega)
      exact hblank (h.solid c hmem).1
    · rintro rfl
      have hmem := Text.mem_of_toLower hcase hc (by decide)
      exact (h.solid _ hmem).2 rfl
  refine ⟨?_, ?_, hsolid, h.rest⟩
  · obtain ⟨hblank, hcolon⟩ | hlabel := h.lead
    · refine .inl ⟨hblank, ?_⟩
      rw [Text.before_append_left fun d hd => decide_eq_false (hsolid d hd).2]
      rw [h.before_semicolon] at hcolon
      intro hmem
      obtain hmem | hmem := List.mem_append.mp hmem
      · exact hcolon (List.mem_append_left _ (Text.mem_of_toLower hcase hmem (by decide)))
      · exact hcolon (List.mem_append_right _ hmem)
    · exact .inr hlabel
  · rintro rfl
    exact h.nonempty (List.map_eq_nil_iff.mp hcase.symm)

end Operation

/-- What may follow an operation or an operand: a blank, a comment or nothing. -/
theorem follows_append {behind tail : Text} (hbehind : ∀ c ∈ behind.head?, Text.isBlank c = true)
    (htail : ∀ c ∈ tail.head?, Text.isBlank c = true ∨ c = ';') :
    ∀ c ∈ (behind ++ tail).head?, Text.isBlank c = true ∨ c = ';' := by
  intro c hc
  cases behind with
  | nil => exact htail c hc
  | cons d behind => exact .inl (hbehind c hc)

/-- A line is its code with blanks before it, and blanks or a comment behind it. -/
theorem exists_code (line : Text) :
    ∃ blanks tail, line = blanks ++ (code line ++ tail) ∧ (∀ c ∈ blanks, Text.isBlank c = true) ∧
      (∀ c ∈ tail.head?, Text.isBlank c = true ∨ c = ';') ∧ ';' ∉ code line ∧
      ∀ c ∈ Text.before (· = ';') (code line ++ tail), c ∈ code line ∨ Text.isBlank c = true := by
  obtain ⟨comment, hline, hcomment⟩ := Text.exists_behind (· = ';') line
  obtain ⟨a, b, hbefore, ha, hb⟩ := Text.exists_trim (Text.before (· = ';') line)
  rw [← code] at hbefore
  rw [hbefore] at hline
  have hsemicolon : ∀ c ∈ code line ++ b, decide (c = ';') = false := by
    intro c hc
    have hmem : c ∈ Text.before (· = ';') line := by
      rw [hbefore]
      exact List.mem_append_right _ hc
    exact Text.eq_false_of_mem_before hmem
  refine ⟨a, b ++ comment, hline.trans (by simp), ha, ?_, semicolon_not_mem_code line, ?_⟩
  · apply follows_append (fun c hc => hb c (List.mem_of_head? hc))
    exact fun c hc => .inr (of_decide_eq_true (hcomment c hc))
  · intro c hc
    rw [← List.append_assoc, Text.before_append_left hsemicolon, Text.before_eq_nil hcomment,
      List.append_nil, List.mem_append] at hc
    exact hc.imp_right (hb c)

theorem exists_word {statement tail : Text} (h : operationPart statement ≠ none)
    (hsemicolon : ';' ∉ statement) (htail : ∀ c ∈ tail.head?, Text.isBlank c = true ∨ c = ';') :
    ∃ word rest, statement ++ tail = word ++ rest ∧ word ≠ [] ∧
      (∀ c ∈ word, Text.isBlank c = false ∧ c ≠ ';') ∧
      ∀ c ∈ rest.head?, Text.isBlank c = true ∨ c = ';' := by
  obtain ⟨operand, hstatement, hoperand⟩ := Text.exists_behind Text.isBlank statement
  have hne : Text.before Text.isBlank statement ≠ [] := by
    intro hnil
    rw [operationPart, hnil] at h
    exact h rfl
  have hmem : ∀ c ∈ Text.before Text.isBlank statement, c ∈ statement := by
    intro c hc
    rw [hstatement]
    exact List.mem_append_left _ hc
  refine ⟨Text.before Text.isBlank statement, operand ++ tail, ?_, hne, ?_,
    follows_append hoperand htail⟩
  · rw [← List.append_assoc, ← hstatement]
  · intro c hc
    refine ⟨Text.eq_false_of_mem_before hc, ?_⟩
    rintro rfl
    exact hsemicolon (hmem _ hc)

/-- Wherever `ofText` finds an operation, the line `HasOperation`. -/
theorem exists_hasOperation {line : Text} {number : Nat}
    (h : (ofText number line).operation ≠ none) :
    ∃ lead word rest, line = lead ++ (word ++ rest) ∧ HasOperation lead word rest := by
  obtain ⟨blanks, tail, hline, hblanks, htail, hsemicolon, hcode⟩ := exists_code line
  change operationPart (statementPart (code line)) ≠ none at h
  cases hcolon : Text.after? (· = ':') (code line) with
  | none =>
    rw [statementPart, hcolon] at h
    obtain ⟨word, rest, hsplit, hne, hsolid, hrest⟩ := exists_word h hsemicolon htail
    rw [hsplit] at hline hcode
    refine ⟨blanks, word, rest, hline, ⟨.inl ⟨hblanks, ?_⟩, hne, hsolid, hrest⟩⟩
    intro hmem
    obtain hmem | hmem := hcode _ hmem
    · exact absurd (Text.eq_false_of_after?_eq_none hcolon hmem) (by decide)
    · exact absurd hmem (by decide)
  | some behind =>
    rw [statementPart, hcolon] at h
    obtain ⟨c, hc, hlabelled⟩ := Text.after?_eq_some hcolon
    obtain rfl : c = ':' := of_decide_eq_true hc
    obtain ⟨a, b, hbehind, ha, hb⟩ := Text.exists_trim behind
    have hstatement : ';' ∉ Text.trim behind := by
      intro hmem
      apply hsemicolon
      rw [hlabelled]
      exact List.mem_append_right _ (List.mem_cons_of_mem _ (Text.mem_of_mem_trim hmem))
    obtain ⟨word, rest, hsplit, hne, hsolid, hrest⟩ := exists_word h hstatement
      (follows_append (fun c hc => hb c (List.mem_of_head? hc)) htail)
    refine ⟨blanks ++ Text.before (· = ':') (code line) ++ ':' :: a, word, rest, ?_,
      ⟨.inr ⟨_, a, rfl, ?_, ?_, ha⟩, hne, hsolid, hrest⟩⟩
    · calc
        line = blanks ++ (code line ++ tail) := hline
        _ = blanks ++ (Text.before (· = ':') (code line) ++
              ':' :: (a ++ (Text.trim behind ++ b)) ++ tail) := by rw [← hbehind, ← hlabelled]
        _ = blanks ++ Text.before (· = ':') (code line) ++ ':' :: a ++
              (Text.trim behind ++ (b ++ tail)) := by simp
        _ = blanks ++ Text.before (· = ':') (code line) ++ ':' :: a ++ (word ++ rest) := by
          rw [hsplit]
    · intro hmem
      obtain hmem | hmem := List.mem_append.mp hmem
      · exact absurd (hblanks _ hmem) (by decide)
      · exact absurd (Text.eq_false_of_mem_before hmem) (by decide)
    · intro hmem
      obtain hmem | hmem := List.mem_append.mp hmem
      · exact absurd (hblanks _ hmem) (by decide)
      · apply hsemicolon
        rw [hlabelled]
        exact List.mem_append_left _ hmem

/-! ## Listings -/

/-- Two lines that read the same wherever they stand. -/
def ReadAlike (line line' : Text) : Prop :=
  ∀ number, ofText number line' = ofText number line

theorem map_ofText_zipIdx {ls ls' : List Text} (h : List.Forall₂ ReadAlike ls ls') (first : Nat) :
    (ls'.zipIdx first).map (fun (text, number) => ofText number text) =
      (ls.zipIdx first).map fun (text, number) => ofText number text := by
  induction h generalizing first with
  | nil => rfl
  | @cons line line' ls ls' hline _ ih =>
    have hfirst : ofText first line' = ofText first line := hline first
    simp only [List.zipIdx_cons, List.map_cons, hfirst, ih]

theorem listing_congr {source edited : Text}
    (h : List.Forall₂ ReadAlike (Text.lines source) (Text.lines edited)) :
    listing edited = listing source :=
  map_ofText_zipIdx h 1

theorem listing_replace {before line line' after : Text} (hline : Text.IsLine before line after)
    (hline' : Text.IsLine before line' after) (h : ReadAlike line line') :
    listing (before ++ (line' ++ after)) = listing (before ++ (line ++ after)) := by
  have hself : ∀ ls : List Text, List.Forall₂ ReadAlike ls ls := fun ls =>
    List.forall₂_same.mpr fun _ _ _ => rfl
  apply listing_congr
  rw [hline.lines_eq, hline'.lines_eq]
  exact List.rel_append (hself _) (.cons h (hself _))

end SourceLine

/-! ## Changes of the layout -/

/-- A source and the same source laid out differently in one respect. -/
inductive Reformatted : Text → Text → Prop
  | indented {before line after blanks : Text} (hline : Text.IsLine before line after)
      (hblanks : ∀ c ∈ blanks, Text.isBlank c = true ∧ c ≠ '\n') :
      Reformatted (before ++ (line ++ after)) (before ++ (blanks ++ line ++ after))
  | remarked {before line blanks after remark : Text}
      (hline : Text.IsLine before (line ++ blanks) after)
      (hblanks : ∀ c ∈ blanks, Text.isBlank c = true)
      (hremark : Text.IsRemark remark) (hwhole : '\n' ∉ remark) :
      Reformatted (before ++ (line ++ blanks ++ after))
        (before ++ (line ++ (remark ++ blanks) ++ after))
  | returned (source : Text) : Reformatted source (Text.withReturns source)
  | recased {before lead word word' rest after : Text}
      (hline : Text.IsLine before (lead ++ (word ++ rest)) after)
      (hoperation : SourceLine.HasOperation lead word rest)
      (hcase : word'.map Char.toLower = word.map Char.toLower) :
      Reformatted (before ++ (lead ++ (word ++ rest) ++ after))
        (before ++ (lead ++ (word' ++ rest) ++ after))

theorem Reformatted.listing_eq {source edited : Text} (h : Reformatted source edited) :
    SourceLine.listing edited = SourceLine.listing source := by
  cases h with
  | @indented before line after blanks hline hblanks =>
    have hwhole : '\n' ∉ blanks ++ line := by
      rw [List.mem_append, not_or]
      exact ⟨fun hmem => (hblanks _ hmem).2 rfl, hline.whole⟩
    apply SourceLine.listing_replace hline (hline.replace hwhole (by simp))
    apply SourceLine.ofText_of_code
    exact SourceLine.code_blank_append (fun c hc => (hblanks c hc).1) line
  | @remarked before line blanks after remark hline hblanks hremark hwhole =>
    have hwhole' : '\n' ∉ line ++ (remark ++ blanks) := by
      intro hmem
      apply hline.whole
      rw [List.mem_append, List.mem_append] at hmem
      rw [List.mem_append]
      exact hmem.imp_right (Or.resolve_left · hwhole)
    apply SourceLine.listing_replace hline (hline.replace hwhole' (by simp))
    apply SourceLine.ofText_of_code
    rw [SourceLine.code_append_remark (hremark.append hblanks),
      SourceLine.code_append_remark (Text.isRemark_of_blank hblanks)]
  | returned =>
    apply SourceLine.listing_congr
    apply (Text.lines_withReturns source).imp
    rintro line _ (rfl | rfl) number
    · rfl
    · have hremark : Text.IsRemark ['\r'] := Text.isRemark_of_blank (by decide)
      exact SourceLine.ofText_of_code (SourceLine.code_append_remark hremark line) number
  | @recased before lead word word' rest after hline hoperation hcase =>
    have hwhole : '\n' ∉ lead ++ (word' ++ rest) := by
      intro hmem
      apply hline.whole
      rw [List.mem_append, List.mem_append] at hmem ⊢
      exact hmem.imp_right (Or.imp_left fun hmem => Text.mem_of_toLower hcase hmem (by decide))
    have hlength : word'.length = word.length := by
      simpa using congrArg List.length hcase
    apply SourceLine.listing_replace hline (hline.replace hwhole (by simp [hlength]))
    intro number
    rw [hoperation.ofText_eq, (hoperation.recased hcase).ofText_eq, Text.upper_of_toLower hcase]

/-! ## Lines without code -/

/-- Lines with others put between them: `gaps n` stands behind the first `n` lines. -/
def Text.withGaps (gaps : Nat → List Text) : Nat → List Text → List Text
  | n, [] => gaps n
  | n, line :: lines => gaps n ++ line :: withGaps gaps (n + 1) lines

/-- The number of a line behind the gaps before it. -/
def Renaming.ofGaps (gaps : Nat → List Text) : Renaming where
  number n := n + ∑ i ∈ Finset.range n, (gaps i).length

theorem SourceLine.ofText_renamed {ρ : Renaming} (h : ∀ name, ρ.name name = name) (number : Nat)
    (line : Text) : (ofText number line).Renamed ρ (ofText (ρ.number number) line) := by
  have hstatement : (ofText (ρ.number number) line).statement = (ofText number line).statement :=
    rfl
  refine ⟨rfl, ?_, ?_⟩
  · rw [funext h]
    exact Option.map_id'.symm
  · rw [hstatement, funext (Statement.renamed_eq_self h)]
    rcases (ofText number line).statement with fault | _ | statement <;> rfl

theorem RenamedLines.remarks {ρ : Renaming} {ls ls' : List SourceLine} {remarks : List Text}
    (h : ∀ line ∈ remarks, Text.IsRemark line) (hls : RenamedLines ρ ls ls') (first : Nat) :
    RenamedLines ρ ls ((remarks.zipIdx first).map
      (fun (text, number) => SourceLine.ofText number text) ++ ls') := by
  induction remarks generalizing first with
  | nil => exact hls
  | cons remark remarks ih =>
    have hremark := h remark List.mem_cons_self
    exact .void (SourceLine.isVoid_of_remark hremark first)
      (ih (fun line hline => h line (List.mem_cons_of_mem remark hline)) (first + 1))

section Gaps

variable {gaps : Nat → List Text} (hgaps : ∀ n, ∀ line ∈ gaps n, Text.IsRemark line)

include hgaps

theorem renamedLines_withGaps (lines : List Text) (n : Nat) :
    RenamedLines (.ofGaps gaps)
      ((lines.zipIdx (n + 1)).map fun (text, number) => SourceLine.ofText number text)
      (((Text.withGaps gaps n lines).zipIdx (n + 1 + ∑ i ∈ Finset.range n, (gaps i).length)).map
        fun (text, number) => SourceLine.ofText number text) := by
  induction lines generalizing n with
  | nil =>
    have hremarks := RenamedLines.remarks (hgaps n) (RenamedLines.nil (ρ := .ofGaps gaps))
      (n + 1 + ∑ i ∈ Finset.range n, (gaps i).length)
    rwa [List.append_nil] at hremarks
  | cons line lines ih =>
    have hnumber : n + 1 + ∑ i ∈ Finset.range n, (gaps i).length + (gaps n).length =
        (Renaming.ofGaps gaps).number (n + 1) := by
      simp only [Renaming.ofGaps, Finset.sum_range_succ]
      omega
    have hnext : (Renaming.ofGaps gaps).number (n + 1) + 1 =
        n + 1 + 1 + ∑ i ∈ Finset.range (n + 1), (gaps i).length := by
      simp only [Renaming.ofGaps]
      omega
    rw [Text.withGaps, List.zipIdx_append, List.map_append, hnumber, List.zipIdx_cons,
      List.zipIdx_cons, List.map_cons, List.map_cons, hnext]
    apply RenamedLines.remarks (hgaps n)
    exact .line (SourceLine.ofText_renamed (fun _ => rfl) (n + 1) line) (ih (n + 1))

/-- Lines without `code` between the lines of a source only move the numbers. -/
theorem Assembly.ofSource_withGaps {source edited : Text}
    (h : Text.lines edited = Text.withGaps gaps 0 (Text.lines source)) (config : Config) :
    (ofSource config edited).result =
      ((ofSource config source).result.map (Assembly.renamed (.ofGaps gaps))).mapError
        (LineFault.renamed (.ofGaps gaps)) := by
  have hlines : RenamedLines (.ofGaps gaps) (SourceLine.listing source)
      (SourceLine.listing edited) := by
    have hgapped := renamedLines_withGaps hgaps (Text.lines source) 0
    rwa [← h] at hgapped
  exact Assembly.ofLines_renamed hlines (fun _ _ _ _ hname => hname) config

end Gaps

/-- A source may be laid out anew. If it is `Reformatted` by blanks before a line, blanks and a
comment at its end, the other line ending and another case of an operation, wherever a line has one,
its listing and so the whole session stay as they are. Lines of blanks and comments between the
lines (`withGaps`) leave the image, the location behind it and the addresses of labels, and move the
line numbers of labels and of faults as they move the lines. -/
theorem layout_immaterial (source edited : Text) :
    (Reformatted source edited →
      SourceLine.listing edited = SourceLine.listing source ∧
      ∀ config, Assembly.ofSource config edited = Assembly.ofSource config source) ∧
    (∀ line number, (SourceLine.ofText number line).operation ≠ none →
      ∃ lead word rest, line = lead ++ (word ++ rest) ∧
        SourceLine.HasOperation lead word rest) ∧
    ∀ gaps : Nat → List Text, (∀ n, ∀ line ∈ gaps n, Text.IsRemark line) →
      Text.lines edited = Text.withGaps gaps 0 (Text.lines source) →
      ∀ config, (Assembly.ofSource config edited).result =
        ((Assembly.ofSource config source).result.map (Assembly.renamed (.ofGaps gaps))).mapError
          (LineFault.renamed (.ofGaps gaps)) := by
  refine ⟨?_, fun line number h => SourceLine.exists_hasOperation h, ?_⟩
  · intro h
    have hlisting := h.listing_eq
    refine ⟨hlisting, ?_⟩
    intro config
    rw [Assembly.ofSource, Assembly.ofSource, hlisting]
  · intro gaps hgaps hlines config
    exact Assembly.ofSource_withGaps hgaps hlines config

/-- A comment and a carriage return behind a line, a word of another case, and three lines between
the two that define one label. -/
theorem layout_immaterial_duplicate :
    Assembly.ofSource ⟨0, 0⟩ "a: lda #1 ;x\r\na: rts".toList =
      Assembly.ofSource ⟨0, 0⟩ "a: lda #1\r\na: rts".toList ∧
    Assembly.ofSource ⟨0, 0⟩ "a: LdA #1\r\na: rts".toList =
      Assembly.ofSource ⟨0, 0⟩ "a: lda #1\r\na: rts".toList ∧
    (Assembly.ofSource ⟨0, 0⟩ "a: lda #1\r\na: rts".toList).result =
      .error ⟨2, .duplicateLabel "a".toList 1⟩ ∧
    (Assembly.ofSource ⟨0, 0⟩ " \n;x\na: lda #1\r\n\na: rts".toList).result =
      .error ⟨5, .duplicateLabel "a".toList 3⟩ := by
  have hremarked : Reformatted
      ([] ++ ("a: lda #1".toList ++ ['\r'] ++ "\na: rts".toList))
      ([] ++ ("a: lda #1".toList ++ (" ;x".toList ++ ['\r']) ++ "\na: rts".toList)) :=
    .remarked ⟨by decide, by decide, by decide, by decide⟩ (by decide)
      ⟨" ".toList, ";x".toList, by decide, by decide, by decide⟩ (by decide)
  have hoperation : SourceLine.HasOperation "a: ".toList "lda".toList " #1\r".toList :=
    ⟨.inr ⟨['a'], [' '], by decide, by decide, by decide, by decide⟩, by decide, by decide,
      by decide⟩
  have hrecased : Reformatted
      ([] ++ ("a: ".toList ++ ("lda".toList ++ " #1\r".toList) ++ "\na: rts".toList))
      ([] ++ ("a: ".toList ++ ("LdA".toList ++ " #1\r".toList) ++ "\na: rts".toList)) :=
    .recased ⟨by decide, by decide, by decide, by decide⟩ hoperation (by decide)
  have hresult : (Assembly.ofSource ⟨0, 0⟩ "a: lda #1\r\na: rts".toList).result =
      .error ⟨2, .duplicateLabel "a".toList 1⟩ := by decide
  have hgaps : ∀ n : Nat,
      ∀ line ∈ (if n = 0 then [[' '], [';', 'x']] else if n = 1 then [[]] else [] : List Text),
        Text.IsRemark line := by
    intro n line hline
    split_ifs at hline
    · rcases List.mem_pair.mp hline with rfl | rfl
      · exact Text.isRemark_of_blank (by decide)
      · exact ⟨[], [';', 'x'], rfl, by decide, by decide⟩
    · rw [List.mem_singleton.mp hline]
      exact Text.isRemark_of_blank (by decide)
    · exact absurd hline List.not_mem_nil
  have hgapped := (layout_immaterial "a: lda #1\r\na: rts".toList
    " \n;x\na: lda #1\r\n\na: rts".toList).2.2 _ hgaps (by decide) ⟨0, 0⟩
  refine ⟨((layout_immaterial _ _).1 hremarked).2 _, ((layout_immaterial _ _).1 hrecased).2 _,
    hresult, ?_⟩
  rw [hgapped, hresult]
  rfl

end Asm6502
