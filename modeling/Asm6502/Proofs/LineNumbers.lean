import Asm6502.Proofs.Emission
import Asm6502.Proofs.Survey

/-!
Line numbers are places in the source. Whole lines put before a source move its numbers by as many
as they have line feeds. So the lines are numbered from one on, a fault tells the number of one of
them, and the labels come in the order of their lines.
-/

namespace Asm6502

/-! ## Lines and line feeds -/

theorem Text.length_consLine (c : Char) {ls : List Text} (h : ls ≠ []) :
    (consLine c ls).length = ls.length + if c = '\n' then 1 else 0 := by
  obtain ⟨l, ls, rfl⟩ := List.exists_cons_of_ne_nil h
  unfold consLine
  split <;> rfl

theorem Text.length_lines_newline (t : Text) :
    (lines (t ++ ['\n'])).length = t.count '\n' + 1 := by
  induction t with
  | nil => rfl
  | cons c t ih =>
    have hne : lines (t ++ ['\n']) ≠ [] := List.ne_nil_of_length_eq_add_one ih
    rw [List.cons_append, lines_cons, length_consLine c hne, ih, List.count_cons]
    simp only [beq_iff_eq]
    omega

/-- Whole lines are as many as the line feeds. -/
theorem Text.length_lines {t : Text} (h : ∀ c ∈ t.getLast?, c = '\n') :
    (lines t).length = t.count '\n' := by
  rcases List.eq_nil_or_concat t with rfl | ⟨front, c, rfl⟩
  · rfl
  · obtain rfl := h c (by simp)
    rw [List.concat_eq_append, length_lines_newline, List.count_append, List.count_singleton_self]

/-! ## Listings -/

namespace SourceLine

/-- The same line with `k` more lines before it. -/
def moved (k : Nat) (l : SourceLine) : SourceLine :=
  { l with number := l.number + k }

theorem length_listing (source : Text) : (listing source).length = (Text.lines source).length := by
  rw [listing, List.length_map, List.length_zipIdx]

theorem listing_append {s : Text} (h : ∀ c ∈ s.getLast?, c = '\n') (t : Text) :
    listing (s ++ t) = listing s ++ (listing t).map (moved (s.count '\n')) := by
  have hmoved : ((Text.lines t).zipIdx (1 + s.count '\n')).map (fun p => ofText p.2 p.1) =
      (listing t).map (moved (s.count '\n')) := by
    rw [Nat.add_comm, ← List.map_snd_add_zipIdx_eq_zipIdx, List.map_map, listing, List.map_map]
    rfl
  rw [listing, Text.lines_append h, List.zipIdx_append, List.map_append, Text.length_lines h]
  exact congrArg (listing s ++ ·) hmoved

theorem numbers_listing (source : Text) :
    (listing source).map number = List.range' 1 (listing source).length := by
  rw [length_listing, listing, List.map_map]
  exact List.zipIdx_map_snd 1 (Text.lines source)

theorem number_bounds {source : Text} {l : SourceLine} (h : l ∈ listing source) :
    1 ≤ l.number ∧ l.number ≤ (listing source).length := by
  have hnumber : l.number ∈ List.range' 1 (listing source).length := by
    rw [← numbers_listing]
    exact List.mem_map_of_mem h
  rw [List.mem_range'_1] at hnumber
  omega

end SourceLine

/-! ## Faults and labels -/

theorem Assembly.exists_line_of_fault {config : Config} {lines : List SourceLine}
    {fault : LineFault} (h : (ofLines config lines).result = .error fault) :
    ∃ l ∈ lines, fault.line = l.number := by
  obtain hsurvey | ⟨survey, -, hemission⟩ := ofLines_eq_error.mp h
  · obtain ⟨before, l, after, -, rfl, hline, -⟩ := walk_fault.mp hsurvey
    exact ⟨l, by simp, hline⟩
  · obtain ⟨before, l, after, -, rfl, hline, -⟩ := walk_fault.mp hemission
    exact ⟨l, by simp, hline⟩

theorem Location.lines_definitions (c : Location) (lines : List SourceLine) :
    ((c.definitions lines).map Label.line).Sublist (lines.map SourceLine.number) := by
  induction lines generalizing c with
  | nil => exact .slnil
  | cons l lines ih =>
    rw [definitions, List.map_append, List.map_cons]
    cases hlabel : l.label with
    | none =>
      simp only [SourceLine.definition?, hlabel, Option.map_none, Option.toList_none]
      exact (ih _).cons l.number
    | some name =>
      simp only [SourceLine.definition?, hlabel, Option.map_some, Option.toList_some]
      exact (ih _).cons_cons l.number

theorem Assembly.lines_labels {config : Config} {source : Text} {a : Assembly}
    (h : (ofSource config source).result = .ok a) :
    (a.labels.entries.map Label.line).Pairwise (· < ·) := by
  obtain ⟨survey, e, hsurvey, -, rfl⟩ := ofLines_eq_ok.mp h
  have hincreasing : ((SourceLine.listing source).map SourceLine.number).Pairwise (· < ·) := by
    rw [SourceLine.numbers_listing]
    exact List.pairwise_lt_range'
  rw [(Survey.run_eq_none hsurvey).entries]
  exact hincreasing.sublist (Location.lines_definitions _ _)

/-- The `listing` of a source follows that of whole lines before it, with its numbers `moved` by the
line feeds there. The numbers are the places from one on; every fault has one of them, and the
labels of an assembly have them in ascending order. -/
theorem line_numbers {s₁ : Text} (h : ∀ c ∈ s₁.getLast?, c = '\n') (s₂ source : Text)
    (config : Config) :
    (SourceLine.listing s₁).length = s₁.count '\n' ∧
      SourceLine.listing (s₁ ++ s₂) = SourceLine.listing s₁ ++
        (SourceLine.listing s₂).map (SourceLine.moved (s₁.count '\n')) ∧
      (SourceLine.listing source).map SourceLine.number =
        List.range' 1 (SourceLine.listing source).length ∧
      (∀ fault, (Assembly.ofSource config source).result = .error fault →
        1 ≤ fault.line ∧ fault.line ≤ (SourceLine.listing source).length) ∧
      ∀ a, (Assembly.ofSource config source).result = .ok a →
        (a.labels.entries.map Label.line).Pairwise (· < ·) := by
  refine ⟨?_, SourceLine.listing_append h s₂, SourceLine.numbers_listing source, ?_,
    fun a => Assembly.lines_labels⟩
  · rw [SourceLine.length_listing, Text.length_lines h]
  · intro fault hfault
    obtain ⟨l, hl, hline⟩ := Assembly.exists_line_of_fault hfault
    rw [hline]
    exact SourceLine.number_bounds hl

/-- Either line ending, an empty line between the others, and no line feed at the end. -/
theorem line_numbers_of_last_line :
    (∀ c ∈ "a:\r\n\n".toList.getLast?, c = '\n') ∧
      SourceLine.listing "a:\r\n\nb: foo".toList = SourceLine.listing "a:\r\n\n".toList ++
        (SourceLine.listing "b: foo".toList).map (SourceLine.moved 2) ∧
      ((Assembly.ofSource ⟨0, 0⟩ "a:\r\n\nb: foo".toList).result =
          .error ⟨3, .unknownInstruction "FOO".toList⟩ ∧
        3 ≤ (SourceLine.listing "a:\r\n\nb: foo".toList).length) ∧
      ∃ a, (Assembly.ofSource ⟨0, 0⟩ "a:\r\n\nb:".toList).result = .ok a ∧
        a.labels.entries.map Label.line = [1, 3] ∧
        (a.labels.entries.map Label.line).Pairwise (· < ·) := by
  have hwhole : ∀ c ∈ "a:\r\n\n".toList.getLast?, c = '\n' := by decide
  have hfault : (Assembly.ofSource ⟨0, 0⟩ "a:\r\n\nb: foo".toList).result =
      .error ⟨3, .unknownInstruction "FOO".toList⟩ := by
    rfl
  have hassembly : (Assembly.ofSource ⟨0, 0⟩ "a:\r\n\nb:".toList).result =
      .ok ⟨.blank 0, ⟨[⟨['a'], 0, 1⟩, ⟨['b'], 0, 3⟩]⟩, 0⟩ := by
    rfl
  obtain ⟨-, happend, -, hbounds, -⟩ := line_numbers hwhole "b: foo".toList
    "a:\r\n\nb: foo".toList ⟨0, 0⟩
  obtain ⟨-, -, -, -, hlabels⟩ := line_numbers hwhole "b:".toList "a:\r\n\nb:".toList ⟨0, 0⟩
  exact ⟨hwhole, happend, ⟨hfault, (hbounds _ hfault).2⟩, _, hassembly, rfl, hlabels _ hassembly⟩

end Asm6502
