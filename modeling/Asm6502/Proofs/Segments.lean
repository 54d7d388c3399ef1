import Asm6502.Proofs.Acceptance
import Asm6502.Proofs.ImageContents
import Asm6502.Proofs.LabelTable

/-!
Segments that begin with an origin can change places. An origin forgets where the lines before it
led, so each segment has the same locations, labels and bytes in either order; and of the bytes
written to one address the same one is the last, unless both segments write to it.
-/

namespace Asm6502

/-! ## Lines that begin with an origin -/

/-- The lines, if there are any, begin by moving the location counter, without a label. -/
def Detached : List SourceLine → Prop
  | [] => True
  | l :: _ => l.label = none ∧ ∃ address, l.statement = .ok (some (.origin address))

namespace Detached

variable {lines : List SourceLine} (h : Detached lines) (c d : Location)

include h

theorem behind_eq (hne : lines ≠ []) : c.behind lines = d.behind lines := by
  cases lines with
  | nil => exact absurd rfl hne
  | cons l rest =>
    obtain ⟨-, address, horigin⟩ := h
    simp [l.locationAfter_of_origin _ horigin]

theorem definitions_eq : c.definitions lines = d.definitions lines := by
  cases lines with
  | nil => rfl
  | cons l rest =>
    obtain ⟨hlabel, address, horigin⟩ := h
    simp [Location.definitions, SourceLine.definition?, hlabel, l.locationAfter_of_origin _ horigin]

theorem admits_iff : c.Admits lines ↔ d.Admits lines := by
  cases lines with
  | nil => exact Iff.rfl
  | cons l rest =>
    obtain ⟨hlabel, address, horigin⟩ := h
    have hadmitted : ∀ c : Location, l.Admitted c := by
      intro c
      refine ⟨fun hsome => absurd hlabel hsome, _, horigin, ?_⟩
      rintro s ⟨⟩
      exact ⟨address.toNat, rfl⟩
    simp [Location.Admits, hadmitted, l.locationAfter_of_origin _ horigin]

theorem refusal?_eq (labels : LabelTable) : c.refusal? labels lines = d.refusal? labels lines := by
  cases lines with
  | nil => rfl
  | cons l rest =>
    obtain ⟨-, address, horigin⟩ := h
    simp [Location.refusal?, SourceLine.refusal?, horigin, l.locationAfter_of_origin _ horigin]

theorem cells?_eq (labels : LabelTable) : c.cells? labels lines = d.cells? labels lines := by
  cases lines with
  | nil => rfl
  | cons l rest =>
    obtain ⟨-, address, horigin⟩ := h
    simp [Location.cells?, SourceLine.code?, Statement.code?, horigin,
      l.locationAfter_of_origin _ horigin]

end Detached

/-! ## Two segments in either order -/

section Exchange

variable {pre seg₁ seg₂ post : List SourceLine} (h₁ : Detached seg₁) (h₂ : Detached seg₂)
  (hpost : Detached post) (c : Location)

theorem perm_exchange {α : Type} (p x y q : List α) : (p ++ x ++ y ++ q).Perm (p ++ y ++ x ++ q) := by
  rw [List.append_assoc p x y, List.append_assoc p y x]
  exact (List.perm_append_comm.append_left p).append_right q

theorem perm_labelNames_exchange (pre seg₁ seg₂ post : List SourceLine) :
    (labelNames (pre ++ seg₁ ++ seg₂ ++ post)).Perm (labelNames (pre ++ seg₂ ++ seg₁ ++ post)) :=
  (perm_exchange pre seg₁ seg₂ post).filterMap _

include h₁ h₂ hpost

theorem perm_definitions_exchange :
    (c.definitions (pre ++ seg₁ ++ seg₂ ++ post)).Perm
      (c.definitions (pre ++ seg₂ ++ seg₁ ++ post)) := by
  simp only [Location.definitions_append, Location.behind_append]
  rw [h₁.definitions_eq ((c.behind pre).behind seg₂) (c.behind pre),
    h₂.definitions_eq ((c.behind pre).behind seg₁) (c.behind pre),
    hpost.definitions_eq (((c.behind pre).behind seg₂).behind seg₁)
      (((c.behind pre).behind seg₁).behind seg₂)]
  exact perm_exchange _ _ _ _

theorem admits_exchange :
    c.Admits (pre ++ seg₁ ++ seg₂ ++ post) ↔ c.Admits (pre ++ seg₂ ++ seg₁ ++ post) := by
  simp only [Location.admits_append, Location.behind_append]
  rw [h₁.admits_iff ((c.behind pre).behind seg₂) (c.behind pre),
    h₂.admits_iff ((c.behind pre).behind seg₁) (c.behind pre),
    hpost.admits_iff (((c.behind pre).behind seg₂).behind seg₁)
      (((c.behind pre).behind seg₁).behind seg₂)]
  rw [and_right_comm (a := c.Admits pre)]

theorem refusal?_exchange (labels : LabelTable) :
    c.refusal? labels (pre ++ seg₁ ++ seg₂ ++ post) = none ↔
      c.refusal? labels (pre ++ seg₂ ++ seg₁ ++ post) = none := by
  simp only [Location.refusal?_append, Location.behind_append, Option.or_eq_none_iff]
  rw [h₁.refusal?_eq ((c.behind pre).behind seg₂) (c.behind pre),
    h₂.refusal?_eq ((c.behind pre).behind seg₁) (c.behind pre),
    hpost.refusal?_eq (((c.behind pre).behind seg₂).behind seg₁)
      (((c.behind pre).behind seg₁).behind seg₂)]
  rw [and_right_comm (a := c.refusal? labels pre = none)]

theorem cells?_exchange {labels : LabelTable} {cells : List (UInt8 × Nat)}
    (hcells : c.cells? labels (pre ++ seg₁ ++ seg₂ ++ post) = some cells) :
    ∃ p x y q, (c.behind pre).cells? labels seg₁ = some x ∧
      (c.behind (pre ++ seg₁)).cells? labels seg₂ = some y ∧ cells = p ++ x ++ y ++ q ∧
      c.cells? labels (pre ++ seg₂ ++ seg₁ ++ post) = some (p ++ y ++ x ++ q) := by
  obtain ⟨_, q, hthree, hq, rfl⟩ := Location.cells?_append_eq_some.mp hcells
  obtain ⟨_, y, htwo, hy, rfl⟩ := Location.cells?_append_eq_some.mp hthree
  obtain ⟨p, x, hp, hx, rfl⟩ := Location.cells?_append_eq_some.mp htwo
  have hy' := h₂.cells?_eq (c.behind (pre ++ seg₁)) (c.behind pre) labels
  have hx' := h₁.cells?_eq (c.behind pre) (c.behind (pre ++ seg₂)) labels
  have hq' := hpost.cells?_eq (c.behind (pre ++ seg₁ ++ seg₂)) (c.behind (pre ++ seg₂ ++ seg₁))
    labels
  refine ⟨p, x, y, q, hx, hy, rfl, ?_⟩
  refine Location.cells?_append_eq_some.mpr ⟨p ++ y ++ x, q, ?_, hq' ▸ hq, rfl⟩
  refine Location.cells?_append_eq_some.mpr ⟨p ++ y, x, ?_, hx' ▸ hx, rfl⟩
  exact Location.cells?_append_eq_some.mpr ⟨p, y, hp, hy' ▸ hy, rfl⟩

end Exchange

/-! ## Tables with the same labels -/

/-- A name means the same whatever the order of the definitions. -/
theorem LabelTable.address?_of_perm {t u : LabelTable} (hperm : t.entries.Perm u.entries)
    (h : (t.entries.map Label.name).Nodup) (name : Text) : t.address? name = u.address? name := by
  have hu : (u.entries.map Label.name).Nodup := (hperm.map Label.name).nodup_iff.mp h
  have hfind : t.find? name = u.find? name := by
    apply Option.ext
    intro l
    rw [find?_eq_some_iff h, find?_eq_some_iff hu, hperm.mem_iff]
  rw [address?, address?, hfind]

/-! ## Writing in either order -/

theorem lastWritten?_append (xs ys : List (UInt8 × Nat)) (a : Nat) :
    lastWritten? (xs ++ ys) a = (lastWritten? ys a).or (lastWritten? xs a) := by
  unfold lastWritten?
  rw [List.reverse_append, List.find?_append, Option.map_or]

theorem lastWritten?_eq_none_iff {cells : List (UInt8 × Nat)} {a : Nat} :
    lastWritten? cells a = none ↔ ∀ cell ∈ cells, cell.2 ≠ a := by
  unfold lastWritten?
  simp

theorem lastWritten?_exchange {x y : List (UInt8 × Nat)} (h : ∀ s ∈ x, ∀ t ∈ y, s.2 ≠ t.2)
    (p q : List (UInt8 × Nat)) (a : Nat) :
    lastWritten? (p ++ x ++ y ++ q) a = lastWritten? (p ++ y ++ x ++ q) a := by
  -- at most one of the two writes to the address
  have hone : lastWritten? x a = none ∨ lastWritten? y a = none := by
    by_cases hx : ∃ s ∈ x, s.2 = a
    · obtain ⟨s, hs, rfl⟩ := hx
      exact .inr (lastWritten?_eq_none_iff.mpr fun t ht => (h s hs t ht).symm)
    · exact .inl (lastWritten?_eq_none_iff.mpr fun s hs hsa => hx ⟨s, hs, hsa⟩)
  simp only [lastWritten?_append]
  obtain hx | hy := hone
  · simp [hx]
  · simp [hy]

namespace Image

theorem dropped_writeAll_perm {xs ys : List (UInt8 × Nat)} (h : xs.Perm ys) (m : Image) :
    (m.writeAll xs).dropped = (m.writeAll ys).dropped := by
  rw [dropped_writeAll, dropped_writeAll, h.countP_eq]

theorem writeAll_exchange {x y : List (UInt8 × Nat)} (h : ∀ s ∈ x, ∀ t ∈ y, s.2 ≠ t.2)
    (p q : List (UInt8 × Nat)) (m : Image) :
    m.writeAll (p ++ x ++ y ++ q) = m.writeAll (p ++ y ++ x ++ q) := by
  apply ext_of_read
  · rw [capacity_writeAll, capacity_writeAll]
  · intro a ha
    rw [capacity_writeAll] at ha
    rw [read_writeAll m _ ha, read_writeAll m _ ha, lastWritten?_exchange h]
  · exact dropped_writeAll_perm (perm_exchange p x y q) m

end Image

/-! ## Assemblies with two segments in either order -/

section Assemblies

variable {config : Config} {pre seg₁ seg₂ post : List SourceLine} (h₁ : Detached seg₁)
  (h₂ : Detached seg₂) (hpost : Detached post)

include h₁ h₂ hpost

theorem agreeOn_exchange {c : Location} (lines : List SourceLine)
    (h : (labelNames (pre ++ seg₁ ++ seg₂ ++ post)).Nodup) :
    AgreeOn lines (c.table (pre ++ seg₁ ++ seg₂ ++ post))
      (c.table (pre ++ seg₂ ++ seg₁ ++ post)) := by
  intro l _ statement _ name _
  apply LabelTable.address?_of_perm (perm_definitions_exchange h₁ h₂ hpost c)
  show ((c.definitions (pre ++ seg₁ ++ seg₂ ++ post)).map Label.name).Nodup
  rw [Location.names_definitions]
  exact h

/-- If `ofLines` succeeds, so it does with the segments exchanged, and writes the bytes of the
segments in the other order. -/
theorem Assembly.ofLines_exchange {a : Assembly}
    (ha : (ofLines config (pre ++ seg₁ ++ seg₂ ++ post)).result = .ok a) :
    ∃ b p x y q, (ofLines config (pre ++ seg₂ ++ seg₁ ++ post)).result = .ok b ∧
      a.labels.entries.Perm b.labels.entries ∧
      Location.cells? a.labels (Location.behind config.start.toNat pre) seg₁ = some x ∧
      Location.cells? a.labels (Location.behind config.start.toNat (pre ++ seg₁)) seg₂ = some y ∧
      a.image = (Image.blank config.capacity).writeAll (p ++ x ++ y ++ q) ∧
      b.image = (Image.blank config.capacity).writeAll (p ++ y ++ x ++ q) ∧
      (post ≠ [] → a.location = b.location) := by
  obtain ⟨hadmits, hnodup, hrefusal, cells, hcells, rfl⟩ := ofLines_eq_ok_iff.mp ha
  have hagree := agreeOn_exchange h₁ h₂ hpost (pre ++ seg₂ ++ seg₁ ++ post)
    (c := config.start.toNat) hnodup
  obtain ⟨p, x, y, q, hx, hy, rfl, hcells'⟩ := cells?_exchange h₁ h₂ hpost _ hcells
  rw [Location.cells?_congr hagree] at hcells'
  have hadmits' := (admits_exchange h₁ h₂ hpost _).mp hadmits
  have hnodup' := (perm_labelNames_exchange pre seg₁ seg₂ post).nodup_iff.mp hnodup
  have hrefusal' := (refusal?_exchange h₁ h₂ hpost _ _).mp hrefusal
  rw [Location.refusal?_congr hagree] at hrefusal'
  refine ⟨_, p, x, y, q, ofLines_eq_ok_iff.mpr
    ⟨hadmits', hnodup', hrefusal', _, hcells', rfl⟩,
    perm_definitions_exchange h₁ h₂ hpost _, hx, hy, rfl, rfl, ?_⟩
  intro hne
  simp only [Location.behind_append]
  exact hpost.behind_eq _ _ hne

end Assemblies

/-- Two segments that are `Detached` can be exchanged, if what follows them is `Detached` too:
`ofLines` succeeds in both orders or in neither, with the same labels and as many lost bytes. If the
segments write to different addresses, the images are the same. -/
theorem segments_commute (config : Config) (pre seg₁ seg₂ post : List SourceLine)
    (h₁ : Detached seg₁) (h₂ : Detached seg₂) (hpost : Detached post) :
    ((∃ a, (Assembly.ofLines config (pre ++ seg₁ ++ seg₂ ++ post)).result = .ok a) ↔
      ∃ b, (Assembly.ofLines config (pre ++ seg₂ ++ seg₁ ++ post)).result = .ok b) ∧
    ∀ a b, (Assembly.ofLines config (pre ++ seg₁ ++ seg₂ ++ post)).result = .ok a →
      (Assembly.ofLines config (pre ++ seg₂ ++ seg₁ ++ post)).result = .ok b →
      a.labels.entries.Perm b.labels.entries ∧ a.image.dropped = b.image.dropped ∧
      (post ≠ [] → a.location = b.location) ∧
      ∃ cells₁ cells₂,
        Location.cells? a.labels (Location.behind config.start.toNat pre) seg₁ = some cells₁ ∧
        Location.cells? a.labels (Location.behind config.start.toNat (pre ++ seg₁)) seg₂ =
          some cells₂ ∧
        ((∀ s ∈ cells₁, ∀ t ∈ cells₂, s.2 ≠ t.2) → a.image = b.image) := by
  refine ⟨⟨?_, ?_⟩, ?_⟩
  · rintro ⟨a, ha⟩
    obtain ⟨b, p, x, y, q, hb, -⟩ := Assembly.ofLines_exchange h₁ h₂ hpost ha
    exact ⟨b, hb⟩
  · rintro ⟨b, hb⟩
    obtain ⟨a, p, x, y, q, ha, -⟩ := Assembly.ofLines_exchange h₂ h₁ hpost hb
    exact ⟨a, ha⟩
  · intro a b ha hb
    obtain ⟨b', p, x, y, q, hb', hlabels, hx, hy, himage, himage', hlocation⟩ :=
      Assembly.ofLines_exchange h₁ h₂ hpost ha
    obtain rfl : b = b' := Except.ok.inj (hb.symm.trans hb')
    refine ⟨hlabels, ?_, hlocation, x, y, hx, hy, ?_⟩
    · rw [himage, himage', Image.dropped_writeAll_perm (perm_exchange p x y q)]
    · intro hdisjoint
      rw [himage, himage', Image.writeAll_exchange hdisjoint]

/-- Two segments that refer to each other, with a label before them and bytes lost behind them. -/
theorem segments_commute_of_references :
    let lines := SourceLine.listing
      "go: JMP two\n.ORG 4\none: .WORD two\n.ORG 6\ntwo: .WORD one\n.ORG 8\n.BYTE 1, 2".toList
    let pre := lines.take 1
    let seg₁ := (lines.drop 1).take 2
    let seg₂ := (lines.drop 3).take 2
    let post := lines.drop 5
    let image : Image := ⟨#[0x4C, 6, 0, 0, 6, 0, 4, 0, 1], 1⟩
    let go : Label := ⟨"go".toList, 0, 1⟩
    let one : Label := ⟨"one".toList, 4, 3⟩
    let two : Label := ⟨"two".toList, 6, 5⟩
    let a : Assembly := ⟨image, ⟨[go, one, two]⟩, 10⟩
    let b : Assembly := ⟨image, ⟨[go, two, one]⟩, 10⟩
    Detached seg₁ ∧ Detached seg₂ ∧ Detached post ∧
      (Assembly.ofLines ⟨9, 0⟩ (pre ++ seg₁ ++ seg₂ ++ post)).result = .ok a ∧
      (Assembly.ofLines ⟨9, 0⟩ (pre ++ seg₂ ++ seg₁ ++ post)).result = .ok b ∧
      a.labels.entries.Perm b.labels.entries ∧ a.image.dropped = b.image.dropped ∧
      a.image = b.image := by
  intro lines pre seg₁ seg₂ post image go one two a b
  have h₁ : Detached seg₁ := ⟨rfl, 4, by decide⟩
  have h₂ : Detached seg₂ := ⟨rfl, 6, by decide⟩
  have hpost : Detached post := ⟨rfl, 8, by decide⟩
  have ha : (Assembly.ofLines ⟨9, 0⟩ (pre ++ seg₁ ++ seg₂ ++ post)).result = .ok a := by decide
  have hb : (Assembly.ofLines ⟨9, 0⟩ (pre ++ seg₂ ++ seg₁ ++ post)).result = .ok b := by decide
  obtain ⟨-, hboth⟩ := segments_commute ⟨9, 0⟩ pre seg₁ seg₂ post h₁ h₂ hpost
  obtain ⟨hlabels, hdropped, -, cells₁, cells₂, hcells₁, hcells₂, himage⟩ := hboth a b ha hb
  have hfound₁ : Location.cells? a.labels (Location.behind 0 pre) seg₁ = some [(6, 4), (0, 5)] := by
    decide
  have hfound₂ : Location.cells? a.labels (Location.behind 0 (pre ++ seg₁)) seg₂ =
      some [(4, 6), (0, 7)] := by
    decide
  obtain rfl := Option.some.inj (hcells₁.symm.trans hfound₁)
  obtain rfl := Option.some.inj (hcells₂.symm.trans hfound₂)
  exact ⟨h₁, h₂, hpost, ha, hb, hlabels, hdropped, himage (by decide)⟩

end Asm6502
