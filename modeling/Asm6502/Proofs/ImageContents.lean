import Asm6502.Proofs.Emission

/-!
What stands in the image. Of all bytes that the lines write to an address, the last one stays;
an address that nothing is written to holds zero; and the writes beyond the capacity are counted.
-/

namespace Asm6502

/-! ## Writing many bytes -/

/-- The byte that is written last to an address. -/
def lastWritten? (cells : List (UInt8 × Nat)) (address : Nat) : Option UInt8 :=
  (cells.reverse.find? fun cell => cell.2 = address).map Prod.fst

theorem lastWritten?_cons (cell : UInt8 × Nat) (cells : List (UInt8 × Nat)) (address : Nat) :
    lastWritten? (cell :: cells) address =
      (lastWritten? cells address).or (if cell.2 = address then some cell.1 else none) := by
  unfold lastWritten?
  rw [List.reverse_cons, List.find?_append, Option.map_or]
  by_cases h : cell.2 = address <;> simp [h]

theorem lastWritten?_zipIdx (bytes : List UInt8) (start a : Nat) :
    lastWritten? (bytes.zipIdx start) a = if start ≤ a then bytes[a - start]? else none := by
  induction bytes generalizing start with
  | nil => simp [lastWritten?]
  | cons b bytes ih =>
    rw [List.zipIdx_cons, lastWritten?_cons, ih]
    obtain hlt | rfl | hgt := Nat.lt_trichotomy start a
    · have hindex : a - start = (a - (start + 1)) + 1 := by omega
      have hle : start + 1 ≤ a := by omega
      rw [if_pos hle, if_neg (by omega), Option.or_none, if_pos (by omega), hindex,
        List.getElem?_cons_succ]
    · have hbehind : ¬start + 1 ≤ start := by omega
      simp [hbehind]
    · rw [if_neg (by omega), if_neg (by omega), if_neg (by omega), Option.or_none]

namespace Image

theorem capacity_writeAll (m : Image) (cells : List (UInt8 × Nat)) :
    (m.writeAll cells).capacity = m.capacity := by
  induction cells generalizing m with
  | nil => rfl
  | cons cell cells ih =>
    have hwrite := ih (m.write cell.2 cell.1)
    rw [capacity_write] at hwrite
    exact hwrite

theorem read_writeAll (m : Image) (cells : List (UInt8 × Nat)) {address : Nat}
    (h : address < m.capacity) :
    (m.writeAll cells).read address = (lastWritten? cells address).getD (m.read address) := by
  induction cells generalizing m with
  | nil => rfl
  | cons cell cells ih =>
    have hrest := ih (m.write cell.2 cell.1) (by rw [capacity_write]; exact h)
    have hwrite : (m.write cell.2 cell.1).read address =
        if cell.2 = address then cell.1 else m.read address := by
      rw [read_write]
      by_cases haddress : cell.2 = address
      · rw [if_pos ⟨haddress, by rw [haddress]; exact h⟩, if_pos haddress]
      · rw [if_neg fun hand => haddress hand.1, if_neg haddress]
    rw [hwrite] at hrest
    change ((m.write cell.2 cell.1).writeAll cells).read address = _
    rw [hrest, lastWritten?_cons]
    rcases lastWritten? cells address with _ | last
    · by_cases haddress : cell.2 = address <;> simp [haddress]
    · simp

theorem dropped_writeAll (m : Image) (cells : List (UInt8 × Nat)) :
    (m.writeAll cells).dropped =
      m.dropped + cells.countP fun cell => m.capacity ≤ cell.2 := by
  induction cells generalizing m with
  | nil => rfl
  | cons cell cells ih =>
    have hrest := ih (m.write cell.2 cell.1)
    rw [capacity_write, dropped_write] at hrest
    change ((m.write cell.2 cell.1).writeAll cells).dropped = _
    rw [hrest, List.countP_cons]
    by_cases hinside : cell.2 < m.capacity
    · have hnot : ¬m.capacity ≤ cell.2 := by omega
      simp [hinside, hnot]
    · have hout : m.capacity ≤ cell.2 := by omega
      simp only [hinside, hout, if_false, decide_true, if_true]
      omega

/-! ## The bytes of an image -/

theorem getElem?_toList (m : Image) (a : Nat) :
    m.toList[a]? = if a < m.capacity then some (m.read a) else none := by
  unfold toList read capacity
  rw [Array.getElem?_toList]
  by_cases h : a < m.cells.size <;> simp [h]

theorem ext_of_read {m n : Image} (hcapacity : m.capacity = n.capacity)
    (hread : ∀ a < m.capacity, m.read a = n.read a) (hdropped : m.dropped = n.dropped) : m = n := by
  have hlist : m.toList = n.toList := by
    apply List.ext_getElem?
    intro a
    rw [getElem?_toList, getElem?_toList, hcapacity]
    split
    · rename_i ha
      rw [hread a (hcapacity ▸ ha)]
    · rfl
  have hcells : m.cells = n.cells := Array.ext' hlist
  show Image.mk m.cells m.dropped = Image.mk n.cells n.dropped
  rw [hcells, hdropped]

end Image

/-! ## The image of an assembly -/

/-- Of the `cells?` of a source, the image of its assembly holds what is `lastWritten?` at each
address, and counts those beyond it. -/
theorem image_of_assembly (config : Config) (source : Text) (a : Assembly)
    (h : (Assembly.ofSource config source).result = .ok a) :
    ∃ cells, Location.cells? a.labels config.start.toNat (SourceLine.listing source) = some cells ∧
      (∀ address < config.capacity,
        a.image.read address = (lastWritten? cells address).getD 0) ∧
      a.image.capacity = config.capacity ∧
      a.image.dropped = cells.countP fun cell => config.capacity ≤ cell.2 := by
  obtain ⟨survey, e, -, hemission, rfl⟩ := Assembly.ofLines_eq_ok.mp h
  obtain ⟨cells, hcells, himage⟩ := (Emission.run_eq_none hemission).image
  refine ⟨cells, hcells, ?_, ?_, ?_⟩
  · intro address haddress
    change e.image.read address = _
    rw [himage, Image.read_writeAll _ _ (by rw [Image.capacity_blank]; exact haddress),
      Image.read_blank]
  · change e.image.capacity = _
    rw [himage, Image.capacity_writeAll, Image.capacity_blank]
  · change e.image.dropped = _
    rw [himage, Image.dropped_writeAll, Image.capacity_blank]
    exact Nat.zero_add _

/-- Bytes that are overwritten, and a word half of which falls outside. -/
theorem image_of_overlapping_assembly :
    let source := ".ORG 1\n.BYTE 1, 2\n.ORG 2\nlast: .WORD $0304, last".toList
    let a : Assembly := ⟨⟨#[0, 1, 4, 3, 2], 1⟩, ⟨[⟨"last".toList, 2, 4⟩]⟩, 6⟩
    (Assembly.ofSource ⟨5, 0⟩ source).result = .ok a ∧
      ∃ cells, Location.cells? a.labels 0 (SourceLine.listing source) = some cells ∧
        (∀ address < 5, a.image.read address = (lastWritten? cells address).getD 0) ∧
        a.image.capacity = 5 ∧ a.image.dropped = cells.countP fun cell => 5 ≤ cell.2 := by
  intro source a
  have h : (Assembly.ofSource ⟨5, 0⟩ source).result = .ok a := by decide
  exact ⟨h, image_of_assembly ⟨5, 0⟩ source a h⟩

end Asm6502
