import Asm6502.Rendering
import Mathlib.Data.List.Chain

/-!
Runs cover a memory, one right behind the other. The runs of a memory are the only ones that cover
it with different values in neighbours, and nothing shorter covers it.
-/

namespace Asm6502.Run

/-- The cells that a run sets, each byte with its address. -/
def cells (r : Run) : List (UInt8 × Nat) :=
  (List.range' r.start (r.stop + 1 - r.start)).map fun a => (r.value, a)

/-- Runs that cover a memory from an address on, one right behind the other, up to its last cell. -/
structure Cover (start : Nat) (memory : List UInt8) (runs : List Run) : Prop where
  first : ∀ r ∈ runs.head?, r.start = start
  next : runs.IsChain fun r s => s.start = r.stop + 1
  ordered : ∀ r ∈ runs, r.start ≤ r.stop
  last : ∀ r ∈ runs.getLast?, r.stop + 1 = start + memory.length
  empty : runs = [] ↔ memory = []
  value : ∀ r ∈ runs, ∀ a, r.start ≤ a → a ≤ r.stop → memory[a - start]? = some r.value

/-! ## The first run -/

section First

variable {a : Nat} {memory tail : List UInt8} {r : Run} {rest runs : List Run}

/-- Runs one behind the other begin at the first one or later. -/
theorem start_le_of_isChain (hfirst : ∀ r ∈ runs.head?, r.start = a)
    (hnext : runs.IsChain fun r s => s.start = r.stop + 1) (hordered : ∀ r ∈ runs, r.start ≤ r.stop)
    (hr : r ∈ runs) : a ≤ r.start := by
  induction runs generalizing a with
  | nil => cases hr
  | cons s rest ih =>
    have hs : s.start = a := hfirst s rfl
    obtain ⟨hhead, htail⟩ := List.isChain_cons.mp hnext
    obtain rfl | hmem := List.mem_cons.mp hr
    · exact Nat.le_of_eq hs.symm
    · have hle := hordered s List.mem_cons_self
      have hrest := ih hhead htail (fun t ht => hordered t (List.mem_cons_of_mem s ht)) hmem
      omega

theorem Cover.start_le (h : Cover a memory runs) (hr : r ∈ runs) : a ≤ r.start :=
  start_le_of_isChain h.first h.next h.ordered hr

/-- A run in front of others that begin right behind it. -/
theorem Cover.append (h : Cover (r.stop + 1) tail rest) (hr : r.start ≤ r.stop) :
    Cover r.start (List.replicate (r.stop + 1 - r.start) r.value ++ tail) (r :: rest) where
  first := by simp
  next := List.isChain_cons.mpr ⟨h.first, h.next⟩
  ordered := List.forall_mem_cons.mpr ⟨hr, h.ordered⟩
  last := by
    intro s hs
    rw [List.length_append, List.length_replicate]
    cases rest with
    | nil =>
      have htail : tail = [] := h.empty.mp rfl
      obtain rfl : r = s := Option.some.inj hs
      rw [htail, List.length_nil]
      omega
    | cons t more =>
      have hend := h.last s hs
      omega
  empty := by
    have hcount : r.stop + 1 - r.start ≠ 0 := by omega
    simp [hcount]
  value := by
    refine List.forall_mem_cons.mpr ⟨?_, ?_⟩
    · intro x hlow hhigh
      have hinside : x - r.start < r.stop + 1 - r.start := by omega
      rw [List.getElem?_append_left (by simpa using hinside), List.getElem?_replicate_of_lt hinside]
    · intro s hs x hlow hhigh
      have hstart := h.start_le hs
      have hplace : x - r.start - (r.stop + 1 - r.start) = x - (r.stop + 1) := by omega
      rw [List.getElem?_append_right (by rw [List.length_replicate]; omega), List.length_replicate,
        hplace]
      exact h.value s hs x hlow hhigh

/-- The first run holds the first cells, and the others cover what is left. -/
theorem Cover.split (h : Cover a memory (r :: rest)) :
    r.start = a ∧ a ≤ r.stop ∧ ∃ tail, memory = List.replicate (r.stop + 1 - a) r.value ++ tail ∧
      Cover (r.stop + 1) tail rest := by
  obtain ⟨hhead, htail⟩ := List.isChain_cons.mp h.next
  obtain ⟨hle, hordered⟩ := List.forall_mem_cons.mp h.ordered
  have hstart : r.start = a := h.first r rfl
  have hbehind : ∀ s ∈ rest, r.stop + 1 ≤ s.start :=
    fun s hs => start_le_of_isChain hhead htail hordered hs
  have hcell : ∀ k, k < r.stop + 1 - a → memory[k]? = some r.value := by
    intro k hk
    have hvalue := h.value r List.mem_cons_self (a + k) (by omega) (by omega)
    rwa [Nat.add_sub_cancel_left] at hvalue
  have hlength : r.stop + 1 - a ≤ memory.length := by
    obtain ⟨hlt, -⟩ := List.getElem?_eq_some_iff.mp (hcell (r.stop - a) (by omega))
    omega
  have htake : memory.take (r.stop + 1 - a) = List.replicate (r.stop + 1 - a) r.value := by
    apply List.ext_getElem?
    intro k
    by_cases hk : k < r.stop + 1 - a
    · rw [List.getElem?_take_of_lt hk, List.getElem?_replicate_of_lt hk, hcell k hk]
    · have hreplicate : (List.replicate (r.stop + 1 - a) r.value)[k]? = none := by
        rw [List.getElem?_replicate, if_neg hk]
      rw [List.getElem?_take_eq_none (by omega), hreplicate]
  refine ⟨hstart, by omega, memory.drop (r.stop + 1 - a), ?_, hhead, htail, hordered, ?_, ?_, ?_⟩
  · rw [← htake, List.take_append_drop]
  · intro s hs
    have hend := h.last s (List.mem_getLast?_cons hs)
    rw [List.length_drop]
    omega
  · rw [List.drop_eq_nil_iff]
    constructor
    · rintro rfl
      have hend := h.last r rfl
      omega
    · intro hshort
      rcases hlast : rest.getLast? with _ | s
      · exact List.getLast?_eq_none_iff.mp hlast
      · -- a run behind the first one would end outside of the memory
        have hmem := List.mem_of_getLast? hlast
        have hend := h.last s (List.mem_getLast?_cons hlast)
        have hlater := hbehind s hmem
        have hle' := hordered s hmem
        omega
  · intro s hs x hlow hhigh
    have hlater := hbehind s hs
    have hplace : r.stop + 1 - a + (x - (r.stop + 1)) = x - a := by omega
    rw [List.getElem?_drop, hplace]
    exact h.value s (List.mem_cons_of_mem r hs) x hlow hhigh

end First

/-! ## One cell in front -/

section Front

variable {a : Nat} {b : UInt8} {memory : List UInt8} {runs : List Run}

theorem cover_nil {a : Nat} : Cover a [] [] :=
  ⟨by simp, .nil, by simp, by simp, by simp, by simp⟩

theorem Cover.single (h : Cover (a + 1) memory runs) :
    Cover a (b :: memory) (⟨a, a, b⟩ :: runs) := by
  have hcover := Cover.append (r := ⟨a, a, b⟩) h (Nat.le_refl a)
  have hone : a + 1 - a = 1 := by omega
  simp only [hone] at hcover
  exact hcover

theorem Cover.extend {r : Run} {rest : List Run} (h : Cover (a + 1) memory (r :: rest)) :
    Cover a (r.value :: memory) ({ r with start := a } :: rest) := by
  obtain ⟨-, hle, tail, rfl, hrest⟩ := h.split
  have hcover := Cover.append (r := { r with start := a }) hrest (by simp only; omega)
  have hcount : r.stop + 1 - a = r.stop + 1 - (a + 1) + 1 := by omega
  simp only [hcount, List.replicate_succ, List.cons_append] at hcover
  exact hcover

/-- Without its first cell, a memory is covered by the same runs but for the first one, which loses
a cell or is gone. -/
theorem Cover.uncons (h : Cover a (b :: memory) runs) :
    (∃ rest, runs = ⟨a, a, b⟩ :: rest ∧ Cover (a + 1) memory rest) ∨
      ∃ r rest, runs = { r with start := a } :: rest ∧ r.value = b ∧
        Cover (a + 1) memory (r :: rest) := by
  cases runs with
  | nil => exact absurd (h.empty.mp rfl) (List.cons_ne_nil b memory)
  | cons r rest =>
    obtain ⟨rfl, hle, tail, hmemory, hrest⟩ := h.split
    have hcount : r.stop + 1 - r.start = r.stop - r.start + 1 := by omega
    rw [hcount, List.replicate_succ, List.cons_append] at hmemory
    obtain ⟨rfl, rfl⟩ := List.cons.inj hmemory
    by_cases hstop : r.stop = r.start
    · left
      have hrun : r = ⟨r.start, r.start, r.value⟩ :=
        congrArg (fun stop => Run.mk r.start stop r.value) hstop
      rw [hstop] at hrest
      refine ⟨rest, congrArg (· :: rest) hrun, ?_⟩
      rw [hstop, Nat.sub_self]
      exact hrest
    · right
      have hcover := Cover.append (r := { r with start := r.start + 1 }) hrest (by simp only; omega)
      have hcount' : r.stop + 1 - (r.start + 1) = r.stop - r.start := by omega
      simp only [hcount'] at hcover
      exact ⟨{ r with start := r.start + 1 }, rest, rfl, rfl, hcover⟩

end Front

/-! ## The runs of a memory -/

theorem cells_single (a : Nat) (b : UInt8) : (Run.mk a a b).cells = [(b, a)] := by
  have hone : a + 1 - a = 1 := by omega
  simp [cells, hone]

theorem cells_extend {r : Run} {a : Nat} (hstart : r.start = a + 1) (hordered : r.start ≤ r.stop) :
    cells { r with start := a } = (r.value, a) :: r.cells := by
  have hlength : r.stop + 1 - a = (r.stop + 1 - r.start) + 1 := by omega
  unfold cells
  rw [hlength, List.range'_succ, List.map_cons, ← hstart]

section Memory

variable {a : Nat} {memory : List UInt8} {runs : List Run}

/-- Runs that cover a memory set every cell once, in order. -/
theorem Cover.cells (h : Cover a memory runs) : runs.flatMap Run.cells = memory.zipIdx a := by
  induction memory generalizing a runs with
  | nil =>
    rw [h.empty.mpr rfl]
    rfl
  | cons b memory ih =>
    obtain ⟨rest, rfl, hrest⟩ | ⟨r, rest, rfl, rfl, hrest⟩ := h.uncons
    · rw [List.flatMap_cons, cells_single, ih hrest]
      rfl
    · have hstart : r.start = a + 1 := hrest.first r rfl
      have hordered := hrest.ordered r List.mem_cons_self
      rw [List.flatMap_cons, cells_extend hstart hordered, List.zipIdx_cons, ← ih hrest]
      rfl

theorem Cover.head?_memory {r : Run} {rest : List Run} (h : Cover a memory (r :: rest)) :
    memory.head? = some r.value := by
  obtain ⟨-, hle, tail, rfl, -⟩ := h.split
  have hcount : r.stop + 1 - a = r.stop - a + 1 := by omega
  rw [hcount, List.replicate_succ]
  rfl

/-- Neighbouring runs have different values. -/
def Distinct (runs : List Run) : Prop :=
  runs.IsChain fun r s => r.value ≠ s.value

theorem cons_of_eq {r : Run} {b : UInt8} (h : r.value = b) (rest : List Run) :
    Run.cons (b, a) (r :: rest) = { r with start := a } :: rest :=
  if_pos h

theorem cons_of_ne {r : Run} {b : UInt8} (h : r.value ≠ b) (rest : List Run) :
    Run.cons (b, a) (r :: rest) = ⟨a, a, b⟩ :: r :: rest :=
  if_neg h

theorem Cover.cons {b : UInt8} (h : Cover (a + 1) memory runs) :
    Cover a (b :: memory) (Run.cons (b, a) runs) := by
  cases runs with
  | nil => exact h.single
  | cons r rest =>
    by_cases hvalue : r.value = b
    · rw [cons_of_eq hvalue, ← hvalue]
      exact h.extend
    · rw [cons_of_ne hvalue]
      exact h.single

theorem Distinct.cons {b : UInt8} (h : Distinct runs) : Distinct (Run.cons (b, a) runs) := by
  cases runs with
  | nil => exact .singleton _
  | cons r rest =>
    by_cases hvalue : r.value = b
    · obtain ⟨hhead, htail⟩ := List.isChain_cons.mp h
      rw [cons_of_eq hvalue]
      exact List.isChain_cons.mpr ⟨hhead, htail⟩
    · rw [cons_of_ne hvalue]
      exact List.isChain_cons_cons.mpr ⟨Ne.symm hvalue, h⟩

theorem cover_foldr (memory : List UInt8) (a : Nat) :
    Cover a memory ((memory.zipIdx a).foldr Run.cons []) := by
  induction memory generalizing a with
  | nil => exact cover_nil
  | cons b memory ih => exact (ih (a + 1)).cons

theorem distinct_foldr (memory : List UInt8) (a : Nat) :
    Distinct ((memory.zipIdx a).foldr Run.cons []) := by
  induction memory generalizing a with
  | nil => exact .nil
  | cons b memory ih => exact (ih (a + 1)).cons

theorem cover_ofMemory (memory : List UInt8) : Cover 0 memory (ofMemory memory) :=
  cover_foldr memory 0

theorem eq_foldr_of_cover (h : Cover a memory runs) (hdistinct : Distinct runs) :
    runs = (memory.zipIdx a).foldr Run.cons [] := by
  induction memory generalizing a runs with
  | nil => exact h.empty.mpr rfl
  | cons b memory ih =>
    rw [List.zipIdx_cons, List.foldr_cons]
    obtain ⟨rest, rfl, hrest⟩ | ⟨r, rest, rfl, rfl, hrest⟩ := h.uncons
    · obtain ⟨hhead, htail⟩ := List.isChain_cons.mp hdistinct
      rw [← ih hrest htail]
      cases rest with
      | nil => rfl
      | cons s more =>
        have hvalue : s.value ≠ b := (hhead s rfl).symm
        exact (cons_of_ne hvalue more).symm
    · obtain ⟨hhead, htail⟩ := List.isChain_cons.mp hdistinct
      rw [← ih hrest (List.isChain_cons.mpr ⟨hhead, htail⟩)]
      exact (cons_of_eq rfl rest).symm

theorem length_cons_le (cell : UInt8 × Nat) (runs : List Run) :
    (Run.cons cell runs).length ≤ runs.length + 1 := by
  cases runs with
  | nil => exact Nat.le_refl 1
  | cons r rest =>
    by_cases hvalue : r.value = cell.1
    · rw [cons_of_eq hvalue]
      exact Nat.le_succ _
    · rw [cons_of_ne hvalue]
      exact Nat.le_refl _

theorem length_foldr_le (h : Cover a memory runs) :
    ((memory.zipIdx a).foldr Run.cons []).length ≤ runs.length := by
  induction memory generalizing a runs with
  | nil => exact Nat.zero_le _
  | cons b memory ih =>
    rw [List.zipIdx_cons, List.foldr_cons]
    obtain ⟨rest, rfl, hrest⟩ | ⟨r, rest, rfl, rfl, hrest⟩ := h.uncons
    · have hlength := ih hrest
      have hcons := length_cons_le (b, a) ((memory.zipIdx (a + 1)).foldr Run.cons [])
      rw [List.length_cons]
      omega
    · -- the cell has the value of the cells behind it, so it makes no run of its own
      have hlength := ih hrest
      have hcover := cover_foldr memory (a + 1)
      generalize (memory.zipIdx (a + 1)).foldr Run.cons [] = shortest at hlength hcover ⊢
      have hhead := hrest.head?_memory
      cases shortest with
      | nil =>
        rw [hcover.empty.mp rfl] at hhead
        cases hhead
      | cons s more =>
        have hvalue : s.value = r.value := Option.some.inj (hcover.head?_memory.symm.trans hhead)
        rw [cons_of_eq hvalue]
        exact hlength

end Memory

/-- `Run.ofMemory` gives the only runs that `Cover` a memory from address zero on and are
`Distinct`; and however a memory is covered, it takes at least as many runs. -/
theorem runs_canonical (memory : List UInt8) (runs : List Run) :
    (Cover 0 memory runs ∧ Distinct runs ↔ runs = ofMemory memory) ∧
      (Cover 0 memory runs → (ofMemory memory).length ≤ runs.length) := by
  refine ⟨⟨fun h => eq_foldr_of_cover h.1 h.2, ?_⟩, length_foldr_le⟩
  rintro rfl
  exact ⟨cover_ofMemory memory, distinct_foldr memory 0⟩

/-- A cover with a run cut in two, and the one without. -/
theorem runs_canonical_of_cut_run :
    (Cover 0 [7, 7, 1] [⟨0, 0, 7⟩, ⟨1, 1, 7⟩, ⟨2, 2, 1⟩] ∧ (ofMemory [7, 7, 1]).length ≤ 3) ∧
      Cover 0 [7, 7, 1] [⟨0, 1, 7⟩, ⟨2, 2, 1⟩] ∧ Distinct [⟨0, 1, 7⟩, ⟨2, 2, 1⟩] ∧
      [⟨0, 1, 7⟩, ⟨2, 2, 1⟩] = ofMemory [7, 7, 1] := by
  have hcut : Cover 0 [7, 7, 1] [⟨0, 0, 7⟩, ⟨1, 1, 7⟩, ⟨2, 2, 1⟩] := cover_nil.single.single.single
  have hwhole : Cover 0 [7, 7, 1] [⟨0, 1, 7⟩, ⟨2, 2, 1⟩] := cover_nil.single.single.extend
  have hdistinct : Distinct [⟨0, 1, 7⟩, ⟨2, 2, 1⟩] := List.isChain_pair.mpr (by decide)
  obtain ⟨-, hshorter⟩ := runs_canonical [7, 7, 1] [⟨0, 0, 7⟩, ⟨1, 1, 7⟩, ⟨2, 2, 1⟩]
  obtain ⟨honly, -⟩ := runs_canonical [7, 7, 1] [⟨0, 1, 7⟩, ⟨2, 2, 1⟩]
  exact ⟨⟨hcut, hshorter hcut⟩, hwhole, hdistinct, honly.mp ⟨hwhole, hdistinct⟩⟩

end Asm6502.Run
