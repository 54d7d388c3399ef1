/-!
The memory image: as many bytes as its capacity, addressed from zero. A write outside of it is
dropped and only counted.
-/

namespace Asm6502

structure Image where
  cells : Array UInt8
  /-- The number of writes that fell outside. -/
  dropped : Nat
  deriving DecidableEq, Repr

namespace Image

def blank (capacity : Nat) : Image :=
  ⟨Array.replicate capacity 0, 0⟩

def capacity (m : Image) : Nat :=
  m.cells.size

/-- The byte at an address, zero outside. -/
def read (m : Image) (address : Nat) : UInt8 :=
  m.cells.getD address 0

def write (m : Image) (address : Nat) (byte : UInt8) : Image :=
  if h : address < m.cells.size then { m with cells := m.cells.set address byte h }
  else { m with dropped := m.dropped + 1 }

def slice (m : Image) (start stop : Nat) : List UInt8 :=
  (m.cells.extract start stop).toList

def toList (m : Image) : List UInt8 :=
  m.cells.toList

/-! ## What a write changes -/

@[simp] theorem capacity_blank (n : Nat) : (blank n).capacity = n := by
  simp [blank, capacity]

@[simp] theorem capacity_write (m : Image) (a : Nat) (b : UInt8) :
    (m.write a b).capacity = m.capacity := by
  unfold write
  split <;> simp [capacity]

theorem read_blank (n a : Nat) : (blank n).read a = 0 := by
  by_cases h : a < n <;> simp [blank, read, Array.getD, h]

/-- An address inside reads the byte last written to it. -/
theorem read_write (m : Image) (a x : Nat) (b : UInt8) :
    (m.write a b).read x = if a = x ∧ a < m.capacity then b else m.read x := by
  unfold write
  split
  · rename_i h
    by_cases hx : a = x
    · subst hx
      simp [read, capacity, h]
    · simp [read, hx]
  · rename_i h
    have hout : ¬(a = x ∧ a < m.capacity) := fun hc => h hc.2
    simp [read, hout]

theorem dropped_write (m : Image) (a : Nat) (b : UInt8) :
    (m.write a b).dropped = if a < m.capacity then m.dropped else m.dropped + 1 := by
  unfold write
  split <;> rename_i h <;> simp [capacity, h]

end Image

end Asm6502
