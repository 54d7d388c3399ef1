import Asm6502.Fault

/-!
The location counter and the labels that are defined at it. The counter is the address of the next
byte; it may stand one past the last address, right behind a byte at `$FFFF`, but nothing can be
placed or labelled there. A `LabelTable` keeps labels in the order of their definition, each name
defined once; names are compared as they are written, so case counts.
-/

namespace Asm6502

/-! ## Locations -/

abbrev Location := Nat

namespace Location

/-- One past the last address. -/
def limit : Nat := 0x10000

def labelAddress (c : Location) : Except Fault UInt16 :=
  if c < limit then .ok (UInt16.ofNat c) else .error (.addressOverflow c)

def advance (c : Location) (size : Nat) : Except Fault Location :=
  if c + size ≤ limit then .ok (c + size) else .error (.addressOverflow (c + size))

theorem labelAddress_eq_ok {c : Location} {address : UInt16} (h : labelAddress c = .ok address) :
    address.toNat = c := by
  unfold labelAddress at h
  split at h
  · rename_i hc
    cases h
    exact UInt16.toNat_ofNat_of_lt' (by simpa [limit] using hc)
  · cases h

theorem advance_eq_ok {c d : Location} {size : Nat} (h : advance c size = .ok d) :
    d = c + size ∧ d ≤ limit := by
  unfold advance at h
  split at h
  · rename_i hc
    cases h
    exact ⟨rfl, hc⟩
  · cases h

end Location

/-! ## The label table -/

structure Label where
  name : Text
  address : UInt16
  line : Nat
  deriving DecidableEq, Repr

structure LabelTable where
  entries : List Label
  deriving DecidableEq, Repr

namespace LabelTable

def empty : LabelTable :=
  ⟨[]⟩

def find? (t : LabelTable) (name : Text) : Option Label :=
  t.entries.find? fun l => l.name = name

def address? (t : LabelTable) (name : Text) : Option UInt16 :=
  (t.find? name).map Label.address

/-- Adds `l` behind the others; a name that is taken is refused. -/
def define (t : LabelTable) (l : Label) : Except Fault LabelTable :=
  match t.find? l.name with
  | some earlier => .error (.duplicateLabel l.name earlier.line)
  | none => .ok ⟨t.entries ++ [l]⟩

def ofLabels (labels : List Label) : Except Fault LabelTable :=
  labels.foldlM define empty

def size (t : LabelTable) : Nat :=
  t.entries.length

/-! ## What a definition changes -/

theorem define_eq_ok {t u : LabelTable} {l : Label} (h : t.define l = .ok u) :
    t.find? l.name = none ∧ u.entries = t.entries ++ [l] := by
  unfold define at h
  split at h
  · cases h
  · rename_i hnone
    cases h
    exact ⟨hnone, rfl⟩

end LabelTable

end Asm6502
