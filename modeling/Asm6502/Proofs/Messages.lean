import Asm6502.Fault
import Asm6502.Proofs.Numerals
import Asm6502.Text.Cut

/-!
Messages are unambiguous. Names in a message are any texts, so a name may hold quotes or the very
words that stand around it; all the same a message belongs to one fault at one line. The opening
words tell the kind of the fault, and each detail behind them ends where only it can end.
-/

namespace Asm6502

/-! ## Names -/

theorem Mnemonic.name_injective : Function.Injective name :=
  Text.injective_of_read ofName?_name

theorem Mode.name_injective : Function.Injective name :=
  Text.injective_of_read ofName?_name

theorem Mode.blank_not_mem_name (m : Mode) : ' ' ∉ m.name := by
  cases m <;> decide

namespace Fault

theorem signedHex_injective : Function.Injective signedHex := by
  intro i j h
  unfold signedHex at h
  by_cases hi : i < 0
  · by_cases hj : j < 0
    · rw [if_pos hi, if_pos hj] at h
      have habs := Text.hexLower_injective 0 (List.append_cancel_left h)
      omega
    · -- one text begins with the sign, the other one with a digit
      rw [if_pos hi, if_neg hj] at h
      cases h
  · by_cases hj : j < 0
    · rw [if_neg hi, if_pos hj] at h
      cases h
    · rw [if_neg hi, if_neg hj] at h
      have habs := Text.hexLower_injective 0 (List.append_cancel_left h)
      omega

/-! ## Opening words -/

/-- What a fault is about, without its details. -/
inductive Kind where
  | unknownInstruction
  | invalidMode
  | unknownLabel
  | branchOutOfRange
  | malformedLiteral
  | duplicateLabel
  | addressOverflow
  deriving DecidableEq, Repr

def kind : Fault → Kind
  | unknownInstruction _ => .unknownInstruction
  | invalidMode _ _ => .invalidMode
  | unknownLabel _ => .unknownLabel
  | branchOutOfRange _ => .branchOutOfRange
  | malformedLiteral _ => .malformedLiteral
  | duplicateLabel _ _ => .duplicateLabel
  | addressOverflow _ => .addressOverflow

def Kind.opening : Kind → Text
  | unknownInstruction => "Unknown instruction: '".toList
  | invalidMode => "Invalid addressing mode ".toList
  | unknownLabel => "Unknown label: '".toList
  | branchOutOfRange => "Branch out of range (".toList
  | malformedLiteral => "Malformed literal: '".toList
  | duplicateLabel => "Label '".toList
  | addressOverflow => "Address ".toList

/-- What a message says behind its `Kind.opening`. -/
def details : Fault → Text
  | unknownInstruction word => word ++ "'".toList
  | invalidMode mnemonic mode => mode.name ++ " for ".toList ++ mnemonic.name
  | unknownLabel name => name ++ "'".toList
  | branchOutOfRange distance => Text.integer distance ++ ")".toList
  | malformedLiteral literal => literal ++ "'".toList
  | duplicateLabel name firstLine =>
    name ++ "' already defined on line ".toList ++ Text.decimal firstLine
  | addressOverflow address => signedHex address ++ " outside of the 16-bit address space".toList

theorem message_eq_append (f : Fault) : f.message = f.kind.opening ++ f.details := by
  have htwo : ∀ opening s t : Text, opening ++ s ++ t = opening ++ (s ++ t) := List.append_assoc
  have hthree : ∀ opening s t u : Text, opening ++ s ++ t ++ u = opening ++ (s ++ t ++ u) := by
    simp only [List.append_assoc, implies_true]
  cases f with
  | unknownInstruction word => exact htwo _ word _
  | invalidMode m mode => exact hthree _ mode.name _ m.name
  | unknownLabel name => exact htwo _ name _
  | branchOutOfRange distance => exact htwo _ (Text.integer distance) _
  | malformedLiteral literal => exact htwo _ literal _
  | duplicateLabel name n => exact hthree _ name _ (Text.decimal n)
  | addressOverflow address => exact htwo _ (signedHex address) _

/-- No opening begins another one. -/
theorem Kind.opening_prefix_inj {k l : Kind} : k.opening <+: l.opening → k = l := by
  cases k <;> cases l <;> decide

theorem kind_eq_of_message_eq {f g : Fault} (h : f.message = g.message) : f.kind = g.kind := by
  have hf : f.kind.opening <+: f.message := ⟨f.details, f.message_eq_append.symm⟩
  have hg : g.kind.opening <+: f.message := ⟨g.details, by rw [h, g.message_eq_append]⟩
  rcases List.prefix_or_prefix_of_prefix hf hg with hbegins | hbegins
  · exact Kind.opening_prefix_inj hbegins
  · exact (Kind.opening_prefix_inj hbegins).symm

/-! ## Details -/

theorem invalidMode_details_inj {m m' : Mnemonic} {mode mode' : Mode}
    (h : (invalidMode m mode).details = (invalidMode m' mode').details) :
    m = m' ∧ mode = mode' := by
  simp only [details, List.append_assoc] at h
  -- the name of the mode ends at the first blank
  have hcut := Text.first_cut_inj mode.blank_not_mem_name mode'.blank_not_mem_name h
  exact ⟨Mnemonic.name_injective (List.append_cancel_left hcut.2), Mode.name_injective hcut.1⟩

theorem duplicateLabel_details_inj {name name' : Text} {n n' : Nat}
    (h : (duplicateLabel name n).details = (duplicateLabel name' n').details) :
    name = name' ∧ n = n' := by
  have hwords : "' already defined on line ".toList = "' already defined on line".toList ++ [' '] :=
    rfl
  have hdigits : ∀ k, ' ' ∉ Text.decimal k := fun k => mt Text.mem_decimal (by decide)
  simp only [details, hwords, ← List.append_assoc] at h
  simp only [List.append_assoc (_ ++ _), List.singleton_append] at h
  -- the name may hold blanks, the number may not: its digits follow the last blank
  have hcut := Text.last_cut_inj (hdigits n) (hdigits n') h
  exact ⟨List.append_cancel_right hcut.1, Text.decimal_injective hcut.2⟩

theorem eq_of_details_eq {f g : Fault} (hkind : f.kind = g.kind) (h : f.details = g.details) :
    f = g := by
  cases f with
  | unknownInstruction word =>
    cases g with
    | unknownInstruction word' => rw [List.append_cancel_right h]
    | _ => cases hkind
  | invalidMode m mode =>
    cases g with
    | invalidMode m' mode' =>
      obtain ⟨rfl, rfl⟩ := invalidMode_details_inj h
      rfl
    | _ => cases hkind
  | unknownLabel name =>
    cases g with
    | unknownLabel name' => rw [List.append_cancel_right h]
    | _ => cases hkind
  | branchOutOfRange distance =>
    cases g with
    | branchOutOfRange distance' =>
      rw [Text.integer_injective (List.append_cancel_right h)]
    | _ => cases hkind
  | malformedLiteral literal =>
    cases g with
    | malformedLiteral literal' => rw [List.append_cancel_right h]
    | _ => cases hkind
  | duplicateLabel name n =>
    cases g with
    | duplicateLabel name' n' =>
      obtain ⟨rfl, rfl⟩ := duplicateLabel_details_inj h
      rfl
    | _ => cases hkind
  | addressOverflow address =>
    cases g with
    | addressOverflow address' =>
      rw [signedHex_injective (List.append_cancel_right h)]
    | _ => cases hkind

theorem message_injective : Function.Injective message := by
  intro f g h
  have hkind := kind_eq_of_message_eq h
  rw [message_eq_append, message_eq_append, hkind] at h
  exact eq_of_details_eq hkind (List.append_cancel_left h)

end Fault

/-! ## Whole messages -/

theorem messages_unambiguous (f g : LineFault) : f.message = g.message ↔ f = g := by
  constructor
  · obtain ⟨n, fault⟩ := f
    obtain ⟨n', fault'⟩ := g
    intro h
    have hdigits : ∀ k, ':' ∉ Text.decimal k := fun k => mt Text.mem_decimal (by decide)
    unfold LineFault.message at h
    simp only [List.append_assoc] at h
    -- the number of the line ends at the first colon
    have hcut := Text.first_cut_inj (hdigits n) (hdigits n') (List.append_cancel_left h)
    have hline := Text.decimal_injective hcut.1
    have hfault := Fault.message_injective (List.append_cancel_left hcut.2)
    rw [hline, hfault]
  · intro h
    rw [h]

-- a name that imitates the words behind it
example :
    (LineFault.mk 9 (.duplicateLabel "a' already defined on line 1".toList 2)).message ≠
      (LineFault.mk 9 (.duplicateLabel "a".toList 1)).message := by decide

end Asm6502
