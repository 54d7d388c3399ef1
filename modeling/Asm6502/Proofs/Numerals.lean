import Asm6502.Statement.Reader

/-!
Numerals are read back. What is written in decimal or in hexadecimal is read as the same number,
so different numbers look different, and a hexadecimal literal stands for the number that it shows.
-/

namespace Asm6502.Text

/-! ## Digits -/

def hexDigits : Text :=
  "0123456789ABCDEF".toList

def decimalDigits : Text :=
  "0123456789".toList

section Radix

variable {radix : Nat} (hradix : 1 < radix)

include hradix

/-- Digits are read back in any lettering that shows each digit as itself. -/
theorem foldlM_toDigits {lettering : Char → Char}
    (h : ∀ d < radix, digit? radix (lettering d.digitChar) = some d) (n : Nat) :
    ((Nat.toDigits radix n).map lettering).foldlM (readDigit radix) 0 = some n := by
  induction n using Nat.strongRecOn with
  | _ n ih =>
    rw [Nat.toDigits_eq_if hradix]
    split
    · rename_i hlt
      simp [readDigit, h n hlt]
    · rename_i hge
      have hsmaller : n / radix < n := Nat.div_lt_self (by omega) hradix
      have hdigit : n % radix < radix := Nat.mod_lt n (by omega)
      rw [List.map_append, List.foldlM_append, ih _ hsmaller]
      simp [readDigit, h _ hdigit, Nat.div_add_mod]

theorem foldlM_plainDigits (h : ∀ d < radix, digit? radix d.digitChar = some d) (n : Nat) :
    (Nat.toDigits radix n).foldlM (readDigit radix) 0 = some n := by
  have hread := @foldlM_toDigits radix hradix id h n
  rwa [List.map_id] at hread

theorem exists_of_mem_toDigits {n : Nat} {c : Char} (hc : c ∈ Nat.toDigits radix n) :
    ∃ d < radix, c = d.digitChar := by
  induction n using Nat.strongRecOn with
  | _ n ih =>
    rw [Nat.toDigits_eq_if hradix] at hc
    split at hc
    · rename_i hlt
      exact ⟨n, hlt, List.mem_singleton.mp hc⟩
    · obtain hc | hc := List.mem_append.mp hc
      · exact ih _ (Nat.div_lt_self (by omega) hradix) hc
      · exact ⟨n % radix, Nat.mod_lt n (by omega), List.mem_singleton.mp hc⟩

end Radix

theorem mem_hex {width n : Nat} {c : Char} (h : c ∈ hex width n) : c ∈ hexDigits := by
  rw [hex, List.leftpad, List.mem_append] at h
  obtain hzero | hdigit := h
  · rw [List.eq_of_mem_replicate hzero]
    decide
  · obtain ⟨lower, hlower, rfl⟩ := List.mem_map.mp hdigit
    obtain ⟨d, hd, rfl⟩ := exists_of_mem_toDigits (by decide) hlower
    have hletters : ∀ d < 16, d.digitChar.toUpper ∈ hexDigits := by decide
    exact hletters d hd

theorem mem_decimal {n : Nat} {c : Char} (h : c ∈ decimal n) : c ∈ decimalDigits := by
  obtain ⟨d, hd, rfl⟩ := exists_of_mem_toDigits (by decide) h
  have hletters : ∀ d < 10, d.digitChar ∈ decimalDigits := by decide
  exact hletters d hd

theorem hex_ne_nil (width n : Nat) : hex width n ≠ [] := by
  simp [hex, List.leftpad, Nat.toDigits_ne_nil]

theorem decimal_ne_nil (n : Nat) : decimal n ≠ [] :=
  Nat.toDigits_ne_nil

/-! ## Reading -/

theorem natural?_of_ne_nil {radix : Nat} {t : Text} (h : t ≠ []) :
    natural? radix t = t.foldlM (readDigit radix) 0 := by
  obtain ⟨c, t, rfl⟩ := List.exists_cons_of_ne_nil h
  rfl

theorem natural?_decimal (n : Nat) : natural? 10 (decimal n) = some n := by
  rw [natural?_of_ne_nil (decimal_ne_nil n)]
  exact foldlM_plainDigits (by decide) (by decide) n

theorem foldlM_zeros (radix count : Nat) (hradix : 0 < radix) :
    (List.replicate count '0').foldlM (readDigit radix) 0 = some 0 := by
  have hzero : readDigit radix 0 '0' = some 0 := by
    have hvalue : digitValue? '0' = some 0 := by decide
    simp [readDigit, digit?, hvalue, hradix]
  induction count with
  | zero => rfl
  | succ count ih => simp [List.replicate_succ, hzero, ih]

/-- Zeros in front of digits do not count. -/
theorem natural?_leftpad {radix : Nat} (hradix : 0 < radix) {digits : Text} (hne : digits ≠ [])
    {n : Nat} (h : digits.foldlM (readDigit radix) 0 = some n) (width : Nat) :
    natural? radix (digits.leftpad width '0') = some n := by
  have hpadded : digits.leftpad width '0' ≠ [] := by simp [List.leftpad, hne]
  rw [natural?_of_ne_nil hpadded, List.leftpad, List.foldlM_append, foldlM_zeros radix _ hradix]
  exact h

theorem natural?_hex (width n : Nat) : natural? 16 (hex width n) = some n := by
  have hne : (Nat.toDigits 16 n).map Char.toUpper ≠ [] := by simp [Nat.toDigits_ne_nil]
  exact natural?_leftpad (by decide) hne (foldlM_toDigits (by decide) (by decide) n) width

theorem natural?_hexLower (width n : Nat) : natural? 16 (hexLower width n) = some n :=
  natural?_leftpad (by decide) Nat.toDigits_ne_nil
    (foldlM_plainDigits (by decide) (by decide) n) width

/-- Digits without a sign are read as they are, since no sign is a digit. -/
theorem signed?_of_natural? {radix : Nat} {t : Text} {n : Nat} (h : natural? radix t = some n) :
    signed? radix t = some (n : Int) := by
  have hplus : digitValue? '+' = none := by decide
  have hminus : digitValue? '-' = none := by decide
  unfold signed?
  split
  · simp [natural?, readDigit, digit?, hplus] at h
  · simp [natural?, readDigit, digit?, hminus] at h
  · rw [h]
    rfl

theorem signed?_hex (width n : Nat) : signed? 16 (hex width n) = some (n : Int) :=
  signed?_of_natural? (natural?_hex width n)

theorem signed?_integer (i : Int) : signed? 10 (integer i) = some i := by
  unfold integer
  split
  · rename_i hneg
    have hread : signed? 10 ('-' :: decimal i.natAbs) = some (-(i.natAbs : Int)) := by
      rw [signed?, natural?_decimal]
      rfl
    have hvalue : -(i.natAbs : Int) = i := by omega
    rw [hread, hvalue]
  · have hvalue : (i.natAbs : Int) = i := by omega
    rw [signed?_of_natural? (natural?_decimal i.natAbs), hvalue]

/-! ## Different numbers look different -/

/-- What can be read back is written in one way only. -/
theorem injective_of_read {α : Type} {write : α → Text} {read : Text → Option α}
    (h : ∀ x, read (write x) = some x) : Function.Injective write := by
  intro x y hsame
  have hx := h x
  rw [hsame, h y] at hx
  exact (Option.some.inj hx).symm

theorem decimal_injective : Function.Injective decimal :=
  injective_of_read natural?_decimal

theorem integer_injective : Function.Injective integer :=
  injective_of_read signed?_integer

theorem hexLower_injective (width : Nat) : Function.Injective (hexLower width) :=
  injective_of_read (natural?_hexLower width)

end Asm6502.Text

namespace Asm6502.Literal

theorem trim_hex (width n : Nat) :
    Text.trim ('$' :: Text.hex width n) = '$' :: Text.hex width n := by
  have hdigit : ∀ c ∈ '$' :: Text.hexDigits, Text.isBlank c = false := by decide
  apply Text.trim_eq_self
  · rintro c ⟨⟩
    exact hdigit '$' List.mem_cons_self
  · intro c hc
    obtain rfl | hmem := List.mem_cons.mp (List.mem_of_getLast? hc)
    · exact hdigit '$' List.mem_cons_self
    · exact hdigit c (List.mem_cons_of_mem '$' (Text.mem_hex hmem))

theorem read_hex {width n : Nat} (h : n ≤ 0x7FFFFFFF) :
    read ('$' :: Text.hex width n) = .ok (Int32.ofInt n) := by
  have hvalue : value? ('$' :: Text.hex width n) = some (n : Int) := Text.signed?_hex width n
  have hlow : -0x80000000 ≤ (n : Int) := by omega
  have hhigh : (n : Int) ≤ 0x7FFFFFFF := by omega
  simp [read, trim_hex, hvalue, hlow, hhigh]

end Asm6502.Literal
