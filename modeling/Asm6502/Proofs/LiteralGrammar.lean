import Asm6502.Proofs.Numerals
import Asm6502.Proofs.OperandGrammar
import Mathlib.Data.List.Forall2
import Mathlib.Data.Nat.Digits.Defs

/-!
The grammar of number literals, written down apart from the reader: the announcement of a radix, at
most one sign, and digits that count by their places. The reader accepts exactly the literals whose
number fits into 32 bits, each as its number; so there is a literal of every radix for each number
of 32 bits, and no number is wrapped around.
-/

namespace Asm6502

/-! ## Digits -/

namespace Text

/-- A character shows a digit of a radix up to sixteen; a letter may be of either case. -/
def ShowsDigit (radix : Nat) (c : Char) (d : Nat) : Prop :=
  d < radix ∧ (c = d.digitChar ∨ c = d.digitChar.toUpper)

/-- One or more digits, the most significant first, and the number that they stand for. -/
def IsNumeral (radix : Nat) (digits : Text) (n : Nat) : Prop :=
  digits ≠ [] ∧ ∃ ds, List.Forall₂ (ShowsDigit radix) digits ds ∧ n = Nat.ofDigits radix ds.reverse

/-- The signs of a number with what each does to it; a number without a sign is positive. -/
def signs : List (Int × Text) :=
  [(1, []), (1, ['+']), (-1, ['-'])]

/-- Digits count by their places when each one moves those before it up by a place. -/
theorem ofDigits_reverse (radix : Nat) (ds : List Nat) :
    Nat.ofDigits radix ds.reverse = ds.foldl (fun n d => radix * n + d) 0 := by
  have hstep : (fun n d : Nat => d + radix * n) = fun n d => radix * n + d := by
    funext n d
    exact Nat.add_comm d (radix * n)
  rw [Nat.ofDigits_eq_foldr, List.foldr_reverse]
  exact congrArg (fun step => ds.foldl step 0) hstep

theorem digitValue?_eq_some {c : Char} {d : Nat} (h : digitValue? c = some d) (hd : d < 16) :
    c = d.digitChar ∨ c = d.digitChar.toUpper := by
  have hdecimal : ∀ k < 10, Char.ofNat (48 + k) = k.digitChar := by decide
  have hlower : ∀ k < 6, Char.ofNat (97 + k) = (k + 10).digitChar := by decide
  have hupper : ∀ k < 6, Char.ofNat (65 + k) = (k + 10).digitChar.toUpper := by decide
  have hc : Char.ofNat c.toNat = c := Char.ofNat_toNat c
  unfold digitValue? at h
  split at h
  · rename_i hrange
    have hlow : 48 ≤ c.toNat := hrange.1
    have hhigh : c.toNat ≤ 57 := hrange.2
    have hd' : c.toNat - 48 = d := Option.some.inj h
    have hplace : c.toNat = 48 + d := by omega
    left
    rw [← hc, hplace]
    exact hdecimal d (by omega)
  split at h
  · rename_i hrange
    have hlow : 97 ≤ c.toNat := hrange.1
    have hd' : c.toNat - 97 + 10 = d := Option.some.inj h
    have hplace : c.toNat = 97 + (c.toNat - 97) := by omega
    left
    rw [← hc, hplace, ← hd']
    exact hlower (c.toNat - 97) (by omega)
  split at h
  · rename_i hrange
    have hlow : 65 ≤ c.toNat := hrange.1
    have hd' : c.toNat - 65 + 10 = d := Option.some.inj h
    have hplace : c.toNat = 65 + (c.toNat - 65) := by omega
    right
    rw [← hc, hplace, ← hd']
    exact hupper (c.toNat - 65) (by omega)
  · cases h

section Radix

variable {radix : Nat} (hradix : radix ≤ 16)

include hradix

theorem digit?_eq_some_iff {c : Char} {d : Nat} :
    digit? radix c = some d ↔ ShowsDigit radix c d := by
  constructor
  · intro h
    obtain ⟨hvalue, hlt⟩ := Option.filter_eq_some_iff.mp h
    have hd : d < radix := of_decide_eq_true hlt
    exact ⟨hd, digitValue?_eq_some hvalue (by omega)⟩
  · intro h
    obtain ⟨hd, hletter⟩ := h
    have hvalues : ∀ k < 16, digitValue? k.digitChar = some k ∧
        digitValue? k.digitChar.toUpper = some k := by decide
    obtain ⟨hlower, hupper⟩ := hvalues d (by omega)
    have hvalue : digitValue? c = some d := by
      obtain rfl | rfl := hletter
      · exact hlower
      · exact hupper
    exact Option.filter_eq_some_iff.mpr ⟨hvalue, decide_eq_true hd⟩

theorem foldlM_readDigit_eq_some_iff {digits : Text} {k n : Nat} :
    digits.foldlM (readDigit radix) k = some n ↔
      ∃ ds, List.Forall₂ (ShowsDigit radix) digits ds ∧
        n = ds.foldl (fun m d => radix * m + d) k := by
  induction digits generalizing k with
  | nil => simp [eq_comm]
  | cons c digits ih =>
    rw [List.foldlM_cons, Option.bind_eq_bind, Option.bind_eq_some_iff]
    constructor
    · rintro ⟨m, hm, hrest⟩
      obtain ⟨d, hd, rfl⟩ := Option.map_eq_some_iff.mp hm
      obtain ⟨ds, hds, hn⟩ := ih.mp hrest
      exact ⟨d :: ds, .cons ((digit?_eq_some_iff hradix).mp hd) hds, hn⟩
    · rintro ⟨ds', hds', hn⟩
      cases hds' with
      | @cons _ d _ ds hd hds =>
        have hm : readDigit radix k c = some (radix * k + d) := by
          rw [readDigit, (digit?_eq_some_iff hradix).mpr hd]
          rfl
        exact ⟨radix * k + d, hm, ih.mpr ⟨ds, hds, hn⟩⟩

theorem natural?_eq_some_iff {digits : Text} {n : Nat} :
    natural? radix digits = some n ↔ IsNumeral radix digits n := by
  have hdigits : digits.foldlM (readDigit radix) 0 = some n ↔
      ∃ ds, List.Forall₂ (ShowsDigit radix) digits ds ∧ n = Nat.ofDigits radix ds.reverse := by
    simp only [foldlM_readDigit_eq_some_iff hradix, ofDigits_reverse]
  rw [IsNumeral, ← hdigits]
  cases digits with
  | nil => simp [natural?]
  | cons c digits => simp [natural?]

theorem signed?_eq_some_iff {t : Text} {v : Int} :
    signed? radix t = some v ↔
      ∃ s ∈ signs, ∃ digits n, IsNumeral radix digits n ∧ t = s.2 ++ digits ∧ v = s.1 * n := by
  have hnumeral : ∀ {digits : Text} {f : Int → Int},
      ((natural? radix digits >>= fun n => some (n : Int)).map f) = some v →
        ∃ n : Nat, IsNumeral radix digits n ∧ v = f n := by
    intro digits f hmap
    obtain ⟨w, hw, hv⟩ := Option.map_eq_some_iff.mp hmap
    obtain ⟨n, hn, hnw⟩ := Option.bind_eq_some_iff.mp hw
    cases hnw
    exact ⟨n, (natural?_eq_some_iff hradix).mp hn, hv.symm⟩
  constructor
  · intro h
    unfold signed? at h
    split at h
    · rename_i digits
      obtain ⟨n, hn, hv⟩ := hnumeral h
      exact ⟨(1, ['+']), by decide, digits, n, hn, rfl, by omega⟩
    · rename_i digits
      obtain ⟨n, hn, hv⟩ := hnumeral h
      exact ⟨(-1, ['-']), by decide, digits, n, hn, rfl, by omega⟩
    · obtain ⟨n, hn, hv⟩ := hnumeral h
      exact ⟨(1, []), by decide, t, n, hn, rfl, by omega⟩
  · rintro ⟨s, hs, digits, n, hdigits, rfl, rfl⟩
    have hn := (natural?_eq_some_iff hradix).mpr hdigits
    simp only [signs, List.mem_cons, List.not_mem_nil, or_false] at hs
    obtain rfl | rfl | rfl := hs
    · rw [Int.one_mul]
      exact signed?_of_natural? hn
    · simp [signed?, hn]
    · simp [signed?, hn]

end Radix

end Text

/-! ## Literals -/

namespace Literal

/-- The spellings of numbers behind the announcement of a radix. -/
inductive Spelled (p : Nat × Text) : Text → Int → Prop
  | intro {s : Int × Text} (hs : s ∈ Text.signs) {digits : Text} {n : Nat}
      (hdigits : Text.IsNumeral p.1 digits n) : Spelled p (p.2 ++ s.2 ++ digits) (s.1 * n)

/-- A literal and its number, which fits into 32 bits. -/
def Denotes (t : Text) (v : Int) : Prop :=
  (∃ p ∈ announcements, Spelled p t v) ∧ -0x80000000 ≤ v ∧ v ≤ 0x7FFFFFFF

theorem radix_le {p : Nat × Text} (hp : p ∈ announcements) : p.1 ≤ 16 := by
  have hall : ∀ p ∈ announcements, p.1 ≤ 16 := by decide
  exact hall p hp

/-- Where the radix is not announced, a number does not begin like an announcement. -/
theorem radix_eq_decimal {t : Text} {v : Int} (h : Text.signed? 10 t = some v) :
    radix t = (10, t) := by
  have hmark : ∀ c ∈ ['$', 'x', 'X', '%'], c ∉ t := by
    have hnone : ∀ c ∈ ['$', 'x', 'X', '%'], c ≠ '+' ∧ c ≠ '-' ∧ Text.digit? 10 c = none := by
      decide
    intro c hc
    obtain ⟨hplus, hminus, hdigit⟩ := hnone c hc
    exact Text.not_mem_of_signed? h hplus hminus hdigit
  unfold radix
  split
  · exact absurd List.mem_cons_self (hmark '$' (by decide))
  · exact absurd (List.mem_cons_of_mem '0' List.mem_cons_self) (hmark 'x' (by decide))
  · exact absurd (List.mem_cons_of_mem '0' List.mem_cons_self) (hmark 'X' (by decide))
  · exact absurd List.mem_cons_self (hmark '%' (by decide))
  · rfl

theorem value?_eq_some_iff {t : Text} {v : Int} :
    value? t = some v ↔ ∃ p ∈ announcements, Spelled p t v := by
  constructor
  · intro h
    obtain ⟨p, hp, ds, rfl, hds⟩ := value?_eq_some h
    obtain ⟨s, hs, digits, n, hdigits, rfl, rfl⟩ :=
      (Text.signed?_eq_some_iff (radix_le hp)).mp hds
    refine ⟨p, hp, ?_⟩
    rw [← List.append_assoc]
    exact .intro hs hdigits
  · rintro ⟨p, hp, hspelled⟩
    cases hspelled with
    | @intro s hs digits n hdigits =>
      have hsigned : Text.signed? p.1 (s.2 ++ digits) = some (s.1 * n) :=
        (Text.signed?_eq_some_iff (radix_le hp)).mpr ⟨s, hs, digits, n, hdigits, rfl, rfl⟩
      have hradix : radix (p.2 ++ (s.2 ++ digits)) = (p.1, s.2 ++ digits) := by
        simp only [announcements, List.mem_cons, List.not_mem_nil, or_false] at hp
        obtain rfl | rfl | rfl | rfl | rfl := hp
        · rfl
        · rfl
        · rfl
        · rfl
        · exact radix_eq_decimal hsigned
      rw [value?, List.append_assoc, hradix]
      exact hsigned

theorem read_eq_ok_iff {t : Text} {w : Int32} :
    read t = .ok w ↔ value? (Text.trim t) = some w.toInt := by
  have hlow := w.le_toInt
  have hhigh := w.toInt_lt
  unfold read
  cases value? (Text.trim t) with
  | none => simp
  | some v =>
    simp only [Option.some.injEq]
    constructor
    · intro h
      split at h
      · rename_i hfits
        cases h
        exact (Int32.toInt_ofInt_of_le hfits.1 (by omega)).symm
      · cases h
    · rintro rfl
      rw [if_pos (by omega), Int32.ofInt_toInt]

theorem read_accepts_iff {text : Text} {v : Int} :
    (∃ w, read text = .ok w ∧ w.toInt = v) ↔ Denotes (Text.trim text) v := by
  rw [Denotes, ← value?_eq_some_iff]
  constructor
  · rintro ⟨w, hw, rfl⟩
    have hlow := w.le_toInt
    have hhigh := w.toInt_lt
    exact ⟨read_eq_ok_iff.mp hw, by omega, by omega⟩
  · rintro ⟨hvalue, hlow, hhigh⟩
    have hw : (Int32.ofInt v).toInt = v := Int32.toInt_ofInt_of_le hlow (by omega)
    rw [← hw] at hvalue
    exact ⟨Int32.ofInt v, read_eq_ok_iff.mpr hvalue, hw⟩

theorem read_refuses_iff {text : Text} {fault : Fault} :
    read text = .error fault ↔
      fault = .malformedLiteral (Text.trim text) ∧ ¬∃ v, Denotes (Text.trim text) v := by
  simp only [← read_accepts_iff]
  constructor
  · intro herror
    refine ⟨read_eq_error herror, ?_⟩
    rintro ⟨v, w, hw, -⟩
    rw [herror] at hw
    cases hw
  · rintro ⟨rfl, hnone⟩
    cases hread : read text with
    | error fault => rw [read_eq_error hread]
    | ok w => exact absurd ⟨w.toInt, w, hread, rfl⟩ hnone

theorem Spelled.trim_eq {p : Nat × Text} {t : Text} {v : Int} (hp : p ∈ announcements)
    (h : Spelled p t v) : Text.trim t = t := by
  have hannounced : ∀ p ∈ announcements, ∀ c ∈ p.2, Text.isBlank c = false := by decide
  have hsign : ∀ s ∈ Text.signs, ∀ c ∈ s.2, Text.isBlank c = false := by decide
  have hdigit : ∀ d < 16, Text.isBlank d.digitChar = false ∧
      Text.isBlank d.digitChar.toUpper = false := by decide
  have hsolid : ∀ c ∈ t, Text.isBlank c = false := by
    cases h with
    | @intro s hs digits n hdigits =>
      intro c hc
      simp only [List.mem_append] at hc
      obtain (hc | hc) | hc := hc
      · exact hannounced p hp c hc
      · exact hsign s hs c hc
      · have hn := (Text.natural?_eq_some_iff (radix_le hp)).mpr hdigits
        obtain ⟨d, hd⟩ := (Text.natural?_eq_some hn).2 c hc
        obtain ⟨hlt, hletter⟩ := (Text.digit?_eq_some_iff (radix_le hp)).mp hd
        obtain ⟨hlower, hupper⟩ := hdigit d (Nat.lt_of_lt_of_le hlt (radix_le hp))
        obtain rfl | rfl := hletter
        · exact hlower
        · exact hupper
  exact Text.trim_eq_self (fun c hc => hsolid c (List.mem_of_head? hc))
    fun c hc => hsolid c (List.mem_of_getLast? hc)

/-- Any number can be written behind each announcement. -/
theorem exists_spelled {p : Nat × Text} (hp : p ∈ announcements) (v : Int) :
    ∃ t, Spelled p t v := by
  have hradices : ∀ p ∈ announcements, 1 < p.1 := by decide
  have hradix := radix_le hp
  have hdigits : Text.IsNumeral p.1 (Nat.toDigits p.1 v.natAbs) v.natAbs := by
    have hread := @Text.foldlM_toDigits p.1 (hradices p hp) id
      (fun d hd => (Text.digit?_eq_some_iff hradix).mpr ⟨hd, .inl rfl⟩) v.natAbs
    rw [List.map_id] at hread
    rw [← Text.natural?_eq_some_iff hradix, Text.natural?_of_ne_nil Nat.toDigits_ne_nil]
    exact hread
  by_cases hv : v < 0
  · have hvalue : (-1 : Int) * v.natAbs = v := by omega
    rw [← hvalue]
    exact ⟨_, .intro (s := (-1, ['-'])) (by decide) hdigits⟩
  · have hvalue : (1 : Int) * v.natAbs = v := by omega
    rw [← hvalue]
    exact ⟨_, .intro (s := (1, [])) (by decide) hdigits⟩

end Literal

/-- `Literal.read` reads a text as a number exactly if, without the blanks around it, the text
`Denotes` that number; it refuses the text, as a malformed literal, exactly if it denotes none. What
is `Spelled` for a number beyond 32 bits is refused as well and never read as another one, and every
number of 32 bits is spelled behind each of the `announcements`. -/
theorem literal_grammar (text : Text) :
    (∀ v, (∃ w, Literal.read text = .ok w ∧ w.toInt = v) ↔ Literal.Denotes (Text.trim text) v) ∧
    (∀ fault, Literal.read text = .error fault ↔
      fault = .malformedLiteral (Text.trim text) ∧ ¬∃ v, Literal.Denotes (Text.trim text) v) ∧
    (∀ p ∈ Literal.announcements, ∀ v, Literal.Spelled p (Text.trim text) v →
      v < -0x80000000 ∨ 0x7FFFFFFF < v →
        Literal.read text = .error (.malformedLiteral (Text.trim text))) ∧
    ∀ p ∈ Literal.announcements, ∀ w : Int32,
      ∃ t, Literal.Spelled p t w.toInt ∧ Literal.read t = .ok w := by
  refine ⟨fun v => Literal.read_accepts_iff, fun fault => Literal.read_refuses_iff, ?_, ?_⟩
  · intro p hp v hspelled hout
    have hvalue := Literal.value?_eq_some_iff.mpr ⟨p, hp, hspelled⟩
    have hnot : ¬(-0x80000000 ≤ v ∧ v ≤ 0x7FFFFFFF) := by omega
    simp only [Literal.read, hvalue, if_neg hnot]
  · intro p hp w
    obtain ⟨t, ht⟩ := Literal.exists_spelled hp w.toInt
    have hvalue := Literal.value?_eq_some_iff.mpr ⟨p, hp, ht⟩
    rw [← ht.trim_eq hp] at hvalue
    exact ⟨t, ht, Literal.read_eq_ok_iff.mpr hvalue⟩

/-- The least number with zeros before its digits and a wide blank behind them, the number below it,
and a text without digits. -/
theorem literal_grammar_of_least :
    (Literal.Denotes (Text.trim "$-0080000000\u3000".toList) (-0x80000000) ∧
      ∃ w, Literal.read "$-0080000000\u3000".toList = .ok w ∧ w.toInt = -0x80000000) ∧
    (Literal.Spelled (16, ['0', 'X']) (Text.trim "0X-80000001".toList) (-0x80000001) ∧
      Literal.read "0X-80000001".toList = .error (.malformedLiteral "0X-80000001".toList)) ∧
    (Literal.read " %- ".toList = .error (.malformedLiteral "%-".toList) ∧
      ¬∃ v, Literal.Denotes "%-".toList v) ∧
    ∃ t, Literal.Spelled (2, ['%']) t (-0x80000000) ∧ Literal.read t = .ok (-0x80000000) := by
  have hdigits : Text.IsNumeral 16 "0080000000".toList 0x80000000 :=
    (Text.natural?_eq_some_iff (by decide)).mp (by decide)
  have hdigits' : Text.IsNumeral 16 "80000001".toList 0x80000001 :=
    (Text.natural?_eq_some_iff (by decide)).mp (by decide)
  have hspelled : Literal.Spelled (16, ['$']) (Text.trim "$-0080000000\u3000".toList)
      (-0x80000000) := by
    have htrim : Text.trim "$-0080000000\u3000".toList = "$-0080000000".toList := by decide
    rw [htrim]
    exact @Literal.Spelled.intro (16, ['$']) (-1, ['-']) (by decide) _ _ hdigits
  have hspelled' : Literal.Spelled (16, ['0', 'X']) (Text.trim "0X-80000001".toList)
      (-0x80000001) := by
    have htrim : Text.trim "0X-80000001".toList = "0X-80000001".toList := by decide
    rw [htrim]
    exact @Literal.Spelled.intro (16, ['0', 'X']) (-1, ['-']) (by decide) _ _ hdigits'
  have hdenotes : Literal.Denotes (Text.trim "$-0080000000\u3000".toList) (-0x80000000) :=
    ⟨⟨_, by decide, hspelled⟩, by decide, by decide⟩
  have hmalformed : Literal.read " %- ".toList = .error (.malformedLiteral "%-".toList) := by rfl
  obtain ⟨haccepted, -, -, hevery⟩ := literal_grammar "$-0080000000\u3000".toList
  obtain ⟨-, -, hlarge, -⟩ := literal_grammar "0X-80000001".toList
  obtain ⟨-, hrefused, -, -⟩ := literal_grammar " %- ".toList
  exact ⟨⟨hdenotes, (haccepted _).mpr hdenotes⟩,
    ⟨hspelled', hlarge _ (by decide) _ hspelled' (by decide)⟩,
    ⟨hmalformed, ((hrefused _).mp hmalformed).2⟩, hevery _ (by decide) (-0x80000000)⟩

end Asm6502
