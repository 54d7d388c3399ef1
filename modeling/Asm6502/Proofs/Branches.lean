import Asm6502.Proofs.Emission

/-!
Branches reach what they aim at. The byte behind the opcode, read with its sign, leads from the
end of the branch to its target, for every branch of a successful assembly; and a branch is refused
exactly when no signed byte does.
-/

namespace Asm6502

/-! ## One branch -/

/-- A distance that is not `Far` is what its byte says with a sign. -/
theorem toInt8_lowByte {d : Int} (h : ¬Far d) : (lowByte d).toInt8.toInt = d := by
  unfold Far at h
  have hsigned : (lowByte d).toInt8 = Int8.ofNat (residue 0x100 d) := by simp [lowByte]
  rw [hsigned, Int8.toInt_ofNat', coe_residue (by decide)]
  change (d % ((0x100 : Nat) : Int)).bmod 0x100 = d
  rw [Int.emod_bmod]
  apply Int.bmod_eq_of_le_mul_two <;> omega

section Branch

variable {labels : LabelTable} {c : Nat} {i : Instruction} {code : UInt8} {v : Int}
  (hc : c ≤ Location.limit) (hcode : i.mnemonic.opcode? i.mode = some code)
  (hbranch : i.mnemonic.isBranch = true) (hv : i.operand.number? labels = some v)

include hc hcode hbranch hv

theorem Instruction.encode_branch_eq_ok {bs : List UInt8} :
    i.encode labels c = .ok bs ↔
      ¬Far (v - (c + 2)) ∧ bs = [code, lowByte (v - (c + 2))] := by
  have hopcode := Instruction.opcode_eq_ok.mpr hcode
  have hresolve := Operand.resolve_eq_ok.mpr hv
  simp only [Instruction.encode, hopcode, hresolve, bind_eq_ok, Except.ok.injEq, exists_eq_left',
    Mode.operandBytes_of_branch hcode hbranch, map_eq_ok,
    displacement_eq_ok hc (Operand.number?_bounds hv)]
  constructor
  · rintro ⟨operand, ⟨d, ⟨rfl, hnear⟩, rfl⟩, rfl⟩
    exact ⟨hnear, rfl⟩
  · rintro ⟨hnear, rfl⟩
    exact ⟨_, ⟨_, ⟨rfl, hnear⟩, rfl⟩, rfl⟩

theorem Instruction.encode_branch_eq_error {f : Fault} :
    i.encode labels c = .error f ↔
      Far (v - (c + 2)) ∧ f = .branchOutOfRange ((v - (c + 2)).bmod 0x100000000) := by
  rw [Instruction.encode_eq_error (Instruction.opcode_eq_ok.mpr hcode),
    ← distance_eq hc (Operand.number?_bounds hv)]
  constructor
  · rintro (⟨name, hlabel, hunknown, -⟩ | ⟨w, hw, -, hfar, hf⟩)
    · rw [hlabel] at hv
      simp [Operand.number?, LabelTable.address?, hunknown] at hv
    · rw [hv] at hw
      cases hw
      exact ⟨hfar, hf⟩
  · rintro ⟨hfar, hf⟩
    exact .inr ⟨v, hv, hbranch, hfar, hf⟩

end Branch

/-! ## All branches of an assembly -/

/-- The relative mode is all that a branch has. -/
theorem Mnemonic.exists_opcode_relative {m : Mnemonic} (h : m.isBranch = true) :
    ∃ code, m.opcode? .relative = some code := by
  have hsupports : m.supports .relative = true := by
    revert h
    cases m <;> decide
  exact Option.isSome_iff_exists.mp hsupports

/-- In a successful assembly every branch places its opcode and the byte that leads, with its sign,
from behind the branch to the target. At any location `encode` refuses a branch exactly if its
target is `Far`, and the distance is told as a signed 32-bit number. -/
theorem branch_round_trip :
    (∀ (config : Config) (source : Text) (a : Assembly),
      (Assembly.ofSource config source).result = .ok a →
      ∀ before l after i, SourceLine.listing source = before ++ l :: after →
        l.statement = .ok (some (.instruction i)) → i.mnemonic.isBranch = true →
        ∃ e e' code b target, Emission.run config a.labels before = (e, none) ∧
          Emission.line a.labels l e = (e', none) ∧
          i.mnemonic.opcode? .relative = some code ∧
          i.encode a.labels e.location = .ok [code, b] ∧
          e'.image = e.image.writeAll [(code, e.location), (b, e.location + 1)] ∧
          i.operand.resolve a.labels = .ok target ∧
          target = e.location + 2 + b.toInt8.toInt) ∧
    (∀ (labels : LabelTable) (m : Mnemonic) (operand : Operand) (address : Nat) (target : Int32),
      m.isBranch = true → address ≤ 0x10000 → operand.resolve labels = .ok target.toInt →
      ((∃ f, Instruction.encode labels address ⟨m, .relative, operand⟩ = .error f) ↔
        target.toInt - (address + 2) < -128 ∨ 127 < target.toInt - (address + 2)) ∧
      ∀ f, Instruction.encode labels address ⟨m, .relative, operand⟩ = .error f →
        f = .branchOutOfRange ((target.toInt - (address + 2)).bmod 0x100000000)) := by
  refine ⟨?_, ?_⟩
  · intro config source a h before l after i hsplit hstatement hbranch
    obtain ⟨survey, final, -, hemission, rfl⟩ := Assembly.ofLines_eq_ok.mp h
    rw [hsplit] at hemission
    obtain ⟨e, e', hbefore, hline, hcovers⟩ := Emission.run_split hemission
    obtain ⟨hnone, -⟩ | ⟨origin, horigin, -⟩ |
      ⟨statement, bytes, hsome, -, hencode, -, he'⟩ := Emission.line_eq_none hline
    · rw [hstatement] at hnone
      cases hnone
    · rw [hstatement] at horigin
      cases horigin
    rw [hstatement] at hsome
    cases hsome
    have hparts := hencode
    simp only [Statement.encode, Instruction.encode, bind_eq_ok] at hparts
    obtain ⟨code, hcode, target, htarget, -⟩ := hparts
    have hcode' := Instruction.opcode_eq_ok.mp hcode
    obtain ⟨hnear, rfl⟩ := (Instruction.encode_branch_eq_ok hcovers.fits hcode' hbranch
      (Operand.resolve_eq_ok.mp htarget)).mp hencode
    rw [(Mnemonic.relative_iff hcode').mpr hbranch] at hcode'
    refine ⟨e, e', code, _, target, hbefore, hline, hcode', hencode, ?_, htarget, ?_⟩
    · rw [he']
      exact Emission.image_foldl_put _ _
    · rw [toInt8_lowByte hnear]
      omega
  · intro labels m operand address target hbranch haddress htarget
    obtain ⟨code, hcode⟩ := Mnemonic.exists_opcode_relative hbranch
    have herror : ∀ f, Instruction.encode labels address ⟨m, .relative, operand⟩ = .error f ↔
        Far (target.toInt - (address + 2)) ∧
          f = .branchOutOfRange ((target.toInt - (address + 2)).bmod 0x100000000) := fun f =>
      Instruction.encode_branch_eq_error haddress hcode hbranch (Operand.resolve_eq_ok.mp htarget)
    refine ⟨?_, fun f hf => ((herror f).mp hf).2⟩
    constructor
    · rintro ⟨f, hf⟩
      exact ((herror f).mp hf).1
    · intro hfar
      exact ⟨_, (herror _).mpr ⟨hfar, rfl⟩⟩

/-- The farthest forward branch, and the distance of an impossible target, which wraps around. -/
theorem branch_round_trip_at_ends :
    let source := "loop: DEX\nBNE loop\nBEQ $84".toList
    let a : Assembly := ⟨⟨#[0xCA, 0xD0, 0xFD, 0xF0, 0x7F], 0⟩, ⟨[⟨"loop".toList, 0, 1⟩]⟩, 5⟩
    let far : Instruction := ⟨.bne, .relative, .value (-2147483648)⟩
    (Assembly.ofSource ⟨5, 0⟩ source).result = .ok a ∧
      (∃ (e : Emission) (b : UInt8) (target : Int),
        Emission.run ⟨5, 0⟩ a.labels ((SourceLine.listing source).take 2) = (e, none) ∧
        (Operand.value 0x84).resolve a.labels = .ok target ∧
        target = e.location + 2 + b.toInt8.toInt) ∧
      (∃ f, far.encode .empty 0x10000 = .error f) ∧
      ∀ f, far.encode .empty 0x10000 = .error f → f = .branchOutOfRange 2147418110 := by
  intro source a far
  have h : (Assembly.ofSource ⟨5, 0⟩ source).result = .ok a := by decide
  obtain ⟨hround, hrefused⟩ := branch_round_trip
  obtain ⟨e, e', code, b, target, he, -, -, -, -, htarget, hb⟩ := hround ⟨5, 0⟩ source a h
    ((SourceLine.listing source).take 2) ⟨3, none, some "BEQ".toList, "$84".toList⟩ []
    ⟨.beq, .relative, .value 0x84⟩ (by decide) (by decide) rfl
  obtain ⟨hfar, hf⟩ := hrefused .empty .bne (.value (-2147483648)) 0x10000 (-2147483648)
    rfl (by decide) rfl
  exact ⟨h, ⟨e, b, target, he, htarget, hb⟩, hfar.mpr (by decide), fun f hf' => hf f hf'⟩

end Asm6502
