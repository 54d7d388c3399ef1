import Asm6502.Proofs.Branches
import Asm6502.Proofs.Narrowing
import Mathlib.Data.Int.ModEq
import Mathlib.Data.List.Forall2
import Mathlib.Data.List.Nodup

/-!
Machine code can be read in one way only. No two documented instructions share an opcode, and the
opcode tells how many bytes follow it, so a stream of bytes falls into instructions without any
mark between them. What the bytes do not tell is the part of an operand beyond its bytes.
-/

namespace Asm6502

/-! ## Opcodes -/

theorem nodup_opcodes : (instructionSet.map fun entry => entry.2.2.toNat).Nodup := by
  decide +kernel

theorem Mnemonic.mem_instructionSet {m : Mnemonic} {mode : Mode} {code : UInt8}
    (h : m.opcode? mode = some code) : (m, mode, code) ∈ instructionSet :=
  List.mem_flatMap.mpr ⟨m, m.mem_all, List.mem_map.mpr ⟨(mode, code), mem_opcodes h, rfl⟩⟩

/-- An opcode belongs to one mnemonic in one mode. -/
theorem Mnemonic.opcode?_inj {m m' : Mnemonic} {mode mode' : Mode} {code : UInt8}
    (h : m.opcode? mode = some code) (h' : m'.opcode? mode' = some code) :
    m = m' ∧ mode = mode' := by
  have hentry : (m, mode, code) = (m', mode', code) :=
    List.inj_on_of_nodup_map nodup_opcodes (mem_instructionSet h) (mem_instructionSet h') rfl
  simp only [Prod.mk.injEq, and_true] at hentry
  exact hentry

/-! ## Operand bytes -/

theorem lowByte_eq_iff {v w : Int} : lowByte v = lowByte w ↔ v % 0x100 = w % 0x100 := by
  refine ⟨?_, lowByte_congr⟩
  intro h
  rw [← toNat_lowByte, ← toNat_lowByte, h]

theorem take_littleEndian_eq_iff {v w : Int} {size : Nat} (hsize : size ≤ 2) :
    (littleEndian v).take size = (littleEndian w).take size ↔ v ≡ w [ZMOD 256 ^ size] := by
  unfold Int.ModEq
  obtain rfl | rfl | rfl : size = 0 ∨ size = 1 ∨ size = 2 := by omega
  · simp
  · simp [littleEndian, lowByte_eq_iff]
  · simp only [littleEndian, List.take_succ_cons, List.take_zero, List.cons.injEq, and_true,
      lowByte_eq_iff]
    omega

/-- The distance to a target tells the target among all 32-bit numbers. -/
theorem distance_inj {c size : Nat} {v w : Int} (hv : -0x80000000 ≤ v ∧ v ≤ 0x7FFFFFFF)
    (hw : -0x80000000 ≤ w ∧ w ≤ 0x7FFFFFFF) : distance c size v = distance c size w ↔ v = w := by
  refine ⟨?_, fun h => h ▸ rfl⟩
  intro h
  have hmod : distance c size v % (0x10000000000000000 : Nat) =
      distance c size w % (0x10000000000000000 : Nat) := by rw [h]
  unfold distance at hmod
  rw [Int.bmod_emod, Int.bmod_emod] at hmod
  omega

theorem Mode.operandSize_le (mode : Mode) : mode.operandSize ≤ 2 := by
  cases mode <;> decide

/-- Operand bytes tell the operand up to its size, and the target of a branch as a whole. -/
theorem Mode.operandBytes_eq_iff {mode : Mode} {c : Nat} {v w : Int} {bs cs : List UInt8}
    (hv : -0x80000000 ≤ v ∧ v ≤ 0x7FFFFFFF) (hw : -0x80000000 ≤ w ∧ w ≤ 0x7FFFFFFF)
    (hbs : mode.operandBytes c v = .ok bs) (hcs : mode.operandBytes c w = .ok cs) :
    bs = cs ↔ v ≡ w [ZMOD 256 ^ mode.operandSize] ∧ (mode = .relative → v = w) := by
  unfold operandBytes at hbs hcs
  by_cases hmode : mode = .relative
  · rw [if_pos hmode, map_eq_ok] at hbs hcs
    obtain ⟨d, hd, rfl⟩ := hbs
    obtain ⟨d', hd', rfl⟩ := hcs
    obtain ⟨hdistance, hnear⟩ := displacement_eq_ok_iff.mp hd
    obtain ⟨hdistance', hnear'⟩ := displacement_eq_ok_iff.mp hd'
    have htarget : d = d' ↔ v = w := by
      rw [hdistance, hdistance']
      exact distance_inj hv hw
    have hbyte : lowByte d = lowByte d' ↔ v = w := by
      rw [← htarget]
      refine ⟨fun h => ?_, fun h => h ▸ rfl⟩
      rw [← toInt8_lowByte hnear, ← toInt8_lowByte hnear', h]
    simp only [List.cons.injEq, and_true, hbyte, hmode, forall_const]
    exact ⟨fun h => ⟨h ▸ Int.ModEq.refl v, h⟩, fun h => h.2⟩
  · rw [if_neg hmode] at hbs hcs
    cases hbs
    cases hcs
    rw [take_littleEndian_eq_iff mode.operandSize_le]
    simp [hmode]

/-! ## One instruction -/

namespace Instruction

/-- Two instructions, each under its labels, that a machine cannot tell apart. -/
structure SameCode (labels labels' : LabelTable) (i j : Instruction) : Prop where
  mnemonic : i.mnemonic = j.mnemonic
  mode : i.mode = j.mode
  operand : ∃ v w, i.operand.resolve labels = .ok v ∧ j.operand.resolve labels' = .ok w ∧
    v ≡ w [ZMOD 256 ^ i.mode.operandSize] ∧ (i.mode = .relative → v = w)

variable {labels labels' : LabelTable} {address : Nat} {i j : Instruction} {bs cs : List UInt8}

/-- Where one instruction ends does not depend on what stands behind it. -/
theorem encode_append_inj {rest rest' : List UInt8} (hi : i.encode labels address = .ok bs)
    (hj : j.encode labels' address = .ok cs) :
    bs ++ rest = cs ++ rest' ↔ SameCode labels labels' i j ∧ rest = rest' := by
  have hlength := length_encode hi
  have hlength' := length_encode hj
  obtain ⟨code, v, operand, hcode, hv, hoperand, rfl⟩ := encode_eq_ok_iff.mp hi
  obtain ⟨code', w, operand', hcode', hw, hoperand', rfl⟩ := encode_eq_ok_iff.mp hj
  have hvbounds := Operand.number?_bounds (Operand.resolve_eq_ok.mp hv)
  have hwbounds := Operand.number?_bounds (Operand.resolve_eq_ok.mp hw)
  constructor
  · intro h
    obtain ⟨rfl, -⟩ := List.cons.inj h
    obtain ⟨hmnemonic, hmode⟩ := Mnemonic.opcode?_inj hcode hcode'
    rw [size, hmode, ← size, ← hlength'] at hlength
    obtain ⟨hbytes, hrest⟩ := List.append_inj h hlength
    have hoperands : operand = operand' := (List.cons.inj hbytes).2
    rw [← hmode] at hoperand'
    have hsame := (Mode.operandBytes_eq_iff hvbounds hwbounds hoperand hoperand').mp hoperands
    exact ⟨⟨hmnemonic, hmode, v, w, hv, hw, hsame⟩, hrest⟩
  · rintro ⟨⟨hmnemonic, hmode, v', w', hv', hw', hsame⟩, rfl⟩
    rw [hv] at hv'
    rw [hw] at hw'
    cases hv'
    cases hw'
    rw [hmnemonic, hmode, hcode'] at hcode
    rw [← hmode] at hoperand'
    cases hcode
    rw [(Mode.operandBytes_eq_iff hvbounds hwbounds hoperand hoperand').mpr hsame]

/-! ## Streams of instructions -/

def encodeAll (labels : LabelTable) : Nat → List Instruction → Except Fault (List UInt8)
  | _, [] => .ok []
  | address, i :: is => do
    let bytes ← i.encode labels address
    let rest ← encodeAll labels (address + bytes.length) is
    .ok (bytes ++ rest)

theorem encodeAll_cons_eq_ok {is : List Instruction} {bytes : List UInt8} :
    encodeAll labels address (i :: is) = .ok bytes ↔
      ∃ bs rest, i.encode labels address = .ok bs ∧
        encodeAll labels (address + i.size) is = .ok rest ∧ bytes = bs ++ rest := by
  simp only [encodeAll, bind_eq_ok, Except.ok.injEq, @eq_comm _ bytes]
  constructor
  · rintro ⟨bs, hbs, rest, hrest, hbytes⟩
    rw [length_encode hbs] at hrest
    exact ⟨bs, rest, hbs, hrest, hbytes⟩
  · rintro ⟨bs, rest, hbs, hrest, hbytes⟩
    rw [← length_encode hbs] at hrest
    exact ⟨bs, hbs, rest, hrest, hbytes⟩

theorem encode_ne_nil (h : i.encode labels address = .ok bs) : bs ≠ [] := by
  obtain ⟨code, v, operand, -, -, -, rfl⟩ := encode_eq_ok_iff.mp h
  simp

end Instruction

/-- Two streams of instructions from one address, each under labels of its own, give the same bytes
under `encodeAll` exactly if they have as many instructions and those at each place have the
`SameCode`: the same mnemonic, the same mode and operands with the same low bytes, which for a
branch means the same target. -/
theorem machine_code_decodable (labels labels' : LabelTable) (address : Nat)
    (is js : List Instruction) (bytes bytes' : List UInt8)
    (hi : Instruction.encodeAll labels address is = .ok bytes)
    (hj : Instruction.encodeAll labels' address js = .ok bytes') :
    bytes = bytes' ↔ List.Forall₂ (Instruction.SameCode labels labels') is js := by
  -- both streams are cut at the same places, since the first instructions have the same size
  induction is generalizing js address bytes bytes' with
  | nil =>
    cases hi
    cases js with
    | nil =>
      cases hj
      simp
    | cons j js =>
      obtain ⟨cs, rest', hcs, -, rfl⟩ := Instruction.encodeAll_cons_eq_ok.mp hj
      have hne := Instruction.encode_ne_nil hcs
      simp [hne]
  | cons i is ih =>
    obtain ⟨bs, rest, hbs, hrest, rfl⟩ := Instruction.encodeAll_cons_eq_ok.mp hi
    cases js with
    | nil =>
      cases hj
      have hne := Instruction.encode_ne_nil hbs
      simp [hne]
    | cons j js =>
      obtain ⟨cs, rest', hcs, hrest', rfl⟩ := Instruction.encodeAll_cons_eq_ok.mp hj
      rw [Instruction.encode_append_inj hbs hcs, List.forall₂_cons]
      apply and_congr_right
      intro hsame
      have hsize : i.size = j.size := congrArg Mode.instructionSize hsame.mode
      rw [← hsize] at hrest'
      exact ih (address + i.size) js rest rest' hrest hrest'

/-- Operands with other high bytes, and a branch to a name and to its address. -/
theorem machine_code_decodable_of_aliases :
    let labels : LabelTable := ⟨[⟨"here".toList, 0x1004, 1⟩]⟩
    let is : List Instruction := [⟨.lda, .immediate, .value 0x1FF⟩,
      ⟨.bne, .relative, .label "here".toList⟩, ⟨.jmp, .absolute, .label "here".toList⟩]
    let js : List Instruction := [⟨.lda, .immediate, .value (-1)⟩,
      ⟨.bne, .relative, .value 0x1004⟩, ⟨.jmp, .absolute, .value 0x31004⟩]
    let bytes : List UInt8 := [0xA9, 0xFF, 0xD0, 0x00, 0x4C, 0x04, 0x10]
    Instruction.encodeAll labels 0x1000 is = .ok bytes ∧
      Instruction.encodeAll .empty 0x1000 js = .ok bytes ∧
      List.Forall₂ (Instruction.SameCode labels .empty) is js := by
  intro labels is js bytes
  have hi : Instruction.encodeAll labels 0x1000 is = .ok bytes := by decide
  have hj : Instruction.encodeAll .empty 0x1000 js = .ok bytes := by decide
  exact ⟨hi, hj, (machine_code_decodable labels .empty 0x1000 is js bytes bytes hi hj).mp rfl⟩

end Asm6502
