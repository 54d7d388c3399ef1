import Asm6502.Encoding
import Asm6502.Labels
import Asm6502.Proofs.Result

/-!
Machine code by its rules, stated apart from the encoder: an opcode, then for a branch one byte
with the distance to its target, otherwise the low bytes of the operand. Inside the address space
the encoder gives what the rules say, and it refuses a statement whose opcode is known only for an
unknown name or for a branch that reaches too far.
-/

namespace Asm6502

/-! ## The rules -/

/-- The low bytes of a number, the lowest first. -/
def lowBytes : Nat → Int → List UInt8
  | 0, _ => []
  | count + 1, v => UInt8.ofNat (v % 0x100).toNat :: lowBytes count (v / 0x100)

def Operand.number? (labels : LabelTable) : Operand → Option Int
  | implied => some 0
  | value v => some v.toInt
  | label name => (labels.address? name).map fun address => (address.toNat : Int)

def Instruction.code? (labels : LabelTable) (c : Location) (i : Instruction) :
    Option (List UInt8) := do
  let opcode ← i.mnemonic.opcode? i.mode
  let v ← i.operand.number? labels
  if i.mnemonic.isBranch then some [opcode, UInt8.ofNat ((v - (c + 2)) % 0x100).toNat]
  else some (opcode :: lowBytes i.mode.operandSize v)

def Statement.code? (labels : LabelTable) (c : Location) : Statement → Option (List UInt8)
  | instruction i => i.code? labels c
  | origin _ => some []
  | bytes values => some (values.map fun v => UInt8.ofNat (v.toInt % 0x100).toNat)
  | words entries => do
    let vs ← entries.mapM (Operand.number? labels)
    some (vs.flatMap (lowBytes 2))

def Operand.name? : Operand → Option Text
  | label name => some name
  | implied | value _ => none

/-- The names that a statement mentions, in order. -/
def Statement.names : Statement → List Text
  | instruction i => i.operand.name?.toList
  | words entries => entries.filterMap Operand.name?
  | origin _ | bytes _ => []

/-- Out of the reach of a branch, which is a signed byte. -/
def Far (distance : Int) : Prop :=
  distance < -128 ∨ 127 < distance

/-! ## Opcodes -/

theorem Mnemonic.mem_all (m : Mnemonic) : m ∈ Mnemonic.all := by
  cases m <;> decide

theorem Mnemonic.mem_opcodes {m : Mnemonic} {mode : Mode} {code : UInt8}
    (h : m.opcode? mode = some code) : (mode, code) ∈ m.opcodes := by
  obtain ⟨before, after, hopcodes, -⟩ := List.lookup_eq_some_iff.mp h
  rw [hopcodes]
  simp

/-- The branches are the mnemonics with the relative mode, and have no other. -/
theorem Mnemonic.relative_iff {m : Mnemonic} {mode : Mode} {code : UInt8}
    (h : m.opcode? mode = some code) : mode = .relative ↔ m.isBranch = true := by
  have hall : ∀ p ∈ m.opcodes, p.1 = .relative ↔ m.isBranch = true := by
    cases m <;> decide
  exact hall _ (mem_opcodes h)

theorem Instruction.opcode_eq_ok {i : Instruction} {code : UInt8} :
    i.opcode = .ok code ↔ i.mnemonic.opcode? i.mode = some code := by
  unfold Instruction.opcode
  split <;> simp_all

/-! ## Operands -/

namespace Operand

variable {labels : LabelTable} {o : Operand} {v : Int}

theorem resolve_eq_ok : o.resolve labels = .ok v ↔ o.number? labels = some v := by
  cases o with
  | implied => simp [resolve, number?]
  | value w => simp [resolve, number?]
  | label name =>
    unfold resolve number?
    cases haddress : labels.address? name with
    | none => simp [haddress]
    | some address => simp [haddress]

theorem resolve_eq_error {f : Fault} :
    o.resolve labels = .error f ↔
      ∃ name, o = .label name ∧ labels.find? name = none ∧ f = .unknownLabel name := by
  cases o with
  | implied => simp [resolve]
  | value w => simp [resolve]
  | label name =>
    unfold resolve LabelTable.address?
    cases hfind : labels.find? name with
    | none => simp [hfind, eq_comm]
    | some l => simp [hfind]

theorem number?_bounds (h : o.number? labels = some v) : -0x80000000 ≤ v ∧ v ≤ 0x7FFFFFFF := by
  cases o with
  | implied =>
    cases h
    decide
  | value w =>
    cases h
    have hlow := w.le_toInt
    have hhigh := w.toInt_lt
    omega
  | label name =>
    obtain ⟨address, -, rfl⟩ := Option.map_eq_some_iff.mp h
    have haddress := address.toNat_lt
    omega

end Operand

/-! ## Branches -/

/-- A distance is taken as it is if it is within reach. -/
theorem displacement_eq_ok_iff {c size : Nat} {v d : Int} :
    displacement c size v = .ok d ↔ d = distance c size v ∧ ¬Far d := by
  unfold displacement Far
  dsimp only
  split
  · rename_i hnear
    simp only [Except.ok.injEq]
    omega
  · simp only [reduceCtorEq, false_iff]
    omega

theorem displacement_eq_error {c size : Nat} {v : Int} {f : Fault} :
    displacement c size v = .error f ↔
      Far (distance c size v) ∧
        f = .branchOutOfRange ((distance c size v).bmod 0x100000000) := by
  unfold displacement Far
  dsimp only
  split
  · simp only [reduceCtorEq, false_iff]
    omega
  · rename_i hfar
    have hfar' : distance c size v < -128 ∨ 127 < distance c size v := by omega
    simp [hfar', eq_comm]

theorem displacement_of_near {c : Nat} {v : Int} (h : ¬Far (v - (c + 2))) :
    displacement c 2 v = .ok (v - (c + 2)) := by
  have hdistance : v - (c + 2) = distance c 2 v := by
    unfold Far at h
    unfold distance
    symm
    apply Int.bmod_eq_of_le_mul_two <;> omega
  exact displacement_eq_ok_iff.mpr ⟨hdistance, h⟩

section Reach

variable {c : Nat} {v : Int} (hc : c ≤ Location.limit)
  (hv : -0x80000000 ≤ v ∧ v ≤ 0x7FFFFFFF)

include hc hv

theorem distance_eq : distance c 2 v = v - (c + 2) := by
  unfold Location.limit at hc
  unfold distance
  -- far from the ends of 64 bits
  apply Int.bmod_eq_of_le_mul_two <;> omega

theorem displacement_eq_ok {d : Int} :
    displacement c 2 v = .ok d ↔ d = v - (c + 2) ∧ ¬Far (v - (c + 2)) := by
  rw [displacement_eq_ok_iff, distance_eq hc hv]
  exact and_congr_right fun hd => by rw [hd]

end Reach

/-! ## The encoder -/

namespace Mode

variable {m : Mnemonic} {mode : Mode} {code : UInt8}

theorem operandBytes_of_branch (hcode : m.opcode? mode = some code) (hbranch : m.isBranch = true)
    (c : Nat) (v : Int) :
    mode.operandBytes c v = (displacement c 2 v).map fun d => [lowByte d] := by
  have hmode : mode = .relative := (Mnemonic.relative_iff hcode).mpr hbranch
  subst hmode
  rfl

theorem operandBytes_of_not_branch (hcode : m.opcode? mode = some code)
    (hbranch : m.isBranch = false) (c : Nat) (v : Int) :
    mode.operandBytes c v = .ok (lowBytes mode.operandSize v) := by
  have hmode : mode ≠ .relative := by
    intro hmode
    have htrue := (Mnemonic.relative_iff hcode).mp hmode
    rw [hbranch] at htrue
    cases htrue
  unfold operandBytes
  rw [if_neg hmode]
  cases mode <;> rfl

end Mode

section Encoder

variable {labels : LabelTable} {c : Nat}

theorem Instruction.encode_eq_ok_iff {i : Instruction} {bs : List UInt8} :
    i.encode labels c = .ok bs ↔
      ∃ code v operand, i.mnemonic.opcode? i.mode = some code ∧
        i.operand.resolve labels = .ok v ∧ i.mode.operandBytes c v = .ok operand ∧
        bs = code :: operand := by
  simp only [Instruction.encode, bind_eq_ok, Instruction.opcode_eq_ok, Except.ok.injEq, @eq_comm _ bs]
  constructor
  · rintro ⟨code, hcode, v, hv, operand, hoperand, hbs⟩
    exact ⟨code, v, operand, hcode, hv, hoperand, hbs⟩
  · rintro ⟨code, v, operand, hcode, hv, hoperand, hbs⟩
    exact ⟨code, hcode, v, hv, operand, hoperand, hbs⟩

theorem Instruction.encode_of_not_branch {i : Instruction} {code : UInt8} {v : Int}
    (hcode : i.mnemonic.opcode? i.mode = some code) (hbranch : i.mnemonic.isBranch = false)
    (hv : i.operand.number? labels = some v) :
    i.encode labels c = .ok (code :: lowBytes i.mode.operandSize v) := by
  have hresolve := Operand.resolve_eq_ok.mpr hv
  have hoperand := Mode.operandBytes_of_not_branch hcode hbranch c v
  exact Instruction.encode_eq_ok_iff.mpr ⟨code, v, _, hcode, hresolve, hoperand, rfl⟩

/-- A branch within reach is encoded at any address. -/
theorem Instruction.encode_of_near {i : Instruction} {code : UInt8} {v : Int}
    (hcode : i.mnemonic.opcode? i.mode = some code) (hbranch : i.mnemonic.isBranch = true)
    (hv : i.operand.number? labels = some v) (hnear : ¬Far (v - (c + 2))) :
    i.encode labels c = .ok [code, lowByte (v - (c + 2))] := by
  have hresolve := Operand.resolve_eq_ok.mpr hv
  have hoperand : i.mode.operandBytes c v = .ok [lowByte (v - (c + 2))] := by
    rw [Mode.operandBytes_of_branch hcode hbranch, displacement_of_near hnear]
    rfl
  exact Instruction.encode_eq_ok_iff.mpr ⟨code, v, _, hcode, hresolve, hoperand, rfl⟩

theorem Instruction.encode_eq_ok {i : Instruction} {bs : List UInt8} (hc : c ≤ Location.limit)
    (h : i.encode labels c = .ok bs) : i.code? labels c = some bs := by
  obtain ⟨code, v, operand, hcode, hv, hoperand, rfl⟩ := Instruction.encode_eq_ok_iff.mp h
  have hv' := Operand.resolve_eq_ok.mp hv
  cases hbranch : i.mnemonic.isBranch with
  | false =>
    rw [Mode.operandBytes_of_not_branch hcode hbranch] at hoperand
    cases hoperand
    simp [Instruction.code?, hcode, hv', hbranch]
  | true =>
    rw [Mode.operandBytes_of_branch hcode hbranch, map_eq_ok] at hoperand
    obtain ⟨d, hd, rfl⟩ := hoperand
    obtain ⟨rfl, -⟩ := (displacement_eq_ok hc (Operand.number?_bounds hv')).mp hd
    simp [Instruction.code?, hcode, hv', hbranch, lowByte_eq]

theorem Instruction.encode_eq_error {i : Instruction} {code : UInt8} {f : Fault}
    (hcode : i.opcode = .ok code) :
    i.encode labels c = .error f ↔
      (∃ name, i.operand = .label name ∧ labels.find? name = none ∧ f = .unknownLabel name) ∨
        ∃ v, i.operand.number? labels = some v ∧ i.mnemonic.isBranch = true ∧
          Far (distance c 2 v) ∧
          f = .branchOutOfRange ((distance c 2 v).bmod 0x100000000) := by
  have hcode' := Instruction.opcode_eq_ok.mp hcode
  simp only [Instruction.encode, hcode, bind_eq_error, reduceCtorEq, Except.ok.injEq, false_or,
    exists_eq_left', Operand.resolve_eq_error, Operand.resolve_eq_ok, and_false, exists_false,
    or_false]
  apply or_congr Iff.rfl
  apply exists_congr
  intro v
  apply and_congr_right
  intro hv
  cases hbranch : i.mnemonic.isBranch with
  | false => simp [Mode.operandBytes_of_not_branch hcode' hbranch]
  | true =>
    rw [Mode.operandBytes_of_branch hcode' hbranch, map_eq_error, displacement_eq_error]
    simp

theorem Statement.encode_eq_ok {statement : Statement} {bs : List UInt8} (hc : c ≤ Location.limit)
    (h : statement.encode labels c = .ok bs) : statement.code? labels c = some bs := by
  cases statement with
  | instruction i => exact Instruction.encode_eq_ok hc h
  | origin address =>
    cases h
    rfl
  | bytes values =>
    cases h
    rfl
  | words entries =>
    simp only [Statement.encode, map_eq_ok] at h
    obtain ⟨vs, hvs, rfl⟩ := h
    have hnumbers : entries.mapM (Operand.number? labels) = some vs :=
      mapM_option_of_ok (fun _ _ => Operand.resolve_eq_ok.mp) hvs
    simp only [Statement.code?, hnumbers]
    rfl

/-- Each entry of a list of words is encoded on its own. -/
theorem Statement.encode_words_append (es fs : List Operand) :
    (words (es ++ fs)).encode labels c = do
      let xs ← (words es).encode labels c
      let ys ← (words fs).encode labels c
      return xs ++ ys := by
  simp only [encode, List.mapM_append]
  rcases es.mapM (Operand.resolve labels) with f | xs
  · rfl
  rcases fs.mapM (Operand.resolve labels) with f | ys
  · rfl
  change Except.ok ((xs ++ ys).flatMap littleEndian) = _
  rw [List.flatMap_append]
  rfl

theorem length_flatMap_littleEndian (vs : List Int) :
    (vs.flatMap littleEndian).length = 2 * vs.length := by
  induction vs with
  | nil => rfl
  | cons v vs ih =>
    rw [List.flatMap_cons, List.length_append, ih, List.length_cons]
    have htwo : (littleEndian v).length = 2 := rfl
    omega

/-- A statement takes its `size`, which is known before any label is. -/
theorem Statement.length_encode {statement : Statement} {bs : List UInt8}
    (h : statement.encode labels c = .ok bs) : bs.length = statement.size := by
  cases statement with
  | instruction i => exact Instruction.length_encode h
  | origin address =>
    cases h
    rfl
  | bytes values =>
    cases h
    simp [Statement.size]
  | words entries =>
    simp only [Statement.encode, map_eq_ok] at h
    obtain ⟨vs, hvs, rfl⟩ := h
    rw [length_flatMap_littleEndian, length_mapM hvs]
    rfl

theorem Operand.name?_eq_some {o : Operand} {name : Text} :
    o.name? = some name ↔ o = .label name := by
  cases o <;> simp [Operand.name?]

theorem find?_toList_eq_some {α : Type} {o : Option α} {p : α → Bool} {a : α} :
    o.toList.find? p = some a ↔ o = some a ∧ p a = true := by
  cases o with
  | none => simp
  | some b =>
    by_cases hb : p b = true
    · simp only [Option.toList_some, List.find?_singleton, hb, if_true, Option.some.injEq]
      exact ⟨fun h => ⟨h, h ▸ hb⟩, fun h => h.1⟩
    · simp only [Option.toList_some, List.find?_singleton, hb, if_false, reduceCtorEq,
        Option.some.injEq, false_iff]
      rintro ⟨rfl, ha⟩
      exact hb ha

theorem mapM_resolve_eq_error {entries : List Operand} {f : Fault} :
    entries.mapM (Operand.resolve labels) = .error f ↔
      ∃ name, (entries.filterMap Operand.name?).find? (fun name => labels.find? name = none) =
        some name ∧ f = .unknownLabel name := by
  induction entries with
  | nil => simp [pure, Except.pure]
  | cons o entries ih =>
    rw [mapM_cons_eq_error, ih, List.filterMap_cons, Operand.resolve_eq_error]
    cases o with
    | implied => simp [Operand.name?, Operand.resolve]
    | value v => simp [Operand.name?, Operand.resolve]
    | label name =>
      cases hfind : labels.find? name with
      | none => simp [Operand.name?, Operand.resolve, LabelTable.address?, hfind]
      | some l => simp [Operand.name?, Operand.resolve, LabelTable.address?, hfind]

/-- A statement with a known opcode is refused for the first of its `names` that is unknown, or for
a branch that is `Far`. -/
theorem Statement.encode_eq_error {statement : Statement} {f : Fault}
    (hopcode : ∀ i, statement = .instruction i → ∃ code, i.opcode = .ok code) :
    statement.encode labels c = .error f ↔
      (∃ name, statement.names.find? (fun name => labels.find? name = none) = some name ∧
        f = .unknownLabel name) ∨
      ∃ i v, statement = .instruction i ∧ i.operand.number? labels = some v ∧
        i.mnemonic.isBranch = true ∧ Far (distance c 2 v) ∧
        f = .branchOutOfRange ((distance c 2 v).bmod 0x100000000) := by
  cases statement with
  | instruction i =>
    obtain ⟨code, hcode⟩ := hopcode i rfl
    have hname : ∀ name, i.operand = .label name ∧ labels.find? name = none ↔
        i.operand.name?.toList.find? (fun name => labels.find? name = none) = some name := by
      intro name
      rw [find?_toList_eq_some, Operand.name?_eq_some, decide_eq_true_iff]
    rw [Statement.encode, Instruction.encode_eq_error hcode]
    simp [Statement.names, ← hname, and_assoc]
  | origin address => simp [Statement.encode, Statement.names]
  | bytes values => simp [Statement.encode, Statement.names]
  | words entries => simp [Statement.encode, Statement.names, map_eq_error, mapM_resolve_eq_error]

/-! ## Tables that agree -/

section Agreement

variable {labels' : LabelTable}

theorem Operand.resolve_congr {o : Operand}
    (h : ∀ name, o.name? = some name → labels.address? name = labels'.address? name) :
    o.resolve labels = o.resolve labels' := by
  cases o with
  | implied => rfl
  | value v => rfl
  | label name => rw [resolve, resolve, h name rfl]

theorem Operand.number?_congr {o : Operand}
    (h : ∀ name, o.name? = some name → labels.address? name = labels'.address? name) :
    o.number? labels = o.number? labels' := by
  cases o with
  | implied => rfl
  | value v => rfl
  | label name => rw [number?, number?, h name rfl]

/-- Only the `names` of a statement are looked up. -/
theorem Statement.encode_congr {statement : Statement}
    (h : ∀ name ∈ statement.names, labels.address? name = labels'.address? name) (c : Nat) :
    statement.encode labels c = statement.encode labels' c := by
  cases statement with
  | instruction i =>
    have hoperand : i.operand.resolve labels = i.operand.resolve labels' :=
      Operand.resolve_congr fun name hname => h name (by simp [names, hname])
    rw [encode, encode, Instruction.encode, Instruction.encode, hoperand]
  | origin address => rfl
  | bytes values => rfl
  | words entries =>
    have hentries : entries.mapM (Operand.resolve labels) =
        entries.mapM (Operand.resolve labels') :=
      mapM_congr fun o ho => Operand.resolve_congr fun name hname =>
        h name (List.mem_filterMap.mpr ⟨o, ho, hname⟩)
    rw [encode, encode, hentries]

theorem Statement.code?_congr {statement : Statement}
    (h : ∀ name ∈ statement.names, labels.address? name = labels'.address? name) (c : Location) :
    statement.code? labels c = statement.code? labels' c := by
  cases statement with
  | instruction i =>
    have hoperand : i.operand.number? labels = i.operand.number? labels' :=
      Operand.number?_congr fun name hname => h name (by simp [names, hname])
    rw [code?, code?, Instruction.code?, Instruction.code?, hoperand]
  | origin address => rfl
  | bytes values => rfl
  | words entries =>
    have hentries : entries.mapM (Operand.number? labels) =
        entries.mapM (Operand.number? labels') :=
      mapM_congr fun o ho => Operand.number?_congr fun name hname =>
        h name (List.mem_filterMap.mpr ⟨o, ho, hname⟩)
    rw [code?, code?, hentries]

end Agreement

end Encoder

end Asm6502
