import Asm6502.Image
import Asm6502.Proofs.Numerals
import Asm6502.Proofs.Result
import Asm6502.Rendering
import Asm6502.Text.Cut
import Mathlib.Data.List.Basic
import Mathlib.Data.Nat.Digits.Defs

/-!
Hex dumps show what was asked for. A reader of dumps, written down apart from the printer, finds in
the dump of a range every address of the range once, with the byte that the memory holds there, in
rows of sixteen; and nothing else is in the dump.
-/

namespace Asm6502

namespace Dump

/-! ## Reading a dump -/

def bytes? : Text → Option (List UInt8)
  | [] => some []
  | ' ' :: high :: low :: rest => do
    let value ← Text.natural? 16 [high, low]
    let bytes ← bytes? rest
    some (UInt8.ofNat value :: bytes)
  | _ => none

/-- The row of `$AAAA: BB BB`, with any number of bytes. -/
def row? (line : Text) : Option Row := do
  let body ← Text.dropFirst? '$' line
  let bytes ← Text.after? (· = ':') body
  let address ← Text.natural? 16 (Text.before (· = ':') body)
  let bytes ← bytes? bytes
  some ⟨address, bytes⟩

/-- The rows of a dump, one in each line; an empty text has no line. -/
def read? (t : Text) : Option (List Row) :=
  if t = [] then some [] else (t.splitOn '\n').mapM row?

/-- The bytes of a row, each with its address. -/
def Row.cells (r : Row) : List (UInt8 × Nat) :=
  r.bytes.zipIdx r.address

/-! ## Reading back rows -/

theorem exists_hex_byte (b : UInt8) : ∃ high low, Text.hex 2 b.toNat = [high, low] := by
  have hdigits : (Nat.toDigits 16 b.toNat).length ≤ 2 :=
    Nat.toDigits_length 16 b.toNat 2 (by decide) b.toNat_lt
  have hlength : (Text.hex 2 b.toNat).length = 2 := by
    rw [Text.hex, List.length_leftpad, List.length_map]
    omega
  exact List.length_eq_two.mp hlength

theorem bytes?_text (bytes : List UInt8) :
    bytes? (bytes.flatMap fun b => ' ' :: Text.hex 2 b.toNat) = some bytes := by
  induction bytes with
  | nil => rfl
  | cons b bytes ih =>
    obtain ⟨high, low, hhex⟩ := exists_hex_byte b
    have hvalue := Text.natural?_hex 2 b.toNat
    rw [hhex] at hvalue
    simp [List.flatMap_cons, hhex, bytes?, hvalue, ih]

theorem row?_text (r : Row) : row? r.text = some r := by
  have hdigit : ∀ c ∈ Text.hexDigits, decide (c = ':') = false := by decide
  have hcolon : ∀ c ∈ Text.hex 4 r.address, decide (c = ':') = false :=
    fun c hc => hdigit c (Text.mem_hex hc)
  have htext : r.text = '$' :: (Text.hex 4 r.address ++
      ':' :: r.bytes.flatMap fun b => ' ' :: Text.hex 2 b.toNat) := by
    simp [Row.text]
  rw [htext]
  simp only [row?, Text.dropFirst?_eq_some.mpr rfl, Option.bind_eq_bind, Option.bind_some,
    Text.before_append hcolon, Text.after?_append hcolon, Text.natural?_hex, bytes?_text,
    decide_true]

theorem newline_not_mem_text (r : Row) : '\n' ∉ r.text := by
  have hdigit : ∀ {width n : Nat}, '\n' ∉ Text.hex width n :=
    fun h => absurd (Text.mem_hex h) (by decide)
  simp [Row.text, hdigit]

theorem read?_text (rows : List Row) :
    read? (['\n'].intercalate (rows.map Row.text)) = some rows := by
  cases rows with
  | nil => rfl
  | cons r rest =>
    have hne : ['\n'].intercalate ((r :: rest).map Row.text) ≠ [] := by
      cases rest <;> simp [Row.text]
    have hlines : ∀ line ∈ (r :: rest).map Row.text, '\n' ∉ line := by
      intro line hline
      obtain ⟨row, -, rfl⟩ := List.mem_map.mp hline
      exact newline_not_mem_text row
    rw [read?, if_neg hne, List.splitOn_intercalate '\n' hlines (by simp)]
    exact mapM_map_eq_some fun row _ => row?_text row

/-! ## Cutting rows -/

theorem cutRows_eq_map (count address : Nat) (bytes : List UInt8) :
    cutRows count address bytes = (List.range count).map fun k =>
      ⟨address + 16 * k, (bytes.drop (16 * k)).take 16⟩ := by
  induction count generalizing address bytes with
  | zero => rfl
  | succ count ih =>
    rw [cutRows, ih, List.range_succ_eq_map, List.map_cons, List.map_map]
    congr 1
    apply List.map_congr_left
    intro k _
    have haddress : address + stride + 16 * k = address + 16 * (k + 1) := by
      unfold stride
      omega
    have hdrop : stride + 16 * k = 16 * (k + 1) := by
      unfold stride
      omega
    simp [haddress, List.drop_drop, hdrop]

/-- Cutting loses nothing if there are enough rows. -/
theorem flatMap_cells_cutRows {count : Nat} {bytes : List UInt8} (h : bytes.length ≤ 16 * count)
    (address : Nat) : (cutRows count address bytes).flatMap Row.cells = bytes.zipIdx address := by
  induction count generalizing address bytes with
  | zero =>
    obtain rfl : bytes = [] := List.eq_nil_of_length_eq_zero (by omega)
    rfl
  | succ count ih =>
    have hrest : (bytes.drop stride).length ≤ 16 * count := by
      rw [List.length_drop, stride]
      omega
    rw [cutRows, List.flatMap_cons, ih hrest]
    change (bytes.take stride).zipIdx address ++ (bytes.drop stride).zipIdx (address + stride) = _
    by_cases hfull : stride ≤ bytes.length
    · have happend : (bytes.take stride ++ bytes.drop stride).zipIdx address =
          (bytes.take stride).zipIdx address ++
            (bytes.drop stride).zipIdx (address + (bytes.take stride).length) := List.zipIdx_append
      rw [List.take_append_drop, List.length_take_of_le hfull] at happend
      exact happend.symm
    · have hshort : bytes.length ≤ stride := by omega
      rw [List.take_of_length_le hshort, List.drop_of_length_le hshort, List.zipIdx_nil,
        List.append_nil]

section Rows

variable {address : Nat} {bytes : List UInt8}

theorem flatMap_cells_rows : (rows address bytes).flatMap Row.cells = bytes.zipIdx address := by
  apply flatMap_cells_cutRows
  unfold stride
  omega

theorem flatMap_bytes_rows : (rows address bytes).flatMap Row.bytes = bytes := by
  have hcells := congrArg (List.map Prod.fst) (@flatMap_cells_rows address bytes)
  rw [List.zipIdx_map_fst, List.map_flatMap] at hcells
  simpa [Row.cells] using hcells

theorem length_rows : (rows address bytes).length = (bytes.length + 15) / 16 := by
  rw [rows, cutRows_eq_map, List.length_map, List.length_range]
  rfl

theorem getElem?_rows {k : Nat} {row : Row} (h : (rows address bytes)[k]? = some row) :
    16 * k < bytes.length ∧ row = ⟨address + 16 * k, (bytes.drop (16 * k)).take 16⟩ := by
  obtain ⟨hlt, -⟩ := List.getElem?_eq_some_iff.mp h
  rw [length_rows] at hlt
  rw [rows, cutRows_eq_map, List.getElem?_map, Option.map_eq_some_iff] at h
  obtain ⟨k', hk', rfl⟩ := h
  obtain ⟨hrange, rfl⟩ := List.getElem?_eq_some_iff.mp hk'
  rw [List.getElem_range]
  exact ⟨by omega, rfl⟩

end Rows

/-- Rows that list the cells of a memory from an address up to another: every address once, in
order, sixteen in each row but the last. -/
structure Lists (memory : List UInt8) (start stop : Nat) (rows : List Row) : Prop where
  addresses : (rows.flatMap Row.cells).map Prod.snd = List.range' start (stop - start)
  bytes : ∀ cell ∈ rows.flatMap Row.cells, memory[cell.2]? = some cell.1
  labels : ∀ k row, rows[k]? = some row → row.address = start + 16 * k
  full : ∀ k row, rows[k]? = some row → k + 1 < rows.length → row.bytes.length = 16
  filled : ∀ row ∈ rows, row.bytes ≠ [] ∧ row.bytes.length ≤ 16

section Range

variable (memory : List UInt8) (start length : Nat)

/-- The bytes from an address on, as many of those asked for as the memory has. -/
def clipped : List UInt8 :=
  (memory.take (start + length)).drop start

theorem length_clipped :
    (clipped memory start length).length = min (start + length) memory.length - start := by
  rw [clipped, List.length_drop, List.length_take]

theorem getElem?_clipped {k : Nat} {b : UInt8} (h : (clipped memory start length)[k]? = some b) :
    memory[start + k]? = some b := by
  rw [clipped, List.getElem?_drop, List.getElem?_take] at h
  split at h
  · exact h
  · cases h

theorem lists_rows :
    Lists memory start (min (start + length) memory.length)
      (rows start (clipped memory start length)) where
  addresses := by
    rw [flatMap_cells_rows, List.zipIdx_map_snd, length_clipped]
  bytes := by
    intro cell hcell
    rw [flatMap_cells_rows] at hcell
    obtain ⟨hle, hbyte⟩ := List.mem_zipIdx_iff_le_and_getElem?_sub.mp hcell
    have hplace : start + (cell.2 - start) = cell.2 := by omega
    rw [← hplace]
    exact getElem?_clipped memory start length hbyte
  labels := by
    intro k row hrow
    obtain ⟨-, rfl⟩ := getElem?_rows hrow
    rfl
  full := by
    intro k row hrow hlater
    rw [length_rows] at hlater
    obtain ⟨-, rfl⟩ := getElem?_rows hrow
    rw [List.length_take, List.length_drop]
    omega
  filled := by
    intro row hmem
    obtain ⟨k, hrow⟩ := List.mem_iff_getElem?.mp hmem
    obtain ⟨hlt, rfl⟩ := getElem?_rows hrow
    have hlength : (((clipped memory start length).drop (16 * k)).take 16).length =
        min 16 ((clipped memory start length).length - 16 * k) := by
      rw [List.length_take, List.length_drop]
    refine ⟨List.ne_nil_of_length_pos ?_, ?_⟩
    · rw [hlength]
      omega
    · rw [hlength]
      omega

/-- An end beyond the memory may be any other one beyond it. -/
theorem slice_eq_clipped {largest : Nat} (hlargest : memory.length ≤ largest) {image : Image}
    (himage : image.toList = memory) :
    image.slice start (min (start + length) largest) = clipped memory start length := by
  have hsame : min (min (start + length) largest - start) (memory.drop start).length =
      min length (memory.drop start).length := by
    rw [List.length_drop]
    omega
  unfold Image.toList at himage
  rw [Image.slice, Array.toList_extract, List.extract_eq_take_drop, himage, clipped,
    ← List.take_drop]
  exact List.take_eq_take_iff.mpr hsame

theorem read?_render :
    read? (render memory start length) = some (rows start (clipped memory start length)) :=
  read?_text _

theorem render_eq_nil_iff :
    render memory start length = [] ↔ min (start + length) memory.length ≤ start := by
  have hread := read?_render memory start length
  have hlength := length_clipped memory start length
  constructor
  · intro hnil
    rw [hnil] at hread
    have hrows : rows start (clipped memory start length) = [] := (Option.some.inj hread).symm
    have hnone := @length_rows start (clipped memory start length)
    rw [hrows, List.length_nil] at hnone
    omega
  · intro hle
    have hclipped : clipped memory start length = [] :=
      List.eq_nil_of_length_eq_zero (by omega)
    unfold clipped at hclipped
    rw [render, hclipped]
    rfl

end Range

end Dump

/-- What `render` writes for a range, `read?` reads back as rows that list the range as far as the
memory goes (`Lists`), one row in each line and no line feed behind the last, so the dump is empty
if the range is. The rows hold the same bytes as `Image.slice` of an image with these contents. A
sum that stops at `largest`, which the memory does not exceed, makes no difference. -/
theorem dump_lists_range (memory : List UInt8) (start length : Nat) {largest : Nat}
    (hlargest : memory.length ≤ largest) :
    let stop := min (start + length) largest
    ∃ lines rows,
      Dump.render memory start length = ['\n'].intercalate lines ∧
      (∀ line ∈ lines, line ≠ [] ∧ '\n' ∉ line) ∧
      lines.mapM Dump.row? = some rows ∧
      Dump.read? (Dump.render memory start length) = some rows ∧
      Dump.Lists memory start (min stop memory.length) rows ∧
      (Dump.render memory start length = [] ↔ min stop memory.length ≤ start) ∧
      ∀ image : Image, image.toList = memory →
        rows.flatMap Dump.Row.bytes = image.slice start stop := by
  intro stop
  have hstop : min stop memory.length = min (start + length) memory.length := by omega
  rw [hstop]
  refine ⟨_, _, rfl, ?_, mapM_map_eq_some fun row _ => Dump.row?_text row,
    Dump.read?_render memory start length, Dump.lists_rows memory start length,
    Dump.render_eq_nil_iff memory start length, ?_⟩
  · intro line hline
    obtain ⟨row, -, rfl⟩ := List.mem_map.mp hline
    exact ⟨by simp [Dump.Row.text], Dump.newline_not_mem_text row⟩
  · intro image himage
    rw [Dump.flatMap_bytes_rows]
    exact (Dump.slice_eq_clipped memory start length hlargest himage).symm

/-- A range from inside of the first row up to the largest number of 64 bits. -/
theorem dump_lists_range_up_to_end :
    let memory : List UInt8 := List.replicate 17 0xEA ++ [0x07]
    let image : Image := ⟨memory.toArray, 0⟩
    memory.length ≤ 0xFFFFFFFFFFFFFFFF ∧ image.toList = memory ∧
      ∃ rows, Dump.read? (Dump.render memory 1 0xFFFFFFFFFFFFFFFF) = some rows ∧
        Dump.Lists memory 1 18 rows ∧
        rows.flatMap Dump.Row.bytes = image.slice 1 0xFFFFFFFFFFFFFFFF := by
  intro memory image
  have hlargest : memory.length ≤ 0xFFFFFFFFFFFFFFFF := by decide
  have himage : image.toList = memory := rfl
  obtain ⟨lines, rows, -, -, -, hread, hlists, -, hslice⟩ :=
    dump_lists_range memory 1 0xFFFFFFFFFFFFFFFF hlargest
  exact ⟨hlargest, himage, rows, hread, hlists, hslice image himage⟩

end Asm6502
