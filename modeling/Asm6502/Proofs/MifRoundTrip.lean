import Asm6502.Proofs.ImageContents
import Asm6502.Proofs.Numerals
import Asm6502.Proofs.Result
import Asm6502.Proofs.Runs
import Asm6502.Rendering

/-!
Memory initialization files say what the memory holds. A reader of the format, written down apart
from the printer, finds in the file of a memory its depth and every cell once, in ascending order;
so different memories have different files.
-/

namespace Asm6502

/-! ## Reading a file -/

namespace Mif

/-- What a file assigns: the size of the memory, and values for stretches of it. -/
structure File where
  depth : Nat
  entries : List Run
  deriving DecidableEq, Repr

/-- Whether a line says something, so that it is neither empty nor a comment. -/
def isClause (l : Text) : Bool :=
  l ≠ [] && !"--".toList.isPrefixOf l

/-- The lines that say something, without the blanks around them. -/
def clauses (t : Text) : List Text :=
  ((Text.lines t).map Text.trim).filter isClause

/-- The name and the value of `NAME = VALUE;`. -/
def setting? (clause : Text) : Option (Text × Text) := do
  let body ← Text.dropLast? (· = ';') clause
  let value ← Text.after? (· = '=') body
  some (Text.trim (Text.before (· = '=') body), Text.trim value)

/-- The first and the last address of `AAAA` or `[AAAA..BBBB]`. -/
def range? (t : Text) : Option (Nat × Nat) :=
  match Text.dropFirst? '[' t with
  | none => (Text.natural? 16 t).map fun a => (a, a)
  | some rest => do
    let inner ← Text.dropLast? (· = ']') rest
    let start ← Text.natural? 16 (Text.before (· = '.') inner)
    let tail ← Text.after? (· = '.') inner
    let stop ← Text.dropFirst? '.' tail
    let stop ← Text.natural? 16 stop
    some (start, stop)

/-- The assignment of `RANGE : VV;`. -/
def assignment? (clause : Text) : Option Run := do
  let body ← Text.dropLast? (· = ';') clause
  let value ← Text.after? (· = ':') body
  let range ← range? (Text.trim (Text.before (· = ':') body))
  let value ← Text.natural? 16 (Text.trim value)
  if value < 0x100 then some ⟨range.1, range.2, UInt8.ofNat value⟩ else none

def contentMark : Text :=
  "CONTENT BEGIN".toList

/-- The settings before the content have to fit the digits in it. -/
def depth? (settings : List (Text × Text)) : Option Nat :=
  if settings.lookup "WIDTH".toList = some "8".toList ∧
      settings.lookup "ADDRESS_RADIX".toList = some "HEX".toList ∧
      settings.lookup "DATA_RADIX".toList = some "HEX".toList
  then do
    let depth ← settings.lookup "DEPTH".toList
    Text.natural? 10 depth
  else none

def entries? (content : List Text) : Option (List Run) :=
  if content.getLast? = some "END;".toList then content.dropLast.mapM assignment? else none

def read? (t : Text) : Option File := do
  let settings ← ((clauses t).takeWhile (· ≠ contentMark)).mapM setting?
  let depth ← depth? settings
  let content ← ((clauses t).dropWhile (· ≠ contentMark)).tail?
  let entries ← entries? content
  some ⟨depth, entries⟩

namespace File

/-- The bytes that a file assigns, each with its address, in order. -/
def cells (f : File) : List (UInt8 × Nat) :=
  f.entries.flatMap Run.cells

/-- The memory after all assignments, zero where there is none. -/
def memory (f : File) : List UInt8 :=
  (List.range f.depth).map fun a => (lastWritten? f.cells a).getD 0

end File

def decode? (t : Text) : Option (List UInt8) :=
  (read? t).map File.memory

/-! ## Reading back one assignment -/

def rangeMarks : Text :=
  "[.]".toList ++ Text.hexDigits

theorem mem_rangeText {r : Run} {c : Char} (h : c ∈ r.rangeText) : c ∈ rangeMarks := by
  have hmarks : ∀ c ∈ "[..]".toList, c ∈ rangeMarks := by decide
  have hdigits : ∀ {width n : Nat}, c ∈ Text.hex width n → c ∈ rangeMarks :=
    fun h => List.mem_append_right _ (Text.mem_hex h)
  unfold Run.rangeText at h
  split at h
  · simp only [List.mem_append, List.mem_cons, List.cons_append] at h
    rcases h with rfl | ((h | h) | h) | h
    · exact hmarks '[' (by decide)
    · exact hdigits h
    · exact hmarks c (by simp_all)
    · exact hdigits h
    · exact hmarks c (by simp_all)
  · exact hdigits h

theorem range?_rangeText {r : Run} (h : r.start ≤ r.stop) :
    range? r.rangeText = some (r.start, r.stop) := by
  have hdigit : ∀ {n : Nat} {c : Char}, c ∈ Text.hex 4 n → c ≠ '.' ∧ c ≠ '[' := by
    have hall : ∀ c ∈ Text.hexDigits, c ≠ '.' ∧ c ≠ '[' := by decide
    intro n c hc
    exact hall c (Text.mem_hex hc)
  unfold Run.rangeText
  split
  · have hopen : ∀ rest : Text, Text.dropFirst? '[' ('[' :: rest) = some rest :=
      fun rest => Text.dropFirst?_eq_some.mpr rfl
    have hclose : Text.dropLast? (fun c => c = ']')
        (Text.hex 4 r.start ++ "..".toList ++ Text.hex 4 r.stop ++ "]".toList) =
          some (Text.hex 4 r.start ++ '.' :: '.' :: Text.hex 4 r.stop) :=
      Text.dropLast?_eq_some.mpr ⟨']', rfl, by simp⟩
    have hdots : ∀ c ∈ Text.hex 4 r.start, decide (c = '.') = false :=
      fun c hc => decide_eq_false (hdigit hc).1
    simp only [range?, List.cons_append, hopen, hclose, Text.before_append hdots,
      Text.after?_append hdots, Text.natural?_hex, Option.bind_eq_bind, Option.bind_some,
      Text.dropFirst?_eq_some.mpr rfl, decide_true]
  · rename_i hge
    have hsame : r.stop = r.start := by omega
    have hopen : Text.dropFirst? '[' (Text.hex 4 r.start) = none := by
      obtain ⟨c, ds, hcs⟩ := List.exists_cons_of_ne_nil (Text.hex_ne_nil 4 r.start)
      have hc : c ≠ '[' := (hdigit (hcs ▸ List.mem_cons_self)).2
      rw [hcs, Text.dropFirst?, if_neg hc]
    simp [range?, hopen, Text.natural?_hex, hsame]

theorem rangeText_ne_nil (r : Run) : r.rangeText ≠ [] := by
  unfold Run.rangeText
  split
  · simp
  · exact Text.hex_ne_nil 4 r.start

theorem assignment?_text {r : Run} (h : r.start ≤ r.stop) : assignment? r.text = some r := by
  have hmark : ∀ c ∈ rangeMarks, Text.isBlank c = false ∧ c ≠ ':' := by decide
  have hdigit : ∀ c ∈ Text.hexDigits, Text.isBlank c = false := by decide
  have hbody : Text.dropLast? (fun c => c = ';') r.text =
      some ((r.rangeText ++ [' ']) ++ ':' :: ' ' :: Text.hex 2 r.value.toNat) :=
    Text.dropLast?_eq_some.mpr ⟨';', rfl, by simp [Run.text]⟩
  have hcolon : ∀ c ∈ r.rangeText ++ [' '], decide (c = ':') = false := by
    intro c hc
    obtain hc | hc := List.mem_append.mp hc
    · exact decide_eq_false (hmark c (mem_rangeText hc)).2
    · rw [List.mem_singleton.mp hc]
      decide
  have hrange : Text.trim (r.rangeText ++ [' ']) = r.rangeText :=
    Text.trim_padded_solid (s := []) (by simp) (by decide) (rangeText_ne_nil r)
      fun c hc => (hmark c (mem_rangeText hc)).1
  have hvalue : Text.trim (' ' :: (Text.hex 2 r.value.toNat ++ [])) = Text.hex 2 r.value.toNat :=
    Text.trim_padded_solid (s := [' ']) (by decide) (by simp) (Text.hex_ne_nil 2 r.value.toNat)
      fun c hc => hdigit c (Text.mem_hex hc)
  rw [List.append_nil] at hvalue
  have hbyte : r.value.toNat < 0x100 := r.value.toNat_lt
  simp only [assignment?, hbody, Text.before_append hcolon, Text.after?_append hcolon, hrange,
    hvalue, range?_rangeText h, Text.natural?_hex, Option.bind_eq_bind, Option.bind_some, hbyte,
    if_true, decide_true, UInt8.ofNat_toNat]

theorem mapM_assignment?_text {runs : List Run} (h : ∀ r ∈ runs, r.start ≤ r.stop) :
    (runs.map Run.text).mapM assignment? = some runs :=
  mapM_map_eq_some fun r hr => assignment?_text (h r hr)

/-! ## Reading back a file -/

def depthClause (n : Nat) : Text :=
  "DEPTH = ".toList ++ Text.decimal n ++ ";".toList

theorem depthClause_eq (n : Nat) :
    depthClause n = "DEPTH ".toList ++ '=' :: ' ' :: Text.decimal n ++ [';'] := rfl

theorem setting?_depthClause (n : Nat) :
    setting? (depthClause n) = some ("DEPTH".toList, Text.decimal n) := by
  have hdigit : ∀ c ∈ Text.decimalDigits, Text.isBlank c = false := by decide
  have hbody : Text.dropLast? (fun c => c = ';') (depthClause n) =
      some ("DEPTH ".toList ++ '=' :: ' ' :: Text.decimal n) :=
    Text.dropLast?_eq_some.mpr ⟨';', rfl, depthClause_eq n⟩
  have hequals : ∀ c ∈ "DEPTH ".toList, decide (c = '=') = false := by decide
  have hname : Text.trim "DEPTH ".toList = "DEPTH".toList := by decide
  have hvalue : Text.trim (' ' :: (Text.decimal n ++ [])) = Text.decimal n :=
    Text.trim_padded_solid (s := [' ']) (by decide) (by simp) (Text.decimal_ne_nil n)
      fun c hc => hdigit c (Text.mem_decimal hc)
  rw [List.append_nil] at hvalue
  simp only [setting?, hbody, Text.before_append hequals, Text.after?_append hequals, hname,
    hvalue, Option.bind_eq_bind, Option.bind_some, decide_true]

/-- The settings behind the depth, and the line that ends them. -/
def fixedClauses : List Text :=
  ["WIDTH = 8;".toList, "ADDRESS_RADIX = HEX;".toList, "DATA_RADIX = HEX;".toList]

def originComment (start : UInt16) : Text :=
  "-- Instructions start at address 0x".toList ++ Text.hex 4 start.toNat

theorem header_eq (depth : Nat) (start : UInt16) :
    header depth start =
      ["-- Memory Initialization File (.mif)".toList, "-- Generated by softcore-asm".toList] ++
        originComment start :: [] :: depthClause depth ::
          (fixedClauses ++ [[], contentMark]) := rfl

theorem isClause_cons {c : Char} {rest : Text} (h : c ≠ '-') : isClause (c :: rest) = true := by
  have hne : ('-' == c) = false := beq_false_of_ne (Ne.symm h)
  simp [isClause, List.isPrefixOf, hne]

theorem trim_originComment (start : UInt16) :
    Text.trim (originComment start) = originComment start := by
  have hdigit : ∀ c ∈ Text.hexDigits, Text.isBlank c = false := by decide
  exact Text.trim_append (by decide) (Text.hex_ne_nil 4 start.toNat) (by decide)
    fun c hc => hdigit c (Text.mem_hex (List.mem_of_getLast? hc))

theorem trim_depthClause (depth : Nat) : Text.trim (depthClause depth) = depthClause depth :=
  Text.trim_append (by simp) (by decide) (by rintro c ⟨⟩; decide) (by decide)

theorem clauses_header (depth : Nat) (start : UInt16) :
    ((header depth start).map Text.trim).filter isClause =
      depthClause depth :: (fixedClauses ++ [contentMark]) := by
  have hopening : (["-- Memory Initialization File (.mif)".toList,
      "-- Generated by softcore-asm".toList].map Text.trim).filter isClause = [] := by decide
  have hclosing : ((fixedClauses ++ [[], contentMark]).map Text.trim).filter isClause =
      fixedClauses ++ [contentMark] := by decide
  have hsilent : isClause (originComment start) = false := rfl
  have hsays : isClause (depthClause depth) = true := rfl
  rw [header_eq, List.map_append, List.filter_append, hopening, List.map_cons, List.map_cons,
    List.map_cons, trim_originComment, trim_depthClause]
  simp only [List.filter_cons, hsilent, hsays, hclosing]
  rfl

theorem mem_text {r : Run} {c : Char} (h : c ∈ r.text) : c ∈ " :;".toList ++ rangeMarks := by
  have hmarks : ∀ c ∈ " : ;".toList, c ∈ " :;".toList ++ rangeMarks := by decide
  simp only [Run.text, List.mem_append] at h
  rcases h with ((h | h) | h) | h
  · exact List.mem_append_right _ (mem_rangeText h)
  · exact hmarks c (List.mem_append_left [';'] h)
  · exact List.mem_append_right _ (List.mem_append_right _ (Text.mem_hex h))
  · exact hmarks c (List.mem_append_right " : ".toList h)

theorem clauses_content (memory : List UInt8) :
    ((content memory).map Text.trim).filter isClause = (Run.ofMemory memory).map Run.text := by
  have hmark : ∀ c ∈ rangeMarks, Text.isBlank c = false ∧ c ≠ '-' := by decide
  have hrun : ∀ r : Run, Text.trim ("    ".toList ++ r.text) = r.text ∧ isClause r.text = true := by
    intro r
    obtain ⟨c, rest, hcs⟩ := List.exists_cons_of_ne_nil (rangeText_ne_nil r)
    obtain ⟨hblank, hdash⟩ := hmark c (mem_rangeText (hcs ▸ List.mem_cons_self))
    have hhead : ∃ more, r.text = c :: more := by
      simp [Run.text, hcs]
    obtain ⟨more, htext⟩ := hhead
    have hlast : ∀ d ∈ r.text.getLast?, Text.isBlank d = false := by
      rw [Run.text, List.getLast?_append]
      rintro d ⟨⟩
      decide
    refine ⟨?_, htext ▸ isClause_cons hdash⟩
    have hpadded := Text.trim_padded (s := "    ".toList) (t := r.text) (u := []) (by decide)
      (by simp) (by simp [htext]) (by rw [htext]; rintro d ⟨⟩; exact hblank) hlast
    rwa [List.append_nil] at hpadded
  have hmap : (content memory).map Text.trim = (Run.ofMemory memory).map Run.text := by
    rw [content, List.map_map]
    exact List.map_congr_left fun r _ => (hrun r).1
  rw [hmap, List.filter_eq_self]
  intro l hl
  obtain ⟨r, -, rfl⟩ := List.mem_map.mp hl
  exact (hrun r).2

theorem newline_not_mem_header (depth : Nat) (start : UInt16) :
    ∀ l ∈ header depth start, '\n' ∉ l := by
  have hopening : ∀ l ∈ ["-- Memory Initialization File (.mif)".toList,
      "-- Generated by softcore-asm".toList], '\n' ∉ l := by decide
  have hclosing : ∀ l ∈ fixedClauses ++ [[], contentMark], '\n' ∉ l := by decide
  have hcomment : '\n' ∉ originComment start := by
    intro hc
    obtain hc | hc := List.mem_append.mp hc
    · exact absurd hc (by decide)
    · exact absurd (Text.mem_hex hc) (by decide)
  have hdepth : '\n' ∉ depthClause depth := by
    intro hc
    obtain hc | hc := List.mem_append.mp hc
    · obtain hc | hc := List.mem_append.mp hc
      · exact absurd hc (by decide)
      · exact absurd (Text.mem_decimal hc) (by decide)
    · exact absurd hc (by decide)
  rw [header_eq, List.forall_mem_append]
  refine ⟨hopening, ?_⟩
  rw [List.forall_mem_cons, List.forall_mem_cons, List.forall_mem_cons]
  exact ⟨hcomment, List.not_mem_nil, hdepth, hclosing⟩

theorem newline_not_mem_content (memory : List UInt8) : ∀ l ∈ content memory, '\n' ∉ l := by
  intro l hl hc
  obtain ⟨r, -, rfl⟩ := List.mem_map.mp hl
  obtain hc | hc := List.mem_append.mp hc
  · exact absurd hc (by decide)
  · exact absurd (mem_text hc) (by decide)

theorem clauses_render (memory : List UInt8) (start : UInt16) :
    clauses (render memory start) =
      depthClause memory.length :: fixedClauses ++
        contentMark :: ((Run.ofMemory memory).map Run.text ++ ["END;".toList]) := by
  have hend : (["END;".toList].map Text.trim).filter isClause = ["END;".toList] := by decide
  have hlines : ∀ l ∈ header memory.length start ++ content memory ++ ["END;".toList],
      '\n' ∉ l := by
    intro l hl
    obtain hl | hl := List.mem_append.mp hl
    · obtain hl | hl := List.mem_append.mp hl
      · exact newline_not_mem_header _ _ l hl
      · exact newline_not_mem_content _ l hl
    · rw [List.mem_singleton.mp hl]
      decide
  rw [clauses, render, Text.lines_flatMap hlines, List.map_append, List.map_append,
    List.filter_append, List.filter_append, clauses_header, clauses_content, hend]
  simp

theorem mapM_setting?_clauses (depth : Nat) :
    (depthClause depth :: fixedClauses).mapM setting? =
      some [("DEPTH".toList, Text.decimal depth), ("WIDTH".toList, "8".toList),
        ("ADDRESS_RADIX".toList, "HEX".toList), ("DATA_RADIX".toList, "HEX".toList)] := by
  have hfixed : fixedClauses.mapM setting? =
      some [("WIDTH".toList, "8".toList), ("ADDRESS_RADIX".toList, "HEX".toList),
        ("DATA_RADIX".toList, "HEX".toList)] := by decide
  rw [List.mapM_cons, setting?_depthClause, hfixed]
  rfl

theorem depth?_settings (depth : Nat) :
    depth? [("DEPTH".toList, Text.decimal depth), ("WIDTH".toList, "8".toList),
      ("ADDRESS_RADIX".toList, "HEX".toList), ("DATA_RADIX".toList, "HEX".toList)] =
        some depth :=
  Text.natural?_decimal depth

theorem entries?_text {runs : List Run} (h : ∀ r ∈ runs, r.start ≤ r.stop) :
    entries? (runs.map Run.text ++ ["END;".toList]) = some runs := by
  rw [entries?, List.getLast?_concat, if_pos rfl, List.dropLast_concat, mapM_assignment?_text h]

theorem read?_render (memory : List UInt8) (start : UInt16) :
    read? (render memory start) = some ⟨memory.length, Run.ofMemory memory⟩ := by
  have hsettings : ∀ l ∈ depthClause memory.length :: fixedClauses,
      decide (l ≠ contentMark) = true := by
    rw [List.forall_mem_cons]
    exact ⟨rfl, by decide⟩
  have htake : ∀ rest, (contentMark :: rest).takeWhile (· ≠ contentMark) = [] := by simp
  have hdrop : ∀ rest, (contentMark :: rest).dropWhile (· ≠ contentMark) = contentMark :: rest := by
    simp
  have hentries := entries?_text (Run.cover_ofMemory memory).ordered
  unfold read?
  rw [clauses_render, List.takeWhile_append_of_pos hsettings,
    List.dropWhile_append_of_pos hsettings, htake, hdrop, List.append_nil, mapM_setting?_clauses]
  simp only [Option.bind_eq_bind, Option.bind_some, depth?_settings, List.tail?_cons, hentries]

/-- A file that assigns every cell of a memory once holds that memory. -/
theorem File.memory_eq {f : File} {memory : List UInt8} (hdepth : f.depth = memory.length)
    (hcells : f.cells = memory.zipIdx) : f.memory = memory := by
  have hcell : ∀ a, lastWritten? f.cells a = memory[a]? := by
    intro a
    rw [hcells, lastWritten?_zipIdx, if_pos (Nat.zero_le a), Nat.sub_zero]
  apply List.ext_getElem
  · rw [File.memory, List.length_map, List.length_range, hdepth]
  · intro a _ ha
    simp [File.memory, hcell, ha]

/-- What `render` writes for a memory, `read?` reads as a `File` with this `memory`: the depth is
its length, and the assignments set each address once, in ascending order, to its byte. So no two
memories share a file. -/
theorem file_of_memory :
    (∀ (memory : List UInt8) (start : UInt16), ∃ file,
      read? (render memory start) = some file ∧ file.depth = memory.length ∧
      file.cells.map Prod.snd = List.range memory.length ∧ file.cells = memory.zipIdx ∧
      decode? (render memory start) = some memory) ∧
    ∀ (memory memory' : List UInt8) (start start' : UInt16), memory ≠ memory' →
      render memory start ≠ render memory' start' := by
  have hdecode : ∀ memory start, decode? (render memory start) = some memory := by
    intro memory start
    rw [decode?, read?_render]
    exact congrArg some (File.memory_eq rfl (Run.cover_ofMemory memory).cells)
  constructor
  · intro memory start
    have hcells := (Run.cover_ofMemory memory).cells
    refine ⟨_, read?_render memory start, rfl, ?_, hcells, hdecode memory start⟩
    change ((Run.ofMemory memory).flatMap Run.cells).map Prod.snd = _
    rw [hcells, List.zipIdx_map_snd, List.range_eq_range']
  · intro memory memory' start start' hne heq
    have hsame := hdecode memory start
    rw [heq, hdecode memory' start'] at hsame
    exact hne (Option.some.inj hsame).symm

/-- A run, a single cell, and a memory that differs in the run's end. -/
theorem file_of_run_and_cell :
    (∃ file, read? (render [0xEA, 0xEA, 0x00] 2) = some file ∧ file.depth = 3 ∧
      file.cells = [(0xEA, 0), (0xEA, 1), (0x00, 2)]) ∧
    [0xEA, 0xEA, 0x00] ≠ ([0xEA, 0x00, 0x00] : List UInt8) ∧
    render [0xEA, 0xEA, 0x00] 2 ≠ render [0xEA, 0x00, 0x00] 2 := by
  obtain ⟨hfile, hdiffer⟩ := file_of_memory
  obtain ⟨file, hread, hdepth, -, hcells, -⟩ := hfile [0xEA, 0xEA, 0x00] 2
  have hne : [0xEA, 0xEA, 0x00] ≠ ([0xEA, 0x00, 0x00] : List UInt8) := by decide
  exact ⟨⟨file, hread, hdepth, hcells⟩, hne, hdiffer _ _ 2 2 hne⟩

end Mif

end Asm6502
