import Asm6502.Text.Numeral

/-!
A memory as text. `Mif.render` writes a memory initialization file, in which neighbouring cells
with the same value are one run; `Dump.render` writes rows of sixteen bytes, each behind the address
of its first.
-/

namespace Asm6502

/-! ## Runs -/

/-- Neighbouring cells with the same value; `stop` is the last of them. -/
structure Run where
  start : Nat
  stop : Nat
  value : UInt8
  deriving DecidableEq, Repr

namespace Run

/-- Puts `cell` in front of `runs`, which begin right behind it. -/
def cons (cell : UInt8 × Nat) (runs : List Run) : List Run :=
  match runs with
  | [] => [⟨cell.2, cell.2, cell.1⟩]
  | r :: rest =>
    if r.value = cell.1 then { r with start := cell.2 } :: rest
    else ⟨cell.2, cell.2, cell.1⟩ :: r :: rest

def ofMemory (memory : List UInt8) : List Run :=
  memory.zipIdx.foldr cons []

def rangeText (r : Run) : Text :=
  if r.start < r.stop then
    '[' :: Text.hex 4 r.start ++ "..".toList ++ Text.hex 4 r.stop ++ "]".toList
  else Text.hex 4 r.start

def text (r : Run) : Text :=
  r.rangeText ++ " : ".toList ++ Text.hex 2 r.value.toNat ++ ";".toList

end Run

/-! ## Memory initialization files -/

namespace Mif

def header (depth : Nat) (start : UInt16) : List Text :=
  ["-- Memory Initialization File (.mif)".toList,
   "-- Generated by softcore-asm".toList,
   "-- Instructions start at address 0x".toList ++ Text.hex 4 start.toNat,
   [],
   "DEPTH = ".toList ++ Text.decimal depth ++ ";".toList,
   "WIDTH = 8;".toList,
   "ADDRESS_RADIX = HEX;".toList,
   "DATA_RADIX = HEX;".toList,
   [],
   "CONTENT BEGIN".toList]

def content (memory : List UInt8) : List Text :=
  (Run.ofMemory memory).map fun r => "    ".toList ++ r.text

def render (memory : List UInt8) (start : UInt16) : Text :=
  (header memory.length start ++ content memory ++ ["END;".toList]).flatMap fun l => l ++ ['\n']

end Mif

/-! ## Hex dumps -/

namespace Dump

def stride : Nat := 16

structure Row where
  address : Nat
  bytes : List UInt8
  deriving DecidableEq, Repr

def Row.text (r : Row) : Text :=
  '$' :: Text.hex 4 r.address ++ ":".toList ++ r.bytes.flatMap fun b => ' ' :: Text.hex 2 b.toNat

def cutRows : Nat → Nat → List UInt8 → List Row
  | 0, _, _ => []
  | count + 1, address, bytes =>
    ⟨address, bytes.take stride⟩ :: cutRows count (address + stride) (bytes.drop stride)

/-- The rows of `bytes` that start at `address`; each is full but the last. -/
def rows (address : Nat) (bytes : List UInt8) : List Row :=
  cutRows ((bytes.length + (stride - 1)) / stride) address bytes

/-- The dump of `length` bytes from an address on, as far as the memory goes. -/
def render (memory : List UInt8) (start length : Nat) : Text :=
  ['\n'].intercalate ((rows start ((memory.take (start + length)).drop start)).map Row.text)

end Dump

end Asm6502
