import Asm6502.Encoding
import Asm6502.Event
import Asm6502.Image
import Asm6502.SourceLine

/-!
Assembling a source in two passes. The survey gives every label the location that the statements
before it leave; nothing is placed, but every statement is read and checked, so a line that cannot
be assembled under any labels is found there. The emission writes the machine code of every
statement into a fresh image, with the labels taken from a table. The first fault ends the run.
-/

namespace Asm6502

structure Config where
  capacity : Nat := 0x4000
  start : UInt16 := 0x1000
  deriving DecidableEq, Repr

/-! ## The survey -/

structure Survey where
  location : Location
  labels : LabelTable
  log : Array Event
  deriving DecidableEq, Repr

namespace Survey

def initial (start : UInt16) : Survey :=
  ⟨start.toNat, .empty, #[]⟩

def defineLabel (l : SourceLine) (s : Survey) : Except Fault Survey :=
  match l.label with
  | none => .ok s
  | some name => do
    let address ← s.location.labelAddress
    let labels ← s.labels.define ⟨name, address, l.number⟩
    .ok { s with labels, log := s.log.push (.labelDefined name address) }

def locationAfter (c : Location) : Statement → Except Fault Location
  | .instruction i => do
    let _ ← i.opcode
    c.advance i.size
  | .origin address => .ok address.toNat
  | statement => c.advance statement.size

def reserve (l : SourceLine) (s : Survey) : Except Fault Survey := do
  match ← l.statement with
  | none => .ok s
  | some statement =>
    let location ← locationAfter s.location statement
    .ok { s with location }

def line (l : SourceLine) (s : Survey) : Survey × Option Fault :=
  match s.defineLabel l with
  | .error fault => (s, some fault)
  | .ok s =>
    match s.reserve l with
    | .error fault => (s, some fault)
    | .ok s => (s, none)

def run (lines : List SourceLine) (start : UInt16) : Survey × Option LineFault :=
  walk line lines (initial start)

end Survey

/-! ## The emission -/

structure Emission where
  location : Location
  image : Image
  log : Array Event
  deriving DecidableEq, Repr

namespace Emission

def initial (config : Config) : Emission :=
  ⟨config.start.toNat, .blank config.capacity, #[]⟩

def record (event : Event) (e : Emission) : Emission :=
  { e with log := e.log.push event }

def put (e : Emission) (cell : UInt8 × Nat) : Emission :=
  let e := { e with image := e.image.write cell.2 cell.1 }
  if cell.2 < e.image.capacity then e else e.record (.writeDropped cell.1 cell.2)

/-- Writes `bytes` at the location and moves behind them, or does neither. -/
def place (bytes : List UInt8) (e : Emission) : Emission × Option Fault :=
  match e.location.advance bytes.length with
  | .error fault => (e, some fault)
  | .ok location => ({ (bytes.zipIdx e.location).foldl put e with location }, none)

def moveTo (address : UInt16) (e : Emission) : Emission :=
  { e.record (.originMoved address) with location := address.toNat }

def perform (labels : LabelTable) (statement : Statement) (e : Emission) :
    Emission × Option Fault :=
  match statement with
  | .origin address => (e.moveTo address, none)
  | statement =>
    match statement.encode labels e.location with
    | .error fault => (e, some fault)
    | .ok bytes => e.place bytes

def line (labels : LabelTable) (l : SourceLine) (e : Emission) : Emission × Option Fault :=
  match l.statement with
  | .error fault => (e, some fault)
  | .ok none => (e, none)
  | .ok (some statement) =>
    (e.record (.statementReached e.location statement)).perform labels statement

def run (config : Config) (labels : LabelTable) (lines : List SourceLine) :
    Emission × Option LineFault :=
  walk (line labels) lines (initial config)

end Emission

/-! ## Both passes -/

structure Assembly where
  image : Image
  labels : LabelTable
  /-- The location behind the last line. -/
  location : Location
  deriving DecidableEq, Repr

structure Session where
  log : List Event
  result : Except LineFault Assembly

namespace Assembly

/-- The last event behind an `Emission` without fault, if bytes were lost. -/
def losses (image : Image) : List Event :=
  if 0 < image.dropped then [.bytesLost image.dropped image.capacity] else []

/-- What follows a `Survey` without fault. -/
def emit (config : Config) (lines : List SourceLine) (survey : Survey) : Session :=
  let told := survey.log.toList ++ [.labelsCounted survey.labels.size]
  match Emission.run config survey.labels lines with
  | (e, some fault) => ⟨told ++ e.log.toList, .error fault⟩
  | (e, none) =>
    ⟨told ++ e.log.toList ++ losses e.image, .ok ⟨e.image, survey.labels, e.location⟩⟩

def ofLines (config : Config) (lines : List SourceLine) : Session :=
  match Survey.run lines config.start with
  | (survey, some fault) => ⟨survey.log.toList, .error fault⟩
  | (survey, none) => emit config lines survey

def ofSource (config : Config) (source : Text) : Session :=
  ofLines config (SourceLine.listing source)

end Assembly

end Asm6502
