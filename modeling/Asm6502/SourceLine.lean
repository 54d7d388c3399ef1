import Asm6502.Statement.Reader
import Asm6502.Text.Cut
import Asm6502.Text.Upper

/-!
Source lines: `label: operation operand ; comment`, each part optional. The listing of a source
keeps its blank lines, so that the numbers are the places in the source. Both passes `walk` over
the lines with a state.
-/

namespace Asm6502

structure SourceLine where
  number : Nat
  label : Option Text
  /-- The mnemonic or the name of the directive, in upper case. -/
  operation : Option Text
  operand : Text
  deriving DecidableEq, Repr

namespace SourceLine

/-! ## The parts of a line -/

/-- A line without its comment and without the blanks around the rest. -/
def code (text : Text) : Text :=
  Text.trim (Text.before (· = ';') text)

def labelPart (code : Text) : Option Text :=
  match Text.after? (· = ':') code with
  | some _ => Text.nonempty? (Text.trim (Text.before (· = ':') code))
  | none => none

/-- What stands after the first colon, or the whole code. -/
def statementPart (code : Text) : Text :=
  match Text.after? (· = ':') code with
  | some rest => Text.trim rest
  | none => code

def operationPart (statement : Text) : Option Text :=
  (Text.nonempty? (Text.before Text.isBlank statement)).map Text.upper

def operandPart (statement : Text) : Text :=
  match Text.after? Text.isBlank statement with
  | some rest => Text.trimStart rest
  | none => []

/-- A carriage return before a line feed is a blank, so either line ending gives the same line. -/
def ofText (number : Nat) (text : Text) : SourceLine :=
  { number
    label := labelPart (code text)
    operation := operationPart (statementPart (code text))
    operand := operandPart (statementPart (code text)) }

/-! ## Listing and meaning -/

/-- The lines of a source, numbered from one. -/
def listing (source : Text) : List SourceLine :=
  ((Text.lines source).zipIdx 1).map fun (text, number) => ofText number text

def statement (l : SourceLine) : Except Fault (Option Statement) :=
  match l.operation with
  | none => .ok none
  | some operation => (Statement.read operation l.operand).map some

end SourceLine

/-! ## Walking over lines -/

/-- Runs `step` over lines up to the first fault, and keeps the state in which it was found. -/
def walk {σ : Type} (step : SourceLine → σ → σ × Option Fault) :
    List SourceLine → σ → σ × Option LineFault
  | [], s => (s, none)
  | l :: ls, s =>
    match step l s with
    | (s, none) => walk step ls s
    | (s, some fault) => (s, some ⟨l.number, fault⟩)

theorem walk_append {σ : Type} (step : SourceLine → σ → σ × Option Fault)
    (ls ms : List SourceLine) (s : σ) :
    walk step (ls ++ ms) s =
      match walk step ls s with
      | (s, none) => walk step ms s
      | (s, some fault) => (s, some fault) := by
  induction ls generalizing s with
  | nil => rfl
  | cons l ls ih =>
    simp only [List.cons_append, walk]
    rcases step l s with ⟨s', _ | fault⟩
    · exact ih s'
    · rfl

end Asm6502
