import Asm6502.Text.Cut

/-!
The shape of an operand: which marks of an addressing mode stand around the expression. Several
shapes contain one another, as `($10,X)` does `(e)`, so they are tried in a fixed order and the
first one counts.
-/

namespace Asm6502

inductive Shape where
  | absent
  | accumulator
  | immediate (e : Text)
  | indirectX (e : Text)
  | indirectY (e : Text)
  | indirect (e : Text)
  | indexedX (e : Text)
  | indexedY (e : Text)
  | bare (e : Text)
  deriving DecidableEq, Repr

namespace Shape

/-- The expression of `e,R` for a register `R` in either case. Blanks may follow the comma. -/
def indexed? (register : Char) (t : Text) : Option Text := do
  let rest ← Text.dropLast? (fun c => c = register || c = register.toLower) t
  let e ← Text.dropLast? (· = ',') (Text.trimEnd rest)
  Text.nonempty? e

/-- The expression of `(e)`, which may be empty. -/
def enclosed? (t : Text) : Option Text := do
  let rest ← Text.dropFirst? '(' t
  Text.dropLast? (· = ')') rest

/-- The expression of `(e,X)`. -/
def indirectX? (t : Text) : Option Text := do
  let inner ← enclosed? t
  indexed? 'X' inner

/-- The expression of `(e),Y`. -/
def indirectY? (t : Text) : Option Text := do
  let rest ← Text.dropFirst? '(' t
  let inner ← indexed? 'Y' rest
  let e ← Text.dropLast? (· = ')') inner
  Text.nonempty? e

/-- The expression of `(e)`. -/
def indirect? (t : Text) : Option Text := do
  let e ← enclosed? t
  Text.nonempty? e

/-- The shape of a text without blanks at its ends. -/
def ofTrimmed (t : Text) : Shape :=
  if t = [] then absent
  else if t = ['A'] ∨ t = ['a'] then accumulator
  else if let some e := Text.dropFirst? '#' t then immediate e
  else if let some e := indirectX? t then indirectX e
  else if let some e := indirectY? t then indirectY e
  else if let some e := indirect? t then indirect e
  else if let some e := indexed? 'X' t then indexedX e
  else if let some e := indexed? 'Y' t then indexedY e
  else bare t

/-- Blanks around an operand do not count. -/
def ofText (t : Text) : Shape :=
  ofTrimmed (Text.trim t)

end Shape

end Asm6502
