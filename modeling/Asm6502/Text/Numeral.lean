import Asm6502.Text.Blank

/-!
Numerals: writing numbers in decimal and in hexadecimal, and reading digits of a radix up to 36.
-/

namespace Asm6502.Text

/-! ## Writing -/

def decimal (n : Nat) : Text :=
  Nat.toDigits 10 n

def integer (i : Int) : Text :=
  if i < 0 then '-' :: decimal i.natAbs else decimal i.natAbs

/-- Hexadecimal digits `0`-`9` and `a`-`f`, filled up with zeros to at least `width`. -/
def hexLower (width n : Nat) : Text :=
  (Nat.toDigits 16 n).leftpad width '0'

/-- Hexadecimal digits `0`-`9` and `A`-`F`, filled up with zeros to at least `width`. -/
def hex (width n : Nat) : Text :=
  ((Nat.toDigits 16 n).map Char.toUpper).leftpad width '0'

/-! ## Reading -/

/-- The value of an ASCII letter or digit as a digit; a letter counts the same in either case. -/
def digitValue? (c : Char) : Option Nat :=
  if '0' ≤ c ∧ c ≤ '9' then some (c.toNat - '0'.toNat)
  else if 'a' ≤ c ∧ c ≤ 'z' then some (c.toNat - 'a'.toNat + 10)
  else if 'A' ≤ c ∧ c ≤ 'Z' then some (c.toNat - 'A'.toNat + 10)
  else none

def digit? (radix : Nat) (c : Char) : Option Nat :=
  (digitValue? c).filter fun d => d < radix

def readDigit (radix n : Nat) (c : Char) : Option Nat :=
  (digit? radix c).map fun d => radix * n + d

/-- The number that one or more digits of the radix stand for, leading zeros allowed. -/
def natural? (radix : Nat) : Text → Option Nat
  | [] => none
  | c :: cs => (c :: cs).foldlM (readDigit radix) 0

def signed? (radix : Nat) : Text → Option Int
  | '+' :: ds => (natural? radix ds).map fun n => (n : Int)
  | '-' :: ds => (natural? radix ds).map fun n => -(n : Int)
  | ds => (natural? radix ds).map fun n => (n : Int)

end Asm6502.Text
