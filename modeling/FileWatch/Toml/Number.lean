import FileWatch.Toml.Scan

/-!
# Numbers

Digits may be parted by single underscores.  An integer has to fit 64 bits; a floating-point number
may vanish into zero but not grow past the greatest finite one, unless it is negative, when it
becomes negative infinity.
-/

namespace FileWatch.Toml

open Scan

def isDecimal (c : Char) : Bool := '0' ≤ c && c ≤ '9'

def digitValue (c : Char) : Nat :=
  if isDecimal c then c.toNat - '0'.toNat
  else if 'a' ≤ c && c ≤ 'f' then c.toNat - 'a'.toNat + 10
  else c.toNat - 'A'.toNat + 10

/-- Whether a character is a digit of a base up to sixteen. -/
def isDigitOf (base : Nat) (c : Char) : Bool :=
  (isDecimal c || ('a' ≤ c && c ≤ 'f') || ('A' ≤ c && c ≤ 'F')) && digitValue c < base

/-- The number that a row of digits says. -/
def numeral (base : Nat) (digits : List Char) : Nat :=
  digits.foldl (fun n c => n * base + digitValue c) 0

/-- More digits after the first, each alone or behind an underscore. -/
def moreDigits (base : Nat) : Scan (List Char) :=
  many (satisfy (isDigitOf base) <|> (do char '_'; satisfy (isDigitOf base)))

def digits (base : Nat) : Scan (List Char) := do
  let first ← satisfy (isDigitOf base)
  return first :: (← moreDigits base)

/-- A sign, or none; whether it was a minus. -/
def sign : Scan Bool := do
  match ← optional? (satisfy fun c => c == '+' || c == '-') with
  | some c => return c == '-'
  | none => return false

/-- The digits of a decimal integer: a single one, or several of which the first is not zero. -/
def decimalDigits : Scan (List Char) :=
  (do let first ← satisfy fun c => isDecimal c && c != '0'
      return first :: (← moreDigits 10))
  <|> (do return [← satisfy isDecimal])

/-- The first integer that needs more than 64 bits. -/
def integerLimit : Nat := 0x8000000000000000

/-- An integer that fits 64 bits. -/
def fitting (n : Int) : Scan Int :=
  if -integerLimit ≤ n ∧ n < integerLimit then pure n else failure

def decimalInteger : Scan Int := do
  let negative ← sign
  let n := numeral 10 (← decimalDigits)
  fitting (if negative then -n else n)

/-- An integer in a base that its first two characters tell. -/
def basedInteger (mark : String) (base : Nat) : Scan Int := do
  literal mark
  fitting (numeral base (← digits base))

def integer : Scan Int :=
  basedInteger "0x" 16 <|> basedInteger "0o" 8 <|> basedInteger "0b" 2 <|> decimalInteger

/-- The power of ten behind a number. -/
def exponent : Scan Int := do
  let _ ← satisfy fun c => c == 'e' || c == 'E'
  let negative ← sign
  let n := numeral 10 (← digits 10)
  return if negative then -n else n

/-- A floating-point number written with a point, a power of ten, or both. -/
def decimalFloat : Scan Binary64 := do
  let negative ← sign
  let whole ← decimalDigits
  let (places, power) ←
    (do let e ← exponent; return ([], e))
    <|> (do char '.'
            let places ← digits 10
            return (places, (← optional? exponent).getD 0))
  let x := Binary64.ofDecimal negative (numeral 10 (whole ++ places)) (power - places.length)
  if x = .infinite false then failure else return x

/-- A floating-point number written as a word. -/
def wordFloat : Scan Binary64 := do
  let negative ← sign
  (do literal "inf"; return .infinite negative) <|> (do literal "nan"; return .nan)

/-- A floating-point number. -/
def float : Scan Binary64 := decimalFloat <|> wordFloat

end FileWatch.Toml
