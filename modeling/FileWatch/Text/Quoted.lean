import FileWatch.Text.Combining
import FileWatch.Text.Unprintable
import FileWatch.Text.Utf8

/-!
# Quoted text

A quoted text stands between quotation marks and holds no character that could be taken for the
end of the quotation, for the end of the line, or for nothing at all.  Such characters are spelled
with a backslash; stray bytes are spelled `\xNN`, which no character is.

Which characters beyond the fixed escapes are spelled as numbers is a parameter (`spelled`): the
rules of quotation do not depend on a Unicode version.  `Text.isSpelled` is the choice this
library makes.
-/

namespace FileWatch.Quoted

/-- A number in lower-case hexadecimal, without leading zeros. -/
def hexDigits (n : Nat) : List Char := Nat.toDigits 16 n

/-- The escape that spells a character as a number. -/
def numbered (c : Char) : List Char := "\\u\x7b".toList ++ hexDigits c.toNat ++ ['\x7d']

/-- How a character is written inside a quotation. -/
def writeChar (spelled : Char → Bool) (c : Char) : List Char :=
  if c = '\x00' then ['\\', '0']
  else if c = '\t' then ['\\', 't']
  else if c = '\r' then ['\\', 'r']
  else if c = '\n' then ['\\', 'n']
  else if c = '"' then ['\\', '"']
  else if c = '\\' then ['\\', '\\']
  else if spelled c then numbered c
  else [c]

/-- The two upper-case hexadecimal digits of a byte. -/
def byteDigits (b : UInt8) : List Char :=
  let digit (n : Nat) : Char := Char.ofNat (if n < 10 then 48 + n else 55 + n)
  [digit (b.toNat / 16), digit (b.toNat % 16)]

/-- How a stray byte is written inside a quotation. -/
def writeByte (b : UInt8) : List Char := '\\' :: 'x' :: byteDigits b

/-- How a chunk is written inside a quotation. -/
def writeChunk (spelled : Char → Bool) : Utf8.Chunk → List Char
  | .char c => writeChar spelled c
  | .stray bs => bs.flatMap writeByte

/-- A byte string between quotation marks. -/
def bytes (spelled : Char → Bool) (bs : List UInt8) : List Char :=
  '"' :: (Utf8.chunks bs).flatMap (writeChunk spelled) ++ ['"']

/-- A text between quotation marks. -/
def text (spelled : Char → Bool) (s : String) : List Char :=
  '"' :: s.toList.flatMap (writeChar spelled) ++ ['"']

end FileWatch.Quoted

namespace FileWatch.Text

/-- The characters a quotation spells as numbers: those without a shape of their own and those that
attach to the one before. -/
def isSpelled (c : Char) : Bool := isUnprintable c || isCombining c

/-- A text between quotation marks, safe to print. -/
def quoted (s : String) : String := String.ofList (Quoted.text isSpelled s)

end FileWatch.Text
