/-!
# Bytes as text

UTF-8 that may be broken.  `Utf8.chunks` cuts any byte string into characters and *stray* bytes, and
loses nothing: the bytes of the chunks are the input again.  What counts as one stray chunk is the
longest start of a character that breaks off: `E2 82` before a letter is one chunk, while `ED A0 80`
is three, since no character starts with `ED A0`.  That is the rule by which each break is shown as
one replacement character.
-/

namespace FileWatch.Utf8

/-- A piece of decoded text. -/
inductive Chunk where
  /-- A character, well encoded. -/
  | char (c : Char)
  /-- Bytes that no character is made of. -/
  | stray (bytes : List UInt8)
deriving DecidableEq, Repr

/-- The bytes a chunk was read from. -/
def Chunk.bytes : Chunk → List UInt8
  | .char c => String.utf8EncodeChar c
  | .stray bs => bs

/-- A byte that can only continue a character. -/
def isContinuation (b : UInt8) : Bool := 0x80 ≤ b && b ≤ 0xBF

/-- The low six bits of a continuation byte. -/
def payload (b : UInt8) : Nat := (b &&& 0x3F).toNat

/-- What a first byte announces. -/
structure Lead where
  /-- The bytes that have to follow. -/
  extra : Nat
  /-- The bits of the character that the first byte holds. -/
  bits : Nat
  /-- The least second byte that makes a character. -/
  low : UInt8 := 0x80
  /-- The greatest. -/
  high : UInt8 := 0xBF

/-- The first bytes of characters beyond ASCII.  The bounds on the second byte rule out overlong
forms, surrogates and numbers past the last character. -/
def lead? (b : UInt8) : Option Lead :=
  if 0xC2 ≤ b && b ≤ 0xDF then some { extra := 1, bits := b.toNat - 0xC0 }
  else if b == 0xE0 then some { extra := 2, bits := 0, low := 0xA0 }
  else if b == 0xED then some { extra := 2, bits := 13, high := 0x9F }
  else if 0xE1 ≤ b && b ≤ 0xEF then some { extra := 2, bits := b.toNat - 0xE0 }
  else if b == 0xF0 then some { extra := 3, bits := 0, low := 0x90 }
  else if 0xF1 ≤ b && b ≤ 0xF3 then some { extra := 3, bits := b.toNat - 0xF0 }
  else if b == 0xF4 then some { extra := 3, bits := 4, high := 0x8F }
  else none

/-- The bytes after the first one that still belong to the character it announces. -/
def following (l : Lead) : List UInt8 → List UInt8
  | [] => []
  | b :: rest =>
    if l.low ≤ b && b ≤ l.high then b :: (rest.takeWhile isContinuation).take (l.extra - 1) else []

/-- The chunk that a byte starts, given the bytes behind it. -/
def firstChunk (b : UInt8) (rest : List UInt8) : Chunk :=
  if b < 0x80 then .char (Char.ofNat b.toNat)
  else match lead? b with
    | none => .stray [b]
    | some l =>
      let more := following l rest
      if more.length = l.extra then
        .char (Char.ofNat (more.foldl (fun n x => n * 64 + payload x) l.bits))
      else .stray (b :: more)

/-- How many bytes the chunk that a byte starts takes up. -/
def firstSize (b : UInt8) (rest : List UInt8) : Nat :=
  if b < 0x80 then 1
  else match lead? b with
    | none => 1
    | some l => 1 + (following l rest).length

/-- Any byte string, cut into characters and stray bytes. -/
def chunks : List UInt8 → List Chunk
  | [] => []
  | b :: rest => firstChunk b rest :: chunks (rest.drop (firstSize b rest - 1))
termination_by bytes => bytes.length
decreasing_by simp only [List.length_drop, List.length_cons]; omega

/-- The character a chunk encodes; a stray one encodes none. -/
def Chunk.char? : Chunk → Option Char
  | .char c => some c
  | .stray _ => none

/-- The text that shows a byte string, each break as one replacement character. -/
def lossy (bytes : List UInt8) : String :=
  String.ofList ((chunks bytes).map fun chunk => chunk.char?.getD '\uFFFD')

/-- The text a byte string encodes, if it encodes one. -/
def decode? (bytes : List UInt8) : Option String :=
  ((chunks bytes).mapM Chunk.char?).map String.ofList

/-- The bytes that encode a text. -/
def encode (s : String) : List UInt8 := s.toList.flatMap String.utf8EncodeChar

end FileWatch.Utf8
