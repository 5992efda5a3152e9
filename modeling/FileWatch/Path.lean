/-!
# Paths

A path is the byte string the caller wrote; no encoding is assumed.  What it *names* is read off
its parts.  Slashes part the bytes into pieces; a piece that is empty or a single dot says
nothing and is skipped, with one exception: a relative path that starts with a dot says where it
starts, so `./a` and `a` are told apart while `a/./` and `a` are not.

Two relations live on paths and they must not be mixed up:

* `p = q` holds when the bytes agree;
* `p == q` holds when the parts agree.  It is the equality of map keys.

The order of paths is that of their lists of parts.
-/

namespace FileWatch

abbrev Bytes := List UInt8

/-- A path as it was spelled. -/
structure Path where
  bytes : Bytes
deriving DecidableEq, Repr, Inhabited

/-- One step of a path. -/
inductive Part where
  /-- The top of the file system. -/
  | root
  /-- The directory the path starts from, said out loud. -/
  | here
  | up
  /-- An entry of a directory. -/
  | name (bytes : Bytes)
deriving DecidableEq, Repr

/-- The byte between two pieces. -/
def slash : UInt8 := 0x2F

/-- The byte that spells "here" alone and "up" twice. -/
def dot : UInt8 := 0x2E

namespace Part

/-- What a piece between two slashes says; an empty piece and a single dot say nothing. -/
def ofPiece? (piece : Bytes) : Option Part :=
  if piece = [] ∨ piece = [dot] then none
  else if piece = [dot, dot] then some up
  else some (name piece)

/-- The piece that says a part; the root is the empty piece before the first slash. -/
def piece : Part → Bytes
  | root => []
  | here => [dot]
  | up => [dot, dot]
  | name b => b

/-- What parts are sorted by: their kind, and names by their bytes.  The zero at the end is smaller
than anything that could go on there, so that a name comes before the names that begin with it. -/
def sortKey : Part → List Nat
  | root => [1, 0]
  | here => [2, 0]
  | up => [3, 0]
  | name b => 4 :: b.map (fun c => c.toNat + 1) ++ [0]

end Part

/-- Whether a list of numbers comes before another one in a dictionary, or is the same. -/
def precedes : List Nat → List Nat → Bool
  | [], _ => true
  | _ :: _, [] => false
  | a :: as, b :: bs => a < b || (a == b && precedes as bs)

namespace Path

/-- The part a path starts from when its first byte says so: a slash, or a lone dot. -/
def anchor? (p : Path) : Option Part :=
  match p.bytes with
  | [] => none
  | c :: rest =>
    if c = slash then some .root
    else if c = dot ∧ (rest = [] ∨ rest.head? = some slash) then some .here
    else none

/-- The bytes after the anchor, which is one byte long. -/
def body (p : Path) : Bytes := if p.anchor?.isSome then p.bytes.drop 1 else p.bytes

/-- The body, cut at every slash. -/
def pieces (p : Path) : List Bytes := p.body.splitOn slash

/-- What the path says, step by step. -/
def parts (p : Path) : List Part := p.anchor?.toList ++ p.pieces.filterMap Part.ofPiece?

instance : BEq Path := ⟨fun p q => decide (p.parts = q.parts)⟩

theorem beq_iff {p q : Path} : (p == q) = true ↔ p.parts = q.parts :=
  decide_eq_true_iff

instance : EquivBEq Path where
  rfl := beq_iff.2 rfl
  symm h := beq_iff.2 (beq_iff.1 h).symm
  trans h h' := beq_iff.2 ((beq_iff.1 h).trans (beq_iff.1 h'))

def sortKey (p : Path) : List Nat := p.parts.flatMap Part.sortKey

/-- The order of paths: by parts, left to right. -/
def le (p q : Path) : Bool := precedes p.sortKey q.sortKey

/-- Paths in order; of two that are `==` the one that came first stays first. -/
def sorted (ps : List Path) : List Path := ps.mergeSort le

/-- Whether the path starts at the root. -/
def isAbsolute (p : Path) : Bool := p.anchor? == some .root

/-- A name below a directory.  An absolute name stands for itself, and a base that ends in a
slash, or is empty, needs no other. -/
def join (base : Path) (name : Bytes) : Path :=
  if name.head? = some slash then ⟨name⟩
  else if base.bytes = [] ∨ base.bytes.getLast? = some slash then ⟨base.bytes ++ name⟩
  else ⟨base.bytes ++ slash :: name⟩

/-- A piece that says nothing. -/
def isVacuous (piece : Bytes) : Bool := (Part.ofPiece? piece).isNone

/-- The path without its last part, in the spelling it has there.  The root and the empty path
have no last part. -/
def parent? (p : Path) : Option Path :=
  match p.pieces.reverse.dropWhile isVacuous with
  | [] => if p.anchor? = some .here then some ⟨[]⟩ else none
  | _ :: before =>
    let kept := (before.dropWhile isVacuous).reverse
    let anchorByte := if p.anchor?.isSome then p.bytes.take 1 else []
    some ⟨anchorByte ++ [slash].intercalate kept⟩

/-- The one clean spelling of a path: no part says "here" and no slash is idle.  What would be
empty is a single dot.  A part that says "up" stays, because what lies above a symbolic link
cannot be told from the text. -/
def normalize (p : Path) : Path :=
  match p.parts.filter (· ≠ .here) with
  | [] => ⟨[dot]⟩
  | .root :: rest => ⟨slash :: [slash].intercalate (rest.map Part.piece)⟩
  | steps => ⟨[slash].intercalate (steps.map Part.piece)⟩

end Path

end FileWatch
