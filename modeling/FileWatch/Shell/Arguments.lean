import FileWatch.Path
import FileWatch.Text.Utf8

/-!
# The command line

A command line is a command with its operands, and options around it:

    [options] watch PATH...
    [options] file FILE...
    [options] finish-write [--force-debounce] PATH...

The options `--config` and `--debounce-ms` may stand before the command and after it; if they stand in
both places the latter counts.  In one place an option can be given once only.  Its value is the next
word, which must not look like an option, or what follows an equals sign.  After `--` every word is an
operand.

A command line is read word by word from left to right, and the first word that settles the matter
does: one that is wrong, or one that asks for help or for the version.
-/

namespace FileWatch

/-- A word of the command line. -/
abbrev Word := Bytes

/-- What is to be done. -/
inductive Command where
  /-- Print every event of some paths. -/
  | watch (paths : List Path)
  /-- Print the events of some files, which are watched through their directories. -/
  | file (files : List Path)
  /-- Print the finished writes under some paths. -/
  | finishWrite (paths : List Path) (forceDebounce : Bool)
deriving DecidableEq, Repr

/-- What a command line asks for. -/
inductive Request where
  /-- A command, the file with its settings, and its quiet window. -/
  | run (command : Command) (settingsFile? : Option Path) (debounceMillis? : Option UInt64)
  | version
  | help
  /-- Nothing that makes sense. -/
  | refused
deriving DecidableEq, Repr

namespace Request

def word (s : String) : Word := Utf8.encode s

/-! ## What a word looks like -/

/-- What a word looks like. -/
inductive Shape where
  /-- Two dashes. -/
  | escape
  /-- Two dashes and a name, perhaps with a value. -/
  | long (name : Word) (value? : Option Word)
  /-- A dash and letters. -/
  | short (letter : UInt8)
  /-- Anything else, a lone dash included. -/
  | plain
deriving DecidableEq, Repr

/-- What a word looks like. -/
def shape (w : Word) : Shape :=
  match w with
  | 0x2D :: 0x2D :: [] => .escape
  | 0x2D :: 0x2D :: body =>
    let name := body.takeWhile (· != 0x3D)
    match body.dropWhile (· != 0x3D) with
    | [] => .long name none
    | _ :: value => .long name (some value)
  | 0x2D :: letter :: _ => .short letter
  | _ => .plain

/-- A number that fits a 64-bit word.  A plus sign may stand before it. -/
def number? (w : Word) : Option UInt64 :=
  let digits := if w.head? = some 0x2B then w.drop 1 else w
  if digits ≠ [] ∧ digits.all (fun b => 0x30 ≤ b && b ≤ 0x39) then
    let n := digits.foldl (fun n b => n * 10 + (b.toNat - 0x30)) 0
    if n < UInt64.size then some (UInt64.ofNat n) else none
  else none

/-! ## Options -/

/-- The options given in one place. -/
structure Options where
  settingsFile? : Option Path
  debounceMillis? : Option UInt64
deriving DecidableEq, Repr

namespace Options

/-- No options. -/
def empty : Options := ⟨none, none⟩

/-- Whether there is an option of a name. -/
def named (name : Word) : Bool := name = word "config" || name = word "debounce-ms"

/-- Give an option a value.  It must not have one, and an empty value is none. -/
def set (o : Options) (name value : Word) : Option Options :=
  if name = word "config" then
    if o.settingsFile?.isNone && value ≠ [] then some { o with settingsFile? := some ⟨value⟩ }
    else none
  else match o.debounceMillis?, number? value with
    | none, some n => some { o with debounceMillis? := some n }
    | _, _ => none

end Options

/-! ## Reading -/

/-- The names of the commands. -/
inductive Verb where
  | watch
  | file
  | finishWrite
  | help
deriving DecidableEq, Repr

/-- The command of a name. -/
def Verb.ofWord? (w : Word) : Option Verb :=
  if w = word "watch" then some watch
  else if w = word "file" then some file
  else if w = word "finish-write" then some finishWrite
  else if w = word "help" then some help
  else none

/-- What was read so far. -/
structure Reading where
  /-- The command, once it was named. -/
  verb? : Option Verb
  /-- The options before the command. -/
  outer : Options
  /-- The options after the command. -/
  inner : Options
  forceDebounce : Bool
  operands : List Word
  /-- The option whose value comes next. -/
  awaiting? : Option Word
  /-- Whether every word from here on is an operand. -/
  literal : Bool
deriving DecidableEq, Repr

namespace Reading

/-- Nothing was read. -/
def fresh : Reading := ⟨none, .empty, .empty, false, [], none, false⟩

/-- Give an option a value, in the place that the reading has come to. -/
def set (r : Reading) (name value : Word) : Except Request Reading :=
  let place := if r.verb?.isNone then r.outer else r.inner
  match place.set name value with
  | none => .error .refused
  | some o =>
    .ok { (if r.verb?.isNone then { r with outer := o } else { r with inner := o }) with
      awaiting? := none }

/-- Take an operand.  There are none before the command. -/
def operand (r : Reading) (w : Word) : Except Request Reading :=
  if r.verb?.isNone || w = [] then .error .refused
  else .ok { r with operands := r.operands ++ [w] }

/-- Take a word that starts with two dashes. -/
def takeLong (r : Reading) (name : Word) (value? : Option Word) : Except Request Reading :=
  if Options.named name then
    match value? with
    | some v => r.set name v
    | none => .ok { r with awaiting? := some name }
  else if value?.isSome then .error .refused
  else if name = word "help" then .error .help
  else if name = word "version" && r.verb?.isNone then .error .version
  else if name = word "force-debounce" && r.verb? = some .finishWrite && !r.forceDebounce then
    .ok { r with forceDebounce := true }
  else .error .refused

/-- Take a letter behind a single dash. -/
def takeShort (r : Reading) (letter : UInt8) : Except Request Reading :=
  if letter = 0x68 then .error .help
  else if letter = 0x56 && r.verb?.isNone then .error .version
  else .error .refused

/-- Take a word that does not look like an option. -/
def takePlain (r : Reading) (w : Word) : Except Request Reading :=
  match r.verb?, Verb.ofWord? w with
  | none, some v => .ok { r with verb? := some v, literal := v = .help }
  | _, _ => r.operand w

/-- Take the next word. -/
def take (r : Reading) (w : Word) : Except Request Reading :=
  if r.literal then r.operand w
  else match r.awaiting?, shape w with
    | some name, .plain => r.set name w
    | some _, _ => .error .refused
    | none, .escape => .ok { r with literal := true }
    | none, .long name value? => r.takeLong name value?
    | none, .short letter => r.takeShort letter
    | none, .plain => r.takePlain w

/-- The end of the command line. -/
def finish (r : Reading) : Request :=
  let paths : List Path := r.operands.map Path.mk
  let run (c : Command) : Request :=
    if paths = [] then .refused
    else .run c (r.inner.settingsFile?.or r.outer.settingsFile?)
      (r.inner.debounceMillis?.or r.outer.debounceMillis?)
  match r.awaiting?, r.verb? with
  | none, some .watch => run (.watch paths)
  | none, some .file => run (.file paths)
  | none, some .finishWrite => run (.finishWrite paths r.forceDebounce)
  | none, some .help =>
    if r.operands.length ≤ 1 && r.operands.all (fun w => (Verb.ofWord? w).isSome) then .help
    else .refused
  | _, _ => .refused

end Reading

/-- What a command line asks for. -/
def ofWords (words : List Word) : Request :=
  match words.foldlM Reading.take Reading.fresh with
  | .error answer => answer
  | .ok r => r.finish

end Request

end FileWatch
