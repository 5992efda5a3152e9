import FileWatch.Duration
import FileWatch.Failure
import FileWatch.Toml.Document

/-!
# Settings

The settings of a watcher, with their defaults, and their two ways through a text: `ofToml` reads
what a document says about them, `toToml` writes them.  A document may hold other keys as well;
they are left alone.  Integers of a document end at `2 ^ 63 - 1` while a setting goes up to
`2 ^ 64 - 1`, so a setting beyond that has no written form.
-/

namespace FileWatch

/-- How many bytes the header of an event record takes. -/
def recordHeaderLength : Nat := 16

/-- The least read buffer that holds a record with the longest name. -/
def minReadBuffer : Nat := recordHeaderLength + 256

/-- The read buffer where nothing else is said: room for 4096 records without a name. -/
def defaultReadBuffer : Nat := recordHeaderLength * 4096

/-- The quiet window where nothing else is said, in milliseconds. -/
def defaultDebounceMillis : Nat := 100

/-- The settings of a watcher. -/
structure Settings where
  /-- How many events may wait to be taken; no limit if absent. -/
  eventCapacity : Option UInt64
  /-- How many bytes are asked of the kernel in one read. -/
  readBufferBytes : UInt64
  /-- How long a removal waits for the kernel to confirm it; for ever if absent. -/
  removeTimeoutMillis : Option UInt64
  /-- How long a file has to be quiet before a burst of writes counts as finished. -/
  debounceMillis : UInt64
deriving DecidableEq, Repr

namespace Settings

/-- The settings where nothing else is said. -/
def default : Settings :=
  { eventCapacity := none
    readBufferBytes := UInt64.ofNat defaultReadBuffer
    removeTimeoutMillis := none
    debounceMillis := UInt64.ofNat defaultDebounceMillis }

instance : Inhabited Settings := ⟨default⟩

/-- The length of the read buffer: what was asked for, but never too short for a record. -/
def readBufferLength (s : Settings) : Nat := max s.readBufferBytes.toNat minReadBuffer

/-- How long a removal waits. -/
def removeTimeout? (s : Settings) : Option Duration :=
  s.removeTimeoutMillis.map fun ms => .ofMillis ms.toNat

def debounceWindow (s : Settings) : Duration := .ofMillis s.debounceMillis.toNat

/-- The settings with a limit on how long a removal waits. -/
def withRemoveTimeout (s : Settings) (d : Duration) : Settings :=
  { s with removeTimeoutMillis := some d.millis }

/-- The settings with another quiet window. -/
def withDebounce (s : Settings) (d : Duration) : Settings := { s with debounceMillis := d.millis }

/-- The settings with a limit on the events that wait. -/
def withEventCapacity (s : Settings) (capacity : UInt64) : Settings :=
  { s with eventCapacity := some capacity }

/-! ## Reading -/

/-- The settings that a document can name. -/
inductive Field where
  | eventCapacity
  | readBufferBytes
  | removeTimeoutMillis
  | debounceMillis
deriving DecidableEq, Repr

namespace Field

def key : Field → String
  | eventCapacity => "event_capacity"
  | readBufferBytes => "read_buffer_bytes"
  | removeTimeoutMillis => "remove_timeout_ms"
  | debounceMillis => "debounce_ms"

/-- The settings in the order in which they are written. -/
def all : List Field := [eventCapacity, readBufferBytes, removeTimeoutMillis, debounceMillis]

/-- The setting of a given key. -/
def ofKey? (name : String) : Option Field := all.find? fun f => f.key == name

/-- What kind of number a setting is. -/
def wanted : Field → Toml.Wanted
  | eventCapacity | readBufferBytes => .size
  | removeTimeoutMillis | debounceMillis => .count

/-- The settings with one of them changed. -/
def set (f : Field) (n : UInt64) (s : Settings) : Settings :=
  match f with
  | eventCapacity => { s with eventCapacity := some n }
  | readBufferBytes => { s with readBufferBytes := n }
  | removeTimeoutMillis => { s with removeTimeoutMillis := some n }
  | debounceMillis => { s with debounceMillis := n }

/-- The value of a setting, if it has one. -/
def get? (f : Field) (s : Settings) : Option UInt64 :=
  match f with
  | eventCapacity => s.eventCapacity
  | readBufferBytes => some s.readBufferBytes
  | removeTimeoutMillis => s.removeTimeoutMillis
  | debounceMillis => some s.debounceMillis

end Field

/-- A value as a setting, or what it is instead. -/
def numberOf : Toml.Value → Except Toml.Found UInt64
  | .integer n => if n < 0 then .error (.integer n) else .ok (UInt64.ofNat n.toNat)
  | .string s => .error (.string s)
  | .float x => .error (.float x)
  | .boolean b => .error (.boolean b)
  | .array _ | .tables _ => .error .sequence
  | .moment _ | .table _ _ => .error .map

/-- A setting that a document gives a value it cannot have, and where. -/
structure Mismatch where
  span : Toml.Span
  found : Toml.Found
  wanted : Toml.Wanted
deriving DecidableEq, Repr

/-- Take one entry of a document into the settings.  An entry of no setting changes nothing. -/
def take (s : Settings) (e : Toml.Key × Option Toml.Span × Toml.Value) :
    Except Mismatch Settings :=
  match Field.ofKey? e.1.name with
  | none => .ok s
  | some f =>
    match numberOf e.2.2 with
    | .ok n => .ok (f.set n s)
    | .error found => .error ⟨e.2.1.getD e.1.span, found, f.wanted⟩

/-- The settings that the entries of a document give, the first mismatch winning. -/
def ofEntries (es : Toml.Entries) : Except Mismatch Settings := es.foldlM take default

/-- The settings that a text gives. -/
def ofToml (text : String) : Except SettingsFault Settings :=
  match Toml.read? text with
  | none => .error .notToml
  | some es =>
    match ofEntries es with
    | .ok s => .ok s
    | .error m => .error (.misfit ⟨.ofSpan text m.span, m.found, m.wanted⟩)

/-! ## Writing -/

def line (f : Field) (n : UInt64) : String := f.key ++ " = " ++ toString n.toNat ++ "\n"

/-- The settings as a document, one line for each that has a value. -/
def toToml (s : Settings) : Option String :=
  let given := Field.all.filterMap fun f => (f.get? s).map fun n => (f, n)
  if given.all fun e => e.2.toNat < Toml.integerLimit then
    some (String.join (given.map fun e => line e.1 e.2))
  else none

end Settings

end FileWatch
