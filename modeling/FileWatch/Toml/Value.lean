import FileWatch.Decimal.Binary64

/-!
# TOML documents

A document is a list of entries in the order in which their keys first came in.  Each entry knows
where it stands in the text, so a complaint about a value can point at it.

Tables remember how they came to be, because the format lets some of them be written to later and
others not:

* a **header** table was opened by `[name]`, and may not be opened again;
* an **implied** table stands above a header's last name, and may still be opened;
* a **dotted** table was made by a dotted key, and may be added to by dotted keys only;
* an **inline** table is closed by its brace.
-/

namespace FileWatch.Toml

/-- A stretch of a text, in bytes from its start; the end is outside. -/
structure Span where
  start : Nat
  stop : Nat
deriving DecidableEq, Repr, Inhabited

/-- How a table came to be. -/
inductive TableForm where
  | header
  | implied
  | dotted
  | inline
deriving DecidableEq, Repr

/-- A name of a key, and where it was written. -/
structure Key where
  name : String
  span : Span
deriving DecidableEq, Repr

/-- A value of a document. -/
inductive Value where
  /-- A text. -/
  | string (text : String)
  /-- An integer that fits 64 bits, sign included. -/
  | integer (value : Int)
  /-- A floating-point number. -/
  | float (value : Binary64)
  /-- A truth value. -/
  | boolean (value : Bool)
  /-- A date, a time of day or both, as it was written. -/
  | moment (text : String)
  /-- Values between brackets. -/
  | array (items : List Value)
  /-- The tables opened by one `[[name]]`. -/
  | tables (items : List Value)
  /-- Named values.  An entry without a span of its own is found through its key. -/
  | table (form : TableForm) (entries : List (Key × Option Span × Value))
deriving Inhabited

/-- The entries of a table, oldest first. -/
abbrev Entries := List (Key × Option Span × Value)

end FileWatch.Toml
