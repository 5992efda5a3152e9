import FileWatch.Failure

/-!
# Reports

What the user reads when a command fails: what could not be done, and under it the chain of causes.
A cause can take several lines.  All of them are set in, and where there is more than one cause they
are numbered.
-/

namespace FileWatch

/-- What could not be done, and why. -/
structure Report where
  message : String
  /-- The causes, outermost first. -/
  causes : List String
deriving DecidableEq, Repr

namespace Report

/-- A report without a cause. -/
def plain (message : String) : Report := ⟨message, []⟩

/-- What a failure kept from being done. -/
def ofFailure (message : String) (f : Failure) : Report := ⟨message, f.chain⟩

/-- All messages, outermost first. -/
def chain (r : Report) : List String := r.message :: r.causes

/-- A text behind a label, its other lines set in by so much. -/
def hang (label : String) (indent : Nat) (text : String) : String :=
  label ++ ("\n".pushn ' ' indent).intercalate (text.splitOn "\n")

def numbered (n : Nat) (cause : String) : String :=
  hang ("".pushn ' ' (5 - (toString n).length) ++ toString n ++ ": ") 7 cause

/-- The causes, one below the other. -/
def listed : List String → List String
  | [cause] => [hang "    " 4 cause]
  | causes => causes.zipIdx.map fun (cause, n) => numbered n cause

/-- The report as it is printed. -/
def shown (r : Report) : String :=
  let below := if r.causes = [] then "" else "\n\nCaused by:\n" ++ "\n".intercalate (listed r.causes)
  "Error: " ++ r.message ++ below ++ "\n"

end Report

end FileWatch
