import MathMarkup.Policy

/-!
# Events

What a compile reports besides its result: records for a log, and the questions
it put to a policy given as a rule.  A log is a list of events, the newest one
first.

## Main definitions

* `Event` — one report.
* `Event.message?` — the wording of a record.
-/

namespace MathMarkup

/-- Something that is reported while a compile runs. -/
inductive Event where
  /-- Irregular input passed with a warning. -/
  | warned (code detail : String)
  /-- The strict rule was asked. -/
  | strictAsked (breach : Breach)
  /-- The trust rule was asked. -/
  | trustAsked (request : Request)
  /-- A registry with all standard commands was made. -/
  | registered (commands layouts : Nat)
  /-- A macro was replaced. -/
  | expanding (name : String)
  /-- A text of so many bytes is about to be parsed. -/
  | parsing (bytes : Nat)
  /-- So many nodes are about to be laid out. -/
  | building (nodes : Nat)
  /-- Markup of so many bytes was written. -/
  | serialized (bytes : Nat)
  deriving DecidableEq, Repr

/-- Events, the newest first. -/
abbrev Log := List Event

/-- The wording of a record; questions to a rule have none. -/
def Event.message? : Event → Option String
  | .warned _ detail =>
      some ("LaTeX-incompatible input and strict mode is set to 'warn': " ++ detail)
  | .strictAsked _ => none
  | .trustAsked _ => none
  | .registered .. => some "registered built-in functions"
  | .expanding _ => some "expanding macro"
  | .parsing _ => some "parsing expression"
  | .building _ => some "building MathML tree"
  | .serialized _ => some "serialized MathML markup"

end MathMarkup
