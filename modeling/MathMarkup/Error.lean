import MathMarkup.Mode
import MathMarkup.Token.Basic
import MathMarkup.Node.Kind

/-!
# Errors

The first error ends a compile.  It has a cause and, where that is known, the
place in the document it is about; its message shows the text around that place
with the offending part underlined.

## Main definitions

* `Reason` — the causes, `Reason.message` their wording.
* `CompileError` — a cause and a place.
* `Span.excerpt?` — the text around a place, which has to be a proper range.
* `CompileError.message?`, `CompileError.message` — the whole message.
-/

namespace MathMarkup

/-- Why a compile failed. -/
inductive Reason where
  /-- The strict policy turned irregular input into an error. -/
  | strictViolation (code detail : String)
  /-- A command for text mode was used in math mode. -/
  | textModeOnly (command alternative : String)
  /-- A command lacks an argument. -/
  | missingArgument (command : String)
  /-- A command is not allowed in the mode it stands in. -/
  | wrongMode (command : String) (mode : Mode)
  /-- No command has this name. -/
  | undefinedCommand (name : String)
  /-- One token was wanted and another one found. -/
  | expectedToken (expected found : String)
  /-- A token cannot stand where it was found. -/
  | unexpectedToken (found : String)
  /-- A command of this name is already registered. -/
  | alreadyDefined (name : String)
  /-- The command has no handler. -/
  | noHandler (name : String)
  /-- No layout is registered for nodes of this kind. -/
  | unknownGroup (kind : NodeKind)
  /-- A layout was given a node of another kind. -/
  | kindMismatch (expected actual : NodeKind)
  /-- A pair of arrows has a label that names no pair. -/
  | unknownArrowPair (name : String)
  /-- The budget for macros is spent. -/
  | tooManyExpansions
  /-- The option record cannot be read. -/
  | invalidOptions
  /-- An option has a tag that is none of the known ones. -/
  | unknownTag
  /-- Written markup did not fit. -/
  | writeFailed
  deriving DecidableEq, Repr, Inhabited

namespace Reason

/-- The wording of a cause. -/
def message : Reason → String
  | strictViolation code detail =>
      "LaTeX-incompatible input and strict mode is set to 'error': " ++ detail
        ++ " [" ++ code ++ "]"
  | textModeOnly command alternative =>
      "\x7b" ++ command ++ "\x7d can be used only in text mode. Try " ++ alternative
  | missingArgument command => "Expected group as argument to '" ++ command ++ "'"
  | wrongMode command mode =>
      "Can't use function '" ++ command ++ "' in " ++ mode.name ++ " mode"
  | undefinedCommand name => "Undefined control sequence: " ++ name
  | expectedToken expected found => "Expected '" ++ expected ++ "', got '" ++ found ++ "'"
  | unexpectedToken found => "Unexpected '" ++ found ++ "'"
  | alreadyDefined name => "Function '" ++ name ++ "' is already defined"
  | noHandler name => "No handler registered for function '" ++ name ++ "'"
  | unknownGroup kind => "Got group of unknown type: " ++ kind.name
  | kindMismatch expected actual =>
      "Expected node of type " ++ expected.name ++ ", got " ++ actual.name
  | unknownArrowPair name => "Unknown stacked arrow: " ++ name
  | tooManyExpansions =>
      "Too many expansions: infinite loop or need to increase maxExpand setting"
  | invalidOptions => "Invalid option record"
  | unknownTag => "Invalid option value: Matching variant not found"
  | writeFailed => "Failed to write markup"

/-- Whether the cause is a command with wrong arguments, in the wrong mode or not
defined, or a token out of place. -/
def isUsage : Reason → Bool
  | textModeOnly .. | missingArgument .. | wrongMode .. | undefinedCommand ..
  | expectedToken .. | unexpectedToken .. => true
  | _ => false

/-- Whether the cause is the strict policy. -/
def isStrictViolation : Reason → Bool
  | strictViolation .. => true
  | _ => false

end Reason

/-! ### Excerpts -/

namespace Span

/-- How many bytes of the text are shown on each side of a place. -/
def excerptMargin : Nat := 15

/-- Where the excerpt around a span begins: a margin before the span, moved back
to a boundary of the text. -/
def excerptStart (s : Span) : Nat :=
  Text.floorBoundary (s.start - excerptMargin) s.document.text.toList

/-- Where the excerpt around a span ends: a margin after the span, moved on to a
boundary of the text. -/
def excerptStop (s : Span) : Nat :=
  Text.ceilBoundary (min (s.stop + excerptMargin) s.document.text.utf8ByteSize)
    s.document.text.toList

/-- A text with a low line under each character. -/
def underline (cs : List Char) : List Char :=
  cs.flatMap fun c => [c, '\u0332']

/-- The excerpt around a span: the text on both sides of it, the span itself
underlined, and an ellipsis where the document goes on.  Nothing is shown unless
each of the three pieces is a proper range of the document. -/
def excerpt? (s : Span) : Option String := do
  let before ← Text.slice? s.document.text.toList s.excerptStart s.start
  let marked ← s.chars?
  let after ← Text.slice? s.document.text.toList s.stop s.excerptStop
  return (if 0 < s.excerptStart then "\u2026" else "")
    ++ String.ofList before
    ++ String.ofList (underline marked)
    ++ String.ofList after
    ++ (if s.excerptStop < s.document.text.utf8ByteSize then "\u2026" else "")

/-- Where a span stands, in words. -/
def bearing (s : Span) : String :=
  if s.start = s.document.text.utf8ByteSize then " at end of input: "
  else " at position " ++ (s.start + 1).repr ++ ": "

/-- Where a span stands, in words, and the text around it. -/
def context? (s : Span) : Option String := s.excerpt?.map (s.bearing ++ ·)

end Span

/-! ### Located errors -/

/-- A cause of failure and the place it is about. -/
structure CompileError where
  /-- What went wrong. -/
  reason : Reason
  /-- The place, if it is known. -/
  place : Option Span := none
  deriving DecidableEq, Repr, Inhabited

namespace CompileError

/-- An error at a place.  A span that ends before it starts is no place. -/
def located (reason : Reason) (span : Option Span) : CompileError :=
  ⟨reason, span.filter fun s => s.start ≤ s.stop⟩

/-- An error at a token, if there is one. -/
def atToken (reason : Reason) (token : Option Token) : CompileError :=
  located reason (token.bind Token.span)

/-- The offset of the place in its document. -/
def position (e : CompileError) : Option Nat := e.place.map Span.start

/-- The number of bytes the place takes up. -/
def length (e : CompileError) : Option Nat := e.place.map fun s => s.stop - s.start

/-- The cause of an error, without the place. -/
def summary (e : CompileError) : String := "Math parse error: " ++ e.reason.message

/-- The whole message of an error; nothing if its place cannot be shown. -/
def message? (e : CompileError) : Option String :=
  match e.place with
  | none => some e.summary
  | some s => s.context?.map (e.summary ++ ·)

/-- The message of an error, without a place that cannot be shown. -/
def message (e : CompileError) : String := e.message?.getD e.summary

end CompileError

end MathMarkup
