import MathMarkup.Error
import MathMarkup.Event

/-!
# Options

What a compile can be told: how to lay out, which macros to replace and how
often, and the policies.  Options are made from choices, each of which may be
left open.

## Main definitions

* `Options` — all options of a compile.
* `Choices`, `Options.ofChoices` — options of which some are left open.
* `Options.report`, `Options.isStrictAbout` — irregular input under the strict
  policy, as an error of its own or as a question.
* `Options.judge` — a request under the trust policy.
-/

namespace MathMarkup

/-- Macro names with the markup that replaces them. -/
abbrev MacroTable := List (String × String)

/-- Adds a macro; one of the same name is replaced. -/
def MacroTable.insert (table : MacroTable) (name replacement : String) : MacroTable :=
  (name, replacement) :: table.filter fun entry => entry.1 != name

/-- The options of a compile. -/
structure Options where
  /-- Lay out as a block of its own. -/
  displayMode : Bool := false
  /-- Attach the markup that was compiled. -/
  annotate : Bool := false
  /-- Number equations on the left. -/
  leqno : Bool := false
  /-- Color in which errors are shown. -/
  errorColor : String := "#b22222"
  /-- Keep contents clear of equation tags. -/
  preventTagLap : Bool := false
  /-- The macros. -/
  macros : MacroTable := []
  /-- Write for an XML document. -/
  xml : Bool := false
  /-- Color commands act on the text that follows. -/
  colorIsTextColor : Bool := false
  /-- The policy for irregular input. -/
  strict : Strictness := .flag false
  /-- The policy for commands that need trust. -/
  trust : Trust := .flag false
  /-- The largest size a user may ask for, in em. -/
  maxSize : Float := 1.0 / 0.0
  /-- How many macros may be replaced. -/
  maxExpand : Nat := 1000

/-- Options of which some are left open. -/
structure Choices where
  /-- Lay out as a block of its own. -/
  displayMode : Option Bool := none
  /-- Attach the markup that was compiled. -/
  annotate : Option Bool := none
  /-- Number equations on the left. -/
  leqno : Option Bool := none
  /-- Color in which errors are shown. -/
  errorColor : Option String := none
  /-- Keep contents clear of equation tags. -/
  preventTagLap : Option Bool := none
  /-- The macros. -/
  macros : Option MacroTable := none
  /-- Write for an XML document. -/
  xml : Option Bool := none
  /-- Color commands act on the text that follows. -/
  colorIsTextColor : Option Bool := none
  /-- The policy for irregular input. -/
  strict : Option Strictness := none
  /-- The policy for commands that need trust. -/
  trust : Option Trust := none
  /-- The largest size a user may ask for, in em. -/
  maxSize : Option Float := none
  /-- How many macros may be replaced. -/
  maxExpand : Option Int := none

namespace Options

/-- A size that is not above zero, or is no number, counts as zero. -/
def floorSize (size : Float) : Float := if 0.0 < size then size else 0.0

/-- The options for some choices: what is left open takes its default, and limits
below zero become zero. -/
def ofChoices (c : Choices) : Options :=
  let defaults : Options := {}
  { displayMode := c.displayMode.getD defaults.displayMode
    annotate := c.annotate.getD defaults.annotate
    leqno := c.leqno.getD defaults.leqno
    errorColor := c.errorColor.getD defaults.errorColor
    preventTagLap := c.preventTagLap.getD defaults.preventTagLap
    macros := c.macros.getD defaults.macros
    xml := c.xml.getD defaults.xml
    colorIsTextColor := c.colorIsTextColor.getD defaults.colorIsTextColor
    strict := c.strict.getD defaults.strict
    trust := c.trust.getD defaults.trust
    maxSize := floorSize (c.maxSize.getD defaults.maxSize)
    maxExpand := (c.maxExpand.map Int.toNat).getD defaults.maxExpand }

/-! ### Asking the policies -/

/-- The mode the strict policy chooses for a piece of input, and what is reported
on the way: the question, if the policy is a rule, and the warning. -/
def consult (o : Options) (breach : Breach) : StrictMode × Log :=
  let mode := o.strict.resolve breach
  let asked := match o.strict with
    | .rule _ => [Event.strictAsked breach]
    | _ => []
  let warned := match mode with
    | .warn => [Event.warned breach.code breach.detail]
    | _ => []
  (mode, warned ++ asked)

/-- Reports irregular input.  It is an error if the strict policy says so. -/
def report (o : Options) (breach : Breach) : Except CompileError Unit × Log :=
  let (mode, log) := o.consult breach
  let result := match mode with
    | .error => .error (.atToken (.strictViolation breach.code breach.detail) breach.token)
    | _ => .ok ()
  (result, log)

/-- Whether the strict policy makes irregular input an error; the error itself is
left to the one who asks. -/
def isStrictAbout (o : Options) (breach : Breach) : Bool × Log :=
  let (mode, log) := o.consult breach
  (mode == .error, log)

/-- Whether a request is trusted.  The policy sees the request with the scheme of
its URL, and so does the one who asks. -/
def judge (o : Options) (request : Request) : Bool × Request × Log :=
  let request := request.withProtocol
  let asked := match o.trust with
    | .rule _ => [Event.trustAsked request]
    | _ => []
  (o.trust.allows request, request, asked)

end Options

end MathMarkup
