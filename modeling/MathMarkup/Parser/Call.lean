import MathMarkup.Registry.Basic
import MathMarkup.Text.Alphabetic

/-!
# Calls of commands

While the arguments of a command are read, the command is a call that is not yet
complete: it wants its optional arguments first, then the required ones.

## Main definitions

* `Environment` — the registry and the options of a compile.
* `Call` — a command with the arguments read so far.
* `Call.accept`, `Call.skip` — the next argument is there, or is left out.
* `Environment.openCall` — the call that a token starts.
-/

namespace MathMarkup

/-- What a compile works with. -/
structure Environment where
  /-- The commands. -/
  registry : Registry
  /-- The options. -/
  options : Options := {}

/-- A command with the arguments read so far. -/
structure Call where
  /-- The name of the command. -/
  name : String
  /-- The token that named it. -/
  token : Option Token
  /-- The command. -/
  command : Command
  /-- The mode around the command. -/
  mode : Mode
  /-- The optional arguments so far. -/
  optional : List (Option Node) := []
  /-- The required arguments so far. -/
  required : List Node := []
  /-- While an argument without braces is read: the place it starts at. -/
  bare : Option (Option Span) := none

namespace Call

/-- Whether the next argument is an optional one. -/
def wantsOptional (c : Call) : Bool := c.optional.length < c.command.optional

/-- Whether all arguments are there. -/
def isComplete (c : Call) : Bool :=
  c.command.optional ≤ c.optional.length && c.command.required ≤ c.required.length

/-- The mode in which the next argument is read. -/
def argumentMode (c : Call) : Mode :=
  (c.command.argumentType (c.optional.length + c.required.length)).mode c.mode

/-- The node of an argument: one without braces becomes a group by itself. -/
def argument (c : Call) (n : Node) : Node :=
  match c.bare with
  | some span => .group ⟨c.argumentMode, span⟩ [n]
  | none => n

/-- The call with its next argument. -/
def accept (c : Call) (n : Node) : Call :=
  if c.wantsOptional then
    { c with optional := c.optional ++ [some (c.argument n)], bare := none }
  else { c with required := c.required ++ [c.argument n], bare := none }

/-- The call with its next argument, an optional one, left out. -/
def skip (c : Call) : Call := { c with optional := c.optional ++ [none] }

/-- The use of a command that a complete call is. -/
def invocation (c : Call) : Invocation :=
  { name := c.name, token := c.token, mode := c.mode, required := c.required
    optional := c.optional }

/-- Does what the command of a complete call does. -/
def invoke (env : Environment) (c : Call) : Reply × Log :=
  c.command.run env.options c.invocation

/-- How many optional arguments are still to be read or left out. -/
def optionalLeft (c : Call) : Nat := c.command.optional - c.optional.length

@[simp] theorem command_accept (c : Call) (n : Node) : (c.accept n).command = c.command := by
  unfold accept
  split <;> rfl

@[simp] theorem mode_accept (c : Call) (n : Node) : (c.accept n).mode = c.mode := by
  unfold accept
  split <;> rfl

theorem optionalLeft_accept_le (c : Call) (n : Node) :
    (c.accept n).optionalLeft ≤ c.optionalLeft := by
  unfold accept
  split
  · simp only [optionalLeft, List.length_append, List.length_cons, List.length_nil]
    omega
  · exact Nat.le_refl _

theorem optionalLeft_skip_lt {c : Call} (h : c.wantsOptional = true) :
    c.skip.optionalLeft < c.optionalLeft := by
  simp only [wantsOptional, decide_eq_true_eq] at h
  simp only [optionalLeft, skip, List.length_append, List.length_cons, List.length_nil]
  omega

end Call

/-- The call that a token starts.  With an error it is told whether the token is
used up: an unknown name stays in place, a command that is not allowed here does
not. -/
def Environment.openCall (env : Environment) (t : Token) (mode : Mode) :
    Except (Bool × CompileError) Call :=
  match env.registry.command? t.text with
  | none => .error (false, .located (.undefinedCommand t.text) t.span)
  | some command =>
      if command.allowedIn mode then
        .ok { name := t.text, token := some t, command := command, mode := mode }
      else .error (true, .located (.wrongMode t.text mode) t.span)

/-! ### Characters -/

/-- The characters that mean something in markup which is not supported. -/
def unsupported : List String := ["^", "_", "&", "#", "$"]

/-- Whether a token can stand for itself. -/
def Token.isCharacter (t : Token) : Bool := t.text != "\x7d" && !unsupported.contains t.text

/-- Whether the first character of a token is alphabetic. -/
def Token.isAlphabetic (t : Token) : Bool :=
  match t.text.toList with
  | c :: _ => Text.isAlphabetic c
  | [] => false

/-- The node of a token that stands for itself: a letter in math mode, else a
symbol. -/
def Token.node (t : Token) (mode : Mode) : Node :=
  if mode = .math ∧ t.isAlphabetic then .letter ⟨mode, t.span⟩ t.text
  else .symbol ⟨mode, t.span⟩ t.text

end MathMarkup
