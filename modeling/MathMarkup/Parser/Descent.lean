import MathMarkup.Parser.Basic

/-!
# Reading by recursive descent

What the stack of the parser does step by step can also be written as procedures that call
each other: an expression is a sequence of atoms, an atom is a group, a character or a
command, and a command reads its arguments.  Here nothing is kept on a stack.  The mode is
part of the parser, as the token in view is: it is switched in front of an argument and
switched back behind it, and every procedure reads it where it needs it.

Calls can be nested as deep as the text is, and a text may grow as its macros are
replaced.  So the procedures are told how deep they may call, and nothing comes out where
they call deeper.  Nothing in their text says that there is a depth which is enough, or
that a failure inside of an argument leaves the mode as it was.

## Main definitions

* `Arguments` — the arguments of a command that have been read.
* `Procedure` — what changes a parser and returns or fails, if anything comes out.
* `Descent.expression`, `Descent.atom`, `Descent.group`, `Descent.command`,
  `Descent.arguments`, `Descent.argument`, `Descent.invoke` — the procedures.
* `Descent.document` — read everything.
-/

namespace MathMarkup

/-- What changes a parser and returns or fails.  A failure keeps the changes.  If nothing
comes out, there is neither a result nor a parser. -/
abbrev Procedure (α : Type) := ExceptT CompileError (StateT Parser Option) α

/-- The arguments of a command that have been read. -/
structure Arguments where
  /-- The optional ones; one that was left out is nothing. -/
  optional : List (Option Node) := []
  /-- The required ones. -/
  required : List Node := []

namespace Arguments

/-- How many arguments there are. -/
def number (args : Arguments) : Nat := args.optional.length + args.required.length

/-- One more optional argument. -/
def addOptional (args : Arguments) (n : Option Node) : Arguments :=
  { args with optional := args.optional ++ [n] }

/-- One more required argument. -/
def addRequired (args : Arguments) (n : Node) : Arguments :=
  { args with required := args.required ++ [n] }

end Arguments

namespace Procedure

variable {α : Type}

/-- One step of a parser, which calls nothing. -/
def step (f : Parser → Except CompileError α × Parser) : Procedure α := fun p => some (f p)

/-- Nothing comes out where a call is too deep. -/
def exhausted : Procedure α := fun _ => none

/-- Looks at the token in view. -/
def fetch (env : Environment) : Procedure Token := step (Parser.fetch env)

/-- Uses up the token in view. -/
def consume : Procedure Unit := step fun p => (.ok (), p.consume)

/-- The mode of the parser. -/
def mode : Procedure Mode := step fun p => (.ok p.mode, p)

/-- Adds to what was reported. -/
def report (log : Log) : Procedure Unit := step fun p => (.ok (), p.report log)

/-- Uses up the blanks that mean nothing: in math mode all of them, else none. -/
def skipIgnored (env : Environment) : Procedure Unit :=
  step fun p => if p.mode = .math then p.skipBlanks env else (.ok (), p)

/-- Looks at the next token of an expression, behind the blanks that mean nothing. -/
def view (env : Environment) : Procedure Token := do
  skipIgnored env
  fetch env

/-- Looks at the next token that is no blank. -/
def viewBehindBlanks (env : Environment) : Procedure Token := do
  step (Parser.skipBlanks env)
  fetch env

/-- Reads a token that must stand for itself. -/
def character (t : Token) : Procedure Node :=
  step fun p =>
    if t.isCharacter then (.ok (t.node p.mode), p.consume)
    else (.error (.located (.unexpectedToken t.text) t.span), p)

end Procedure

namespace Descent

open Procedure

mutual

/-- Reads the nodes of an expression, up to the end, a closing brace or a given token, which
is left in place.  The nodes that are there already are given, the newest first. -/
def expression (env : Environment) : Nat → Option String → List Node → Procedure (List Node)
  | 0, _, _ => exhausted
  | depth + 1, stop, items => do
      let t ← view env
      if Stack.closes stop t then return items.reverse
      else
        let n ← atom env depth
        expression env depth stop (n :: items)

/-- Reads a group, a command or a character. -/
def atom (env : Environment) : Nat → Procedure Node
  | 0 => exhausted
  | depth + 1 => do
      let t ← fetch env
      if t.text = "\x7b" then group env depth none "\x7d" t
      else if t.isControl then command env depth t
      else character t

/-- Reads a group, which starts with a given token that is in view and ends with a given
text. -/
def group (env : Environment) : Nat → Option String → String → Token → Procedure Node
  | 0, _, _, _ => exhausted
  | depth + 1, stop, closing, opening => do
      consume
      let nodes ← expression env depth stop []
      let t ← fetch env
      step (Parser.expect env closing true)
      let mode ← mode
      return .group ⟨mode, Span.cover opening.span t.span⟩ nodes

/-- Reads the arguments of the command that a token names, and does what it does. -/
def command (env : Environment) : Nat → Token → Procedure Node
  | 0, _ => exhausted
  | depth + 1, t => do
      match env.registry.command? t.text with
      | none => throw (.located (.undefinedCommand t.text) t.span)
      | some command =>
          consume
          let mode ← mode
          if command.allowedIn mode then
            let args ← arguments env depth t.text command {}
            invoke env depth t.text (some t) args
          else throw (.located (.wrongMode t.text mode) t.span)

/-- Does what a registered command does.  It may take more of the text. -/
def invoke (env : Environment) : Nat → String → Option Token → Arguments → Procedure Node
  | 0, _, _, _ => exhausted
  | depth + 1, name, token, args => do
      match env.registry.command? name with
      | none => throw ⟨.noHandler name, none⟩
      | some command =>
          let mode ← mode
          let (reply, log) :=
            command.run env.options ⟨name, token, mode, args.required, args.optional⟩
          report log
          match reply with
          | .node n => return n
          | .fail e => throw e
          | .readUntil stop finish =>
              let nodes ← expression env depth stop []
              return finish nodes

/-- Reads the arguments that a command lacks. -/
def arguments (env : Environment) : Nat → String → Command → Arguments → Procedure Arguments
  | 0, _, _, _ => exhausted
  | depth + 1, name, command, args => do
      if args.number < command.optional + command.required then
        let args ← argument env depth name command args
        arguments env depth name command args
      else return args

/-- Reads one more argument, in the mode that the command asks for.  Behind the argument the
mode is again what it was, also if reading the argument failed. -/
def argument (env : Environment) : Nat → String → Command → Arguments → Procedure Arguments
  | 0, _, _, _ => exhausted
  | depth + 1, name, command, args => fun p => do
      let outer := p.mode
      let p := p.switchMode ((command.argumentType args.number).mode outer)
      let (result, p) ←
        if args.number < command.optional then optionalArgument env depth args p
        else requiredArgument env depth name args p
      let p := p.switchMode outer
      return (result, p)

/-- Reads an argument in brackets, if there is one. -/
def optionalArgument (env : Environment) : Nat → Arguments → Procedure Arguments
  | 0, _ => exhausted
  | depth + 1, args => do
      let t ← viewBehindBlanks env
      if t.text = "[" then
        let n ← group env depth (some "]") "]" t
        return args.addOptional (some n)
      else return args.addOptional none

/-- Reads an argument in braces or an atom, which becomes a group by itself. -/
def requiredArgument (env : Environment) : Nat → String → Arguments → Procedure Arguments
  | 0, _, _ => exhausted
  | depth + 1, name, args => do
      let t ← viewBehindBlanks env
      if t.isEnd || t.text == "\x7d" || t.text == "]" then
        throw (.located (.missingArgument name) t.span)
      else if t.text = "\x7b" then
        let n ← group env depth none "\x7d" t
        return args.addRequired n
      else
        let n ← atom env depth
        let mode ← mode
        return args.addRequired (.group ⟨mode, t.span⟩ [n])

end

/-- Reads everything. -/
def document (env : Environment) (depth : Nat) : Procedure (List Node) := do
  let nodes ← expression env depth none []
  step (Parser.expect env Token.endText true)
  return nodes

end Descent

end MathMarkup
