import MathMarkup.Registry.Basic

/-!
# Overlaps

Contents that take up no width, so that they overlap what stands to their left,
to their right, or on both sides.  Each of these commands has a form for math
mode and one for text mode; the latter is irregular in math mode.

## Main definitions

* `lapNames` — the names of the commands.
* `lapSide` — the side that a name stands for.
* `Handler.lap`, `Command.lap` — what the commands do.
* `lapRegistrations` — the commands of this family under their names.
-/

namespace MathMarkup

/-- The overlaps, for math mode and then for text mode. -/
def lapNames : List String :=
  ["\\mathllap", "\\mathrlap", "\\mathclap", "\\clap", "\\llap", "\\rlap"]

/-- Takes the beginning of the names for math mode off a name, as often as it is
there. -/
def dropMath : List Char → List Char
  | '\\' :: 'm' :: 'a' :: 't' :: 'h' :: rest => dropMath rest
  | cs => cs

/-- The side that a name stands for. -/
def lapSide (name : String) : Side :=
  match String.ofList ((dropMath name.toList).dropWhile (· == '\\')) with
  | "llap" => .left
  | "clap" => .center
  | _ => .right

/-- Whether a name is one for math mode. -/
def isMathForm (name : String) : Bool :=
  match name.toList with
  | '\\' :: 'm' :: 'a' :: 't' :: 'h' :: _ => true
  | _ => false

/-- The name for math mode that belongs to one for text mode. -/
def mathForm (name : String) : String := "\\math" ++ String.ofList name.toList.tail

namespace Handler

/-- The use of a form for text mode in math mode. -/
def lapBreach (i : Invocation) : Breach :=
  ⟨"textModeLap", i.name ++ " can be used only in text mode", i.token⟩

/-- The node of an overlap, given its body. -/
def lapReply (i : Invocation) : Reply :=
  match i.required.head? with
  | some body => .node (.lap i.site (lapSide i.name) body)
  | none => .fail ⟨.missingArgument i.name, none⟩

/-- An overlap.  A form for text mode that stands in math mode is an error if the
strict policy says so. -/
def lap : Handler := fun o i =>
  if !isMathForm i.name && i.mode != .text then
    match o.isStrictAbout (lapBreach i) with
    | (true, log) => (.fail (.atToken (.textModeOnly i.name (mathForm i.name)) i.token), log)
    | (false, log) => (lapReply i, log)
  else (lapReply i, [])

end Handler

/-- The command of an overlap. -/
def Command.lap : Command :=
  { kind := some .lap, required := 1, inText := true, handler := some Handler.lap }

/-- The commands for overlaps. -/
def lapRegistrations {β : Type} (own : NodeKind → β) : List (Registration β) :=
  [.define { names := lapNames, command := .lap, layout := own .lap }]

end MathMarkup
