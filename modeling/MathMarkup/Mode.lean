/-!
# Modes

Markup is read in one of two modes.  In math mode letters are identifiers and
blanks mean nothing; in text mode every character, blanks included, stands for
itself.

## Main definitions

* `Mode` — the two modes.
* `ArgumentType`, `ArgumentType.mode` — the mode in which an argument of a
  command is read.
-/

namespace MathMarkup

/-- The two ways of reading markup. -/
inductive Mode where
  /-- Letters are identifiers, blanks are ignored. -/
  | math
  /-- Characters are literal and blanks are kept. -/
  | text
  deriving DecidableEq, Repr, Inhabited

/-- The name of a mode in messages. -/
def Mode.name : Mode → String
  | .math => "math"
  | .text => "text"

/-- How a command wants one of its arguments read. -/
inductive ArgumentType where
  /-- In the mode the command itself stands in. -/
  | ambient
  /-- In math mode. -/
  | math
  /-- In text mode. -/
  | text
  deriving DecidableEq, Repr, Inhabited

/-- The mode in which an argument is read, given the mode around the command. -/
def ArgumentType.mode : ArgumentType → Mode → Mode
  | .ambient, around => around
  | .math, _ => .math
  | .text, _ => .text

end MathMarkup
