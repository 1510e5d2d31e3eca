import MathMarkup.Token.Basic
import MathMarkup.Url.Scheme

/-!
# Policies

Two questions are left to the one who starts a compile: what happens with input
that is irregular as LaTeX, and which commands are trusted with links and the
like.  Either is answered once and for all or by a rule that looks at the case.

## Main definitions

* `StrictMode`, `Breach`, `Strictness` — what to do with irregular input, one
  piece of it, and the policy.
* `Request`, `Trust` — one use of a command that needs trust, and the policy.
-/

namespace MathMarkup

/-! ### Strictness -/

/-- What is done with irregular input. -/
inductive StrictMode where
  /-- It passes in silence. -/
  | ignore
  /-- It passes with a warning. -/
  | warn
  /-- It ends the compile. -/
  | error
  deriving DecidableEq, Repr, Inhabited

namespace StrictMode

/-- Strict means error, not strict means ignore. -/
def ofBool (strict : Bool) : StrictMode := if strict then error else ignore

/-- The mode with the given tag. -/
def ofTag? : String → Option StrictMode
  | "ignore" => some ignore
  | "warn" => some warn
  | "error" => some error
  | _ => none

/-- The mode as a policy shows it. -/
def describe : StrictMode → String
  | ignore => "Ignore"
  | warn => "Warn"
  | error => "Error"

end StrictMode

/-- A piece of irregular input. -/
structure Breach where
  /-- A short name for the kind of irregularity. -/
  code : String
  /-- What is irregular, in words. -/
  detail : String
  /-- The token it is about, if there is one. -/
  token : Option Token := none
  deriving DecidableEq, Repr

/-- The policy for irregular input. -/
inductive Strictness where
  /-- The same mode for everything. -/
  | mode (m : StrictMode)
  /-- Strict or not. -/
  | flag (strict : Bool)
  /-- A rule; input it has no answer for is ignored. -/
  | rule (answer : Breach → Option StrictMode)

namespace Strictness

/-- The mode a policy chooses for a piece of input. -/
def resolve : Strictness → Breach → StrictMode
  | mode m, _ => m
  | flag strict, _ => StrictMode.ofBool strict
  | rule answer, breach => (answer breach).getD .ignore

/-- The policy in words. -/
def describe : Strictness → String
  | mode m => "StrictSetting::Mode(" ++ m.describe ++ ")"
  | flag strict => "StrictSetting::Bool(" ++ (if strict then "true" else "false") ++ ")"
  | rule _ => "StrictSetting::Function(<fn>)"

end Strictness

/-! ### Trust -/

/-- A use of a command that needs trust. -/
structure Request where
  /-- The command. -/
  command : String := ""
  /-- The URL it leads to. -/
  url : Option String := none
  /-- The scheme of the URL. -/
  protocol : Option String := none
  /-- A class it puts on the output. -/
  cssClass : Option String := none
  /-- An identifier it puts on the output. -/
  id : Option String := none
  /-- A style it puts on the output. -/
  style : Option String := none
  deriving DecidableEq, Repr, Inhabited

/-- The request with the scheme of its URL filled in, where it is missing and the
URL has one. -/
def Request.withProtocol (r : Request) : Request :=
  match r.protocol, r.url with
  | none, some url => { r with protocol := Url.scheme? url }
  | _, _ => r

/-- The policy for commands that need trust. -/
inductive Trust where
  /-- Trust all of them, or none. -/
  | flag (trusted : Bool)
  /-- A rule; a request it has no answer for is not trusted. -/
  | rule (answer : Request → Option Bool)

namespace Trust

/-- Whether a policy trusts a request. -/
def allows : Trust → Request → Bool
  | flag trusted, _ => trusted
  | rule answer, request => (answer request).getD false

/-- The policy in words. -/
def describe : Trust → String
  | flag trusted => "TrustSetting::Bool(" ++ (if trusted then "true" else "false") ++ ")"
  | rule _ => "TrustSetting::Function(<fn>)"

end Trust

end MathMarkup
