import MathMarkup.Text.Bytes

/-!
# Schemes of URLs

The trust gate asks for the scheme of a URL.  The scheme is what stands before
the first colon, unless one of `\`, `/`, `#` or `?` comes earlier: then the URL
is relative.  A colon can be spelled as an entity of the surrounding markup, so
such a spelling before any of these characters makes the URL malformed.

## Main definitions

* `Url.startsEncodedColon` — whether a text begins with an entity for a colon.
* `Url.ending` — what ends the part of a URL that may be its scheme.
* `Url.scheme?` — the scheme of a URL.
-/

namespace MathMarkup.Url

/-- The scheme that is given for a relative URL. -/
def relative : String := "_relative"

/-- Blanks and control characters, which are skipped in front of a URL. -/
def isLeading (c : Char) : Bool := c.val ≤ 0x20

/-- The characters after which no scheme can follow. -/
def isStop (c : Char) : Bool := c == '\\' || c == '/' || c == '#' || c == '?'

/-- The characters of a scheme after its first letter. -/
def isSchemeChar (c : Char) : Bool := c.isAlphanum || c == '+' || c == '-' || c == '.'

/-- The name of a scheme in lower case, if the text is well formed. -/
def schemeName? : List Char → Option String
  | [] => none
  | c :: cs =>
      if c.isAlpha && cs.all isSchemeChar then
        some (String.ofList ((c :: cs).map Char.toLower))
      else none

/-- How many bytes of a text are searched for an entity. -/
def entityWindow : Nat := 32

/-- The part of a text that is searched for an entity: its first bytes, or all of
it where these end inside a character. -/
def entityText (cs : List Char) : List Char :=
  match Text.splitAt? (min (Text.byteLength cs) entityWindow) cs with
  | some (window, _) => window
  | none => cs

/-- The rest of a text after a given beginning. -/
def after? : List Char → List Char → Option (List Char)
  | [], cs => some cs
  | _ :: _, [] => none
  | b :: bs, c :: cs => if b = c then after? bs cs else none

/-- Whether a text begins with an entity for a colon: the named one, or a decimal
or hexadecimal number with any zeros in front that fit into the window. -/
def startsEncodedColon (cs : List Char) : Bool :=
  let text := (entityText cs).map Char.toLower
  (after? ['&', 'c', 'o', 'l', 'o', 'n'] text).isSome ||
    match after? ['&', '#'] text with
    | none => false
    | some ('x' :: digits) => (after? ['3', 'a'] (digits.dropWhile (· == '0'))).isSome
    | some digits => (after? ['5', '8'] (digits.dropWhile (· == '0'))).isSome

/-- What ends the part of a URL that may be its scheme. -/
inductive Ending where
  /-- A colon. -/
  | colon
  /-- A colon in disguise. -/
  | disguised
  /-- Neither, before the scheme is over. -/
  | absent
  deriving DecidableEq, Repr

/-- What ends the part of a URL that may be its scheme. -/
def ending : List Char → Ending
  | [] => .absent
  | c :: cs =>
      if c = ':' then .colon
      else if c = '&' ∧ startsEncodedColon (c :: cs) then .disguised
      else if isStop c then .absent
      else ending cs

/-- The scheme of a URL: its name in lower case, `relative` for a URL without
one, and nothing for a malformed one. -/
def scheme? (url : String) : Option String :=
  let text := url.toList.dropWhile isLeading
  match ending text with
  | .colon => schemeName? (text.takeWhile (· != ':'))
  | .disguised => none
  | .absent => some relative

end MathMarkup.Url
