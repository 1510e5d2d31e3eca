import MathMarkup.Parser.Stack
import MathMarkup.Token.Feed

/-!
# The parser

A parser reads tokens from a feed, one of which it can look at without using it
up.  What it is asked to read it reads by feeding tokens to a stack.  A failed
attempt leaves the parser where the failure was found, and it can be asked again.

## Main definitions

* `Parser` — mode, token in view, and feed.
* `Parser.fetch`, `Parser.consume`, `Parser.expect`, `Parser.skipBlanks` — single
  tokens.
* `Parser.run` — read until a stack is complete.
* `Parser.expression`, `Parser.arguments`, `Parser.command`, `Parser.document` —
  read an expression, the arguments of a command, a command, or everything.

## Main results

* `Parser.potential_fetch_le`, `Parser.potential_consume_lt` — what is still to
  come never grows, and gets less with every token but the end marker.
-/

namespace MathMarkup

/-- A parser. -/
structure Parser where
  /-- The mode in which it reads. -/
  mode : Mode := .math
  /-- The token in view. -/
  lookahead : Option Token := none
  /-- The tokens that follow. -/
  feed : Feed

namespace Parser

/-- A parser at the start of a text. -/
def ofText (text : String) : Parser := { feed := .ofDocument ⟨text, 0⟩ }

/-- Adds to what was reported. -/
def report (p : Parser) (log : Log) : Parser := { p with feed := p.feed.report log }

/-- What was reported so far, the newest first. -/
def log (p : Parser) : Log := p.feed.log

/-- Goes on in another mode. -/
def switchMode (p : Parser) (mode : Mode) : Parser := { p with mode := mode }

/-! ### Single tokens -/

/-- The token in view; if there is none, the next one comes into view. -/
def fetch (env : Environment) (p : Parser) : Except CompileError Token × Parser :=
  match p.lookahead with
  | some t => (.ok t, p)
  | none =>
      match p.feed.pull env.options with
      | (.ok t, feed) => (.ok t, { p with lookahead := some t, feed := feed })
      | (.error e, feed) => (.error e, { p with feed := feed })

/-- Uses up the token in view. -/
def consume (p : Parser) : Parser := { p with lookahead := none }

/-- Fails unless the token in view has the given text; if it has, it is used up
where that is wanted. -/
def expect (env : Environment) (text : String) (consuming : Bool) (p : Parser) :
    Except CompileError Unit × Parser :=
  match p.fetch env with
  | (.error e, p) => (.error e, p)
  | (.ok t, p) =>
      if t.text = text then (.ok (), if consuming then p.consume else p)
      else (.error (.located (.expectedToken text t.text) t.span), p)

/-! ### What is still to come -/

/-- How many tokens are still to come at most, the end marker aside. -/
def potential (env : Environment) (p : Parser) : Nat :=
  p.feed.potential env.options + if p.lookahead.any (!·.isEnd) then 1 else 0

@[simp] theorem potential_report (env : Environment) (p : Parser) (log : Log) :
    (p.report log).potential env = p.potential env := rfl

theorem lookahead_fetch {env : Environment} {p p' : Parser} {t : Token}
    (h : p.fetch env = (.ok t, p')) : p'.lookahead = some t := by
  unfold fetch at h
  split at h
  · rename_i hp
    cases h
    exact hp
  · split at h <;> cases h
    rfl

/-- Looking at a token adds nothing to what is still to come. -/
theorem potential_fetch_le {env : Environment} {p p' : Parser} {t : Token}
    (h : p.fetch env = (.ok t, p')) : p'.potential env ≤ p.potential env := by
  unfold fetch at h
  split at h
  · cases h
    exact Nat.le_refl _
  · rename_i hp
    split at h
    · rename_i t' feed hpull
      cases h
      simp only [potential, hp, Option.any_some, Option.any_none]
      by_cases hend : t.isEnd = true
      · have := Feed.potential_pull_le hpull
        simp [hend, this]
      · have := Feed.potential_pull_lt hpull (by simpa using hend)
        simp [hend]
        omega
    · cases h

/-- Every token but the end marker counts when it is used up. -/
theorem potential_consume_lt {env : Environment} {p : Parser} {t : Token}
    (h : p.lookahead = some t) (hend : t.isEnd = false) :
    p.consume.potential env < p.potential env := by
  simp [potential, consume, h, hend]

/-! ### Blanks -/

/-- Uses up blanks. -/
def skipBlanks (env : Environment) (p : Parser) : Except CompileError Unit × Parser :=
  match _h : p.fetch env with
  | (.error e, p') => (.error e, p')
  | (.ok t, p') => if _hblank : t.text = " " then skipBlanks env p'.consume else (.ok (), p')
termination_by p.potential env
decreasing_by
  have hend : t.isEnd = false := by simp [Token.isEnd, Token.endText, _hblank]
  exact Nat.lt_of_lt_of_le (potential_consume_lt (lookahead_fetch _h) hend) (potential_fetch_le _h)

/-! ### Whole pieces -/

variable {α : Type}

/-- The parser after a token was fed to a stack. -/
def after (p : Parser) (move : Move α) : Parser :=
  (if move.taken then p.consume else p).report move.log

theorem potential_after_of_taken {env : Environment} {p p' : Parser} {t : Token} {s : Stack α}
    (h : p.fetch env = (.ok t, p')) (htaken : (s.feed env t).taken = true) :
    (p'.after (s.feed env t)).potential env < p.potential env := by
  have hend : t.isEnd = false := by
    cases hend : t.isEnd with
    | false => rfl
    | true => simp [s.taken_feed_of_isEnd hend] at htaken
  simp only [after, htaken, if_true, potential_report]
  exact Nat.lt_of_lt_of_le (potential_consume_lt (lookahead_fetch h) hend) (potential_fetch_le h)

theorem potential_after_of_left {env : Environment} {p p' : Parser} {t : Token} {s : Stack α}
    (h : p.fetch env = (.ok t, p')) (htaken : (s.feed env t).taken = false) :
    (p'.after (s.feed env t)).potential env ≤ p.potential env := by
  simpa [after, htaken] using potential_fetch_le h

/-- Feeds tokens to a stack until it is complete.  Tokens run out: each one is used
up or makes the stack lighter. -/
def run (env : Environment) (s : Stack α) (p : Parser) : Except CompileError α × Parser :=
  match _h : p.fetch env with
  | (.error e, p') => (.error e, p')
  | (.ok t, p') =>
      match _ho : (s.feed env t).outcome with
      | .read s' => run env s' (p'.after (s.feed env t))
      | .done a => (.ok a, p'.after (s.feed env t))
      | .fail e => (.error e, p'.after (s.feed env t))
termination_by (p.potential env, s.weight)
decreasing_by
  cases htaken : (s.feed env t).taken with
  | true => exact .left _ _ (potential_after_of_taken _h htaken)
  | false =>
    rcases Nat.lt_or_eq_of_le (potential_after_of_left _h htaken) with hlt | heq
    · exact .left _ _ hlt
    · rw [heq]
      exact .right _ (Stack.weight_feed_lt htaken _ho)

/-- Reads an expression, up to the end, a closing brace or a given token. -/
def expression (env : Environment) (stop : Option String) (p : Parser) :
    Except CompileError (List Node) × Parser :=
  p.run env (.expression p.mode stop [] id)

/-- Reads everything. -/
def document (env : Environment) (p : Parser) : Except CompileError (List Node) × Parser :=
  match p.expression env none with
  | (.error e, p) => (.error e, p)
  | (.ok nodes, p) =>
      match p.expect env Token.endText true with
      | (.error e, p) => (.error e, p)
      | (.ok _, p) => (.ok nodes, p)

/-- Reads the arguments that a call lacks. -/
def arguments (env : Environment) (c : Call) (p : Parser) : Except CompileError Call × Parser :=
  if c.isComplete then (.ok c, p) else p.run env (.arguments c id)

/-- Goes on after a command has done its work: it may take more of the text. -/
def conclude (env : Environment) (p : Parser) : Reply × Log → Except CompileError Node × Parser
  | (.node n, log) => (.ok n, p.report log)
  | (.fail e, log) => (.error e, p.report log)
  | (.readUntil stop finish, log) => (p.report log).run env (.expression p.mode stop [] finish)

/-- Does what a registered command does, with arguments that need not come from
the text. -/
def invoke (env : Environment) (i : Invocation) (p : Parser) :
    Except CompileError Node × Parser :=
  match env.registry.command? i.name with
  | some command => p.conclude env (command.run env.options i)
  | none => (.error ⟨.noHandler i.name, none⟩, p)

/-- Reads the arguments of the command that a token names, and does what it
does.  The token in view is used up, unless the name is unknown. -/
def command (env : Environment) (t : Token) (p : Parser) : Except CompileError Node × Parser :=
  match env.openCall t p.mode with
  | .error (taken, e) => (.error e, if taken then p.consume else p)
  | .ok c =>
      match p.consume.arguments env c with
      | (.error e, p) => (.error e, p)
      | (.ok c, p) => p.conclude env (c.invoke env)

end Parser

end MathMarkup
