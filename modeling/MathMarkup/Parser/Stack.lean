import MathMarkup.Parser.Call

/-!
# The stack of the parser

Markup is read token by token.  What has been opened and is not yet complete
stands on a stack: groups in braces, arguments in brackets, commands that lack
arguments, and commands that take what follows them.  At the bottom is what was
asked for in the first place, an expression or the arguments of a command.

One token is fed to the stack at a time.  It is used up or left in place, and the
stack changes.  A node that becomes complete is delivered to what is below it,
which may make that complete in turn.

## Main definitions

* `Stack` — what is open.
* `Stack.deliver` — hand a complete node to what is on top.
* `Stack.feed` — what a token does to the stack.
* `Stack.weight` — how often a token can be left in place.

## Main results

* `Stack.taken_feed_of_isEnd` — the end marker is never used up.
* `Stack.weight_feed_lt` — a token that is left in place makes the stack lighter.
-/

namespace MathMarkup

/-- What the parser has opened, from the inside out.  The nodes read so far are
kept with the newest first.  At the bottom a function makes the result. -/
inductive Stack (α : Type) where
  /-- An expression, which ends at the end of the input, at a closing brace, or at
  a given token; that token is left in place. -/
  | expression (mode : Mode) (stop : Option String) (items : List Node) (result : List Node → α)
  /-- The arguments of a command. -/
  | arguments (call : Call) (result : Call → α)
  /-- A group in braces. -/
  | brace (mode : Mode) (opening : Option Span) (items : List Node) (below : Stack α)
  /-- An optional argument in brackets. -/
  | bracket (mode : Mode) (opening : Option Span) (items : List Node) (below : Stack α)
  /-- What a command takes of the text behind it, up to a token that is left in
  place. -/
  | scope (mode : Mode) (stop : Option String) (finish : List Node → Node) (items : List Node)
      (below : Stack α)
  /-- A command that lacks arguments. -/
  | call (call : Call) (below : Stack α)

/-- What a stack comes to. -/
inductive Outcome (α : Type) where
  /-- It wants more tokens. -/
  | read (s : Stack α)
  /-- It is complete. -/
  | done (a : α)
  /-- It has failed. -/
  | fail (e : CompileError)

/-- What a token does: whether it is used up, what is reported, and what the stack
comes to. -/
structure Move (α : Type) where
  /-- Whether the token is used up. -/
  taken : Bool
  /-- What is reported. -/
  log : Log := []
  /-- What the stack comes to. -/
  outcome : Outcome α

namespace Stack

variable {α : Type}

/-! ### Delivering nodes -/

/-- Goes on after a command has done its work: its node is delivered to the stack
below, unless it takes more of the text first. -/
def settle (mode : Mode) (below : Stack α) (deliver : Node → Outcome α × Log) :
    Reply × Log → Outcome α × Log
  | (.node n, log) =>
      let (outcome, later) := deliver n
      (outcome, later ++ log)
  | (.fail e, log) => (.fail e, log)
  | (.readUntil stop finish, log) => (.read (.scope mode stop finish [] below), log)

/-- Hands a complete node to what is on top.  A command that has all of its
arguments then does its work. -/
def deliver (env : Environment) (n : Node) : Stack α → Outcome α × Log
  | expression mode stop items result => (.read (expression mode stop (n :: items) result), [])
  | arguments c result =>
      let c := c.accept n
      if c.isComplete then (.done (result c), []) else (.read (arguments c result), [])
  | brace mode opening items below => (.read (brace mode opening (n :: items) below), [])
  | bracket mode opening items below => (.read (bracket mode opening (n :: items) below), [])
  | scope mode stop finish items below => (.read (scope mode stop finish (n :: items) below), [])
  | call c below =>
      let c := c.accept n
      if c.isComplete then
        settle c.mode below (fun n => deliver env n below) (c.invoke env)
      else (.read (call c below), [])

/-- Goes on with a command that has all of its arguments. -/
def complete (env : Environment) (c : Call) (below : Stack α) : Outcome α × Log :=
  settle c.mode below (fun n => deliver env n below) (c.invoke env)

/-! ### Feeding tokens -/

/-- The token is used up. -/
def take (result : Outcome α × Log) : Move α := ⟨true, result.2, result.1⟩

/-- The token is left in place. -/
def leave (result : Outcome α × Log) : Move α := ⟨false, result.2, result.1⟩

/-- Whether a token ends an expression. -/
def closes (stop : Option String) (t : Token) : Bool :=
  t.isEnd || t.text == "\x7d" || stop == some t.text

/-- Whether a token is a blank that means nothing. -/
def isIgnored (mode : Mode) (t : Token) : Bool := mode == .math && t.text == " "

/-- A token that starts a command.  A command without arguments does its work at
once. -/
def feedCommand (env : Environment) (t : Token) (mode : Mode) (s : Stack α) : Move α :=
  match env.openCall t mode with
  | .error (taken, e) => ⟨taken, [], .fail e⟩
  | .ok c => take (if c.isComplete then complete env c s else (.read (call c s), []))

/-- A token that starts an atom: a group, a command or a character. -/
def feedAtom (env : Environment) (t : Token) (mode : Mode) (s : Stack α) : Move α :=
  if t.text = "\x7b" then take (.read (brace mode t.span [] s), [])
  else if t.isControl then feedCommand env t mode s
  else if t.isCharacter then take (deliver env (t.node mode) s)
  else leave (.fail (.located (.unexpectedToken t.text) t.span), [])

/-- A token in an expression of some mode, given what ends the expression and what
happens then. -/
@[macro_inline]
def feedBody (env : Environment) (t : Token) (mode : Mode) (stop : Option String) (s : Stack α)
    (close : Move α) : Move α :=
  if isIgnored mode t then take (.read s, [])
  else if closes stop t then close
  else feedAtom env t mode s

/-- The closing token of a group must be the right one. -/
def feedClosing (t : Token) (expected : String) (result : Outcome α × Log) : Move α :=
  if t.text = expected then take result
  else leave (.fail (.located (.expectedToken expected t.text) t.span), [])

/-- A token where a command lacks an argument, given the stack for a call and what
happens when the call is complete. -/
def feedCall (env : Environment) (t : Token) (c : Call) (stack : Call → Stack α)
    (finish : Call → Outcome α × Log) : Move α :=
  if t.text = " " then take (.read (stack c), [])
  else if c.wantsOptional then
    if t.text = "[" then take (.read (bracket c.argumentMode t.span [] (stack c)), [])
    else if c.skip.isComplete then leave (finish c.skip)
    else leave (.read (stack c.skip), [])
  else if t.isEnd || t.text == "\x7d" || t.text == "]" then
    leave (.fail (.located (.missingArgument c.name) t.span), [])
  else if t.text = "\x7b" then take (.read (brace c.argumentMode t.span [] (stack c)), [])
  else feedAtom env t c.argumentMode (stack { c with bare := some t.span })

/-- What a token does to the stack. -/
def feed (env : Environment) (t : Token) : Stack α → Move α
  | s@(expression mode stop items result) =>
      feedBody env t mode stop s (leave (.done (result items.reverse), []))
  | s@(brace mode opening items below) =>
      feedBody env t mode none s
        (feedClosing t "\x7d"
          (deliver env (.group ⟨mode, Span.cover opening t.span⟩ items.reverse) below))
  | s@(bracket mode opening items below) =>
      feedBody env t mode (some "]") s
        (feedClosing t "]"
          (deliver env (.group ⟨mode, Span.cover opening t.span⟩ items.reverse) below))
  | s@(scope mode stop finish items below) =>
      feedBody env t mode stop s (leave (deliver env (finish items.reverse) below))
  | call c below => feedCall env t c (call · below) (complete env · below)
  | arguments c result => feedCall env t c (arguments · result) fun c => (.done (result c), [])

/-! ### Progress -/

/-- How often a token can be left in place before it is used up. -/
def weight : Stack α → Nat
  | expression .. => 1
  | arguments c _ => 2 + c.optionalLeft
  | brace _ _ _ below => 1 + below.weight
  | bracket _ _ _ below => 1 + below.weight
  | scope _ _ _ _ below => 1 + below.weight
  | call c below => 2 + c.optionalLeft + below.weight

theorem weight_settle_le {mode : Mode} {below s : Stack α} {deliver : Node → Outcome α × Log}
    (hdeliver : ∀ n s', (deliver n).1 = .read s' → s'.weight ≤ below.weight) {reply : Reply × Log}
    (h : (settle mode below deliver reply).1 = .read s) : s.weight ≤ 1 + below.weight := by
  obtain ⟨reply, log⟩ := reply
  cases reply with
  | node n =>
    have := hdeliver n s h
    omega
  | fail e => cases h
  | readUntil stop finish =>
    cases h
    exact Nat.le_refl _

/-- A delivery never makes the stack heavier. -/
theorem weight_deliver_le (env : Environment) (n : Node) (s : Stack α) {s' : Stack α}
    (h : (deliver env n s).1 = .read s') : s'.weight ≤ s.weight := by
  induction s generalizing n s' with
  | expression | brace | bracket | scope =>
    cases h
    exact Nat.le_refl _
  | arguments c result =>
    simp only [deliver] at h
    split at h
    · cases h
    · cases h
      have := c.optionalLeft_accept_le n
      simp only [weight]
      omega
  | call c below ih =>
    simp only [deliver] at h
    split at h
    · have := weight_settle_le (fun n s' hs => ih n hs) h
      simp only [weight]
      omega
    · cases h
      have := c.optionalLeft_accept_le n
      simp only [weight]
      omega

theorem weight_complete_le (env : Environment) (c : Call) (below : Stack α) {s : Stack α}
    (h : (complete env c below).1 = .read s) : s.weight ≤ 1 + below.weight :=
  weight_settle_le (fun n _ hs => weight_deliver_le env n below hs) h

/-- An atom uses up its token before more is read. -/
theorem taken_feedAtom {env : Environment} {t : Token} {mode : Mode} {s s' : Stack α}
    (h : (feedAtom env t mode s).outcome = .read s') : (feedAtom env t mode s).taken = true := by
  unfold feedAtom feedCommand at h ⊢
  split
  · rfl
  · rename_i hbrace
    rw [if_neg hbrace] at h
    split
    · rename_i hcontrol
      rw [if_pos hcontrol] at h
      split <;> simp_all [take]
    · rename_i hcontrol
      rw [if_neg hcontrol] at h
      split
      · rfl
      · simp_all [leave]

theorem taken_feedClosing {t : Token} {expected : String} {result : Outcome α × Log}
    {s : Stack α} (h : (feedClosing t expected result).outcome = .read s) :
    (feedClosing t expected result).taken = true := by
  unfold feedClosing at h ⊢
  split
  · rfl
  · simp_all [leave]

/-- In an expression a token is left in place only where the expression ends. -/
theorem feedBody_left {env : Environment} {t : Token} {mode : Mode} {stop : Option String}
    {s s' : Stack α} {close : Move α} (htaken : (feedBody env t mode stop s close).taken = false)
    (h : (feedBody env t mode stop s close).outcome = .read s') :
    close.taken = false ∧ close.outcome = .read s' := by
  unfold feedBody at h htaken
  split at h
  · simp_all [take]
  · rename_i hignored
    rw [if_neg hignored] at htaken
    split at h
    · rename_i hcloses
      rw [if_pos hcloses] at htaken
      exact ⟨htaken, h⟩
    · rename_i hcloses
      rw [if_neg hcloses, taken_feedAtom h] at htaken
      cases htaken

/-- Where an argument is wanted, a token is left in place only where an optional
argument is left out. -/
theorem feedCall_left {env : Environment} {t : Token} {c : Call} {stack : Call → Stack α}
    {finish : Call → Outcome α × Log} {s' : Stack α}
    (htaken : (feedCall env t c stack finish).taken = false)
    (h : (feedCall env t c stack finish).outcome = .read s') :
    c.wantsOptional = true ∧ ((finish c.skip).1 = .read s' ∨ s' = stack c.skip) := by
  unfold feedCall at h htaken
  split at h
  · simp_all [take]
  · rename_i hblank
    rw [if_neg hblank] at htaken
    split at h
    · rename_i hwants
      rw [if_pos hwants] at htaken
      refine ⟨hwants, ?_⟩
      split at h
      · simp_all [take]
      · split at h
        · exact .inl h
        · cases h
          exact .inr rfl
    · rename_i hwants
      rw [if_neg hwants] at htaken
      split at h
      · cases h
      · rename_i hmissing
        rw [if_neg hmissing] at htaken
        split at h
        · simp_all [take]
        · rename_i hbrace
          rw [if_neg hbrace, taken_feedAtom h] at htaken
          cases htaken

/-- A token that is left in place makes the stack lighter. -/
theorem weight_feed_lt {env : Environment} {t : Token} {s s' : Stack α}
    (htaken : (feed env t s).taken = false) (h : (feed env t s).outcome = .read s') :
    s'.weight < s.weight := by
  cases s with
  | expression mode stop items result =>
    obtain ⟨-, hread⟩ := feedBody_left htaken h
    cases hread
  | brace mode opening items below | bracket mode opening items below =>
    obtain ⟨hleft, hread⟩ := feedBody_left htaken h
    rw [taken_feedClosing hread] at hleft
    cases hleft
  | scope mode stop finish items below =>
    obtain ⟨-, hread⟩ := feedBody_left htaken h
    have := weight_deliver_le env _ below hread
    simp only [weight]
    omega
  | call c below =>
    obtain ⟨hwants, hread⟩ := feedCall_left htaken h
    have hskip := Call.optionalLeft_skip_lt hwants
    rcases hread with hread | rfl
    · have := weight_complete_le env c.skip below hread
      simp only [weight]
      omega
    · simp only [weight]
      omega
  | arguments c result =>
    obtain ⟨hwants, hread⟩ := feedCall_left htaken h
    have hskip := Call.optionalLeft_skip_lt hwants
    rcases hread with hread | rfl
    · cases hread
    · simp only [weight]
      omega

/-- The end marker is never used up. -/
theorem taken_feed_of_isEnd {env : Environment} {t : Token} (s : Stack α)
    (hend : t.isEnd = true) : (feed env t s).taken = false := by
  have htext : t.text = "EOF" := by simpa [Token.isEnd, Token.endText] using hend
  have hbody : ∀ (mode : Mode) (stop : Option String) (r : Stack α) (close : Move α),
      feedBody env t mode stop r close = close := by
    intro mode stop r close
    simp [feedBody, isIgnored, closes, hend, htext]
  have hcall : ∀ (c : Call) (stack : Call → Stack α) (finish : Call → Outcome α × Log),
      (feedCall env t c stack finish).taken = false := by
    intro c stack finish
    simp only [feedCall, htext, hend, String.reduceEq, if_false, Bool.true_or, if_true]
    split
    · split <;> rfl
    · rfl
  cases s with
  | expression mode stop items result => simp [feed, hbody, leave]
  | brace mode opening items below => simp [feed, hbody, feedClosing, htext, leave]
  | bracket mode opening items below => simp [feed, hbody, feedClosing, htext, leave]
  | scope mode stop finish items below => simp [feed, hbody, leave]
  | call c below => exact hcall _ _ _
  | arguments c result => exact hcall _ _ _

end Stack

end MathMarkup
