import MathMarkup.Proofs.Parser.Arguments

/-!
# Modes nest

While an argument is read, the mode may be another one than around the command.  The stack keeps
the modes with what is open: a group is in the mode in which its opening token was read, a command
in the mode around it, and an argument in the mode that its command asks for.  So at every moment
the modes on the stack fit together, down to the mode at the bottom, and what is closed takes its
mode with it.

## Main definitions

* `Stack.current` — the mode in which the next token is read.
* `Stack.NestedIn` — the modes of everything that is open fit together, inside a given mode.

## Main results

* `Stack.NestedIn.feed` — a token keeps the modes nested.
-/

namespace MathMarkup

variable {α : Type} {env : Environment}

/-! ### Nested modes -/

namespace Stack

/-- The mode in which the next token is read. -/
def current : Stack α → Mode
  | expression mode _ _ _ | brace mode _ _ _ | bracket mode _ _ _ | scope mode _ _ _ _ => mode
  | call c _ | arguments c _ => c.argumentMode

/-- Whether the modes of everything that is open fit together: each piece is in the mode in which
a token is read in what encloses it, and at the bottom is the given mode. -/
def NestedIn (outer : Mode) : Stack α → Prop
  | expression mode _ _ _ => mode = outer
  | arguments c _ => c.mode = outer
  | brace mode _ _ below | bracket mode _ _ below | scope mode _ _ _ below =>
      mode = below.current ∧ below.NestedIn outer
  | call c below => c.mode = below.current ∧ below.NestedIn outer

end Stack

/-- Whether the modes of a stack that wants more tokens fit together. -/
def Outcome.NestedIn (outer : Mode) : Outcome α → Prop
  | read s => s.NestedIn outer
  | done _ | fail _ => True

namespace Stack.NestedIn

variable {outer mode : Mode} {s below : Stack α} {t : Token} {c : Call}

theorem settle {deliver : Node → Outcome α × Log} (hmode : mode = below.current)
    (hbelow : below.NestedIn outer) (hdeliver : ∀ n, (deliver n).1.NestedIn outer)
    (reply : Reply × Log) : (Stack.settle mode below deliver reply).1.NestedIn outer := by
  obtain ⟨reply, log⟩ := reply
  cases reply with
  | node n => exact hdeliver n
  | fail e => trivial
  | readUntil stop finish => exact ⟨hmode, hbelow⟩

/-- A delivery keeps the modes nested, also where it completes calls one after the other. -/
theorem deliver (h : s.NestedIn outer) (n : Node) : (s.deliver env n).1.NestedIn outer := by
  -- on the stack: a call that is complete goes, and its node comes to what is below
  induction s generalizing n with
  | expression | brace | bracket | scope => exact h
  | arguments c result =>
    simp only [Stack.deliver]
    split
    · trivial
    · exact (Call.mode_accept c n).trans h
  | call c below ih =>
    obtain ⟨hmode, hbelow⟩ := h
    have haccept : (c.accept n).mode = below.current := (Call.mode_accept c n).trans hmode
    simp only [Stack.deliver]
    split
    · exact settle haccept hbelow (fun m => ih hbelow m) _
    · exact ⟨haccept, hbelow⟩

theorem complete (hmode : c.mode = below.current) (hbelow : below.NestedIn outer) :
    (below.complete env c).1.NestedIn outer :=
  settle hmode hbelow (fun n => deliver hbelow n) _

theorem feedCommand (hmode : mode = s.current) (h : s.NestedIn outer) :
    (s.feedCommand env t mode).outcome.NestedIn outer := by
  unfold Stack.feedCommand
  split
  · trivial
  · rename_i c hopen
    obtain ⟨command, -, -, rfl⟩ := Environment.openCall_eq_ok_iff.mp hopen
    unfold Stack.take
    split
    · exact complete hmode h
    · exact ⟨hmode, h⟩

theorem feedAtom (hmode : mode = s.current) (h : s.NestedIn outer) :
    (s.feedAtom env t mode).outcome.NestedIn outer := by
  unfold Stack.feedAtom
  split
  · exact ⟨hmode, h⟩
  split
  · exact feedCommand hmode h
  split
  · exact deliver h _
  · trivial

theorem feedBody {stop : Option String} {close : Move α} (hmode : mode = s.current)
    (h : s.NestedIn outer) (hclose : close.outcome.NestedIn outer) :
    (s.feedBody env t mode stop close).outcome.NestedIn outer := by
  unfold Stack.feedBody
  split
  · exact h
  split
  · exact hclose
  · exact feedAtom hmode h

theorem feedClosing {expected : String} {result : Outcome α × Log}
    (h : result.1.NestedIn outer) :
    (Stack.feedClosing t expected result).outcome.NestedIn outer := by
  unfold Stack.feedClosing
  split
  · exact h
  · trivial

/-- An argument is read in the mode that the command asks for, and what comes behind it is read in
the mode for the next one. -/
theorem feedCall {stack : Call → Stack α} {finish : Call → Outcome α × Log}
    (hcurrent : ∀ c', (stack c').current = c'.argumentMode)
    (hstack : ∀ {c'}, c'.mode = c.mode → (stack c').NestedIn outer)
    (hfinish : ∀ {c'}, c'.mode = c.mode → (finish c').1.NestedIn outer) :
    (Stack.feedCall env t c stack finish).outcome.NestedIn outer := by
  unfold Stack.feedCall
  split
  · exact hstack rfl
  split
  · split
    · exact ⟨(hcurrent c).symm, hstack rfl⟩
    split
    · exact hfinish rfl
    · exact hstack rfl
  split
  · trivial
  split
  · exact ⟨(hcurrent c).symm, hstack rfl⟩
  · -- an argument without braces is read in the mode of the argument as well
    exact feedAtom (hcurrent { c with bare := some t.span }).symm (hstack rfl)

/-- **A token keeps the modes nested**: what it opens is in the mode in which it is read, and what
it closes goes with its mode. -/
theorem feed (h : s.NestedIn outer) (t : Token) : (s.feed env t).outcome.NestedIn outer := by
  cases s with
  | expression mode stop items result => exact feedBody rfl h trivial
  | brace mode opening items below | bracket mode opening items below =>
    exact feedBody rfl h (feedClosing (deliver h.2 _))
  | scope mode stop finish items below => exact feedBody rfl h (deliver h.2 _)
  | call c below =>
    refine feedCall (fun c' => rfl) (fun hmode => ⟨hmode.trans h.1, h.2⟩) fun hmode => ?_
    exact complete (hmode.trans h.1) h.2
  | arguments c result =>
    exact feedCall (fun c' => rfl) (fun hmode => hmode.trans h) fun _ => trivial

end Stack.NestedIn

end MathMarkup
