import MathMarkup.Parser.Descent
import MathMarkup.Proofs.Parser.Arguments

/-!
# Recursive descent and the stack come to the same

A parser can be read with procedures that call each other and switch its mode as they go, or
with a stack that is fed token by token and keeps the modes to itself.  Both come to the same
result and leave the parser at the same place, with the same token in view and the same
reports, whether they succeed or fail.

The stack is what the calls of the procedures would be if they were written down: a procedure
returns where the stack delivers a node to what is below.  So what is shown of a procedure is
shown for every stack below.  A procedure *keeps step* with a run if it comes to an end, in the
mode that it started in, and the run is at the same place then.  The run has another mode than
the procedure, since it never switches; apart from that the two parsers are equal.

The induction is on the number of tokens that are still to come.  An atom uses up its first
token before it calls anything, and an expression goes on behind an atom.  How deep the calls are
is not counted: it is enough that some depth will do, and then every greater one does too.

## Main definitions

* `Parser.proceed`, `Parser.carryOut` — a run that goes on with what a stack has come to, or
  with what a token does.
* `ComesTo` — a procedure comes to an end if it may call deep enough.
* `Restores` — it comes to an end in the mode that it started in.
* `KeepsStep` — a procedure and a run are at the same place again.
* `Stack.IsCall` — the stacks that wait for an argument.
* `Descent.Agrees` — reading expressions and arguments keeps step, at some place.

## Main results

* `KeepsStep.bind`, `KeepsStep.within` — procedures in sequence keep step, and so does one that
  is run in another mode.
* `Descent.agrees` — reading keeps step at every place.
* `Descent.restores_expression`, `Descent.restores_document`, `Descent.arguments_run`,
  `Descent.restores_invoke`, `Descent.restores_command` — **every procedure comes to an end, in
  the mode that it started in, with the result and the parser that the stack comes to.**
-/

namespace MathMarkup

variable {α β γ : Type} {env : Environment}

/-! ### A parser in another mode -/

namespace Parser

variable {p q : Parser} {t : Token}

theorem mode_of_fetch {result : Except CompileError Token} (h : p.fetch env = (result, q)) :
    q.mode = p.mode := by
  unfold fetch at h
  split at h
  · cases h
    rfl
  · split at h <;> cases h <;> rfl

/-- The mode of a parser plays no part in what it looks at. -/
theorem fetch_switchMode {result : Except CompileError Token} (h : p.fetch env = (result, q))
    (m : Mode) : (p.switchMode m).fetch env = (result, q.switchMode m) := by
  unfold fetch at h ⊢
  simp only [switchMode]
  split at h
  · rename_i hp
    cases h
    rw [hp]
  · rename_i hp
    rw [hp]
    split at h <;> cases h <;> simp [hp]

theorem fetch_of_lookahead (h : p.lookahead = some t) (env : Environment) :
    p.fetch env = (.ok t, p) := by
  rw [fetch, h]

theorem potential_consume_le (env : Environment) (p : Parser) :
    p.consume.potential env ≤ p.potential env := by
  simp [potential, consume]

/-- Whether the expected token is there or not, the mode is what it was. -/
theorem mode_expect (env : Environment) (text : String) (consuming : Bool) (p : Parser) :
    (p.expect env text consuming).2.mode = p.mode := by
  unfold expect
  rcases hfetch : p.fetch env with ⟨_ | t, q⟩
  · exact mode_of_fetch hfetch
  · have hmode : q.mode = p.mode := mode_of_fetch hfetch
    simp only
    split
    · cases consuming <;> exact hmode
    · exact hmode

theorem skipBlanks_of_blank (h : p.fetch env = (.ok t, q)) (hblank : t.text = " ") :
    p.skipBlanks env = q.consume.skipBlanks env := by
  rw [skipBlanks]
  split <;> simp_all

theorem skipBlanks_of_error {e : CompileError} (h : p.fetch env = (.error e, q)) :
    p.skipBlanks env = (.error e, q) := by
  rw [skipBlanks]
  split <;> simp_all

theorem skipBlanks_of_ne (h : p.fetch env = (.ok t, q)) (hblank : t.text ≠ " ") :
    p.skipBlanks env = (.ok (), q) := by
  rw [skipBlanks]
  split <;> simp_all

/-! ### Runs that go on -/

/-- Goes on with what a stack has come to. -/
def proceed (env : Environment) (p : Parser) (result : Outcome α × Log) :
    Except CompileError α × Parser :=
  match result.1 with
  | .read s => (p.report result.2).run env s
  | .done a => (.ok a, p.report result.2)
  | .fail e => (.error e, p.report result.2)

/-- Goes on behind a move: the token in view is used up if the move says so. -/
def carryOut (env : Environment) (p : Parser) (move : Move α) : Except CompileError α × Parser :=
  (if move.taken then p.consume else p).proceed env (move.outcome, move.log)

/-- A run looks at a token and carries out what that does to the stack. -/
theorem run_eq_carryOut (h : p.fetch env = (.ok t, q)) (s : Stack α) :
    p.run env s = q.carryOut env (s.feed env t) := by
  rw [run_eq h, carryOut, proceed]
  rfl

/-- What was reported first and what was reported later. -/
theorem proceed_append (p : Parser) (outcome : Outcome α) (later log : Log) :
    p.proceed env (outcome, later ++ log) = (p.report log).proceed env (outcome, later) := by
  have hreport : p.report (later ++ log) = (p.report log).report later := by
    simp [report, Feed.report, List.append_assoc]
  unfold proceed
  simp only [hreport]

end Parser

/-! ### Procedures in sequence -/

section

variable {x y : Procedure β} {f : β → Procedure γ} {p q : Parser}

theorem Procedure.bind_of_ok {b : β} (h : x p = some (.ok b, q)) : (x >>= f) p = f b q := by
  show (x p >>= _) = _
  rw [h]
  rfl

theorem Procedure.bind_of_error {e : CompileError} (h : x p = some (.error e, q)) :
    (x >>= f) p = some (.error e, q) := by
  show (x p >>= _) = _
  rw [h]
  rfl

theorem Procedure.bind_congr_left (h : x p = y p) : (x >>= f) p = (y >>= f) p := by
  show (x p >>= _) = (y p >>= _)
  rw [h]

end

/-- A procedure comes to an end with a given outcome, as soon as it may call deep enough: from some
depth on, the outcome is always this one. -/
def ComesTo (x : Nat → Procedure β) (p : Parser) (outcome : Except CompileError β × Parser) :
    Prop :=
  ∃ enough, ∀ depth, enough ≤ depth → x depth p = some outcome

namespace ComesTo

variable {x y : Nat → Procedure β} {f : Nat → β → Procedure γ} {p q : Parser}
  {outcome : Except CompileError β × Parser} {outcome' : Except CompileError γ × Parser}

theorem of_step {x : Procedure β} (h : x p = some outcome) : ComesTo (fun _ => x) p outcome :=
  ⟨0, fun _ _ => h⟩

theorem of_eq (hxy : ∀ depth, x depth p = y depth q) (h : ComesTo y q outcome) :
    ComesTo x p outcome := by
  obtain ⟨enough, h⟩ := h
  exact ⟨enough, fun depth hdepth => (hxy depth).trans (h depth hdepth)⟩

/-- What is called is one call deeper, and the caller may leave the parser in another state. -/
theorem call {r : Parser} (h : ComesTo y q outcome)
    (hxy : ∀ depth, y depth q = some outcome → x (depth + 1) p = some (outcome.1, r)) :
    ComesTo x p (outcome.1, r) := by
  obtain ⟨enough, h⟩ := h
  refine ⟨enough + 1, fun depth hdepth => ?_⟩
  -- with no depth at all there is no call
  cases depth with
  | zero => omega
  | succ depth => exact hxy depth (h depth (by omega))

/-- Two procedures in sequence need the greater of their depths. -/
theorem bind {b : β} (hx : ComesTo x p (.ok b, q))
    (hf : ComesTo (fun depth => f depth b) q outcome') :
    ComesTo (fun depth => x depth >>= f depth) p outcome' := by
  obtain ⟨m, hx⟩ := hx
  obtain ⟨n, hf⟩ := hf
  refine ⟨max m n, fun depth hdepth => ?_⟩
  exact (Procedure.bind_of_ok (hx depth (by omega))).trans (hf depth (by omega))

theorem bind_error {e : CompileError} (hx : ComesTo x p (.error e, q)) :
    ComesTo (fun depth => x depth >>= f depth) p (.error e, q) := by
  obtain ⟨enough, hx⟩ := hx
  exact ⟨enough, fun depth hdepth => Procedure.bind_of_error (hx depth hdepth)⟩

end ComesTo

/-- A procedure comes to an end with a given outcome, in the mode that it started in. -/
structure Restores (x : Nat → Procedure β) (p : Parser)
    (outcome : Except CompileError β × Parser) : Prop where
  /-- The procedure comes to an end. -/
  comesTo : ComesTo x p outcome
  /-- The mode is what it was. -/
  mode_eq : outcome.2.mode = p.mode

namespace Restores

variable {x y : Nat → Procedure β} {f : Nat → β → Procedure γ} {p q : Parser}
  {outcome : Except CompileError β × Parser} {outcome' : Except CompileError γ × Parser}

theorem of_step {x : Procedure β} (h : x p = some outcome) (hmode : outcome.2.mode = p.mode) :
    Restores (fun _ => x) p outcome :=
  ⟨.of_step h, hmode⟩

theorem call (hxy : ∀ depth, x (depth + 1) = y depth) (h : Restores y p outcome) :
    Restores x p outcome :=
  ⟨h.comesTo.call fun depth hy => (congrFun (hxy depth) p).trans hy, h.mode_eq⟩

theorem bind {b : β} (hx : Restores x p (.ok b, q))
    (hf : Restores (fun depth => f depth b) q outcome') :
    Restores (fun depth => x depth >>= f depth) p outcome' :=
  ⟨hx.comesTo.bind hf.comesTo, hf.mode_eq.trans hx.mode_eq⟩

theorem bind_error {e : CompileError} (hx : Restores x p (.error e, q)) :
    Restores (fun depth => x depth >>= f depth) p (.error e, q) :=
  ⟨hx.comesTo.bind_error, hx.mode_eq⟩

end Restores

/-! ### Stacks that wait for an argument -/

namespace Stack

/-- In front of a token that closes an expression, the run closes it. -/
theorem IsBody.run_of_closes {mode : Mode} {stop : Option String} {body : List Node → Stack α}
    {close : Token → List Node → Move α} {p : Parser} {t : Token}
    (h : IsBody env mode stop body close) (ht : p.lookahead = some t)
    (hignored : isIgnored mode t = false) (hcloses : closes stop t = true) (items : List Node) :
    p.run env (body items) = p.carryOut env (close t items) := by
  rw [Parser.run_eq_carryOut (Parser.fetch_of_lookahead ht env), h.feed_eq, feedBody,
    if_neg (Bool.eq_false_iff.mp hignored), if_pos hcloses]

/-- Stacks with a call on top that waits for an argument, for every call: what a node makes of
them, and what a token does. -/
structure IsCall (env : Environment) (stack : Call → Stack α) (finish : Call → Outcome α × Log) :
    Prop where
  /-- A node is the next argument. -/
  deliver_eq : ∀ (n : Node) (c : Call), deliver env n (stack c) =
    if (c.accept n).isComplete then finish (c.accept n) else (.read (stack (c.accept n)), [])
  /-- Tokens are read as where an argument is wanted. -/
  feed_eq : ∀ (t : Token) (c : Call), feed env t (stack c) = feedCall env t c stack finish

theorem isCall_call (env : Environment) (below : Stack α) :
    IsCall env (call · below) (complete env · below) :=
  ⟨fun _ _ => rfl, fun _ _ => rfl⟩

theorem isCall_arguments (env : Environment) (result : Call → α) :
    IsCall env (arguments · result) fun c => (.done (result c), []) :=
  ⟨fun _ _ => rfl, fun _ _ => rfl⟩

/-- Blanks in front of an argument mean nothing. -/
theorem IsCall.feed_blank {stack : Call → Stack α} {finish : Call → Outcome α × Log}
    (h : IsCall env stack finish) (c : Call) (t : Token) (ht : t.text = " ") :
    (stack c).feed env t = take (.read (stack c), []) := by
  rw [h.feed_eq, feedCall, if_pos ht]

/-- Goes on with a call: it waits for its next argument unless it is complete.  The procedure that
reads arguments starts each of its rounds like this. -/
def advance (stack : Call → Stack α) (finish : Call → Outcome α × Log) (c : Call) :
    Outcome α × Log :=
  if c.isComplete then finish c else (.read (stack c), [])

end Stack

/-- The arguments of a call. -/
def Call.arguments (c : Call) : Arguments := ⟨c.optional, c.required⟩

/-- A call with other arguments. -/
def Call.withArguments (c : Call) (args : Arguments) : Call :=
  { c with optional := args.optional, required := args.required, bare := none }

namespace Call

variable {c : Call}

theorem withArguments_arguments (hbare : c.bare = none) : c.withArguments c.arguments = c := by
  rw [withArguments, ← hbare]
  rfl

theorem accept_eq_addOptional (hbare : c.bare = none) (hwants : c.wantsOptional = true) (n : Node) :
    c.accept n = c.withArguments (c.arguments.addOptional (some n)) := by
  rw [accept, if_pos hwants, argument, hbare]
  rfl

theorem skip_eq_addOptional (hbare : c.bare = none) :
    c.skip = c.withArguments (c.arguments.addOptional none) := by
  rw [withArguments, ← hbare]
  rfl

theorem accept_eq_addRequired (hbare : c.bare = none) (hwants : c.wantsOptional = false)
    (n : Node) : c.accept n = c.withArguments (c.arguments.addRequired n) := by
  rw [accept, if_neg (Bool.eq_false_iff.mp hwants), argument, hbare]
  rfl

/-- An argument without braces is a group of its own. -/
theorem accept_bare_eq_addRequired (hwants : c.wantsOptional = false) (span : Option Span)
    (n : Node) : accept { c with bare := some span } n =
      c.withArguments (c.arguments.addRequired (.group ⟨c.argumentMode, span⟩ [n])) := by
  have hwants' : wantsOptional { c with bare := some span } = false := hwants
  rw [accept, if_neg (Bool.eq_false_iff.mp hwants')]
  rfl

end Call

/-! ### Keeping step with a run -/

/-- A procedure keeps step with a run that is in some mode: it comes to an end, in the mode that
it started in, and the run is at the same place then.  The run is given by what it comes to in
the end, and so is its rest, for every result of the procedure.  A condition may be kept on what
the procedure returns and where it leaves the parser. -/
inductive KeepsStep (env : Environment) (outer : Mode) (x : Nat → Procedure β) (p : Parser)
    (post : β → Parser → Prop) (run : Except CompileError α × Parser)
    (rest : β → Parser → Except CompileError α × Parser) : Prop where
  /-- Both fail. -/
  | fails {e : CompileError} {q : Parser} (hx : ComesTo x p (.error e, q)) (hmode : q.mode = p.mode)
      (hrun : run = (.error e, q.switchMode outer))
  /-- The procedure returns, and the run goes on as the result says. -/
  | returns {b : β} {q : Parser} (hx : ComesTo x p (.ok b, q)) (hmode : q.mode = p.mode)
      (hpotential : q.potential env ≤ p.potential env) (hpost : post b q)
      (hrun : run = rest b (q.switchMode outer))

namespace KeepsStep

variable {outer : Mode} {p : Parser} {x y : Nat → Procedure β} {f : Nat → β → Procedure γ}
  {post : β → Parser → Prop} {post' : γ → Parser → Prop}
  {run : Except CompileError α × Parser} {mid rest : β → Parser → Except CompileError α × Parser}
  {rest' : γ → Parser → Except CompileError α × Parser} {s : Stack α}

theorem pure {b : β} (hpost : post b p) (hrun : run = rest b (p.switchMode outer)) :
    KeepsStep env outer (fun _ => pure b) p post run rest :=
  .returns (.of_step rfl) rfl (Nat.le_refl _) hpost hrun

theorem throw {e : CompileError} (hrun : run = (.error e, p.switchMode outer)) :
    KeepsStep env outer (fun _ => throw e) p post run rest :=
  .fails (.of_step rfl) rfl hrun

theorem fetch (s : Stack α) :
    KeepsStep env outer (fun _ => Procedure.fetch env) p (fun t q => q.lookahead = some t)
      ((p.switchMode outer).run env s) (fun t q => q.carryOut env (s.feed env t)) := by
  rcases hfetch : p.fetch env with ⟨e | t, q⟩
  · exact .fails (.of_step (congrArg some hfetch)) (Parser.mode_of_fetch hfetch)
      (Parser.run_of_fetch_error (Parser.fetch_switchMode hfetch outer) s)
  · exact .returns (.of_step (congrArg some hfetch)) (Parser.mode_of_fetch hfetch)
      (Parser.potential_fetch_le hfetch) (Parser.lookahead_fetch hfetch)
      (Parser.run_eq_carryOut (Parser.fetch_switchMode hfetch outer) s)

/-- What a procedure comes to at one place, another one comes to from there on. -/
theorem of_comesTo {x : Nat → Procedure γ} {y : Nat → Procedure γ} {q : Parser}
    (hxy : ∀ {outcome}, ComesTo y q outcome → ComesTo x p outcome) (hmode : q.mode = p.mode)
    (hpotential : q.potential env ≤ p.potential env)
    (hy : KeepsStep env outer y q post' run rest') : KeepsStep env outer x p post' run rest' := by
  cases hy with
  | fails hy hmode' hrun => exact .fails (hxy hy) (hmode'.trans hmode) hrun
  | returns hy hmode' hpotential' hpost hrun =>
    exact .returns (hxy hy) (hmode'.trans hmode) (Nat.le_trans hpotential' hpotential) hpost hrun

theorem call (hxy : ∀ depth, x (depth + 1) = y depth)
    (hy : KeepsStep env outer y p post run rest) : KeepsStep env outer x p post run rest :=
  of_comesTo (fun h => h.call fun depth hy => (congrFun (hxy depth) p).trans hy) rfl
    (Nat.le_refl _) hy

/-- A step that the run does not see, since it does nothing to the stack or is part of a move of the
run. -/
theorem step_bind {x : Procedure β} {b : β} {q : Parser} (hx : x p = some (.ok b, q))
    (hmode : q.mode = p.mode) (hpotential : q.potential env ≤ p.potential env)
    (hf : KeepsStep env outer (fun depth => f depth b) q post' run rest') :
    KeepsStep env outer (fun depth => x >>= f depth) p post' run rest' :=
  of_comesTo (ComesTo.bind (.of_step hx)) hmode hpotential hf

/-- One procedure behind another: the rest of the run behind the first is the run that the second
keeps step with. -/
theorem bind (hx : KeepsStep env outer x p post run mid)
    (hf : ∀ b q, q.mode = p.mode → q.potential env ≤ p.potential env → post b q →
      KeepsStep env outer (fun depth => f depth b) q post' (mid b (q.switchMode outer)) rest') :
    KeepsStep env outer (fun depth => x depth >>= f depth) p post' run rest' := by
  cases hx with
  | fails hx hmode hrun => exact .fails hx.bind_error hmode hrun
  | @returns b q hx hmode hpotential hpost hrun =>
    subst hrun
    exact of_comesTo hx.bind hmode hpotential (hf b q hmode hpotential hpost)

theorem fetch_bind {t : Token} {f : Nat → Token → Procedure γ} (ht : p.lookahead = some t)
    (h : KeepsStep env outer (fun depth => f depth t) p post' run rest') :
    KeepsStep env outer (fun depth => Procedure.fetch env >>= f depth) p post' run rest' :=
  step_bind (congrArg some (Parser.fetch_of_lookahead ht env)) rfl (Nat.le_refl _) h

/-- Blanks that leave a stack as it is are skipped.  The procedure does so in one step of its own,
the run with a token at a time. -/
theorem skipBlanks
    (hs : ∀ t : Token, t.text = " " → s.feed env t = Stack.take (.read s, [])) (p : Parser) :
    KeepsStep env outer (fun _ => Procedure.step (Parser.skipBlanks env)) p
      (fun _ q => ∃ t, q.lookahead = some t ∧ t.text ≠ " ")
      ((p.switchMode outer).run env s) (fun _ q => q.run env s) := by
  induction p using Parser.skipBlanks.induct env with
  | case1 p e q hfetch =>
    exact .fails (.of_step (congrArg some (Parser.skipBlanks_of_error hfetch)))
      (Parser.mode_of_fetch hfetch)
      (Parser.run_of_fetch_error (Parser.fetch_switchMode hfetch outer) s)
  | case2 p t q hfetch hblank ih =>
    have hrun : (p.switchMode outer).run env s = (q.consume.switchMode outer).run env s := by
      rw [Parser.run_eq_carryOut (Parser.fetch_switchMode hfetch outer), hs t hblank]
      rfl
    have hskip : Procedure.step (Parser.skipBlanks env) p =
        Procedure.step (Parser.skipBlanks env) q.consume :=
      congrArg some (Parser.skipBlanks_of_blank hfetch hblank)
    rw [hrun]
    refine of_comesTo (ComesTo.of_eq fun _ => hskip) ?_ ?_ ih
    · exact (Parser.mode_of_fetch hfetch : q.mode = p.mode)
    · exact Nat.le_trans (Parser.potential_consume_le env q) (Parser.potential_fetch_le hfetch)
  | case3 p t q hfetch hblank =>
    have hview : q.lookahead = some t := Parser.lookahead_fetch hfetch
    refine .returns (.of_step (congrArg some (Parser.skipBlanks_of_ne hfetch hblank)))
      (Parser.mode_of_fetch hfetch) (Parser.potential_fetch_le hfetch) ⟨t, hview, hblank⟩ ?_
    -- both runs look at the same token: it is in view behind the blanks already
    rw [Parser.run_eq_carryOut (Parser.fetch_switchMode hfetch outer), Parser.run_eq_carryOut]
    exact Parser.fetch_switchMode (Parser.fetch_of_lookahead hview env) outer

theorem weaken {post₁ : β → Parser → Prop} (h : KeepsStep env outer x p post run rest)
    (himp : ∀ b q, q.mode = p.mode → q.potential env ≤ p.potential env → post b q → post₁ b q) :
    KeepsStep env outer x p post₁ run rest := by
  cases h with
  | fails hx hmode hrun => exact .fails hx hmode hrun
  | returns hx hmode hpotential hpost hrun =>
    exact .returns hx hmode hpotential (himp _ _ hmode hpotential hpost) hrun

/-- A procedure that runs another one in some mode and then switches back, also if that one
failed.  The run has nothing to do for either switch. -/
theorem within {inner : Mode} {cond : β → Prop}
    (hx : ∀ depth, x (depth + 1) p =
      (y depth (p.switchMode inner)).bind fun r => some (r.1, r.2.switchMode p.mode))
    (hy : KeepsStep env outer y (p.switchMode inner) (fun b _ => cond b) run rest) :
    KeepsStep env outer x p (fun b _ => cond b) run rest := by
  have hcomes : ∀ {result q}, ComesTo y (p.switchMode inner) (result, q) →
      ComesTo x p (result, q.switchMode p.mode) :=
    -- the switch back is made behind the call, and the result is the same
    fun hy => hy.call fun depth hdepth => by rw [hx, hdepth, Option.bind_some]
  cases hy with
  | @fails e q hy hmode hrun => exact .fails (hcomes hy) rfl hrun
  | @returns b q hy hmode hpotential hpost hrun =>
    exact .returns (hcomes hy) rfl hpotential hpost hrun

/-- Looking at the next token behind blanks that leave a stack as it is. -/
theorem viewBehindBlanks
    (hs : ∀ t : Token, t.text = " " → s.feed env t = Stack.take (.read s, [])) (p : Parser) :
    KeepsStep env outer (fun _ => Procedure.viewBehindBlanks env) p
      (fun t q => q.lookahead = some t ∧ t.text ≠ " ")
      ((p.switchMode outer).run env s) fun t q => q.carryOut env (s.feed env t) := by
  refine (skipBlanks hs p).bind ?_
  rintro - q - - ⟨t, ht, hne⟩
  have hfetch := Parser.fetch_of_lookahead ht env
  exact .returns (.of_step (congrArg some hfetch)) rfl (Nat.le_refl _) ⟨ht, hne⟩
    (Parser.run_eq_carryOut (Parser.fetch_switchMode hfetch outer) s)

/-- Looking at the next token of an expression, behind the blanks that mean nothing. -/
theorem view {stop : Option String} {body : List Node → Stack α}
    {close : Token → List Node → Move α} (hb : Stack.IsBody env p.mode stop body close)
    (items : List Node) :
    KeepsStep env outer (fun _ => Procedure.view env) p
      (fun t q => q.lookahead = some t ∧ Stack.isIgnored q.mode t = false)
      ((p.switchMode outer).run env (body items))
      fun t q => q.carryOut env ((body items).feed env t) := by
  -- only in math mode blanks are skipped, and only there they leave the stack as it is
  by_cases hmath : p.mode = .math
  · have hblank : ∀ t : Token, t.text = " " →
        (body items).feed env t = Stack.take (.read (body items), []) := by
      intro t ht
      rw [hb.feed_eq, Stack.feedBody, if_pos (by simp [Stack.isIgnored, hmath, ht])]
    have hskip : Procedure.skipIgnored env p = Procedure.step (Parser.skipBlanks env) p := by
      simp [Procedure.skipIgnored, Procedure.step, hmath]
    have hview : Procedure.view env p = Procedure.viewBehindBlanks env p :=
      Procedure.bind_congr_left hskip
    refine of_comesTo (ComesTo.of_eq fun _ => hview) rfl (Nat.le_refl _)
      ((viewBehindBlanks hblank p).weaken ?_)
    rintro t q - - ⟨ht, hne⟩
    exact ⟨ht, by simp [Stack.isIgnored, hne]⟩
  · have hskip : Procedure.skipIgnored env p = some (.ok (), p) := by
      simp [Procedure.skipIgnored, Procedure.step, hmath]
    refine .step_bind hskip rfl (Nat.le_refl _) ((fetch (body items)).weaken ?_)
    intro t q hmode _ ht
    exact ⟨ht, by simp [Stack.isIgnored, hmode, hmath]⟩

/-- A procedure that keeps step with a run in its own mode, up to where the run has a result. -/
theorem finish {make : β → α} (h : KeepsStep env p.mode x p post run rest)
    (hrest : ∀ b q, q.mode = p.mode → post b q → rest b q = (.ok (make b), q)) :
    ∃ result q, Restores x p (result, q) ∧ run = (result.map make, q) := by
  cases h with
  | @fails e q hx hmode hrun =>
    rw [← hmode] at hrun
    exact ⟨.error e, q, ⟨hx, hmode⟩, hrun⟩
  | @returns b q hx hmode hpotential hpost hrun =>
    rw [← hmode] at hrun
    exact ⟨.ok b, q, ⟨hx, hmode⟩, hrun.trans (hrest b q hmode hpost)⟩

end KeepsStep

namespace Descent

/-! ### The procedures keep step -/

/-- What is shown of a parser at some place: reading an expression and reading arguments keep step
with a run, whatever is below on the stack. -/
structure Agrees (env : Environment) (p : Parser) : Prop where
  /-- An expression ends in front of a token that closes it. -/
  expression : ∀ {α : Type} {stop : Option String} {body : List Node → Stack α}
    {close : Token → List Node → Move α}, Stack.IsBody env p.mode stop body close →
    ∀ (outer : Mode) (items : List Node),
      KeepsStep env outer (Descent.expression env · stop items) p
        (fun _ q => ∃ t, q.lookahead = some t ∧ Stack.isIgnored q.mode t = false ∧
          Stack.closes stop t = true)
        ((p.switchMode outer).run env (body items)) fun nodes q => q.run env (body nodes.reverse)
  /-- Arguments are read until the call has all of them. -/
  arguments : ∀ {α : Type} {stack : Call → Stack α} {finish : Call → Outcome α × Log},
    Stack.IsCall env stack finish → ∀ (outer : Mode) {c : Call}, c.mode = p.mode →
    c.bare = none → c.Orderly →
      KeepsStep env outer (Descent.arguments env · c.name c.command c.arguments) p (fun _ _ => True)
        ((p.switchMode outer).proceed env (Stack.advance stack finish c))
        fun args q => q.proceed env (finish (c.withArguments args))

/-- A node that the run delivers to a call is its next argument: the procedure returns with one
argument more, and the run goes on with the call that has accepted the node.  The call may be
marked for an argument without braces, which changes neither what it lacks nor its order. -/
theorem keepsStep_accept {outer : Mode} {p : Parser} {stack : Call → Stack α}
    {finish : Call → Outcome α × Log} (hc : Stack.IsCall env stack finish) {c marked : Call}
    {args : Arguments} {m : Node} (haccept : marked.accept m = c.withArguments args)
    (horderly : marked.Orderly) (hlacks : marked.isComplete = false)
    (hindex : marked.index = c.index) :
    KeepsStep env outer (fun _ => pure args) p
      (fun args _ => (c.withArguments args).Orderly ∧ (c.withArguments args).index = c.index + 1)
      ((p.switchMode outer).proceed env ((stack marked).deliver env m))
      fun args q => q.proceed env (Stack.advance stack finish (c.withArguments args)) := by
  refine .pure ?_ ?_
  · rw [← haccept, ← hindex]
    exact ⟨horderly.accept hlacks m, marked.index_accept m⟩
  · rw [hc.deliver_eq, haccept]
    rfl

section

variable {n : Nat} {outer : Mode} {p : Parser} {t : Token}
  (ih : ∀ q : Parser, q.potential env < n → Agrees env q)

include ih

/-- Reading a group keeps step with a run that is behind its opening token, in braces and in
brackets alike. -/
theorem keepsStep_group (hp : p.potential env ≤ n) (ht : p.lookahead = some t)
    (hend : t.isEnd = false) {stop : Option String} {closing : String}
    {body : List Node → Stack α} {below : Stack α}
    (hb : Stack.IsBody env p.mode stop body fun u items => Stack.feedClosing u closing
      (below.deliver env (.group ⟨p.mode, Span.cover t.span u.span⟩ items.reverse))) :
    KeepsStep env outer (group env · stop closing t) p
      (fun _ q => q.potential env < p.potential env)
      ((p.consume.switchMode outer).run env (body []))
      fun m q => q.proceed env (below.deliver env m) := by
  have hlt : p.consume.potential env < p.potential env := Parser.potential_consume_lt ht hend
  refine .call (fun depth => by rw [group]) ?_
  refine .step_bind rfl rfl (Nat.le_of_lt hlt) ?_
  -- the opening token is used up, so there is less to come
  refine ((ih p.consume (by omega)).expression hb outer []).bind ?_
  rintro nodes q hmode hle ⟨u, hu, hignored, hcloses⟩
  have hmode : q.mode = p.mode := hmode
  rw [hmode] at hignored
  refine .fetch_bind hu ?_
  -- the expression has ended in front of `u`, which must be the closing text
  rw [hb.run_of_closes (p := q.switchMode outer) hu hignored hcloses, Stack.feedClosing,
    List.reverse_reverse]
  by_cases hclosing : u.text = closing
  · have hexpect : q.expect env closing true = (.ok (), q.consume) := by
      simp [Parser.expect, Parser.fetch_of_lookahead hu env, hclosing]
    have hconsume : q.consume.potential env ≤ q.potential env := Parser.potential_consume_le env q
    rw [if_pos hclosing]
    refine .step_bind (congrArg some hexpect) rfl hconsume ?_
    refine .step_bind rfl rfl (Nat.le_refl _) ?_
    rw [show q.consume.mode = p.mode from hmode]
    have hlt' : q.consume.potential env < p.potential env := by omega
    exact .pure hlt' rfl
  · have hexpect : q.expect env closing true =
        (.error (.located (.expectedToken closing u.text) u.span), q) := by
      simp [Parser.expect, Parser.fetch_of_lookahead hu env, hclosing]
    rw [if_neg hclosing]
    exact .fails (.bind_error (.of_step (congrArg some hexpect))) rfl rfl

/-- What a command does keeps step with a run that has the complete call.  A command that takes
more of the text reads an expression, which the run has on its stack. -/
theorem keepsStep_invoke (hp : p.potential env < n) {c : Call} (hmode : c.mode = p.mode)
    (hcommand : env.registry.command? c.name = some c.command) (args : Arguments)
    (below : Stack α) :
    KeepsStep env outer (invoke env · c.name c.token args) p (fun _ _ => True)
      ((p.switchMode outer).proceed env (below.complete env (c.withArguments args)))
      fun m q => q.proceed env (below.deliver env m) := by
  have hinvoke : (c.withArguments args).invoke env =
      c.command.run env.options ⟨c.name, c.token, p.mode, args.required, args.optional⟩ := by
    rw [← hmode]
    rfl
  rw [Stack.complete, hinvoke]
  refine .call (fun depth => by rw [invoke, hcommand]) ?_
  refine .step_bind rfl rfl (Nat.le_refl _) ?_
  rcases c.command.run env.options ⟨c.name, c.token, p.mode, args.required, args.optional⟩
    with ⟨reply, log⟩
  refine .step_bind (x := Procedure.report log) rfl rfl (Nat.le_refl _) ?_
  -- a node goes to what is below, and text that is taken is read as an expression
  cases reply with
  | node m => exact .pure trivial (Parser.proceed_append _ _ _ _)
  | fail e => exact .throw rfl
  | readUntil stop finish =>
    have hb := Stack.isBody_scope env p.mode stop finish below
    have hrun : (p.switchMode outer).proceed env (Stack.settle (c.withArguments args).mode below
        (fun m => below.deliver env m) (.readUntil stop finish, log)) =
        ((p.report log).switchMode outer).run env (.scope p.mode stop finish [] below) := by
      rw [← hmode]
      rfl
    rw [hrun]
    refine ((ih (p.report log) hp).expression hb outer []).bind ?_
    rintro nodes q hmode' hle ⟨u, hu, hignored, hcloses⟩
    have hmode' : q.mode = p.mode := hmode'
    rw [hmode'] at hignored
    refine .pure trivial ?_
    rw [hb.run_of_closes (p := q.switchMode outer) hu hignored hcloses, List.reverse_reverse]
    rfl

/-- Reading a command keeps step with a run in front of its name.  Both find it unknown, both find
it out of place, or both go on to its arguments. -/
theorem keepsStep_command (hp : p.potential env ≤ n) (ht : p.lookahead = some t)
    (hend : t.isEnd = false) (s : Stack α) :
    KeepsStep env outer (command env · t) p (fun _ q => q.potential env < p.potential env)
      ((p.switchMode outer).carryOut env (s.feedCommand env t p.mode))
      fun m q => q.proceed env (s.deliver env m) := by
  have hlt : p.consume.potential env < p.potential env := Parser.potential_consume_lt ht hend
  rw [Stack.feedCommand, Environment.openCall]
  refine .call (fun depth => by rw [command]) ?_
  cases hcommand : env.registry.command? t.text with
  | none => exact .throw rfl
  | some c =>
    simp only
    refine .step_bind rfl rfl (Nat.le_of_lt hlt) ?_
    refine .step_bind rfl rfl (Nat.le_refl _) ?_
    rw [show p.consume.mode = p.mode from rfl]
    by_cases hallowed : c.allowedIn p.mode = true
    · simp only [if_pos hallowed]
      let call : Call := { name := t.text, token := some t, command := c, mode := p.mode }
      have horderly : call.Orderly := ⟨Nat.zero_le _, Nat.zero_le _, fun _ => rfl⟩
      -- the name is used up before the arguments are read
      refine ((ih p.consume (by omega)).arguments (Stack.isCall_call env s) outer
        (c := call) rfl rfl horderly).bind ?_
      intro args q hmode hle _
      have hq : q.potential env < n := by omega
      refine (keepsStep_invoke (c := call) ih hq hmode.symm hcommand args s).weaken ?_
      intro m q' _ hle' _
      omega
    · simp only [if_neg hallowed]
      exact .throw rfl

/-- Reading an atom keeps step with a run in front of the atom, and uses up at least one token. -/
theorem keepsStep_atom (hp : p.potential env ≤ n) (ht : p.lookahead = some t)
    (hend : t.isEnd = false) (s : Stack α) :
    KeepsStep env outer (atom env) p (fun _ q => q.potential env < p.potential env)
      ((p.switchMode outer).carryOut env (s.feedAtom env t p.mode))
      fun m q => q.proceed env (s.deliver env m) := by
  rw [Stack.feedAtom]
  refine .call (fun depth => by rw [atom]) ?_
  refine .fetch_bind ht ?_
  by_cases hopen : t.text = "\x7b"
  · simp only [if_pos hopen]
    exact keepsStep_group ih hp ht hend (Stack.isBody_brace env p.mode t.span s)
  by_cases hcontrol : t.isControl = true
  · simp only [if_neg hopen, if_pos hcontrol]
    exact keepsStep_command ih hp ht hend s
  simp only [if_neg hopen, if_neg hcontrol]
  by_cases hcharacter : t.isCharacter = true
  · rw [if_pos hcharacter]
    refine .returns (b := t.node p.mode) (q := p.consume) (.of_step ?_) rfl ?_ ?_ rfl
    · simp [Procedure.character, Procedure.step, hcharacter]
    · exact Parser.potential_consume_le env p
    · exact Parser.potential_consume_lt ht hend
  · rw [if_neg hcharacter]
    refine .fails (.of_step ?_) rfl rfl
    simp [Procedure.character, Procedure.step, hcharacter]

/-- Reading an expression keeps step with a run that is in the expression: one atom after the other,
up to a token that closes it. -/
theorem keepsStep_expression (hp : p.potential env ≤ n) {stop : Option String}
    {body : List Node → Stack α} {close : Token → List Node → Move α}
    (hb : Stack.IsBody env p.mode stop body close) (items : List Node) :
    KeepsStep env outer (expression env · stop items) p
      (fun _ q => ∃ t, q.lookahead = some t ∧ Stack.isIgnored q.mode t = false ∧
        Stack.closes stop t = true)
      ((p.switchMode outer).run env (body items))
      fun nodes q => q.run env (body nodes.reverse) := by
  refine .call (fun depth => by rw [expression]) ?_
  refine (KeepsStep.view hb items).bind ?_
  rintro t q hmode hle ⟨ht, hignored⟩
  have hfeed : Stack.feed env t (body items) =
      if Stack.closes stop t then close t items else (body items).feedAtom env t q.mode := by
    rw [hb.feed_eq, Stack.feedBody, ← hmode, if_neg (Bool.eq_false_iff.mp hignored)]
  by_cases hcloses : Stack.closes stop t = true
  · simp only [if_pos hcloses]
    refine .pure ⟨t, ht, hignored, hcloses⟩ ?_
    have hfetch := Parser.fetch_of_lookahead (p := q.switchMode outer) ht env
    rw [Parser.run_eq_carryOut hfetch, List.reverse_reverse]
  · have hend : t.isEnd = false := by
      cases hend : t.isEnd with
      | false => rfl
      | true => simp [Stack.closes, hend] at hcloses
    simp only [if_neg hcloses]
    rw [hfeed, if_neg hcloses]
    refine (keepsStep_atom ih (Nat.le_trans hle hp) ht hend (body items)).bind ?_
    intro m q' hmode' _ hlt
    rw [hb.deliver_eq]
    -- the atom has used up a token, and the mode is as it was
    have hb' : Stack.IsBody env q'.mode stop body close := by
      rw [hmode', hmode]
      exact hb
    exact (ih q' (by omega)).expression hb' outer (m :: items)

theorem keepsStep_optionalArgument (hp : p.potential env ≤ n) {stack : Call → Stack α}
    {finish : Call → Outcome α × Log} (hc : Stack.IsCall env stack finish) {c : Call}
    (hmode : p.mode = c.argumentMode)
    (hbare : c.bare = none) (horderly : c.Orderly) (hwants : c.wantsOptional = true) :
    KeepsStep env outer (optionalArgument env · c.arguments) p
      (fun args _ => (c.withArguments args).Orderly ∧ (c.withArguments args).index = c.index + 1)
      ((p.switchMode outer).run env (stack c))
      fun args q => q.proceed env (Stack.advance stack finish (c.withArguments args)) := by
  refine .call (fun depth => by rw [optionalArgument]) ?_
  refine (KeepsStep.viewBehindBlanks (hc.feed_blank c) p).bind ?_
  rintro t q hmode' hle ⟨ht, hne⟩
  rw [hc.feed_eq, Stack.feedCall, if_neg hne, if_pos hwants]
  by_cases hopen : t.text = "["
  · simp only [if_pos hopen]
    rw [← hmode, ← hmode']
    have hend : t.isEnd = false := by simp [Token.isEnd, Token.endText, hopen]
    -- the procedure is in the mode of the argument now, which the run takes from the call
    refine (keepsStep_group ih (Nat.le_trans hle hp) ht hend
      (Stack.isBody_bracket env q.mode t.span (stack c))).bind ?_
    intro m q' _ _ _
    have haccept := Call.accept_eq_addOptional hbare hwants m
    exact keepsStep_accept hc haccept horderly (Call.isComplete_of_wantsOptional hwants) rfl
  · simp only [if_neg hopen]
    have hskip := Call.skip_eq_addOptional hbare
    refine .pure ?_ ?_
    · rw [← hskip]
      exact ⟨horderly.skip hwants, c.index_skip⟩
    · rw [← hskip, Stack.advance]
      split <;> rfl

theorem keepsStep_requiredArgument (hp : p.potential env ≤ n) {stack : Call → Stack α}
    {finish : Call → Outcome α × Log} (hc : Stack.IsCall env stack finish) {c : Call}
    (hmode : p.mode = c.argumentMode)
    (hbare : c.bare = none) (horderly : c.Orderly) (hlacks : c.isComplete = false)
    (hwants : c.wantsOptional = false) :
    KeepsStep env outer (requiredArgument env · c.name c.arguments) p
      (fun args _ => (c.withArguments args).Orderly ∧ (c.withArguments args).index = c.index + 1)
      ((p.switchMode outer).run env (stack c))
      fun args q => q.proceed env (Stack.advance stack finish (c.withArguments args)) := by
  refine .call (fun depth => by rw [requiredArgument]) ?_
  refine (KeepsStep.viewBehindBlanks (hc.feed_blank c) p).bind ?_
  rintro t q hmode' hle ⟨ht, hne⟩
  rw [hc.feed_eq, Stack.feedCall, if_neg hne, if_neg (Bool.eq_false_iff.mp hwants)]
  by_cases hmissing : (t.isEnd || t.text == "\x7d" || t.text == "]") = true
  · simp only [if_pos hmissing]
    exact .throw rfl
  have hend : t.isEnd = false := by
    cases hend : t.isEnd with
    | false => rfl
    | true => simp [hend] at hmissing
  by_cases hopen : t.text = "\x7b"
  · simp only [if_neg hmissing, if_pos hopen]
    rw [← hmode, ← hmode']
    refine (keepsStep_group ih (Nat.le_trans hle hp) ht hend
      (Stack.isBody_brace env q.mode t.span (stack c))).bind ?_
    intro m q' _ _ _
    have haccept := Call.accept_eq_addRequired hbare hwants m
    exact keepsStep_accept hc haccept horderly hlacks rfl
  · simp only [if_neg hmissing, if_neg hopen]
    rw [← hmode, ← hmode']
    -- the run marks the call, so that the node becomes a group of its own
    refine (keepsStep_atom ih (Nat.le_trans hle hp) ht hend
      (stack { c with bare := some t.span })).bind ?_
    intro m q' hmode'' _ _
    refine .step_bind rfl rfl (Nat.le_refl _) ?_
    have haccept := Call.accept_bare_eq_addRequired hwants t.span m
    rw [hmode'', hmode', hmode]
    exact keepsStep_accept hc haccept (horderly.bare (some t.span)) hlacks rfl

/-- Reading one more argument keeps step with a run that waits for it.  The mode is switched and
switched back, and the run has nothing to do for that. -/
theorem keepsStep_argument (hp : p.potential env ≤ n) {stack : Call → Stack α}
    {finish : Call → Outcome α × Log} (hc : Stack.IsCall env stack finish) {c : Call}
    (hmode : c.mode = p.mode)
    (hbare : c.bare = none) (horderly : c.Orderly) (hlacks : c.isComplete = false) :
    KeepsStep env outer (argument env · c.name c.command c.arguments) p
      (fun args _ => (c.withArguments args).Orderly ∧ (c.withArguments args).index = c.index + 1)
      ((p.switchMode outer).run env (stack c))
      fun args q => q.proceed env (Stack.advance stack finish (c.withArguments args)) := by
  -- the mode of the argument, as its type says
  let inner := (c.command.argumentType c.arguments.number).mode p.mode
  have hinner : (p.switchMode inner).mode = c.argumentMode := by
    rw [Call.argumentMode, hmode]
    rfl
  cases hwants : c.wantsOptional with
  | true =>
    have hnumber : c.arguments.number < c.command.optional := horderly.wantsOptional_iff.mp hwants
    refine KeepsStep.within (fun depth => ?_)
      (keepsStep_optionalArgument (p := p.switchMode inner) ih hp hc hinner hbare horderly hwants)
    rw [argument]
    simp only [if_pos hnumber]
    rfl
  | false =>
    have hnumber : ¬ c.arguments.number < c.command.optional :=
      Nat.not_lt.mpr (horderly.optional_le_index hwants)
    refine KeepsStep.within (fun depth => ?_)
      (keepsStep_requiredArgument (p := p.switchMode inner) ih hp hc hinner hbare horderly hlacks
        hwants)
    rw [argument]
    simp only [if_neg hnumber]
    rfl

/-- Reading the arguments that a call lacks keeps step with a run that waits for them. -/
theorem keepsStep_arguments (hp : p.potential env ≤ n) {stack : Call → Stack α}
    {finish : Call → Outcome α × Log} (hc : Stack.IsCall env stack finish) {c : Call}
    (hmode : c.mode = p.mode)
    (hbare : c.bare = none) (horderly : c.Orderly) :
    KeepsStep env outer (arguments env · c.name c.command c.arguments) p (fun _ _ => True)
      ((p.switchMode outer).proceed env (Stack.advance stack finish c))
      fun args q => q.proceed env (finish (c.withArguments args)) := by
  -- every round adds an argument, so the number of those that are left gets less
  induction hleft : c.command.optional + c.command.required - c.index generalizing c p with
  | zero =>
    have hcomplete : c.isComplete = true := horderly.isComplete_iff.mpr (by omega)
    have hnumber : ¬ c.arguments.number < c.command.optional + c.command.required := by
      have : c.arguments.number = c.index := rfl
      omega
    rw [Stack.advance, if_pos hcomplete]
    refine .call (fun depth => by rw [arguments, if_neg hnumber]) ?_
    refine .pure trivial ?_
    rw [Call.withArguments_arguments hbare]
  | succ k ihk =>
    have hlacks : c.isComplete = false := horderly.lacks (by omega)
    have hnumber : c.arguments.number < c.command.optional + c.command.required := by
      have : c.arguments.number = c.index := rfl
      omega
    rw [Stack.advance, hlacks]
    refine .call (fun depth => by rw [arguments, if_pos hnumber]) ?_
    refine (keepsStep_argument ih hp hc hmode hbare horderly hlacks).bind ?_
    rintro args q hmode' hle ⟨horderly', hindex⟩
    have hleft' : c.command.optional + c.command.required - (c.withArguments args).index = k := by
      omega
    exact ihk (c := c.withArguments args) (Nat.le_trans hle hp) (hmode.trans hmode'.symm) rfl
      horderly' hleft'

end

/-- **The procedures keep step at every place**, whatever is on the stack of the run. -/
theorem agrees (env : Environment) (p : Parser) : Agrees env p := by
  -- on what is still to come, as no call is made before a token is used up
  induction hn : p.potential env using Nat.strongRecOn generalizing p with
  | ind n ih =>
    have ih' : ∀ q : Parser, q.potential env < n → Agrees env q := fun q hq => ih _ hq q rfl
    exact ⟨fun hb outer items => keepsStep_expression ih' (Nat.le_of_eq hn) hb items,
      fun hc outer _ hmode hbare horderly =>
        keepsStep_arguments ih' (Nat.le_of_eq hn) hc hmode hbare horderly⟩

/-! ### Whole pieces -/

/-- Reading an expression comes to an end, with what a run makes of its nodes. -/
theorem expression_run (env : Environment) (stop : Option String) (make : List Node → α)
    (p : Parser) : ∃ result q, Restores (expression env · stop []) p (result, q) ∧
      p.run env (.expression p.mode stop [] make) = (result.map make, q) := by
  have hb := Stack.isBody_expression env p.mode stop make
  refine ((agrees env p).expression hb p.mode []).finish ?_
  rintro nodes q hmode ⟨t, ht, hignored, hcloses⟩
  rw [hmode] at hignored
  rw [hb.run_of_closes ht hignored hcloses, List.reverse_reverse]
  rfl

/-- Reading an expression restores the mode and comes to what the stack comes to. -/
theorem restores_expression (env : Environment) (stop : Option String) (p : Parser) :
    Restores (expression env · stop []) p (p.expression env stop) := by
  obtain ⟨result, q, hx, hrun⟩ := expression_run env stop id p
  have hid : result.map id = result := by cases result <;> rfl
  rw [Parser.expression, hrun, hid]
  exact hx

/-- Reading everything restores the mode and comes to what the stack comes to, also if something is
left behind the expression. -/
theorem restores_document (env : Environment) (p : Parser) :
    Restores (document env) p (p.document env) := by
  have hexpression := restores_expression env none p
  rw [Parser.document]
  rcases hresult : p.expression env none with ⟨e | nodes, q⟩
  · rw [hresult] at hexpression
    exact hexpression.bind_error
  · rw [hresult] at hexpression
    refine hexpression.bind ?_
    have hexpect : Restores (fun _ => Procedure.step (Parser.expect env Token.endText true)) q _ :=
      .of_step rfl (Parser.mode_expect env Token.endText true q)
    simp only
    rcases hresult' : q.expect env Token.endText true with ⟨e | _, q'⟩
    · rw [hresult'] at hexpect
      exact hexpect.bind_error
    · rw [hresult'] at hexpect
      exact hexpect.bind (.of_step rfl rfl)

/-- Reading the arguments that a call lacks comes to an end, with what a run adds to the call. -/
theorem arguments_run (env : Environment) {c : Call} {p : Parser} (hmode : c.mode = p.mode)
    (hbare : c.bare = none) (horderly : c.Orderly) :
    ∃ result q, Restores (arguments env · c.name c.command c.arguments) p (result, q) ∧
      p.arguments env c = (result.map c.withArguments, q) := by
  have hrun : p.arguments env c = p.proceed env
      (Stack.advance (.arguments · id) (fun c' => (.done (id c'), [])) c) := by
    rw [Parser.arguments, Stack.advance]
    split <;> rfl
  rw [hrun]
  have hc := Stack.isCall_arguments env (α := Call) id
  exact ((agrees env p).arguments hc p.mode hmode hbare horderly).finish fun _ _ _ _ => rfl

/-- Doing what a registered command does restores the mode, also if the command reads more of the
text. -/
theorem restores_conclude (env : Environment) (name : String) (token : Option Token)
    (args : Arguments) {command : Command} (hcommand : env.registry.command? name = some command)
    (p : Parser) :
    Restores (invoke env · name token args) p (p.conclude env
      (command.run env.options ⟨name, token, p.mode, args.required, args.optional⟩)) := by
  refine .call (fun depth => by rw [invoke, hcommand]) ?_
  refine .bind (b := p.mode) (q := p) (.of_step rfl rfl) ?_
  rcases command.run env.options ⟨name, token, p.mode, args.required, args.optional⟩
    with ⟨reply, log⟩
  refine .bind (b := ()) (q := p.report log) (.of_step rfl rfl) ?_
  cases reply with
  | node n => exact .of_step rfl rfl
  | fail e => exact .of_step rfl rfl
  | readUntil stop finish =>
    obtain ⟨result, q, hx, hrun⟩ := expression_run env stop finish (p.report log)
    have hconclude : p.conclude env (.readUntil stop finish, log) = (result.map finish, q) := hrun
    rw [hconclude]
    cases result with
    | error e => exact hx.bind_error
    | ok nodes => exact hx.bind (.of_step rfl rfl)

/-- Doing what a command does, which may not be registered. -/
theorem restores_invoke (env : Environment) (name : String) (token : Option Token)
    (args : Arguments) (p : Parser) :
    Restores (invoke env · name token args) p
      (p.invoke env ⟨name, token, p.mode, args.required, args.optional⟩) := by
  rw [Parser.invoke]
  cases hcommand : env.registry.command? name with
  | none =>
    refine .call (fun depth => by rw [invoke, hcommand]) ?_
    exact .of_step rfl rfl
  | some command => exact restores_conclude env name token args hcommand p

/-- Reading the command that a token names, which need not be in view, restores the mode and comes
to what the stack comes to.  A command that is not known or not allowed fails before any argument is
read. -/
theorem restores_command (env : Environment) (t : Token) (p : Parser) :
    Restores (command env · t) p (p.command env t) := by
  rw [Parser.command]
  refine .call (fun depth => by rw [command]) ?_
  cases hcommand : env.registry.command? t.text with
  | none =>
    have hopen : env.openCall t p.mode =
        .error (false, .located (.undefinedCommand t.text) t.span) := by
      rw [Environment.openCall, hcommand]
    rw [hopen]
    exact .of_step rfl rfl
  | some c =>
    refine .bind (b := ()) (q := p.consume) (.of_step rfl rfl) ?_
    refine .bind (b := p.mode) (q := p.consume) (.of_step rfl rfl) ?_
    by_cases hallowed : c.allowedIn p.mode = true
    · -- from here on the run has the call, and the procedure its parts
      let call : Call := { name := t.text, token := some t, command := c, mode := p.mode }
      have hopen : env.openCall t p.mode = .ok call :=
        Environment.openCall_eq_ok_iff.mpr ⟨c, hcommand, hallowed, rfl⟩
      have horderly : call.Orderly := Call.orderly_openCall hopen
      obtain ⟨result, q, hx, hrun⟩ :=
        arguments_run env (p := p.consume) (c := call) rfl rfl horderly
      simp only [if_pos hallowed, hopen, hrun]
      cases result with
      | error e => exact hx.bind_error
      | ok args =>
        refine hx.bind ?_
        have hinvoke : (call.withArguments args).invoke env =
            c.run env.options ⟨t.text, some t, q.mode, args.required, args.optional⟩ := by
          rw [hx.mode_eq]
          rfl
        show Restores (invoke env · t.text (some t) args) q
          (q.conclude env ((call.withArguments args).invoke env))
        rw [hinvoke]
        exact restores_conclude env t.text (some t) args hcommand q
    · have hopen : env.openCall t p.mode =
          .error (true, .located (.wrongMode t.text p.mode) t.span) := by
        rw [Environment.openCall, hcommand]
        exact if_neg hallowed
      simp only [if_neg hallowed, hopen]
      exact .of_step rfl rfl

end Descent

end MathMarkup
