import MathMarkup.Proofs.Parser.Descent

/-!
# The mode is restored

A parser can be asked for single tokens, for whole pieces, or to go on in another mode.  Each
time it may fail, and it can be asked again.  The procedures that read whole pieces switch the
mode in front of an argument and switch it back behind it.  Between two requests none of that is
left: after any history the mode is the one that was last asked for, also if the parser failed in
the middle of an argument.

## Main definitions

* `Action`, `Answer` — what a parser can be asked, and what it answers.
* `Descent.perform`, `Descent.performAll` — one action and some actions, by procedures that
  switch the mode.
* `Parser.perform`, `Parser.performAll` — the same with the stack.

## Main results

* `Descent.perform_eq` — an action comes to an end, with the mode that it says and with what the
  stack comes to.
* `Descent.mode_restored` — **after any history, every action but a switch leaves the mode as it
  was, whether it succeeds or fails.**
-/

namespace MathMarkup

/-- What a parser can be asked to do: all that is open to those who use it, and to handlers of
commands. -/
inductive Action where
  /-- Look at the next token. -/
  | fetch
  /-- Use up the token in view. -/
  | consume
  /-- Fail unless the token in view has a given text. -/
  | expect (text : String) (consuming : Bool)
  /-- Use up blanks. -/
  | skipBlanks
  /-- Go on in another mode. -/
  | switchMode (mode : Mode)
  /-- Read everything. -/
  | document
  /-- Read an expression. -/
  | expression (stop : Option String)
  /-- Read the arguments of the command that a token names, and do what it does. -/
  | command (t : Token)
  /-- Read the arguments of a command. -/
  | arguments (name : String) (command : Command)
  /-- Do what a registered command does, with given arguments. -/
  | invoke (name : String) (token : Option Token) (args : Arguments)

/-- The mode that an action switches to, if it is a switch. -/
def Action.target? : Action → Option Mode
  | .switchMode mode => some mode
  | _ => none

/-- What a parser answers if it does not fail. -/
inductive Answer where
  /-- It is done. -/
  | done
  /-- The token in view. -/
  | token (t : Token)
  /-- The nodes of an expression. -/
  | nodes (nodes : List Node)
  /-- The node of a command. -/
  | node (n : Node)
  /-- The arguments of a command. -/
  | arguments (args : Arguments)

namespace Descent

/-- Does one action, with procedures that may call each other so deep. -/
def perform (env : Environment) (depth : Nat) : Action → Procedure Answer
  | .fetch => do return .token (← Procedure.fetch env)
  | .consume => do
      Procedure.consume
      return .done
  | .expect text consuming => do
      Procedure.step (Parser.expect env text consuming)
      return .done
  | .skipBlanks => do
      Procedure.step (Parser.skipBlanks env)
      return .done
  | .switchMode mode => Procedure.step fun p => (.ok .done, p.switchMode mode)
  | .document => do return .nodes (← document env depth)
  | .expression stop => do return .nodes (← expression env depth stop [])
  | .command t => do return .node (← command env depth t)
  | .arguments name command => do return .arguments (← arguments env depth name command {})
  | .invoke name token args => do return .node (← invoke env depth name token args)

/-- Does some actions, one after the other, also behind one that failed.  The parser is left as it
is then, and can be asked again. -/
def performAll (env : Environment) (depth : Nat) : List Action → Parser → Option Parser
  | [], p => some p
  | action :: history, p => do
      let (_, p) ← perform env depth action p
      performAll env depth history p

end Descent

/-- Answers with what was read, or fails as reading it did. -/
def answerWith {β : Type} (make : β → Answer) (outcome : Except CompileError β × Parser) :
    Except CompileError Answer × Parser :=
  (outcome.1.map make, outcome.2)

namespace Parser

/-- Does one action, with a stack for what is read. -/
def perform (env : Environment) (p : Parser) : Action → Except CompileError Answer × Parser
  | .fetch => answerWith .token (p.fetch env)
  | .consume => (.ok .done, p.consume)
  | .expect text consuming => answerWith (fun _ => .done) (p.expect env text consuming)
  | .skipBlanks => answerWith (fun _ => .done) (p.skipBlanks env)
  | .switchMode mode => (.ok .done, p.switchMode mode)
  | .document => answerWith .nodes (p.document env)
  | .expression stop => answerWith .nodes (p.expression env stop)
  | .command t => answerWith .node (p.command env t)
  | .arguments name command => answerWith (fun c => .arguments c.arguments)
      (p.arguments env { name := name, token := none, command := command, mode := p.mode })
  | .invoke name token args =>
      answerWith .node (p.invoke env ⟨name, token, p.mode, args.required, args.optional⟩)

/-- Does some actions, one after the other, also behind one that failed. -/
def performAll (env : Environment) (history : List Action) (p : Parser) : Parser :=
  history.foldl (fun p action => (p.perform env action).2) p

theorem mode_skipBlanks (env : Environment) (p : Parser) : (p.skipBlanks env).2.mode = p.mode := by
  fun_induction skipBlanks env p with
  | case1 p e q hfetch => exact mode_of_fetch hfetch
  | case2 p t q hfetch hblank ih =>
    have hmode : q.mode = p.mode := mode_of_fetch hfetch
    exact ih.trans hmode
  | case3 p t q hfetch hblank => exact mode_of_fetch hfetch

end Parser

/-- An action that answers with what a procedure returns. -/
theorem Restores.answer {β : Type} {x : Nat → Procedure β} {p : Parser}
    {outcome : Except CompileError β × Parser} (h : Restores x p outcome) (make : β → Answer) :
    Restores (fun depth => x depth >>= fun b => pure (make b)) p (answerWith make outcome) := by
  obtain ⟨result, q⟩ := outcome
  cases result with
  | error e => exact h.bind_error
  | ok b => exact h.bind (.of_step rfl rfl)

namespace Descent

/-- Every action but a switch comes to an end in the mode that it started in, with what the stack
comes to. -/
theorem restores_perform (env : Environment) {action : Action} (h : action.target? = none)
    (p : Parser) : Restores (perform env · action) p (p.perform env action) := by
  cases action with
  | fetch => exact (Restores.of_step rfl (Parser.mode_of_fetch rfl)).answer .token
  | consume => exact .of_step rfl rfl
  | expect text consuming =>
    exact (Restores.of_step rfl (Parser.mode_expect env text consuming p)).answer fun _ => .done
  | skipBlanks =>
    exact (Restores.of_step rfl (Parser.mode_skipBlanks env p)).answer fun _ => .done
  | switchMode mode => cases h
  | document => exact (restores_document env p).answer .nodes
  | expression stop => exact (restores_expression env stop p).answer .nodes
  | command t => exact (restores_command env t p).answer .node
  | arguments name command =>
    -- the stack has the call of a command that no token named
    let c : Call := { name := name, token := none, command := command, mode := p.mode }
    have horderly : c.Orderly := ⟨Nat.zero_le _, Nat.zero_le _, fun _ => rfl⟩
    obtain ⟨result, q, hx, hrun⟩ := arguments_run env (c := c) (p := p) rfl rfl horderly
    have hperform : p.perform env (.arguments name command) =
        answerWith .arguments (result, q) := by
      rw [Parser.perform, show p.arguments env _ = _ from hrun]
      cases result <;> rfl
    rw [hperform]
    exact hx.answer .arguments
  | invoke name token args => exact (restores_invoke env name token args p).answer .node

/-- An action comes to an end with what the stack comes to, and only a switch changes the mode. -/
theorem perform_eq (env : Environment) (action : Action) (p : Parser) :
    ComesTo (perform env · action) p (p.perform env action) ∧
      (p.perform env action).2.mode = action.target?.getD p.mode := by
  cases htarget : action.target? with
  | none =>
    have h := restores_perform env htarget p
    exact ⟨h.comesTo, h.mode_eq⟩
  | some mode =>
    cases action with
    | switchMode mode' =>
      cases htarget
      exact ⟨.of_step rfl, rfl⟩
    | _ => cases htarget

/-- A history comes to an end with what the stack comes to, in the mode that was last asked for. -/
theorem performAll_eq (env : Environment) (history : List Action) (p : Parser) :
    (∃ enough, ∀ depth, enough ≤ depth →
      performAll env depth history p = some (p.performAll env history)) ∧
      (p.performAll env history).mode = (history.filterMap Action.target?).getLastD p.mode := by
  -- on the history; the depth has to do for its first action and for all the others
  induction history generalizing p with
  | nil => exact ⟨⟨0, fun _ _ => rfl⟩, rfl⟩
  | cons action history ih =>
    obtain ⟨⟨m, hperform⟩, hmode⟩ := perform_eq env action p
    obtain ⟨⟨n, hrest⟩, hlast⟩ := ih (p.perform env action).2
    refine ⟨⟨max m n, fun depth hdepth => ?_⟩, ?_⟩
    · have haction : perform env depth action p = some (p.perform env action) :=
        hperform depth (by omega)
      rw [performAll, haction]
      exact hrest depth (by omega)
    · rw [Parser.performAll, List.foldl_cons, ← Parser.performAll, hlast, hmode,
        List.filterMap_cons]
      -- a later switch counts, and otherwise this one
      cases action.target? with
      | none => rfl
      | some mode => rw [List.getLastD_cons]; rfl

/-- **The mode is always restored.**  Ask a parser for anything, any number of times, whether it
fails or not, and then for one thing more.  The procedures that switch the mode for an argument
come to an end every time, if they may call deep enough.  The mode is then the one that was last
asked for, so that only a switch changes it, and the result and the parser are those of the stack,
which never switches. -/
theorem mode_restored (o : Options) (source : String) (history : List Action) (action : Action) :
    let env : Environment := ⟨.standard, o⟩
    ∃ p result q,
      (∃ enough, ∀ depth, enough ≤ depth →
        performAll env depth history (.ofText source) = some p ∧
        perform env depth action p = some (result, q)) ∧
      p.mode = (history.filterMap Action.target?).getLastD .math ∧
      q.mode = action.target?.getD p.mode ∧
      (Parser.ofText source).performAll env history = p ∧
      p.perform env action = (result, q) := by
  intro env
  obtain ⟨⟨m, hhistory⟩, hmode⟩ := performAll_eq env history (.ofText source)
  obtain ⟨⟨n, haction⟩, hmode'⟩ :=
    perform_eq env action ((Parser.ofText source).performAll env history)
  refine ⟨_, _, _, ⟨max m n, fun depth hdepth => ⟨hhistory depth ?_, haction depth ?_⟩⟩, hmode,
    hmode', rfl, rfl⟩
  · omega
  · omega

end Descent

end MathMarkup
