import Mathlib.Data.List.Forall2
import MathMarkup.Compile

/-!
# Two parsers side by side

Two parsers that are fed tokens with the same texts do the same, as far as the commands
let them: they use up the same tokens, open and close the same groups, and fail at the
same places for the same reasons.  What may differ is where the tokens come from, and what
the commands make of the options of the two.

A comparison says how spans, nodes, errors and reports of the two have to be related.  It
is enough to know of the commands that they respect it; then every token does.

## Main definitions

* `Comparison` — how what the two parsers handle is related.
* `Comparison.Respects` — a command that answers related uses with related replies.
* `Comparison.Stacks`, `Comparison.Moves` — related stacks and what tokens do to them.

## Main results

* `Comparison.Stacks.deliver` — related nodes are delivered to the same effect.
* `Comparison.Stacks.feed` — **a token does the same to related stacks.**
-/

namespace MathMarkup

/-- How the spans, nodes, errors and reports of two parsers are related, which may have different
options.  The conditions are what the parser itself does with them: it covers spans, makes letters,
symbols and groups, reports errors at a token and puts reports together. -/
structure Comparison where
  /-- The options of the first parser. -/
  left : Options
  /-- The options of the second one. -/
  right : Options
  /-- Related places. -/
  span : Option Span → Option Span → Prop
  /-- Related nodes. -/
  node : Node → Node → Prop
  /-- Related errors. -/
  error : CompileError → CompileError → Prop
  /-- Related reports. -/
  log : Log → Log → Prop
  span_cover : ∀ {a b a' b' : Option Span}, span a a' → span b b' →
    span (Span.cover a b) (Span.cover a' b')
  node_letter : ∀ {mode : Mode} {a a' : Option Span} (text : String), span a a' →
    node (.letter ⟨mode, a⟩ text) (.letter ⟨mode, a'⟩ text)
  node_symbol : ∀ {mode : Mode} {a a' : Option Span} (text : String), span a a' →
    node (.symbol ⟨mode, a⟩ text) (.symbol ⟨mode, a'⟩ text)
  node_group : ∀ {mode : Mode} {a a' : Option Span} {xs ys : List Node}, span a a' →
    List.Forall₂ node xs ys → node (.group ⟨mode, a⟩ xs) (.group ⟨mode, a'⟩ ys)
  error_located : ∀ {a a' : Option Span} (reason : Reason), span a a' →
    error (.located reason a) (.located reason a')
  log_nil : log [] []
  log_append : ∀ {k k' l l' : Log}, log k k' → log l l' → log (k ++ l) (k' ++ l')

namespace Comparison

/-! ### Tokens and calls -/

/-- Tokens with the same text at related places. -/
structure Tokens (R : Comparison) (t t' : Token) : Prop where
  /-- They have the same text. -/
  text : t.text = t'.text
  /-- Their places are related. -/
  span : R.span t.span t'.span

/-- Calls of one command with related arguments. -/
structure Calls (R : Comparison) (c c' : Call) : Prop where
  /-- They have the same name. -/
  name : c.name = c'.name
  /-- Related tokens named them. -/
  token : Option.Rel R.Tokens c.token c'.token
  /-- They call the same command. -/
  command : c.command = c'.command
  /-- They stand in the same mode. -/
  mode : c.mode = c'.mode
  /-- Their optional arguments are related, and the same ones are left out. -/
  optional : List.Forall₂ (Option.Rel R.node) c.optional c'.optional
  /-- Their required arguments are related. -/
  required : List.Forall₂ R.node c.required c'.required
  /-- Both of them or neither reads an argument without braces. -/
  bare : Option.Rel R.span c.bare c'.bare

/-- Uses of a command with related arguments. -/
structure Invocations (R : Comparison) (i i' : Invocation) : Prop where
  /-- They have the same name. -/
  name : i.name = i'.name
  /-- Related tokens named them. -/
  token : Option.Rel R.Tokens i.token i'.token
  /-- They stand in the same mode. -/
  mode : i.mode = i'.mode
  /-- Their required arguments are related. -/
  required : List.Forall₂ R.node i.required i'.required
  /-- Their optional arguments are related, and the same ones are left out. -/
  optional : List.Forall₂ (Option.Rel R.node) i.optional i'.optional

/-- Replies to the same effect. -/
inductive Replies (R : Comparison) : Reply × Log → Reply × Log → Prop where
  /-- Both make a node. -/
  | node {n n' : Node} {log log' : Log} (hnode : R.node n n') (hlog : R.log log log') :
      Replies R (.node n, log) (.node n', log')
  /-- Both fail. -/
  | fail {e e' : CompileError} {log log' : Log} (herror : R.error e e')
      (hlog : R.log log log') : Replies R (.fail e, log) (.fail e', log')
  /-- Both take what follows, up to the same token. -/
  | readUntil {stop : Option String} {finish finish' : List Node → Node} {log log' : Log}
      (hfinish : ∀ {xs ys}, List.Forall₂ R.node xs ys → R.node (finish xs) (finish' ys))
      (hlog : R.log log log') :
      Replies R (.readUntil stop finish, log) (.readUntil stop finish', log')

/-- Whether a command answers related uses with related replies.  This is asked of the commands of a
registry, and nothing else is. -/
def Respects (R : Comparison) (c : Command) : Prop :=
  ∀ ⦃i i' : Invocation⦄, R.Invocations i i' → R.Replies (c.run R.left i) (c.run R.right i')

variable {R : Comparison}

namespace Tokens

variable {t t' : Token}

theorem isEnd (h : R.Tokens t t') : t.isEnd = t'.isEnd := by
  rw [Token.isEnd, Token.isEnd, h.text]

theorem isControl (h : R.Tokens t t') : t.isControl = t'.isControl := by
  rw [Token.isControl, Token.isControl, h.text]

theorem isCharacter (h : R.Tokens t t') : t.isCharacter = t'.isCharacter := by
  rw [Token.isCharacter, Token.isCharacter, h.text]

/-- A character is the same node in both, places apart. -/
theorem node (h : R.Tokens t t') (mode : Mode) : R.node (t.node mode) (t'.node mode) := by
  have hletter : t.isAlphabetic = t'.isAlphabetic := by
    rw [Token.isAlphabetic, Token.isAlphabetic, h.text]
  unfold Token.node
  rw [hletter, h.text]
  split
  · exact R.node_letter _ h.span
  · exact R.node_symbol _ h.span

theorem error (h : R.Tokens t t') (reason : Reason) :
    R.error (.located reason t.span) (.located reason t'.span) :=
  R.error_located reason h.span

end Tokens

namespace Calls

variable {c c' : Call}

theorem wantsOptional (h : R.Calls c c') : c.wantsOptional = c'.wantsOptional := by
  rw [Call.wantsOptional, Call.wantsOptional, h.command, h.optional.length_eq]

theorem isComplete (h : R.Calls c c') : c.isComplete = c'.isComplete := by
  rw [Call.isComplete, Call.isComplete, h.command, h.optional.length_eq, h.required.length_eq]

theorem argumentMode (h : R.Calls c c') : c.argumentMode = c'.argumentMode := by
  rw [Call.argumentMode, Call.argumentMode, h.command, h.mode, h.optional.length_eq,
    h.required.length_eq]

theorem argument (h : R.Calls c c') {n n' : Node} (hn : R.node n n') :
    R.node (c.argument n) (c'.argument n') := by
  unfold Call.argument
  rw [h.argumentMode]
  obtain ⟨name, token, command, mode, optional, required, bare⟩ := c
  obtain ⟨name', token', command', mode', optional', required', bare'⟩ := c'
  have hbare : Option.Rel R.span bare bare' := h.bare
  -- both arguments stand in braces, or neither does and each is put in a group of its own
  cases hbare with
  | some hspan => exact R.node_group hspan (.cons hn .nil)
  | none => exact hn

theorem accept (h : R.Calls c c') {n n' : Node} (hn : R.node n n') :
    R.Calls (c.accept n) (c'.accept n') := by
  have harg := h.argument hn
  unfold Call.accept
  rw [h.wantsOptional]
  split
  · exact ⟨h.name, h.token, h.command, h.mode,
      List.rel_append h.optional (.cons (.some harg) .nil), h.required, .none⟩
  · exact ⟨h.name, h.token, h.command, h.mode, h.optional,
      List.rel_append h.required (.cons harg .nil), .none⟩

theorem skip (h : R.Calls c c') : R.Calls c.skip c'.skip :=
  ⟨h.name, h.token, h.command, h.mode, List.rel_append h.optional (.cons .none .nil),
    h.required, h.bare⟩

theorem setBare (h : R.Calls c c') {a a' : Option Span} (ha : R.span a a') :
    R.Calls { c with bare := some a } { c' with bare := some a' } :=
  ⟨h.name, h.token, h.command, h.mode, h.optional, h.required, .some ha⟩

theorem invocation (h : R.Calls c c') : R.Invocations c.invocation c'.invocation :=
  ⟨h.name, h.token, h.mode, h.required, h.optional⟩

end Calls

/-! ### Stacks -/

variable {α : Type}

/-- Stacks on which the same things are open, with related contents.  At the bottom is an
expression, of which related nodes to come make related values. -/
inductive Stacks (R : Comparison) (value : α → α → Prop) : Stack α → Stack α → Prop where
  /-- Two expressions. -/
  | expression {mode : Mode} {stop : Option String} {items items' : List Node}
      {result result' : List Node → α}
      (hresult : ∀ {xs ys}, List.Forall₂ R.node xs ys →
        value (result (items.reverse ++ xs)) (result' (items'.reverse ++ ys))) :
      Stacks R value (.expression mode stop items result) (.expression mode stop items' result')
  /-- Two groups in braces. -/
  | brace {mode : Mode} {opening opening' : Option Span} {items items' : List Node}
      {below below' : Stack α} (hopening : R.span opening opening')
      (hitems : List.Forall₂ R.node items items') (hbelow : Stacks R value below below') :
      Stacks R value (.brace mode opening items below) (.brace mode opening' items' below')
  /-- Two optional arguments. -/
  | bracket {mode : Mode} {opening opening' : Option Span} {items items' : List Node}
      {below below' : Stack α} (hopening : R.span opening opening')
      (hitems : List.Forall₂ R.node items items') (hbelow : Stacks R value below below') :
      Stacks R value (.bracket mode opening items below) (.bracket mode opening' items' below')
  /-- Two commands that take the text behind them. -/
  | scope {mode : Mode} {stop : Option String} {finish finish' : List Node → Node}
      {items items' : List Node} {below below' : Stack α}
      (hfinish : ∀ {xs ys}, List.Forall₂ R.node xs ys → R.node (finish xs) (finish' ys))
      (hitems : List.Forall₂ R.node items items') (hbelow : Stacks R value below below') :
      Stacks R value (.scope mode stop finish items below) (.scope mode stop finish' items' below')
  /-- Two calls of a command that respects the comparison. -/
  | call {c c' : Call} {below below' : Stack α} (hcall : R.Calls c c')
      (hcommand : R.Respects c.command) (hbelow : Stacks R value below below') :
      Stacks R value (.call c below) (.call c' below')

/-- Related outcomes. -/
inductive Outcomes (R : Comparison) (value : α → α → Prop) : Outcome α → Outcome α → Prop where
  /-- Both want more tokens. -/
  | read {s s' : Stack α} (hstack : R.Stacks value s s') : Outcomes R value (.read s) (.read s')
  /-- Both are complete. -/
  | done {a a' : α} (hvalue : value a a') : Outcomes R value (.done a) (.done a')
  /-- Both have failed. -/
  | fail {e e' : CompileError} (herror : R.error e e') : Outcomes R value (.fail e) (.fail e')

/-- Related outcomes with related reports. -/
structure Results (R : Comparison) (value : α → α → Prop) (x y : Outcome α × Log) : Prop where
  /-- The outcomes are related. -/
  outcome : R.Outcomes value x.1 y.1
  /-- The reports are related. -/
  log : R.log x.2 y.2

/-- Moves to the same effect. -/
structure Moves (R : Comparison) (value : α → α → Prop) (m m' : Move α) : Prop where
  /-- The token is used up in both or in neither. -/
  taken : m.taken = m'.taken
  /-- The outcomes are related. -/
  outcome : R.Outcomes value m.outcome m'.outcome
  /-- The reports are related. -/
  log : R.log m.log m'.log

variable {value : α → α → Prop}

theorem Outcomes.exists_read {s : Stack α} {y : Outcome α}
    (h : R.Outcomes value (.read s) y) : ∃ s', y = .read s' ∧ R.Stacks value s s' := by
  cases h with
  | read hstack => exact ⟨_, rfl, hstack⟩

theorem Outcomes.exists_done {a : α} {y : Outcome α}
    (h : R.Outcomes value (.done a) y) : ∃ a', y = .done a' ∧ value a a' := by
  cases h with
  | done hvalue => exact ⟨_, rfl, hvalue⟩

theorem Outcomes.exists_fail {e : CompileError} {y : Outcome α}
    (h : R.Outcomes value (.fail e) y) : ∃ e', y = .fail e' ∧ R.error e e' := by
  cases h with
  | fail herror => exact ⟨_, rfl, herror⟩

theorem Outcomes.result {x y : Outcome α} (h : R.Outcomes value x y) :
    R.Results value (x, []) (y, []) := ⟨h, R.log_nil⟩

theorem Stacks.result {s s' : Stack α} (h : R.Stacks value s s') :
    R.Results value (.read s, []) (.read s', []) := (Outcomes.read h).result

theorem Results.take {x y : Outcome α × Log} (h : R.Results value x y) :
    R.Moves value (Stack.take x) (Stack.take y) := ⟨rfl, h.outcome, h.log⟩

theorem Results.leave {x y : Outcome α × Log} (h : R.Results value x y) :
    R.Moves value (Stack.leave x) (Stack.leave y) := ⟨rfl, h.outcome, h.log⟩

/-! ### Deliveries -/

theorem Replies.settle {mode : Mode} {below below' : Stack α} {x y : Reply × Log}
    {deliver deliver' : Node → Outcome α × Log} (h : R.Replies x y)
    (hbelow : R.Stacks value below below')
    (hdeliver : ∀ {n n'}, R.node n n' → R.Results value (deliver n) (deliver' n')) :
    R.Results value (Stack.settle mode below deliver x) (Stack.settle mode below' deliver' y) := by
  cases h with
  | node hnode hlog =>
    exact ⟨(hdeliver hnode).outcome, R.log_append (hdeliver hnode).log hlog⟩
  | fail herror hlog => exact ⟨.fail herror, hlog⟩
  | readUntil hfinish hlog => exact ⟨.read (.scope hfinish .nil hbelow), hlog⟩

variable {registry : Registry}

/-- Related nodes are delivered to the same effect, through all the calls that they complete. -/
theorem Stacks.deliver {s s' : Stack α} (h : R.Stacks value s s') {n n' : Node}
    (hn : R.node n n') :
    R.Results value (s.deliver ⟨registry, R.left⟩ n) (s'.deliver ⟨registry, R.right⟩ n') := by
  -- on the stack: a call that is completed delivers its own node to what is below
  induction h generalizing n n' with
  | expression hresult =>
    refine (Stacks.expression fun hxs => ?_).result
    simpa using hresult (.cons hn hxs)
  | brace hopening hitems hbelow => exact (Stacks.brace hopening (.cons hn hitems) hbelow).result
  | bracket hopening hitems hbelow =>
    exact (Stacks.bracket hopening (.cons hn hitems) hbelow).result
  | scope hfinish hitems hbelow => exact (Stacks.scope hfinish (.cons hn hitems) hbelow).result
  | @call c c' below below' hcall hcommand hbelow ih =>
    have haccept := hcall.accept hn
    have hrun : R.Respects (c.accept n).command := by rwa [Call.command_accept]
    simp only [Stack.deliver]
    rw [haccept.isComplete]
    split
    · -- the command respects the comparison, so that its replies are related
      rw [Call.invoke, Call.invoke, ← haccept.command, haccept.mode]
      exact (hrun haccept.invocation).settle hbelow ih
    · exact (Stacks.call haccept hrun hbelow).result

theorem Stacks.complete {s s' : Stack α} (h : R.Stacks value s s') {c c' : Call}
    (hcall : R.Calls c c') (hcommand : R.Respects c.command) :
    R.Results value (s.complete ⟨registry, R.left⟩ c) (s'.complete ⟨registry, R.right⟩ c') := by
  unfold Stack.complete
  rw [Call.invoke, Call.invoke, ← hcall.command, hcall.mode]
  exact (hcommand hcall.invocation).settle h fun hn => h.deliver hn

/-! ### Tokens -/

/-- Whether all commands of a registry respect a comparison. -/
def RespectsAll (R : Comparison) (registry : Registry) : Prop :=
  ∀ ⦃name : String⦄ ⦃c : Command⦄, registry.command? name = some c → R.Respects c

variable {s s' : Stack α} {t t' : Token}

theorem Stacks.feedCommand (hr : R.RespectsAll registry) (h : R.Stacks value s s')
    (ht : R.Tokens t t') (mode : Mode) :
    R.Moves value (s.feedCommand ⟨registry, R.left⟩ t mode)
      (s'.feedCommand ⟨registry, R.right⟩ t' mode) := by
  unfold Stack.feedCommand Environment.openCall
  simp only [ht.text]
  -- the names are the same, so both find the same command or none
  cases hcommand : registry.command? t'.text with
  | none => exact ⟨rfl, .fail (ht.error _), R.log_nil⟩
  | some command =>
    simp only
    by_cases hallowed : command.allowedIn mode = true
    · have hcall : R.Calls
          { name := t'.text, token := some t, command := command, mode := mode }
          { name := t'.text, token := some t', command := command, mode := mode } :=
        ⟨rfl, .some ht, rfl, rfl, .nil, .nil, .none⟩
      simp only [hallowed, if_true, hcall.isComplete]
      split
      · exact (h.complete hcall (hr hcommand)).take
      · exact (Stacks.call hcall (hr hcommand) h).result.take
    · simp only [hallowed, Bool.false_eq_true, if_false]
      exact ⟨rfl, .fail (ht.error _), R.log_nil⟩

theorem Stacks.feedAtom (hr : R.RespectsAll registry) (h : R.Stacks value s s')
    (ht : R.Tokens t t') (mode : Mode) :
    R.Moves value (s.feedAtom ⟨registry, R.left⟩ t mode)
      (s'.feedAtom ⟨registry, R.right⟩ t' mode) := by
  unfold Stack.feedAtom
  rw [ht.text, ht.isControl, ht.isCharacter]
  split_ifs
  · exact (Stacks.brace ht.span .nil h).result.take
  · exact h.feedCommand hr ht mode
  · exact (h.deliver (ht.node mode)).take
  · exact (Outcomes.fail (ht.error _)).result.leave

theorem Stacks.feedBody (hr : R.RespectsAll registry) (h : R.Stacks value s s')
    (ht : R.Tokens t t') (mode : Mode) (stop : Option String) {close close' : Move α}
    (hclose : R.Moves value close close') :
    R.Moves value (s.feedBody ⟨registry, R.left⟩ t mode stop close)
      (s'.feedBody ⟨registry, R.right⟩ t' mode stop close') := by
  have hignored : Stack.isIgnored mode t = Stack.isIgnored mode t' := by
    rw [Stack.isIgnored, Stack.isIgnored, ht.text]
  have hcloses : Stack.closes stop t = Stack.closes stop t' := by
    rw [Stack.closes, Stack.closes, ht.text, ht.isEnd]
  unfold Stack.feedBody
  rw [hignored, hcloses]
  split_ifs
  · exact h.result.take
  · exact hclose
  · exact h.feedAtom hr ht mode

theorem Results.feedClosing {x y : Outcome α × Log} (h : R.Results value x y)
    (ht : R.Tokens t t') (expected : String) :
    R.Moves value (Stack.feedClosing t expected x) (Stack.feedClosing t' expected y) := by
  unfold Stack.feedClosing
  rw [ht.text]
  split
  · exact h.take
  · exact (Outcomes.fail (ht.error _)).result.leave

/-- A group that is closed is delivered to what is below it. -/
theorem Stacks.deliver_group (h : R.Stacks value s s') (ht : R.Tokens t t') (mode : Mode)
    {opening opening' : Option Span} {items items' : List Node}
    (hopening : R.span opening opening') (hitems : List.Forall₂ R.node items items') :
    R.Results value
      (s.deliver ⟨registry, R.left⟩ (.group ⟨mode, Span.cover opening t.span⟩ items.reverse))
      (s'.deliver ⟨registry, R.right⟩
        (.group ⟨mode, Span.cover opening' t'.span⟩ items'.reverse)) :=
  h.deliver (R.node_group (R.span_cover hopening ht.span) (List.rel_reverse hitems))

theorem Stacks.feedCall (hr : R.RespectsAll registry) (h : R.Stacks value s s')
    (ht : R.Tokens t t') {c c' : Call} (hcall : R.Calls c c')
    (hcommand : R.Respects c.command) :
    R.Moves value
      (Stack.feedCall ⟨registry, R.left⟩ t c (.call · s) (s.complete ⟨registry, R.left⟩ ·))
      (Stack.feedCall ⟨registry, R.right⟩ t' c' (.call · s')
        (s'.complete ⟨registry, R.right⟩ ·)) := by
  unfold Stack.feedCall
  -- all that decides what the token does is the same in both calls
  rw [ht.text, ht.isEnd, hcall.wantsOptional, hcall.skip.isComplete, hcall.argumentMode]
  have hstack := Stacks.call hcall hcommand h
  split_ifs
  · exact hstack.result.take
  · exact (Stacks.bracket ht.span .nil hstack).result.take
  · exact (h.complete hcall.skip hcommand).leave
  · exact (Stacks.call hcall.skip hcommand h).result.leave
  · rw [hcall.name]
    exact (Outcomes.fail (ht.error _)).result.leave
  · exact (Stacks.brace ht.span .nil hstack).result.take
  · exact (Stacks.call (hcall.setBare ht.span) hcommand h).feedAtom hr ht _

/-- **A token does the same to related stacks**, if the commands respect the comparison. -/
theorem Stacks.feed (hr : R.RespectsAll registry) (h : R.Stacks value s s')
    (ht : R.Tokens t t') :
    R.Moves value (s.feed ⟨registry, R.left⟩ t) (s'.feed ⟨registry, R.right⟩ t') := by
  -- what closes the top is closed in both, and delivered to related stacks
  cases h with
  | expression hresult =>
    exact (Stacks.expression hresult).feedBody hr ht _ _
      (Outcomes.done (by simpa using hresult .nil)).result.leave
  | brace hopening hitems hbelow =>
    exact (Stacks.brace hopening hitems hbelow).feedBody hr ht _ _
      ((hbelow.deliver_group ht _ hopening hitems).feedClosing ht _)
  | bracket hopening hitems hbelow =>
    exact (Stacks.bracket hopening hitems hbelow).feedBody hr ht _ _
      ((hbelow.deliver_group ht _ hopening hitems).feedClosing ht _)
  | scope hfinish hitems hbelow =>
    exact (Stacks.scope hfinish hitems hbelow).feedBody hr ht _ _
      (hbelow.deliver (hfinish (List.rel_reverse hitems))).leave
  | call hcall hcommand hbelow => exact hbelow.feedCall hr ht hcall hcommand

end Comparison

end MathMarkup
