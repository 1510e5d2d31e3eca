import MathMarkup.Proofs.Parser.Failure

/-!
# A run that is watched and a run that is screened

The same text is read twice, with different options.  The first run is watched: from what it
reports one can tell what the second run does.  As long as the reports pass, the second run
does the same, step by step, and reports what it sees of them.  Once something is reported
that does not pass, the second run fails.

A screen says which reports pass and what is seen of them.  It is enough to know that the
standard commands respect the screen, and the tokens that come into view; then whole texts do.

## Main definitions

* `Logged`, `Reporting` — states that keep reports, and results that come with reports.
* `Screen` — the options of the two runs, which reports pass, and what is seen of them.
* `Screen.Follows` — a screened result follows a watched one.
* `Screen.IsClear` — all reports pass and are seen, so that results only follow if they are the
  same.
* `Screen.between` — the clear screen between two runs.
* `Screen.Respects`, `Screen.Tokens` — the standard commands and the tokens of the second run
  follow those of the first one.

## Main results

* `Screen.Respects.deliver`, `Screen.Respects.feed` — what one node and one token do.
* `Screen.Respects.step`, `Screen.Respects.run` — **a screened run follows the watched one.**
* `Screen.Respects.parse`, `Screen.Respects.parse_eq` — so does a whole text, which is read the
  same behind a clear screen.
-/

namespace MathMarkup

/-- Which call a token opens does not depend on the options. -/
theorem Environment.openCall_options (registry : Registry) (o o' : Options) (t : Token)
    (mode : Mode) : openCall ⟨registry, o⟩ t mode = openCall ⟨registry, o'⟩ t mode := rfl

/-! ### Reports -/

/-- States that keep what was reported. -/
class Logged (S : Type) where
  /-- What was reported, the newest first. -/
  log : S → Log
  /-- The same state with other reports. -/
  relog : (Log → Log) → S → S

/-- Results that come with reports, and that may be failures.  With this a reply, an outcome, a move
and a result of a whole run can be compared in the same words. -/
class Reporting (X : Type) where
  /-- What was reported, the newest first. -/
  reports : X → Log
  /-- The same result with other reports. -/
  revise : (Log → Log) → X → X
  /-- Whether the result is a failure. -/
  Failed : X → Prop

open Reporting

/-- The feed with other reports. -/
def Feed.relog (view : Log → Log) (f : Feed) : Feed := { f with log := view f.log }

/-- The parser with other reports. -/
def Parser.relog (view : Log → Log) (p : Parser) : Parser :=
  { p with feed := p.feed.relog view }

instance : Logged Log := ⟨id, id⟩

instance : Logged (Lexer × Log) := ⟨Prod.snd, fun view s => (s.1, view s.2)⟩

instance : Logged Feed := ⟨Feed.log, Feed.relog⟩

instance : Logged Parser := ⟨Parser.log, Parser.relog⟩

section

variable {α β S : Type}

instance [Logged S] : Reporting (Except CompileError α × S) where
  reports x := Logged.log x.2
  revise view x := (x.1, Logged.relog view x.2)
  Failed x := ∃ e, x.1 = .error e

instance : Reporting (Reply × Log) where
  reports x := x.2
  revise view x := (x.1, view x.2)
  Failed x := ∃ e, x.1 = .fail e

instance : Reporting (Outcome α × Log) where
  reports x := x.2
  revise view x := (x.1, view x.2)
  Failed x := ∃ e, x.1 = .fail e

instance : Reporting (Move α) where
  reports move := move.log
  revise view move := { move with log := view move.log }
  Failed move := ∃ e, move.outcome = .fail e

/-- Goes on from a result, unless that is an error.  The steps of a parser are sequences of this
form, which is what makes the comparison of two runs go through step by step. -/
def onward (x : Except CompileError α × S) (next : α → S → Except CompileError β × S) :
    Except CompileError β × S :=
  match x with
  | (.error e, s) => (.error e, s)
  | (.ok a, s) => next a s

theorem Feed.pull_eq (o : Options) (f : Feed) :
    f.pull o = onward (f.take o) fun t f =>
      match o.macros.lookup t.text with
      | none => (.ok t, f)
      | some replacement => onward (f.expand o t replacement) fun _ f => f.pull o := by
  rcases htake : f.take o with ⟨e | t, f₁⟩
  · exact pull_of_take_error htake
  · cases hmacro : o.macros.lookup t.text with
    | none =>
      rw [pull_of_lookup_none htake hmacro]
      simp only [onward, hmacro]
    | some replacement =>
      rw [pull_of_expand htake hmacro]
      simp only [onward, hmacro]
      rcases f₁.expand o t replacement with ⟨_ | _, f₂⟩ <;> rfl

theorem Parser.expect_eq (env : Environment) (text : String) (consuming : Bool) (p : Parser) :
    p.expect env text consuming = onward (p.fetch env) fun t p =>
      if t.text = text then (.ok (), if consuming then p.consume else p)
      else (.error (.located (.expectedToken text t.text) t.span), p) := by
  unfold expect onward
  rcases p.fetch env with ⟨_ | _, p₁⟩ <;> rfl

theorem Parser.document_eq (env : Environment) (p : Parser) :
    p.document env = onward (p.run env p.start) fun nodes p =>
      onward (p.expect env Token.endText true) fun _ p => (.ok nodes, p) := by
  unfold document expression start
  rcases p.run env (.expression p.mode none [] id) with ⟨_ | nodes, p₁⟩
  · rfl
  · simp only [onward]
    rcases p₁.expect env Token.endText true with ⟨_ | _, p₂⟩ <;> rfl

/-! ### Reports are never taken back -/

theorem suffix_onward [Logged S] (x : Except CompileError α × S)
    {next : α → S → Except CompileError β × S}
    (hnext : ∀ a s, Logged.log s <:+ Logged.log (next a s).2) :
    Logged.log x.2 <:+ Logged.log (onward x next).2 := by
  obtain ⟨e | a, s⟩ := x
  · exact List.suffix_refl _
  · exact hnext a s

end

namespace Feed

theorem suffix_take (o : Options) (f : Feed) : f.log <:+ (f.take o).2.log := by
  unfold take
  split
  · exact List.suffix_refl _
  · exact List.suffix_append _ _

theorem suffix_expand (o : Options) (t : Token) (replacement : String) (f : Feed) :
    f.log <:+ (f.expand o t replacement).2.log := by
  unfold expand
  split
  · split
    · exact List.suffix_append _ _
    · exact List.suffix_append _ _
  · exact List.suffix_refl _

theorem suffix_pull (o : Options) (f : Feed) : f.log <:+ (f.pull o).2.log := by
  fun_induction pull o f with
  | case1 f e f₁ htake | case2 f t f₁ htake hmacro =>
    have hlog := suffix_take o f
    rwa [htake] at hlog
  | case3 f t f₁ htake replacement hmacro e f₂ hexpand =>
    have hlog := suffix_take o f
    have hlater := suffix_expand o t replacement f₁
    rw [htake] at hlog
    rw [hexpand] at hlater
    exact hlog.trans hlater
  | case4 f t f₁ htake replacement hmacro u f₂ hexpand ih =>
    have hlog := suffix_take o f
    have hlater := suffix_expand o t replacement f₁
    rw [htake] at hlog
    rw [hexpand] at hlater
    exact (hlog.trans hlater).trans ih

end Feed

namespace Parser

theorem suffix_fetch (env : Environment) (p : Parser) : p.log <:+ (p.fetch env).2.log := by
  have hpull := Feed.suffix_pull env.options p.feed
  unfold fetch
  split
  · exact List.suffix_refl _
  · split <;> rename_i hfeed <;> rw [hfeed] at hpull <;> exact hpull

theorem log_after {α : Type} (p : Parser) (move : Move α) :
    (p.after move).log = move.log ++ p.log := by
  rw [log, feed_after]
  rfl

theorem suffix_run {α : Type} (env : Environment) (s : Stack α) (p : Parser) :
    p.log <:+ (p.run env s).2.log := by
  -- one step adds to the reports of fetching those of the move
  have hstep : ∀ {p p₁ : Parser} {t : Token} (move : Move α), p.fetch env = (.ok t, p₁) →
      p.log <:+ (p₁.after move).log := by
    intro p p₁ t move hfetch
    have hlog := suffix_fetch env p
    rw [hfetch] at hlog
    rw [log_after]
    exact hlog.trans (List.suffix_append _ _)
  fun_induction run env s p with
  | case1 s p e p₁ hfetch =>
    have hlog := suffix_fetch env p
    rwa [hfetch] at hlog
  | case2 s p t p₁ hfetch s' hread ih => exact (hstep _ hfetch).trans ih
  | case3 s p t p₁ hfetch a hdone | case4 s p t p₁ hfetch e hfail => exact hstep _ hfetch

theorem suffix_expected (t : Token) (text : String) (consuming : Bool) (p : Parser) :
    p.log <:+ (if t.text = text then (.ok (), if consuming then p.consume else p)
      else (.error (.located (.expectedToken text t.text) t.span), p) :
        Except CompileError Unit × Parser).2.log := by
  split
  · cases consuming <;> exact List.suffix_refl _
  · exact List.suffix_refl _

theorem suffix_expect (env : Environment) (text : String) (consuming : Bool) (p : Parser) :
    p.log <:+ (p.expect env text consuming).2.log := by
  rw [expect_eq]
  exact (suffix_fetch env p).trans
    (suffix_onward (p.fetch env) fun t p => suffix_expected t text consuming p)

end Parser

/-! ### Screens -/

/-- A run that is watched and one that is screened, with what the reports of the first one say about
the second. -/
structure Screen where
  /-- The options of the run that is watched. -/
  left : Options
  /-- The options of the run that is screened. -/
  right : Options
  /-- The reports that pass. -/
  passes : Event → Prop
  /-- What the second run reports in place of a report. -/
  view : Event → Log

namespace Screen

variable {F : Screen}

/-- Whether all of some reports pass. -/
def Passes (F : Screen) (log : Log) : Prop := ∀ event ∈ log, F.passes event

/-- What is seen of some reports. -/
def seen (F : Screen) (log : Log) : Log := log.flatMap F.view

theorem passes_nil : F.Passes [] := by
  intro event hevent
  cases hevent

theorem passes_append {later log : Log} :
    F.Passes (later ++ log) ↔ F.Passes later ∧ F.Passes log :=
  List.forall_mem_append

theorem seen_append (later log : Log) : F.seen (later ++ log) = F.seen later ++ F.seen log :=
  List.flatMap_append

/-- What was reported first has passed if everything has. -/
theorem Passes.of_suffix {log more : Log} (h : F.Passes more) (hlog : log <:+ more) :
    F.Passes log := by
  intro event hevent
  exact h event (hlog.subset hevent)

/-! ### Following -/

section

variable {X : Type} [Reporting X] {x y : X}

/-- Whether a screened result follows a watched one: if all reports of the first one pass, it is
the same result, with what is seen of the reports; if not, it is a failure. -/
def Follows (F : Screen) (x y : X) : Prop :=
  F.Passes (reports x) ∧ y = revise F.seen x ∨ ¬F.Passes (reports x) ∧ Failed y

theorem Follows.pass (h : F.Passes (reports x)) : F.Follows x (revise F.seen x) :=
  .inl ⟨h, rfl⟩

theorem Follows.stop (h : ¬F.Passes (reports x)) (hy : Failed y) : F.Follows x y :=
  .inr ⟨h, hy⟩

theorem Follows.eq (h : F.Follows x y) (hx : F.Passes (reports x)) : y = revise F.seen x := by
  rcases h with ⟨-, hy⟩ | ⟨hstop, -⟩
  · exact hy
  · exact absurd hx hstop

/-- Whether a screen lets all reports pass and shows them as they are.  Two runs with such a screen
between them are the same. -/
structure IsClear (F : Screen) : Prop where
  /-- All reports pass. -/
  passes : ∀ event, F.passes event
  /-- Each is seen as it is. -/
  view : ∀ event, F.view event = [event]

theorem IsClear.seen (h : F.IsClear) : F.seen = id := by
  funext log
  rw [Screen.seen, funext h.view, List.flatMap_singleton', id]

theorem IsClear.passes_log (h : F.IsClear) (log : Log) : F.Passes log :=
  fun event _ => h.passes event

/-- Two runs under the given options, with all that the first one reports in view. -/
def between (o o' : Options) : Screen where
  left := o
  right := o'
  passes _ := True
  view event := [event]

theorem isClear_between (o o' : Options) : (between o o').IsClear :=
  ⟨fun _ => trivial, fun _ => rfl⟩

/-- Nothing is lost behind a clear screen, so that results follow each other if they are the
same. -/
theorem IsClear.follows (h : F.IsClear) (hx : revise id x = x) (hxy : y = x) : F.Follows x y := by
  refine .inl ⟨h.passes_log _, ?_⟩
  rw [h.seen, hx, hxy]

end

variable {α : Type} {mode : Mode} {t : Token} {s below : Stack α} {c : Call}

/-- Going on from results that follow each other, if reports are not taken back: the results follow
each other again. -/
theorem Follows.onward {β S : Type} [Logged S] {x y : Except CompileError α × S}
    {next next' : α → S → Except CompileError β × S} (h : F.Follows x y)
    (hlog : ∀ a s, Logged.log s <:+ Logged.log (next a s).2)
    (hnext : ∀ a s, x = (.ok a, s) → F.Passes (Logged.log s) →
      F.Follows (next a s) (next' a (Logged.relog F.seen s))) :
    F.Follows (MathMarkup.onward x next) (MathMarkup.onward y next') := by
  -- either the first result is passed on with what is seen of it, or the second run has failed and
  -- stays failed, since the report that did not pass is still there
  rcases h with ⟨hpass, rfl⟩ | ⟨hstop, e, he⟩
  · obtain ⟨e | a, s⟩ := x
    · exact .pass hpass
    · exact hnext a s rfl hpass
  · obtain ⟨result, s'⟩ := y
    obtain rfl : result = .error e := he
    refine .stop (fun hall => hstop ?_) ⟨e, rfl⟩
    obtain ⟨e' | a, s⟩ := x
    · exact hall
    · exact hall.of_suffix (hlog a s)

/-- A token comes into view as it is pulled from the feed, and one that is in view already is the
same in both runs. -/
theorem Follows.fetch {registry : Registry} {p : Parser} (hlog : F.Passes p.log)
    (hpull : p.lookahead = none →
      F.Follows (p.feed.pull F.left) ((p.feed.relog F.seen).pull F.right)) :
    F.Follows (p.fetch ⟨registry, F.left⟩) ((p.relog F.seen).fetch ⟨registry, F.right⟩) := by
  obtain ⟨mode, lookahead, feed⟩ := p
  cases lookahead with
  | some t => exact .pass hlog
  | none =>
    have hpull := hpull rfl
    simp only [Parser.fetch, Parser.relog]
    generalize feed.pull F.left = x at hpull ⊢
    generalize (feed.relog F.seen).pull F.right = y at hpull ⊢
    -- a token that is pulled stays in view, and an error leaves nothing in view
    rcases hpull with ⟨hpass, rfl⟩ | ⟨hstop, e, he⟩
    · obtain ⟨e | t, feed'⟩ := x
      · exact .pass hpass
      · exact .pass hpass
    · obtain ⟨result, feed''⟩ := y
      obtain rfl : result = .error e := he
      obtain ⟨e' | t, feed'⟩ := x
      · exact .stop hstop ⟨e, rfl⟩
      · exact .stop hstop ⟨e, rfl⟩

theorem Follows.take {x y : Outcome α × Log} (h : F.Follows x y) :
    F.Follows (Stack.take x) (Stack.take y) := by
  rcases h with ⟨hpass, rfl⟩ | ⟨hstop, hfailed⟩
  · exact .pass hpass
  · exact .stop hstop hfailed

theorem Follows.leave {x y : Outcome α × Log} (h : F.Follows x y) :
    F.Follows (Stack.leave x) (Stack.leave y) := by
  rcases h with ⟨hpass, rfl⟩ | ⟨hstop, hfailed⟩
  · exact .pass hpass
  · exact .stop hstop hfailed

/-- An outcome without reports is the same in both runs. -/
theorem follows_silent (outcome : Outcome α) :
    F.Follows ((outcome, []) : Outcome α × Log) (outcome, []) :=
  .pass passes_nil

/-! ### One node -/

/-- What a command reports is not taken back. -/
theorem suffix_settle (deliver : Node → Outcome α × Log) (x : Reply × Log) :
    x.2 <:+ (Stack.settle mode below deliver x).2 := by
  obtain ⟨reply, log⟩ := x
  cases reply with
  | node n => exact List.suffix_append _ _
  | fail e => exact List.suffix_refl _
  | readUntil stop finish => exact List.suffix_refl _

theorem Follows.settle {deliver deliver' : Node → Outcome α × Log} {x y : Reply × Log}
    (h : F.Follows x y) (hdeliver : ∀ n, F.Follows (deliver n) (deliver' n)) :
    F.Follows (Stack.settle mode below deliver x) (Stack.settle mode below deliver' y) := by
  -- the reports of the node that is delivered come on top of those of the command
  rcases h with ⟨hpass, rfl⟩ | ⟨hstop, e, he⟩
  · obtain ⟨reply, log⟩ := x
    cases reply with
    | node n =>
      have hall : F.Passes ((deliver n).2 ++ log) ↔ F.Passes (deliver n).2 ∧ F.Passes log :=
        passes_append
      rcases hdeliver n with ⟨hlater, heq⟩ | ⟨hlater, hfailed⟩
      · refine .inl ⟨hall.mpr ⟨hlater, hpass⟩, ?_⟩
        simp only [Stack.settle, Reporting.revise, heq, seen_append]
      · exact .stop (fun h => hlater (hall.mp h).1) hfailed
    | fail e => exact .pass hpass
    | readUntil stop finish => exact .pass hpass
  · -- the command has failed in the second run, whatever the first one does with its node
    obtain ⟨reply, log⟩ := y
    obtain rfl : reply = .fail e := he
    exact .stop (fun hall => hstop (hall.of_suffix (suffix_settle deliver x))) ⟨e, rfl⟩

/-- Whether the second run of every standard command follows the first one.  This is all that has to
be known of the commands. -/
def Respects (F : Screen) : Prop :=
  ∀ ⦃name : String⦄ ⦃c : Command⦄, IsStandard name c →
    ∀ i, F.Follows (c.run F.left i) (c.run F.right i)

/-- Behind a clear screen only the strict policy matters to the standard commands. -/
theorem IsClear.respects (h : F.IsClear) (hstrict : F.right.strict = F.left.strict) :
    F.Respects :=
  fun _ _ hc i => h.follows rfl (hc.run_congr hstrict i)

/-- Whether the tokens that come into view in the second run follow those of the first one, as long
as something is known of the parser, such as which macros can still come. -/
structure Tokens (F : Screen) (known : Parser → Prop) : Prop where
  /-- It is known all along. -/
  stable : Parser.Stable ⟨.standard, F.left⟩ known
  /-- A token comes into view. -/
  fetch : ∀ {p : Parser}, known p → F.Passes p.log →
    F.Follows (p.fetch ⟨.standard, F.left⟩) ((p.relog F.seen).fetch ⟨.standard, F.right⟩)

namespace Respects

variable (hr : F.Respects)

include hr

/-- A node is delivered to the same effect, through all calls that it completes. -/
theorem deliver (hs : s.OnlyStandard) (n : Node) :
    F.Follows (s.deliver ⟨.standard, F.left⟩ n) (s.deliver ⟨.standard, F.right⟩ n) := by
  -- on the stack: a node may complete a call, whose own node goes to the stack below
  induction s generalizing n with
  | expression | brace | bracket | scope => exact follows_silent _
  | arguments c result =>
    simp only [Stack.deliver]
    split
    · exact follows_silent _
    · exact follows_silent _
  | call c below ih =>
    obtain ⟨⟨name, hname⟩, hbelow⟩ := hs
    have haccept : IsStandard name (c.accept n).command := by simpa using hname
    simp only [Stack.deliver]
    split
    · exact (hr haccept _).settle fun m => ih hbelow m
    · exact follows_silent _

theorem complete {name : String} (hname : IsStandard name c.command)
    (hbelow : below.OnlyStandard) :
    F.Follows (below.complete ⟨.standard, F.left⟩ c) (below.complete ⟨.standard, F.right⟩ c) :=
  (hr hname _).settle fun n => hr.deliver hbelow n

/-! ### One token -/

theorem feedCommand (hs : s.OnlyStandard) :
    F.Follows (s.feedCommand ⟨.standard, F.left⟩ t mode)
      (s.feedCommand ⟨.standard, F.right⟩ t mode) := by
  unfold Stack.feedCommand
  -- both runs look the command up in the same registry
  rw [Environment.openCall_options .standard F.right F.left]
  split
  · exact .pass passes_nil
  · rename_i c hopen
    have hname := Environment.isStandard_of_openCall rfl hopen
    split
    · exact (hr.complete hname hs).take
    · exact (follows_silent _).take

theorem feedAtom (hs : s.OnlyStandard) :
    F.Follows (s.feedAtom ⟨.standard, F.left⟩ t mode)
      (s.feedAtom ⟨.standard, F.right⟩ t mode) := by
  unfold Stack.feedAtom
  split
  · exact (follows_silent _).take
  split
  · exact hr.feedCommand hs
  split
  · exact (hr.deliver hs _).take
  · exact (follows_silent _).leave

theorem feedBody (hs : s.OnlyStandard) {stop : Option String} {close close' : Move α}
    (hclose : F.Follows close close') :
    F.Follows (s.feedBody ⟨.standard, F.left⟩ t mode stop close)
      (s.feedBody ⟨.standard, F.right⟩ t mode stop close') := by
  unfold Stack.feedBody
  split
  · exact (follows_silent _).take
  split
  · exact hclose
  · exact hr.feedAtom hs

omit hr in
theorem feedClosing {expected : String} {x y : Outcome α × Log} (h : F.Follows x y) :
    F.Follows (Stack.feedClosing t expected x) (Stack.feedClosing t expected y) := by
  unfold Stack.feedClosing
  split
  · exact h.take
  · exact (follows_silent _).leave

theorem feedCall {stack : Call → Stack α} {finish finish' : Call → Outcome α × Log}
    (hstack : ∀ c', c'.command = c.command → (stack c').OnlyStandard)
    (hfinish : ∀ c', c'.command = c.command → F.Follows (finish c') (finish' c')) :
    F.Follows (Stack.feedCall ⟨.standard, F.left⟩ t c stack finish)
      (Stack.feedCall ⟨.standard, F.right⟩ t c stack finish') := by
  unfold Stack.feedCall
  split
  · exact (follows_silent _).take
  split
  · split
    · exact (follows_silent _).take
    split
    · exact (hfinish c.skip rfl).leave
    · exact (follows_silent _).leave
  split
  · exact (follows_silent _).leave
  split
  · exact (follows_silent _).take
  · exact hr.feedAtom (hstack _ rfl)

/-- A token does the same in both runs, unless the second one fails: one case for each kind of
stack. -/
theorem feed (hs : s.OnlyStandard) (t : Token) :
    F.Follows (s.feed ⟨.standard, F.left⟩ t) (s.feed ⟨.standard, F.right⟩ t) := by
  cases s with
  | expression mode stop items result => exact hr.feedBody hs (follows_silent _).leave
  | brace mode opening items below | bracket mode opening items below =>
    have hbelow : below.OnlyStandard := hs
    exact hr.feedBody hs (feedClosing (hr.deliver hbelow _))
  | scope mode stop finish items below =>
    have hbelow : below.OnlyStandard := hs
    exact hr.feedBody hs (hr.deliver hbelow _).leave
  | call c below =>
    -- the call on top is one of a standard command, and stays so with more arguments
    obtain ⟨⟨name, hname⟩, hbelow⟩ := hs
    have hstack : ∀ c', c'.command = c.command → (Stack.call c' below).OnlyStandard :=
      fun c' hc' => ⟨⟨name, hc' ▸ hname⟩, hbelow⟩
    have hfinish : ∀ c', c'.command = c.command →
        F.Follows (below.complete ⟨.standard, F.left⟩ c')
          (below.complete ⟨.standard, F.right⟩ c') :=
      fun c' hc' => hr.complete (hc' ▸ hname) hbelow
    simp only [Stack.feed]
    exact hr.feedCall hstack hfinish
  | arguments c result =>
    obtain ⟨name, hname⟩ := hs
    have hstack : ∀ c', c'.command = c.command → (Stack.arguments c' result).OnlyStandard :=
      fun c' hc' => ⟨name, hc' ▸ hname⟩
    simp only [Stack.feed]
    exact hr.feedCall hstack fun _ _ => follows_silent _

/-! ### Runs -/

variable {known : Parser → Prop} {p : Parser}

omit hr in
theorem relog_after (p : Parser) (move : Move α) :
    (p.relog F.seen).after (revise F.seen move) = (p.after move).relog F.seen := by
  have hlog : F.seen move.log ++ F.seen p.feed.log = F.seen (move.log ++ p.feed.log) :=
    (seen_append _ _).symm
  cases htaken : move.taken <;>
    simp only [Parser.after, Reporting.revise, htaken, Parser.relog, Feed.relog, Parser.report,
      Feed.report, Parser.consume, if_true, Bool.false_eq_true, if_false, hlog]

/-- One step: the second run sees the same token, which does the same to the stack, or it
fails. -/
theorem step {p₁ : Parser} (hs : s.OnlyStandard)
    (hfetch : F.Follows (p.fetch ⟨.standard, F.left⟩) ((p.relog F.seen).fetch ⟨.standard, F.right⟩))
    (hleft : p.fetch ⟨.standard, F.left⟩ = (.ok t, p₁)) :
    F.Passes (p₁.after (s.feed ⟨.standard, F.left⟩ t)).log ∧
        (p.relog F.seen).fetch ⟨.standard, F.right⟩ = (.ok t, p₁.relog F.seen) ∧
        s.feed ⟨.standard, F.right⟩ t = revise F.seen (s.feed ⟨.standard, F.left⟩ t) ∨
      ¬F.Passes (p₁.after (s.feed ⟨.standard, F.left⟩ t)).log ∧
        Failed ((p.relog F.seen).run ⟨.standard, F.right⟩ s) := by
  -- what is reported in the step is reported by fetching or by the move
  rw [Parser.log_after, passes_append]
  rw [hleft] at hfetch
  rcases hfetch with ⟨hpass, hright⟩ | ⟨hstop, e, he⟩
  · rcases hr.feed hs t with ⟨hmoved, hmove⟩ | ⟨hstop, e, he⟩
    · exact .inl ⟨⟨hmoved, hpass⟩, hright, hmove⟩
    · refine .inr ⟨fun hall => hstop hall.1, e, ?_⟩
      rw [Parser.run_eq hright, he]
  · refine .inr ⟨fun hall => hstop hall.2, e, ?_⟩
    rw [Parser.run_of_fetch_error (Prod.ext he rfl)]

/-- **A screened run follows the watched one**, if the tokens that come into view do: it comes to
the same and reports what is seen, or it fails where the first report does not pass. -/
theorem run (hk : F.Tokens known) (hs : s.OnlyStandard) (hp : known p) (hlog : F.Passes p.log) :
    F.Follows (p.run ⟨.standard, F.left⟩ s) ((p.relog F.seen).run ⟨.standard, F.right⟩ s) := by
  -- along the watched run: the stack stays one of standard commands, and what is known of the
  -- parser stays known
  fun_induction Parser.run ⟨.standard, F.left⟩ s p with
  | case1 s p e p₁ hleft =>
    have hright := hk.fetch hp hlog
    rw [hleft] at hright
    rcases hright with ⟨hpass, heq⟩ | ⟨hstop, e', he'⟩
    · rw [Parser.run_of_fetch_error heq]
      exact .pass hpass
    · rw [Parser.run_of_fetch_error (Prod.ext he' rfl)]
      exact .stop hstop ⟨e', rfl⟩
  | case2 s p t p₁ hleft s' hread ih =>
    have hregular : (s.feed ⟨.standard, F.left⟩ t).outcome.Regular := Stack.regular_feed rfl hs
    rw [hread] at hregular
    rcases hr.step hs (hk.fetch hp hlog) hleft with ⟨hpass, hright, hmove⟩ | ⟨hstop, hfailed⟩
    · have houtcome : (s.feed ⟨.standard, F.right⟩ t).outcome = .read s' := by
        rw [hmove, ← hread]
        rfl
      rw [Parser.run_eq hright, houtcome, hmove, relog_after]
      exact ih hregular (hk.stable.after hp hleft s) hpass
    · -- the report that did not pass is not taken back by the rest of the first run
      exact .stop (fun hall => hstop (hall.of_suffix (Parser.suffix_run _ _ _))) hfailed
  | case3 s p t p₁ hleft a hdone =>
    rcases hr.step hs (hk.fetch hp hlog) hleft with ⟨hpass, hright, hmove⟩ | ⟨hstop, hfailed⟩
    · have houtcome : (s.feed ⟨.standard, F.right⟩ t).outcome = .done a := by
        rw [hmove, ← hdone]
        rfl
      rw [Parser.run_eq hright, houtcome, hmove, relog_after]
      exact .pass hpass
    · exact .stop hstop hfailed
  | case4 s p t p₁ hleft e hfail =>
    rcases hr.step hs (hk.fetch hp hlog) hleft with ⟨hpass, hright, hmove⟩ | ⟨hstop, hfailed⟩
    · have houtcome : (s.feed ⟨.standard, F.right⟩ t).outcome = .fail e := by
        rw [hmove, ← hfail]
        rfl
      rw [Parser.run_eq hright, houtcome, hmove, relog_after]
      exact .pass hpass
    · exact .stop hstop hfailed

/-! ### Whole texts -/

omit hr in
theorem expect (text : String) (consuming : Bool)
    (hfetch : F.Follows (p.fetch ⟨.standard, F.left⟩)
      ((p.relog F.seen).fetch ⟨.standard, F.right⟩)) :
    F.Follows (p.expect ⟨.standard, F.left⟩ text consuming)
      ((p.relog F.seen).expect ⟨.standard, F.right⟩ text consuming) := by
  rw [Parser.expect_eq, Parser.expect_eq]
  refine hfetch.onward (fun t p => Parser.suffix_expected t text consuming p) ?_
  intro t p₁ _ hpass
  split
  · cases consuming <;> exact .pass hpass
  · exact .pass hpass

/-- A screened document follows the watched one, if the tokens that come into view do. -/
theorem document (hk : F.Tokens known) (hp : known p) (hlog : F.Passes p.log) :
    F.Follows (p.document ⟨.standard, F.left⟩)
      ((p.relog F.seen).document ⟨.standard, F.right⟩) := by
  have hstart : (p.relog F.seen).start = p.start := rfl
  rw [Parser.document_eq, Parser.document_eq, hstart]
  -- the run, and behind it the test for the end marker
  refine (hr.run hk (s := p.start) trivial hp hlog).onward ?_ ?_
  · intro nodes p₁
    exact (Parser.suffix_expect _ _ _ p₁).trans
      (suffix_onward (Parser.expect _ _ _ p₁) fun _ _ => List.suffix_refl _)
  · intro nodes p₁ hrun hpass
    have hfetch := hk.fetch (hk.stable.run hp hrun) hpass
    refine (expect Token.endText true hfetch).onward ?_ ?_
    · intro u p₂
      exact List.suffix_refl _
    · intro u p₂ _ hpass
      exact .pass hpass

/-- A screened text follows the watched one, if the tokens that come into view do.  The report that
reading has started must pass as it is. -/
theorem parse (hk : F.Tokens known)
    (hparsing : ∀ n, F.passes (.parsing n) ∧ F.view (.parsing n) = [.parsing n])
    {source : String}
    (hsource : known ((Parser.ofText source).report [.parsing source.utf8ByteSize])) :
    F.Follows (Environment.parse ⟨.standard, F.left⟩ source)
      (Environment.parse ⟨.standard, F.right⟩ source) := by
  obtain ⟨hpasses, hview⟩ := hparsing source.utf8ByteSize
  have hlog : F.Passes ((Parser.ofText source).report [.parsing source.utf8ByteSize]).log := by
    intro event hevent
    obtain rfl : event = .parsing source.utf8ByteSize := List.mem_singleton.mp hevent
    exact hpasses
  -- the report that reading has started is seen as it is, so both runs start alike
  have hstart : ((Parser.ofText source).report [.parsing source.utf8ByteSize]).relog F.seen =
      (Parser.ofText source).report [.parsing source.utf8ByteSize] := by
    have hseen : F.seen [.parsing source.utf8ByteSize] = [.parsing source.utf8ByteSize] := by
      rw [seen, List.flatMap_cons, hview, List.flatMap_nil, List.append_nil]
    simp only [Parser.relog, Feed.relog, Parser.report, Feed.report, Parser.ofText,
      Feed.ofDocument, List.append_nil, hseen]
  have hdocument := hr.document hk hsource hlog
  rw [hstart] at hdocument
  rcases hdocument with ⟨hpass, heq⟩ | ⟨hstop, e, he⟩
  · refine .inl ⟨hpass, ?_⟩
    simp only [Environment.parse, heq]
    rfl
  · exact .stop hstop ⟨e, he⟩

/-- Behind a clear screen a text is read the same, reports included. -/
theorem parse_eq (hclear : F.IsClear) (hk : F.Tokens known) {source : String}
    (hsource : known ((Parser.ofText source).report [.parsing source.utf8ByteSize])) :
    Environment.parse ⟨.standard, F.right⟩ source =
      Environment.parse ⟨.standard, F.left⟩ source := by
  have hfollows := hr.parse hk (fun n => ⟨hclear.passes _, hclear.view _⟩) hsource
  have heq := hfollows.eq (hclear.passes_log _)
  rwa [hclear.seen] at heq

end Respects

end Screen

end MathMarkup
