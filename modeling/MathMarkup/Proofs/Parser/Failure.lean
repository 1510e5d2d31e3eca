import MathMarkup.Proofs.Parser.Guard
import MathMarkup.Proofs.Registry.Standard

/-!
# Why a text is not read

With the standard commands the parser gives up for three reasons only: the text uses
something wrongly, the strict policy makes an error of irregular input, or there are more
macros to replace than the limit allows.

Tokens can fail to come into view, and a token can be refused by the stack.  For the stack
this rests on the calls that are open: all of them are calls of standard commands, and a
guard keeps it that way.

## Main definitions

* `Reason.IsInputFailure` — the three reasons.
* `Stack.OnlyStandard` — all open calls are calls of standard commands.
* `Outcome.Regular` — this is kept, or something is used wrongly.
* `Guard.standard` — the guard that says so.

## Main results

* `Parser.isInputFailure_of_fetch` — why no token comes into view.
* `Stack.regular_feed` — what one token does.
* `Parser.isInputFailure_of_run` — why a run fails.
* `Environment.isInputFailure_of_parse` — why a text is not read.
-/

namespace MathMarkup

/-- Whether the input is to blame for a failure, together with the policy and the limit that
were set for it. -/
def Reason.IsInputFailure (r : Reason) : Prop :=
  r.isUsage = true ∨ r.isStrictViolation = true ∨ r = .tooManyExpansions

/-! ### Tokens that do not come into view -/

/-- Irregular input is an error of its own, if the policy makes it one. -/
theorem Options.isStrictViolation_of_report {o : Options} {breach : Breach} {e : CompileError}
    (h : (o.report breach).1 = .error e) : e.reason.isStrictViolation = true := by
  simp only [report] at h
  split at h
  · cases h
    rfl
  · cases h

namespace Lexer

variable {o : Options} {lx : Lexer} {e : CompileError}

/-- A text has no next token where a character is out of place or a comment is cut off that the
policy wants closed. -/
theorem isInputFailure_of_next (h : (lx.next o).1 = .error e) : e.reason.IsInputFailure := by
  -- comments are passed, and a comment that is cut off is up to the policy
  fun_induction next o lx with
  | case1 | case2 | case3 | case6 => cases h
  | case4 =>
    cases h
    exact .inl rfl
  | case5 lx x hk ih => exact ih h
  | case7 lx x hk e' log hr =>
    cases h
    exact .inr (.inl (Options.isStrictViolation_of_report (by rw [hr])))

theorem isInputFailure_of_readAll (h : (lx.readAll o).1 = .error e) :
    e.reason.IsInputFailure := by
  fun_induction readAll o lx with
  | case1 lx e' lx' log hnext =>
    cases h
    exact isInputFailure_of_next (congrArg Prod.fst hnext)
  | case2 => cases h
  | case3 lx t lx' log hnext hend tokens later hlater ih =>
    cases tokens with
    | error e' =>
      cases h
      exact ih (by rw [hlater])
    | ok ts => cases h

end Lexer

namespace Feed

variable {o : Options} {f : Feed} {e : CompileError}

theorem isInputFailure_of_take (h : (f.take o).1 = .error e) : e.reason.IsInputFailure := by
  unfold take at h
  split at h
  · cases h
  · exact Lexer.isInputFailure_of_next h

theorem isInputFailure_of_expand {t : Token} {replacement : String}
    (h : (f.expand o t replacement).1 = .error e) : e.reason.IsInputFailure := by
  unfold expand at h
  split at h
  · split at h
    · cases h
    · rename_i hreplacement
      cases h
      exact Lexer.isInputFailure_of_readAll (congrArg Prod.fst hreplacement)
  · cases h
    exact .inr (.inr rfl)

theorem isInputFailure_of_pull (h : (f.pull o).1 = .error e) : e.reason.IsInputFailure := by
  -- a token fails to come, or one of the macros on the way fails to be replaced
  fun_induction pull o f with
  | case1 f e' f' htake =>
    cases h
    exact isInputFailure_of_take (congrArg Prod.fst htake)
  | case2 => cases h
  | case3 f t f' htake replacement hm e' f'' hexpand =>
    cases h
    exact isInputFailure_of_expand (congrArg Prod.fst hexpand)
  | case4 f t f' htake replacement hm u f'' hexpand ih => exact ih h

end Feed

/-- A token comes into view unless there is no next one. -/
theorem Parser.isInputFailure_of_fetch {env : Environment} {p : Parser} {e : CompileError}
    (h : (p.fetch env).1 = .error e) : e.reason.IsInputFailure := by
  unfold fetch at h
  split at h
  · cases h
  · split at h
    · cases h
    · rename_i hpull
      cases h
      exact Feed.isInputFailure_of_pull (congrArg Prod.fst hpull)

/-! ### Tokens that the stack refuses -/

section

variable {α : Type}

/-- Whether every open call is that of a standard command. -/
def Stack.OnlyStandard : Stack α → Prop
  | expression .. => True
  | arguments c _ => ∃ name, IsStandard name c.command
  | brace _ _ _ below | bracket _ _ _ below | scope _ _ _ _ below => below.OnlyStandard
  | call c below => (∃ name, IsStandard name c.command) ∧ below.OnlyStandard

/-- What a stack with standard commands can come to: such a stack, a result, or a failure
because something is used wrongly. -/
def Outcome.Regular : Outcome α → Prop
  | read s => s.OnlyStandard
  | done _ => True
  | fail e => e.reason.isUsage = true

/-- With the standard commands, every open call is that of a standard command, and every error
is a wrong use. -/
def Guard.standard (env : Environment) : Guard env where
  call c := ∃ name, IsStandard name c.command
  error e := e.reason.isUsage = true
  ends _ _ := True
  call_accept n h := by simpa using h
  call_skip h := h
  call_bare _ h := h
  error_invoke := by
    rintro c e ⟨name, hname⟩ hfail
    exact hname.isUsage_of_fail hfail

variable {env : Environment}

/-- The call that a token opens is that of a standard command. -/
theorem Environment.isStandard_of_openCall (henv : env.registry = .standard) {t : Token}
    {mode : Mode} {c : Call} (h : env.openCall t mode = .ok c) : IsStandard t.text c.command := by
  obtain ⟨command, hcommand, -, rfl⟩ := openCall_eq_ok_iff.mp h
  rw [henv] at hcommand
  exact Registry.command?_standard_iff.mp hcommand

theorem Guard.admits_standard (henv : env.registry = .standard) (t : Token) :
    (Guard.standard env).Admits t where
  opens hopen := ⟨t.text, Environment.isStandard_of_openCall henv hopen⟩
  refuses _ hrefused := by
    rcases Environment.eq_of_openCall_eq_error hrefused with rfl | rfl
    · rfl
    · rfl
  unexpected _ := rfl
  mismatched _ _ := rfl
  missing _ := rfl

theorem Stack.guarded_standard_iff {s : Stack α} :
    s.Guarded (Guard.standard env) ↔ s.OnlyStandard := by
  induction s with
  | expression => exact ⟨fun _ => trivial, fun _ _ _ => trivial⟩
  | arguments c result => exact ⟨fun h => h.1, fun h => ⟨h, fun _ _ => trivial⟩⟩
  | brace _ _ _ below ih | bracket _ _ _ below ih | scope _ _ _ _ below ih => exact ih
  | call c below ih => exact and_congr_right fun _ => ih

theorem Outcome.guarded_standard_iff {outcome : Outcome α} {t : Token} {taken : Bool} :
    outcome.Guarded (Guard.standard env) t taken ↔ outcome.Regular := by
  cases outcome with
  | read s => exact Stack.guarded_standard_iff
  | done a => exact Iff.rfl
  | fail e => exact Iff.rfl

/-- **A token keeps the calls standard, or something is used wrongly.**  It is then a command with
wrong arguments, in the wrong mode or not defined, or a token out of place. -/
theorem Stack.regular_feed (henv : env.registry = .standard) {s : Stack α} {t : Token}
    (hs : s.OnlyStandard) : (s.feed env t).outcome.Regular := by
  have hguarded := Guard.feed (Guard.admits_standard henv t) (Stack.guarded_standard_iff.mpr hs)
  exact Outcome.guarded_standard_iff.mp hguarded

/-- A run fails because no token comes into view or because something is used wrongly, and both are
failures of the input. -/
theorem Parser.isInputFailure_of_run (henv : env.registry = .standard) {s : Stack α}
    {p : Parser} {e : CompileError} (hs : s.OnlyStandard)
    (h : (p.run env s).1 = .error e) : e.reason.IsInputFailure := by
  have hstable : Parser.Stable env fun _ => True :=
    ⟨fun _ _ => trivial, fun _ _ _ => trivial, fun _ _ => trivial⟩
  have hrun : p.run env s = (.error e, (p.run env s).2) := Prod.ext h rfl
  -- nothing has to be known of the parser, as all tokens are admitted
  rcases Guard.error_of_run hstable (fun _ _ => Guard.admits_standard henv _)
    (Stack.guarded_standard_iff.mpr hs) trivial hrun with herror | ⟨q, -, hfetch⟩
  · exact .inl herror
  · exact isInputFailure_of_fetch (congrArg Prod.fst hfetch)

end

/-- **With the standard commands, a text is not read because of what it says**, or because of the
policy or the limit it is read with. -/
theorem Environment.isInputFailure_of_parse {env : Environment} (henv : env.registry = .standard)
    {source : String} {e : CompileError} (h : (env.parse source).1 = .error e) :
    e.reason.IsInputFailure := by
  simp only [parse, Parser.document] at h
  split at h
  · rename_i hrun
    cases h
    exact Parser.isInputFailure_of_run henv (s := .expression _ none [] id) trivial
      (congrArg Prod.fst hrun)
  · -- everything was read up to a token that is not the end marker
    split at h
    · rename_i hexpect
      cases h
      unfold Parser.expect at hexpect
      split at hexpect
      · rename_i hfetch
        cases hexpect
        exact Parser.isInputFailure_of_fetch (congrArg Prod.fst hfetch)
      · split at hexpect <;> cases hexpect
        exact .inl rfl
    · cases h

end MathMarkup
