import MathMarkup.Proofs.Node.Formed
import MathMarkup.Proofs.Parser.Screen

/-!
# The strict policy is a filter

The strict policy is asked about irregular input in two places: where the end of the document
cuts off a comment, and where a command for text mode stands in math mode.  It can let the
input pass, or end the compile.  It has no other effect: the text is read as if there were no
policy, and the policy only decides whether that counts.

To say this, a text is read under a policy that lets everything pass and reports what it is
asked.  These reports tell what every other policy does.  If none of the pieces of input is an
error to it, the text is read the same, and where the policy warns there is a warning.  If one
of them is, the text is not read.

## Main definitions

* `Options.withStrict` — options with another policy.
* `Strictness.observer` — the policy that only reports what it is asked.
* `Strictness.Always` — a policy that treats all irregular input alike.
* `Screen.strictness` — a policy as a screen for the run under the observer.

## Main results

* `Screen.strictness_next`, `Screen.strictness_pull` — what a policy does to one token.
* `Screen.strictness_parse` — **what a policy does to a whole text.**
* `Environment.parse_strict_filter` — **a policy lets texts pass or not, and never changes what
  they become.**
-/

namespace MathMarkup

/-- The options with another strict policy. -/
def Options.withStrict (o : Options) (policy : Strictness) : Options := { o with strict := policy }

/-- The policy that lets everything pass and reports what it is asked. -/
def Strictness.observer : Strictness := .rule fun _ => none

/-- Whether a policy does the same with all irregular input, as the fixed policies do. -/
def Strictness.Always (policy : Strictness) (mode : StrictMode) : Prop :=
  ∀ breach, policy.resolve breach = mode

namespace Screen

/-- A policy as a screen: input that is an error to it does not pass, and of other input its own
reports are seen.  The run under the observer has no warnings of its own. -/
def strictness (o : Options) (policy : Strictness) : Screen where
  left := o.withStrict .observer
  right := o.withStrict policy
  passes
    | .strictAsked breach => policy.resolve breach ≠ .error
    | _ => True
  view
    | .strictAsked breach => ((o.withStrict policy).consult breach).2
    | .warned .. => []
    | event => [event]

variable {o : Options} {policy : Strictness}

/-! ### Irregular input -/

theorem passes_asked {breach : Breach} :
    (strictness o policy).Passes [.strictAsked breach] ↔ policy.resolve breach ≠ .error :=
  List.forall_mem_singleton

theorem seen_asked (breach : Breach) :
    (strictness o policy).seen [.strictAsked breach] = ((o.withStrict policy).consult breach).2 :=
  List.append_nil _

theorem strictness_report (o : Options) (policy : Strictness) (breach : Breach) :
    (strictness o policy).Follows ((o.withStrict .observer).report breach)
      ((o.withStrict policy).report breach) := by
  -- an error to the policy, or input that passes with the reports of the policy
  by_cases herror : policy.resolve breach = .error
  · refine .stop (fun hpass => passes_asked.mp hpass herror)
      ⟨.atToken (.strictViolation breach.code breach.detail) breach.token, ?_⟩
    simp only [Options.report, Options.consult, Options.withStrict, herror]
  · refine .inl ⟨passes_asked.mpr herror, ?_⟩
    have hreport : (o.withStrict policy).report breach =
        (.ok (), ((o.withStrict policy).consult breach).2) := by
      have hmode : ((o.withStrict policy).consult breach).1 ≠ .error := herror
      unfold Options.report
      rcases hconsult : (o.withStrict policy).consult breach with ⟨mode, log⟩
      rw [hconsult] at hmode
      cases mode with
      | ignore => rfl
      | warn => rfl
      | error => exact absurd rfl hmode
    rw [hreport, ← seen_asked]
    rfl

theorem strictness_lap (i : Invocation) :
    (strictness o policy).Follows (Handler.lap (o.withStrict .observer) i)
      (Handler.lap (o.withStrict policy) i) := by
  unfold Handler.lap
  split
  · -- a name for text mode in math mode: the one place where a command asks
    have hasked : (o.withStrict policy).isStrictAbout (Handler.lapBreach i) =
        (policy.resolve (Handler.lapBreach i) == .error,
          (strictness o policy).seen [.strictAsked (Handler.lapBreach i)]) := by
      rw [seen_asked]
      rfl
    have hobserved : (o.withStrict .observer).isStrictAbout (Handler.lapBreach i) =
        (false, [.strictAsked (Handler.lapBreach i)]) := rfl
    rw [hasked, hobserved]
    by_cases herror : policy.resolve (Handler.lapBreach i) = .error
    · rw [herror]
      exact .stop (fun hpass => passes_asked.mp hpass herror) ⟨_, rfl⟩
    · rw [beq_false_of_ne herror]
      exact .pass (passes_asked.mpr herror)
  · exact .pass passes_nil

theorem strictness_respects (o : Options) (policy : Strictness) :
    (strictness o policy).Respects := by
  intro name c hc i
  -- an overlap is the only command whose reply depends on the policy
  rcases hc.eq_lap_or_run_eq i with rfl | ⟨reply, hrun⟩
  · exact strictness_lap i
  · rw [hrun, hrun]
    exact .pass passes_nil

/-! ### Tokens -/

theorem strictness_next (lx : Lexer) :
    (strictness o policy).Follows (lx.next (o.withStrict .observer))
      (lx.next (o.withStrict policy)) := by
  have hreport := strictness_report o policy Lexer.openComment
  fun_induction Lexer.next (o.withStrict .observer) lx with
  | case1 lx x hk | case2 lx x hk | case3 lx x hk | case4 lx x hk =>
    rw [Lexer.next_eq (o.withStrict policy), hk]
    exact .pass passes_nil
  | case5 lx x hk ih =>
    rw [Lexer.next_eq (o.withStrict policy), hk]
    exact ih
  | case6 lx x hk u log hobserved =>
    -- a comment that is cut off: the one place where the lexer asks
    rw [hobserved] at hreport
    rw [Lexer.next_eq (o.withStrict policy), hk]
    rcases hreport with ⟨hpass, heq⟩ | ⟨hstop, e, he⟩
    · rw [heq]
      exact .pass hpass
    · refine .stop hstop ⟨e, ?_⟩
      simp only [he]
      rfl
  | case7 lx x hk e log hobserved => cases hobserved

theorem strictness_readAll (lx : Lexer) :
    (strictness o policy).Follows (lx.readAll (o.withStrict .observer))
      (lx.readAll (o.withStrict policy)) := by
  -- if the first token cannot be read, nothing can
  have hfailed : ∀ {lx : Lexer} {e : CompileError}, (lx.next (o.withStrict policy)).1 = .error e →
      (lx.readAll (o.withStrict policy)).1 = .error e := by
    intro lx e he
    rw [Lexer.readAll_eq]
    rcases hnext : lx.next (o.withStrict policy) with ⟨result, lx', log⟩
    rw [hnext] at he
    obtain rfl : result = .error e := he
    rfl
  have hnext : ∀ lx : Lexer, (strictness o policy).Follows (lx.next (o.withStrict .observer))
      (lx.next (o.withStrict policy)) := fun lx => strictness_next lx
  fun_induction Lexer.readAll (o.withStrict .observer) lx with
  | case1 lx e lx' log hobserved =>
    have hnext := hnext lx
    rw [hobserved] at hnext
    rcases hnext with ⟨hpass, heq⟩ | ⟨hstop, e', he'⟩
    · rw [Lexer.readAll_eq (o.withStrict policy), heq]
      exact .pass hpass
    · exact .stop hstop ⟨e', hfailed he'⟩
  | case2 lx t lx' log hobserved hend =>
    have hnext := hnext lx
    rw [hobserved] at hnext
    rcases hnext with ⟨hpass, heq⟩ | ⟨hstop, e', he'⟩
    · rw [Lexer.readAll_eq (o.withStrict policy), heq]
      simp only [Reporting.revise, hend, if_true]
      exact .pass hpass
    · exact .stop hstop ⟨e', hfailed he'⟩
  | case3 lx t lx' log hobserved hend tokens later hread ih =>
    have hnext := hnext lx
    rw [hobserved] at hnext
    rw [hread] at ih
    -- the reports of the first token lie below those of the later ones
    have hall : (strictness o policy).Passes (later ++ log) ↔
        (strictness o policy).Passes later ∧ (strictness o policy).Passes log := passes_append
    rcases hnext with ⟨hpass, heq⟩ | ⟨hstop, e', he'⟩
    · rw [Lexer.readAll_eq (o.withStrict policy), heq]
      simp only [Reporting.revise, Logged.relog, hend, Bool.false_eq_true, if_false]
      rcases ih with ⟨hlater, hrest⟩ | ⟨hstop, e', he'⟩
      · refine .inl ⟨hall.mpr ⟨hlater, hpass⟩, ?_⟩
        rw [hrest]
        simp only [Reporting.revise, Logged.relog, id, seen_append]
      · refine .stop (fun h => hstop (hall.mp h).1) ⟨e', ?_⟩
        rw [he']
        rfl
    · exact .stop (fun h => hstop (hall.mp h).2) ⟨e', hfailed he'⟩

/-! ### Feeds -/

variable {f : Feed}

theorem strictness_take (hlog : (strictness o policy).Passes f.log) :
    (strictness o policy).Follows (f.take (o.withStrict .observer))
      ((f.relog (strictness o policy).seen).take (o.withStrict policy)) := by
  have hnext : (strictness o policy).Follows (f.lexer.next (o.withStrict .observer))
      (f.lexer.next (o.withStrict policy)) := strictness_next f.lexer
  obtain ⟨lexer, pending, expansions, log⟩ := f
  cases pending with
  | cons t rest =>
    -- a pending token comes without a report
    exact .pass hlog
  | nil =>
    rcases hleft : lexer.next (o.withStrict .observer) with ⟨result, lexer', later⟩
    simp only [hleft] at hnext
    have htake : Feed.take (o.withStrict .observer) ⟨lexer, [], expansions, log⟩ =
        (result, ⟨lexer', [], expansions, later ++ log⟩) := by
      simp only [Feed.take, hleft]
      rfl
    rw [htake]
    rcases hnext with ⟨hpass, heq⟩ | ⟨hstop, e, he⟩
    · refine .inl ⟨passes_append.mpr ⟨hpass, hlog⟩, ?_⟩
      simp only [Feed.take, Feed.relog, heq, Reporting.revise, Logged.relog, seen_append]
      rfl
    · exact .stop (fun h => hstop (passes_append.mp h).1) ⟨e, he⟩

/-- The limit and the replacements do not depend on the policy, and a replacement is read as the
policy has it. -/
theorem strictness_expand (t : Token) (replacement : String)
    (hlog : (strictness o policy).Passes f.log) :
    (strictness o policy).Follows (f.expand (o.withStrict .observer) t replacement)
      ((f.relog (strictness o policy).seen).expand (o.withStrict policy) t replacement) := by
  have hread : (strictness o policy).Follows
      (Feed.replacementTokens (o.withStrict .observer) replacement)
      (Feed.replacementTokens (o.withStrict policy) replacement) := strictness_readAll _
  -- that a macro is replaced is seen as it is, between what came before and what follows
  have hexpanding : ∀ later : Log,
      ((strictness o policy).Passes (later ++ [.expanding t.text] ++ f.log) ↔
        (strictness o policy).Passes later) ∧
      (strictness o policy).seen (later ++ [.expanding t.text] ++ f.log) =
        (strictness o policy).seen later ++ [.expanding t.text] ++
          (strictness o policy).seen f.log := by
    intro later
    constructor
    · rw [passes_append, passes_append]
      have hone : (strictness o policy).Passes [.expanding t.text] :=
        List.forall_mem_singleton.mpr trivial
      exact ⟨fun h => h.1.1, fun h => ⟨⟨h, hone⟩, hlog⟩⟩
    · rw [seen_append, seen_append]
      rfl
  by_cases hlimit : f.expansions < o.maxExpand
  · have hleft : f.expansions < (o.withStrict .observer).maxExpand := hlimit
    have hright : (f.relog (strictness o policy).seen).expansions <
        (o.withStrict policy).maxExpand := hlimit
    rw [Feed.expand, Feed.expand, if_pos hleft, if_pos hright]
    generalize Feed.replacementTokens (o.withStrict .observer) replacement = x at hread ⊢
    generalize Feed.replacementTokens (o.withStrict policy) replacement = y at hread ⊢
    -- the replacement is read the same, or the policy refuses it
    rcases hread with ⟨hpass, rfl⟩ | ⟨hstop, e, he⟩
    · obtain ⟨e | tokens, later⟩ := x
      · refine .inl ⟨(hexpanding later).1.mpr hpass, ?_⟩
        simp only [Reporting.revise, Logged.relog, Feed.relog, Feed.report, (hexpanding later).2]
        rfl
      · refine .inl ⟨(hexpanding later).1.mpr hpass, ?_⟩
        simp only [Reporting.revise, Logged.relog, Feed.relog, Feed.report, (hexpanding later).2]
        rfl
    · obtain ⟨result, log⟩ := y
      obtain rfl : result = .error e := he
      obtain ⟨e' | tokens, later⟩ := x
      · exact .stop (fun h => hstop ((hexpanding later).1.mp h)) ⟨e, rfl⟩
      · exact .stop (fun h => hstop ((hexpanding later).1.mp h)) ⟨e, rfl⟩
  · have hleft : ¬f.expansions < (o.withStrict .observer).maxExpand := hlimit
    have hright : ¬(f.relog (strictness o policy).seen).expansions <
        (o.withStrict policy).maxExpand := hlimit
    rw [Feed.expand, Feed.expand, if_neg hleft, if_neg hright]
    exact .pass hlog

/-- The next token that is no macro comes in both runs, or the second one fails.  Comments and
macros on the way are passed in both. -/
theorem strictness_pull (hlog : (strictness o policy).Passes f.log) :
    (strictness o policy).Follows (f.pull (o.withStrict .observer))
      ((f.relog (strictness o policy).seen).pull (o.withStrict policy)) := by
  -- the induction is on the number of macros that may still be replaced
  induction hleft : o.maxExpand - f.expansions using Nat.strongRecOn generalizing f with
  | ind k ih =>
    rw [Feed.pull_eq, Feed.pull_eq]
    refine (strictness_take hlog).onward ?_ ?_
    · intro t f₁
      split
      · exact List.suffix_refl _
      · exact (Feed.suffix_expand _ _ _ f₁).trans
          (suffix_onward (Feed.expand _ _ _ f₁) fun _ f₂ => Feed.suffix_pull _ f₂)
    · intro t f₁ htake hpass
      have hsame : (o.withStrict policy).macros.lookup t.text =
          (o.withStrict .observer).macros.lookup t.text := rfl
      rw [hsame]
      split
      · exact .pass hpass
      · rename_i replacement hmacro
        refine (strictness_expand t replacement hpass).onward
          (fun _ f₂ => Feed.suffix_pull _ f₂) ?_
        intro u f₂ hexpand hpass'
        refine ih _ ?_ hpass' rfl
        have hcount : f₁.expansions = f.expansions := by
          rw [← Feed.expansions_take (o.withStrict .observer) f, htake]
        obtain ⟨hlimit, tokens, log, -, rfl⟩ := Feed.expand_eq_ok hexpand
        have hbound : f₁.expansions < o.maxExpand := hlimit
        simp only [Feed.expansions_report]
        omega

/-! ### Whole texts -/

/-- **What a policy does to a text**: if no piece of irregular input is an error to it, the text
is read as under the observer, and otherwise the text is not read. -/
theorem strictness_parse (o : Options) (policy : Strictness) (source : String) :
    (strictness o policy).Follows
      (Environment.parse ⟨.standard, o.withStrict .observer⟩ source)
      (Environment.parse ⟨.standard, o.withStrict policy⟩ source) := by
  -- nothing has to be known of the parser: every token follows
  have htokens : (strictness o policy).Tokens fun _ => True :=
    { stable := ⟨fun _ _ => trivial, fun _ _ _ => trivial, fun _ _ => trivial⟩
      fetch := fun _ hlog => .fetch hlog fun _ => strictness_pull hlog }
  exact (strictness_respects o policy).parse htokens (fun _ => ⟨trivial, rfl⟩) trivial

/-- A text is read under a policy exactly if it is read at all and the policy lets everything
pass that is irregular in it. -/
theorem strictness_parse_eq_ok_iff (o : Options) (policy : Strictness) {source : String}
    {nodes : List Node} :
    (Environment.parse ⟨.standard, o.withStrict policy⟩ source).1 = .ok nodes ↔
      (Environment.parse ⟨.standard, o.withStrict .observer⟩ source).1 = .ok nodes ∧
        (strictness o policy).Passes
          (Environment.parse ⟨.standard, o.withStrict .observer⟩ source).2 := by
  rcases strictness_parse o policy source with ⟨hpass, heq⟩ | ⟨hstop, e, he⟩
  · have hresult : (Environment.parse ⟨.standard, o.withStrict policy⟩ source).1 =
        (Environment.parse ⟨.standard, o.withStrict .observer⟩ source).1 := by rw [heq]; rfl
    rw [hresult]
    exact ⟨fun h => ⟨h, hpass⟩, fun h => h.1⟩
  · rw [he]
    constructor
    · intro h
      cases h
    · intro h
      exact absurd h.2 hstop

/-- A policy that makes no errors lets everything pass, so that it cannot keep a text from being
read. -/
theorem passes_of_resolve_ne (o : Options) (h : ∀ breach, policy.resolve breach ≠ .error)
    (log : Log) : (strictness o policy).Passes log := by
  intro event _
  cases event with
  | strictAsked breach => exact h breach
  | warned | trustAsked | registered | expanding | parsing | building | serialized => trivial

/-- A policy that makes an error of everything lets a run pass exactly if nothing irregular was
found in it. -/
theorem passes_iff_of_always_error (h : policy.Always .error) {log : Log} :
    (strictness o policy).Passes log ↔ ∀ breach, .strictAsked breach ∉ log := by
  constructor
  · intro hpass breach hasked
    exact hpass _ hasked (h breach)
  · intro hasked event hevent
    cases event with
    | strictAsked breach => exact absurd hevent (hasked breach)
    | warned | trustAsked | registered | expanding | parsing | building | serialized => trivial

/-- A policy that warns of everything warns exactly if there is something irregular. -/
theorem warned_seen_iff (h : policy.Always .warn) {log : Log} :
    (∃ code detail, .warned code detail ∈ (strictness o policy).seen log) ↔
      ∃ breach, .strictAsked breach ∈ log := by
  constructor
  · rintro ⟨code, detail, hwarned⟩
    obtain ⟨event, hevent, hview⟩ := List.mem_flatMap.mp hwarned
    cases event with
    | strictAsked breach => exact ⟨breach, hevent⟩
    | warned => cases hview
    | trustAsked | registered | expanding | parsing | building | serialized =>
      cases List.mem_singleton.mp hview
  · rintro ⟨breach, hasked⟩
    refine ⟨breach.code, breach.detail, List.mem_flatMap.mpr ⟨_, hasked, ?_⟩⟩
    have hmode : (o.withStrict policy).strict.resolve breach = .warn := h breach
    simp only [strictness, Options.consult, hmode]
    exact List.mem_cons_self

/-- There is a warning under a policy that warns exactly if there is something irregular in the
text, which shows in the reports of the observer. -/
theorem warned_parse_iff (o : Options) (h : policy.Always .warn) (source : String) :
    (∃ code detail,
      .warned code detail ∈ (Environment.parse ⟨.standard, o.withStrict policy⟩ source).2) ↔
      ∃ breach, .strictAsked breach ∈
        (Environment.parse ⟨.standard, o.withStrict .observer⟩ source).2 := by
  have hnever : ∀ breach, policy.resolve breach ≠ .error := by
    intro breach
    rw [h breach]
    decide
  rw [← warned_seen_iff (o := o) h,
    (strictness_parse o policy source).eq (passes_of_resolve_ne o hnever _)]
  rfl

end Screen

namespace Environment

/-- **A policy lets texts pass or not, and never changes what they become.**  A text that is
read under some policy is read under one that ignores irregular input, to the same nodes; a text
that is not read then is not read under any policy; and a text that is read under a policy that
warns is read under one that makes errors exactly if there was no warning. -/
theorem parse_strict_filter (o : Options) (source : String) (lax warning severe : Strictness)
    (hlax : lax.Always .ignore) (hwarning : warning.Always .warn)
    (hsevere : severe.Always .error) :
    (∀ policy nodes, (parse ⟨.standard, o.withStrict policy⟩ source).1 = .ok nodes →
      (parse ⟨.standard, o.withStrict lax⟩ source).1 = .ok nodes) ∧
    (∀ policy e, (parse ⟨.standard, o.withStrict lax⟩ source).1 = .error e →
      ∃ e', (parse ⟨.standard, o.withStrict policy⟩ source).1 = .error e') ∧
    ∀ nodes, (parse ⟨.standard, o.withStrict warning⟩ source).1 = .ok nodes →
      ((∃ nodes', (parse ⟨.standard, o.withStrict severe⟩ source).1 = .ok nodes') ↔
        ∀ code detail,
          .warned code detail ∉ (parse ⟨.standard, o.withStrict warning⟩ source).2) := by
  -- both policies see the same input, and the lax one lets all of it pass
  have hread : ∀ policy nodes, (parse ⟨.standard, o.withStrict policy⟩ source).1 = .ok nodes →
      (parse ⟨.standard, o.withStrict lax⟩ source).1 = .ok nodes := by
    intro policy nodes hok
    have hobserved := (Screen.strictness_parse_eq_ok_iff o policy).mp hok
    refine (Screen.strictness_parse_eq_ok_iff o lax).mpr ⟨hobserved.1, ?_⟩
    refine Screen.passes_of_resolve_ne o (fun breach => ?_) _
    rw [hlax breach]
    decide
  refine ⟨hread, ?_, ?_⟩
  · intro policy e herror
    cases hresult : (parse ⟨.standard, o.withStrict policy⟩ source).1 with
    | error e' => exact ⟨e', rfl⟩
    | ok nodes =>
      rw [hread policy nodes hresult] at herror
      cases herror
  · intro nodes hok
    have hobserved := (Screen.strictness_parse_eq_ok_iff o warning).mp hok
    have hwarned := Screen.warned_parse_iff o hwarning source
    constructor
    · -- a warning means that something irregular was found, which is an error to the severe policy
      rintro ⟨nodes', hsevere'⟩ code detail hmem
      have hpass := ((Screen.strictness_parse_eq_ok_iff o severe).mp hsevere').2
      obtain ⟨breach, hasked⟩ := hwarned.mp ⟨code, detail, hmem⟩
      exact (Screen.passes_iff_of_always_error hsevere).mp hpass breach hasked
    · intro hsilent
      refine ⟨nodes, (Screen.strictness_parse_eq_ok_iff o severe).mpr ⟨hobserved.1, ?_⟩⟩
      refine (Screen.passes_iff_of_always_error hsevere).mpr fun breach hasked => ?_
      obtain ⟨code, detail, hmem⟩ := hwarned.mpr ⟨breach, hasked⟩
      exact hsilent code detail hmem

/-- An overlap for text mode in math mode, and a comment that the end of the text cuts off. -/
theorem parse_strict_filter_llap :
    ∃ nodes, (parse ⟨.standard, Options.withStrict {} (.flag false)⟩ "\\llap\x7ba\x7d%").1 =
        .ok nodes ∧
      (parse ⟨.standard, Options.withStrict {} (.mode .warn)⟩ "\\llap\x7ba\x7d%").1 = .ok nodes ∧
      ∃ code detail, .warned code detail ∈
        (parse ⟨.standard, Options.withStrict {} (.mode .warn)⟩ "\\llap\x7ba\x7d%").2 := by
  let token := Token.ofPlace "\\llap\x7ba\x7d%"
  let letter := token "a" 6 7
  let closing := token "\x7d" 7 8
  let body : Node := .group ⟨.math, Span.cover (token "\x7b" 5 6).span closing.span⟩
    [letter.node .math]
  let overlap : Node := .lap ⟨.math, (token "\\llap" 0 5).span⟩ .left body
  have hdrain : ((Parser.ofText "\\llap\x7ba\x7d%").drain
      ⟨.standard, Options.withStrict {} (.mode .warn)⟩).toOption =
        some [token "\\llap" 0 5, token "\x7b" 5 6, letter, closing] := by
    decide +kernel
  have hbody : Reads ⟨.standard, Options.withStrict {} (.mode .warn)⟩
      (.body .math none [letter.node .math]) [letter, closing] [closing] :=
    .next (by decide) (by decide) (.character (by decide) (by decide +kernel) (by decide))
      (.finish (endsAt_brace rfl _))
  -- said of any use of the command, so that its token is not unfolded along with the handler
  have hlap : ∀ i : Invocation, i.name = "\\llap" → i.mode = .math → i.required = [body] →
      (Handler.lap (Options.withStrict {} (.mode .warn)) i).1 = .node (.lap i.site .left body) := by
    intro i hname hmode hrequired
    have hside : lapSide i.name = .left := hname ▸ by decide
    have hform : isMathForm i.name = false := hname ▸ by decide
    have hlax : (StrictMode.warn == .error) = false := rfl
    simp [Handler.lap, Handler.lapReply, Options.isStrictAbout, Options.consult,
      Options.withStrict, Strictness.resolve, hside, hform, hmode, hrequired, hlax]
  have hoverlap : Reads ⟨.standard, Options.withStrict {} (.mode .warn)⟩ (.atom .math overlap)
      [token "\\llap" 0 5, token "\x7b" 5 6, letter, closing] [] :=
    .standard_command (.lap (by decide)) rfl (.brace rfl rfl rfl hbody rfl (.complete rfl))
      (hlap _ rfl rfl rfl)
  have hwarn := parse_of_drain hdrain
    (.next (by decide) (by decide) hoverlap (.finish (by simp [EndsAt])))
  have hsevere : ∀ nodes, (parse ⟨.standard, Options.withStrict {} (.flag true)⟩
      "\\llap\x7ba\x7d%").1 ≠ .ok nodes := by
    intro nodes hok
    obtain ⟨ts, hts⟩ := supplies_of_parse hok
    have hdrained := Parser.drain_eq_ok_iff.mpr hts
    have hfails : ((Parser.ofText "\\llap\x7ba\x7d%").drain
        ⟨.standard, Options.withStrict {} (.flag true)⟩).toOption = none := by
      decide +kernel
    rw [hdrained] at hfails
    cases hfails
  obtain ⟨hread, -, hwarned⟩ := parse_strict_filter {} "\\llap\x7ba\x7d%" (.flag false)
    (.mode .warn) (.flag true) (fun _ => rfl) (fun _ => rfl) (fun _ => rfl)
  refine ⟨[overlap], hread _ _ hwarn, hwarn, ?_⟩
  -- without a warning the text would be read under the strict policy as well
  by_contra hsilent
  obtain ⟨nodes, hok⟩ := (hwarned _ hwarn).mpr fun code detail hmem => hsilent ⟨code, detail, hmem⟩
  exact hsevere nodes hok

end Environment

end MathMarkup
