import MathMarkup.Proofs.Parser.Comparison
import MathMarkup.Proofs.Parser.Supply
import MathMarkup.Proofs.Registry.Standard

/-!
# The limit on macros is a threshold

The limit says how many macros may be replaced, and it is looked at nowhere else.  A run
that stays within it does not notice it: under every other limit that is not below what the
run has spent it is the same run, step by step.  So every text has a number of replacements
that it needs.  With a lower limit it fails for that reason, and with any other one it comes
to the same nodes, the same error and the same reports.  A text that never gets through its
macros fails under every limit.

## Main definitions

* `Options.withLimit` — options with another limit.
* `RunsOut` — the results for which the limit is to blame.
* `replacements` — the number of macros that were replaced, from the reports.
* `Feed.Settled`, `Feed.Spends` — the reports and the count of a feed agree, and what reading
  does about it.
* `Comparison.limits` — the comparison of a parser with the one under another limit.

## Main results

* `Feed.pull_withLimit`, `Parser.run_withLimit` — what was read within a limit is read the
  same under another one.
* `Feed.spends_pull`, `Parser.spends_run` — reading counts what it spends.
* `Environment.parse_limit_threshold` — **the limit is a threshold and nothing else.**
-/

namespace MathMarkup

/-- The options with another limit on macros. -/
def Options.withLimit (o : Options) (limit : Nat) : Options := { o with maxExpand := limit }

theorem Options.strict_withLimit (o : Options) (limit : Nat) :
    (o.withLimit limit).strict = o.strict := rfl

/-- Whether the limit on macros is to blame for a result: it is an error, and the cause says so. -/
def RunsOut {α : Type} (result : Except CompileError α) : Prop :=
  ∃ e, result = .error e ∧ e.reason = .tooManyExpansions

theorem not_runsOut_ok {α : Type} (a : α) : ¬RunsOut (.ok a) := by
  rintro ⟨e, he, -⟩
  cases he

theorem runsOut_error_iff {α : Type} {e : CompileError} :
    RunsOut (.error e : Except CompileError α) ↔ e.reason = .tooManyExpansions := by
  constructor
  · rintro ⟨e', he, hreason⟩
    cases he
    exact hreason
  · exact fun hreason => ⟨e, rfl, hreason⟩

/-- An error that is passed on keeps its cause. -/
theorem runsOut_error {α β : Type} {e : CompileError}
    (h : RunsOut (.error e : Except CompileError α)) :
    RunsOut (.error e : Except CompileError β) :=
  runsOut_error_iff.mpr (runsOut_error_iff.mp h)

/-! ### Reports of replacements -/

/-- Whether an event is the replacement of a macro. -/
def Event.isReplacement : Event → Bool
  | .expanding _ => true
  | _ => false

/-- How many macros were replaced, as reported.  The reports tell this also where nothing else is
left of a run. -/
def replacements (log : Log) : Nat := log.countP Event.isReplacement

@[simp] theorem replacements_append (log later : Log) :
    replacements (log ++ later) = replacements log + replacements later :=
  List.countP_append

/-- The strict policy replaces no macros. -/
@[simp] theorem Options.replacements_consult (o : Options) (breach : Breach) :
    replacements (o.consult breach).2 = 0 := by
  unfold Options.consult
  cases hmode : o.strict.resolve breach <;> cases o.strict <;> rfl

@[simp] theorem Options.replacements_report (o : Options) (breach : Breach) :
    replacements (o.report breach).2 = 0 :=
  o.replacements_consult breach

/-! ### The document -/

namespace Lexer

@[simp] theorem replacements_next (o : Options) (lx : Lexer) :
    replacements (lx.next o).2.2 = 0 := by
  have hreport := o.replacements_report openComment
  fun_induction Lexer.next o lx with
  | case1 | case2 | case3 | case4 => rfl
  | case5 lx x hk ih => exact ih
  | case6 lx x hk u log hr | case7 lx x hk e log hr => rwa [hr] at hreport

/-- The limit does not concern the document. -/
@[simp] theorem readAll_withLimit (o : Options) (limit : Nat) (lx : Lexer) :
    lx.readAll (o.withLimit limit) = lx.readAll o :=
  readAll_congr (o.strict_withLimit limit) lx

@[simp] theorem replacements_readAll (o : Options) (lx : Lexer) :
    replacements (lx.readAll o).2 = 0 := by
  fun_induction Lexer.readAll o lx with
  | case1 lx e lx' log hnext | case2 lx t lx' log hnext hend =>
    have hlog := replacements_next o lx
    rwa [hnext] at hlog
  | case3 lx t lx' log hnext hend tokens later hread ih =>
    have hlog := replacements_next o lx
    rw [hnext] at hlog
    rw [hread] at ih
    rw [replacements_append, ih, hlog]

end Lexer

/-! ### Feeds -/

namespace Feed

variable {o : Options} {limit : Nat}

@[simp] theorem take_withLimit (o : Options) (limit : Nat) (f : Feed) :
    f.take (o.withLimit limit) = f.take o :=
  take_congr (o.strict_withLimit limit) f

/-- Whether the reports of a feed agree with its count, and the count with the limit.  A fresh feed
is settled under every limit. -/
structure Settled (limit : Nat) (f : Feed) : Prop where
  /-- As many macros were reported as were counted. -/
  reported : replacements f.log = f.expansions
  /-- They are within the limit. -/
  within : f.expansions ≤ limit

/-- What reading does to a feed under a limit: the count never falls, and it stays settled
unless the limit is passed.  What is reported is within the limit also then. -/
structure Spends {α : Type} (limit : Nat) (f : Feed) (result : Except CompileError α)
    (f' : Feed) : Prop where
  /-- Nothing is taken back. -/
  grows : f.expansions ≤ f'.expansions
  /-- Reports and count agree, unless the limit is passed. -/
  settles : f.Settled limit →
    f'.Settled limit ∨ RunsOut result ∧ replacements f'.log ≤ limit

namespace Spends

variable {α β : Type} {f g h : Feed} {result : Except CompileError α}

/-- Reading that reports no macro and counts none. -/
theorem of_eq (hlog : replacements g.log = replacements f.log)
    (hexpansions : g.expansions = f.expansions) : Spends limit f result g where
  grows := Nat.le_of_eq hexpansions.symm
  settles hf := .inl ⟨by rw [hlog, hexpansions, hf.reported], by rw [hexpansions]; exact hf.within⟩

/-- Reading goes on after reading that did not run out. -/
theorem trans {later : Except CompileError β} (hfg : Spends limit f result g)
    (hresult : ¬RunsOut result) (hgh : Spends limit g later h) : Spends limit f later h where
  grows := Nat.le_trans hfg.grows hgh.grows
  settles hf := by
    -- what ran out first would have ended there
    rcases hfg.settles hf with hg | ⟨hout, -⟩
    · exact hgh.settles hg
    · exact absurd hout hresult

/-- An error is passed on, with what was spent up to there. -/
theorem of_error {e : CompileError} (hfg : Spends limit f (.error e : Except CompileError α) g) :
    Spends limit f (.error e : Except CompileError β) g where
  grows := hfg.grows
  settles hf := (hfg.settles hf).imp id (And.imp_left runsOut_error)

end Spends

theorem spends_take {f f' : Feed} {result : Except CompileError Token}
    (h : f.take o = (result, f')) : Spends limit f result f' := by
  obtain rfl : f' = (f.take o).2 := by rw [h]
  refine .of_eq ?_ (expansions_take o f)
  unfold take
  split
  · rfl
  · simp only [report, replacements_append, Lexer.replacements_next, Nat.zero_add]

@[simp] theorem expansions_expand (o : Options) (t : Token) (replacement : String) (f : Feed) :
    (f.expand o t replacement).2.expansions = f.expansions + 1 := by
  unfold expand
  split
  · split <;> rfl
  · rfl

/-- A macro beyond the limit is counted and not replaced, so the count can exceed what was reported
by one. -/
theorem expand_of_not_lt {t : Token} {f : Feed} (h : ¬f.expansions < o.maxExpand)
    (replacement : String) :
    f.expand o t replacement =
      (.error (.located .tooManyExpansions t.span),
        { f with expansions := f.expansions + 1 }) := by
  rw [expand, if_neg h]

theorem replacements_expand_of_lt {f : Feed} (h : f.expansions < o.maxExpand) (t : Token)
    (replacement : String) :
    replacements (f.expand o t replacement).2.log = replacements f.log + 1 := by
  have hread : replacements (replacementTokens o replacement).2 = 0 :=
    Lexer.replacements_readAll o _
  have hone : replacements [Event.expanding t.text] = 1 := rfl
  rw [expand, if_pos h]
  split
  · rename_i tokens log htokens
    rw [htokens] at hread
    simp only [report, replacements_append, hread, hone]
    omega
  · rename_i e log htokens
    rw [htokens] at hread
    simp only [report, replacements_append, hread, hone]
    omega

theorem spends_expand {t : Token} {replacement : String} {f f' : Feed}
    {result : Except CompileError Unit} (h : f.expand o t replacement = (result, f')) :
    Spends o.maxExpand f result f' := by
  have hcount : f'.expansions = f.expansions + 1 := by rw [← expansions_expand o t replacement, h]
  -- within the limit the macro is reported and counted
  refine ⟨by rw [hcount]; exact Nat.le_succ _, fun hf => ?_⟩
  by_cases hlt : f.expansions < o.maxExpand
  · have hlog := replacements_expand_of_lt hlt t replacement
    rw [h] at hlog
    exact .inl ⟨by rw [hlog, hcount, hf.reported], by rw [hcount]; exact hlt⟩
  · -- the macro is counted, but neither replaced nor reported
    rw [expand_of_not_lt hlt] at h
    cases h
    exact .inr ⟨⟨_, rfl, rfl⟩, Nat.le_trans (Nat.le_of_eq hf.reported) hf.within⟩

/-- A macro that was replaced is replaced the same under another limit, if that is not passed
either. -/
theorem expand_withLimit {t : Token} {replacement : String} {f f' : Feed}
    {result : Except CompileError Unit} (h : f.expand o t replacement = (result, f'))
    (hresult : ¬RunsOut result) (hlimit : f'.expansions ≤ limit) :
    f.expand (o.withLimit limit) t replacement = (result, f') := by
  have hcount : f'.expansions = f.expansions + 1 := by rw [← expansions_expand o t replacement, h]
  -- the first limit was not passed, or the result would say so
  have hlt : f.expansions < o.maxExpand := by
    by_contra hge
    rw [expand_of_not_lt hge] at h
    cases h
    exact hresult ⟨_, rfl, rfl⟩
  have hlt' : f.expansions < (o.withLimit limit).maxExpand := by
    rw [hcount] at hlimit
    exact hlimit
  rw [expand, if_pos hlt] at h
  rw [expand, if_pos hlt', replacementTokens, Lexer.readAll_withLimit]
  exact h

theorem spends_pull {f f' : Feed} {result : Except CompileError Token}
    (h : f.pull o = (result, f')) : Spends o.maxExpand f result f' := by
  -- taking a token spends nothing, and every replacement spends one
  fun_induction Feed.pull o f with
  | case1 f e f₁ htake | case2 f t f₁ htake hmacro =>
    cases h
    exact spends_take htake
  | case3 f t f₁ htake replacement hmacro e f₂ hexpand =>
    cases h
    exact (spends_take htake).trans (not_runsOut_ok t) ((spends_expand hexpand).of_error)
  | case4 f t f₁ htake replacement hmacro u f₂ hexpand ih =>
    exact ((spends_take htake).trans (not_runsOut_ok t) (spends_expand hexpand)).trans
      (not_runsOut_ok u) (ih h)

/-- A token that was read within the limit is read the same under another limit, if that is
not passed either. -/
theorem pull_withLimit {f f' : Feed} {result : Except CompileError Token}
    (h : f.pull o = (result, f')) (hresult : ¬RunsOut result) (hlimit : f'.expansions ≤ limit) :
    f.pull (o.withLimit limit) = (result, f') := by
  -- what was spent on the way is at most what was spent in the end, so that every macro on the
  -- way is within the other limit too
  fun_induction Feed.pull o f with
  | case1 f e f₁ htake =>
    cases h
    exact pull_of_take_error (by rw [take_withLimit, htake])
  | case2 f t f₁ htake hmacro =>
    cases h
    exact pull_of_lookup_none (by rw [take_withLimit, htake]) hmacro
  | case3 f t f₁ htake replacement hmacro e f₂ hexpand =>
    cases h
    have htake' : f.take (o.withLimit limit) = (.ok t, f₁) := by rw [take_withLimit, htake]
    rw [pull_of_expand htake' hmacro,
      expand_withLimit hexpand (fun hout => hresult (runsOut_error hout)) hlimit]
  | case4 f t f₁ htake replacement hmacro u f₂ hexpand ih =>
    have htake' : f.take (o.withLimit limit) = (.ok t, f₁) := by rw [take_withLimit, htake]
    have hspent : f₂.expansions ≤ limit := Nat.le_trans (spends_pull h).grows hlimit
    rw [pull_of_expand htake' hmacro, expand_withLimit hexpand (not_runsOut_ok u) hspent]
    exact ih h

end Feed

/-! ### Parsers under two limits -/

namespace Comparison

variable {o : Options} {limit : Nat}

/-- The comparison of a parser with the one under another limit: everything is the same, and the
commands report no macros, so that what they report leaves the count alone. -/
def limits (o : Options) (limit : Nat) : Comparison where
  left := o
  right := o.withLimit limit
  span := Eq
  node := Eq
  error := Eq
  log l l' := l = l' ∧ replacements l = 0
  span_cover := by
    rintro a b _ _ rfl rfl
    rfl
  node_letter := by
    rintro mode a _ text rfl
    rfl
  node_symbol := by
    rintro mode a _ text rfl
    rfl
  node_group := by
    rintro mode a _ xs ys rfl hxs
    rw [List.forall₂_eq_eq_eq] at hxs
    rw [hxs]
  error_located := by
    rintro a _ reason rfl
    rfl
  log_nil := ⟨rfl, rfl⟩
  log_append := by
    rintro k _ l _ ⟨rfl, hk⟩ ⟨rfl, hl⟩
    exact ⟨rfl, by rw [replacements_append, hk, hl]⟩

theorem eq_of_forall₂_node {xs ys : List Node} (h : List.Forall₂ (limits o limit).node xs ys) :
    xs = ys := by
  rwa [show (limits o limit).node = Eq from rfl, List.forall₂_eq_eq_eq] at h

theorem eq_of_rel {α : Type} {r : α → α → Prop} (hr : ∀ {a b}, r a b → a = b) {x y : Option α}
    (h : Option.Rel r x y) : x = y := by
  cases h with
  | some hab => exact congrArg some (hr hab)
  | none => rfl

theorem Tokens.eq {t t' : Token} (h : (limits o limit).Tokens t t') : t = t' := by
  obtain ⟨text, span⟩ := t
  obtain ⟨text', span'⟩ := t'
  obtain ⟨rfl, hspan⟩ := h
  obtain rfl : span = span' := hspan
  rfl

theorem Invocations.eq {i i' : Invocation} (h : (limits o limit).Invocations i i') : i = i' := by
  obtain ⟨name, token, mode, required, optional⟩ := i
  obtain ⟨name', token', mode', required', optional'⟩ := i'
  obtain ⟨rfl, htoken, rfl, hrequired, hoptional⟩ := h
  obtain rfl : token = token' := eq_of_rel Tokens.eq htoken
  obtain rfl : required = required' := eq_of_forall₂_node hrequired
  obtain rfl : optional = optional' := by
    rw [← List.forall₂_eq_eq_eq]
    exact hoptional.imp fun _ _ => eq_of_rel id
  rfl

/-- A reply without reports of macros is the same as itself. -/
theorem Replies.refl (x : Reply × Log) (h : replacements x.2 = 0) :
    (limits o limit).Replies x x := by
  obtain ⟨reply, log⟩ := x
  cases reply with
  | node n => exact .node rfl ⟨rfl, h⟩
  | fail e => exact .fail rfl ⟨rfl, h⟩
  | readUntil stop finish =>
    refine .readUntil (fun hxs => ?_) ⟨rfl, h⟩
    rw [eq_of_forall₂_node hxs]
    rfl

/-- The same token does the same under both limits. -/
theorem Stacks.feed_limits {α : Type} {value : α → α → Prop} {s s' : Stack α}
    {registry : Registry} (hr : (limits o limit).RespectsAll registry)
    (hs : (limits o limit).Stacks value s s') (t : Token) :
    (limits o limit).Moves value (s.feed ⟨registry, o⟩ t)
      (s'.feed ⟨registry, o.withLimit limit⟩ t) :=
  hs.feed hr ⟨rfl, rfl⟩

end Comparison

namespace IsStandard

variable {name : String} {c : Command}

/-- The limit does not concern the standard commands. -/
theorem run_withLimit (h : IsStandard name c) (o : Options) (limit : Nat) (i : Invocation) :
    c.run (o.withLimit limit) i = c.run o i :=
  h.run_congr (o.strict_withLimit limit) i

theorem replacements_run (h : IsStandard name c) (o : Options) (i : Invocation) :
    replacements (c.run o i).2 = 0 := by
  rcases h.eq_lap_or_run_eq i with rfl | ⟨reply, hrun⟩
  · have hasked : replacements (o.isStrictAbout (Handler.lapBreach i)).2 = 0 :=
      o.replacements_consult _
    simp only [Command.run, Command.lap, Handler.lap]
    split
    · split <;> rename_i log hlog <;> rwa [hlog] at hasked
    · rfl
  · rw [hrun]
    rfl

theorem respects_limits (h : IsStandard name c) (o : Options) (limit : Nat) :
    (Comparison.limits o limit).Respects c := by
  intro i i' hi
  rw [← hi.eq, show (Comparison.limits o limit).right = o.withLimit limit from rfl,
    h.run_withLimit]
  exact .refl _ (h.replacements_run o i)

end IsStandard

namespace Parser

variable {α : Type} {o : Options} {limit : Nat} {registry : Registry}

theorem spends_fetch {p p' : Parser} {result : Except CompileError Token}
    (h : p.fetch ⟨registry, o⟩ = (result, p')) :
    p.feed.Spends o.maxExpand result p'.feed := by
  unfold fetch at h
  split at h
  · cases h
    exact .of_eq rfl rfl
  · split at h
    · rename_i t feed hpull
      cases h
      exact Feed.spends_pull hpull
    · rename_i e feed hpull
      cases h
      exact Feed.spends_pull hpull

theorem fetch_withLimit {p p' : Parser} {result : Except CompileError Token}
    (h : p.fetch ⟨registry, o⟩ = (result, p')) (hresult : ¬RunsOut result)
    (hlimit : p'.feed.expansions ≤ limit) :
    p.fetch ⟨registry, o.withLimit limit⟩ = (result, p') := by
  -- only where nothing is in view there is something to spend
  unfold fetch at h ⊢
  cases hview : p.lookahead with
  | some t =>
    rw [hview] at h
    exact h
  | none =>
    rw [hview] at h
    simp only at h ⊢
    rcases hpull : p.feed.pull o with ⟨e | t, feed⟩
    · rw [hpull] at h
      cases h
      rw [Feed.pull_withLimit hpull hresult hlimit]
    · rw [hpull] at h
      cases h
      rw [Feed.pull_withLimit hpull hresult hlimit]

section

variable {value : α → α → Prop} {move move' : Move α}

theorem after_limits (h : (Comparison.limits o limit).Moves value move move') (p : Parser) :
    p.after move = p.after move' := by
  rw [after, after, h.taken, h.log.1]

/-- A token that is fed to a stack spends nothing: only fetching replaces macros. -/
theorem spends_after {β : Type} (h : (Comparison.limits o limit).Moves value move move')
    (p : Parser) {n : Nat} (result : Except CompileError β) :
    p.feed.Spends n result (p.after move).feed := by
  rw [feed_after]
  refine .of_eq ?_ rfl
  rw [Feed.report, replacements_append, h.log.2, Nat.zero_add]

variable {s s' : Stack α} {p p' : Parser} {result : Except CompileError α}

/-- A run counts what it spends, whatever it comes to. -/
theorem spends_run (hr : (Comparison.limits o limit).RespectsAll registry)
    (hs : (Comparison.limits o limit).Stacks value s s')
    (h : p.run ⟨registry, o⟩ s = (result, p')) :
    p.feed.Spends o.maxExpand result p'.feed := by
  -- what is fetched may spend something, what is fed to the stack does not
  fun_induction Parser.run ⟨registry, o⟩ s p generalizing s' with
  | case1 s p e p₁ hfetch =>
    cases h
    exact (spends_fetch hfetch).of_error
  | case2 s p t p₁ hfetch s₁ hread ih =>
    have hmove := hs.feed_limits hr t
    obtain ⟨s₁', -, hstack⟩ := (hread ▸ hmove.outcome).exists_read
    exact ((spends_fetch hfetch).trans (not_runsOut_ok t) (spends_after hmove p₁ (.ok s₁))).trans
      (not_runsOut_ok s₁) (ih hstack h)
  | case3 s p t p₁ hfetch a hdone | case4 s p t p₁ hfetch e hfail =>
    cases h
    exact (spends_fetch hfetch).trans (not_runsOut_ok t)
      (spends_after (hs.feed_limits hr t) p₁ _)

/-- A run that stayed within its limit is the same under every other limit that is not below
what it spent. -/
theorem run_withLimit (hr : (Comparison.limits o limit).RespectsAll registry)
    (hs : (Comparison.limits o limit).Stacks Eq s s')
    (h : p.run ⟨registry, o⟩ s = (result, p')) (hresult : ¬RunsOut result)
    (hlimit : p'.feed.expansions ≤ limit) :
    p.run ⟨registry, o.withLimit limit⟩ s' = (result, p') := by
  -- the recursion of the first run; what it spends in the end is at least what it has spent
  fun_induction Parser.run ⟨registry, o⟩ s p generalizing s' with
  | case1 s p e p₁ hfetch =>
    cases h
    exact run_of_fetch_error
      (fetch_withLimit hfetch (fun hout => hresult (runsOut_error hout)) hlimit) s'
  | case2 s p t p₁ hfetch s₁ hread ih =>
    have hmove := hs.feed_limits hr t
    obtain ⟨s₁', hread', hstack⟩ := (hread ▸ hmove.outcome).exists_read
    have hspent : p₁.feed.expansions ≤ limit := by
      have hgrows := (spends_run hr hstack h).grows
      rw [feed_after, Feed.expansions_report] at hgrows
      exact Nat.le_trans hgrows hlimit
    rw [run_eq (fetch_withLimit hfetch (not_runsOut_ok t) hspent), hread', ← after_limits hmove]
    exact ih hstack h
  | case3 s p t p₁ hfetch a hdone =>
    cases h
    have hmove := hs.feed_limits hr t
    obtain ⟨a', hdone', rfl⟩ := (hdone ▸ hmove.outcome).exists_done
    rw [feed_after, Feed.expansions_report] at hlimit
    rw [run_eq (fetch_withLimit hfetch (not_runsOut_ok t) hlimit), hdone', after_limits hmove]
  | case4 s p t p₁ hfetch e hfail =>
    cases h
    have hmove := hs.feed_limits hr t
    obtain ⟨e', hfail', he⟩ := (hfail ▸ hmove.outcome).exists_fail
    obtain rfl : e = e' := he
    rw [feed_after, Feed.expansions_report] at hlimit
    rw [run_eq (fetch_withLimit hfetch (not_runsOut_ok t) hlimit), hfail', after_limits hmove]

end

/-- What is expected makes no difference to what follows: the token was fetched before it is
compared. -/
theorem feed_expect {p p₁ p' : Parser} {t : Token} {text : String} {consuming : Bool}
    {result : Except CompileError Unit} (hfetch : p.fetch ⟨registry, o⟩ = (.ok t, p₁))
    (h : p.expect ⟨registry, o⟩ text consuming = (result, p')) : p'.feed = p₁.feed := by
  simp only [expect, hfetch] at h
  split_ifs at h <;> cases h <;> rfl

theorem spends_expect {p p' : Parser} {text : String} {consuming : Bool}
    {result : Except CompileError Unit}
    (h : p.expect ⟨registry, o⟩ text consuming = (result, p')) :
    p.feed.Spends o.maxExpand result p'.feed := by
  rcases hfetch : p.fetch ⟨registry, o⟩ with ⟨e | t, p₁⟩
  · rw [expect, hfetch] at h
    cases h
    exact (spends_fetch hfetch).of_error
  · rw [feed_expect hfetch h]
    exact (spends_fetch hfetch).trans (not_runsOut_ok t) (.of_eq rfl rfl)

theorem expect_withLimit {p p' : Parser} {text : String} {consuming : Bool}
    {result : Except CompileError Unit}
    (h : p.expect ⟨registry, o⟩ text consuming = (result, p')) (hresult : ¬RunsOut result)
    (hlimit : p'.feed.expansions ≤ limit) :
    p.expect ⟨registry, o.withLimit limit⟩ text consuming = (result, p') := by
  rcases hfetch : p.fetch ⟨registry, o⟩ with ⟨e | t, p₁⟩
  · rw [expect, hfetch] at h
    cases h
    rw [expect, fetch_withLimit hfetch (fun hout => hresult (runsOut_error hout)) hlimit]
  · have hspent : p₁.feed.expansions ≤ limit := by rwa [← feed_expect hfetch h]
    rw [expect, hfetch] at h
    rw [expect, fetch_withLimit hfetch (not_runsOut_ok t) hspent]
    exact h

/-! ### Documents -/

theorem stacks_start (p : Parser) :
    (Comparison.limits o limit).Stacks Eq p.start p.start :=
  .expression Comparison.eq_of_forall₂_node

/-- The limit does not concern the standard registry. -/
theorem respectsAll_limits (o : Options) (limit : Nat) :
    (Comparison.limits o limit).RespectsAll .standard :=
  fun _ _ hcommand => (Registry.command?_standard_iff.mp hcommand).respects_limits o limit

variable {p p' : Parser} {result : Except CompileError (List Node)}

theorem spends_document (h : p.document ⟨.standard, o⟩ = (result, p')) :
    p.feed.Spends o.maxExpand result p'.feed := by
  rw [document, expression, ← start] at h
  rcases hrun : p.run ⟨.standard, o⟩ p.start with ⟨e | nodes, p₁⟩
  · rw [hrun] at h
    cases h
    exact spends_run (respectsAll_limits o 0) p.stacks_start hrun
  · have hspends := spends_run (respectsAll_limits o 0) p.stacks_start hrun
    rw [hrun] at h
    simp only at h
    rcases hexpect : p₁.expect ⟨.standard, o⟩ Token.endText true with ⟨e | u, p₂⟩
    · rw [hexpect] at h
      cases h
      exact hspends.trans (not_runsOut_ok nodes) (spends_expect hexpect).of_error
    · rw [hexpect] at h
      cases h
      exact (hspends.trans (not_runsOut_ok nodes) (spends_expect hexpect)).trans
        (not_runsOut_ok u) (.of_eq rfl rfl)

/-- A document that was read within its limit is read the same under every other limit that is
not below what was spent on it. -/
theorem document_withLimit (h : p.document ⟨.standard, o⟩ = (result, p'))
    (hresult : ¬RunsOut result) (hlimit : p'.feed.expansions ≤ limit) :
    p.document ⟨.standard, o.withLimit limit⟩ = (result, p') := by
  rw [document, expression, ← start] at h ⊢
  rcases hrun : p.run ⟨.standard, o⟩ p.start with ⟨e | nodes, p₁⟩
  · rw [hrun] at h
    cases h
    rw [run_withLimit (respectsAll_limits o limit) p.stacks_start hrun hresult hlimit]
  · rw [hrun] at h
    rcases hexpect : p₁.expect ⟨.standard, o⟩ Token.endText true with ⟨ended, p₂⟩
    simp only [hexpect] at h
    obtain rfl : p₂ = p' := by
      cases ended <;> cases h <;> rfl
    have hended : ¬RunsOut ended := by
      cases ended with
      | error e =>
        cases h
        exact fun hout => hresult (runsOut_error hout)
      | ok u => exact not_runsOut_ok u
    -- the end marker may be a macro, so that looking for it may spend something
    have hspent : p₁.feed.expansions ≤ limit :=
      Nat.le_trans (spends_expect hexpect).grows hlimit
    rw [run_withLimit (respectsAll_limits o limit) p.stacks_start hrun (not_runsOut_ok nodes)
      hspent]
    simp only [expect_withLimit hexpect hended hlimit]
    exact h

/-- What a document does under a limit that it does not pass, it does under every limit that is not
below its number of replacements, and no other limit is enough.  So the number of replacements does
not depend on the limit that was tried. -/
theorem document_threshold (hp : ∀ n, p.feed.Settled n) {n : Nat}
    (hn : ¬RunsOut (p.document ⟨.standard, o.withLimit n⟩).1) :
    (∀ m, replacements (p.document ⟨.standard, o.withLimit n⟩).2.log ≤ m →
      p.document ⟨.standard, o.withLimit m⟩ = p.document ⟨.standard, o.withLimit n⟩) ∧
    ∀ m, m < replacements (p.document ⟨.standard, o.withLimit n⟩).2.log →
      RunsOut (p.document ⟨.standard, o.withLimit m⟩).1 := by
  have hsettled : ∀ {m}, ¬RunsOut (p.document ⟨.standard, o.withLimit m⟩).1 →
      (p.document ⟨.standard, o.withLimit m⟩).2.feed.Settled m := by
    intro m hm
    have hspends := spends_document (o := o.withLimit m) (p := p) rfl
    exact (hspends.settles (hp m)).resolve_right fun hout => hm hout.1
  -- what was counted is what was reported
  have hcount := (hsettled hn).reported
  refine ⟨fun m hm => ?_, fun m hm => ?_⟩
  · have hlimit : (p.document ⟨.standard, o.withLimit n⟩).2.feed.expansions ≤ m := by
      rwa [← hcount]
    exact document_withLimit (o := o.withLimit n) rfl hn hlimit
  · -- a lower limit that was enough would be enough with fewer replacements
    by_contra hout
    have hlow := (hsettled hout).within
    have hhigh := (hsettled hn).within
    rw [log, hcount] at hm
    have hlimit : (p.document ⟨.standard, o.withLimit m⟩).2.feed.expansions ≤ n := by omega
    have hsame : p.document ⟨.standard, o.withLimit n⟩ = p.document ⟨.standard, o.withLimit m⟩ :=
      document_withLimit (o := o.withLimit m) rfl hout hlimit
    rw [hsame] at hm
    omega

end Parser

/-- **The limit on macros is a threshold and nothing else.**  Either every limit is too low for
a text, or the text needs a number of replacements: under every limit that is not below it the
text comes to one and the same result, and under every lower one it runs out.  Never are more
macros replaced than the limit allows. -/
theorem Environment.parse_limit_threshold (o : Options) (source : String) :
    ((∀ n, RunsOut (parse ⟨.standard, o.withLimit n⟩ source).1) ∨
      ∃ k r, k = replacements r.2 ∧ ¬RunsOut r.1 ∧
        (∀ n, k ≤ n → parse ⟨.standard, o.withLimit n⟩ source = r) ∧
        ∀ n, n < k → RunsOut (parse ⟨.standard, o.withLimit n⟩ source).1) ∧
    ∀ n, replacements (parse ⟨.standard, o.withLimit n⟩ source).2 ≤ n := by
  have hstart : ∀ n,
      ((Parser.ofText source).report [.parsing source.utf8ByteSize]).feed.Settled n :=
    fun n => ⟨rfl, Nat.zero_le n⟩
  refine ⟨?_, fun n => ?_⟩
  · by_cases hall : ∀ n, RunsOut (parse ⟨.standard, o.withLimit n⟩ source).1
    · exact .inl hall
    · obtain ⟨n, hn⟩ := not_forall.mp hall
      -- some limit is enough, and its number of replacements is the threshold
      obtain ⟨habove, hbelow⟩ := Parser.document_threshold hstart hn
      refine .inr ⟨_, parse ⟨.standard, o.withLimit n⟩ source, rfl, hn, fun m hm => ?_, hbelow⟩
      rw [parse, habove m hm]
      rfl
  · have hspends := Parser.spends_document (o := o.withLimit n)
      (p := (Parser.ofText source).report [.parsing source.utf8ByteSize]) rfl
    rcases hspends.settles (hstart n) with hsettled | ⟨-, hle⟩
    · exact Nat.le_trans (Nat.le_of_eq hsettled.reported) hsettled.within
    · exact hle

end MathMarkup
