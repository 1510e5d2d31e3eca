import MathMarkup.Proofs.Parser.Comparison
import MathMarkup.Proofs.Parser.Screen

/-!
# Two runs in step

Two parsers are in step if the same tokens come into view in both, as far as a comparison goes,
and neither using them up nor reporting anything changes that.  Runs of related stacks then
come to related results: both have a value and are in step afterwards, or both fail.

This includes the failures of the lexer, so that nothing has to be known of the texts.

## Main definitions

* `Parser.runToEnd` — read everything that is left.
* `Comparison.Runs` — related results of two parsers.
* `Comparison.Lockstep` — parsers that are in step and stay so.

## Main results

* `Comparison.Lockstep.run` — **parsers in step run related stacks to related results.**
* `Comparison.Lockstep.runToEnd` — so they do if nothing may be left.
-/

namespace MathMarkup

/-- Runs a stack, and wants the end marker behind it.  Reading a document is this for the stack that
a parser starts with. -/
def Parser.runToEnd {α : Type} (env : Environment) (s : Stack α) (p : Parser) :
    Except CompileError α × Parser :=
  onward (p.run env s) fun a p =>
    onward (p.expect env Token.endText true) fun _ p => (.ok a, p)

theorem Parser.document_eq_runToEnd (env : Environment) (p : Parser) :
    p.document env = p.runToEnd env p.start := p.document_eq env

namespace Comparison

variable {α β : Type} {R : Comparison} {known : Parser → Parser → Prop}

/-- Related results of two parsers: both have a value and are as they should be, or both
fail. -/
inductive Runs (R : Comparison) (known : Parser → Parser → Prop) (value : α → α → Prop) :
    Except CompileError α × Parser → Except CompileError α × Parser → Prop where
  /-- Both have a value. -/
  | ok {a a' : α} {p q : Parser} (hvalue : value a a') (hknown : known p q) :
      Runs R known value (.ok a, p) (.ok a', q)
  /-- Both fail. -/
  | error {e e' : CompileError} {p q : Parser} (herror : R.error e e') :
      Runs R known value (.error e, p) (.error e', q)

namespace Runs

variable {value : α → α → Prop} {y : Except CompileError α × Parser}

theorem exists_ok {a : α} {p : Parser} (h : R.Runs known value (.ok a, p) y) :
    ∃ a' q, y = (.ok a', q) ∧ value a a' ∧ known p q := by
  cases h with
  | ok hvalue hknown => exact ⟨_, _, rfl, hvalue, hknown⟩

theorem exists_error {e : CompileError} {p : Parser} (h : R.Runs known value (.error e, p) y) :
    ∃ e' q, y = (.error e', q) ∧ R.error e e' := by
  cases h with
  | error herror => exact ⟨_, _, rfl, herror⟩

/-- What goes on from related values keeps results related, and failures stay failures. -/
theorem onward {x : Except CompileError α × Parser} {value' : β → β → Prop}
    {next next' : α → Parser → Except CompileError β × Parser} (h : R.Runs known value x y)
    (hnext : ∀ {a a' p q}, value a a' → known p q →
      R.Runs known value' (next a p) (next' a' q)) :
    R.Runs known value' (MathMarkup.onward x next) (MathMarkup.onward y next') := by
  cases h with
  | ok hvalue hknown => exact hnext hvalue hknown
  | error herror => exact .error herror

end Runs

/-- Something that stays true of two parsers while they read, and that brings related tokens into
view.  This is all that has to be known of the two texts. -/
structure Lockstep (R : Comparison) (registry : Registry) (known : Parser → Parser → Prop) :
    Prop where
  /-- Related tokens come into view, or both fail. -/
  fetch : ∀ {p q : Parser}, known p q →
    R.Runs known R.Tokens (p.fetch ⟨registry, R.left⟩) (q.fetch ⟨registry, R.right⟩)
  /-- The tokens in view are used up. -/
  consume : ∀ {p q : Parser}, known p q → known p.consume q.consume
  /-- More is reported. -/
  report : ∀ {p q : Parser} (log log' : Log), known p q → known (p.report log) (q.report log')

namespace Lockstep

variable {registry : Registry} {value : α → α → Prop} {p q : Parser}

/-- A related token comes into view. -/
theorem exists_fetch (hk : R.Lockstep registry known) (hpq : known p q) {t : Token}
    {p₁ : Parser} (h : p.fetch ⟨registry, R.left⟩ = (.ok t, p₁)) :
    ∃ t' q₁, q.fetch ⟨registry, R.right⟩ = (.ok t', q₁) ∧ R.Tokens t t' ∧ known p₁ q₁ := by
  have htokens := hk.fetch hpq
  rw [h] at htokens
  exact htokens.exists_ok

/-- Moves to the same effect keep parsers in step. -/
theorem after (hk : R.Lockstep registry known) {move move' : Move α}
    (hmove : R.Moves value move move') (hpq : known p q) :
    known (p.after move) (q.after move') := by
  -- the token is used up in both or in neither
  unfold Parser.after
  rw [hmove.taken]
  split
  · exact hk.report _ _ (hk.consume hpq)
  · exact hk.report _ _ hpq

/-- **Parsers in step run related stacks to related results**, if the commands respect the
comparison. -/
theorem run (hk : R.Lockstep registry known) (hr : R.RespectsAll registry) {s s' : Stack α}
    (hs : R.Stacks value s s') (hpq : known p q) :
    R.Runs known value (p.run ⟨registry, R.left⟩ s) (q.run ⟨registry, R.right⟩ s') := by
  -- the recursion of the first run; the second fetches a related token at every step
  fun_induction Parser.run ⟨registry, R.left⟩ s p generalizing s' q with
  | case1 s p e p₁ hfetch =>
    have htokens := hk.fetch hpq
    rw [hfetch] at htokens
    obtain ⟨e', q₁, hfetch', herror⟩ := htokens.exists_error
    rw [Parser.run_of_fetch_error hfetch']
    exact .error herror
  | case2 s p t p₁ hfetch s₁ hread ih =>
    obtain ⟨t', q₁, hfetch', ht, hpq₁⟩ := hk.exists_fetch hpq hfetch
    have hmove := hs.feed hr ht
    -- the second run is still open as well, on a related stack
    obtain ⟨s₁', hread', hstack⟩ := (hread ▸ hmove.outcome).exists_read
    rw [Parser.run_eq hfetch', hread']
    exact ih hstack (hk.after hmove hpq₁)
  | case3 s p t p₁ hfetch a hdone =>
    obtain ⟨t', q₁, hfetch', ht, hpq₁⟩ := hk.exists_fetch hpq hfetch
    have hmove := hs.feed hr ht
    obtain ⟨a', hdone', hvalue⟩ := (hdone ▸ hmove.outcome).exists_done
    rw [Parser.run_eq hfetch', hdone']
    exact .ok hvalue (hk.after hmove hpq₁)
  | case4 s p t p₁ hfetch e hfail =>
    obtain ⟨t', q₁, hfetch', ht, -⟩ := hk.exists_fetch hpq hfetch
    obtain ⟨e', hfail', herror⟩ := (hfail ▸ (hs.feed hr ht).outcome).exists_fail
    rw [Parser.run_eq hfetch', hfail']
    exact .error herror

/-- The same token is missing in both parsers, or in neither. -/
theorem expect (hk : R.Lockstep registry known) (hpq : known p q) (text : String)
    (consuming : Bool) :
    R.Runs known (fun _ _ => True) (p.expect ⟨registry, R.left⟩ text consuming)
      (q.expect ⟨registry, R.right⟩ text consuming) := by
  rw [Parser.expect_eq, Parser.expect_eq]
  refine (hk.fetch hpq).onward fun {t t' p₁ q₁} ht hpq₁ => ?_
  rw [ht.text]
  split
  · refine .ok trivial ?_
    cases consuming with
    | true => exact hk.consume hpq₁
    | false => exact hpq₁
  · exact .error (ht.error _)

/-- Parsers in step read related stacks to the end with related results. -/
theorem runToEnd (hk : R.Lockstep registry known) (hr : R.RespectsAll registry) {s s' : Stack α}
    (hs : R.Stacks value s s') (hpq : known p q) :
    R.Runs known value (p.runToEnd ⟨registry, R.left⟩ s) (q.runToEnd ⟨registry, R.right⟩ s') := by
  refine (hk.run hr hs hpq).onward fun hvalue hpq₁ => ?_
  exact (hk.expect hpq₁ _ _).onward fun _ hpq₂ => .ok hvalue hpq₂

end Lockstep

end Comparison

end MathMarkup
