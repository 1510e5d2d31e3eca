import MathMarkup.Proofs.Parser.Screen

/-!
# The options that concern reading

A text is read by its tokens, and tokens depend on three options: the strict policy says what
becomes of a comment without an end, and the macros and their limit say what is replaced.  The
standard commands ask the strict policy too, and nothing else.  The other options are for what
is done with the nodes, so that two compiles that differ in those read the same nodes and
report the same on the way.

## Main definitions

* `Options.ReadAlike` — options that differ at most in what does not concern reading.

## Main results

* `Feed.pull_congr` — the next token is the same.
* `Options.ReadAlike.parse` — **a text is read the same, with the same reports.**
-/

namespace MathMarkup

/-- Whether options differ at most in what does not concern reading, which is how the nodes are laid
out and written. -/
structure Options.ReadAlike (o o' : Options) : Prop where
  /-- The strict policy is the same. -/
  strict : o'.strict = o.strict
  /-- The macros are the same. -/
  macros : o'.macros = o.macros
  /-- As many macros may be replaced. -/
  maxExpand : o'.maxExpand = o.maxExpand

namespace Feed

variable {o o' : Options} (h : o.ReadAlike o')

include h

theorem expand_congr (t : Token) (replacement : String) (f : Feed) :
    f.expand o' t replacement = f.expand o t replacement := by
  unfold expand replacementTokens
  rw [h.maxExpand, Lexer.readAll_congr h.strict]

/-- The next token that is no macro is the same. -/
theorem pull_congr (f : Feed) : f.pull o' = f.pull o := by
  have htake := take_congr h.strict
  have hexpand := expand_congr h
  -- taking a token and replacing one are the same, so the recursion is too
  fun_induction Feed.pull o f with
  | case1 f e f₁ hresult => exact pull_of_take_error ((htake f).trans hresult)
  | case2 f t f₁ hresult hmacro =>
    exact pull_of_lookup_none ((htake f).trans hresult) (h.macros ▸ hmacro)
  | case3 f t f₁ hresult replacement hmacro e f₂ hreplaced =>
    rw [pull_of_expand ((htake f).trans hresult) (h.macros ▸ hmacro), hexpand, hreplaced]
  | case4 f t f₁ hresult replacement hmacro u f₂ hreplaced ih =>
    rw [pull_of_expand ((htake f).trans hresult) (h.macros ▸ hmacro), hexpand, hreplaced]
    exact ih

end Feed

namespace Screen

/-- Nothing needs to be known of the parser, since all tokens are the same in both runs. -/
theorem between_tokens {o o' : Options} (h : o.ReadAlike o') :
    (between o o').Tokens fun _ => True where
  stable := ⟨fun _ _ => trivial, fun _ _ _ => trivial, fun _ _ => trivial⟩
  fetch := by
    intro p _ hlog
    refine .fetch hlog fun _ => ?_
    rw [(isClear_between o o').seen]
    exact (isClear_between o o').follows rfl (Feed.pull_congr h p.feed)

end Screen

/-- **Options that differ in what does not concern reading read a text the same**, and report
the same on the way. -/
theorem Options.ReadAlike.parse {o o' : Options} (h : o.ReadAlike o') (source : String) :
    Environment.parse ⟨.standard, o'⟩ source = Environment.parse ⟨.standard, o⟩ source :=
  ((Screen.isClear_between o o').respects h.strict).parse_eq (Screen.isClear_between o o')
    (Screen.between_tokens h) trivial

end MathMarkup
