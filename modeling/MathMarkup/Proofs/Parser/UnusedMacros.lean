import MathMarkup.Proofs.Parser.Screen
import MathMarkup.Proofs.Token.Coverage

/-!
# Macros that do not occur in a text

A macro replaces the tokens that have its name.  A table of macros of which none occurs in a
text should therefore make no difference to the text.  It makes none if the table has no entry
for the end marker either.  The marker is no token of the text, but it has a name, and that is
looked up like any other.  Where the table has an entry for it the end of the text never comes
into view, and no text at all is read.

## Main definitions

* `Options.withMacros` — options with another table of macros.
* `Feed.Avoids`, `Parser.Avoids` — none of some macros occurs in what is still to be read.

## Main results

* `Feed.Avoids.pull` — macros that do not occur make no difference to the next token.
* `Parser.Supplies.lookup_endText` — the end marker comes into view only if it is no macro.
* `Environment.parse_unused_macros` — **macros that do not occur make no difference to a text,
  unless one of them replaces the end marker.**
-/

namespace MathMarkup

/-- The options with another table of macros. -/
def Options.withMacros (o : Options) (table : MacroTable) : Options := { o with macros := table }

theorem Options.strict_withMacros (o : Options) (table : MacroTable) :
    (o.withMacros table).strict = o.strict := rfl

/-! ### What comes into view -/

variable {o : Options} {table : MacroTable}

namespace Feed

variable {f f' : Feed} {t : Token}

/-- Whether none of some macros occurs in what is still to be read, which is only the rest of the
document. -/
structure Avoids (o : Options) (table : MacroTable) (f : Feed) : Prop where
  /-- Nothing is left of a replacement. -/
  pending : f.pending = []
  /-- None of the macros occurs in the rest of the document. -/
  lookup : ∀ t ∈ (f.lexer.list o).tokens, table.lookup t.text = none

/-- The table does not concern the document. -/
theorem take_withMacros (o : Options) (table : MacroTable) (f : Feed) :
    f.take (o.withMacros table) = f.take o :=
  take_congr (o.strict_withMacros table) f

/-- Without macros, a token comes as it stands. -/
theorem pull_withMacros_nil (o : Options) (f : Feed) : f.pull (o.withMacros []) = f.take o := by
  have htake := take_withMacros o [] f
  rcases hresult : f.take o with ⟨e | t, f'⟩
  · exact pull_of_take_error (htake.trans hresult)
  · exact pull_of_lookup_none (htake.trans hresult) rfl

/-- A token of the document is none of the macros, and neither is what follows. -/
theorem Avoids.take (h : f.Avoids o table) (htake : f.take o = (.ok t, f'))
    (hend : t.isEnd = false) : table.lookup t.text = none ∧ f'.Avoids o table := by
  obtain ⟨lexer, pending, expansions, log⟩ := f
  obtain ⟨rfl, hlookup⟩ := h
  rcases hnext : lexer.next o with ⟨result, lexer', later⟩
  simp only [Feed.take, hnext] at htake
  cases htake
  simp only [Lexer.list_of_token hnext hend, Lexer.Listing.cons, List.forall_mem_cons] at hlookup
  exact ⟨hlookup.1, rfl, hlookup.2⟩

/-- **Macros that do not occur make no difference to the next token**, if the end marker is none
of them. -/
theorem Avoids.pull (h : f.Avoids o table) (hmarker : table.lookup Token.endText = none) :
    f.pull (o.withMacros table) = f.pull (o.withMacros []) := by
  have htake := take_withMacros o table f
  rw [pull_withMacros_nil]
  rcases hresult : f.take o with ⟨e | t, f'⟩
  · exact pull_of_take_error (htake.trans hresult)
  · refine pull_of_lookup_none (htake.trans hresult) ?_
    -- a token of the text is no macro by assumption on the text, the end marker by the one on the
    -- table
    cases hend : t.isEnd with
    | false => exact (h.take hresult hend).1
    | true =>
      have htext : t.text = Token.endText := by simpa [Token.isEnd] using hend
      exact htext ▸ hmarker

/-- What comes into view is no macro, since macros are replaced until there is none. -/
theorem lookup_of_pull (h : f.pull o = (.ok t, f')) : o.macros.lookup t.text = none := by
  fun_induction Feed.pull o f with
  | case1 | case3 => cases h
  | case2 f t f₁ htake hmacro =>
    cases h
    exact hmacro
  | case4 f t f₁ htake replacement hmacro u f₂ hexpand ih => exact ih h

end Feed

namespace Parser

/-- Whether none of some macros occurs in what is still to be read, until the end is in view. -/
def Avoids (o : Options) (table : MacroTable) (p : Parser) : Prop :=
  p.lookahead.any Token.isEnd = true ∨ p.feed.Avoids o table

/-- It stays so while a run without macros goes on.  Such a run takes its tokens from the document
only, so that what is left is always the rest of the list that was looked through. -/
theorem stable_avoids (registry : Registry) (o : Options) (table : MacroTable) :
    Parser.Stable ⟨registry, o.withMacros []⟩ (Avoids o table) where
  fetch := by
    intro p p' t hp hfetch
    -- until the end is in view, taking a token takes it off the list as well
    cases hend : t.isEnd with
    | true =>
      refine .inl ?_
      rw [lookahead_fetch hfetch]
      exact hend
    | false =>
      obtain ⟨mode, lookahead, feed⟩ := p
      cases lookahead with
      | some u =>
        cases hfetch
        exact hp
      | none =>
        have hfeed : feed.Avoids o table := hp.resolve_left Bool.false_ne_true
        simp only [fetch, Feed.pull_withMacros_nil] at hfetch
        rcases htake : feed.take o with ⟨e | u, feed'⟩
        · rw [htake] at hfetch
          cases hfetch
        · rw [htake] at hfetch
          cases hfetch
          exact .inr (hfeed.take htake hend).2
  consume := by
    intro p t hp hlookahead hend
    rcases hp with hp | hp
    · -- the end marker is never used up, so it does not matter what would follow it
      rw [hlookahead, Option.any_some, hend] at hp
      cases hp
    · exact .inr hp
  report := by
    intro p log hp
    exact hp.imp id fun h => ⟨h.pending, h.lookup⟩

/-- **The end marker comes into view only if it is no macro.**  A macro of that name would be
replaced wherever the end is reached, and the marker itself would never come into view. -/
theorem Supplies.lookup_endText {env : Environment} {p : Parser} {ts : List Token} {last : Token}
    (h : p.Supplies env ts last) (hview : p.lookahead = none) :
    env.options.macros.lookup Token.endText = none := by
  -- the end marker is the last token that comes into view, when it was just fetched
  induction ts generalizing p with
  | nil =>
    obtain ⟨hfetch, hend⟩ := h
    have htext : last.text = Token.endText := by simpa [Token.isEnd] using hend
    obtain ⟨mode, lookahead, feed⟩ := p
    obtain rfl : lookahead = none := hview
    simp only [Parser.fetch] at hfetch
    rcases hpull : feed.pull env.options with ⟨e | t, feed'⟩
    · rw [hpull] at hfetch
      cases hfetch
    · rw [hpull] at hfetch
      cases hfetch
      exact htext ▸ Feed.lookup_of_pull hpull
  | cons t ts ih => exact ih h.2.2 rfl

end Parser

/-! ### Whole texts -/

namespace Screen

/-- A run without macros beside one with macros that do not occur: the tokens that come into view
are the same. -/
theorem between_tokens_of_avoids (hmarker : table.lookup Token.endText = none) :
    (between (o.withMacros []) (o.withMacros table)).Tokens (Parser.Avoids o table) where
  stable := Parser.stable_avoids _ o table
  fetch := by
    intro p hp hlog
    refine .fetch hlog fun hview => ?_
    have hfeed : p.feed.Avoids o table := by
      refine hp.resolve_left ?_
      rw [hview]
      exact Bool.false_ne_true
    have hclear := isClear_between (o.withMacros []) (o.withMacros table)
    rw [hclear.seen]
    exact hclear.follows rfl (hfeed.pull hmarker)

end Screen

namespace Environment

/-- **Macros that do not occur make no difference to a text, unless one of them replaces the end
marker**: with the others a text is read as without macros, and with that one it is not read. -/
theorem parse_unused_macros (o : Options) (table : MacroTable) (source : String)
    (hunused : ∀ t ∈ ((Lexer.ofDocument ⟨source, 0⟩).list o).tokens, table.lookup t.text = none) :
    (table.lookup Token.endText = none →
      parse ⟨.standard, o.withMacros table⟩ source =
        parse ⟨.standard, o.withMacros []⟩ source) ∧
    (table.lookup Token.endText ≠ none →
      ∀ nodes, (parse ⟨.standard, o.withMacros table⟩ source).1 ≠ .ok nodes) := by
  constructor
  · intro hmarker
    have hstart : ((Parser.ofText source).report [.parsing source.utf8ByteSize]).Avoids o table :=
      .inr ⟨rfl, hunused⟩
    have hclear := Screen.isClear_between (o.withMacros []) (o.withMacros table)
    exact (hclear.respects rfl).parse_eq hclear (Screen.between_tokens_of_avoids hmarker) hstart
  · intro hmarker nodes hok
    obtain ⟨ts, last, hsupplies⟩ := supplies_of_parse hok
    -- a text is read up to its end marker, which has come into view
    exact hmarker (hsupplies.lookup_endText rfl)

/-- A macro that occurs in a comment only, and one that replaces the end marker. -/
theorem parse_unused_macros_comment :
    parse ⟨.standard, Options.withMacros {} [("\\m", "x")]⟩ "a%\\m\n" =
        parse ⟨.standard, Options.withMacros {} []⟩ "a%\\m\n" ∧
      ∀ nodes, (parse ⟨.standard, Options.withMacros {} [("EOF", "x")]⟩ "a%\\m\n").1 ≠ .ok nodes :=
  ⟨(parse_unused_macros {} [("\\m", "x")] "a%\\m\n" (by decide +kernel)).1 rfl,
    (parse_unused_macros {} [("EOF", "x")] "a%\\m\n" (by decide +kernel)).2 (by decide)⟩

/-- A letter is read without macros, and not with a macro that replaces the end marker, which is
not a token of the text. -/
theorem parse_end_marker_replaced :
    (∀ t ∈ ((Lexer.ofDocument ⟨"a", 0⟩).list {}).tokens, [("EOF", "x")].lookup t.text = none) ∧
      ∃ nodes, (parse ⟨.standard, Options.withMacros {} []⟩ "a").1 = .ok nodes ∧
        (parse ⟨.standard, Options.withMacros {} [("EOF", "x")]⟩ "a").1 ≠ .ok nodes := by
  let letter := Token.ofPlace "a" "a" 0 1
  have hdrain : ((Parser.ofText "a").drain
      ⟨.standard, Options.withMacros {} []⟩).toOption = some [letter] := by
    decide +kernel
  have hread : Reads ⟨.standard, Options.withMacros {} []⟩
      (.body .math none [letter.node .math]) [letter] [] :=
    .next (by decide) (by decide) (.character (by decide) (by decide +kernel) (by decide))
      (.finish (by simp [EndsAt]))
  refine ⟨by decide +kernel, [letter.node .math], parse_of_drain hdrain hread, ?_⟩
  -- the text would be read, so that its end marker has come into view
  intro hok
  obtain ⟨ts, last, hsupplies⟩ := supplies_of_parse hok
  have hmarker := hsupplies.lookup_endText rfl
  cases hmarker

end Environment

end MathMarkup
