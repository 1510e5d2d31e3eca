import MathMarkup.Proofs.Node.Move
import MathMarkup.Proofs.Parser.Congruence
import MathMarkup.Proofs.Parser.Lockstep
import MathMarkup.Proofs.Token.Place

/-!
# Reading a text somewhere else

The parser does not look at places.  So a text that is read as the rest of a longer document
comes to what it comes to on its own, with all places moved: the nodes are the same, or the
same error is found, as far to the right as the text stands.

## Main definitions

* `Comparison.moves` — the comparison that moves all places.
* `Lexer.moveTo` — a lexer in front of the same text, at another place.
* `Parser.MovedTo` — a parser with the same text before it as another one, at another place.

## Main results

* `Lexer.next_moveTo` — the next token is moved with the lexer.
* `Parser.lockstep_movedTo` — parsers at different places read in step.
* `Parser.MovedTo.runToEnd` — **a text that is read somewhere else comes to the same.**
-/

namespace MathMarkup

/-! ### Moving all places -/

/-- Nodes are one by one the same as others, moved, exactly if the lists are the same, moved. -/
theorem Node.forall₂_moveTo_iff {d : Document} {k : Nat} {xs ys : List Node} :
    List.Forall₂ (fun n n' => n.moveTo d k = n') xs ys ↔ xs.map (moveTo d k) = ys := by
  rw [← List.forall₂_eq_eq_eq, List.forall₂_map_left_iff]

namespace Comparison

/-- The comparison of a parser with one that reads the same text in another document: nodes and
errors are the same, with their places moved. -/
def moves (o : Options) (old d : Document) (k : Nat) : Comparison where
  left := o
  right := o
  -- places are put together only in one document, so it matters which one they are in
  span a a' := (∀ s ∈ a, s.document = old) ∧ a.map (Span.moveTo d k) = a'
  node n n' := n.moveTo d k = n'
  error e e' := e.moveTo d k = e'
  log _ _ := True
  span_cover := by
    rintro a b _ _ ⟨ha, rfl⟩ ⟨hb, rfl⟩
    exact ⟨Span.document_of_mem_cover ha hb, (Span.cover_moveTo d k ha hb).symm⟩
  node_letter := by
    rintro mode a _ text ⟨-, rfl⟩
    rfl
  node_symbol := by
    rintro mode a _ text ⟨-, rfl⟩
    rfl
  node_group := by
    rintro mode a _ xs ys ⟨-, rfl⟩ hxs
    obtain rfl := Node.forall₂_moveTo_iff.mp hxs
    rw [Node.moveTo, Node.moveList_eq_map]
    rfl
  error_located := by
    rintro a _ reason ⟨-, rfl⟩
    exact (CompileError.located_moveTo d k reason a).symm
  log_nil := trivial
  log_append _ _ := trivial

variable {o : Options} {old d : Document} {k : Nat}

theorem map_eq_of_rel_moves {x y : Option Node} (h : Option.Rel (moves o old d k).node x y) :
    x.map (Node.moveTo d k) = y := by
  cases h with
  | some hnode => exact congrArg some hnode
  | none => rfl

/-- Moving places goes through the constructors, if the policy does not look at places. -/
theorem congruent_moves (hfixed : ∀ answer, o.strict ≠ .rule answer) :
    (moves o old d k).Congruent where
  span_none := ⟨nofun, rfl⟩
  node_fraction := by
    rintro mode a _ x _ y _ ⟨-, rfl⟩ rfl rfl
    rfl
  node_phantom := by
    rintro mode a _ x _ ⟨-, rfl⟩ rfl
    rfl
  node_lap := by
    rintro mode a _ x _ side ⟨-, rfl⟩ rfl
    rfl
  node_text := by
    rintro mode a _ xs ys ⟨-, rfl⟩ hxs
    obtain rfl := Node.forall₂_moveTo_iff.mp hxs
    simp only [moves, Node.moveTo, Node.moveList_eq_map]
    rfl
  node_arrow := by
    rintro mode a _ x _ y _ label ⟨-, rfl⟩ hx hy
    obtain rfl := map_eq_of_rel_moves hx
    obtain rfl := map_eq_of_rel_moves hy
    simp only [moves, Node.moveTo, Node.moveOption_eq_map]
    rfl
  node_arrowPair := by
    rintro mode a _ x _ y _ upper _ lower _ label ⟨-, rfl⟩ hx hy hupper hlower
    obtain rfl := map_eq_of_rel_moves hx
    obtain rfl := map_eq_of_rel_moves hy
    obtain rfl := map_eq_of_rel_moves hupper
    obtain rfl := map_eq_of_rel_moves hlower
    simp only [moves, Node.moveTo, Node.moveOption_eq_map]
    rfl
  node_elements := by
    rintro n _ rfl
    exact Node.forall₂_moveTo_iff.mpr (Node.elements_moveTo d k n).symm
  resolve := Strictness.resolve_eq hfixed
  log _ _ := trivial

/-- Tokens of the old document and the same tokens, moved. -/
theorem tokens_moveTo {t : Token} (h : ∀ s ∈ t.span, s.document = old) :
    (moves o old d k).Tokens t (t.moveTo d k) := ⟨rfl, h, rfl⟩

end Comparison

/-! ### Lexers -/

namespace Lexer

/-- The lexer in front of the same text, in another document and `k` bytes further to the right. -/
def moveTo (d : Document) (k : Nat) (lx : Lexer) : Lexer := ⟨d, lx.rest, lx.position + k⟩

variable (d : Document) (k : Nat)

theorem advance_moveTo (lx : Lexer) (x : Lexeme) :
    (lx.moveTo d k).advance x = (lx.advance x).moveTo d k := by
  simp only [advance, moveTo, Lexer.mk.injEq, true_and]
  omega

theorem spanOf_moveTo (lx : Lexer) (x : Lexeme) :
    (lx.moveTo d k).spanOf x = (lx.spanOf x).moveTo d k := by
  simp only [spanOf, moveTo, Span.moveTo, Span.mk.injEq, true_and]
  omega

/-- The next token is moved with the lexer, or the error is.  What is reported is the same, as the
lexer reports no places. -/
theorem next_moveTo (o : Options) (lx : Lexer) :
    (lx.moveTo d k).next o =
      (((lx.next o).1.map (Token.moveTo d k)).mapError (CompileError.moveTo d k),
        (lx.next o).2.1.moveTo d k, (lx.next o).2.2) := by
  have hrest : ∀ lx : Lexer, (lx.moveTo d k).rest = lx.rest := fun _ => rfl
  -- the two lexers have the same text before them, so the same lexeme decides in each case
  fun_induction Lexer.next o lx with
  | case1 lx x hk =>
    rw [next_eq, hrest, hk]
    rfl
  | case2 lx x hk | case3 lx x hk =>
    rw [next_eq, hrest, hk]
    simp only [spanOf_moveTo, advance_moveTo]
    rfl
  | case4 lx x hk =>
    rw [next_eq, hrest, hk]
    simp only [spanOf_moveTo, Except.map, Except.mapError, ← CompileError.located_moveTo]
    rfl
  | case5 lx x hk ih =>
    rw [next_eq, hrest, hk]
    simp only [advance_moveTo]
    exact ih
  | case6 lx x hk u log hr =>
    rw [next_eq, hrest, hk]
    simp only [hr, advance_moveTo]
    rfl
  | case7 lx x hk e log hr =>
    -- a comment that is cut off has no place that could move
    have hplace := place_of_report_openComment (congrArg Prod.fst hr)
    have hmoved : e.moveTo d k = e := by
      obtain ⟨reason, place⟩ := e
      obtain rfl : place = none := hplace
      rfl
    rw [next_eq, hrest, hk]
    simp only [hr, advance_moveTo, Except.map, Except.mapError, hmoved, x]

theorem document_of_mem_span {o : Options} {lx : Lexer} {t : Token}
    (h : (lx.next o).1 = .ok t) : ∀ s ∈ t.span, s.document = lx.document := by
  fun_induction Lexer.next o lx with
  | case1 lx x hk | case2 lx x hk | case3 lx x hk | case6 lx x hk u log hr =>
    cases h
    intro s hs
    cases hs
    rfl
  | case4 | case7 => cases h
  | case5 lx x hk ih => exact ih h

end Lexer

/-! ### Parsers -/

/-- Without macros, what comes out of a feed is the next token of the text, or its error. -/
theorem Feed.pull_eq_next {o : Options} {f : Feed} (hmacros : o.macros = [])
    (hpending : f.pending = []) :
    f.pull o = ((f.lexer.next o).1,
      { f with lexer := (f.lexer.next o).2.1 }.report (f.lexer.next o).2.2) := by
  have htake : f.take o = ((f.lexer.next o).1,
      { f with lexer := (f.lexer.next o).2.1 }.report (f.lexer.next o).2.2) := by
    rw [take, hpending]
  rcases hnext : (f.lexer.next o).1 with e | t
  · rw [hnext] at htake
    exact pull_of_take_error htake
  · rw [hnext] at htake
    exact pull_of_lookup_none htake (by rw [hmacros]; rfl)

namespace Parser

/-- Without macros, what comes into view is the next token of the text, or its error. -/
theorem fetch_eq_next {env : Environment} {p : Parser} (hmacros : env.options.macros = [])
    (hview : p.lookahead = none) (hpending : p.feed.pending = []) :
    p.fetch env = ((p.feed.lexer.next env.options).1,
      { p with
        lookahead := (p.feed.lexer.next env.options).1.toOption
        feed := { p.feed with lexer := (p.feed.lexer.next env.options).2.1 }.report
          (p.feed.lexer.next env.options).2.2 }) := by
  rw [fetch, hview, Feed.pull_eq_next hmacros hpending]
  rcases hnext : (p.feed.lexer.next env.options).1 with e | t
  · simp only [Except.toOption, ← hview]
  · rfl

/-- Whether a parser has the same before it as another one, in another document and further to
the right. -/
structure MovedTo (o : Options) (old d : Document) (k : Nat) (p q : Parser) : Prop where
  /-- The same token is in view, moved. -/
  lookahead : Option.Rel (Comparison.moves o old d k).Tokens p.lookahead q.lookahead
  /-- No macro has put tokens in front. -/
  pending : p.feed.pending = [] ∧ q.feed.pending = []
  /-- The first parser reads the old document. -/
  document : p.feed.lexer.document = old
  /-- The second one has the same text before it. -/
  lexer : q.feed.lexer = p.feed.lexer.moveTo d k

variable {o : Options} {old d : Document} {k : Nat} {p q : Parser}

/-- The same comes into view in both parsers, moved; and if one of them fails, so does the other, at
the place that is moved. -/
theorem MovedTo.fetch (hmacros : o.macros = []) (h : MovedTo o old d k p q) :
    (Comparison.moves o old d k).Runs (MovedTo o old d k) (Comparison.moves o old d k).Tokens
      (p.fetch ⟨.standard, o⟩) (q.fetch ⟨.standard, o⟩) := by
  obtain ⟨mode, view, feed⟩ := p
  obtain ⟨mode', view', feed'⟩ := q
  have hview : Option.Rel (Comparison.moves o old d k).Tokens view view' := h.lookahead
  -- a token in view is there already; otherwise both lexers read one
  cases hview with
  | some ht => exact .ok ht h
  | none =>
    obtain ⟨-, ⟨hpending, hpending'⟩, hdocument, hlexer⟩ := h
    have hnext := Lexer.next_moveTo d k o feed.lexer
    have hspan := @Lexer.document_of_mem_span o feed.lexer
    have hdocument' := (Lexer.document_next o feed.lexer).trans hdocument
    rw [fetch_eq_next hmacros rfl hpending, fetch_eq_next hmacros rfl hpending', hlexer, hnext]
    rcases htoken : (feed.lexer.next o).1 with e | t
    · exact .error rfl
    · have ht : (Comparison.moves o old d k).Tokens t (t.moveTo d k) :=
        Comparison.tokens_moveTo (hdocument ▸ hspan htoken)
      exact .ok ht ⟨.some ht, ⟨hpending, hpending'⟩, hdocument', rfl⟩

/-- Parsers at different places read in step: neither using up a token nor a report moves them. -/
theorem lockstep_movedTo (hmacros : o.macros = []) :
    (Comparison.moves o old d k).Lockstep .standard (MovedTo o old d k) where
  fetch h := h.fetch hmacros
  consume h := ⟨.none, h.pending, h.document, h.lexer⟩
  report _ _ h := ⟨h.lookahead, h.pending, h.document, h.lexer⟩

/-- **A text that is read somewhere else, behind some nodes, comes to the same**, with its
places moved and the nodes in front. -/
theorem MovedTo.runToEnd (hmacros : o.macros = []) (hfixed : ∀ answer, o.strict ≠ .rule answer)
    (h : MovedTo o old d k p q) (front : List Node) :
    (q.runToEnd ⟨.standard, o⟩ (.expression .math none front.reverse id)).1 =
      ((p.runToEnd ⟨.standard, o⟩ (.expression .math none [] id)).1.map
        fun nodes => front ++ nodes.map (Node.moveTo d k)).mapError (CompileError.moveTo d k) := by
  have hstacks : (Comparison.moves o old d k).Stacks
      (fun nodes nodes' => front ++ nodes.map (Node.moveTo d k) = nodes')
      (.expression .math none [] id) (.expression .math none front.reverse id) := by
    -- the second run starts with the nodes of `front`, which come first in what it makes
    refine .expression fun hnodes => ?_
    rw [← Node.forall₂_moveTo_iff.mp hnodes, List.reverse_reverse]
    rfl
  have hruns := (lockstep_movedTo hmacros).runToEnd
    (Comparison.congruent_moves hfixed).respectsAll hstacks h
  have hleft : (Comparison.moves o old d k).left = o := rfl
  have hright : (Comparison.moves o old d k).right = o := rfl
  rw [hleft, hright] at hruns
  rcases hp : p.runToEnd ⟨.standard, o⟩ (.expression .math none [] id) with ⟨e | nodes, p₁⟩
  · rw [hp] at hruns
    obtain ⟨e', q₁, hq, rfl⟩ := hruns.exists_error
    rw [hq]
    rfl
  · rw [hp] at hruns
    obtain ⟨nodes', q₁, hq, rfl, -⟩ := hruns.exists_ok
    rw [hq]
    rfl

end Parser

end MathMarkup
