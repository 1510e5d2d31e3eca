import MathMarkup.Proofs.Layout.Places
import MathMarkup.Proofs.Layout.Rules
import MathMarkup.Proofs.Parser.Substitution
import MathMarkup.Proofs.Parser.Translation
import MathMarkup.Proofs.Token.Braces

/-!
# Braces around a text

A text in braces is read as one group, which has the nodes of the text in it: the closing brace
ends what is read between the braces just as the end of the text does.  A group of one node is
laid out as this node, and any other group as a row.  A whole formula is put into a row unless it
is one already.  So the braces do not show in the tree, and neither do more of them.

## Main definitions

* `enclosed` — a text with pairs of braces around it.
* `Environment.Enclosable` — a text has a tree and can be put in braces.

## Main results

* `Parser.supplies_iff_list` — without macros, the parser is supplied with the tokens of the text.
* `Reads.append_brace` — what is read up to the end is read up to a closing brace.
* `Environment.parse_enclosed` — a text in braces is read as one group.
* `Environment.Enclosable.braces` — one pair of braces does not show.
* `Environment.tree_enclosed` — **braces around a text do not show in its tree.**
-/

namespace MathMarkup

/-- A text with pairs of braces around it, as many as given. -/
def enclosed : Nat → String → String
  | 0, source => source
  | n + 1, source => "\x7b" ++ enclosed n source ++ "\x7d"

/-! ### Tokens -/

/-- Without macros, the parser is supplied with the tokens of the text, and with its end marker if
the text can be read up to there. -/
theorem Parser.supplies_iff_list {env : Environment} (hmacros : env.options.macros = [])
    {p : Parser} (hview : p.lookahead = none) (hpending : p.feed.pending = []) {lx : Lexer}
    (hlexer : p.feed.lexer = lx) {ts : List Token} {last : Token} :
    p.Supplies env ts last ↔
      (lx.list env.options).tokens = ts ∧ (lx.list env.options).ending = .ok last := by
  -- the recursion of the listing; a parser with nothing in view makes the same step
  fun_induction Lexer.list env.options lx generalizing p ts with
  | case1 lx e lx' log hnext =>
    have hfetch := fetch_eq_next hmacros hview hpending
    rw [hlexer, hnext] at hfetch
    cases ts <;> simp [Supplies, hfetch]
  | case2 lx t lx' log hnext hend =>
    have hfetch := fetch_eq_next hmacros hview hpending
    rw [hlexer, hnext] at hfetch
    cases ts with
    | nil =>
      simp only [Supplies, hfetch, Except.ok.injEq, true_and]
      exact ⟨And.left, fun heq => ⟨heq, heq ▸ hend⟩⟩
    | cons u us =>
      simp only [Supplies, hfetch, Except.ok.injEq, reduceCtorEq, false_and, iff_false]
      rintro ⟨rfl, hend', -⟩
      rw [hend] at hend'
      cases hend'
  | case3 lx t lx' log hnext hend ih =>
    have hfetch := fetch_eq_next hmacros hview hpending
    rw [hlexer, hnext] at hfetch
    cases ts with
    | nil =>
      simp only [Supplies, hfetch, Except.ok.injEq, Lexer.Listing.cons, reduceCtorEq, false_and,
        iff_false]
      rintro ⟨rfl, hend'⟩
      exact hend hend'
    | cons u us =>
      have hrest := @ih (p.fetch env).2.consume rfl (by rw [hfetch]; exact hpending)
        (by rw [hfetch]; rfl) us
      simp only [Supplies, hrest]
      simp only [hfetch, Except.ok.injEq, Lexer.Listing.cons, List.cons.injEq]
      constructor
      · rintro ⟨rfl, -, htokens, hlast⟩
        exact ⟨⟨rfl, htokens⟩, hlast⟩
      · rintro ⟨⟨rfl, htokens⟩, hlast⟩
        exact ⟨rfl, by simpa using hend, htokens, hlast⟩

/-! ### Derivations -/

/-- Where an expression ends at the end of the tokens, it also ends at a closing brace. -/
theorem EndsAt.append_brace {mode : Mode} {stop : Option String} {ts : List Token}
    (h : EndsAt mode stop ts) {u : Token} (hclose : u.text = "\x7d") (behind : List Token) :
    EndsAt mode stop (ts ++ u :: behind) := by
  cases ts with
  | nil => exact endsAt_brace hclose behind
  | cons t ts =>
    intro v hv
    exact h v hv

/-- **What is read with some tokens left is read the same with a closing brace and more behind
them.**  A closing brace is never part of what is open outside it. -/
theorem Reads.append_brace {env : Environment} {x : Piece} {ts rest : List Token}
    (h : Reads env x ts rest) {u : Token} (hclose : u.text = "\x7d") (behind : List Token) :
    Reads env x (ts ++ u :: behind) (rest ++ u :: behind) := by
  -- only where the tokens run out there is something to show: a closing brace then comes into view,
  -- which ends an expression as the end marker does
  induction h with
  | finish hend => exact .finish (hend.append_brace hclose behind)
  | blank hblank _ ih => exact .blank hblank ih
  | next hblank hopen _ _ ihatom ihbody => exact .next hblank hopen ihatom ihbody
  | group hopen _ hclose' ih => exact .group hopen ih hclose'
  | character hbrace hcontrol hchar => exact .character hbrace hcontrol hchar
  | command hbrace hcontrol hcall _ _ ihargs ihreply =>
    exact .command hbrace hcontrol hcall ihargs ihreply
  | complete hcomplete => exact .complete hcomplete
  | space hlacks hspace _ ih => exact .space hlacks hspace ih
  | bracket hwants hopen _ hclose' _ ihbody ihargs =>
    exact .bracket hwants hopen ihbody hclose' ihargs
  | @omitted c c' ts rest hwants hnext _ ih =>
    -- the closing brace may come into view here, and it opens no argument
    refine .omitted hwants ?_ ih
    intro t ht
    cases ts with
    | nil =>
      cases ht
      simp [hclose]
    | cons t' ts => exact hnext t ht
  | brace hlacks hwants hopen _ hclose' _ ihbody ihargs =>
    exact .brace hlacks hwants hopen ihbody hclose' ihargs
  | bare hlacks hwants hend hnext _ _ ihatom ihargs =>
    exact .bare hlacks hwants hend hnext ihatom ihargs
  | node hreply => exact .node hreply
  | scope hreply _ ih => exact .scope hreply ih

/-- Tokens with the same texts are read to the same nodes, places apart. -/
theorem Reads.of_texts {o : Options} (hfixed : ∀ answer, o.strict ≠ .rule answer)
    {mode : Mode} {stop : Option String} {nodes : List Node} {ts ts' : List Token}
    (h : Reads ⟨.standard, o⟩ (.body mode stop nodes) ts []) (htexts : texts ts = texts ts') :
    ∃ nodes', Reads ⟨.standard, o⟩ (.body mode stop nodes') ts' [] ∧
      nodes.map Node.erase = nodes'.map Node.erase := by
  have hrespects : (Comparison.places o o).RespectsAll .standard :=
    (Comparison.congruent_places (Strictness.resolve_eq hfixed)).respectsAll
  have hstart : (Comparison.places o o).Stacks (List.Forall₂ (Comparison.places o o).node)
      (.expression mode stop [] id) (.expression mode stop [] id) := .expression id
  have hspan : (Comparison.places o o).span none none := trivial
  have hreadings : (Comparison.places o o).Readings (List.Forall₂ (Comparison.places o o).node)
      ((Stack.expression mode stop [] id).readList ⟨.standard, o⟩ none ts)
      ((Stack.expression mode stop [] id).readList ⟨.standard, o⟩ none ts') :=
    hstart.readList hrespects (Comparison.forall₂_tokens_iff.mpr htexts) hspan
  rw [readList_expression_iff.mpr h] at hreadings
  generalize hreading : (Stack.expression mode stop [] id).readList ⟨.standard, o⟩ none ts' =
    reading at hreadings
  cases hreadings with
  | ok hvalue hrest =>
    cases hrest
    exact ⟨_, readList_expression_iff.mp hreading, Comparison.forall₂_places_iff.mp hvalue⟩

/-! ### Whole texts -/

namespace Environment

variable {o : Options} {source : String} {nodes : List Node}

/-- A text that is read falls into lexemes up to its end, if the end does not cut off a comment. -/
theorem exists_cuts_of_parse (hmacros : o.macros = [])
    (hparse : (parse ⟨.standard, o⟩ source).1 = .ok nodes)
    (hclosed : Lexeme.endsInComment source.toList = false) :
    ∃ xs, Lexeme.Cuts source.toList xs .atEnd := by
  obtain ⟨ts, last, hsupplies⟩ := supplies_of_parse hparse
  obtain ⟨-, hending⟩ := (Parser.supplies_iff_list hmacros rfl rfl rfl).mp hsupplies
  obtain ⟨xs, final, hcuts⟩ := Lexeme.exists_cuts source.toList
  -- the end marker has come into view, so that nothing cut the lexemes off before
  obtain rfl := Lexer.eq_atEnd_of_ending hending hclosed hcuts
  exact ⟨xs, hcuts⟩

/-- **A text in braces is read as one group**, with the nodes of the text in it up to their places.
The first brace must not be followed by a mark, which would belong to it. -/
theorem parse_enclosed (hmacros : o.macros = []) (hfixed : ∀ answer, o.strict ≠ .rule answer)
    (hparse : (parse ⟨.standard, o⟩ source).1 = .ok nodes) {xs : List Lexeme}
    (hcuts : Lexeme.Cuts source.toList xs .atEnd) (hmark : Stops isCombiningMark source.toList) :
    ∃ site nodes', (parse ⟨.standard, o⟩ ("\x7b" ++ source ++ "\x7d")).1 =
        .ok [.group site nodes'] ∧
      nodes.map Node.erase = nodes'.map Node.erase := by
  obtain ⟨ts, last, hsupplies, hreads⟩ := reads_of_parse hparse
  obtain ⟨htokens, -⟩ := (Parser.supplies_iff_list hmacros rfl rfl rfl).mp hsupplies
  -- the tokens are those of the text, and the braces
  have htexts := Lexer.texts_list_enclosed hcuts hmark o
  obtain ⟨t, us, u, hwhole, hopen, hus, hclose⟩ := exists_of_texts_enclosed htexts
  have hsame : texts ts = texts us := by
    rw [hus, ← htokens]
    rfl
  -- up to the closing brace they are read as the text is read
  obtain ⟨nodes', hinner, herase⟩ := hreads.of_texts hfixed hsame
  have hgroup := Reads.group hopen (hinner.append_brace hclose []) hclose
  have hblank : Stack.isIgnored .math t = false := by simp [Stack.isIgnored, hopen]
  have hcloses : Stack.closes none t = false :=
    Stack.closes_eq_false (by simp [Token.isEnd, Token.endText, hopen]) (by simp [hopen])
      (Option.some_ne_none _).symm
  have hbody := Reads.next hblank hcloses hgroup (.finish (endsAt_nil _ _))
  obtain ⟨final, hending⟩ := @Lexer.exists_ending_of_cuts (.ofDocument ⟨_, 0⟩) _
    (hcuts.enclosed hmark) o
  have hsupplies' : (Parser.ofText ("\x7b" ++ source ++ "\x7d")).Supplies ⟨.standard, o⟩
      (t :: (us ++ [u])) final :=
    (Parser.supplies_iff_list hmacros rfl rfl rfl).mpr ⟨hwhole, hending⟩
  exact ⟨_, nodes', (parse_eq_ok_iff_reads hsupplies').mpr hbody, herase⟩

end Environment

/-! ### Trees -/

/-- One group is put into a row as its nodes are: a row of one row is that row, and a row of one
element is that element. -/
theorem Layout.body_row (ms : List Markup) : body [.row ms] = body ms := by
  match ms with
  | [] => rfl
  | [m] => rfl
  | m :: m' :: ms => rfl

/-- A formula that is one group has the tree of its nodes, if it has no note. -/
theorem Registry.formulaMarkup_group {o : Options} (hannotate : o.annotate = false)
    (source source' : String) (site : Site) (nodes : List Node) :
    Registry.standard.formulaMarkup o source [.group site nodes] =
      Registry.standard.formulaMarkup o source' nodes := by
  unfold formulaMarkup
  rw [Node.toMarkupList, Node.toMarkup, Layout.checkLayout_bind, hannotate]
  -- the nodes have the same trees in both, or the same one has none
  cases Node.toMarkupList .standard (if o.displayMode then displayLevel else textLevel) nodes with
  | error e => rfl
  | ok ms =>
    have hbody := congrArg (Layout.formula o.displayMode o.xml) (Layout.body_row ms)
    exact congrArg Except.ok hbody

namespace Environment

/-- Whether a text has a tree and can be put in braces: the braces stay apart from what is at its
start and at its end. -/
structure Enclosable (o : Options) (m : Markup) (source : String) : Prop where
  /-- It is read. -/
  parsed : ∃ nodes, (parse ⟨.standard, o⟩ source).1 = .ok nodes
  /-- It has the tree. -/
  tree_eq : (tree ⟨.standard, o⟩ source).1 = .ok m
  /-- It does not start with a mark. -/
  stops : Stops isCombiningMark source.toList
  /-- It falls into lexemes up to its end. -/
  cuts : ∃ xs, Lexeme.Cuts source.toList xs .atEnd

variable {o : Options} {source : String} {m : Markup}

/-- A text in braces has the same tree, and can be put in braces again. -/
theorem Enclosable.braces (hmacros : o.macros = []) (hannotate : o.annotate = false)
    (hfixed : ∀ answer, o.strict ≠ .rule answer) (h : Enclosable o m source) :
    Enclosable o m ("\x7b" ++ source ++ "\x7d") := by
  obtain ⟨nodes, hparse⟩ := h.parsed
  obtain ⟨xs, hcuts⟩ := h.cuts
  obtain ⟨site, nodes', hgroup, herase⟩ := parse_enclosed hmacros hfixed hparse hcuts h.stops
  have htree := h.tree_eq
  rw [tree_of_parse hparse] at htree
  refine ⟨⟨_, hgroup⟩, ?_, ?_, _, hcuts.enclosed h.stops⟩
  · -- the group has the tree of its nodes, which differ from those of the text in their places only
    rw [tree_of_parse hgroup, Registry.formulaMarkup_group hannotate _ source]
    exact Registry.formulaMarkup_of_erase herase htree
  · rw [toList_braces]
    exact Stops.cons_iff.mpr (by decide)

/-- **Braces around a text do not show in its tree**, however many pairs there are.  The text has
to be read, and it may neither start with a mark nor end in a comment that is cut off. -/
theorem tree_enclosed (o : Options) (hmacros : o.macros = []) (hannotate : o.annotate = false)
    (hfixed : ∀ answer, o.strict ≠ .rule answer) (source : String) (nodes : List Node)
    (hparse : (parse ⟨.standard, o⟩ source).1 = .ok nodes)
    (hmark : ∀ c ∈ source.toList.head?, isCombiningMark c = false)
    (hclosed : Lexeme.endsInComment source.toList = false) :
    ∃ m, (tree ⟨.standard, o⟩ source).1 = .ok m ∧
      ∀ n, (tree ⟨.standard, o⟩ (enclosed n source)).1 = .ok m := by
  obtain ⟨m, hm⟩ := exists_tree_of_parse hparse
  have henclosable : ∀ n, Enclosable o m (enclosed n source) := by
    intro n
    induction n with
    | zero => exact ⟨⟨nodes, hparse⟩, hm, hmark, exists_cuts_of_parse hmacros hparse hclosed⟩
    | succ n ih => exact ih.braces hmacros hannotate hfixed
  exact ⟨m, hm, fun n => (henclosable n).tree_eq⟩

/-- Two letters with a comment behind them, in two pairs of braces. -/
theorem tree_enclosed_comment :
    enclosed 2 "xy%\n" = "\x7b\x7bxy%\n\x7d\x7d" ∧
    ∃ m, (tree ⟨.standard, {}⟩ "xy%\n").1 = .ok m ∧
      (tree ⟨.standard, {}⟩ "\x7b\x7bxy%\n\x7d\x7d").1 = .ok m := by
  let token := Token.ofPlace "xy%\n"
  have hdrain : ((Parser.ofText "xy%\n").drain ⟨.standard, {}⟩).toOption =
      some [token "x" 0 1, token "y" 1 2] := by
    decide +kernel
  have hreads : Reads ⟨.standard, {}⟩
      (.body .math none [(token "x" 0 1).node .math, (token "y" 1 2).node .math])
      [token "x" 0 1, token "y" 1 2] [] :=
    .next (by decide) (by decide) (.character (by decide) (by decide +kernel) (by decide))
      (.next (by decide) (by decide) (.character (by decide) (by decide +kernel) (by decide))
        (.finish (endsAt_nil _ _)))
  have hmark : ∀ c ∈ "xy%\n".toList.head?, isCombiningMark c = false := by
    intro c hc
    cases hc
    decide
  obtain ⟨m, hm, henclosed⟩ := tree_enclosed {} rfl rfl nofun "xy%\n" _
    (parse_of_drain hdrain hreads) hmark (by decide +kernel)
  exact ⟨by decide, m, hm, henclosed 2⟩

end Environment

end MathMarkup
