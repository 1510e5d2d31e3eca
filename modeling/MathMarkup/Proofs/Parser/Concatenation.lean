import MathMarkup.Proofs.Parser.Translation
import MathMarkup.Proofs.Parser.Waiting
import MathMarkup.Proofs.Token.Junction

/-!
# Texts one behind the other

Two texts with a space between them are read one after the other.  The tokens of the first text
are read as if nothing followed, up to blanks at its end; nothing but the document is then open,
and blanks mean nothing there.  From there on the second text is read as on its own, with all
places moved.  So the nodes of the whole are those of the two texts, and an error in the second
text is the same error, as far to the right as the second text stands.

## Main definitions

* `Parser.StandsAt` — a parser in front of a given rest of a document.
* `Parser.ComesTo` — a parser that reads blanks and is then in front of that rest.
* `Parser.Precedes` — a parser in front of a text, and one with more text behind it.

## Main results

* `Parser.Precedes.fetch` — the same token comes into view in both, or the end is reached.
* `Parser.Precedes.run` — what a document is read to before the second text starts.
* `Environment.parse_concatenation` — **texts one behind the other are read one by one.**
-/

namespace MathMarkup

namespace Parser

/-! ### In front of a rest -/

/-- The parser in front of the same text, taken for the start of another document. -/
def relocate (p : Parser) (d : Document) : Parser :=
  { p with feed := { p.feed with lexer := p.feed.lexer.moveTo d 0 } }

/-- Whether a parser has nothing in view and is in front of a given rest of a document. -/
structure StandsAt (d : Document) (rest : List Char) (p : Parser) : Prop where
  /-- No token is in view. -/
  lookahead : p.lookahead = none
  /-- No macro has put tokens in front. -/
  pending : p.feed.pending = []
  /-- It reads the document. -/
  document : p.feed.lexer.document = d
  /-- It stands where it says it does. -/
  tracks : p.feed.lexer.Tracks d.text
  /-- The rest comes next. -/
  rest : p.feed.lexer.rest = rest

variable {env : Environment} {d : Document} {rest w : List Char} {p p' q : Parser} {t : Token}

theorem standsAt_ofText (source : String) :
    (ofText source).StandsAt ⟨source, 0⟩ source.toList :=
  ⟨rfl, rfl, rfl, Lexer.tracks_ofDocument ⟨source, 0⟩, rfl⟩

theorem StandsAt.report (h : p.StandsAt d rest) (log : Log) : (p.report log).StandsAt d rest :=
  ⟨h.lookahead, h.pending, h.document, h.tracks, h.rest⟩

/-- Parsers in front of the same rest of two documents, one of which is the end of the other. -/
theorem StandsAt.movedTo {d' : Document} (hp : p.StandsAt d rest) (hq : q.StandsAt d' rest)
    {before : List Char} (h : d'.text.toList = before ++ d.text.toList) (o : Options) :
    MovedTo o d d' (Text.byteLength before) p q := by
  have hview : Option.Rel (Comparison.moves o d d' (Text.byteLength before)).Tokens
      p.lookahead q.lookahead := by
    rw [hp.lookahead, hq.lookahead]
    exact .none
  refine ⟨hview, ⟨hp.pending, hq.pending⟩, hp.document, ?_⟩
  obtain ⟨b, hb, hposition⟩ := hp.tracks
  obtain ⟨b', hb', hposition'⟩ := hq.tracks
  -- what is in front of the rest is `before` and what is in front of it in the end
  have hbefore : b' = before ++ b := by
    rw [hp.rest] at hb
    rw [hq.rest, h, hb, ← List.append_assoc] at hb'
    exact (List.append_cancel_right hb').symm
  have hlexer : q.feed.lexer = ⟨d', rest, q.feed.lexer.position⟩ := by
    rw [← hq.document, ← hq.rest]
  rw [hlexer, Lexer.moveTo, hp.rest, hposition, hposition', hbefore, Text.byteLength_append,
    Nat.add_comm]

/-- Whether a parser is in front of a rest of a document, or comes there by reading blanks that mean
nothing: with only the document open, its runs are those of a parser that stands there. -/
def ComesTo (env : Environment) (d : Document) (rest : List Char) (p : Parser) : Prop :=
  ∃ p' : Parser, p'.StandsAt d rest ∧ ∀ items : List Node,
    p.run env (.expression .math none items id) = p'.run env (.expression .math none items id)

theorem StandsAt.comesTo_self (h : p.StandsAt d rest) : p.ComesTo env d rest :=
  ⟨p, h, fun _ => rfl⟩

theorem comesTo_of_blank (hfetch : p.fetch env = (.ok t, p')) (hblank : t.text = " ")
    (h : p'.consume.StandsAt d rest) : p.ComesTo env d rest := by
  -- the blank is used up, and the document is as it was
  refine ⟨p'.consume.report [], h.report [], fun items => ?_⟩
  have hignored : Stack.isIgnored .math t = true := by simp [Stack.isIgnored, hblank]
  rw [run_eq hfetch, Stack.feed, Stack.feedBody, if_pos hignored]
  rfl

/-- The next token is in view, and when it is used up the parser is behind it. -/
theorem StandsAt.fetch (hmacros : env.options.macros = []) (h : p.StandsAt d rest) {lx : Lexer}
    {log : Log} (hnext : p.feed.lexer.next env.options = (.ok t, lx, log)) :
    ∃ p', p.fetch env = (.ok t, p') ∧ p'.consume.StandsAt d lx.rest := by
  have hdocument := Lexer.document_next env.options p.feed.lexer
  have htracks := h.tracks.next env.options
  have hfetch := fetch_eq_next hmacros h.lookahead h.pending
  rw [hnext] at hdocument htracks hfetch
  exact ⟨_, hfetch, rfl, h.pending, hdocument.trans h.document, htracks, rfl⟩

/-- A parser reads the blanks in front of what is left. -/
theorem StandsAt.comesTo (hmacros : env.options.macros = []) (h : p.StandsAt d rest) :
    p.ComesTo env d (rest.dropWhile isBlank) := by
  cases rest with
  | nil => exact h.comesTo_self
  | cons c cs =>
    -- all blanks in front make one token
    by_cases hblank : isBlank c = true
    · have hread : Lexeme.read p.feed.lexer.rest =
          ⟨.blank, (c :: cs).takeWhile isBlank, [], (c :: cs).dropWhile isBlank⟩ := by
        rw [h.rest, Lexeme.read, if_pos hblank]
      have hnext := Lexer.next_of_blank env.options (congrArg Lexeme.kind hread)
      obtain ⟨p', hfetch, hp'⟩ := h.fetch hmacros hnext
      rw [hread] at hp'
      exact comesTo_of_blank hfetch rfl hp'
    · rw [List.dropWhile_cons_of_neg hblank]
      exact h.comesTo_self

/-- Whether a parser has read everything but the end marker. -/
structure AtEnd (p : Parser) : Prop where
  /-- No token is in view. -/
  lookahead : p.lookahead = none
  /-- No macro has put tokens in front. -/
  pending : p.feed.pending = []
  /-- No text is left. -/
  rest : p.feed.lexer.rest = []

/-- A parser at the end supplies no more tokens, since without macros only the end marker is
left. -/
theorem AtEnd.eq_nil (hmacros : env.options.macros = []) (h : p.AtEnd) {ts : List Token}
    {last : Token} (hsupplies : p.Supplies env ts last) : ts = [] := by
  cases ts with
  | nil => rfl
  | cons u us =>
    obtain ⟨hfetch, hend, -⟩ := hsupplies
    have hkind : (Lexeme.read p.feed.lexer.rest).kind = .finish := by rw [h.rest]; rfl
    rw [fetch_eq_next hmacros h.lookahead h.pending, Lexer.next_of_finish _ hkind] at hfetch
    cases hfetch
    simp [Lexer.finish] at hend

/-! ### With more text behind -/

/-- Whether two parsers have the same before them, except that the second one has a space and
more text behind it.  It may have read the space and the blanks behind it already. -/
structure Precedes (d : Document) (w : List Char) (p q : Parser) : Prop where
  /-- The same token is in view. -/
  lookahead : q.lookahead = p.lookahead
  /-- It is not the end marker. -/
  isEnd_eq_false : ∀ t ∈ p.lookahead, t.isEnd = false
  /-- No macro has put tokens in front. -/
  pending : p.feed.pending = [] ∧ q.feed.pending = []
  /-- The end of the shorter text cuts off no comment. -/
  closed : Lexeme.endsInComment p.feed.lexer.rest = false
  /-- The second parser reads the document. -/
  document : q.feed.lexer.document = d
  /-- It stands where it says it does. -/
  tracks : q.feed.lexer.Tracks d.text
  /-- The same text comes next. -/
  lexer : p.feed.lexer.Extends w q.feed.lexer

namespace Precedes

theorem after {α : Type} (h : Precedes d w p q) (move : Move α) :
    Precedes d w (p.after move) (q.after move) := by
  unfold Parser.after
  split
  · exact ⟨rfl, nofun, h.pending, h.closed, h.document, h.tracks, h.lexer⟩
  · exact ⟨h.lookahead, h.isEnd_eq_false, h.pending, h.closed, h.document, h.tracks, h.lexer⟩

/-- With nothing in view, the second parser is in front of what is left. -/
theorem standsAt (h : Precedes d w p q) (hview : p.lookahead = none) :
    q.StandsAt d q.feed.lexer.rest :=
  ⟨h.lookahead.trans hview, h.pending.2, h.document, h.tracks, rfl⟩

/-- The same token comes into view in both parsers, or the shorter text is at its end, with or
without a last blank, and then the longer one comes to the second text. -/
theorem fetch (hmacros : env.options.macros = []) (h : Precedes d w p q)
    (hfetch : p.fetch env = (.ok t, p')) :
    (t.isEnd = false ∧ ∃ q', q.fetch env = (.ok t, q') ∧ Precedes d w p' q') ∨
      (t.isEnd = true ∨ t.text = " " ∧ p'.consume.AtEnd) ∧
        q.ComesTo env d (w.dropWhile isBlank) := by
  -- a token that is in view is in view in both, and nothing is read
  cases hview : p.lookahead with
  | some u =>
    rw [Parser.fetch, hview] at hfetch
    cases hfetch
    refine .inl ⟨h.isEnd_eq_false t hview, q, ?_, h⟩
    rw [Parser.fetch, h.lookahead, hview]
  | none =>
    have hq := h.standsAt hview
    rw [fetch_eq_next hmacros hview h.pending.1] at hfetch
    obtain ⟨htoken, rfl⟩ := Prod.mk.inj hfetch
    rcases h.lexer with hext | ⟨hnil, hrest⟩
    · have hnext : p.feed.lexer.next env.options = (.ok t, _, _) := Prod.ext htoken rfl
      obtain ⟨hclosed, hcases⟩ := Lexer.next_extend w h.closed hnext
      rw [← hext] at hcases
      -- the next token ends before the space, or it is the end, perhaps behind a last blank
      rcases hcases with ⟨hend, lx, hnext', hlexer⟩ | ⟨hnil, hlast, span, lx, hnext', hrest⟩
      · have hdocument := Lexer.document_next env.options q.feed.lexer
        have htracks := hq.tracks.next env.options
        have hfetch' := fetch_eq_next hmacros hq.lookahead hq.pending
        rw [hnext'] at hdocument htracks hfetch'
        refine .inl ⟨hend, _, hfetch', ?_⟩
        refine ⟨?_, ?_, h.pending, hclosed, hdocument.trans hq.document, htracks, hlexer⟩
        · rw [htoken]
        · intro u hu
          rw [htoken] at hu
          cases hu
          exact hend
      · obtain ⟨q', hfetch', hq'⟩ := hq.fetch hmacros hnext'
        rw [hrest] at hq'
        refine .inr ⟨hlast.imp_right fun hblank => ⟨hblank, rfl, h.pending.1, hnil⟩, ?_⟩
        exact comesTo_of_blank hfetch' rfl hq'
    · -- the first parser is at its end, and the second has read the blanks behind it
      have hkind : (Lexeme.read p.feed.lexer.rest).kind = .finish := by rw [hnil]; rfl
      rw [Lexer.next_of_finish env.options hkind] at htoken
      cases htoken
      rw [hrest] at hq
      exact .inr ⟨.inl (Token.isEnd_finish _), hq.comesTo_self⟩

/-- At the end of the shorter text nothing but the document is open, and the second parser comes
to the text behind. -/
theorem run_of_end (hmacros : env.options.macros = []) (h : Precedes d w p q) {last : Token}
    (hsupplies : p.Supplies env [] last) {s : Stack (List Node)} (hs : s.Waits)
    {nodes : List Node} {span : Option Span} (hread : s.readList env span [] = .ok (nodes, [])) :
    ∃ q' : Parser, q'.StandsAt d (w.dropWhile isBlank) ∧
      q.run env s = q'.run env (.expression .math none nodes.reverse id) := by
  obtain ⟨hfetch, hend⟩ := hsupplies
  rcases h.fetch hmacros (Prod.ext hfetch rfl) with ⟨hnot, -⟩ | ⟨-, q', hq', hrun⟩
  · rw [hend] at hnot
    cases hnot
  · refine ⟨q', hq', ?_⟩
    rw [hs.eq_expression_of_end hread]
    exact hrun _

/-- **Before the second text starts, a document is read to the nodes of the first one**, and then
the parser stands in front of the second text with these nodes read. -/
theorem run (hmacros : env.options.macros = []) (henv : env.registry = .standard)
    (h : Precedes d w p q) {ts : List Token} {last : Token} (hsupplies : p.Supplies env ts last)
    {s : Stack (List Node)} (hs : s.Waits) {nodes : List Node}
    (hread : s.readList env last.span ts = .ok (nodes, [])) :
    ∃ q' : Parser, q'.StandsAt d (w.dropWhile isBlank) ∧
      q.run env s = q'.run env (.expression .math none nodes.reverse id) := by
  -- the recursion of the run on the tokens of the first text; the second parser is in step
  -- until there are no more of them
  fun_induction Stack.readList env last.span ts s generalizing p q with
  | case1 ts s s' hmove ih =>
    cases ts with
    | nil =>
      have hnil : s.readList env last.span [] = .ok (nodes, []) := by
        rw [Stack.readList_eq, Move.follow, hmove]
        exact hread
      exact h.run_of_end hmacros hsupplies hs hnil
    | cons t ts =>
      rw [List.headD_cons] at hmove hread
      have hfetch : p.fetch env = (.ok t, (p.fetch env).2) := Prod.ext hsupplies.1 rfl
      have hend : ¬ t.isEnd = true := by simp [hsupplies.2.1]
      rcases h.fetch hmacros hfetch with ⟨-, q₁, hq₁, hprecedes⟩ | ⟨hlast, q', hq', hrun⟩
      · rw [run_eq hq₁, hmove]
        exact ih (hprecedes.after _) (hsupplies.after hfetch s) (hs.of_read henv hmove) hread
      · -- a last blank of the first text, which leaves the stack as it was
        obtain ⟨hblank, hat⟩ := hlast.resolve_left hend
        obtain rfl : ts = [] := hat.eq_nil hmacros hsupplies.2.2
        obtain ⟨s₁, hfeed, hsame⟩ := hs.feed_blank hblank
        rw [hfeed] at hmove hread
        cases hmove
        have hexpression := (hs.of_read henv (by rw [hfeed]; rfl)).eq_expression_of_end hread
        refine ⟨q', hq', ?_⟩
        rw [hsame _ hexpression, hexpression]
        exact hrun _
  | case2 ts s a hdone =>
    cases ts with
    | nil =>
      have hnil : s.readList env last.span [] = .ok (nodes, []) := by
        rw [Stack.readList_eq, Move.follow, hdone]
        exact hread
      exact h.run_of_end hmacros hsupplies hs hnil
    | cons t ts =>
      -- a token that ends the document is left over
      rw [List.headD_cons] at hdone hread
      rcases hs.feed henv t with hwaits | ⟨htaken, -⟩
      · rw [hdone] at hwaits
        exact hwaits.elim
      · simp [Move.leaves, htaken] at hread
  | case3 => cases hread

end Precedes

end Parser

/-! ### Whole texts -/

namespace Environment

variable {o : Options} {first second : String} {nodes : List Node}

/-- The parser with which a text is read. -/
def reader (source : String) : Parser :=
  (Parser.ofText source).report [.parsing source.utf8ByteSize]

theorem parse_eq_runToEnd (env : Environment) (source : String) :
    (env.parse source).1 =
      ((reader source).runToEnd env (.expression .math none [] id)).1 := by
  rw [parse, ← reader, Parser.document_eq_runToEnd]
  rfl

theorem standsAt_reader (source : String) :
    (reader source).StandsAt ⟨source, 0⟩ source.toList :=
  (Parser.standsAt_ofText source).report _

theorem movedTo_relocate (source : String) (d : Document) (o : Options) :
    Parser.MovedTo o ⟨source, 0⟩ d 0 (reader source) ((reader source).relocate d) :=
  ⟨.none, ⟨rfl, rfl⟩, rfl, rfl⟩

/-- A text that is read has the same tokens at the start of another document, and these are read
to the same nodes. -/
theorem supplies_relocate (hmacros : o.macros = []) (hfixed : ∀ answer, o.strict ≠ .rule answer)
    (h : (parse ⟨.standard, o⟩ first).1 = .ok nodes) (d : Document) :
    ∃ ts last, ((reader first).relocate d).Supplies ⟨.standard, o⟩ ts last ∧
      (Stack.expression .math none [] id).readList ⟨.standard, o⟩ last.span ts =
        .ok (nodes.map (Node.moveTo d 0), []) := by
  have hdocument : (((reader first).relocate d).document ⟨.standard, o⟩).1 =
      .ok (nodes.map (Node.moveTo d 0)) := by
    -- at the start of another document the same is read, with the places moved by nothing
    rw [parse_eq_runToEnd] at h
    have hmoved := (movedTo_relocate first d o).runToEnd hmacros hfixed []
    rw [h] at hmoved
    rw [Parser.document_eq_runToEnd]
    exact hmoved
  obtain ⟨ts, last, hsupplies⟩ := Parser.supplies_of_document hdocument
  refine ⟨ts, last, hsupplies, ?_⟩
  rw [Parser.document_eq_of_supplies hsupplies] at hdocument
  exact Parser.closeDocument_eq_ok_iff.mp hdocument

/-- Behind a text that is read, another one comes to what it comes to on its own, with its places
moved and the nodes of the first one in front. -/
theorem parse_append_space (hmacros : o.macros = [])
    (hfixed : ∀ answer, o.strict ≠ .rule answer)
    (hfirst : (parse ⟨.standard, o⟩ first).1 = .ok nodes)
    (hclosed : Lexeme.endsInComment first.toList = false) {d : Document}
    (hd : d = ⟨first ++ " " ++ second, 0⟩) :
    (parse ⟨.standard, o⟩ d.text).1 =
      ((parse ⟨.standard, o⟩ second).1.map fun more =>
        nodes.map (Node.moveTo d 0) ++ more.map (Node.moveTo d (first.utf8ByteSize + 1))).mapError
          (CompileError.moveTo d (first.utf8ByteSize + 1)) := by
  have htext : d.text.toList = first.toList ++ ' ' :: second.toList := by simp [hd]
  -- up to the space, the whole is read as the first text at the start of the same document
  obtain ⟨ts, last, hsupplies, hread⟩ := supplies_relocate hmacros hfixed hfirst d
  have hprecedes : Parser.Precedes d second.toList ((reader first).relocate d) (reader d.text) := by
    have hserial : d = ⟨d.text, 0⟩ := by rw [hd]
    have hq := standsAt_reader d.text
    rw [← hserial] at hq
    have hlexer : (reader d.text).feed.lexer = ⟨⟨d.text, 0⟩, d.text.toList, 0⟩ := rfl
    refine ⟨rfl, nofun, ⟨rfl, rfl⟩, hclosed, hq.document, hq.tracks, .inl ?_⟩
    rw [hlexer, ← hserial, htext]
    rfl
  have hwaits : (Stack.expression .math none [] id).Waits := ⟨rfl, rfl, rfl⟩
  obtain ⟨q, hq, hrun⟩ := hprecedes.run hmacros rfl hsupplies hwaits hread
  -- behind the space, it is read as the second text, further to the right
  have hsecond : (reader second).ComesTo ⟨.standard, o⟩ ⟨second, 0⟩
      (second.toList.dropWhile isBlank) := (standsAt_reader second).comesTo hmacros
  obtain ⟨p, hp, hrun'⟩ := hsecond
  have hmoved : Parser.MovedTo o ⟨second, 0⟩ d (first.utf8ByteSize + 1) p q := by
    have hbefore : d.text.toList = (first.toList ++ [' ']) ++ second.toList := by simp [htext]
    have hlength : Text.byteLength (first.toList ++ [' ']) = first.utf8ByteSize + 1 := by
      rw [Text.byteLength_append, Text.utf8ByteSize_eq]
      rfl
    rw [← hlength]
    exact hp.movedTo hq hbefore o
  -- both runs are now in front of the second text, one with nodes of the first
  rw [parse_eq_runToEnd, parse_eq_runToEnd, Parser.runToEnd, hrun, Parser.runToEnd, hrun']
  exact hmoved.runToEnd hmacros hfixed (nodes.map (Node.moveTo d 0))

/-- **Texts one behind the other are read one by one.**  Where a text is read and does not end in
a comment that is cut off, a space and a second text behind it add the nodes of the second text,
moved to where it stands; if the second text is not read, neither is the whole, for the same
reason at the same place of the second text. -/
theorem parse_concatenation (o : Options) (hmacros : o.macros = [])
    (hfixed : ∀ answer, o.strict ≠ .rule answer) (first second : String) (nodes : List Node)
    (hfirst : (parse ⟨.standard, o⟩ first).1 = .ok nodes)
    (hclosed : Lexeme.endsInComment first.toList = false) :
    (∀ more, (parse ⟨.standard, o⟩ second).1 = .ok more →
      (parse ⟨.standard, o⟩ (first ++ " " ++ second)).1 =
        .ok (nodes.map (Node.moveTo ⟨first ++ " " ++ second, 0⟩ 0) ++
          more.map (Node.moveTo ⟨first ++ " " ++ second, 0⟩ (first.utf8ByteSize + 1)))) ∧
    ∀ e, (parse ⟨.standard, o⟩ second).1 = .error e →
      ∃ e', (parse ⟨.standard, o⟩ (first ++ " " ++ second)).1 = .error e' ∧
        e'.reason = e.reason ∧ e'.length = e.length ∧
        e'.position = e.position.map (· + (first.utf8ByteSize + 1)) := by
  have hparse := parse_append_space hmacros hfixed hfirst hclosed
    (d := ⟨first ++ " " ++ second, 0⟩) rfl
  constructor
  · intro more hmore
    rw [hmore] at hparse
    exact hparse
  · intro e he
    rw [he] at hparse
    exact ⟨_, hparse, CompileError.reason_moveTo _ _ e, CompileError.length_moveTo _ _ e,
      CompileError.position_moveTo _ _ e⟩

/-- A letter with a closed comment behind it, in front of another letter, and in front of a
backslash that belongs to no token. -/
theorem parse_concatenation_comment :
    (parse ⟨.standard, {}⟩ "x%y\n").1 = .ok [.letter ⟨.math, some ⟨⟨"x%y\n", 0⟩, 0, 1⟩⟩ "x"] ∧
    (parse ⟨.standard, {}⟩ "x%y\n z").1 =
      .ok [.letter ⟨.math, some ⟨⟨"x%y\n z", 0⟩, 0, 1⟩⟩ "x",
        .letter ⟨.math, some ⟨⟨"x%y\n z", 0⟩, 5, 6⟩⟩ "z"] ∧
    ∃ e, (parse ⟨.standard, {}⟩ "x%y\n \\").1 = .error e ∧ e.reason = .unexpectedToken "\\" ∧
      e.length = some 1 ∧ e.position = some 5 := by
  -- one letter on its own
  have hletter : ∀ t : Token, Stack.isIgnored .math t = false → Stack.closes none t = false →
      t.text ≠ "\x7b" → t.isControl = false → t.isCharacter = true → t.isAlphabetic = true →
      Reads ⟨.standard, {}⟩ (.body .math none [.letter ⟨.math, t.span⟩ t.text]) [t] [] := by
    intro t hblank hopen hbrace hcontrol hchar halphabetic
    have hnode : t.node .math = .letter ⟨.math, t.span⟩ t.text := if_pos ⟨rfl, halphabetic⟩
    rw [← hnode]
    exact .next hblank hopen (.character hbrace hcontrol hchar) (.finish (endsAt_nil _ _))
  have hx : (parse ⟨.standard, {}⟩ "x%y\n").1 =
      .ok [.letter ⟨.math, some ⟨⟨"x%y\n", 0⟩, 0, 1⟩⟩ "x"] :=
    parse_of_drain (by decide +kernel) (hletter ⟨"x", _⟩ (by decide) (by decide) (by decide)
      (by decide) (by decide) (by decide +kernel))
  have hz : (parse ⟨.standard, {}⟩ "z").1 = .ok [.letter ⟨.math, some ⟨⟨"z", 0⟩, 0, 1⟩⟩ "z"] :=
    parse_of_drain (by decide +kernel) (hletter ⟨"z", _⟩ (by decide) (by decide) (by decide)
      (by decide) (by decide) (by decide +kernel))
  have hclosed : Lexeme.endsInComment "x%y\n".toList = false := by decide +kernel
  have hslash : (parse ⟨.standard, {}⟩ "\\").1 =
      .error (.located (.unexpectedToken "\\") (some ⟨⟨"\\", 0⟩, 0, 1⟩)) :=
    parse_of_fetch_error (by decide +kernel)
  have hgood := (parse_concatenation {} rfl nofun "x%y\n" "z" _ hx hclosed).1 _ hz
  obtain ⟨e, he, hreason, hlength, hposition⟩ :=
    (parse_concatenation {} rfl nofun "x%y\n" "\\" _ hx hclosed).2 _ hslash
  exact ⟨hx, hgood, e, he, hreason, hlength, hposition⟩

end Environment

end MathMarkup
