import MathMarkup.Proofs.Token.Place

/-!
# Errors are in proper places

An error is put where the token is that it is about, or where a lexer finds a character that
belongs to no token.  Lexers read the text, and the replacements of macros, which are documents
of their own.  In either case they know the bytes behind them, so that the place is a proper
range of the document: it lies within the document and cuts through no character.  Whatever a
parser does, its errors are in such places or in none.

## Main definitions

* `IsSource` — the documents that are read for a text.
* `Span.IsProper` — a proper range of such a document.
* `placeOf` — the place of the next token, or of the error if there is none.
* `Parser.KeepsPlaces` — a parser that stands in the text and has a token with a proper place
  in view.
* `Guard.spans` — calls and errors are in places of which something is known.

## Main results

* `Lexer.Tracks.isProper_of_next`, `Feed.StandsIn.isProper_of_pull`,
  `Parser.KeepsPlaces.isProper_of_fetch` — the place of one token or error.
* `Parser.KeepsPlaces.isProper_of_document` — the errors of a whole document.
* `Environment.isProper_of_parse` — the errors of a text.
-/

namespace MathMarkup

/-- The documents that are read for a text: the text itself, and the replacements of the macros in
the options, which have an identity of their own. -/
inductive IsSource (o : Options) (source : String) : Document → Prop where
  /-- The text. -/
  | text : IsSource o source ⟨source, 0⟩
  /-- The replacement of a macro. -/
  | replacement {name replacement : String} (h : o.macros.lookup name = some replacement) :
      IsSource o source ⟨replacement, 1⟩

/-- Whether a span is a proper range of a document that is read for a text, so that an excerpt of
the document can be cut out at the span. -/
structure Span.IsProper (o : Options) (source : String) (s : Span) : Prop where
  /-- The document is read for the text. -/
  document : IsSource o source s.document
  /-- The span lies within the document and cuts through no character. -/
  isSome_chars : s.chars?.isSome = true

/-- The place of the next token, or that of the error if there is none.  Both are treated alike
because both come from where a lexer stands. -/
def placeOf : Except CompileError Token → Option Span
  | .ok t => t.span
  | .error e => e.place

/-- An error has the place that it was given, or none: a place that ends in front of its start is
dropped. -/
theorem CompileError.mem_of_mem_located {reason : Reason} {span : Option Span} {s : Span}
    (h : s ∈ (located reason span).place) : s ∈ span := by
  cases span with
  | none => cases h
  | some a =>
    have hplace : (if a.start ≤ a.stop then some a else none) = some s := by
      simpa [located, Option.filter] using h
    split at hplace
    · exact hplace
    · cases hplace

variable {o : Options} {source : String}

/-! ### Lexers -/

namespace Lexer.Tracks

variable {lx : Lexer}

/-- The bytes from where a lexer stands to the end of some characters that come next are a proper
range. -/
theorem isSome_chars {found after : List Char} (h : lx.Tracks lx.document.text)
    (hrest : lx.rest = found ++ after) :
    (Span.mk lx.document lx.position (lx.position + Text.byteLength found)).chars?.isSome =
      true := by
  obtain ⟨before, htext, hposition⟩ := h
  -- the bytes in front of the lexer and those behind the characters are cut off
  rw [Option.isSome_iff_exists]
  refine ⟨found, Text.slice?_eq_some_iff.mpr ⟨before, after, ?_, hposition, rfl⟩⟩
  rw [htext, hrest]

theorem isSome_chars_spanOf (h : lx.Tracks lx.document.text) :
    (lx.spanOf (Lexeme.read lx.rest)).chars?.isSome = true := by
  have hwhole := Lexeme.read_eq lx.rest
  rw [Lexeme.whole, List.append_assoc] at hwhole
  exact h.isSome_chars hwhole.symm

theorem isSome_chars_finish (h : lx.Tracks lx.document.text) :
    ∀ s ∈ lx.finish.span, s.chars?.isSome = true := by
  intro s hs
  cases hs
  exact h.isSome_chars (List.nil_append lx.rest).symm

/-- The next token has a proper place, and if there is none the error has one or no place. -/
theorem isProper_of_next (h : lx.Tracks lx.document.text)
    (hsource : IsSource o source lx.document) :
    ∀ s ∈ placeOf (lx.next o).1, s.IsProper o source := by
  intro s hs
  -- at the end, at a blank or a plain lexeme the place is the span that was just read; a comment is
  -- skipped, and the error about an open one has no place
  fun_induction Lexer.next o lx with
  | case1 lx x hk =>
    have hchars := h.isSome_chars_finish s hs
    cases hs
    exact ⟨hsource, hchars⟩
  | case2 lx x hk | case3 lx x hk =>
    cases hs
    exact ⟨hsource, h.isSome_chars_spanOf⟩
  | case4 lx x hk =>
    have hspan := CompileError.mem_of_mem_located hs
    cases hspan
    exact ⟨hsource, h.isSome_chars_spanOf⟩
  | case5 lx x hk ih => exact ih h.advance hsource hs
  | case6 lx x hk u log hr =>
    -- the end marker stands behind the comment
    have hadvanced : (lx.advance x).Tracks (lx.advance x).document.text := h.advance
    have hchars := hadvanced.isSome_chars_finish s hs
    cases hs
    exact ⟨hsource, hchars⟩
  | case7 lx x hk e log hr =>
    have hplace : e.place = none := place_of_report_openComment (congrArg Prod.fst hr)
    rw [placeOf, hplace] at hs
    cases hs

/-- If a document cannot be read, the error is at a proper place in it or at none. -/
theorem isProper_of_readAll (h : lx.Tracks lx.document.text)
    (hsource : IsSource o source lx.document) {e : CompileError}
    (he : (lx.readAll o).1 = .error e) : ∀ s ∈ e.place, s.IsProper o source := by
  fun_induction Lexer.readAll o lx with
  | case1 lx e' lx' log hnext =>
    cases he
    have hproper := h.isProper_of_next hsource
    rwa [hnext] at hproper
  | case2 => cases he
  -- the rest of the document is read from behind the first token
  | case3 lx t lx' log hnext hend tokens later hread ih =>
    have hdocument := document_next o lx
    have htracks := h.next o
    rw [hnext] at hdocument htracks
    cases tokens with
    | error e' =>
      cases he
      refine ih ?_ ?_ (by rw [hread])
      · rwa [hdocument]
      · rwa [hdocument]
    | ok ts => cases he

end Lexer.Tracks

/-! ### Feeds -/

namespace Feed

variable {f f' : Feed} {offset : Nat} {t : Token}

/-- If a macro is not replaced, the error is at the macro or in its replacement. -/
theorem isProper_of_expand {replacement : String} {e : CompileError}
    (ht : ∀ s ∈ t.span, s.IsProper o source)
    (hlookup : o.macros.lookup t.text = some replacement)
    (hexpand : f.expand o t replacement = (.error e, f')) :
    ∀ s ∈ e.place, s.IsProper o source := by
  -- either the replacement cannot be read, or the limit for macros is reached
  unfold expand at hexpand
  split at hexpand
  · split at hexpand
    · cases hexpand
    · rename_i log hread
      cases hexpand
      exact (Lexer.tracks_ofDocument ⟨replacement, 1⟩).isProper_of_readAll
        (.replacement hlookup) (congrArg Prod.fst hread)
  · cases hexpand
    exact fun s hs => ht s (CompileError.mem_of_mem_located hs)

namespace StandsIn

theorem isProper_of_take (h : f.StandsIn source offset) :
    ∀ s ∈ placeOf (f.take o).1, s.IsProper o source := by
  unfold Feed.take
  split
  · rename_i u rest hrest
    -- what is left of a replacement has no place
    have hspan : u.span = none := h.tracks.pending u (by rw [hrest]; exact List.mem_cons_self)
    intro s hs
    rw [placeOf, hspan] at hs
    cases hs
  · have htext : f.lexer.document.text = source := congrArg Document.text h.document
    refine Lexer.Tracks.isProper_of_next ?_ ?_
    · rw [htext]
      exact h.tracks.lexer
    · rw [h.document]
      exact .text

/-- The next token that is no macro has a proper place or none, and so has the error if there is
no such token. -/
theorem isProper_of_pull (h : f.StandsIn source offset) :
    ∀ s ∈ placeOf (f.pull o).1, s.IsProper o source := by
  -- macros are replaced until a token is none, and every replacement leaves the lexer in the text
  fun_induction Feed.pull o f with
  | case1 f e f₁ htake =>
    have hproper := h.isProper_of_take (o := o)
    rwa [htake] at hproper
  | case2 f t f₁ htake hmacro =>
    have hproper := h.isProper_of_take (o := o)
    rwa [htake] at hproper
  | case3 f t f₁ htake replacement hmacro e f₂ hexpand =>
    have hproper := h.isProper_of_take (o := o)
    rw [htake] at hproper
    exact isProper_of_expand hproper hmacro hexpand
  | case4 f t f₁ htake replacement hmacro u f₂ hexpand ih =>
    exact ih ((h.take htake).expand hexpand)

theorem standsIn_of_pull (h : f.StandsIn source offset) (hpull : f.pull o = (.ok t, f')) :
    f'.StandsIn source offset := by
  fun_induction Feed.pull o f with
  | case1 | case3 => cases hpull
  | case2 f u f₁ htake hmacro =>
    cases hpull
    exact h.take htake
  | case4 f u f₁ htake replacement hmacro v f₂ hexpand ih =>
    exact ih ((h.take htake).expand hexpand) hpull

end StandsIn

end Feed

/-! ### Calls and stacks -/

/-- Calls of standard commands at places of which `known` holds, and errors at such places.
Standard commands put their errors at their own token. -/
def Guard.spans (env : Environment) (known : Span → Prop) : Guard env where
  call c := (∃ name, IsStandard name c.command) ∧ ∀ s ∈ c.token.bind Token.span, known s
  error e := ∀ s ∈ e.place, known s
  ends _ _ := True
  call_accept := by
    intro c n h
    have hsame := c.continues_accept n
    rwa [hsame.token, hsame.command]
  call_skip h := h
  call_bare _ h := h
  error_invoke := by
    -- a standard command fails at its own token or without a place
    rintro c e ⟨⟨name, hname⟩, hspan⟩ hfail s hs
    rcases hname.eq_of_fail hfail with rfl | rfl
    · cases hs
    · exact hspan s (CompileError.mem_of_mem_located hs)

theorem Guard.admits_spans {env : Environment} {known : Span → Prop}
    (henv : env.registry = .standard) {t : Token} (ht : ∀ s ∈ t.span, known s) :
    (Guard.spans env known).Admits t where
  opens hopen := by
    have hstandard := Environment.isStandard_of_openCall henv hopen
    obtain ⟨command, -, -, rfl⟩ := Environment.openCall_eq_ok_iff.mp hopen
    exact ⟨⟨t.text, hstandard⟩, ht⟩
  refuses _ hrefused s hs := by
    rcases Environment.eq_of_openCall_eq_error hrefused with rfl | rfl
    · exact ht s (CompileError.mem_of_mem_located hs)
    · exact ht s (CompileError.mem_of_mem_located hs)
  unexpected _ s hs := ht s (CompileError.mem_of_mem_located hs)
  mismatched _ _ s hs := ht s (CompileError.mem_of_mem_located hs)
  missing _ s hs := ht s (CompileError.mem_of_mem_located hs)

/-! ### Parsers -/

namespace Parser

variable {env : Environment} {p p' : Parser} {t : Token} {e : CompileError}

/-- Whether a parser reads the source at the right offsets and the token in view, if there is one,
has a proper place.  This is kept by everything that a run does. -/
structure KeepsPlaces (o : Options) (source : String) (p : Parser) : Prop where
  /-- The token in view has a proper place, or none. -/
  lookahead : ∀ t ∈ p.lookahead, ∀ s ∈ t.span, s.IsProper o source
  /-- The rest of the text is where it should be. -/
  feed : p.feed.StandsIn source 0

theorem keepsPlaces_ofText (o : Options) (source : String) :
    (Parser.ofText source).KeepsPlaces o source :=
  ⟨fun _ ht => absurd ht (Option.not_mem_none _), standsIn_ofText source⟩

namespace KeepsPlaces

theorem isProper_of_fetch (h : p.KeepsPlaces env.options source) :
    ∀ s ∈ placeOf (p.fetch env).1, s.IsProper env.options source := by
  unfold Parser.fetch
  split
  · rename_i t hview
    exact h.lookahead t hview
  · -- nothing is in view, so a token is pulled
    have hproper := h.feed.isProper_of_pull (o := env.options)
    split <;> rename_i hpull <;> rwa [hpull] at hproper

theorem fetch (h : p.KeepsPlaces env.options source) (hfetch : p.fetch env = (.ok t, p')) :
    p'.KeepsPlaces env.options source := by
  have hproper := h.isProper_of_fetch
  rw [hfetch] at hproper
  unfold Parser.fetch at hfetch
  split at hfetch
  · cases hfetch
    exact h
  · split at hfetch
    · rename_i u feed hpull
      cases hfetch
      refine ⟨?_, h.feed.standsIn_of_pull hpull⟩
      intro u hu
      cases hu
      exact hproper
    · cases hfetch

theorem report (h : p.KeepsPlaces o source) (log : Log) : (p.report log).KeepsPlaces o source :=
  ⟨h.lookahead, ⟨⟨h.feed.tracks.lexer, h.feed.tracks.pending⟩, h.feed.document, h.feed.offset_le⟩⟩

theorem stable (env : Environment) (source : String) :
    Parser.Stable env (KeepsPlaces env.options source) where
  fetch hp hfetch := hp.fetch hfetch
  consume hp _ _ := ⟨fun _ ht => absurd ht (Option.not_mem_none _), hp.feed⟩
  report log hp := hp.report log

/-- If the token that is wanted is not there, the error is in a proper place: it is at the token
that is there instead, or where reading failed. -/
theorem isProper_of_expect (h : p.KeepsPlaces env.options source) {expected : String}
    {consuming : Bool} (hexpect : p.expect env expected consuming = (.error e, p')) :
    ∀ s ∈ e.place, s.IsProper env.options source := by
  have hproper := h.isProper_of_fetch
  unfold Parser.expect at hexpect
  split at hexpect
  · rename_i hfetch
    cases hexpect
    rwa [hfetch] at hproper
  · rename_i hfetch
    rw [hfetch] at hproper
    split at hexpect <;> cases hexpect
    exact fun s hs => hproper s (CompileError.mem_of_mem_located hs)

/-- A document that is not read has an error in a proper place, or in none. -/
theorem isProper_of_document (henv : env.registry = .standard)
    (h : p.KeepsPlaces env.options source) (hdocument : p.document env = (.error e, p')) :
    ∀ s ∈ e.place, s.IsProper env.options source := by
  have hguarded : p.start.Guarded (Guard.spans env (Span.IsProper env.options source)) :=
    fun _ _ => trivial
  -- reading the document fails in the run, or behind it where the end marker is wanted
  rw [document, expression, ← start] at hdocument
  rcases hrun : p.run env p.start with ⟨e₁ | nodes, p₁⟩
  · rw [hrun] at hdocument
    cases hdocument
    have hadmits : ∀ {q q' : Parser} {t : Token}, q.KeepsPlaces env.options source →
        q.fetch env = (.ok t, q') →
        (Guard.spans env (Span.IsProper env.options source)).Admits t := by
      intro q q' t hq hfetch
      have hproper := hq.isProper_of_fetch
      rw [hfetch] at hproper
      exact Guard.admits_spans henv hproper
    -- an error of the run is made by the stack, or comes from fetching a token
    rcases Guard.error_of_run (stable env source) hadmits hguarded h hrun with
      herror | ⟨q, hq, hfetch⟩
    · exact herror
    · have hproper := hq.isProper_of_fetch
      rwa [hfetch] at hproper
  · -- all of the text was read, up to a token that is not the end marker
    have hlast := (stable env source).run h hrun
    rw [hrun] at hdocument
    simp only at hdocument
    split at hdocument
    · rename_i hexpect
      cases hdocument
      exact hlast.isProper_of_expect hexpect
    · cases hdocument

end KeepsPlaces

end Parser

/-- **The errors of a text are in proper places, or in none.**  The place is a range of the text or
of the replacement of a macro, and can be shown in the message. -/
theorem Environment.isProper_of_parse {e : CompileError}
    (h : (parse ⟨.standard, o⟩ source).1 = .error e) : ∀ s ∈ e.place, s.IsProper o source := by
  have henv : (Environment.mk .standard o).registry = .standard := rfl
  have hkeeps := (Parser.keepsPlaces_ofText o source).report [.parsing source.utf8ByteSize]
  exact Parser.KeepsPlaces.isProper_of_document henv hkeeps (Prod.ext h rfl)

end MathMarkup
