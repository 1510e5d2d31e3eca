import MathMarkup.Proofs.Parser.Consumption
import MathMarkup.Proofs.Parser.Failure

/-!
# Where errors point to

A lexer counts the bytes behind it, so that each token it reads knows the range of bytes that
it was read from.  Tokens that come out of a macro know of no range.  An error is put at the
range of the token it is about, and the text it complains about is the text in that range:
whatever mixture of document and macros a parser goes through, its errors point into the
document or nowhere.

There is one exception.  The replacement of a macro is a text of its own, which is read by a
lexer of its own.  If a character of it is part of no token, the error points into the
replacement.

## Main definitions

* `Text.ShowsAt` — a piece of a text and the bytes that it takes up.
* `Reason.named?` — the offending text that an error names.
* `CompileError.PointsInto` — the position and the length of an error are those of a piece of
  a text, which is what the error names.
* `Lexer.Tracks`, `Feed.Tracks`, `Parser.Tracks` — positions are those in the text.
* `Guard.positions` — calls and errors point into the text.

## Main results

* `Lexer.Tracks.placedIn_of_next`, `Feed.Tracks.pull`, `Parser.Tracks.fetch` — what one token
  knows of its place.
* `Parser.Tracks.pointsInto_of_document` — the errors of a whole document.
* `Environment.error_pointsInto` — **an error points into the text, or into the replacement of a
  macro that could not be read.**
-/

namespace MathMarkup

/-! ### Pieces of a text -/

/-- Whether the piece `found` of a text stands at the offset `start` and takes up `length` bytes:
the text is that piece with something in front of it and something behind. -/
def Text.ShowsAt (text : String) (start length : Nat) (found : String) : Prop :=
  ∃ before after : String, text = before ++ found ++ after ∧ before.utf8ByteSize = start ∧
    found.utf8ByteSize = length

/-- A piece of a text ends where the text does, or before. -/
theorem Text.ShowsAt.add_le {text found : String} {start length : Nat}
    (h : Text.ShowsAt text start length found) : start + length ≤ text.utf8ByteSize := by
  obtain ⟨before, after, rfl, rfl, rfl⟩ := h
  simp only [String.utf8ByteSize_append]
  omega

theorem Text.showsAt_of_append {text : String} (before found after : List Char)
    (h : text.toList = before ++ found ++ after) :
    Text.ShowsAt text (byteLength before) (byteLength found) (String.ofList found) := by
  refine ⟨String.ofList before, String.ofList after, ?_, utf8ByteSize_ofList before,
    utf8ByteSize_ofList found⟩
  rw [← String.ofList_append, ← String.ofList_append, ← h, String.ofList_toList]

/-- A piece of a text in terms of characters: it stands between two others. -/
theorem Text.showsAt_iff {text : String} {start length : Nat} {found : List Char} :
    Text.ShowsAt text start length (String.ofList found) ↔
      ∃ before after, text.toList = before ++ found ++ after ∧ byteLength before = start ∧
        byteLength found = length := by
  constructor
  · rintro ⟨before, after, rfl, rfl, rfl⟩
    refine ⟨before.toList, after.toList, ?_, (utf8ByteSize_eq before).symm,
      (utf8ByteSize_ofList found).symm⟩
    simp only [String.toList_append, String.toList_ofList]
  · rintro ⟨before, after, htext, rfl, rfl⟩
    exact showsAt_of_append before found after htext

/-! ### Tokens and errors -/

/-- The offending text that an error names.  The end marker stands nowhere in a text. -/
def Reason.named? : Reason → Option String
  | unexpectedToken found => some found
  | expectedToken _ found => if found = Token.endText then none else some found
  | undefinedCommand name => some name
  | wrongMode command _ => some command
  | textModeOnly command _ => some command
  | _ => none

/-- Whether the position and the length of an error, if it has any, are those of a piece of a
text, and the text that the error names, if it names any, is this piece. -/
def CompileError.PointsInto (e : CompileError) (text : String) : Prop :=
  ∀ position length, e.position = some position → e.length = some length →
    ∃ found, Text.ShowsAt text position length found ∧
      ∀ name, e.reason.named? = some name → name = found

/-- Whether a token knows where it stands in a text, if it knows of a place at all.  Blanks are
read as a single space, and the end marker has no text of its own. -/
def Token.PlacedIn (t : Token) (text : String) : Prop :=
  ∀ span, t.span = some span → ∃ found,
    Text.ShowsAt text span.start (span.stop - span.start) found ∧
      (t.isEnd = false → t.text ≠ " " → t.text = found)

section

variable {text : String}

theorem CompileError.pointsInto_of_place_eq_none {e : CompileError} (h : e.place = none) :
    e.PointsInto text := by
  intro position length hposition
  simp [CompileError.position, h] at hposition

/-- An error at a token points to the token, and may name it if it is neither a blank nor the end
marker: the texts of those two are not what stands in the source. -/
theorem CompileError.pointsInto_located {t : Token} (ht : t.PlacedIn text) {reason : Reason}
    (hname : ∀ name, reason.named? = some name →
      name = t.text ∧ t.isEnd = false ∧ t.text ≠ " ") :
    (CompileError.located reason t.span).PointsInto text := by
  intro position length hposition hlength
  cases hspan : t.span with
  | none => simp [CompileError.located, CompileError.position, hspan] at hposition
  | some span =>
    obtain ⟨found, hshows, htext⟩ := ht span hspan
    rw [hspan] at hposition hlength
    -- a span that ends before it starts is no place
    by_cases hle : span.start ≤ span.stop
    · obtain rfl : span.start = position := by
        simpa [CompileError.located, CompileError.position, hle] using hposition
      obtain rfl : span.stop - span.start = length := by
        simpa [CompileError.located, CompileError.length, hle] using hlength
      refine ⟨found, hshows, fun name hnamed => ?_⟩
      obtain ⟨rfl, hend, hblank⟩ := hname name hnamed
      exact htext hend hblank
    · simp [CompileError.located, CompileError.position, hle] at hposition

theorem CompileError.pointsInto_of_unnamed {t : Token} (ht : t.PlacedIn text) {reason : Reason}
    (hname : reason.named? = none) : (CompileError.located reason t.span).PointsInto text := by
  refine pointsInto_located ht ?_
  intro name hnamed
  rw [hname] at hnamed
  cases hnamed

theorem Token.placedIn_of_span_eq_none {t : Token} (h : t.span = none) : t.PlacedIn text := by
  intro span hspan
  rw [h] at hspan
  cases hspan

/-- A control sequence is neither the end marker nor a blank. -/
theorem Token.isEnd_of_isControl {t : Token} (h : t.isControl = true) :
    t.isEnd = false ∧ t.text ≠ " " := by
  constructor
  · cases hend : t.isEnd with
    | false => rfl
    | true =>
      have htext : t.text = "EOF" := by simpa [isEnd, endText] using hend
      simp [isControl, htext] at h
  · intro hblank
    simp [isControl, hblank] at h

/-- A token that does not stand for itself is neither the end marker nor a blank. -/
theorem Token.isEnd_of_isCharacter {t : Token} (h : t.isCharacter = false) :
    t.isEnd = false ∧ t.text ≠ " " := by
  constructor
  · cases hend : t.isEnd with
    | false => rfl
    | true =>
      have htext : t.text = "EOF" := by simpa [isEnd, endText] using hend
      simp [isCharacter, unsupported, htext] at h
  · intro hblank
    simp [isCharacter, unsupported, hblank] at h

/-! ### Lexers -/

namespace Lexer

/-- Whether a lexer stands in a text where it says it does: what it has left is the end of the text,
and its position is the number of bytes in front of that. -/
def Tracks (lx : Lexer) (text : String) : Prop :=
  ∃ before : List Char, text.toList = before ++ lx.rest ∧ lx.position = Text.byteLength before

theorem tracks_ofDocument (document : Document) : (ofDocument document).Tracks document.text :=
  ⟨[], rfl, rfl⟩

/-- A comment that is cut off is an error without a place, since there is no token to point to. -/
theorem place_of_report_openComment {o : Options} {e : CompileError}
    (h : (o.report openComment).1 = .error e) : e.place = none := by
  simp only [Options.report] at h
  split at h <;> cases h
  rfl

namespace Tracks

variable {lx : Lexer}

theorem advance (h : lx.Tracks text) : (lx.advance (Lexeme.read lx.rest)).Tracks text := by
  obtain ⟨before, htext, hposition⟩ := h
  have hwhole := Lexeme.read_eq lx.rest
  rw [Lexeme.whole] at hwhole
  -- the lexeme and the blanks behind it move to what is behind the lexer
  refine ⟨before ++ (Lexeme.read lx.rest).taken ++ (Lexeme.read lx.rest).skipped, ?_, ?_⟩
  · calc text.toList
        = before ++ ((Lexeme.read lx.rest).taken ++ (Lexeme.read lx.rest).skipped ++
            (Lexeme.read lx.rest).rest) := by rw [hwhole, htext]
      _ = _ := by simp only [Lexer.advance, List.append_assoc]
  · simp only [Lexer.advance, Text.byteLength_append, hposition]

/-- The first lexeme stands where the lexer is. -/
theorem showsAt (h : lx.Tracks text) :
    Text.ShowsAt text lx.position (Text.byteLength (Lexeme.read lx.rest).taken)
      (String.ofList (Lexeme.read lx.rest).taken) := by
  obtain ⟨before, htext, hposition⟩ := h
  have hwhole := Lexeme.read_eq lx.rest
  rw [Lexeme.whole, List.append_assoc] at hwhole
  rw [hposition]
  refine Text.showsAt_of_append before _
    ((Lexeme.read lx.rest).skipped ++ (Lexeme.read lx.rest).rest) ?_
  rw [List.append_assoc, hwhole, htext]

/-- A token with the span of the first lexeme knows where it stands. -/
theorem placedIn (h : lx.Tracks text) {word : String}
    (hword : word ≠ " " → word = String.ofList (Lexeme.read lx.rest).taken) :
    Token.PlacedIn ⟨word, some (lx.spanOf (Lexeme.read lx.rest))⟩ text := by
  intro span hspan
  cases hspan
  refine ⟨_, ?_, fun _ hblank => hword hblank⟩
  simpa [spanOf] using h.showsAt

theorem finish (h : lx.Tracks text) : lx.finish.PlacedIn text := by
  obtain ⟨before, htext, hposition⟩ := h
  intro span hspan
  cases hspan
  refine ⟨"", ?_, fun hend => ?_⟩
  · simpa [hposition] using Text.showsAt_of_append before [] lx.rest (by simpa using htext)
  · simp [Lexer.finish] at hend

/-- A lexer that goes on stands where it says it does. -/
theorem next (h : lx.Tracks text) (o : Options) : (lx.next o).2.1.Tracks text := by
  -- at the end and at a character that is refused the lexer stays; a comment is passed
  fun_induction Lexer.next o lx with
  | case1 | case4 => exact h
  | case2 | case3 | case6 | case7 => exact h.advance
  | case5 lx x hk ih => exact ih h.advance

/-- The next token knows where it stands. -/
theorem placedIn_of_next (h : lx.Tracks text) {o : Options} {t : Token}
    (ht : (lx.next o).1 = .ok t) : t.PlacedIn text := by
  fun_induction Lexer.next o lx with
  | case1 lx x hk =>
    cases ht
    exact h.finish
  | case2 lx x hk =>
    cases ht
    exact h.placedIn fun hblank => absurd rfl hblank
  | case3 lx x hk =>
    cases ht
    exact h.placedIn fun _ => rfl
  | case4 | case7 => cases ht
  | case5 lx x hk ih => exact ih h.advance ht
  | case6 lx x hk u log hr =>
    cases ht
    exact h.advance.finish

/-- If there is no next token, the error points to what cannot be read, and names all of it. -/
theorem pointsInto_of_next (h : lx.Tracks text) {o : Options} {e : CompileError}
    (he : (lx.next o).1 = .error e) : e.PointsInto text := by
  -- only a refused character and an open comment are errors
  fun_induction Lexer.next o lx with
  | case1 | case2 | case3 | case6 => cases he
  | case4 lx x hk =>
    cases he
    intro position length hposition hlength
    obtain rfl : lx.position = position := by
      simpa [CompileError.located, CompileError.position, spanOf] using hposition
    obtain rfl : Text.byteLength x.taken = length := by
      simpa [CompileError.located, CompileError.length, spanOf] using hlength
    -- the error names all that was taken
    refine ⟨_, h.showsAt, fun name hname => ?_⟩
    exact (Option.some.inj hname).symm
  | case5 lx x hk ih => exact ih h.advance he
  | case7 lx x hk e' log hr =>
    cases he
    exact CompileError.pointsInto_of_place_eq_none
      (place_of_report_openComment (congrArg Prod.fst hr))

/-- All tokens of a text are read without their places, or the error points to what cannot be
read. -/
theorem pointsInto_of_readAll (h : lx.Tracks text) {o : Options} {e : CompileError}
    (he : (lx.readAll o).1 = .error e) : e.PointsInto text := by
  fun_induction Lexer.readAll o lx with
  | case1 lx e' lx' log hnext =>
    cases he
    exact h.pointsInto_of_next (by rw [hnext])
  | case2 => cases he
  | case3 lx t lx' log hnext hend tokens later hread ih =>
    have htracks := h.next o
    rw [hnext] at htracks
    cases tokens with
    | error e' =>
      cases he
      exact ih htracks (by rw [hread])
    | ok ts => cases he

end Tracks

theorem span_of_readAll {o : Options} {lx : Lexer} {ts : List Token}
    (h : (lx.readAll o).1 = .ok ts) : ∀ t ∈ ts, t.span = none := by
  fun_induction readAll o lx generalizing ts with
  | case1 => cases h
  | case2 =>
    cases h
    simp
  | case3 lx t lx' log hnext hend tokens later hread ih =>
    cases tokens with
    | error e => cases h
    | ok us =>
      cases h
      rw [List.forall_mem_cons]
      exact ⟨rfl, ih (by rw [hread])⟩

end Lexer

/-! ### Feeds -/

namespace Feed

/-- Whether the positions of a feed are those in a text: the lexer stands where it says it does,
and tokens of replacements have no place. -/
structure Tracks (f : Feed) (text : String) : Prop where
  /-- The rest of the document is where it should be. -/
  lexer : f.lexer.Tracks text
  /-- Tokens of replacements have no place. -/
  pending : ∀ t ∈ f.pending, t.span = none

/-- Whether an error comes out of the replacement of a macro, and points into that: the macro is in
the options, it was reported that it is replaced, and its replacement fails with this error. -/
def FailsInReplacement (o : Options) (log : Log) (e : CompileError) : Prop :=
  ∃ name replacement, o.macros.lookup name = some replacement ∧ .expanding name ∈ log ∧
    (replacementTokens o replacement).1 = .error e ∧ e.PointsInto replacement

namespace Tracks

variable {o : Options} {f f' : Feed} {t : Token} {e : CompileError}

theorem take (h : f.Tracks text) (htake : f.take o = (.ok t, f')) :
    t.PlacedIn text ∧ f'.Tracks text := by
  have hpending := h.pending
  unfold Feed.take at htake
  split at htake
  · rename_i u rest hrest
    cases htake
    -- a pending token comes from a replacement and has no place
    rw [hrest, List.forall_mem_cons] at hpending
    exact ⟨Token.placedIn_of_span_eq_none hpending.1, h.lexer, hpending.2⟩
  · rcases hlexer : f.lexer.next o with ⟨result, lexer, log⟩
    have htracks := h.lexer.next o
    rw [hlexer] at htake htracks
    cases htake
    exact ⟨h.lexer.placedIn_of_next (by rw [hlexer]), htracks, hpending⟩

theorem pointsInto_of_take (h : f.Tracks text) (htake : f.take o = (.error e, f')) :
    e.PointsInto text := by
  unfold Feed.take at htake
  split at htake
  · cases htake
  · rcases hlexer : f.lexer.next o with ⟨result, lexer, log⟩
    rw [hlexer] at htake
    cases htake
    exact h.lexer.pointsInto_of_next (by rw [hlexer])

theorem expand (h : f.Tracks text) {replacement : String} {u : Unit}
    (hexpand : f.expand o t replacement = (.ok u, f')) : f'.Tracks text := by
  obtain ⟨-, tokens, log, htokens, rfl⟩ := expand_eq_ok hexpand
  refine ⟨h.lexer, ?_⟩
  -- what is pending now is the new replacement, in front of what was pending before
  intro t' ht'
  rcases List.mem_append.mp ht' with hnew | hold
  · exact Lexer.span_of_readAll (by rw [← replacementTokens, htokens]) t' hnew
  · exact h.pending t' hold

/-- A macro that is not replaced is beyond the limit, and then the error points to the macro, or its
replacement cannot be read. -/
theorem pointsInto_of_expand (ht : t.PlacedIn text) {replacement : String}
    (hlookup : o.macros.lookup t.text = some replacement)
    (hexpand : f.expand o t replacement = (.error e, f')) :
    e.PointsInto text ∨ FailsInReplacement o f'.log e := by
  unfold Feed.expand at hexpand
  split at hexpand
  · split at hexpand
    · cases hexpand
    · rename_i log hread
      cases hexpand
      have hresult : (replacementTokens o replacement).1 = .error e := by rw [hread]
      -- the replacement is read by a lexer of its own, and the error points into what that reads
      refine .inr ⟨t.text, replacement, hlookup, ?_, hresult, ?_⟩
      · simp [Feed.report]
      · exact (Lexer.tracks_ofDocument ⟨replacement, 1⟩).pointsInto_of_readAll hresult
  · cases hexpand
    exact .inl (CompileError.pointsInto_of_unnamed ht rfl)

theorem pull (h : f.Tracks text) (hpull : f.pull o = (.ok t, f')) :
    t.PlacedIn text ∧ f'.Tracks text := by
  fun_induction Feed.pull o f with
  | case1 | case3 => cases hpull
  | case2 f u f₁ htake hmacro =>
    cases hpull
    exact h.take htake
  | case4 f u f₁ htake replacement hmacro v f₂ hexpand ih =>
    exact ih ((h.take htake).2.expand hexpand) hpull

theorem pointsInto_of_pull (h : f.Tracks text) (hpull : f.pull o = (.error e, f')) :
    e.PointsInto text ∨ FailsInReplacement o f'.log e := by
  -- macros are replaced one by one, and each time the text is where it was
  fun_induction Feed.pull o f with
  | case1 f e' f₁ htake =>
    cases hpull
    exact .inl (h.pointsInto_of_take htake)
  | case2 => cases hpull
  | case3 f u f₁ htake replacement hmacro e' f₂ hexpand =>
    cases hpull
    exact pointsInto_of_expand (h.take htake).1 hmacro hexpand
  | case4 f u f₁ htake replacement hmacro v f₂ hexpand ih =>
    exact ih ((h.take htake).2.expand hexpand) hpull

end Tracks

end Feed

/-! ### Calls and stacks -/

/-- Whether a call knows where it stands: the token that named it does, and that token is a control
sequence. -/
structure Call.PlacedIn (c : Call) (text : String) : Prop where
  /-- It calls a standard command. -/
  command : ∃ name, IsStandard name c.command
  /-- Its name is that of its token. -/
  token : ∃ t, c.token = some t ∧ t.text = c.name ∧ t.isControl = true ∧ t.PlacedIn text

theorem Call.PlacedIn.accept {c : Call} (h : c.PlacedIn text) (n : Node) :
    (c.accept n).PlacedIn text := by
  obtain ⟨hcommand, htoken⟩ := h
  unfold Call.accept
  split
  · exact ⟨hcommand, htoken⟩
  · exact ⟨hcommand, htoken⟩

/-- Calls and errors point into the text, and a reading is complete at a token that is left in place
and is no blank, so that an error about that token may name it. -/
def Guard.positions (env : Environment) (text : String) : Guard env where
  call c := c.PlacedIn text
  error e := e.PointsInto text
  ends t taken := taken = false ∧ t.text ≠ " "
  call_accept n h := h.accept n
  call_skip h := ⟨h.command, h.token⟩
  call_bare _ h := ⟨h.command, h.token⟩
  error_invoke := by
    -- a standard command fails without a place, or at its token under its own name
    rintro c e ⟨⟨name, hname⟩, t, htoken, htext, hcontrol, hplaced⟩ hfail
    rcases hname.eq_of_fail hfail with rfl | rfl
    · exact CompileError.pointsInto_of_place_eq_none rfl
    · have hinvocation : c.invocation.token = some t := htoken
      rw [CompileError.atToken, hinvocation]
      refine CompileError.pointsInto_located hplaced fun word hword => ?_
      obtain rfl : c.name = word := Option.some.inj hword
      exact ⟨htext.symm, Token.isEnd_of_isControl hcontrol⟩

variable {env : Environment}

theorem Guard.admits_positions (henv : env.registry = .standard) {t : Token}
    (ht : t.PlacedIn text) : (Guard.positions env text).Admits t where
  opens hopen := by
    have hstandard := Environment.isStandard_of_openCall henv hopen
    obtain ⟨command, -, -, rfl⟩ := Environment.openCall_eq_ok_iff.mp hopen
    exact ⟨⟨t.text, hstandard⟩, t, rfl, rfl, hstandard.isControl t.span, ht⟩
  refuses hcontrol hrefused := by
    have hproper := Token.isEnd_of_isControl hcontrol
    rcases Environment.eq_of_openCall_eq_error hrefused with rfl | rfl
    · exact CompileError.pointsInto_located ht fun _ hname =>
        ⟨(Option.some.inj hname).symm, hproper⟩
    · exact CompileError.pointsInto_located ht fun _ hname =>
        ⟨(Option.some.inj hname).symm, hproper⟩
  unexpected hcharacter :=
    CompileError.pointsInto_located ht fun _ hname =>
      ⟨(Option.some.inj hname).symm, Token.isEnd_of_isCharacter hcharacter⟩
  mismatched expected hblank := by
    -- the end marker is found where something else was expected, and is not named then
    refine CompileError.pointsInto_located ht fun name hname => ?_
    simp only [Reason.named?] at hname
    split at hname
    · cases hname
    · rename_i hend
      exact ⟨(Option.some.inj hname).symm, by simpa [Token.isEnd] using hend, hblank⟩
  missing _ := CompileError.pointsInto_of_unnamed ht rfl

/-! ### Parsers -/

namespace Parser

/-- Whether the positions of a parser are those in a text, both of the token in view and of all that
follow. -/
structure Tracks (p : Parser) (text : String) : Prop where
  /-- The token in view knows where it stands. -/
  lookahead : ∀ t, p.lookahead = some t → t.PlacedIn text
  /-- So do those that follow. -/
  feed : p.feed.Tracks text

namespace Tracks

variable {p p' : Parser} {e : CompileError}

theorem fetch (h : p.Tracks text) {t : Token} (hfetch : p.fetch env = (.ok t, p')) :
    t.PlacedIn text ∧ p'.Tracks text := by
  unfold Parser.fetch at hfetch
  split at hfetch
  · rename_i hview
    cases hfetch
    exact ⟨h.lookahead t hview, h⟩
  · split at hfetch
    · rename_i u feed hpull
      cases hfetch
      obtain ⟨ht, hfeed⟩ := h.feed.pull hpull
      refine ⟨ht, ?_, hfeed⟩
      intro u hu
      cases hu
      exact ht
    · cases hfetch

theorem pointsInto_of_fetch (h : p.Tracks text) (hfetch : p.fetch env = (.error e, p')) :
    e.PointsInto text ∨ Feed.FailsInReplacement env.options p'.log e := by
  unfold Parser.fetch at hfetch
  split at hfetch
  · cases hfetch
  · split at hfetch
    · cases hfetch
    · rename_i feed hpull
      cases hfetch
      exact h.feed.pointsInto_of_pull hpull

theorem stable (env : Environment) (text : String) :
    Parser.Stable env (Parser.Tracks · text) where
  fetch hp hfetch := (hp.fetch hfetch).2
  consume hp _ _ := ⟨nofun, hp.feed⟩
  report _ hp := ⟨hp.lookahead, hp.feed.lexer, hp.feed.pending⟩

/-- A document that is not read has an error that points into it, or into the replacement of a macro
that could not be read. -/
theorem pointsInto_of_document (henv : env.registry = .standard) (h : p.Tracks text)
    (hdocument : p.document env = (.error e, p')) :
    e.PointsInto text ∨ Feed.FailsInReplacement env.options p'.log e := by
  have hguarded : p.start.Guarded (Guard.positions env text) :=
    fun t hcloses => ⟨rfl, Stack.ne_blank_of_closes (by simp) hcloses⟩
  have hadmits : ∀ {q q' : Parser} {t : Token}, q.Tracks text →
      q.fetch env = (.ok t, q') → (Guard.positions env text).Admits t :=
    fun hq hfetch => Guard.admits_positions henv (hq.fetch hfetch).1
  rw [document, expression, ← start] at hdocument
  -- the error is one of the run, or comes behind it because there is more text
  rcases hrun : p.run env p.start with ⟨e₁ | nodes, p₁⟩
  · rw [hrun] at hdocument
    cases hdocument
    rcases Guard.error_of_run (stable env text) hadmits hguarded h hrun with
      herror | ⟨q, hq, hfetch⟩
    · exact .inl herror
    · exact hq.pointsInto_of_fetch hfetch
  · -- the run is complete at a token that is still in view, and that is not the end marker
    obtain ⟨t, taken, ht, ⟨rfl, hblank⟩, hview⟩ :=
      Guard.ends_of_run (stable env text) hadmits hguarded h hrun
    have hfetch : p₁.fetch env = (.ok t, p₁) := by rw [Parser.fetch, hview rfl]
    simp only [hrun, expect, hfetch] at hdocument
    by_cases hend : t.text = Token.endText
    · simp [hend] at hdocument
    · simp only [hend, if_false] at hdocument
      cases hdocument
      exact .inl (ht.mismatched Token.endText hblank)

end Tracks

end Parser

end

/-! ### Whole texts -/

namespace Environment

/-- **An error points into the text, or into the replacement of a macro that could not be
read.**  In the first case its position and its length are those of a piece of the text, and if
it names an offending token, that is the piece.  In the second case the macro was being
replaced, the error is the one that its replacement fails with, and it points into that. -/
theorem error_pointsInto (o : Options) (source : String) (e : CompileError)
    (h : (parse ⟨.standard, o⟩ source).1 = .error e) :
    e.PointsInto source ∨
      Feed.FailsInReplacement o (parse ⟨.standard, o⟩ source).2 e := by
  have htracks :
      ((Parser.ofText source).report [.parsing source.utf8ByteSize]).Tracks source :=
    { lookahead := nofun
      feed := ⟨Lexer.tracks_ofDocument ⟨source, 0⟩, by simp [Parser.ofText, Parser.report,
        Feed.ofDocument]⟩ }
  exact htracks.pointsInto_of_document rfl (Prod.ext h rfl)

/-- An unknown command behind a macro, which takes up more bytes than its replacement: the error is
at the offset in the text and not in what the parser has read. -/
theorem error_pointsInto_undefined :
    (parse ⟨.standard, { macros := [("\\m", "x")] }⟩ "\\m\\foo").1 =
      .error ⟨.undefinedCommand "\\foo", some ⟨⟨"\\m\\foo", 0⟩, 2, 6⟩⟩ ∧
    (CompileError.PointsInto
        ⟨.undefinedCommand "\\foo", some ⟨⟨"\\m\\foo", 0⟩, 2, 6⟩⟩ "\\m\\foo" ∨
      Feed.FailsInReplacement { macros := [("\\m", "x")] }
        (parse ⟨.standard, { macros := [("\\m", "x")] }⟩ "\\m\\foo").2
        ⟨.undefinedCommand "\\foo", some ⟨⟨"\\m\\foo", 0⟩, 2, 6⟩⟩) := by
  -- the macro takes two bytes of the text and its token none
  have hdrain : ((Parser.ofText "\\m\\foo").drain
      ⟨.standard, { macros := [("\\m", "x")] }⟩).toOption =
        some [⟨"x", none⟩, ⟨"\\foo", some ⟨⟨"\\m\\foo", 0⟩, 2, 6⟩⟩] := by
    decide +kernel
  obtain ⟨last, hsupplies⟩ := Parser.exists_supplies_of_drain hdrain
  have hletter : (Parser.ofText "\\m\\foo").start.feed
      ⟨.standard, { macros := [("\\m", "x")] }⟩ ⟨"x", none⟩ =
        Stack.take (.read (.expression .math none [.letter ⟨.math, none⟩ "x"] id), []) := rfl
  have hunknown : (Stack.expression .math none [.letter ⟨.math, none⟩ "x"] id).feed
      ⟨.standard, { macros := [("\\m", "x")] }⟩
      ⟨"\\foo", some ⟨⟨"\\m\\foo", 0⟩, 2, 6⟩⟩ =
        Stack.leave (.fail (.located (.undefinedCommand "\\foo")
          (some ⟨⟨"\\m\\foo", 0⟩, 2, 6⟩)), []) := rfl
  have hparse : (parse ⟨.standard, { macros := [("\\m", "x")] }⟩ "\\m\\foo").1 =
      .error ⟨.undefinedCommand "\\foo", some ⟨⟨"\\m\\foo", 0⟩, 2, 6⟩⟩ := by
    rw [parse_eq_of_supplies hsupplies, Stack.readList_eq, List.headD_cons, hletter,
      Stack.follow_take, List.tail_cons, Outcome.follow, Stack.readList_eq, List.headD_cons,
      hunknown]
    rfl
  exact ⟨hparse, error_pointsInto _ _ _ hparse⟩

/-- A control character in a replacement is an error at an offset that the text does not
have. -/
theorem error_in_replacement_points_outside :
    (parse ⟨.standard, { macros := [("\\m", "aaa\x01")] }⟩ "\\m").1 =
      .error ⟨.unexpectedToken "\x01", some ⟨⟨"aaa\x01", 1⟩, 3, 4⟩⟩ ∧
    ¬CompileError.PointsInto ⟨.unexpectedToken "\x01", some ⟨⟨"aaa\x01", 1⟩, 3, 4⟩⟩ "\\m" := by
  constructor
  · refine parse_of_fetch_error ?_
    decide +kernel
  · intro hpoints
    obtain ⟨found, hshows, -⟩ := hpoints 3 1 rfl rfl
    have hle := hshows.add_le
    have hsize : "\\m".utf8ByteSize = 2 := rfl
    omega

end Environment

end MathMarkup
