import MathMarkup.Proofs.Parser.Position
import MathMarkup.Proofs.Token.Rules

/-!
# The places of tokens

A token that was read from the document knows its place there, and the text at that place is
the text of the token; a blank stands for a whole run of blanks.  Tokens come in the order of
their places, also where macros put others between them.  Without macros every token has a
place.

## Main definitions

* `Span.Shows` — the characters at a place in a text.
* `Token.Stands` — what is at the place of a token.
* `StartsFrom` — tokens that stand behind an offset.
* `PlacedTokens` — tokens at their places in a text, in order.

## Main results

* `Span.Shows.join` — from one place to another.
* `Lexer.Tracks.stands_of_next` — the place of the next token.
* `Parser.Supplies.placed` — all tokens of a text are in place and in order.
* `Parser.Supplies.span_ne_none` — without macros all of them have a place.
-/

namespace MathMarkup

/-! ### What a place shows -/

/-- Whether a span is the place of some characters in a text: it is a span of this text, and the
text shows them there. -/
def Span.Shows (s : Span) (source : String) (found : List Char) : Prop :=
  s.document = ⟨source, 0⟩ ∧ s.start ≤ s.stop ∧
    Text.ShowsAt source s.start (s.stop - s.start) (String.ofList found)

/-- The place of some characters, in terms of what is in front of them and behind them. -/
theorem Span.shows_iff {s : Span} {source : String} {found : List Char} :
    s.Shows source found ↔ s.document = ⟨source, 0⟩ ∧
      ∃ before after, source.toList = before ++ (found ++ after) ∧
        s.start = Text.byteLength before ∧ s.stop = s.start + Text.byteLength found := by
  rw [Shows, Text.showsAt_iff]
  refine and_congr_right fun _ => ⟨?_, ?_⟩
  · rintro ⟨hle, before, after, hsource, hstart, hlength⟩
    exact ⟨before, after, by rw [hsource, List.append_assoc], hstart.symm, by omega⟩
  · rintro ⟨before, after, hsource, hstart, hstop⟩
    exact ⟨by omega, before, after, by rw [hsource, List.append_assoc], hstart.symm, by omega⟩

/-- Of two beginnings of a text the shorter one is the beginning of the longer one. -/
theorem Text.exists_append_of_byteLength_le {as bs cs ds : List Char} (h : as ++ bs = cs ++ ds)
    (hle : byteLength as ≤ byteLength cs) : ∃ mid, cs = as ++ mid ∧ bs = mid ++ ds := by
  -- where the first one is at least as long in characters, it is longer by nothing
  rcases List.append_eq_append_iff.mp h with ⟨mid, hcs, hbs⟩ | ⟨mid, has, hds⟩
  · exact ⟨mid, hcs, hbs⟩
  · rw [has, byteLength_append] at hle
    have hnil : mid = [] := List.length_eq_zero_iff.mp (by
      have := length_le_byteLength mid
      omega)
    exact ⟨[], by simp [has, hnil], by simp [hds, hnil]⟩

namespace Span.Shows

variable {s a b : Span} {source : String} {found first last : List Char}

theorem chars?_eq (h : s.Shows source found) : s.chars? = some found := by
  obtain ⟨hdocument, hplace⟩ := shows_iff.mp h
  rw [Span.chars?, hdocument]
  exact Text.slice?_eq_some_iff.mpr hplace

theorem text_eq (h : s.Shows source found) : s.text = String.ofList found := by
  rw [Span.text, h.chars?_eq]
  rfl

theorem stop_le (h : s.Shows source found) : s.stop ≤ source.utf8ByteSize := by
  obtain ⟨-, hle, hshows⟩ := h
  have hadd := hshows.add_le
  omega

theorem start_lt (h : s.Shows source found) (hne : found ≠ []) : s.start < s.stop := by
  obtain ⟨-, before, after, -, -, hstop⟩ := shows_iff.mp h
  have hlength := List.length_pos_iff.mpr hne
  have hle := Text.length_le_byteLength found
  omega

/-- From the start of one place to the end of a later one there are the characters of both. -/
theorem join (ha : a.Shows source first) (hb : b.Shows source last) (hle : a.stop ≤ b.start) :
    ∃ mid, Span.Shows ⟨a.document, a.start, b.stop⟩ source (first ++ mid ++ last) := by
  obtain ⟨hdocument, before, after, hsource, hstart, hstop⟩ := shows_iff.mp ha
  obtain ⟨-, before', after', hsource', hstart', hstop'⟩ := shows_iff.mp hb
  have htext : (before ++ first) ++ after = before' ++ (last ++ after') := by
    rw [List.append_assoc, ← hsource, hsource']
  obtain ⟨mid, hbefore, hafter⟩ := Text.exists_append_of_byteLength_le htext (by
    rw [Text.byteLength_append]
    omega)
  refine ⟨mid, shows_iff.mpr ⟨hdocument, before, after', ?_, hstart, ?_⟩⟩
  · rw [hsource', hbefore]
    simp only [List.append_assoc]
  · show b.stop = a.start + _
    rw [hbefore, Text.byteLength_append, Text.byteLength_append] at hstart'
    rw [Text.byteLength_append, Text.byteLength_append]
    omega

end Span.Shows

/-! ### Tokens at their places -/

/-- Whether a token, if it has a place in a text, stands there: the text at that place is its
own, or is a run of blanks. -/
def Token.Stands (t : Token) (source : String) : Prop :=
  ∀ s, t.span = some s → ∃ found, s.Shows source found ∧ found ≠ [] ∧
    if t.text = " " then ∀ c ∈ found, isBlank c = true else t.text = String.ofList found

/-- Tokens whose places, if they have any, are behind an offset. -/
def StartsFrom (offset : Nat) (ts : List Token) : Prop :=
  ∀ t ∈ ts, ∀ s, t.span = some s → offset ≤ s.start

theorem StartsFrom.of_suffix {offset : Nat} {ts rest : List Token} (h : StartsFrom offset ts)
    (hrest : rest <:+ ts) : StartsFrom offset rest :=
  fun t ht => h t (hrest.subset ht)

/-- Tokens that stand at their places in a text, one behind the other. -/
inductive PlacedTokens (source : String) : List Token → Prop where
  /-- No tokens. -/
  | nil : PlacedTokens source []
  /-- A token in front of others. -/
  | cons {t : Token} {ts : List Token} (ht : t.Stands source)
      (hbefore : ∀ s, t.span = some s → StartsFrom s.stop ts) (hts : PlacedTokens source ts) :
      PlacedTokens source (t :: ts)

theorem PlacedTokens.of_suffix {source : String} {ts rest : List Token}
    (h : PlacedTokens source ts) (hrest : rest <:+ ts) : PlacedTokens source rest := by
  induction h with
  | nil => exact List.suffix_nil.mp hrest ▸ .nil
  | @cons t ts ht hbefore hts ih =>
    rcases List.suffix_cons_iff.mp hrest with rfl | hrest
    · exact .cons ht hbefore hts
    · exact ih hrest

theorem PlacedTokens.stands {source : String} {ts : List Token} (h : PlacedTokens source ts) :
    ∀ t ∈ ts, t.Stands source := by
  induction h with
  | nil => exact fun t ht => absurd ht List.not_mem_nil
  | cons ht _ _ ih => exact List.forall_mem_cons.mpr ⟨ht, ih⟩

/-- The places of such tokens do not overlap. -/
theorem PlacedTokens.pairwise {source : String} {ts : List Token} (h : PlacedTokens source ts) :
    ts.Pairwise fun t u => ∀ a b, t.span = some a → u.span = some b → a.stop ≤ b.start := by
  induction h with
  | nil => exact .nil
  | cons _ hbefore _ ih =>
    refine .cons ?_ ih
    intro u hu a b ha hb
    exact hbefore a ha u hu b hb

/-! ### Reading tokens -/

namespace Lexeme

/-- A lexeme that is not the end has characters. -/
theorem taken_ne_nil_of_kind {cs : List Char} (h : (read cs).kind ≠ .finish) :
    (read cs).taken ≠ [] := by
  cases cs with
  | nil => exact absurd rfl h
  | cons c cs => exact taken_ne_nil c cs

theorem isBlank_of_mem_taken {cs : List Char} (h : (read cs).kind = .blank) :
    ∀ c ∈ (read cs).taken, isBlank c = true := by
  have hfits := fits_read cs
  generalize read cs = x at h hfits ⊢
  cases hfits with
  | blank hne hrun hstop => exact hrun
  | _ => cases h

end Lexeme

namespace Lexer

variable {o : Options} {lx : Lexer} {source : String} {t : Token}

theorem document_next (o : Options) (lx : Lexer) : (lx.next o).2.1.document = lx.document := by
  fun_induction next o lx with
  | case5 lx x hk ih => exact ih
  | _ => rfl

theorem position_le_next (o : Options) (lx : Lexer) : lx.position ≤ (lx.next o).2.1.position := by
  fun_induction next o lx with
  | case1 | case4 => exact Nat.le_refl _
  | case2 | case3 | case6 | case7 =>
    simp only [advance]
    omega
  | case5 lx x hk ih =>
    refine Nat.le_trans ?_ ih
    simp only [advance]
    omega

/-- The first lexeme is at the place where the lexer stands. -/
theorem Tracks.shows (h : lx.Tracks source) (hdocument : lx.document = ⟨source, 0⟩) :
    (lx.spanOf (Lexeme.read lx.rest)).Shows source (Lexeme.read lx.rest).taken := by
  refine ⟨hdocument, Nat.le_add_right _ _, ?_⟩
  simpa [spanOf] using h.showsAt

/-- The next token stands at its place, which is between where the lexer was and where it is then.
Comments in front of it are passed over. -/
theorem Tracks.stands_of_next (h : lx.Tracks source) (hdocument : lx.document = ⟨source, 0⟩)
    (ht : (lx.next o).1 = .ok t) (hend : t.isEnd = false) :
    t.Stands source ∧ ∃ s, t.span = some s ∧ lx.position ≤ s.start ∧
      s.stop ≤ (lx.next o).2.1.position := by
  -- one case for each kind of lexeme; comments are passed over
  fun_induction Lexer.next o lx with
  | case1 | case6 =>
    cases ht
    simp [Lexer.finish] at hend
  | case2 lx x hk =>
    cases ht
    refine ⟨?_, _, rfl, Nat.le_refl _, Nat.le_add_right _ _⟩
    intro s hs
    cases hs
    refine ⟨_, h.shows hdocument, Lexeme.taken_ne_nil_of_kind (by rw [hk]; decide), ?_⟩
    rw [if_pos rfl]
    exact Lexeme.isBlank_of_mem_taken hk
  | case3 lx x hk =>
    cases ht
    refine ⟨?_, _, rfl, Nat.le_refl _, Nat.le_add_right _ _⟩
    intro s hs
    cases hs
    refine ⟨_, h.shows hdocument, Lexeme.taken_ne_nil_of_kind (by rw [hk]; decide), ?_⟩
    split
    · rename_i hblank
      -- the only such token is a blank
      have htaken : (Lexeme.read lx.rest).taken = [' '] := String.ofList_injective hblank
      simp [htaken, isBlank]
    · rfl
  | case4 | case7 => cases ht
  | case5 lx x hk ih =>
    obtain ⟨hstands, s, hs, hstart, hstop⟩ := ih h.advance hdocument ht
    refine ⟨hstands, s, hs, ?_, hstop⟩
    simp only [Lexer.advance] at hstart
    omega

theorem span_ne_none_of_next (ht : (lx.next o).1 = .ok t) : t.span ≠ none := by
  fun_induction next o lx with
  | case1 | case2 | case3 | case6 =>
    cases ht
    exact Option.some_ne_none _
  | case4 | case7 => cases ht
  | case5 lx x hk ih => exact ih ht

end Lexer

/-- Without macros the next token is one of the document, and has a place. -/
theorem Feed.span_ne_none_of_pull {o : Options} {f f' : Feed} {t : Token} (hmacros : o.macros = [])
    (hpending : f.pending = []) (h : f.pull o = (.ok t, f')) :
    t.span ≠ none ∧ f'.pending = [] := by
  rcases hnext : f.lexer.next o with ⟨e | u, lexer, log⟩
  · have htake : f.take o = (.error e, { f with lexer := lexer }.report log) := by
      rw [take, hpending, hnext]
    rw [pull_of_take_error htake] at h
    cases h
  · have htake : f.take o = (.ok u, { f with lexer := lexer }.report log) := by
      rw [take, hpending, hnext]
    rw [pull_of_lookup_none htake (by rw [hmacros]; rfl)] at h
    cases h
    exact ⟨Lexer.span_ne_none_of_next (congrArg Prod.fst hnext), hpending⟩

/-- Whether what is left of a document is at its place, with an offset at or before it. -/
structure Feed.StandsIn (f : Feed) (source : String) (offset : Nat) : Prop where
  /-- The positions are those in the text. -/
  tracks : f.Tracks source
  /-- The document is the text. -/
  document : f.lexer.document = ⟨source, 0⟩
  /-- The lexer is behind the offset. -/
  offset_le : offset ≤ f.lexer.position

namespace Feed.StandsIn

variable {o : Options} {f f' : Feed} {source : String} {offset : Nat} {t : Token}

theorem take (h : f.StandsIn source offset) (htake : f.take o = (.ok t, f')) :
    f'.StandsIn source offset := by
  have htracks := (h.tracks.take htake).2
  unfold Feed.take at htake
  split at htake
  · cases htake
    exact ⟨htracks, h.document, h.offset_le⟩
  · have hdocument := Lexer.document_next o f.lexer
    have hposition := Lexer.position_le_next o f.lexer
    rcases hlexer : f.lexer.next o with ⟨result, lexer, log⟩
    rw [hlexer] at htake hdocument hposition
    cases htake
    exact ⟨htracks, hdocument.trans h.document, Nat.le_trans h.offset_le hposition⟩

/-- A token that is taken has no place, or stands between the offset and what is left. -/
theorem stands_of_take (h : f.StandsIn source offset) (htake : f.take o = (.ok t, f'))
    (hend : t.isEnd = false) : t.Stands source ∧
      ∀ s, t.span = some s → offset ≤ s.start ∧ s.stop ≤ f'.lexer.position := by
  unfold Feed.take at htake
  split at htake
  · rename_i u rest hrest
    cases htake
    -- what macros put in has no place
    have hspan : t.span = none := h.tracks.pending t (by simp [hrest])
    constructor <;> intro s hs <;> rw [hspan] at hs <;> cases hs
  · have hstands := h.tracks.lexer.stands_of_next h.document (o := o) (t := t)
    rcases hlexer : f.lexer.next o with ⟨result, lexer, log⟩
    rw [hlexer] at htake hstands
    cases htake
    obtain ⟨hplace, s, hs, hstart, hstop⟩ := hstands rfl hend
    refine ⟨hplace, fun s' hs' => ?_⟩
    obtain rfl : s = s' := Option.some.inj (hs.symm.trans hs')
    exact ⟨Nat.le_trans h.offset_le hstart, hstop⟩

theorem expand {replacement : String} {u : Unit} (h : f.StandsIn source offset)
    (hexpand : f.expand o t replacement = (.ok u, f')) : f'.StandsIn source offset := by
  have htracks := h.tracks.expand hexpand
  obtain ⟨-, tokens, log, -, rfl⟩ := expand_eq_ok hexpand
  exact ⟨htracks, h.document, h.offset_le⟩

/-- The next token that is no macro has no place, or stands between the offset and what is
left. -/
theorem pull (h : f.StandsIn source offset) (hpull : f.pull o = (.ok t, f'))
    (hend : t.isEnd = false) : t.Stands source ∧ f'.StandsIn source offset ∧
      ∀ s, t.span = some s → offset ≤ s.start ∧ f'.StandsIn source s.stop := by
  fun_induction Feed.pull o f with
  | case1 | case3 => cases hpull
  | case2 f u f₁ htake hmacro =>
    cases hpull
    have hfeed := h.take htake
    obtain ⟨hstands, hplace⟩ := h.stands_of_take htake hend
    refine ⟨hstands, hfeed, fun s hs => ?_⟩
    obtain ⟨hstart, hstop⟩ := hplace s hs
    exact ⟨hstart, hfeed.tracks, hfeed.document, hstop⟩
  | case4 f u f₁ htake replacement hmacro v f₂ hexpand ih =>
    exact ih ((h.take htake).expand hexpand) hpull

end Feed.StandsIn

namespace Parser

variable {env : Environment} {p : Parser} {source : String} {offset : Nat} {ts : List Token}
  {last : Token}

/-- What a parser fetches comes out of its feed if there is nothing in view. -/
theorem pull_of_fetch (hview : p.lookahead = none) {t : Token} (h : (p.fetch env).1 = .ok t) :
    p.feed.pull env.options = (.ok t, (p.fetch env).2.consume.feed) := by
  unfold fetch at h ⊢
  rw [hview] at h ⊢
  rcases hpull : p.feed.pull env.options with ⟨e | u, f⟩ <;> simp only [hpull] at h ⊢
  · cases h
  · cases h
    rfl

/-- Tokens that a parser has before it stand in the text behind an offset, in order. -/
theorem Supplies.placed_of_standsIn (h : p.Supplies env ts last) (hview : p.lookahead = none)
    (hfeed : p.feed.StandsIn source offset) : PlacedTokens source ts ∧ StartsFrom offset ts := by
  -- on the tokens; the offset moves to the end of each one that has a place
  induction ts generalizing p offset with
  | nil => exact ⟨.nil, fun t ht => absurd ht List.not_mem_nil⟩
  | cons t ts ih =>
    obtain ⟨hfetch, hend, hrest⟩ := h
    have hpull := pull_of_fetch hview hfetch
    obtain ⟨hstands, hfeed', hplace⟩ := hfeed.pull hpull hend
    obtain ⟨hts, hfrom⟩ := ih hrest rfl hfeed'
    refine ⟨.cons hstands (fun s hs => ?_) hts, ?_⟩
    · exact (ih hrest rfl (hplace s hs).2).2
    · intro u hu s hs
      rcases List.mem_cons.mp hu with rfl | hu
      · exact (hplace s hs).1
      · exact hfrom u hu s hs

theorem standsIn_ofText (source : String) : (Parser.ofText source).feed.StandsIn source 0 :=
  ⟨⟨Lexer.tracks_ofDocument ⟨source, 0⟩, fun _ ht => absurd ht List.not_mem_nil⟩, rfl,
    Nat.zero_le _⟩

/-- **The tokens of a text stand at their places, in order.**  Tokens that macros put in have no
place, and those of the text around them are still in order. -/
theorem Supplies.placed (h : (Parser.ofText source).Supplies env ts last) :
    PlacedTokens source ts :=
  (h.placed_of_standsIn rfl (standsIn_ofText source)).1

/-- Without macros every token has a place. -/
theorem Supplies.span_ne_none (h : p.Supplies env ts last) (hmacros : env.options.macros = [])
    (hview : p.lookahead = none) (hpending : p.feed.pending = []) : ∀ t ∈ ts, t.span ≠ none := by
  induction ts generalizing p with
  | nil => exact fun t ht => absurd ht List.not_mem_nil
  | cons t ts ih =>
    obtain ⟨hfetch, -, hrest⟩ := h
    obtain ⟨hspan, hpending'⟩ :=
      Feed.span_ne_none_of_pull hmacros hpending (pull_of_fetch hview hfetch)
    exact List.forall_mem_cons.mpr ⟨hspan, ih hrest rfl hpending'⟩

end Parser

end MathMarkup
