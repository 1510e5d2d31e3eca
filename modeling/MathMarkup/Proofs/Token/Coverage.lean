import MathMarkup.Proofs.Token.Place

/-!
# The tokens of a text cover it

A text falls into lexemes in one way only.  Each run of blanks is a token, and so is each control
sequence and each character with its marks; they stand in the text one behind the other, and
what is between them are comments and the blanks behind control words.  Reading ends at the end
of the text, where the end marker is read again and again, or at the first character that belongs
to no token; a comment without the end of its line is an error if the strict policy says so.

## Main definitions

* `Lexer.Listing`, `Lexer.list` — what is read of a document token by token.
* `Lexeme.Cuts` — a text falls into lexemes.
* `Lexeme.text?`, `Lexeme.tokensFrom` — the tokens of lexemes, with their places.
* `Lexeme.IsGap` — what can stand between tokens.
* `Lexeme.Refused` — a rest of a text at which reading fails.
* `Lexer.Coverage` — how the tokens of a text cover it.

## Main results

* `Lexeme.exists_cuts`, `Lexeme.Cuts.unique` — a text falls into lexemes in one way only.
* `Lexer.list_eq_of_cuts` — the tokens that are read are those of the lexemes.
* `Lexeme.Cuts.covered` — every byte is part of a token, of a comment or of blanks behind a
  control word.
* `Lexer.coverage_list` — **the tokens of a text cover it.**
-/

namespace MathMarkup

/-! ### Reading token by token -/

/-- What is read of a document: its tokens, what comes behind the last of them, and where the
lexer is then. -/
structure Lexer.Listing where
  /-- The tokens up to the end marker or an error. -/
  tokens : List Token
  /-- The end marker or an error. -/
  ending : Except CompileError Token
  /-- Where the lexer is then. -/
  lexer : Lexer

/-- The listing with one more token in front. -/
def Lexer.Listing.cons (t : Token) (l : Listing) : Listing := { l with tokens := t :: l.tokens }

namespace Lexer

/-- Reads one token after the other, up to the end marker or an error. -/
def list (o : Options) (lx : Lexer) : Listing :=
  match _h : lx.next o with
  | (.error e, lx', _) => ⟨[], .error e, lx'⟩
  | (.ok t, lx', _) =>
      if _ht : t.isEnd then ⟨[], .ok t, lx'⟩ else (list o lx').cons t
termination_by lx.rest.length
decreasing_by
  exact next_shorter _h (by simpa using _ht)

theorem list_eq (o : Options) (lx : Lexer) :
    lx.list o = match lx.next o with
      | (.error e, lx', _) => ⟨[], .error e, lx'⟩
      | (.ok t, lx', _) => if t.isEnd then ⟨[], .ok t, lx'⟩ else (lx'.list o).cons t := by
  rw [list]
  split <;> rename_i h <;> simp only [h]
  split <;> rfl

/-- The lexer after so many more tokens. -/
def ahead (o : Options) : Nat → Lexer → Lexer
  | 0, lx => lx
  | n + 1, lx => ahead o n (lx.next o).2.1

/-- At the end of a text the end marker is read again and again. -/
theorem next_ahead {lx : Lexer} (h : lx.rest = []) (o : Options) (n : Nat) :
    ((lx.ahead o n).next o).1 = .ok lx.finish := by
  have hkind : (Lexeme.read lx.rest).kind = .finish := by rw [h]; rfl
  have hnext := next_of_finish o hkind
  induction n with
  | zero => rw [ahead, hnext]
  | succ n ih => rwa [ahead, hnext]

end Lexer

/-! ### Cutting a text into lexemes -/

namespace Lexeme

/-- A text falls into lexemes that fit the rules, and a last one behind which nothing is read. -/
inductive Cuts : List Char → List Lexeme → Lexeme → Prop where
  /-- The last lexeme. -/
  | last {x : Lexeme} (hfits : x.Fits) (hlast : x.isLast = true) : Cuts x.whole [] x
  /-- A lexeme in front of others. -/
  | cons {x last : Lexeme} {xs : List Lexeme} (hfits : x.Fits) (hlast : x.isLast = false)
      (hrest : Cuts x.rest xs last) : Cuts x.whole (x :: xs) last

variable {cs : List Char} {xs : List Lexeme} {last : Lexeme}

theorem cuts_iff_of_isLast (h : (read cs).isLast = true) :
    Cuts cs xs last ↔ xs = [] ∧ last = read cs := by
  constructor
  · intro hcuts
    cases hcuts with
    | last hfits hlast => exact ⟨rfl, hfits.read_whole.symm⟩
    | cons hfits hlast hrest =>
      rw [hfits.read_whole, hlast] at h
      cases h
  · rintro ⟨rfl, rfl⟩
    have hcuts := Cuts.last (fits_read cs) h
    rwa [read_eq] at hcuts

theorem cuts_iff_of_not_isLast (h : (read cs).isLast = false) :
    Cuts cs xs last ↔ ∃ ys, xs = read cs :: ys ∧ Cuts (read cs).rest ys last := by
  constructor
  · intro hcuts
    cases hcuts with
    | last hfits hlast =>
      rw [hfits.read_whole, hlast] at h
      cases h
    | @cons x _ ys hfits hlast hrest =>
      rw [hfits.read_whole]
      exact ⟨ys, rfl, hrest⟩
  · rintro ⟨ys, rfl, hrest⟩
    have hcuts := Cuts.cons (fits_read cs) h hrest
    rwa [read_eq] at hcuts

/-- A text falls into lexemes. -/
theorem exists_cuts (cs : List Char) : ∃ xs last, Cuts cs xs last := by
  -- on the length, as a lexeme may take any number of characters
  induction hlength : cs.length using Nat.strongRecOn generalizing cs with
  | ind n ih =>
    cases hlast : (read cs).isLast with
    | true => exact ⟨[], read cs, (cuts_iff_of_isLast hlast).mpr ⟨rfl, rfl⟩⟩
    | false =>
      have hshorter : (read cs).rest.length < n := by
        refine hlength ▸ length_rest_lt rfl ?_
        intro hkind
        simp [isLast, hkind] at hlast
      obtain ⟨ys, last, hrest⟩ := ih _ hshorter (read cs).rest rfl
      exact ⟨read cs :: ys, last, (cuts_iff_of_not_isLast hlast).mpr ⟨ys, rfl, hrest⟩⟩

namespace Cuts

/-- A text falls into lexemes in one way only. -/
theorem unique {xs' : List Lexeme} {last' : Lexeme} (h : Cuts cs xs last)
    (h' : Cuts cs xs' last') : xs' = xs ∧ last' = last := by
  -- the rules fix the first lexeme, and what is behind it is a shorter text
  induction h generalizing xs' last' with
  | @last x hfits hlast =>
    have hread : (read x.whole).isLast = true := by rw [hfits.read_whole, hlast]
    obtain ⟨rfl, rfl⟩ := (cuts_iff_of_isLast hread).mp h'
    exact ⟨rfl, hfits.read_whole⟩
  | @cons x last xs hfits hlast hrest ih =>
    have hread : (read x.whole).isLast = false := by rw [hfits.read_whole, hlast]
    obtain ⟨ys, rfl, hrest'⟩ := (cuts_iff_of_not_isLast hread).mp h'
    rw [hfits.read_whole] at hrest' ⊢
    obtain ⟨rfl, rfl⟩ := ih hrest'
    exact ⟨rfl, rfl⟩

/-- The last lexeme fits the rules, and nothing is read behind it. -/
theorem fits_last (h : Cuts cs xs last) : last.Fits ∧ last.isLast = true := by
  induction h with
  | last hfits hlast => exact ⟨hfits, hlast⟩
  | cons _ _ _ ih => exact ih

end Cuts

/-! ### The tokens of lexemes -/

/-- The text of the token of a lexeme, if it is one.  A run of blanks counts as one space. -/
def text? (x : Lexeme) : Option String :=
  match x.kind with
  | .blank => some " "
  | .plain => some (String.ofList x.taken)
  | .finish | .stray | .comment _ => none

/-- The token of a lexeme at an offset of a document, if it is one. -/
def token? (d : Document) (position : Nat) (x : Lexeme) : Option Token :=
  x.text?.map (⟨·, some ⟨d, position, position + Text.byteLength x.taken⟩⟩)

/-- The tokens of some lexemes, the first of which is at an offset of a document. -/
def tokensFrom (d : Document) : Nat → List Lexeme → List Token
  | _, [] => []
  | position, x :: xs =>
      (x.token? d position).toList ++
        tokensFrom d (position + Text.byteLength x.taken + Text.byteLength x.skipped) xs

end Lexeme

namespace Lexer

open Lexeme

variable {o : Options} {lx : Lexer} {xs : List Lexeme} {last : Lexeme} {source : String}

/-- The lexer behind some lexemes. -/
def pass (lx : Lexer) (xs : List Lexeme) : Lexer := xs.foldl advance lx

theorem list_of_token {t : Token} {lx' : Lexer} {log : Log} (h : lx.next o = (.ok t, lx', log))
    (hend : t.isEnd = false) : lx.list o = (lx'.list o).cons t := by
  rw [list_eq, h]
  simp [hend]

/-- At a lexeme behind which nothing is read, there is the end marker or an error. -/
theorem isEnd_of_isLast (h : (read lx.rest).isLast = true) {t : Token}
    (ht : (lx.next o).1 = .ok t) : t.isEnd = true := by
  rw [next_eq] at ht
  -- the end of the text, a character of no token, and a comment that the policy decides about
  rcases isLast_iff.mp h with hk | hk | hk <;> rw [hk] at ht
  · cases ht
    exact Token.isEnd_finish _
  · cases ht
  · generalize (o.report openComment).1 = result at ht
    cases result with
    | error e => cases ht
    | ok u =>
      cases ht
      exact Token.isEnd_finish _

/-- The tokens that are read are those of the lexemes, and behind them the last lexeme is read. -/
theorem list_eq_of_cuts (h : Cuts lx.rest xs last) :
    lx.list o = ⟨tokensFrom lx.document lx.position xs, ((lx.pass xs).next o).1,
      ((lx.pass xs).next o).2.1⟩ := by
  generalize hcs : lx.rest = cs at h
  -- on the lexemes; the lexer is passed on, as its position counts what is behind it
  induction h generalizing lx with
  | @last x hfits hlast =>
    have hread : (read lx.rest).isLast = true := by rw [hcs, hfits.read_whole, hlast]
    have hend := @isEnd_of_isLast o lx hread
    rw [list_eq]
    rcases hnext : lx.next o with ⟨e | t, lx', log⟩
    · simp [pass, tokensFrom, hnext]
    · simp [pass, tokensFrom, hnext, hend (by rw [hnext])]
  | @cons x last xs hfits hlast hrest ih =>
    have hread : read lx.rest = x := by rw [hcs, hfits.read_whole]
    have hih := @ih (lx.advance x) rfl
    have hpass : lx.pass (x :: xs) = (lx.advance x).pass xs := rfl
    rw [hpass]
    rcases isLast_eq_false_iff.mp hlast with hk | hk | hk
    · have hnext := @next_of_blank lx o (by rw [hread, hk])
      rw [hread] at hnext
      rw [list_of_token hnext rfl, hih]
      simp [Listing.cons, tokensFrom, token?, text?, hk, advance, spanOf]
    · have hk' : (read lx.rest).kind = .plain := by rw [hread, hk]
      have hnext := next_of_plain o hk'
      rw [list_of_token hnext (isEnd_of_plain hk' _), hread, hih]
      simp [Listing.cons, tokensFrom, token?, text?, hk, advance, spanOf]
    · have hnext := @next_of_comment lx o (by rw [hread, hk])
      rw [hread] at hnext
      rw [list_eq, hnext, ← list_eq, hih]
      simp [tokensFrom, token?, text?, hk, advance]

/-- Behind the lexemes of a text there is the last one. -/
theorem rest_pass (h : Cuts lx.rest xs last) :
    (lx.pass xs).rest = last.whole ∧ (lx.pass xs).document = lx.document ∧
      (lx.Tracks source → (lx.pass xs).Tracks source) := by
  generalize hcs : lx.rest = cs at h
  induction h generalizing lx with
  | last hfits hlast => exact ⟨hcs, rfl, id⟩
  | @cons x last xs hfits hlast hrest ih =>
    have hread : read lx.rest = x := by rw [hcs, hfits.read_whole]
    obtain ⟨hlast, hdocument, htracks⟩ := @ih (lx.advance x) rfl
    refine ⟨hlast, hdocument, fun h => htracks ?_⟩
    rw [← hread]
    exact h.advance

/-- The tokens that are read stand at their places, in order. -/
theorem placed_list (h : lx.Tracks source) (hdocument : lx.document = ⟨source, 0⟩) :
    PlacedTokens source (lx.list o).tokens ∧ StartsFrom lx.position (lx.list o).tokens := by
  -- the recursion of the listing; a token ends where the lexer is then, and all others start there
  fun_induction list o lx with
  | case1 | case2 => exact ⟨.nil, fun t ht => absurd ht List.not_mem_nil⟩
  | case3 lx t lx' log hnext hend ih =>
    have hstands := h.stands_of_next hdocument (o := o) (t := t)
    have htracks := h.next o
    have hdocument' := document_next o lx
    rw [hnext] at hstands htracks hdocument'
    obtain ⟨hplaced, hfrom⟩ := ih htracks (hdocument'.trans hdocument)
    obtain ⟨ht, s, hs, hstart, hstop⟩ := hstands rfl (by simpa using hend)
    refine ⟨.cons ht ?_ hplaced, ?_⟩
    · intro s' hs' u hu r hr
      obtain rfl : s = s' := Option.some.inj (hs.symm.trans hs')
      exact Nat.le_trans hstop (hfrom u hu r hr)
    · have hle := position_le_next o lx
      rw [hnext] at hle
      intro u hu r hr
      rcases List.mem_cons.mp hu with rfl | hu
      · obtain rfl : s = r := Option.some.inj (hs.symm.trans hr)
        exact hstart
      · exact Nat.le_trans hle (hfrom u hu r hr)

theorem span_ne_none_of_mem_list {t : Token} (ht : t ∈ (lx.list o).tokens) : t.span ≠ none := by
  fun_induction list o lx with
  | case1 | case2 => exact absurd ht List.not_mem_nil
  | case3 lx u lx' log hnext hend ih =>
    rcases List.mem_cons.mp ht with rfl | ht
    · exact span_ne_none_of_next (congrArg Prod.fst hnext)
    · exact ih ht

end Lexer

/-- A token that has a place stands there. -/
theorem Token.Stands.exists_shown {t : Token} {source : String} (h : t.Stands source)
    (hspan : t.span ≠ none) :
    ∃ s found, t.span = some s ∧ s.Shows source found ∧ s.start < s.stop ∧
      (t.text = String.ofList found ∨ t.text = " " ∧ ∀ c ∈ found, isBlank c = true) := by
  obtain ⟨s, hs⟩ := Option.ne_none_iff_exists'.mp hspan
  obtain ⟨found, hshows, hne, htext⟩ := h s hs
  refine ⟨s, found, hs, hshows, hshows.start_lt hne, ?_⟩
  split at htext
  · rename_i hblank
    exact .inr ⟨hblank, htext⟩
  · exact .inl htext

/-! ### What is between the tokens -/

namespace Lexeme

variable {o : Options} {cs : List Char} {xs : List Lexeme} {last : Lexeme} {source : String}

/-- What can stand between tokens, with the text on both sides of it: a comment through the end of
its line or of the text, and the blanks directly behind a control word, as far as they go. -/
inductive IsGap (ts : List Token) (before gap after : List Char) : Prop where
  /-- A comment through the end of its line. -/
  | comment {body : List Char} (hbody : '\n' ∉ body) (hgap : gap = '%' :: (body ++ ['\n']))
  /-- A comment to the end of the text. -/
  | openComment {body : List Char} (hbody : '\n' ∉ body) (hgap : gap = '%' :: body)
      (hafter : after = [])
  /-- Blanks behind a control word. -/
  | blanks {slashes name : List Char} {s : Span}
      (hslashes : slashes = ['\\'] ∨ slashes = ['\\', '\\']) (hne : name ≠ [])
      (hname : ∀ c ∈ name, isNameChar c = true)
      (hword : ⟨String.ofList (slashes ++ name), some s⟩ ∈ ts)
      (hplace : s.stop = Text.byteLength before) (hgap : ∀ c ∈ gap, isBlank c = true)
      (hafter : Stops isBlank after)

/-- Whether a byte is part of a token. -/
def InToken (ts : List Token) (offset : Nat) : Prop :=
  ∃ t ∈ ts, ∃ s, t.span = some s ∧ s.start ≤ offset ∧ offset < s.stop

/-- Whether a token does not reach into a place. -/
def Avoids (start stop : Nat) (t : Token) : Prop :=
  ∀ s, t.span = some s → s.stop ≤ start ∨ stop ≤ s.start

/-- Whether a byte is part of what stands between tokens. -/
def InGap (source : String) (ts : List Token) (offset : Nat) : Prop :=
  ∃ before gap after, source.toList = before ++ (gap ++ after) ∧ IsGap ts before gap after ∧
    (∀ t ∈ ts, Avoids (Text.byteLength before) (Text.byteLength before + Text.byteLength gap) t) ∧
    Text.byteLength before ≤ offset ∧ offset < Text.byteLength before + Text.byteLength gap

theorem span_of_token? {d : Document} {position : Nat} {x : Lexeme} {t : Token}
    (h : x.token? d position = some t) :
    t.span = some ⟨d, position, position + Text.byteLength x.taken⟩ := by
  obtain ⟨text, -, rfl⟩ := Option.map_eq_some_iff.mp h
  rfl

/-- The tokens of some lexemes start where the first lexeme does, or behind that. -/
theorem startsFrom_tokensFrom (d : Document) (position : Nat) (xs : List Lexeme) :
    StartsFrom position (tokensFrom d position xs) := by
  induction xs generalizing position with
  | nil => exact fun t ht => absurd ht List.not_mem_nil
  | cons x xs ih =>
    intro t ht s hs
    rcases List.mem_append.mp ht with ht | ht
    · rw [span_of_token? (Option.mem_toList.mp ht)] at hs
      exact Option.some.inj hs ▸ Nat.le_refl position
    · have hle := ih _ t ht s hs
      omega

/-- Every byte of a lexeme is part of its token, or stands between tokens. -/
theorem Fits.covered {x : Lexeme} (h : x.Fits) (hlast : x.isLast = false) {before : List Char}
    (hsource : source.toList = before ++ x.whole) {ts : List Token}
    (hts : ∀ t ∈ x.token? ⟨source, 0⟩ (Text.byteLength before), t ∈ ts)
    (hothers : ∀ t ∈ ts, t ∈ x.token? ⟨source, 0⟩ (Text.byteLength before) ∨
      Avoids (Text.byteLength before)
        (Text.byteLength before + Text.byteLength x.taken + Text.byteLength x.skipped) t)
    {offset : Nat} (hstart : Text.byteLength before ≤ offset)
    (hstop : offset <
      Text.byteLength before + Text.byteLength x.taken + Text.byteLength x.skipped) :
    InToken ts offset ∨ InGap source ts offset := by
  have htoken : ∀ {text : String}, offset < Text.byteLength before + Text.byteLength x.taken →
      x.token? ⟨source, 0⟩ (Text.byteLength before) = some ⟨text, some ⟨⟨source, 0⟩,
        Text.byteLength before, Text.byteLength before + Text.byteLength x.taken⟩⟩ →
      InToken ts offset :=
    fun hlt heq => ⟨_, hts _ heq, _, rfl, hstart, hlt⟩
  cases h with
  | finish | openComment | slash | control => cases hlast
  | blank hne hrun _ => exact .inl (htoken hstop rfl)
  | symbol hc _ => exact .inl (htoken hstop rfl)
  | character _ _ _ _ _ => exact .inl (htoken hstop rfl)
  | @comment body rest hbody =>
    refine .inr ⟨before, '%' :: (body ++ ['\n']), rest, ?_, .comment hbody rfl, ?_, hstart, hstop⟩
    · simpa [whole] using hsource
    · -- a comment is no token, so all of them are elsewhere
      intro t ht
      rcases hothers t ht with hown | havoids
      · cases hown
      · exact havoids
  | @word slashes name skipped rest hslashes hne hname hstop' hskipped hblank =>
    by_cases hlt : offset < Text.byteLength before + Text.byteLength (slashes ++ name)
    · exact .inl (htoken hlt rfl)
    · have hbytes := Text.byteLength_append before (slashes ++ name)
      refine .inr ⟨before ++ (slashes ++ name), skipped, rest, ?_,
        .blanks hslashes hne hname (hts _ rfl) hbytes.symm hskipped hblank, ?_, ?_, ?_⟩
      · simpa [whole] using hsource
      · -- the control word ends where the blanks start
        intro t ht s hs
        rcases hothers t ht with hown | havoids
        · rw [span_of_token? hown] at hs
          obtain rfl := Option.some.inj hs
          exact .inl (Nat.le_of_eq hbytes.symm)
        · refine (havoids s hs).imp (fun hle => ?_) (fun hle => ?_)
          · omega
          · rwa [hbytes]
      · omega
      · rwa [hbytes]

/-- Every byte is part of a token or stands between tokens, up to a character that is part of no
token.  Tokens of other lexemes may be known already, if they end in front of these. -/
theorem Cuts.covered (h : Cuts cs xs last) {before : List Char}
    (hsource : source.toList = before ++ cs) {ts : List Token}
    (hts : ∀ t ∈ tokensFrom ⟨source, 0⟩ (Text.byteLength before) xs, t ∈ ts)
    (hothers : ∀ t ∈ ts, t ∈ tokensFrom ⟨source, 0⟩ (Text.byteLength before) xs ∨
      ∀ s, t.span = some s → s.stop ≤ Text.byteLength before)
    {offset : Nat} (hstart : Text.byteLength before ≤ offset)
    (hstop : offset < source.utf8ByteSize) :
    InToken ts offset ∨ InGap source ts offset ∨
      last.kind = .stray ∧ source.utf8ByteSize ≤ offset + Text.byteLength last.whole := by
  induction h generalizing before with
  | @last x hfits hlast =>
    have hbytes := Text.utf8ByteSize_eq source
    rw [hsource, Text.byteLength_append] at hbytes
    cases hfits with
    | finish =>
      simp only [whole, List.append_nil, Text.byteLength_nil] at hbytes
      omega
    | @openComment body hbody =>
      refine .inr (.inl ⟨before, '%' :: body, [], ?_, .openComment hbody rfl rfl, ?_, hstart, ?_⟩)
      · simpa [whole] using hsource
      · exact fun t ht s hs => .inl ((hothers t ht).resolve_left List.not_mem_nil s hs)
      · rw [hbytes] at hstop
        simpa [whole] using hstop
    | slash | control => exact .inr (.inr ⟨rfl, by omega⟩)
    | blank | comment | word | symbol | character => cases hlast
  | @cons x last xs hfits hlast hrest ih =>
    rw [tokensFrom] at hts hothers
    have hbytes : Text.byteLength (before ++ (x.taken ++ x.skipped)) =
        Text.byteLength before + Text.byteLength x.taken + Text.byteLength x.skipped := by
      simp only [Text.byteLength_append]
      omega
    by_cases hlt : offset <
        Text.byteLength before + Text.byteLength x.taken + Text.byteLength x.skipped
    · -- in the first lexeme: the other tokens are in front of it or behind it
      refine (hfits.covered hlast hsource ?_ ?_ hstart hlt).imp id .inl
      · exact fun t ht => hts t (List.mem_append_left _ (Option.mem_toList.mpr ht))
      · intro t ht
        rcases hothers t ht with hmem | hbefore
        · refine (List.mem_append.mp hmem).imp Option.mem_toList.mp fun hbehind s hs => .inr ?_
          exact startsFrom_tokensFrom _ _ xs t hbehind s hs
        · exact .inr fun s hs => .inl (hbefore s hs)
    · -- behind it
      refine @ih (before ++ (x.taken ++ x.skipped)) ?_ (fun t ht => ?_) (fun t ht => ?_) (by omega)
      · rw [hsource, whole]
        simp only [List.append_assoc]
      · rw [hbytes] at ht
        exact hts t (List.mem_append_right _ ht)
      · rw [hbytes]
        rcases hothers t ht with hmem | hbefore
        · refine (List.mem_append.mp hmem).symm.imp id fun hown s hs => ?_
          rw [span_of_token? (Option.mem_toList.mp hown)] at hs
          obtain rfl := Option.some.inj hs
          exact Nat.le_add_right _ _
        · refine .inr fun s hs => Nat.le_trans (hbefore s hs) ?_
          omega

/-! ### Where reading ends -/

/-- Whether reading fails in front of a rest of a text: it starts with a control character that is
no blank, it is a single backslash, or it is a comment without the end of its line and the strict
policy makes an error of that. -/
def Refused (o : Options) (rest : List Char) : Prop :=
  (∃ c cs, rest = c :: cs ∧ c.val < 0x21 ∧ isBlank c = false) ∨ rest = ['\\'] ∨
    (∃ body, rest = '%' :: body ∧ '\n' ∉ body) ∧ o.strict.resolve Lexer.openComment = .error

/-- Of the last lexemes, those are refused that are part of no token, and comments if the strict
policy says so. -/
theorem Fits.refused_iff {x : Lexeme} (h : x.Fits) (hlast : x.isLast = true) :
    Refused o x.whole ↔ x.kind = .stray ∨
      x.kind = .comment false ∧ o.strict.resolve Lexer.openComment = .error := by
  cases h with
  | finish => simp [Refused, whole]
  | openComment hbody => simp [Refused, whole, hbody]
  | slash => simp [Refused, whole]
  | control hcontrol hblank => simp [Refused, whole, hcontrol, hblank]
  | blank | comment | word | symbol | character => cases hlast

end Lexeme

namespace Lexer

open Lexeme

variable {o : Options} {lx : Lexer} {source : String}

/-- A comment without the end of its line is an error exactly if the strict policy says so. -/
theorem report_eq_error_iff {breach : Breach} :
    (∃ e, (o.report breach).1 = .error e) ↔ o.strict.resolve breach = .error := by
  simp only [Options.report, Options.consult]
  cases o.strict.resolve breach <;> simp

theorem refused_rest_iff (h : (read lx.rest).isLast = true) :
    Refused o lx.rest ↔ (read lx.rest).kind = .stray ∨
      (read lx.rest).kind = .comment false ∧ o.strict.resolve openComment = .error := by
  rw [← (fits_read lx.rest).refused_iff h, read_eq]

/-- What is refused is an error. -/
theorem exists_error_of_refused (h : (read lx.rest).isLast = true) (hrefused : Refused o lx.rest) :
    ∃ e, (lx.next o).1 = .error e := by
  rw [next_eq]
  rcases (refused_rest_iff h).mp hrefused with hk | ⟨hk, hstrict⟩ <;> rw [hk]
  · exact ⟨_, rfl⟩
  · obtain ⟨e, he⟩ := report_eq_error_iff.mpr hstrict
    exact ⟨e, by rw [he]; rfl⟩

/-- If nothing is refused, the end of the text is reached. -/
theorem finish_of_not_refused (h : (read lx.rest).isLast = true) (hrefused : ¬ Refused o lx.rest) :
    (lx.next o).1 = .ok (lx.next o).2.1.finish ∧ (lx.next o).2.1.rest = [] := by
  rw [refused_rest_iff h, not_or, not_and] at hrefused
  rw [next_eq]
  rcases isLast_iff.mp h with hk | hk | hk
  · rw [hk]
    exact ⟨rfl, eq_nil_of_kind hk⟩
  · exact absurd hk hrefused.1
  · have hrest := (fits_read lx.rest).rest_of_openComment hk
    rw [hk]
    cases hreport : (o.report openComment).1 with
    | error e => exact absurd (report_eq_error_iff.mp ⟨e, hreport⟩) (hrefused.2 hk)
    | ok u => exact ⟨rfl, hrest⟩

/-- The end marker at the end of a text. -/
theorem finish_of_tracks (h : lx.Tracks source) (hdocument : lx.document = ⟨source, 0⟩)
    (hrest : lx.rest = []) : lx.finish =
      .finish (some ⟨⟨source, 0⟩, source.utf8ByteSize, source.utf8ByteSize⟩) := by
  obtain ⟨before, hsource, hposition⟩ := h
  rw [hrest, List.append_nil] at hsource
  rw [finish, hdocument, hposition, ← hsource, Text.utf8ByteSize_eq]

/-- Behind the last token there is an error exactly if what is left is refused. -/
theorem exists_error_iff (h : (read lx.rest).isLast = true) :
    (∃ e, (lx.next o).1 = .error e) ↔ Refused o lx.rest := by
  constructor
  · rintro ⟨e, he⟩
    by_contra hrefused
    rw [(finish_of_not_refused h hrefused).1] at he
    cases he
  · exact exists_error_of_refused h

/-- Otherwise there is the end marker at the end of the text, again and again. -/
theorem finish_again (htracks : lx.Tracks source) (hdocument : lx.document = ⟨source, 0⟩)
    (h : (read lx.rest).isLast = true) (hrefused : ¬ Refused o lx.rest) :
    (lx.next o).1 =
        .ok (.finish (some ⟨⟨source, 0⟩, source.utf8ByteSize, source.utf8ByteSize⟩)) ∧
      ∀ n, (((lx.next o).2.1.ahead o n).next o).1 = (lx.next o).1 := by
  obtain ⟨hending, hnil⟩ := finish_of_not_refused h hrefused
  have hfinish := finish_of_tracks (htracks.next o) ((document_next o lx).trans hdocument) hnil
  rw [hending, hfinish]
  refine ⟨rfl, fun n => ?_⟩
  rw [next_ahead hnil, hfinish]

/-- How the tokens of a text cover it, given the lexemes that it falls into. -/
structure Coverage (o : Options) (source : String) (xs : List Lexeme) (last : Lexeme)
    (l : Listing) : Prop where
  /-- The tokens are those of the lexemes. -/
  tokens_eq : l.tokens = tokensFrom ⟨source, 0⟩ 0 xs
  /-- Each of them stands at a place in the text, which is not empty.  The text at this place is
  its own, or is a run of blanks. -/
  shown : ∀ t ∈ l.tokens, ∃ s found, t.span = some s ∧ s.Shows source found ∧ s.start < s.stop ∧
    (t.text = String.ofList found ∨ t.text = " " ∧ ∀ c ∈ found, isBlank c = true)
  /-- They stand one behind the other. -/
  ordered : l.tokens.Pairwise fun t u =>
    ∀ a b, t.span = some a → u.span = some b → a.stop ≤ b.start
  /-- Every byte is part of a token or stands between tokens, up to a character that is part of no
  token. -/
  covered : ∀ offset < source.utf8ByteSize, InToken l.tokens offset ∨ InGap source l.tokens offset ∨
    last.kind = .stray ∧ source.utf8ByteSize ≤ offset + Text.byteLength last.whole
  /-- Reading ends with an error exactly if what is left is refused. -/
  error_iff : (∃ e, l.ending = .error e) ↔ Refused o last.whole
  /-- Otherwise it ends with the end marker, which is read again and again. -/
  finished : ¬ Refused o last.whole →
    l.ending = .ok (.finish (some ⟨⟨source, 0⟩, source.utf8ByteSize, source.utf8ByteSize⟩)) ∧
      ∀ n, ((l.lexer.ahead o n).next o).1 = l.ending

/-- **The tokens of a text cover it.**  A text falls into lexemes in one way only, and what is
read token by token are the tokens of these lexemes. -/
theorem coverage_list (o : Options) (source : String) :
    ∃ xs last, Cuts source.toList xs last ∧
      (∀ xs' last', Cuts source.toList xs' last' → xs' = xs ∧ last' = last) ∧
      Coverage o source xs last ((ofDocument ⟨source, 0⟩).list o) := by
  obtain ⟨xs, last, hcuts⟩ := exists_cuts source.toList
  refine ⟨xs, last, hcuts, fun xs' last' h => hcuts.unique h, ?_⟩
  have htracks := tracks_ofDocument ⟨source, 0⟩
  have hlist := @list_eq_of_cuts o (ofDocument ⟨source, 0⟩) xs last hcuts
  obtain ⟨hrest, hdocument, htracks'⟩ := @rest_pass (ofDocument ⟨source, 0⟩) xs last source hcuts
  generalize hlx : (ofDocument ⟨source, 0⟩).pass xs = lx at hlist hrest hdocument htracks'
  have hlast : (read lx.rest).isLast = true := by
    rw [hrest, hcuts.fits_last.1.read_whole, hcuts.fits_last.2]
  have htokens : ((ofDocument ⟨source, 0⟩).list o).tokens = tokensFrom ⟨source, 0⟩ 0 xs := by
    rw [hlist]
    rfl
  have hplaced := (placed_list (o := o) htracks rfl).1
  refine ⟨htokens, fun t ht => ?_, hplaced.pairwise, ?_, ?_, ?_⟩
  · exact (hplaced.stands t ht).exists_shown (span_ne_none_of_mem_list ht)
  · intro offset hoffset
    rw [htokens]
    exact @Cuts.covered _ xs last source hcuts [] rfl _ (fun t ht => ht) (fun t ht => .inl ht)
      offset (Nat.zero_le _) hoffset
  · rw [hlist, ← hrest]
    exact exists_error_iff hlast
  · rw [hlist, ← hrest]
    exact finish_again (htracks' htracks) hdocument hlast

-- a control word with the blanks behind it, a letter with an accent, a comment, a backslash with a
-- character that is part of no name, and a control word with two backslashes
example :
    ((ofDocument ⟨"\\a@ \te\u0301%x\n\\,\\\\b d", 0⟩).list {}).tokens.map
        (fun t => (t.text, t.span.map fun s => (s.start, s.stop))) =
      [("\\a@", some (0, 3)), ("e\u0301", some (5, 8)), ("\\,", some (11, 13)),
        ("\\\\b", some (13, 16)), ("d", some (17, 18))] := by
  decide +kernel

end Lexer
end MathMarkup
