import MathMarkup.Proofs.Token.Coverage

/-!
# Comments separate texts

A comment sign is part of no lexeme but a comment.  So what is in front of a comment falls into
the same lexemes as it does alone, wherever the cut is: the name of a control word, the blanks
behind it and the marks of a character do not go on behind the comment.  A text that itself ends
with a comment has this comment go on to the end of the line.

## Main definitions

* `Lexer.Listing.texts`, `Lexer.Listing.failure?` — what is read of a text, apart from places.

## Main results

* `Lexeme.Cuts.comment` — the lexemes of two texts with a comment between them.
* `Lexer.list_comment` — **two texts with a comment between them are read one after the other.**
-/

namespace MathMarkup

/-- The texts of the tokens. -/
def Lexer.Listing.texts (l : Listing) : List String := l.tokens.map Token.text

/-- Why reading ends in front of the end of the text, if it does. -/
def Lexer.Listing.failure? (l : Listing) : Option Reason :=
  match l.ending with
  | .ok _ => none
  | .error e => some e.reason

namespace Lexeme

/-! ### What is read apart from places -/

/-- Why reading fails at a lexeme, if comments without the end of their line are accepted. -/
def failure? (x : Lexeme) : Option Reason :=
  if x.kind = .stray then some (.unexpectedToken (String.ofList x.taken)) else none

theorem map_text_tokensFrom (d : Document) (position : Nat) (xs : List Lexeme) :
    (tokensFrom d position xs).map Token.text = xs.filterMap text? := by
  induction xs generalizing position with
  | nil => rfl
  | cons x xs ih =>
    rw [tokensFrom, List.map_append, ih, List.filterMap_cons, token?]
    cases x.text? <;> rfl

end Lexeme

namespace Lexer

open Lexeme

variable {o : Options} {lx : Lexer} {xs : List Lexeme} {last : Lexeme}

theorem texts_list_of_cuts (h : Cuts lx.rest xs last) :
    (lx.list o).texts = xs.filterMap text? := by
  rw [Listing.texts, list_eq_of_cuts h]
  exact map_text_tokensFrom _ _ xs

/-- Reading fails at the last lexeme, or not at all. -/
theorem failure?_list_of_cuts (hstrict : o.strict.resolve openComment ≠ .error)
    (h : Cuts lx.rest xs last) : (lx.list o).failure? = last.failure? := by
  obtain ⟨hrest, -, -⟩ := @rest_pass lx xs last "" h
  have hread : read (lx.pass xs).rest = last := by rw [hrest, h.fits_last.1.read_whole]
  rw [Listing.failure?, list_eq_of_cuts h, next_eq, hread]
  rcases isLast_iff.mp h.fits_last.2 with hk | hk | hk
  · simp only [hk, Lexeme.failure?]
    rfl
  · simp only [hk, Lexeme.failure?]
    rfl
  · have hreport : ∀ e, (o.report openComment).1 ≠ .error e :=
      fun e he => hstrict (report_eq_error_iff.mp ⟨e, he⟩)
    simp only [hk, Lexeme.failure?]
    generalize (o.report openComment).1 = result at hreport
    cases result with
    | error e => exact absurd rfl (hreport e)
    | ok u => rfl

end Lexer

namespace Lexeme

/-! ### A comment behind a text -/

/-- No lexeme goes on into a character behind it that is no blank, no part of a name and no
mark. -/
theorem Fits.followedBy {x : Lexeme} (h : x.Fits) (hlast : x.isLast = false) {c : Char}
    (hblank : isBlank c = false) (hname : isNameChar c = false) (hmark : isCombiningMark c = false)
    (behind : List Char) : (x.followedBy (c :: behind)).Fits := by
  cases h with
  | finish | openComment | slash | control => cases hlast
  | blank hne hrun hstop => exact .blank hne hrun (hstop.append_cons hblank behind)
  | comment hbody => exact .comment hbody
  | @word slashes name skipped rest hslashes hne hword hstop hskipped hstops =>
    refine .word hslashes hne hword ?_ hskipped (hstops.append_cons hblank behind)
    rw [← List.append_assoc]
    exact hstop.append_cons hname behind
  | symbol hc hslash =>
    exact .symbol hc fun heq => (hslash heq).append_cons hname behind
  | character hvisible hslash hcomment hmarks hstop =>
    exact .character hvisible hslash hcomment hmarks (hstop.append_cons hmark behind)

/-- Where a text ends, a comment starts, or the comment at the end of the text goes on. -/
theorem Fits.exists_comment {x : Lexeme} (h : x.Fits) (hlast : x.isLast = true)
    (hstray : x.kind ≠ .stray) {c : List Char} (hc : '\n' ∉ c) (v : List Char) :
    ∃ z : Lexeme, z.Fits ∧ z.kind = .comment true ∧ z.rest = v ∧
      z.whole = x.whole ++ '%' :: (c ++ '\n' :: v) := by
  cases h with
  | finish => exact ⟨_, @Fits.comment c v hc, rfl, rfl, by simp [whole]⟩
  | @openComment body hbody =>
    have hbody' : '\n' ∉ body ++ '%' :: c := by simp [hbody, hc]
    exact ⟨_, @Fits.comment _ v hbody', rfl, rfl, by simp [whole]⟩
  | slash | control => exact absurd rfl hstray
  | blank | comment | word | symbol | character => cases hlast

/-- The lexemes of two texts with a comment between them. -/
theorem Cuts.comment {u v c : List Char} {xs ys : List Lexeme} {last last' : Lexeme}
    (hu : Cuts u xs last) (hstray : last.kind ≠ .stray) (hc : '\n' ∉ c) (hv : Cuts v ys last') :
    ∃ z, z.kind = .comment true ∧ Cuts (u ++ '%' :: (c ++ '\n' :: v))
      (xs.map (followedBy ('%' :: (c ++ '\n' :: v))) ++ z :: ys) last' := by
  induction hu with
  | @last x hfits hlast =>
    obtain ⟨z, hz, hk, rfl, hwhole⟩ := hfits.exists_comment hlast hstray hc v
    rw [← hwhole]
    exact ⟨z, hk, .cons hz (isLast_eq_false_iff.mpr (.inr (.inr hk))) hv⟩
  | @cons x last xs hfits hlast hrest ih =>
    obtain ⟨z, hk, hcuts⟩ := ih hstray
    rw [← whole_followedBy]
    have hfollowed := hfits.followedBy hlast (c := '%') (by decide) (by decide) (by decide)
    exact ⟨z, hk, .cons (hfollowed _) hlast hcuts⟩

end Lexeme

namespace Lexer

open Lexeme

/-- **Two texts with a comment between them are read one after the other.**  The comment leaves
no trace, and keeps apart what would be read together without it. -/
theorem list_comment {o : Options} (hstrict : o.strict.resolve openComment ≠ .error)
    {u c : String} (hc : '\n' ∉ c.toList) {t : Token}
    (hu : ((ofDocument ⟨u, 0⟩).list o).ending = .ok t) (v : String) :
    ((ofDocument ⟨u ++ "%" ++ c ++ "\n" ++ v, 0⟩).list o).texts =
        ((ofDocument ⟨u, 0⟩).list o).texts ++ ((ofDocument ⟨v, 0⟩).list o).texts ∧
      ((ofDocument ⟨u ++ "%" ++ c ++ "\n" ++ v, 0⟩).list o).failure? =
        ((ofDocument ⟨v, 0⟩).list o).failure? := by
  obtain ⟨xs, last, hcuts⟩ := exists_cuts (ofDocument ⟨u, 0⟩).rest
  obtain ⟨ys, last', hcuts'⟩ := exists_cuts (ofDocument ⟨v, 0⟩).rest
  -- the first text is read to its end
  have hstray : last.kind ≠ .stray := by
    intro hk
    have hfailure := failure?_list_of_cuts hstrict hcuts
    simp [Listing.failure?, hu, Lexeme.failure?, hk] at hfailure
  obtain ⟨z, hk, hwhole⟩ := hcuts.comment hstray hc hcuts'
  have htext : (ofDocument ⟨u ++ "%" ++ c ++ "\n" ++ v, 0⟩).rest =
      (ofDocument ⟨u, 0⟩).rest ++ '%' :: (c.toList ++ '\n' :: (ofDocument ⟨v, 0⟩).rest) := by
    simp [ofDocument]
  rw [← htext] at hwhole
  refine ⟨?_, ?_⟩
  · -- what is behind a lexeme is no part of its token, and a comment is none
    have hsame : ∀ behind, text? ∘ followedBy behind = text? := fun _ => rfl
    have hnone : z.text? = none := by rw [text?, hk]
    rw [texts_list_of_cuts hwhole, texts_list_of_cuts hcuts, texts_list_of_cuts hcuts',
      List.filterMap_append, List.filterMap_map, hsame, List.filterMap_cons_none hnone]
  · rw [failure?_list_of_cuts hstrict hwhole, failure?_list_of_cuts hstrict hcuts']

/-- The cut is behind two backslashes and in front of letters, which would be read together. -/
theorem list_comment_backslashes :
    ((ofDocument ⟨"a\\\\" ++ "%" ++ "\\% " ++ "\n" ++ "ce\x01", 0⟩).list {}).texts =
        ["a", "\\\\", "c", "e"] ∧
      ((ofDocument ⟨"a\\\\" ++ "%" ++ "\\% " ++ "\n" ++ "ce\x01", 0⟩).list {}).failure? =
        some (.unexpectedToken "\x01") ∧
      ((ofDocument ⟨"a\\\\ce\x01", 0⟩).list {}).texts = ["a", "\\\\ce"] := by
  have hu : ((ofDocument ⟨"a\\\\", 0⟩).list {}).ending =
      .ok (.finish (some ⟨⟨"a\\\\", 0⟩, 3, 3⟩)) := by decide +kernel
  obtain ⟨htexts, hfailure⟩ := list_comment (by decide) (c := "\\% ") (by decide) hu "ce\x01"
  rw [htexts, hfailure]
  decide +kernel

end Lexer
end MathMarkup
