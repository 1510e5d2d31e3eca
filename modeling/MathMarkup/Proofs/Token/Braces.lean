import MathMarkup.Proofs.Token.Comment
import MathMarkup.Proofs.Token.Junction

/-!
# The tokens of a text in braces

A text in braces falls into the braces and the lexemes of the text.  The braces do not run
together with what is between them, if that does not start with a mark, which would go with the
opening brace, and does not end in a comment, which would swallow the closing one.

## Main definitions

* `Lexeme.atEnd` — what is read where nothing is left.

## Main results

* `Lexeme.Cuts.endsInComment_iff` — what the end of a text cuts off, seen from its last lexeme.
* `Lexeme.Cuts.enclosed` — the lexemes of a text in braces.
* `Lexer.texts_list_enclosed` — **the tokens of a text in braces are those of the text, and the
  braces.**
-/

namespace MathMarkup

theorem toList_braces (source : String) :
    ("\x7b" ++ source ++ "\x7d").toList = '\x7b' :: (source.toList ++ ['\x7d']) := by
  simp

/-! ### Lexemes -/

namespace Lexeme

variable {cs : List Char} {xs ys : List Lexeme} {last : Lexeme}

/-- What is read where nothing is left. -/
def atEnd : Lexeme := ⟨.finish, [], [], []⟩

theorem Fits.eq_atEnd {x : Lexeme} (h : x.Fits) (hk : x.kind = .finish) : x = atEnd := by
  cases h with
  | finish => rfl
  | _ => cases hk

/-- The end of a text cuts off a comment exactly if its last lexeme is one. -/
theorem Cuts.endsInComment_iff (h : Cuts cs xs last) :
    endsInComment cs = true ↔ last.kind = .comment false := by
  induction h with
  | @last x hfits hlast =>
    rw [endsInComment_eq, hfits.read_whole]
    rcases isLast_iff.mp hlast with hk | hk | hk <;> simp [hk]
  | @cons x last xs hfits hlast hrest ih =>
    rw [endsInComment_eq, hfits.read_whole, ← ih]
    rcases isLast_eq_false_iff.mp hlast with hk | hk | hk <;> rw [hk]

/-- A text that is read to its end is cut the same with more text behind it, if that starts with
a character into which no lexeme goes on. -/
theorem Cuts.append_cons (h : Cuts cs xs atEnd) {c : Char} (hblank : isBlank c = false)
    (hname : isNameChar c = false) (hmark : isCombiningMark c = false) {behind : List Char}
    (hbehind : Cuts (c :: behind) ys last) :
    Cuts (cs ++ c :: behind) (xs.map (followedBy (c :: behind)) ++ ys) last := by
  generalize hend : atEnd = final at h
  -- on the lexemes; each of them has the same text behind it as before, and more
  induction h with
  | last hfits hlast =>
    subst hend
    exact hbehind
  | @cons x final xs hfits hlast hrest ih =>
    rw [← whole_followedBy]
    exact .cons (hfits.followedBy hlast hblank hname hmark behind) hlast (ih hend)

/-- A brace is a lexeme of its own in front of what does not start with a mark. -/
theorem Cuts.cons_brace {c : Char} (hc : c = '\x7b' ∨ c = '\x7d') (h : Cuts cs xs last)
    (hmark : Stops isCombiningMark cs) : Cuts (c :: cs) (⟨.plain, [c], [], cs⟩ :: xs) last := by
  have hfits : Fits ⟨.plain, [c], [], cs⟩ := by
    refine .character ?_ ?_ ?_ (List.forall_mem_nil _) hmark <;> rcases hc with rfl | rfl <;> decide
  exact .cons hfits rfl h

/-- The lexemes of a text in braces. -/
theorem Cuts.enclosed {source : String} (h : Cuts source.toList xs atEnd)
    (hmark : Stops isCombiningMark source.toList) :
    Cuts ("\x7b" ++ source ++ "\x7d").toList (⟨.plain, ['\x7b'], [], source.toList ++ ['\x7d']⟩ ::
      (xs.map (followedBy ['\x7d']) ++ [⟨.plain, ['\x7d'], [], []⟩])) atEnd := by
  have hclose : Cuts ['\x7d'] [⟨.plain, ['\x7d'], [], []⟩] atEnd :=
    .cons_brace (.inr rfl) (.last .finish rfl) (.nil _)
  have hrest := h.append_cons (by decide) (by decide) (by decide) hclose
  rw [toList_braces]
  exact .cons_brace (.inl rfl) hrest (hmark.append_cons (by decide) [])

end Lexeme

/-! ### Tokens -/

namespace Lexer

open Lexeme

variable {o : Options} {lx : Lexer} {xs : List Lexeme} {last : Lexeme} {source : String}

/-- A text that is cut up to its end is read to its end. -/
theorem exists_ending_of_cuts (h : Cuts lx.rest xs atEnd) (o : Options) :
    ∃ t, (lx.list o).ending = .ok t := by
  obtain ⟨hrest, -, -⟩ := @rest_pass lx xs atEnd "" h
  have hkind : (read (lx.pass xs).rest).kind = .finish := by
    rw [hrest]
    rfl
  exact ⟨_, by rw [list_eq_of_cuts h, next_of_finish o hkind]⟩

/-- Conversely, unless its end cuts off a comment. -/
theorem eq_atEnd_of_ending {t : Token} (hok : (lx.list o).ending = .ok t)
    (hclosed : endsInComment lx.rest = false) (h : Cuts lx.rest xs last) : last = atEnd := by
  obtain ⟨hrest, -, -⟩ := @rest_pass lx xs last "" h
  have hread : read (lx.pass xs).rest = last := by rw [hrest, h.fits_last.1.read_whole]
  -- the last lexeme is the end, an error, or a comment that is excluded
  rcases isLast_iff.mp h.fits_last.2 with hk | hk | hk
  · exact h.fits_last.1.eq_atEnd hk
  · rw [list_eq_of_cuts h, next_eq, hread, hk] at hok
    cases hok
  · rw [h.endsInComment_iff.mpr hk] at hclosed
    cases hclosed

/-- The tokens of a text in braces are those of the text, and the braces. -/
theorem texts_list_enclosed (h : Cuts source.toList xs atEnd)
    (hmark : Stops isCombiningMark source.toList) (o : Options) :
    ((ofDocument ⟨"\x7b" ++ source ++ "\x7d", 0⟩).list o).texts =
      "\x7b" :: (((ofDocument ⟨source, 0⟩).list o).texts ++ ["\x7d"]) := by
  have hsource : Cuts (ofDocument ⟨source, 0⟩).rest xs atEnd := h
  have hcuts : Cuts (ofDocument ⟨"\x7b" ++ source ++ "\x7d", 0⟩).rest _ atEnd := h.enclosed hmark
  have hbrace : ∀ (c : Char) (rest : List Char),
      text? ⟨.plain, [c], [], rest⟩ = some (String.singleton c) := fun _ _ => rfl
  -- what is behind a lexeme is no part of its token
  have hsame : ∀ behind, text? ∘ followedBy behind = text? := fun _ => rfl
  rw [texts_list_of_cuts hcuts, texts_list_of_cuts hsource, List.filterMap_cons_some (hbrace _ _),
    List.filterMap_append, List.filterMap_map, hsame, List.filterMap_cons_some (hbrace _ _)]
  rfl

end Lexer

end MathMarkup
