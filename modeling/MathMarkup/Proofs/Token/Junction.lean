import MathMarkup.Proofs.Token.Rules

/-!
# A text with more behind it

If a space and more text are put behind a text, the lexemes of the text stay what they are.
Only the last one may take up the space and the blanks behind it: a run of blanks that goes on,
or a control word with blanks that do not count.  Two things have to be excluded, a comment
that is cut off by the end of the text, and a backslash at the very end; both would go on into
what follows.

## Main definitions

* `Lexeme.endsInComment` — whether the end of a text cuts off a comment.
* `Lexeme.Continued` — a lexeme, and the same one with more text behind.
* `Lexer.extend` — a lexer with more text behind.

## Main results

* `Lexeme.continued_read` — what a space behind a text does to its first lexeme.
* `Lexer.next_extend` — what it does to the next token.
-/

namespace MathMarkup

/-! ### Lexemes -/

namespace Lexeme

/-- Whether the end of a text cuts off a comment: it has a comment without the end of its
line. -/
def endsInComment (cs : List Char) : Bool :=
  match _h : (read cs).kind with
  | .finish => false
  -- nothing is read behind a character that belongs to no token
  | .stray => false
  | .comment false => true
  | .comment true => endsInComment (read cs).rest
  | .blank => endsInComment (read cs).rest
  | .plain => endsInComment (read cs).rest
termination_by cs.length
decreasing_by
  all_goals exact length_rest_lt _h nofun

theorem endsInComment_eq (cs : List Char) :
    endsInComment cs = match (read cs).kind with
      | .finish => false
      | .stray => false
      | .comment false => true
      | _ => endsInComment (read cs).rest := by
  rw [endsInComment]
  split <;> rename_i h <;> rw [h]

/-- The first lexeme of a text, and the first lexeme of the text with a space and more behind
it. -/
inductive Continued (w : List Char) (x y : Lexeme) : Prop where
  /-- The lexeme ends before the end of the text. -/
  | apart (h : y = { x with rest := x.rest ++ ' ' :: w })
  /-- The lexeme reaches the end of the text, and takes up the blanks behind it. -/
  | joined (hkind : x.kind = .blank ∧ y.kind = .blank ∨
        x.kind = .plain ∧ y.kind = .plain ∧ y.taken = x.taken)
      (hrest : x.rest = []) (hrest' : y.rest = w.dropWhile isBlank)

/-- **What a space behind a text does to its first lexeme.**  Either the lexeme ends before the
space and stays what it is, or it reaches the end of the text and takes up the space, with all
blanks that follow. -/
theorem continued_read {cs : List Char} (h : (read cs).isLast = false) (w : List Char) :
    Continued w (read cs) (read (cs ++ ' ' :: w)) := by
  have hfits := fits_read cs
  have hwhole := read_eq cs
  generalize read cs = x at h hfits hwhole ⊢
  subst hwhole
  have happart : (x.followedBy (' ' :: w)).Fits →
      Continued w x (read (x.whole ++ ' ' :: w)) := by
    intro hy
    rw [← whole_followedBy, hy.read_whole]
    exact .apart rfl
  have hname : isNameChar ' ' = false := by decide
  -- blanks that reach the end of the text take up the space and the blanks behind it
  have hblanks : ∀ {run : List Char}, (∀ c ∈ run, isBlank c = true) →
      ∀ c ∈ run ++ ' ' :: w.takeWhile isBlank, isBlank c = true := by
    intro run hrun
    rw [List.forall_mem_append, List.forall_mem_cons]
    exact ⟨hrun, by decide, forall_mem_takeWhile⟩
  have hstops := Stops.dropWhile isBlank w
  cases hfits with
  | finish | openComment | slash | control => cases h
  | comment hbody => exact happart (.comment hbody)
  | symbol hc hslash => exact happart (.symbol hc fun heq => (hslash heq).append_cons hname w)
  | character hvisible hslash hcomment hmarks hstop =>
    exact happart (.character hvisible hslash hcomment hmarks (hstop.append_cons (by decide) w))
  | @blank run rest hne hrun hstop =>
    cases rest with
    | cons c rest => exact happart (.blank hne hrun (Stops.cons_iff.mpr (Stops.cons_iff.mp hstop)))
    | nil =>
      have hy := Fits.blank (by simp) (hblanks hrun) hstops
      have hwhole : whole ⟨.blank, run, [], []⟩ ++ ' ' :: w =
          whole ⟨.blank, run ++ ' ' :: w.takeWhile isBlank, [], w.dropWhile isBlank⟩ := by
        simp [whole]
      rw [hwhole, hy.read_whole]
      exact .joined (.inl ⟨rfl, rfl⟩) rfl rfl
  | @word slashes name skipped rest hslashes hne hword hstop hskipped hblank =>
    cases rest with
    | cons c rest =>
      refine happart (.word hslashes hne hword ?_ hskipped ?_)
      · rw [← List.append_assoc]
        exact hstop.append_cons hname w
      · exact Stops.cons_iff.mpr (Stops.cons_iff.mp hblank)
    | nil =>
      have hstop' : Stops isNameChar
          (skipped ++ ' ' :: w.takeWhile isBlank ++ w.dropWhile isBlank) := by
        rw [List.append_nil] at hstop
        rw [List.append_assoc]
        exact hstop.append_cons hname _
      have hy := Fits.word hslashes hne hword hstop' (hblanks hskipped) hstops
      have hwhole : whole ⟨.plain, slashes ++ name, skipped, []⟩ ++ ' ' :: w =
          whole ⟨.plain, slashes ++ name, skipped ++ ' ' :: w.takeWhile isBlank,
            w.dropWhile isBlank⟩ := by
        simp [whole]
      rw [hwhole, hy.read_whole]
      exact .joined (.inr ⟨rfl, rfl, rfl⟩) rfl rfl

end Lexeme

/-! ### Tokens -/

namespace Lexer

/-- The lexer with a space and more text behind what is left. -/
def extend (w : List Char) (lx : Lexer) : Lexer := { lx with rest := lx.rest ++ ' ' :: w }

/-- Where a lexer with more text behind stands, after the same tokens: at the same place, or
behind the blanks that follow the end of the shorter text. -/
def Extends (w : List Char) (lx lx' : Lexer) : Prop :=
  lx' = lx.extend w ∨ lx.rest = [] ∧ lx'.rest = w.dropWhile isBlank

variable {o : Options} {lx lx' : Lexer} {t : Token} {log : Log} {w : List Char}

/-- At the end of the shorter text a blank is read. -/
theorem next_extend_of_nil (h : lx.rest = []) (o : Options) (w : List Char) :
    ∃ span lx', (lx.extend w).next o = (.ok ⟨" ", span⟩, lx', []) ∧
      lx'.rest = w.dropWhile isBlank := by
  have hrest : (lx.extend w).rest = ' ' :: w := by rw [extend, h, List.nil_append]
  have hkind : (Lexeme.read (lx.extend w).rest).kind = .blank := by rw [hrest]; rfl
  refine ⟨_, _, next_of_blank o hkind, ?_⟩
  rw [advance, hrest]
  rfl

/-- **What a space behind a text does to its next token.**  It is the same token, or the end of
the text is reached and there is a blank. -/
theorem next_extend (w : List Char) (hopen : Lexeme.endsInComment lx.rest = false)
    (h : lx.next o = (.ok t, lx', log)) :
    Lexeme.endsInComment lx'.rest = false ∧
      ((t.isEnd = false ∧ ∃ lx₂, (lx.extend w).next o = (.ok t, lx₂, []) ∧ Extends w lx' lx₂) ∨
        lx'.rest = [] ∧ (t.isEnd = true ∨ t.text = " ") ∧
          ∃ span lx₂, (lx.extend w).next o = (.ok ⟨" ", span⟩, lx₂, []) ∧
            lx₂.rest = w.dropWhile isBlank) := by
  -- one case for each kind of lexeme
  fun_induction Lexer.next o lx with
  | case1 lx x hk =>
    cases h
    have hnil := Lexeme.eq_nil_of_kind hk
    refine ⟨hopen, .inr ⟨hnil, .inl (Token.isEnd_finish _), ?_⟩⟩
    exact next_extend_of_nil hnil o w
  | case2 lx x hk =>
    cases h
    rw [Lexeme.endsInComment_eq, hk] at hopen
    refine ⟨hopen, ?_⟩
    -- blanks end before the end of the text, or go on into the space
    cases Lexeme.continued_read (Lexeme.isLast_eq_false_iff.mpr (.inl hk)) w with
    | apart hread =>
      have hnext := @next_of_blank (lx.extend w) o (by rw [extend, hread]; exact hk)
      refine .inl ⟨rfl, _, ?_, .inl rfl⟩
      rw [hnext, extend, hread]
      rfl
    | joined hkind hrest hrest' =>
      rcases hkind with ⟨-, hblank⟩ | ⟨hplain, -⟩
      · exact .inr ⟨hrest, .inr rfl, _, _, next_of_blank o hblank, hrest'⟩
      · rw [hk] at hplain
        cases hplain
  | case3 lx x hk =>
    cases h
    rw [Lexeme.endsInComment_eq, hk] at hopen
    refine ⟨hopen, .inl ⟨Lexeme.isEnd_of_plain hk _, ?_⟩⟩
    -- a control word may take up the space, and is the same token nevertheless
    cases Lexeme.continued_read (Lexeme.isLast_eq_false_iff.mpr (.inr (.inl hk))) w with
    | apart hread =>
      have hnext := @next_of_plain (lx.extend w) o (by rw [extend, hread]; exact hk)
      refine ⟨_, ?_, .inl rfl⟩
      rw [hnext, extend, hread]
      rfl
    | joined hkind hrest hrest' =>
      rcases hkind with ⟨hblank, -⟩ | ⟨-, hplain, htaken⟩
      · rw [hk] at hblank
        cases hblank
      · have hnext := @next_of_plain (lx.extend w) o hplain
        refine ⟨(lx.extend w).advance (Lexeme.read (lx.extend w).rest), ?_, .inr ⟨hrest, hrest'⟩⟩
        rw [hnext, spanOf, extend, htaken]
        rfl
  | case4 => cases h
  | case5 lx x hk ih =>
    -- a comment is passed over, and what follows its line is a shorter text
    rw [Lexeme.endsInComment_eq, hk] at hopen
    cases Lexeme.continued_read (Lexeme.isLast_eq_false_iff.mpr (.inr (.inr hk))) w with
    | apart hread =>
      have hnext := @next_of_comment (lx.extend w) o (by rw [extend, hread]; exact hk)
      rw [extend, hread] at hnext
      rw [extend, hnext]
      exact ih hopen h
    | joined hkind _ _ =>
      rw [hk] at hkind
      simp at hkind
  | case6 lx x hk u log' hr =>
    rw [Lexeme.endsInComment_eq, hk] at hopen
    cases hopen
  | case7 => cases h

end Lexer

end MathMarkup
