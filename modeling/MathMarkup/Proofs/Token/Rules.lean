import MathMarkup.Proofs.Token.Legible

/-!
# The rules for lexemes

Where a lexeme ends is said here without saying how it is found.  A run of blanks, a control
word, the blanks behind it and the marks of a character go on as far as they can; a comment goes
on to the end of its line, or to the end of the text; a backslash that starts no control word
takes exactly one character.  A backslash at the very end and a control character are no
lexemes.  These rules leave no choice: a text starts with one lexeme only, and this is the one
that is read.

## Main definitions

* `Stops` — a run of characters goes no further.
* `Lexeme.Fits` — the rules.
* `Lexeme.isLast` — the lexemes behind which nothing is read.
* `Lexeme.followedBy` — a lexeme with more text behind it.

## Main results

* `Lexeme.fits_read`, `Lexeme.Fits.read_whole` — what is read fits the rules, and what fits them
  is read.
* `Lexeme.read_eq_iff` — **the rules fix the first lexeme of a text.**
-/

namespace MathMarkup

/-! ### Runs of characters -/

/-- Whether a run of certain characters goes no further than this text: the text is empty, or
starts with another character. -/
def Stops (p : Char → Bool) (rest : List Char) : Prop := ∀ c ∈ rest.head?, p c = false

namespace Stops

variable {p : Char → Bool} {run rest : List Char}

theorem nil (p : Char → Bool) : Stops p [] := nofun

theorem cons_iff {c : Char} : Stops p (c :: rest) ↔ p c = false :=
  ⟨fun h => h c rfl, fun hc _ hd => Option.some.inj hd ▸ hc⟩

/-- A search ends where nothing more is found. -/
theorem dropWhile (p : Char → Bool) (cs : List Char) : Stops p (cs.dropWhile p) := by
  intro c hc
  have hhead := List.head?_dropWhile_not p cs
  rw [Option.mem_def.mp hc] at hhead
  simpa using hhead

theorem takeWhile_eq (hrun : ∀ c ∈ run, p c = true) (h : Stops p rest) :
    (run ++ rest).takeWhile p = run := by
  rw [List.takeWhile_append_of_pos hrun]
  cases rest with
  | nil => simp
  | cons c cs => rw [List.takeWhile_cons_of_neg (by simp [cons_iff.mp h]), List.append_nil]

theorem dropWhile_eq (hrun : ∀ c ∈ run, p c = true) (h : Stops p rest) :
    (run ++ rest).dropWhile p = rest := by
  rw [List.dropWhile_append_of_pos hrun]
  cases rest with
  | nil => rfl
  | cons c cs => exact List.dropWhile_cons_of_neg (by simp [cons_iff.mp h])

/-- A run that goes no further than a text does not go on into what is behind it either, if that
starts with another character. -/
theorem append_cons (h : Stops p rest) {c : Char} (hc : p c = false) (behind : List Char) :
    Stops p (rest ++ c :: behind) := by
  cases rest with
  | nil => exact cons_iff.mpr hc
  | cons d rest => exact cons_iff.mpr (cons_iff.mp h)

end Stops

theorem forall_mem_takeWhile {p : Char → Bool} {cs : List Char} :
    ∀ c ∈ cs.takeWhile p, p c = true :=
  fun c hc => List.all_eq_true.mp List.all_takeWhile c hc

namespace Lexeme

/-! ### The rules -/

/-- The rules for lexemes, with what may follow each of them.  In which order they are tried is not
said, since only one lexeme fits the beginning of a text. -/
inductive Fits : Lexeme → Prop where
  /-- Nothing is left. -/
  | finish : Fits ⟨.finish, [], [], []⟩
  /-- A run of blanks goes on as far as it can. -/
  | blank {run rest : List Char} (hne : run ≠ []) (hrun : ∀ c ∈ run, isBlank c = true)
      (hstop : Stops isBlank rest) : Fits ⟨.blank, run, [], rest⟩
  /-- A comment goes on through the end of its line. -/
  | comment {body rest : List Char} (hbody : '\n' ∉ body) :
      Fits ⟨.comment true, '%' :: (body ++ ['\n']), [], rest⟩
  /-- A comment without the end of its line goes on to the end of the text. -/
  | openComment {body : List Char} (hbody : '\n' ∉ body) :
      Fits ⟨.comment false, '%' :: body, [], []⟩
  /-- A control word has one or two backslashes.  Its name goes on as far as it can, and so do the
  blanks behind it. -/
  | word {slashes name skipped rest : List Char}
      (hslashes : slashes = ['\\'] ∨ slashes = ['\\', '\\']) (hne : name ≠ [])
      (hname : ∀ c ∈ name, isNameChar c = true) (hstop : Stops isNameChar (skipped ++ rest))
      (hskipped : ∀ c ∈ skipped, isBlank c = true) (hblank : Stops isBlank rest) :
      Fits ⟨.plain, slashes ++ name, skipped, rest⟩
  /-- Any other backslash takes one character. -/
  | symbol {c : Char} {rest : List Char} (hc : isNameChar c = false)
      (hslash : c = '\\' → Stops isNameChar rest) : Fits ⟨.plain, ['\\', c], [], rest⟩
  /-- Any other visible character takes the marks behind it. -/
  | character {c : Char} {marks rest : List Char} (hvisible : 0x21 ≤ c.val) (hslash : c ≠ '\\')
      (hcomment : c ≠ '%') (hmarks : ∀ m ∈ marks, isCombiningMark m = true)
      (hstop : Stops isCombiningMark rest) : Fits ⟨.plain, c :: marks, [], rest⟩
  /-- A backslash at the very end is part of no token. -/
  | slash : Fits ⟨.stray, ['\\'], [], []⟩
  /-- A control character that is no blank is part of no token. -/
  | control {c : Char} {rest : List Char} (hcontrol : c.val < 0x21) (hblank : isBlank c = false) :
      Fits ⟨.stray, [c], [], rest⟩

/-- Nothing is left behind a comment without the end of its line. -/
theorem Fits.rest_of_openComment {x : Lexeme} (h : x.Fits) (hk : x.kind = .comment false) :
    x.rest = [] := by
  cases h with
  | openComment => rfl
  | _ => cases hk

/-- Whether nothing is read behind a lexeme. -/
def isLast (x : Lexeme) : Bool :=
  match x.kind with
  | .finish | .stray | .comment false => true
  | .blank | .plain | .comment true => false

theorem isLast_iff {x : Lexeme} :
    x.isLast = true ↔ x.kind = .finish ∨ x.kind = .stray ∨ x.kind = .comment false := by
  unfold isLast
  split <;> rename_i hk <;> simp [hk]

theorem isLast_eq_false_iff {x : Lexeme} :
    x.isLast = false ↔ x.kind = .blank ∨ x.kind = .plain ∨ x.kind = .comment true := by
  unfold isLast
  split <;> rename_i hk <;> simp [hk]

/-- The lexeme with more text behind it. -/
def followedBy (behind : List Char) (x : Lexeme) : Lexeme := { x with rest := x.rest ++ behind }

theorem whole_followedBy (behind : List Char) (x : Lexeme) :
    (x.followedBy behind).whole = x.whole ++ behind := by
  simp [whole, followedBy]

/-! ### What is read fits the rules -/

theorem fits_readComment (cs : List Char) : (readComment ('%' :: cs)).Fits := by
  have hdrop : ('%' :: cs).dropWhile (· != '\n') = cs.dropWhile (· != '\n') := by
    rw [List.dropWhile_cons_of_pos (by decide)]
  have htake : ('%' :: cs).takeWhile (· != '\n') = '%' :: cs.takeWhile (· != '\n') := by
    rw [List.takeWhile_cons_of_pos (by decide)]
  have hbody : '\n' ∉ cs.takeWhile (· != '\n') :=
    fun hmem => absurd (forall_mem_takeWhile '\n' hmem) (by decide)
  unfold readComment
  rw [hdrop, htake]
  cases hrest : cs.dropWhile (· != '\n') with
  | nil =>
    -- the whole text is searched without success
    have hwhole := List.takeWhile_append_dropWhile (p := (· != '\n')) (l := cs)
    rw [hrest, List.append_nil] at hwhole
    rw [hwhole] at hbody
    exact .openComment hbody
  | cons newline rest =>
    have hnewline : newline = '\n' := by
      have hstop := Stops.dropWhile (· != '\n') cs
      rw [hrest] at hstop
      simpa using Stops.cons_iff.mp hstop
    subst hnewline
    exact .comment hbody

theorem fits_of_readWord? {slashes cs : List Char} {x : Lexeme}
    (hslashes : slashes = ['\\'] ∨ slashes = ['\\', '\\']) (h : readWord? slashes cs = some x) :
    x.Fits := by
  unfold readWord? at h
  split at h
  · cases h
  · rename_i hne
    cases h
    refine .word hslashes hne forall_mem_takeWhile ?_ forall_mem_takeWhile (Stops.dropWhile _ _)
    rw [List.takeWhile_append_dropWhile]
    exact Stops.dropWhile _ _

/-- Where there is no control word, no name starts. -/
theorem stops_of_readWord? {slashes cs : List Char} (h : readWord? slashes cs = none) :
    Stops isNameChar cs := by
  cases cs with
  | nil => exact .nil _
  | cons c cs => exact Stops.cons_iff.mpr (isNameChar_of_readWord? h)

theorem fits_readControl (cs : List Char) : (readControl cs).Fits := by
  cases cs with
  | nil => exact .slash
  | cons c cs =>
    -- a second backslash may be part of a word
    by_cases hc : c = '\\'
    · subst hc
      show ((readWord? ['\\', '\\'] cs).getD _).Fits
      cases hword : readWord? ['\\', '\\'] cs with
      | some x => exact fits_of_readWord? (.inr rfl) hword
      | none => exact .symbol isNameChar_backslash fun _ => stops_of_readWord? hword
    · rw [readControl_of_ne hc]
      cases hword : readWord? ['\\'] (c :: cs) with
      | some x => exact fits_of_readWord? (.inl rfl) hword
      | none => exact .symbol (isNameChar_of_readWord? hword) fun heq => absurd heq hc

/-- What is read fits the rules. -/
theorem fits_read (cs : List Char) : (read cs).Fits := by
  cases cs with
  | nil => exact .finish
  | cons c cs =>
    simp only [read]
    split
    · rename_i hblank
      exact .blank (by simp [hblank]) forall_mem_takeWhile (Stops.dropWhile _ _)
    rename_i hblank
    split
    · rename_i hcomment
      subst hcomment
      exact fits_readComment cs
    rename_i hcomment
    split
    · exact fits_readControl cs
    rename_i hslash
    split
    · rename_i hcontrol
      exact .control hcontrol (by simpa using hblank)
    · rename_i hvisible
      exact .character (by simpa using hvisible) hslash hcomment forall_mem_takeWhile
        (Stops.dropWhile _ _)

/-! ### What fits the rules is read -/

/-- The end of the line is the first one behind the comment sign. -/
theorem ne_newline_of_mem {body : List Char} (hbody : '\n' ∉ body) :
    ∀ c ∈ '%' :: body, (c != '\n') = true := by
  intro c hc
  rcases List.mem_cons.mp hc with rfl | hc
  · decide
  · simpa using fun heq : c = '\n' => hbody (heq ▸ hc)

theorem readComment_of_closed {body : List Char} (hbody : '\n' ∉ body) (rest : List Char) :
    readComment ('%' :: (body ++ '\n' :: rest)) =
      ⟨.comment true, '%' :: (body ++ ['\n']), [], rest⟩ := by
  have hrun := ne_newline_of_mem hbody
  have hstop : Stops (· != '\n') ('\n' :: rest) := Stops.cons_iff.mpr (by decide)
  unfold readComment
  rw [← List.cons_append, hstop.dropWhile_eq hrun, hstop.takeWhile_eq hrun]
  rfl

theorem readComment_of_open {body : List Char} (hbody : '\n' ∉ body) :
    readComment ('%' :: body) = ⟨.comment false, '%' :: body, [], []⟩ := by
  have hdrop := (Stops.nil (· != '\n')).dropWhile_eq (ne_newline_of_mem hbody)
  rw [List.append_nil] at hdrop
  unfold readComment
  rw [hdrop]

theorem readWord?_of_stops {slashes name skipped rest : List Char} (hne : name ≠ [])
    (hname : ∀ c ∈ name, isNameChar c = true) (hstop : Stops isNameChar (skipped ++ rest))
    (hskipped : ∀ c ∈ skipped, isBlank c = true) (hblank : Stops isBlank rest) :
    readWord? slashes (name ++ (skipped ++ rest)) =
      some ⟨.plain, slashes ++ name, skipped, rest⟩ := by
  unfold readWord?
  rw [hstop.takeWhile_eq hname, hstop.dropWhile_eq hname]
  simp only [hblank.takeWhile_eq hskipped, hblank.dropWhile_eq hskipped]

theorem readWord?_eq_none {slashes cs : List Char} (h : Stops isNameChar cs) :
    readWord? slashes cs = none := by
  cases cs with
  | nil => rfl
  | cons c cs => exact readWord?_of_isNameChar (Stops.cons_iff.mp h)

/-- The first lexeme of a text that starts with a visible character. -/
theorem read_of_visible {c : Char} (hvisible : 0x21 ≤ c.val) (hslash : c ≠ '\\')
    (hcomment : c ≠ '%') (cs : List Char) :
    read (c :: cs) = ⟨.plain, c :: cs.takeWhile isCombiningMark, [],
      cs.dropWhile isCombiningMark⟩ := by
  have hcontrol : ¬ c.val < 0x21 := by simpa using hvisible
  have hblank : ¬ isBlank c = true := by
    intro hblank
    simp only [isBlank, Bool.or_eq_true, beq_iff_eq] at hblank
    -- all blanks are control characters or the space, which come before the visible ones
    rcases hblank with ((rfl | rfl) | rfl) | rfl <;> exact absurd hvisible (by decide)
  rw [read, if_neg hblank, if_neg hcomment, if_neg hslash, if_neg hcontrol]

/-- What fits the rules is read: a lexeme that goes on as far as the rules say is the first one of
its text.  Each rule says with its last conditions why reading stops where the lexeme ends. -/
theorem Fits.read_whole {x : Lexeme} (h : x.Fits) : read x.whole = x := by
  cases h with
  | finish => rfl
  | @blank run rest hne hrun hstop =>
    obtain ⟨c, cs, rfl⟩ := List.exists_cons_of_ne_nil hne
    have hwhole : whole ⟨.blank, c :: cs, [], rest⟩ = c :: cs ++ rest := by simp [whole]
    have hc : isBlank c = true := hrun c List.mem_cons_self
    rw [hwhole, List.cons_append, read, if_pos hc, ← List.cons_append, hstop.takeWhile_eq hrun,
      hstop.dropWhile_eq hrun]
  | @comment body rest hbody =>
    have hwhole : whole ⟨.comment true, '%' :: (body ++ ['\n']), [], rest⟩ =
        '%' :: (body ++ '\n' :: rest) := by simp [whole]
    rw [hwhole, read, if_neg (by decide), if_pos rfl, readComment_of_closed hbody]
  | @openComment body hbody =>
    have hwhole : whole ⟨.comment false, '%' :: body, [], []⟩ = '%' :: body := by simp [whole]
    rw [hwhole, read, if_neg (by decide), if_pos rfl, readComment_of_open hbody]
  | @word slashes name skipped rest hslashes hne hname hstop hskipped hblank =>
    have hword := fun slashes =>
      @readWord?_of_stops slashes name skipped rest hne hname hstop hskipped hblank
    have hwhole : whole ⟨.plain, slashes ++ name, skipped, rest⟩ =
        slashes ++ (name ++ (skipped ++ rest)) := by simp [whole]
    rw [hwhole]
    rcases hslashes with rfl | rfl
    · -- the name does not start with a second backslash
      obtain ⟨c, cs, rfl⟩ := List.exists_cons_of_ne_nil hne
      have hc : c ≠ '\\' := by
        rintro rfl
        exact absurd (hname '\\' List.mem_cons_self) (by decide)
      rw [List.singleton_append, read_backslash, List.cons_append, readControl_of_ne hc,
        ← List.cons_append, hword]
      rfl
    · show read ('\\' :: '\\' :: (name ++ (skipped ++ rest))) = _
      rw [read_backslash, readControl, hword]
      rfl
  | @symbol c rest hc hslash =>
    show read ('\\' :: c :: rest) = _
    rw [read_backslash]
    by_cases heq : c = '\\'
    · subst heq
      rw [readControl, readWord?_eq_none (hslash rfl)]
      rfl
    · rw [readControl_of_ne heq, readWord?_of_isNameChar hc]
      rfl
  | @character c marks rest hvisible hslash hcomment hmarks hstop =>
    have hwhole : whole ⟨.plain, c :: marks, [], rest⟩ = c :: (marks ++ rest) := by simp [whole]
    rw [hwhole, read_of_visible hvisible hslash hcomment, hstop.takeWhile_eq hmarks,
      hstop.dropWhile_eq hmarks]
  | slash => rfl
  | @control c rest hcontrol hblank =>
    have hslash : c ≠ '\\' := by
      rintro rfl
      exact absurd hcontrol (by decide)
    have hcomment : c ≠ '%' := by
      rintro rfl
      exact absurd hcontrol (by decide)
    show read (c :: rest) = _
    rw [read, if_neg (by simp [hblank]), if_neg hcomment, if_neg hslash, if_pos hcontrol]

/-- **The rules fix the first lexeme of a text.**  What is read fits the rules and leaves nothing
out, and nothing else does so. -/
theorem read_eq_iff {cs : List Char} {x : Lexeme} : read cs = x ↔ x.Fits ∧ x.whole = cs := by
  constructor
  · rintro rfl
    exact ⟨fits_read cs, read_eq cs⟩
  · rintro ⟨hfits, rfl⟩
    exact hfits.read_whole

/-- Nothing is read only where nothing is left. -/
theorem eq_nil_of_kind {cs : List Char} (h : (read cs).kind = .finish) : cs = [] := by
  obtain ⟨hfits, hwhole⟩ := read_eq_iff.mp (Eq.refl (read cs))
  generalize read cs = x at h hfits hwhole
  cases hfits with
  | finish => exact hwhole.symm
  | _ => cases h

end Lexeme

end MathMarkup
