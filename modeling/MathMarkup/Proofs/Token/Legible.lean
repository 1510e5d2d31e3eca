import MathMarkup.Proofs.Parser.Derivation

/-!
# The texts of tokens, and how they are read again

A token is a blank, a control sequence, or a character with its marks.  Written with an empty
comment behind it, each such text is read as the same token again: the comment keeps it
apart from what follows and leaves no trace itself.  This is how lists of tokens can be
written down, whatever the tokens are.

## Main definitions

* `Lexeme.IsText` — the characters of a token.
* `Legible` — the texts of tokens.
* `spell` — some texts, each with an empty comment behind it.

## Main results

* `Lexeme.isText_taken`, `Lexeme.read_of_isText` — the tokens that are read as they stand
  have these characters, and these characters are read as a token.
* `Parser.Supplies.legible` — all tokens that reach the parser are legible.
* `Parser.supplies_of_spell` — what is spelled out is read as tokens with these texts.
-/

namespace MathMarkup

namespace Lexeme

/-! ### Characters of tokens -/

/-- The characters of a token that is read as it stands. -/
inductive IsText : List Char → Prop where
  /-- A control word has one or two backslashes. -/
  | word {slashes name : List Char} (hslashes : slashes = ['\\'] ∨ slashes = ['\\', '\\'])
      (hne : name ≠ []) (hname : ∀ c ∈ name, isNameChar c = true) : IsText (slashes ++ name)
  /-- A control symbol is a backslash with any other character. -/
  | symbol {c : Char} (hc : isNameChar c = false) : IsText ['\\', c]
  /-- Any other visible character may have marks. -/
  | character {c : Char} {marks : List Char} (hblank : isBlank c = false) (hcomment : c ≠ '%')
      (hslash : c ≠ '\\') (hvisible : ¬ c.val < 0x21)
      (hmarks : ∀ m ∈ marks, isCombiningMark m = true) : IsText (c :: marks)

theorem isNameChar_backslash : isNameChar '\\' = false := by decide

theorem isText_of_readWord? {slashes cs : List Char} {x : Lexeme}
    (hslashes : slashes = ['\\'] ∨ slashes = ['\\', '\\'])
    (h : readWord? slashes cs = some x) : IsText x.taken := by
  unfold readWord? at h
  split at h
  · cases h
  · rename_i hne
    cases h
    refine .word hslashes hne fun c hc => ?_
    exact List.all_eq_true.mp (List.all_takeWhile) c hc

/-- Where there is no control word, no name starts. -/
theorem isNameChar_of_readWord? {slashes cs : List Char} {c : Char}
    (h : readWord? slashes (c :: cs) = none) : isNameChar c = false := by
  cases hc : isNameChar c with
  | false => rfl
  | true => simp [readWord?, hc] at h

theorem isText_readControl {cs : List Char} (h : (readControl cs).kind = .plain) :
    IsText (readControl cs).taken := by
  unfold readControl at h ⊢
  split
  · rename_i behind
    cases hword : readWord? ['\\', '\\'] behind with
    | none => exact .symbol isNameChar_backslash
    | some x => exact isText_of_readWord? (.inr rfl) hword
  · cases hword : readWord? ['\\'] cs with
    | some x => exact isText_of_readWord? (.inl rfl) hword
    | none =>
      cases cs with
      | nil => cases h
      | cons c cs => exact .symbol (isNameChar_of_readWord? hword)

/-- A token that is read as it stands is a control sequence or a character with marks. -/
theorem isText_taken {cs : List Char} (h : (read cs).kind = .plain) : IsText (read cs).taken := by
  cases cs with
  | nil => cases h
  | cons c cs =>
    simp only [read] at h ⊢
    split
    · rename_i hblank
      simp [hblank] at h
    rename_i hblank
    rw [if_neg hblank] at h
    split
    · rename_i hcomment
      simp only [hcomment, if_true, readComment] at h
      split at h <;> cases h
    rename_i hcomment
    rw [if_neg hcomment] at h
    split
    · rename_i hslash
      rw [if_pos hslash] at h
      exact isText_readControl h
    rename_i hslash
    rw [if_neg hslash] at h
    split
    · rename_i hvisible
      simp [hvisible] at h
    · rename_i hvisible
      refine .character (by simpa using hblank) hcomment hslash hvisible fun m hm => ?_
      exact List.all_eq_true.mp List.all_takeWhile m hm

/-- Characters that are some backslashes and a name are those of a control word. -/
theorem isText_of_span {cs : List Char}
    (hslashes : cs.takeWhile (· == '\\') = ['\\'] ∨ cs.takeWhile (· == '\\') = ['\\', '\\'])
    (hne : cs.dropWhile (· == '\\') ≠ [])
    (hname : ∀ c ∈ cs.dropWhile (· == '\\'), isNameChar c = true) : IsText cs := by
  rw [← List.takeWhile_append_dropWhile (p := (· == '\\')) (l := cs)]
  exact .word hslashes hne hname

/-! ### Reading these characters -/

/-- A comment sign ends a control word. -/
theorem readWord?_append {slashes name : List Char} (hne : name ≠ [])
    (hname : ∀ c ∈ name, isNameChar c = true) (rest : List Char) :
    readWord? slashes (name ++ '%' :: rest) = some ⟨.plain, slashes ++ name, [], '%' :: rest⟩ := by
  have hstop : ¬ isNameChar '%' = true := by decide
  have hblank : ¬ isBlank '%' = true := by decide
  have htake : (name ++ '%' :: rest).takeWhile isNameChar = name := by
    rw [List.takeWhile_append_of_pos hname, List.takeWhile_cons_of_neg hstop, List.append_nil]
  have hdrop : (name ++ '%' :: rest).dropWhile isNameChar = '%' :: rest := by
    rw [List.dropWhile_append_of_pos hname, List.dropWhile_cons_of_neg hstop]
  unfold readWord?
  rw [htake, hdrop]
  simp only [List.takeWhile_cons_of_neg hblank, List.dropWhile_cons_of_neg hblank]

theorem readWord?_of_isNameChar {slashes cs : List Char} {c : Char} (h : isNameChar c = false) :
    readWord? slashes (c :: cs) = none := by
  simp [readWord?, h]

theorem read_backslash (cs : List Char) : read ('\\' :: cs) = readControl cs := by
  simp [read, isBlank]

theorem readControl_of_ne {c : Char} (h : c ≠ '\\') (cs : List Char) :
    readControl (c :: cs) = (readWord? ['\\'] (c :: cs)).getD (readSymbol (c :: cs)) := by
  simp [readControl, h]

/-- The characters of a token are read as that token, if a comment follows. -/
theorem read_of_isText {cs : List Char} (h : IsText cs) (rest : List Char) :
    read (cs ++ '%' :: rest) = ⟨.plain, cs, [], '%' :: rest⟩ := by
  cases h with
  | @word slashes name hslashes hne hname =>
    obtain ⟨c, cs, rfl⟩ := List.exists_cons_of_ne_nil hne
    -- the name does not start with a backslash, which would be the second one
    have hc : c ≠ '\\' := by
      rintro rfl
      have hname := hname '\\' List.mem_cons_self
      rw [isNameChar_backslash] at hname
      cases hname
    rcases hslashes with rfl | rfl
    · simp only [List.cons_append, List.nil_append, read_backslash]
      rw [readControl_of_ne hc, ← List.cons_append, readWord?_append hne hname]
      rfl
    · simp only [List.cons_append, List.nil_append, read_backslash, readControl]
      rw [← List.cons_append, readWord?_append hne hname]
      rfl
  | @symbol c hc =>
    simp only [List.cons_append, List.nil_append, read_backslash]
    by_cases hslash : c = '\\'
    · -- two backslashes make a word only if a name follows
      have hnone : readWord? ['\\', '\\'] ('%' :: rest) = none :=
        readWord?_of_isNameChar (by decide)
      simp only [hslash, readControl, hnone]
      rfl
    · rw [readControl_of_ne hslash, readWord?_of_isNameChar hc]
      rfl
  | @character c marks hblank hcomment hslash hvisible hmarks =>
    have hstop : ¬ isCombiningMark '%' = true := by decide
    simp only [List.cons_append, read, hblank, hcomment, hslash, hvisible, if_false,
      Bool.false_eq_true]
    rw [List.takeWhile_append_of_pos hmarks, List.dropWhile_append_of_pos hmarks,
      List.takeWhile_cons_of_neg hstop, List.dropWhile_cons_of_neg hstop, List.append_nil]

end Lexeme

/-! ### Texts of tokens -/

/-- The texts that tokens can have, the end marker apart. -/
def Legible (s : String) : Prop := s = " " ∨ Lexeme.IsText s.toList

/-- No such text is that of the end marker. -/
theorem Legible.ne_endText {s : String} (h : Legible s) : s ≠ Token.endText := by
  rintro rfl
  rcases h with h | h
  · simp [Token.endText] at h
  · have hchars : Token.endText.toList = ['E', 'O', 'F'] := rfl
    rw [hchars] at h
    -- the letters of the end marker are three tokens, as no letter is a mark
    generalize hcs : ['E', 'O', 'F'] = cs at h
    cases h with
    | word hslashes _ _ => rcases hslashes with rfl | rfl <;> cases hcs
    | symbol => cases hcs
    | character _ _ _ _ hmarks =>
      cases hcs
      exact absurd (hmarks 'O' (by simp)) (by decide)

/-- A token that is read as it stands is not the end marker. -/
theorem Lexeme.isEnd_of_plain {cs : List Char} (h : (read cs).kind = .plain) (span : Option Span) :
    Token.isEnd ⟨String.ofList (read cs).taken, span⟩ = false := by
  have hlegible : Legible (String.ofList (read cs).taken) := by
    refine .inr ?_
    rw [String.toList_ofList]
    exact isText_taken h
  simpa [Token.isEnd] using hlegible.ne_endText

/-- A token is a legible one or the end marker. -/
def Token.IsLegible (t : Token) : Prop := t.isEnd = true ∨ Legible t.text

namespace Lexer

variable {o : Options} {lx : Lexer}

theorem isLegible_of_next {t : Token} (h : (lx.next o).1 = .ok t) : t.IsLegible := by
  fun_induction next o lx with
  | case1 | case6 =>
    cases h
    exact .inl (Token.isEnd_finish _)
  | case2 =>
    cases h
    exact .inr (.inl rfl)
  | case3 lx x hkind =>
    cases h
    refine .inr (.inr ?_)
    rw [String.toList_ofList]
    exact Lexeme.isText_taken hkind
  | case4 | case7 => cases h
  | case5 lx x hkind ih => exact ih h

theorem legible_of_readAll {ts : List Token} (h : (lx.readAll o).1 = .ok ts) :
    ∀ t ∈ ts, Legible t.text := by
  -- the recursion of reading; the list ends in front of the end marker
  fun_induction readAll o lx generalizing ts with
  | case1 => cases h
  | case2 =>
    cases h
    exact fun _ ht => absurd ht List.not_mem_nil
  | case3 lx t lx' log hnext hend tokens later hlater ih =>
    cases tokens with
    | error e => cases h
    | ok us =>
      cases h
      rw [List.forall_mem_cons]
      refine ⟨?_, ih (by rw [hlater])⟩
      exact (isLegible_of_next (congrArg Prod.fst hnext)).resolve_left hend

end Lexer

namespace Feed

variable {o : Options} {f f' : Feed} {t : Token}

/-- Whether the tokens that macros have put in front are legible. -/
def IsLegible (f : Feed) : Prop := ∀ t ∈ f.pending, Legible t.text

theorem IsLegible.take (hf : f.IsLegible) (h : f.take o = (.ok t, f')) :
    t.IsLegible ∧ f'.IsLegible := by
  unfold Feed.take at h
  split at h
  · rename_i u rest hpending
    cases h
    rw [IsLegible, hpending, List.forall_mem_cons] at hf
    exact ⟨.inr hf.1, hf.2⟩
  · rcases hnext : f.lexer.next o with ⟨result, lexer, log⟩
    rw [hnext] at h
    cases h
    exact ⟨Lexer.isLegible_of_next (congrArg Prod.fst hnext), hf⟩

theorem IsLegible.expand {replacement : String} {u : Unit} (hf : f.IsLegible)
    (h : f.expand o t replacement = (.ok u, f')) : f'.IsLegible := by
  obtain ⟨-, tokens, log, htokens, rfl⟩ := expand_eq_ok h
  rw [IsLegible, pending_report, List.forall_mem_append]
  exact ⟨Lexer.legible_of_readAll (congrArg Prod.fst htokens), hf⟩

theorem IsLegible.pull (hf : f.IsLegible) (h : f.pull o = (.ok t, f')) :
    t.IsLegible ∧ f'.IsLegible := by
  fun_induction Feed.pull o f with
  | case1 | case3 => cases h
  | case2 f u f₁ htake =>
    cases h
    exact hf.take htake
  | case4 f u f₁ htake replacement hm v f₂ hexpand ih =>
    exact ih ((hf.take htake).2.expand hexpand) h

end Feed

namespace Parser

variable {env : Environment} {p p' : Parser} {t : Token}

/-- Whether the token in view, and those that macros have put in front, are legible. -/
structure IsLegible (p : Parser) : Prop where
  /-- The token in view is legible. -/
  lookahead : ∀ t ∈ p.lookahead, t.IsLegible
  /-- The tokens behind it are legible. -/
  feed : p.feed.IsLegible

theorem isLegible_ofText (source : String) : (Parser.ofText source).IsLegible :=
  ⟨nofun, fun _ ht => absurd ht List.not_mem_nil⟩

theorem IsLegible.fetch (hp : p.IsLegible) (h : p.fetch env = (.ok t, p')) :
    t.IsLegible ∧ p'.IsLegible := by
  unfold Parser.fetch at h
  split at h
  · rename_i u hview
    cases h
    exact ⟨hp.lookahead t hview, hp⟩
  · split at h
    · rename_i u feed hpull
      cases h
      obtain ⟨ht, hfeed⟩ := hp.feed.pull hpull
      refine ⟨ht, ⟨fun v hv => ?_, hfeed⟩⟩
      cases hv
      exact ht
    · cases h

/-- The tokens that reach the parser are legible, whether they are read from the text or put in by
macros. -/
theorem Supplies.legible {ts : List Token} {last : Token} (h : p.Supplies env ts last)
    (hp : p.IsLegible) : ∀ t ∈ ts, Legible t.text := by
  induction ts generalizing p with
  | nil => exact fun _ ht => absurd ht List.not_mem_nil
  | cons t ts ih =>
    obtain ⟨ht, hend, hrest⟩ := h
    obtain ⟨htext, hp'⟩ := hp.fetch (Prod.ext ht rfl)
    rw [List.forall_mem_cons]
    refine ⟨htext.resolve_left (by simp [hend]), ih hrest ⟨nofun, hp'.feed⟩⟩

end Parser

/-! ### Spelling out tokens -/

/-- Some texts, each with an empty comment behind it. -/
def spell (ss : List String) : List Char := ss.flatMap fun s => s.toList ++ ['%', '\n']

namespace Lexer

variable {lx : Lexer} {rest : List Char}

theorem next_of_finish (o : Options) (h : (Lexeme.read lx.rest).kind = .finish) :
    lx.next o = (.ok lx.finish, lx, []) := by
  rw [next_eq, h]

theorem next_of_blank (o : Options) (h : (Lexeme.read lx.rest).kind = .blank) :
    lx.next o = (.ok ⟨" ", some (lx.spanOf (Lexeme.read lx.rest))⟩,
      lx.advance (Lexeme.read lx.rest), []) := by
  rw [next_eq, h]

theorem next_of_plain (o : Options) (h : (Lexeme.read lx.rest).kind = .plain) :
    lx.next o = (.ok ⟨String.ofList (Lexeme.read lx.rest).taken,
      some (lx.spanOf (Lexeme.read lx.rest))⟩, lx.advance (Lexeme.read lx.rest), []) := by
  rw [next_eq, h]

theorem next_of_comment (o : Options) (h : (Lexeme.read lx.rest).kind = .comment true) :
    lx.next o = (lx.advance (Lexeme.read lx.rest)).next o := by
  rw [next_eq, h]

/-- A legible text in front of a comment is the next token. -/
theorem next_of_legible (o : Options) {s : String} (hs : Legible s)
    (h : lx.rest = s.toList ++ '%' :: rest) :
    ∃ span lx', lx.next o = (.ok ⟨s, span⟩, lx', []) ∧ lx'.rest = '%' :: rest := by
  rcases hs with rfl | hs
  · have hread : Lexeme.read lx.rest = ⟨.blank, [' '], [], '%' :: rest⟩ := by
      rw [h]
      rfl
    exact ⟨_, _, next_of_blank o (by rw [hread]), by rw [hread]; rfl⟩
  · have hread := Lexeme.read_of_isText hs rest
    rw [← h] at hread
    have hnext := next_of_plain o (congrArg Lexeme.kind hread)
    rw [hread, String.ofList_toList] at hnext
    exact ⟨_, _, hnext, rfl⟩

/-- An empty comment leaves no trace. -/
theorem next_of_empty_comment (o : Options) (h : lx.rest = '%' :: '\n' :: rest) :
    ∃ lx' : Lexer, lx.next o = lx'.next o ∧ lx'.rest = rest := by
  have hread : Lexeme.read lx.rest = ⟨.comment true, ['%', '\n'], [], rest⟩ := by
    rw [h]
    rfl
  exact ⟨_, next_of_comment o (by rw [hread]), by rw [hread]; rfl⟩

end Lexer

namespace Parser

/-- Whether a parser has nothing in view and is in front of some characters, with or without
an empty comment between. -/
structure IsBefore (p : Parser) (cs : List Char) : Prop where
  /-- No token is in view. -/
  lookahead : p.lookahead = none
  /-- No macro has put tokens in front. -/
  pending : p.feed.pending = []
  /-- The characters come next. -/
  rest : p.feed.lexer.rest = cs ∨ p.feed.lexer.rest = '%' :: '\n' :: cs

variable {env : Environment} {p : Parser}

/-- Without macros, the token that comes into view is the next one of the text. -/
theorem fetch_of_next (hmacros : env.options.macros = []) (hlookahead : p.lookahead = none)
    (hpending : p.feed.pending = []) {t : Token} {lx : Lexer} {log : Log}
    (h : p.feed.lexer.next env.options = (.ok t, lx, log)) :
    ∃ p' : Parser, p.fetch env = (.ok t, p') ∧ p'.feed.pending = [] ∧ p'.feed.lexer = lx := by
  obtain ⟨f, htake, hfpending, hflexer⟩ : ∃ f, p.feed.take env.options = (.ok t, f) ∧
      f.pending = [] ∧ f.lexer = lx := by
    refine ⟨{ p.feed with lexer := lx, pending := [] }.report log, ?_, rfl, rfl⟩
    unfold Feed.take
    rw [hpending, h]
  have hpull : p.feed.pull env.options = (.ok t, f) :=
    Feed.pull_of_lookup_none htake (by rw [hmacros]; rfl)
  refine ⟨{ p with lookahead := some t, feed := f }, ?_, hfpending, hflexer⟩
  rw [fetch, hlookahead]
  simp only [hpull]

/-- The next token is the first of these characters, whether or not a comment is between. -/
theorem IsBefore.exists_next {cs : List Char} (h : p.IsBefore cs) (o : Options) :
    ∃ lx : Lexer, p.feed.lexer.next o = lx.next o ∧ lx.rest = cs := by
  rcases h.rest with hrest | hrest
  · exact ⟨_, rfl, hrest⟩
  · exact Lexer.next_of_empty_comment o hrest

/-- Where texts are spelled out, the parser has tokens with these texts before it. -/
theorem supplies_of_spell (hmacros : env.options.macros = []) {ss : List String}
    (hss : ∀ s ∈ ss, Legible s) (hp : p.IsBefore (spell ss)) :
    ∃ ts last, texts ts = ss ∧ p.Supplies env ts last := by
  induction ss generalizing p with
  | nil =>
    obtain ⟨lx, hnext, hrest⟩ := hp.exists_next env.options
    have hkind : (Lexeme.read lx.rest).kind = .finish := by
      rw [hrest]
      rfl
    rw [Lexer.next_of_finish _ hkind] at hnext
    obtain ⟨p', hfetch, -⟩ := fetch_of_next hmacros hp.lookahead hp.pending hnext
    exact ⟨[], lx.finish, rfl, congrArg Prod.fst hfetch, Token.isEnd_finish _⟩
  | cons s ss ih =>
    rw [List.forall_mem_cons] at hss
    have hspell : spell (s :: ss) = s.toList ++ '%' :: '\n' :: spell ss := by
      simp [spell]
    obtain ⟨lx, hnext, hrest⟩ := hp.exists_next env.options
    rw [hspell] at hrest
    obtain ⟨span, lx', htoken, hrest'⟩ := Lexer.next_of_legible env.options hss.1 hrest
    rw [htoken] at hnext
    obtain ⟨p', hfetch, hpending, hlexer⟩ :=
      fetch_of_next hmacros hp.lookahead hp.pending hnext
    -- the comment behind the token is left for the next turn
    have hbefore : p'.consume.IsBefore (spell ss) := ⟨rfl, hpending, .inr (hlexer ▸ hrest')⟩
    obtain ⟨ts, last, hts, hsupplies⟩ := ih hss.2 hbefore
    have hend : Token.isEnd ⟨s, span⟩ = false := by
      simpa [Token.isEnd] using hss.1.ne_endText
    refine ⟨⟨s, span⟩ :: ts, last, by rw [texts_cons, hts], ?_, hend, ?_⟩
    · rw [hfetch]
    · rw [hfetch]
      exact hsupplies

theorem isBefore_ofText (cs : List Char) : (Parser.ofText (String.ofList cs)).IsBefore cs :=
  ⟨rfl, rfl, .inl (String.toList_ofList)⟩

end Parser

end MathMarkup
