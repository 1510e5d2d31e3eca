import MathMarkup.Proofs.Parser.Failure
import MathMarkup.Proofs.Parser.Modes
import MathMarkup.Proofs.Parser.Substitution

/-!
# Blanks mean nothing in math mode

Only one standard command reads an argument in text mode.  Without it everything that is open is
in math mode, since modes nest: groups, optional arguments and arguments without braces alike.
There a blank is used up and changes nothing, wherever it stands.  So blanks can be taken out of
the tokens of a text, or put in, and the text becomes the same.

## Main definitions

* `Command.IsUniform` — a command that reads its arguments in the mode around it.
* `Guard.uniform` — all open commands are such.
* `Stack.InMath` — everything that is open is in math mode.
* `Token.isVisible`, `visibleTexts` — what is no blank.

## Main results

* `Stack.InMath.feed_blank` — a blank changes nothing.
* `Stack.InMath.readList_filter` — blanks can be taken out of what is read.
* `Environment.parse_of_same_visible_texts` — **a text without text mode is fixed by its tokens
  that are no blanks.**
-/

namespace MathMarkup

/-! ### Commands that keep the mode -/

/-- Whether a command reads its arguments in the mode around it. -/
def Command.IsUniform (c : Command) : Prop :=
  ∀ (index : Nat) (mode : Mode), (c.argumentType index).mode mode = mode

theorem IsStandard.isUniform {name : String} {c : Command} (h : IsStandard name c)
    (hname : name ≠ "\\text") : c.IsUniform := by
  intro index mode
  cases h with
  | text => exact absurd rfl hname
  | arrow | arrowPair | lap | fraction | phantom => rfl

variable {α : Type} {env : Environment}

/-- All open commands keep the mode, and what is read ends in front of a token, which is then the
first one that is left. -/
def Guard.uniform (env : Environment) : Guard env where
  call c := c.command.IsUniform
  error _ := True
  ends _ taken := taken = false
  call_accept n h := by rwa [Call.command_accept]
  call_skip h := h
  call_bare _ h := h
  error_invoke _ _ := trivial

theorem Guard.admits_uniform (henv : env.registry = .standard) {t : Token}
    (ht : t.text ≠ "\\text") : (Guard.uniform env).Admits t where
  opens hopen := (Environment.isStandard_of_openCall henv hopen).isUniform ht
  refuses _ _ := trivial
  unexpected _ := trivial
  mismatched _ _ := trivial
  missing _ := trivial

/-! ### Everything is in math mode -/

/-- Whether everything that is open is in math mode, and stays so. -/
structure Stack.InMath (env : Environment) (s : Stack α) : Prop where
  /-- The modes fit together, with math mode at the bottom. -/
  nested : s.NestedIn .math
  /-- No open command changes the mode. -/
  guarded : s.Guarded (Guard.uniform env)

namespace Stack.InMath

variable {s s' : Stack α} {t : Token}

/-- The next token is read in math mode, whatever is open. -/
theorem current_eq (h : s.InMath env) : s.current = .math := by
  obtain ⟨hnested, hguarded⟩ := h
  -- on the stack: what is on top is in the mode of what is below
  induction s with
  | expression mode stop items result => exact hnested
  | arguments c result => exact (hguarded.1 _ c.mode).trans hnested
  | brace mode opening items below ih | bracket mode opening items below ih
  | scope mode stop finish items below ih => exact hnested.1.trans (ih hnested.2 hguarded)
  | call c below ih =>
    have hmode : c.mode = .math := hnested.1.trans (ih hnested.2 hguarded.2)
    exact (hguarded.1 _ c.mode).trans hmode

/-- **A blank is used up and changes nothing**, in an expression as in front of an argument. -/
theorem feed_blank (h : s.InMath env) (ht : t.text = " ") :
    s.feed env t = take (.read s, []) := by
  have hcurrent := h.current_eq
  have hbody : ∀ {mode : Mode} (stop : Option String) (close : Move α), mode = .math →
      s.feedBody env t mode stop close = take (.read s, []) := by
    rintro mode stop close rfl
    have hignored : isIgnored .math t = true := by simp [isIgnored, ht]
    rw [feedBody, if_pos hignored]
  cases s with
  | expression | brace | bracket | scope => exact hbody _ _ hcurrent
  | call c below => rw [feed, feedCall, if_pos ht]
  | arguments c result => rw [feed, feedCall, if_pos ht]

/-- A token that does not start text leaves everything in math mode. -/
theorem of_read (henv : env.registry = .standard) (h : s.InMath env) (ht : t.text ≠ "\\text")
    (hread : (s.feed env t).outcome = .read s') : s'.InMath env := by
  have hnested : (s.feed env t).outcome.NestedIn .math := h.nested.feed t
  have hguarded := Guard.feed (Guard.admits_uniform henv ht) h.guarded
  rw [Move.Guarded, hread] at hguarded
  rw [hread] at hnested
  exact ⟨hnested, hguarded⟩

/-- What is read ends in front of a token that is no blank. -/
theorem of_done (henv : env.registry = .standard) (h : s.InMath env) (ht : t.text ≠ "\\text")
    {a : α} (hdone : (s.feed env t).outcome = .done a) :
    (s.feed env t).taken = false ∧ t.text ≠ " " := by
  have hguarded := Guard.feed (Guard.admits_uniform henv ht) h.guarded
  rw [Move.Guarded, hdone] at hguarded
  refine ⟨hguarded, fun hblank => ?_⟩
  rw [h.feed_blank hblank] at hdone
  cases hdone

end Stack.InMath

/-! ### Taking out blanks -/

/-- Whether a token is no blank. -/
def Token.isVisible (t : Token) : Bool := t.text != " "

/-- The texts that are no blanks. -/
def visibleTexts (texts : List String) : List String := texts.filter (· != " ")

theorem map_text_filter_isVisible (ts : List Token) :
    (ts.filter Token.isVisible).map Token.text = visibleTexts (ts.map Token.text) := by
  rw [visibleTexts, List.filter_map]
  rfl

/-- If the first token is no blank, it stays the first one without blanks. -/
theorem headD_filter_isVisible {ts : List Token} {last : Token} (h : (ts.headD last).text ≠ " ") :
    (ts.filter Token.isVisible).headD last = ts.headD last := by
  cases ts with
  | nil => rfl
  | cons t ts =>
    have ht : t.isVisible = true := bne_iff_ne.mpr h
    rw [List.filter_cons_of_pos ht]
    rfl

theorem Move.leaves_filter_isVisible {ts : List Token} {last : Token}
    (h : (ts.headD last).text ≠ " ") (move : Move α) :
    move.leaves (ts.filter Token.isVisible) = (move.leaves ts).filter Token.isVisible := by
  unfold Move.leaves
  split
  · cases ts with
    | nil => rfl
    | cons t ts =>
      have ht : t.isVisible = true := bne_iff_ne.mpr h
      rw [List.filter_cons_of_pos ht]
      rfl
  · rfl

/-- The end marker does not start text. -/
theorem text_headD_ne {ts : List Token} (h : ∀ t ∈ ts, t.text ≠ "\\text") {span : Option Span} :
    (ts.headD (.finish span)).text ≠ "\\text" := by
  cases ts with
  | nil => exact (by decide : Token.endText ≠ "\\text")
  | cons t ts => exact h t List.mem_cons_self

theorem Move.mem_of_mem_leaves {move : Move α} {ts : List Token} {t : Token}
    (h : t ∈ move.leaves ts) : t ∈ ts := by
  unfold Move.leaves at h
  split at h
  · exact List.mem_of_mem_tail h
  · exact h

namespace Stack.InMath

variable {s : Stack α} {ts : List Token} {span : Option Span}

/-- Blanks can be taken out of what is read, and out of what is left, with the same result. -/
theorem readList_filter (henv : env.registry = .standard) (h : s.InMath env)
    (hts : ∀ t ∈ ts, t.text ≠ "\\text") :
    s.readList env span (ts.filter Token.isVisible) =
      (s.readList env span ts).map (Prod.map id (List.filter Token.isVisible)) := by
  -- the recursion of the run with blanks; the other one waits while a blank is used up
  fun_induction Stack.readList env span ts s with
  | case1 ts s s' hread ih =>
    have hih := ih (h.of_read henv (text_headD_ne hts) hread)
      fun t ht => hts t (Move.mem_of_mem_leaves ht)
    by_cases hblank : (ts.headD (.finish span)).text = " "
    · -- the blank leaves the stack as it is
      have hfeed := h.feed_blank hblank
      rw [hfeed] at hread hih
      cases hread
      cases ts with
      | nil => exact absurd hblank (by decide : Token.endText ≠ " ")
      | cons t ts =>
        have ht : ¬ t.isVisible = true := by simpa [Token.isVisible] using hblank
        rw [List.filter_cons_of_neg ht, hfeed]
        exact hih
    · rw [readList_eq, headD_filter_isVisible hblank, Move.follow, hread,
        Move.leaves_filter_isVisible hblank]
      exact hih
  | case2 ts s a hdone =>
    have hblank := (h.of_done henv (text_headD_ne hts) hdone).2
    rw [readList_eq, headD_filter_isVisible hblank, Move.follow, hdone,
      Move.leaves_filter_isVisible hblank]
    rfl
  | case3 ts s e hfail =>
    have hblank : (ts.headD (.finish span)).text ≠ " " := by
      intro hblank
      rw [h.feed_blank hblank] at hfail
      cases hfail
    rw [readList_eq, headD_filter_isVisible hblank, Move.follow, hfail]
    rfl

/-- What is left starts with no blank. -/
theorem head?_of_readList (henv : env.registry = .standard) (h : s.InMath env)
    (hts : ∀ t ∈ ts, t.text ≠ "\\text") {a : α} {rest : List Token}
    (hread : s.readList env span ts = .ok (a, rest)) : ∀ t ∈ rest.head?, t.isVisible = true := by
  fun_induction Stack.readList env span ts s with
  | case1 ts s s' hfeed ih =>
    exact ih (h.of_read henv (text_headD_ne hts) hfeed)
      (fun t ht => hts t (Move.mem_of_mem_leaves ht)) hread
  | case2 ts s a' hdone =>
    -- what ends the reading is left in place, and a blank would not have ended it
    obtain ⟨htaken, hblank⟩ := h.of_done henv (text_headD_ne hts) hdone
    cases hread
    intro t ht
    rw [Move.leaves, htaken] at ht
    cases ts with
    | nil => cases ht
    | cons u ts =>
      cases ht
      exact bne_iff_ne.mpr hblank
  | case3 => cases hread

end Stack.InMath

/-- Without blanks, the same token is the first one that is left, and so the same error is found. -/
theorem Parser.closeDocument_filter {reading : Except CompileError (List Node × List Token)}
    (h : ∀ a rest, reading = .ok (a, rest) → ∀ t ∈ rest.head?, t.isVisible = true) :
    closeDocument (reading.map (Prod.map id (List.filter Token.isVisible))) =
      closeDocument reading := by
  rcases reading with e | ⟨a, _ | ⟨t, rest⟩⟩
  · rfl
  · rfl
  · have ht : t.isVisible = true := h a (t :: rest) rfl t rfl
    simp only [Except.map, Prod.map, List.filter_cons_of_pos ht]
    rfl

namespace Environment

theorem inMath_start (env : Environment) (source : String) :
    (Parser.ofText source).start.InMath env := ⟨rfl, fun _ _ => rfl⟩

/-- A text without text mode becomes what its tokens that are no blanks become. -/
theorem parse_eq_of_visible (henv : env.registry = .standard) {source : String} {ts : List Token}
    {last : Token} (h : (Parser.ofText source).Supplies env ts last)
    (hts : ∀ t ∈ ts, t.text ≠ "\\text") :
    (env.parse source).1 = Parser.closeDocument
      ((Parser.ofText source).start.readList env last.span (ts.filter Token.isVisible)) := by
  have hstart := inMath_start env source
  rw [parse_eq_of_supplies h, hstart.readList_filter henv hts, Parser.closeDocument_filter]
  exact fun a rest hread => hstart.head?_of_readList henv hts hread

/-- **In math mode blanks mean nothing.**  If no token of two texts starts text, once their macros
are replaced, and the tokens that are no blanks have the same texts, then the two have the same
nodes or fail for the same reason, places apart. -/
theorem parse_of_same_visible_texts (o : Options) (hfixed : ∀ answer, o.strict ≠ .rule answer)
    (macros macros' : MacroTable) (limit limit' : Nat) (source source' : String)
    (texts texts' : List String)
    (h : ((Parser.ofText source).drain
      ⟨.standard, { o with macros := macros, maxExpand := limit }⟩).map (·.map Token.text) =
        .ok texts)
    (h' : ((Parser.ofText source').drain
      ⟨.standard, { o with macros := macros', maxExpand := limit' }⟩).map (·.map Token.text) =
        .ok texts')
    (htext : "\\text" ∉ texts) (htexts : visibleTexts texts = visibleTexts texts') :
    forgetPlaces
        (parse ⟨.standard, { o with macros := macros, maxExpand := limit }⟩ source).1 =
      forgetPlaces
        (parse ⟨.standard, { o with macros := macros', maxExpand := limit' }⟩ source').1 := by
  obtain ⟨ts, last, hts, rfl⟩ := Parser.exists_supplies_of_map_drain h
  obtain ⟨ts', last', hts', rfl⟩ := Parser.exists_supplies_of_map_drain h'
  have htext' : "\\text" ∉ ts'.map Token.text := by
    -- what starts text is no blank, so it is not lost
    intro hmem
    have hvisible : "\\text" ∈ visibleTexts (ts'.map Token.text) :=
      List.mem_filter.mpr ⟨hmem, by decide⟩
    rw [← htexts] at hvisible
    exact htext (List.mem_filter.mp hvisible).1
  have hne : ∀ {us : List Token}, "\\text" ∉ us.map Token.text → ∀ t ∈ us, t.text ≠ "\\text" :=
    fun hus t ht heq => hus (heq ▸ List.mem_map_of_mem ht)
  have hrespects : (Comparison.places { o with macros := macros, maxExpand := limit }
      { o with macros := macros', maxExpand := limit' }).RespectsAll .standard := by
    refine (Comparison.congruent_places ?_).respectsAll
    exact Strictness.resolve_eq hfixed
  rw [parse_eq_of_visible rfl hts (hne htext), parse_eq_of_visible rfl hts' (hne htext')]
  refine forgetPlaces_readList hrespects source source' ?_ last.span last'.span
  rw [map_text_filter_isVisible, map_text_filter_isVisible, htexts]

/-- Blanks in front of an optional argument and of required ones, inside brackets and braces; some
of them come out of a macro. -/
theorem parse_of_same_visible_texts_arrowPair :
    ((Parser.ofText "\\xtofrom\\b [ a\\b ]\\b \x7b \\frac\\b 1 2 \x7d").drain
      ⟨.standard, { macros := [("\\b", " ")], maxExpand := 4 }⟩).map (·.map Token.text) =
        .ok ["\\xtofrom", " ", "[", " ", "a", " ", "]", " ", "\x7b", " ", "\\frac", " ", "1", " ",
          "2", " ", "\x7d"] ∧
    forgetPlaces (parse ⟨.standard, { macros := [("\\b", " ")], maxExpand := 4 }⟩
        "\\xtofrom\\b [ a\\b ]\\b \x7b \\frac\\b 1 2 \x7d").1 =
      forgetPlaces (parse ⟨.standard, { macros := [], maxExpand := 0 }⟩
        "\\xtofrom[a]\x7b\\frac12\x7d").1 := by
  have hdrain : ((Parser.ofText "\\xtofrom\\b [ a\\b ]\\b \x7b \\frac\\b 1 2 \x7d").drain
      ⟨.standard, { macros := [("\\b", " ")], maxExpand := 4 }⟩).map (·.map Token.text) =
        .ok ["\\xtofrom", " ", "[", " ", "a", " ", "]", " ", "\x7b", " ", "\\frac", " ", "1", " ",
          "2", " ", "\x7d"] := by
    decide +kernel
  have hdrain' : ((Parser.ofText "\\xtofrom[a]\x7b\\frac12\x7d").drain
      ⟨.standard, { macros := [], maxExpand := 0 }⟩).map (·.map Token.text) =
        .ok ["\\xtofrom", "[", "a", "]", "\x7b", "\\frac", "1", "2", "\x7d"] := by
    decide +kernel
  refine ⟨hdrain, ?_⟩
  exact parse_of_same_visible_texts {} nofun _ _ _ _ _ _ _ _ hdrain hdrain' (by decide) (by decide)

end Environment

end MathMarkup
