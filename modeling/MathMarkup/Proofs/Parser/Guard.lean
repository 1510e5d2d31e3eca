import MathMarkup.Proofs.Parser.Arguments

/-!
# What stays true while a stack is fed

Much of what can be said about a run does not depend on what the run reads: something is
known of every call that is open, of every error, and of the token at which the reading is
complete.  A guard says what that is.  It is enough that arguments keep what is known of a
call, that a command which fails does so with a guarded error, and that every token that
comes into view is admitted; then everything a run comes to is guarded.

## Main definitions

* `Guard` — what is known of calls, errors and last tokens.
* `Guard.Admits` — a token whose calls and errors are guarded.
* `Stack.Guarded`, `Move.Guarded` — stacks and moves of which the guard holds.
* `Parser.Stable` — what stays true of a parser while it reads.

## Main results

* `Guard.deliver`, `Guard.feed` — what one node and one token do.
* `Guard.error_of_run` — a run fails with a guarded error, or because no token comes into view.
* `Guard.ends_of_run` — the token at which a run is complete.
-/

namespace MathMarkup

/-- What is known of everything that a parser handles: of its open calls, of its errors, and
of the token at which it is done, which may be used up or not. -/
structure Guard (env : Environment) where
  /-- What is known of an open call. -/
  call : Call → Prop
  /-- What is known of an error. -/
  error : CompileError → Prop
  /-- What is known of the last token, and whether that was used up. -/
  ends : Token → Bool → Prop
  call_accept : ∀ {c : Call} (n : Node), call c → call (c.accept n)
  call_skip : ∀ {c : Call}, call c → call c.skip
  call_bare : ∀ {c : Call} (span : Option Span), call c → call { c with bare := some span }
  error_invoke : ∀ {c : Call} {e : CompileError}, call c → (c.invoke env).1 = .fail e → error e

/-- Whether everything that can come of a token is guarded: the call it opens, and the errors
it is refused with. -/
structure Guard.Admits {env : Environment} (G : Guard env) (t : Token) : Prop where
  /-- The call that it opens. -/
  opens : ∀ {mode : Mode} {c : Call}, env.openCall t mode = .ok c → G.call c
  /-- The error, if it names no command that may stand here. -/
  refuses : ∀ {mode : Mode} {taken : Bool} {e : CompileError}, t.isControl = true →
    env.openCall t mode = .error (taken, e) → G.error e
  /-- The error where no character stands for itself. -/
  unexpected : t.isCharacter = false → G.error (.located (.unexpectedToken t.text) t.span)
  /-- The error where another token was wanted; a blank is never that token. -/
  mismatched : ∀ expected : String, t.text ≠ " " →
    G.error (.located (.expectedToken expected t.text) t.span)
  /-- The error where an argument was wanted. -/
  missing : ∀ {c : Call}, G.call c → G.error (.located (.missingArgument c.name) t.span)

section

variable {α : Type} {env : Environment}

/-! ### What is known all along -/

/-- Something that stays true of a parser, whatever it reads: tokens that come into view leave
it true, and so do tokens that are used up and reports. -/
structure Parser.Stable (env : Environment) (known : Parser → Prop) : Prop where
  /-- A token comes into view. -/
  fetch : ∀ {p p' : Parser} {t : Token}, known p → p.fetch env = (.ok t, p') → known p'
  /-- The token in view is used up; the end marker never is. -/
  consume : ∀ {p : Parser} {t : Token}, known p → p.lookahead = some t → t.isEnd = false →
    known p.consume
  /-- More is reported. -/
  report : ∀ {p : Parser} (log : Log), known p → known (p.report log)

theorem Parser.Stable.after {known : Parser → Prop} (hk : Parser.Stable env known)
    {p p' : Parser} {t : Token} (hp : known p) (hfetch : p.fetch env = (.ok t, p'))
    (s : Stack α) : known (p'.after (s.feed env t)) := by
  have hp' := hk.fetch hp hfetch
  unfold Parser.after
  split
  · rename_i htaken
    -- the end marker is never used up
    have hend : t.isEnd = false := by
      cases hend : t.isEnd with
      | false => rfl
      | true => simp [s.taken_feed_of_isEnd hend] at htaken
    exact hk.report _ (hk.consume hp' (Parser.lookahead_fetch hfetch) hend)
  · exact hk.report _ hp'

/-- What stays true of a parser is true after a run that has a result. -/
theorem Parser.Stable.run {known : Parser → Prop} (hk : Parser.Stable env known) {s : Stack α}
    {p p' : Parser} {a : α} (hp : known p) (h : p.run env s = (.ok a, p')) : known p' := by
  fun_induction Parser.run env s p with
  | case1 | case4 => cases h
  | case2 s p t p₁ hfetch s' hread ih => exact ih (hk.after hp hfetch s) h
  | case3 s p t p₁ hfetch a' hdone =>
    cases h
    exact hk.after hp hfetch s

/-! ### Guarded stacks -/

/-- Whether the guard holds of everything that is open: of every call, and of the token that will
end the expression at the bottom. -/
def Stack.Guarded (G : Guard env) : Stack α → Prop
  | expression _ stop _ _ => ∀ t, closes stop t = true → G.ends t false
  | arguments c _ => G.call c ∧ ∀ t taken, G.ends t taken
  | brace _ _ _ below | bracket _ _ _ below | scope _ _ _ _ below => below.Guarded G
  | call c below => G.call c ∧ below.Guarded G

/-- Whether the guard holds of what a stack comes to at a token. -/
def Outcome.Guarded (G : Guard env) (t : Token) (taken : Bool) : Outcome α → Prop
  | read s => s.Guarded G
  | done _ => G.ends t taken
  | fail e => G.error e

/-- Whether the guard holds of what a token does. -/
def Move.Guarded (G : Guard env) (t : Token) (move : Move α) : Prop :=
  move.outcome.Guarded G t move.taken

/-- An expression and an argument end at no blank. -/
theorem Stack.ne_blank_of_closes {stop : Option String} {t : Token} (hstop : stop ≠ some " ")
    (h : closes stop t = true) : t.text ≠ " " := by
  intro hblank
  have hend : t.isEnd = false := by simp [Token.isEnd, Token.endText, hblank]
  simp [closes, hend, hblank, hstop] at h

namespace Guard

variable {G : Guard env} {t : Token} {mode : Mode} {c : Call} {s below : Stack α}

/-! ### One node -/

theorem settle {deliver : Node → Outcome α × Log} {reply : Reply × Log} {taken : Bool}
    (hbelow : below.Guarded G) (hdeliver : ∀ n, (deliver n).1.Guarded G t taken)
    (hfail : ∀ e, reply.1 = .fail e → G.error e) :
    (Stack.settle mode below deliver reply).1.Guarded G t taken := by
  obtain ⟨reply, log⟩ := reply
  cases reply with
  | node n => exact hdeliver n
  | fail e => exact hfail e rfl
  | readUntil stop finish => exact hbelow

/-- A delivery keeps the guard. -/
theorem deliver (hs : s.Guarded G) (n : Node) (t : Token) (taken : Bool) :
    (s.deliver env n).1.Guarded G t taken := by
  -- on the stack: a call may be completed, and its node goes to what is below
  induction s generalizing n with
  | expression | brace | bracket | scope => exact hs
  | arguments c result =>
    obtain ⟨hcall, hends⟩ := hs
    simp only [Stack.deliver]
    split
    · exact hends t taken
    · exact ⟨G.call_accept n hcall, hends⟩
  | call c below ih =>
    obtain ⟨hcall, hbelow⟩ := hs
    have haccept := G.call_accept n hcall
    simp only [Stack.deliver]
    split
    · exact settle hbelow (fun m => ih hbelow m) fun _ he => G.error_invoke haccept he
    · exact ⟨haccept, hbelow⟩

theorem complete (hcall : G.call c) (hbelow : below.Guarded G) (t : Token) (taken : Bool) :
    (below.complete env c).1.Guarded G t taken :=
  settle hbelow (fun n => deliver hbelow n t taken) fun _ he => G.error_invoke hcall he

/-! ### One token -/

theorem feedCommand (ht : G.Admits t) (hcontrol : t.isControl = true) (hs : s.Guarded G) :
    (s.feedCommand env t mode).Guarded G t := by
  unfold Stack.feedCommand
  split
  · rename_i taken e hrefused
    exact ht.refuses hcontrol hrefused
  · rename_i c hopen
    have hcall := ht.opens hopen
    unfold Stack.take Move.Guarded
    split
    · exact complete hcall hs t true
    · exact ⟨hcall, hs⟩

theorem feedAtom (ht : G.Admits t) (hs : s.Guarded G) : (s.feedAtom env t mode).Guarded G t := by
  unfold Stack.feedAtom
  split
  · exact hs
  split
  · rename_i hcontrol
    exact feedCommand ht hcontrol hs
  split
  · exact deliver hs _ t true
  · rename_i hcharacter
    exact ht.unexpected (by simpa using hcharacter)

theorem feedBody (ht : G.Admits t) {stop : Option String} {close : Move α} (hs : s.Guarded G)
    (hclose : Stack.closes stop t = true → close.Guarded G t) :
    (s.feedBody env t mode stop close).Guarded G t := by
  unfold Stack.feedBody
  split
  · exact hs
  split
  · rename_i hcloses
    exact hclose hcloses
  · exact feedAtom ht hs

theorem feedClosing (ht : G.Admits t) (hblank : t.text ≠ " ") {expected : String}
    {result : Outcome α × Log} (h : result.1.Guarded G t true) :
    (Stack.feedClosing t expected result).Guarded G t := by
  unfold Stack.feedClosing
  split
  · exact h
  · exact ht.mismatched expected hblank

theorem feedCall (ht : G.Admits t) {stack : Call → Stack α} {finish : Call → Outcome α × Log}
    (hcall : G.call c) (hstack : ∀ {c}, G.call c → (stack c).Guarded G)
    (hfinish : ∀ {c}, G.call c → (finish c).1.Guarded G t false) :
    (Stack.feedCall env t c stack finish).Guarded G t := by
  unfold Stack.feedCall
  split
  · exact hstack hcall
  split
  · split
    · exact hstack hcall
    split
    · exact hfinish (G.call_skip hcall)
    · exact hstack (G.call_skip hcall)
  split
  · exact ht.missing hcall
  split
  · exact hstack hcall
  · exact feedAtom ht (hstack (G.call_bare t.span hcall))

/-- **A token that is admitted keeps the guard**, whatever it does: open a call, become an argument,
close what is open, or fail.  The calls on the stack are guarded then, and so is an error or the
last token. -/
theorem feed (ht : G.Admits t) (hs : s.Guarded G) : (s.feed env t).Guarded G t := by
  cases s with
  | expression mode stop items result => exact feedBody ht hs fun hcloses => hs t hcloses
  | brace mode opening items below | bracket mode opening items below =>
    have hbelow : below.Guarded G := hs
    refine feedBody ht hs fun hcloses => ?_
    exact feedClosing ht (Stack.ne_blank_of_closes (by simp) hcloses) (deliver hbelow _ t true)
  | scope mode stop finish items below =>
    have hbelow : below.Guarded G := hs
    exact feedBody ht hs fun _ => deliver hbelow _ t false
  | call c below =>
    obtain ⟨hcall, hbelow⟩ := hs
    exact feedCall ht hcall (fun hc => ⟨hc, hbelow⟩) fun hc => complete hc hbelow t false
  | arguments c result =>
    obtain ⟨hcall, hends⟩ := hs
    exact feedCall ht hcall (fun hc => ⟨hc, hends⟩) fun _ => hends t false

/-! ### Runs -/

variable {known : Parser → Prop}

/-- A run fails with a guarded error, or because no token comes into view. -/
theorem error_of_run (hk : Parser.Stable env known)
    (hadmits : ∀ {p p' t}, known p → p.fetch env = (.ok t, p') → G.Admits t) {p p' : Parser}
    {e : CompileError} (hs : s.Guarded G) (hp : known p) (h : p.run env s = (.error e, p')) :
    G.error e ∨ ∃ q, known q ∧ q.fetch env = (.error e, p') := by
  -- along the run; the stack stays guarded as long as it wants more
  fun_induction Parser.run env s p with
  | case1 s p e' p₁ hfetch =>
    cases h
    exact .inr ⟨p, hp, hfetch⟩
  | case2 s p t p₁ hfetch s' hread ih =>
    have hmove : (s.feed env t).Guarded G t := feed (hadmits hp hfetch) hs
    rw [Move.Guarded, hread] at hmove
    exact ih hmove (hk.after hp hfetch s) h
  | case3 => cases h
  | case4 s p t p₁ hfetch e' hfail =>
    cases h
    -- the stack was guarded all along, so the last token does nothing unforeseen
    have hmove : (s.feed env t).Guarded G t := feed (hadmits hp hfetch) hs
    rw [Move.Guarded, hfail] at hmove
    exact .inl hmove

/-- A run is complete at a token of which the guard knows; unless it was used up it is still
in view. -/
theorem ends_of_run (hk : Parser.Stable env known)
    (hadmits : ∀ {p p' t}, known p → p.fetch env = (.ok t, p') → G.Admits t) {p p' : Parser}
    {a : α} (hs : s.Guarded G) (hp : known p) (h : p.run env s = (.ok a, p')) :
    ∃ t taken, G.Admits t ∧ G.ends t taken ∧ (taken = false → p'.lookahead = some t) := by
  -- along the run, up to the token at which it is complete
  fun_induction Parser.run env s p with
  | case1 => cases h
  | case2 s p t p₁ hfetch s' hread ih =>
    have hmove : (s.feed env t).Guarded G t := feed (hadmits hp hfetch) hs
    rw [Move.Guarded, hread] at hmove
    exact ih hmove (hk.after hp hfetch s) h
  | case3 s p t p₁ hfetch a' hdone =>
    cases h
    have ht := hadmits hp hfetch
    have hmove : (s.feed env t).Guarded G t := feed ht hs
    rw [Move.Guarded, hdone] at hmove
    refine ⟨t, (s.feed env t).taken, ht, hmove, fun hleft => ?_⟩
    simpa [Parser.after, hleft, Parser.report] using Parser.lookahead_fetch hfetch
  | case4 => cases h

end Guard

end

end MathMarkup
