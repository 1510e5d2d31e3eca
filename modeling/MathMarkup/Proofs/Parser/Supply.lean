import MathMarkup.Compile

/-!
# The tokens a parser has before it

A parser reads tokens one by one, and replaces macros as it comes to them.  What it
reads does not depend on what it does with the tokens: the tokens that come out of
it up to the end marker are fixed by where it stands.  A stack can therefore be run
on a list of tokens, with the end marker behind it, instead of on a parser.

## Main definitions

* `Parser.drain` — all tokens up to the end marker.
* `Parser.Supplies` — these tokens and the end marker, as a relation.
* `Stack.readList` — run a stack on a list of tokens.
* `Parser.closeDocument` — what a document comes to after such a run.

## Main results

* `Parser.drain_eq_ok_iff` — draining succeeds exactly where there is a supply.
* `Parser.run_of_supplies` — a run is a run on the list of tokens.
* `Parser.document_eq_of_supplies` — a document comes to what the run on its tokens comes to.
* `Environment.parse_of_supplies` — a text is read exactly if the run on its tokens
  uses up all of them.
-/

namespace MathMarkup

/-- Of the options only the policy for irregular input concerns how a document falls into tokens,
and macros and limits do not. -/
theorem Lexer.next_congr {o o' : Options} (h : o'.strict = o.strict) (lx : Lexer) :
    lx.next o' = lx.next o := by
  have hreport : o'.report openComment = o.report openComment := by
    simp only [Options.report, Options.consult, h]
  -- along the comments that are skipped; only an open comment at the end asks the policy
  fun_induction Lexer.next o lx with
  | case1 lx x hk | case2 lx x hk | case3 lx x hk | case4 lx x hk => rw [next_eq, hk]
  | case5 lx x hk ih =>
    rw [next_eq, hk]
    exact ih
  | case6 lx x hk u log hr | case7 lx x hk e log hr =>
    rw [next_eq, hk, hreport, hr]
    rfl

/-- All tokens of a document, by the first one: the equation of `Lexer.readAll` without the proofs
that it needs for its recursion. -/
theorem Lexer.readAll_eq (o : Options) (lx : Lexer) :
    lx.readAll o = match lx.next o with
      | (.error e, _, log) => (.error e, log)
      | (.ok t, lx', log) =>
          if t.isEnd then (.ok [], log)
          else ((lx'.readAll o).1.map (t.detach :: ·), (lx'.readAll o).2 ++ log) := by
  rw [readAll]
  split <;> rename_i h <;> simp only [h]
  split <;> rfl

/-- Of the options only the policy for irregular input concerns the tokens of a document. -/
theorem Lexer.readAll_congr {o o' : Options} (h : o'.strict = o.strict) (lx : Lexer) :
    lx.readAll o' = lx.readAll o := by
  fun_induction Lexer.readAll o lx with
  | case1 lx e lx' log hnext =>
    rw [readAll_eq, next_congr h, hnext]
  | case2 lx t lx' log hnext hend =>
    rw [readAll_eq, next_congr h, hnext]
    exact if_pos hend
  | case3 lx t lx' log hnext hend tokens later hread ih =>
    rw [readAll_eq, next_congr h, hnext]
    simp only [hend, ih, hread, Bool.false_eq_true, if_false]

theorem Feed.take_congr {o o' : Options} (h : o'.strict = o.strict) (f : Feed) :
    f.take o' = f.take o := by
  unfold take
  rw [Lexer.next_congr h]

/-! ### Reports have no effect -/

namespace Feed

/-- Two feeds that differ at most in what was reported.  Nothing that a feed does depends on its
reports. -/
structure Agrees (f g : Feed) : Prop where
  /-- They are at the same place of the document. -/
  lexer : f.lexer = g.lexer
  /-- The same tokens are pending. -/
  pending : f.pending = g.pending
  /-- As many macros were replaced. -/
  expansions : f.expansions = g.expansions

theorem agrees_report (f : Feed) (log : Log) : (f.report log).Agrees f := ⟨rfl, rfl, rfl⟩

theorem Agrees.take {f g : Feed} (h : f.Agrees g) (o : Options) :
    (f.take o).1 = (g.take o).1 ∧ (f.take o).2.Agrees (g.take o).2 := by
  -- taken apart, the two feeds have all fields but the reports in common
  obtain ⟨lexer, pending, expansions, log⟩ := f
  obtain ⟨lexer', pending', expansions', log'⟩ := g
  obtain ⟨rfl, rfl, rfl⟩ := h
  cases pending with
  | cons t rest => exact ⟨rfl, rfl, rfl, rfl⟩
  | nil => exact ⟨rfl, rfl, rfl, rfl⟩

theorem Agrees.expand {f g : Feed} (h : f.Agrees g) (o : Options) (t : Token)
    (replacement : String) :
    (f.expand o t replacement).1 = (g.expand o t replacement).1 ∧
      (f.expand o t replacement).2.Agrees (g.expand o t replacement).2 := by
  obtain ⟨lexer, pending, expansions, log⟩ := f
  obtain ⟨lexer', pending', expansions', log'⟩ := g
  obtain ⟨rfl, rfl, rfl⟩ := h
  simp only [Feed.expand]
  split
  · rcases replacementTokens o replacement with ⟨_ | tokens, log⟩
    · exact ⟨rfl, rfl, rfl, rfl⟩
    · exact ⟨rfl, rfl, rfl, rfl⟩
  · exact ⟨rfl, rfl, rfl, rfl⟩

theorem pull_of_take_error {o : Options} {f f' : Feed} {e : CompileError}
    (h : f.take o = (.error e, f')) : f.pull o = (.error e, f') := by
  rw [pull]
  split <;> simp_all

theorem pull_of_lookup_none {o : Options} {f f' : Feed} {t : Token}
    (h : f.take o = (.ok t, f')) (hm : o.macros.lookup t.text = none) :
    f.pull o = (.ok t, f') := by
  rw [pull]
  split
  · simp_all
  · rename_i t₁ f₁ h₁
    obtain ⟨rfl, rfl⟩ : t = t₁ ∧ f' = f₁ := by simpa [h] using h₁
    simp only [hm]

theorem pull_of_expand {o : Options} {f f' : Feed} {t : Token} {replacement : String}
    (h : f.take o = (.ok t, f')) (hm : o.macros.lookup t.text = some replacement) :
    f.pull o = match f'.expand o t replacement with
      | (.error e, f'') => (.error e, f'')
      | (.ok _, f'') => f''.pull o := by
  rw [pull]
  split
  · simp_all
  · rename_i t₁ f₁ h₁
    obtain ⟨rfl, rfl⟩ : t = t₁ ∧ f' = f₁ := by simpa [h] using h₁
    simp only [hm]
    rcases f'.expand o t replacement with ⟨_ | _, _⟩ <;> rfl

theorem Agrees.exists_take {f g f₁ : Feed} (h : f.Agrees g) {o : Options}
    {result : Except CompileError Token} (ht : f.take o = (result, f₁)) :
    ∃ g₁, g.take o = (result, g₁) ∧ f₁.Agrees g₁ := by
  obtain ⟨hresult, hfeed⟩ := h.take o
  rw [ht] at hresult hfeed
  exact ⟨(g.take o).2, Prod.ext hresult.symm rfl, hfeed⟩

theorem Agrees.exists_expand {f g f₁ : Feed} (h : f.Agrees g) {o : Options} {t : Token}
    {replacement : String} {result : Except CompileError Unit}
    (he : f.expand o t replacement = (result, f₁)) :
    ∃ g₁, g.expand o t replacement = (result, g₁) ∧ f₁.Agrees g₁ := by
  obtain ⟨hresult, hfeed⟩ := h.expand o t replacement
  rw [he] at hresult hfeed
  exact ⟨(g.expand o t replacement).2, Prod.ext hresult.symm rfl, hfeed⟩

theorem Agrees.pull {f g : Feed} (h : f.Agrees g) (o : Options) :
    (f.pull o).1 = (g.pull o).1 ∧ (f.pull o).2.Agrees (g.pull o).2 := by
  -- the recursion of the first feed; the second takes the same branch at every step
  fun_induction Feed.pull o f generalizing g with
  | case1 f e f₁ ht =>
    obtain ⟨g₁, htake, hfeed⟩ := h.exists_take ht
    rw [pull_of_take_error htake]
    exact ⟨rfl, hfeed⟩
  | case2 f t f₁ ht hm =>
    obtain ⟨g₁, htake, hfeed⟩ := h.exists_take ht
    rw [pull_of_lookup_none htake hm]
    exact ⟨rfl, hfeed⟩
  | case3 f t f₁ ht replacement hm e f₂ he =>
    obtain ⟨g₁, htake, hfeed⟩ := h.exists_take ht
    obtain ⟨g₂, hexpand, hfeed'⟩ := hfeed.exists_expand he
    rw [pull_of_expand htake hm, hexpand]
    exact ⟨rfl, hfeed'⟩
  | case4 f t f₁ ht replacement hm u f₂ he ih =>
    obtain ⟨g₁, htake, hfeed⟩ := h.exists_take ht
    obtain ⟨g₂, hexpand, hfeed'⟩ := hfeed.exists_expand he
    rw [pull_of_expand htake hm, hexpand]
    exact ih hfeed'

end Feed

namespace Parser

/-- Two parsers that differ at most in their mode and in what was reported. -/
structure Agrees (p q : Parser) : Prop where
  /-- They have the same token in view. -/
  lookahead : p.lookahead = q.lookahead
  /-- The same tokens follow. -/
  feed : p.feed.Agrees q.feed

theorem agrees_report (p : Parser) (log : Log) : (p.report log).Agrees p :=
  ⟨rfl, p.feed.agrees_report log⟩

theorem Agrees.consume {p q : Parser} (h : p.Agrees q) : p.consume.Agrees q.consume :=
  ⟨rfl, h.feed⟩

theorem Agrees.fetch {p q : Parser} (h : p.Agrees q) (env : Environment) :
    (p.fetch env).1 = (q.fetch env).1 ∧ (p.fetch env).2.Agrees (q.fetch env).2 := by
  unfold Parser.fetch
  rw [h.lookahead]
  -- with a token in view nothing is pulled, else the feeds pull the same
  cases hq : q.lookahead with
  | some t => exact ⟨rfl, h⟩
  | none =>
    obtain ⟨hresult, hfeed⟩ := h.feed.pull env.options
    rcases hf : p.feed.pull env.options with ⟨_ | t, f⟩ <;>
      rcases hg : q.feed.pull env.options with ⟨_ | u, g⟩ <;>
      rw [hf, hg] at hresult hfeed <;> cases hresult
    · exact ⟨rfl, rfl, hfeed⟩
    · exact ⟨rfl, rfl, hfeed⟩

/-! ### The tokens up to the end marker -/

/-- All tokens up to the end marker, each one looked at and then used up.  The tokens of macros come
out in place of the macros. -/
def drain (env : Environment) (p : Parser) : Except CompileError (List Token) :=
  match _h : p.fetch env with
  | (.error e, _) => .error e
  | (.ok t, p') => if _hend : t.isEnd then .ok [] else (drain env p'.consume).map (t :: ·)
termination_by p.potential env
decreasing_by
  exact Nat.lt_of_lt_of_le (potential_consume_lt (lookahead_fetch _h) (by simpa using _hend))
    (potential_fetch_le _h)

/-- The tokens that come before the end marker, and the end marker.  Unlike `drain` this is a
relation, which can be taken apart from the front. -/
def Supplies (env : Environment) : Parser → List Token → Token → Prop
  | p, [], last => (p.fetch env).1 = .ok last ∧ last.isEnd = true
  | p, t :: ts, last =>
      (p.fetch env).1 = .ok t ∧ t.isEnd = false ∧ Supplies env (p.fetch env).2.consume ts last

theorem Agrees.supplies {env : Environment} {p q : Parser} {ts : List Token} {last : Token}
    (h : p.Agrees q) (hp : p.Supplies env ts last) : q.Supplies env ts last := by
  induction ts generalizing p q with
  | nil => exact ⟨(h.fetch env).1 ▸ hp.1, hp.2⟩
  | cons t ts ih =>
    obtain ⟨ht, hend, hrest⟩ := hp
    exact ⟨(h.fetch env).1 ▸ ht, hend, ih (h.fetch env).2.consume hrest⟩

theorem Agrees.symm {p q : Parser} (h : p.Agrees q) : q.Agrees p :=
  ⟨h.lookahead.symm, h.feed.lexer.symm, h.feed.pending.symm, h.feed.expansions.symm⟩

theorem supplies_report {env : Environment} {p : Parser} {log : Log} {ts : List Token}
    {last : Token} : (p.report log).Supplies env ts last ↔ p.Supplies env ts last :=
  ⟨(p.agrees_report log).supplies, (p.agrees_report log).symm.supplies⟩

/-- A token in view is looked at without any effect. -/
theorem fetch_fetch {env : Environment} {p p' : Parser} {t : Token}
    (h : p.fetch env = (.ok t, p')) : p'.fetch env = (.ok t, p') := by
  rw [fetch, lookahead_fetch h]

theorem supplies_fetch {env : Environment} {p p' : Parser} {t : Token} {ts : List Token}
    {last : Token} (h : p.fetch env = (.ok t, p')) :
    p'.Supplies env ts last ↔ p.Supplies env ts last := by
  cases ts <;> simp only [Supplies, h, fetch_fetch h]

/-- The tokens of a supply come before the end marker. -/
theorem Supplies.isEnd_eq_false {env : Environment} {p : Parser} {ts : List Token}
    {last : Token} (h : p.Supplies env ts last) : ∀ t ∈ ts, t.isEnd = false := by
  induction ts generalizing p with
  | nil => exact fun _ ht => absurd ht List.not_mem_nil
  | cons t ts ih =>
    rw [List.forall_mem_cons]
    exact ⟨h.2.1, ih h.2.2⟩

/-- Draining a parser gives the tokens that it supplies, and it succeeds exactly where there is a
supply. -/
theorem drain_eq_ok_iff {env : Environment} {p : Parser} {ts : List Token} :
    p.drain env = .ok ts ↔ ∃ last, p.Supplies env ts last := by
  -- along draining: what is fetched first decides which of the two clauses of a supply can hold
  fun_induction drain env p generalizing ts with
  | case1 p e p' h => cases ts <;> simp [Supplies, h]
  | case2 p t p' h hend =>
    constructor
    · intro hts
      cases hts
      exact ⟨t, by rw [h], hend⟩
    · rintro ⟨last, hsupplies⟩
      cases ts with
      | nil => rfl
      | cons u us =>
        obtain ⟨hu, huend, -⟩ := hsupplies
        rw [h] at hu
        cases hu
        rw [hend] at huend
        cases huend
  | case3 p t p' h hend ih =>
    constructor
    · intro hts
      cases hdrain : p'.consume.drain env with
      | error e => simp [hdrain, Except.map] at hts
      | ok us =>
        rw [hdrain] at hts
        cases hts
        obtain ⟨last, hlast⟩ := ih.mp hdrain
        exact ⟨last, by rw [h], by simpa using hend, by rw [h]; exact hlast⟩
    · rintro ⟨last, hsupplies⟩
      cases ts with
      | nil =>
        obtain ⟨hlast, hlastEnd⟩ := hsupplies
        rw [h] at hlast
        cases hlast
        exact absurd hlastEnd hend
      | cons u us =>
        obtain ⟨hu, -, hrest⟩ := hsupplies
        rw [h] at hu hrest
        cases hu
        rw [ih.mpr ⟨last, hrest⟩]
        rfl

/-- A parser that can be drained supplies what comes out, of which perhaps only some part is
known, such as the texts of the tokens. -/
theorem exists_supplies_of_map_drain {env : Environment} {p : Parser} {β : Type}
    {view : List Token → β} {b : β} (h : (p.drain env).map view = .ok b) :
    ∃ ts last, p.Supplies env ts last ∧ view ts = b := by
  cases hts : p.drain env with
  | error e =>
    rw [hts] at h
    cases h
  | ok ts =>
    rw [hts] at h
    obtain ⟨last, hlast⟩ := drain_eq_ok_iff.mp hts
    exact ⟨ts, last, hlast, Except.ok.inj h⟩

theorem exists_supplies_of_drain {env : Environment} {p : Parser} {ts : List Token}
    (h : (p.drain env).toOption = some ts) : ∃ last, p.Supplies env ts last := by
  refine drain_eq_ok_iff.mp ?_
  cases hdrain : p.drain env <;> rw [hdrain] at h <;> cases h
  rfl

end Parser

/-! ### Runs on a list of tokens -/

section

variable {α : Type}

/-- The tokens that a move leaves of a list. -/
def Move.leaves (move : Move α) (ts : List Token) : List Token :=
  if move.taken then ts.tail else ts

/-- What a stack comes to on a list of tokens with the end marker behind it, and the tokens that it
leaves.  The end marker is read as often as the stack asks for a token. -/
def Stack.readList (env : Environment) (span : Option Span) (ts : List Token) (s : Stack α) :
    Except CompileError (α × List Token) :=
  match _h : (s.feed env (ts.headD (.finish span))).outcome with
  | .read s' => readList env span ((s.feed env (ts.headD (.finish span))).leaves ts) s'
  | .done a => .ok (a, (s.feed env (ts.headD (.finish span))).leaves ts)
  | .fail e => .error e
termination_by (ts.length, s.weight)
decreasing_by
  unfold Move.leaves
  cases htaken : (s.feed env (ts.headD (.finish span))).taken with
  | true =>
    cases ts with
    | nil => simp [taken_feed_of_isEnd s (Token.isEnd_finish span)] at htaken
    | cons t ts => exact .left _ _ (by simp)
  | false => exact .right _ (weight_feed_lt htaken _h)

/-- Goes on from an outcome with the tokens that are left. -/
def Outcome.follow (env : Environment) (span : Option Span) (ts : List Token) :
    Outcome α → Except CompileError (α × List Token)
  | .read s => s.readList env span ts
  | .done a => .ok (a, ts)
  | .fail e => .error e

/-- Goes on from a move, which may have used up the first token. -/
def Move.follow (env : Environment) (span : Option Span) (ts : List Token) (move : Move α) :
    Except CompileError (α × List Token) :=
  move.outcome.follow env span (move.leaves ts)

theorem Stack.readList_eq (env : Environment) (span : Option Span) (ts : List Token)
    (s : Stack α) :
    s.readList env span ts = (s.feed env (ts.headD (.finish span))).follow env span ts := by
  rw [readList, Move.follow]
  split <;> rename_i h <;> rw [h] <;> rfl

@[simp] theorem Stack.follow_take (env : Environment) (span : Option Span) (ts : List Token)
    (result : Outcome α × Log) :
    (take result).follow env span ts = result.1.follow env span ts.tail := rfl

@[simp] theorem Stack.follow_leave (env : Environment) (span : Option Span) (ts : List Token)
    (result : Outcome α × Log) :
    (leave result).follow env span ts = result.1.follow env span ts := rfl

end

namespace Parser

variable {α : Type} {env : Environment}

@[simp] theorem feed_after (p : Parser) (move : Move α) :
    (p.after move).feed = p.feed.report move.log := by
  unfold after
  split <;> rfl

theorem run_of_fetch_error {p p' : Parser} {e : CompileError}
    (h : p.fetch env = (.error e, p')) (s : Stack α) : p.run env s = (.error e, p') := by
  rw [run]
  split <;> simp_all

theorem run_eq {p p' : Parser} {t : Token} (h : p.fetch env = (.ok t, p')) (s : Stack α) :
    p.run env s = match (s.feed env t).outcome with
      | .read s' => (p'.after (s.feed env t)).run env s'
      | .done a => (.ok a, p'.after (s.feed env t))
      | .fail e => (.error e, p'.after (s.feed env t)) := by
  rw [run]
  split
  · simp_all
  · rename_i t₁ p₁ h₁
    obtain ⟨rfl, rfl⟩ : t = t₁ ∧ p' = p₁ := by simpa [h] using h₁
    split <;> rename_i ho <;> rw [ho]

/-- The first token of a supply is the one that comes into view; behind the last one this is the end
marker. -/
theorem Supplies.fetch {p : Parser} {ts : List Token} {last : Token}
    (h : p.Supplies env ts last) :
    p.fetch env = (.ok (ts.headD (.finish last.span)), (p.fetch env).2) := by
  cases ts with
  | nil =>
    have hlast : last = .finish last.span := by
      have htext : last.text = Token.endText := by simpa [Token.isEnd] using h.2
      rw [Token.finish, ← htext]
    rw [List.headD_nil, ← hlast]
    exact Prod.ext h.1 rfl
  | cons t ts => exact Prod.ext h.1 rfl

/-- After a move the parser supplies what the move has left: one token less if the move used one
up. -/
theorem Supplies.after {p p' : Parser} {t : Token} {ts : List Token} {last : Token}
    (h : p.Supplies env ts last) (hfetch : p.fetch env = (.ok t, p')) (s : Stack α) :
    (p'.after (s.feed env t)).Supplies env ((s.feed env t).leaves ts) last := by
  -- a token that is not used up stays in view, and the supply is what it was
  rw [Parser.after, supplies_report, Move.leaves]
  cases htaken : (s.feed env t).taken with
  | false => simpa using (supplies_fetch hfetch).mpr h
  | true =>
    cases ts with
    | nil =>
      -- the end marker is never used up
      have hend : t.isEnd = true := by
        have hlast := h.1
        rw [hfetch] at hlast
        cases hlast
        exact h.2
      simp [s.taken_feed_of_isEnd hend] at htaken
    | cons u us =>
      have hrest := h.2.2
      rw [hfetch] at hrest
      exact hrest

/-- A parser runs a stack as the list of its tokens does: with the same result, and what it supplies
afterwards is what the run on the list has left. -/
theorem run_of_supplies {p : Parser} {s : Stack α} {ts : List Token} {last : Token}
    (h : p.Supplies env ts last) :
    ∃ p', p.run env s = ((s.readList env last.span ts).map Prod.fst, p') ∧
      ∀ a rest, s.readList env last.span ts = .ok (a, rest) → p'.Supplies env rest last := by
  -- along the run on the list; the parser that supplies the list is carried along
  fun_induction Stack.readList env last.span ts s generalizing p with
  | case1 ts s s' hread ih =>
    rw [run_eq h.fetch, hread]
    exact ih (h.after h.fetch s)
  | case2 ts s a hdone =>
    rw [run_eq h.fetch, hdone]
    refine ⟨_, rfl, ?_⟩
    intro a' rest heq
    cases heq
    exact h.after h.fetch s
  | case3 ts s e hfail =>
    rw [run_eq h.fetch, hfail]
    exact ⟨_, rfl, nofun⟩

/-- A parser that has run a stack to its end, and still supplies tokens, did so before: the run only
used up tokens that came into view without an error. -/
theorem supplies_of_run {p p' : Parser} {s : Stack α} {a : α} {rest : List Token} {last : Token}
    (h : p.run env s = (.ok a, p')) (hrest : p'.Supplies env rest last) :
    ∃ ts, p.Supplies env ts last := by
  -- one step backwards: a token that was used up comes in front of the supply
  have hstep : ∀ {q q' : Parser} {t : Token} {r : Stack α} {us : List Token},
      q.fetch env = (.ok t, q') → (q'.after (r.feed env t)).Supplies env us last →
        ∃ ts, q.Supplies env ts last := by
    intro q q' t r us hfetch hus
    rw [Parser.after, supplies_report] at hus
    cases htaken : (r.feed env t).taken with
    | false =>
      rw [htaken] at hus
      exact ⟨us, (supplies_fetch hfetch).mp hus⟩
    | true =>
      rw [htaken] at hus
      have hend : t.isEnd = false := by
        cases hend : t.isEnd with
        | false => rfl
        | true => simp [r.taken_feed_of_isEnd hend] at htaken
      exact ⟨t :: us, by rw [hfetch], hend, by rw [hfetch]; exact hus⟩
  fun_induction run env s p with
  | case1 s p e p₁ hfetch => cases h
  | case2 s p t p₁ hfetch s' hread ih =>
    obtain ⟨us, hus⟩ := ih h
    exact hstep hfetch hus
  | case3 s p t p₁ hfetch a₁ hdone =>
    cases h
    exact hstep hfetch hrest
  | case4 s p t p₁ hfetch e hfail => cases h

/-! ### Documents -/

/-- The stack for a whole document. -/
def start (p : Parser) : Stack (List Node) := .expression p.mode none [] id

/-- What a document comes to, given what the run on its tokens comes to: the first token that
is left is an error. -/
def closeDocument :
    Except CompileError (List Node × List Token) → Except CompileError (List Node)
  | .ok (nodes, []) => .ok nodes
  | .ok (_, t :: _) => .error (.located (.expectedToken Token.endText t.text) t.span)
  | .error e => .error e

theorem closeDocument_eq_ok_iff {reading : Except CompileError (List Node × List Token)}
    {nodes : List Node} : closeDocument reading = .ok nodes ↔ reading = .ok (nodes, []) := by
  rcases reading with _ | ⟨a, _ | ⟨t, ts⟩⟩ <;> simp [closeDocument]

/-- Given the tokens that a parser supplies, a document comes to what the run on them comes to. -/
theorem document_eq_of_supplies {p : Parser} {ts : List Token} {last : Token}
    (h : p.Supplies env ts last) :
    (p.document env).1 = closeDocument (p.start.readList env last.span ts) := by
  obtain ⟨p', hrun, hrest⟩ := run_of_supplies (s := p.start) h
  rw [document, expression, ← start, hrun]
  -- a run that succeeds leaves tokens, and the document wants the first of them to be the end
  -- marker
  cases hread : p.start.readList env last.span ts with
  | error e => rfl
  | ok result =>
    obtain ⟨a, rest⟩ := result
    obtain ⟨q, hfetch⟩ : ∃ q, p'.fetch env = (.ok (rest.headD (.finish last.span)), q) :=
      ⟨_, (hrest a rest hread).fetch⟩
    simp only [Except.map, expect, hfetch]
    cases rest with
    | nil => simp [Token.finish, closeDocument]
    | cons u us =>
      have hend : u.text ≠ Token.endText := by
        simpa [Token.isEnd] using (hrest a (u :: us) hread).2.1
      simp [hend, closeDocument]

/-- A document that is read has tokens up to the end marker: if fetching failed somewhere, reading
would have failed there. -/
theorem supplies_of_document {p : Parser} {nodes : List Node}
    (h : (p.document env).1 = .ok nodes) : ∃ ts last, p.Supplies env ts last := by
  rw [document, expression, ← start] at h
  rcases hrun : p.run env p.start with ⟨_ | a, p'⟩
  · rw [hrun] at h
    cases h
  · rw [hrun] at h
    simp only [expect] at h
    -- a document that was read ends with the end marker in view, which is a supply of no tokens
    rcases hfetch : p'.fetch env with ⟨_ | t, p''⟩
    · rw [hfetch] at h
      cases h
    · rw [hfetch] at h
      by_cases htext : t.text = Token.endText
      · have hsupplies : p'.Supplies env [] t := ⟨by rw [hfetch], by simp [Token.isEnd, htext]⟩
        obtain ⟨ts, hts⟩ := supplies_of_run hrun hsupplies
        exact ⟨ts, t, hts⟩
      · simp [htext] at h

end Parser

namespace Environment

variable {env : Environment} {source : String}

theorem parse_eq_of_supplies {ts : List Token} {last : Token}
    (h : (Parser.ofText source).Supplies env ts last) :
    (env.parse source).1 =
      Parser.closeDocument ((Parser.ofText source).start.readList env last.span ts) :=
  Parser.document_eq_of_supplies (Parser.supplies_report.mpr h)

/-- A text is read exactly if the run of a fresh parser on its tokens uses up all of them. -/
theorem parse_of_supplies {ts : List Token} {last : Token} {nodes : List Node}
    (h : (Parser.ofText source).Supplies env ts last) :
    (env.parse source).1 = .ok nodes ↔
      (Parser.ofText source).start.readList env last.span ts = .ok (nodes, []) := by
  rw [parse_eq_of_supplies h, Parser.closeDocument_eq_ok_iff]

theorem supplies_of_parse {nodes : List Node} (h : (env.parse source).1 = .ok nodes) :
    ∃ ts last, (Parser.ofText source).Supplies env ts last := by
  obtain ⟨ts, last, hsupplies⟩ := Parser.supplies_of_document h
  exact ⟨ts, last, Parser.supplies_report.mp hsupplies⟩

/-- A text of which no token comes into view is not read, and the error is that of fetching. -/
theorem parse_of_fetch_error {e : CompileError}
    (h : ((Parser.ofText source).fetch env).1 = .error e) : (env.parse source).1 = .error e := by
  have hresult :
      (((Parser.ofText source).report [.parsing source.utf8ByteSize]).fetch env).1 = .error e := by
    rw [((Parser.ofText source).agrees_report _).fetch env |>.1, h]
  rw [parse, Parser.document, Parser.expression, Parser.run_of_fetch_error (Prod.ext hresult rfl)]

end Environment

end MathMarkup
