import MathMarkup.Proofs.Parser.Failure

/-!
# What is open while a document is read

With the standard commands, three things can be open above the expression that is the document:
groups, optional arguments, and calls that still lack an argument.  No standard command takes
what follows it, and every one of them requires an argument.  So the end of a text finds
everything closed or is an error: only the expression itself can end there.

## Main definitions

* `Call.Waits` — a call that is not complete before a required argument is there.
* `Stack.Waits` — what can be open while a document is read.

## Main results

* `Stack.Waits.feed` — a token leaves such a stack, ends the document, or is an error.
* `Stack.Waits.eq_expression_of_end` — **at the end of a text only the document is open.**
* `Stack.Waits.feed_blank` — a blank does not change what is open.
-/

namespace MathMarkup

/-! ### Calls -/

/-- Whether a call is that of a standard command and has its required arguments behind the
optional ones. -/
structure Call.Waits (c : Call) : Prop where
  /-- The command is a standard one. -/
  standard : ∃ name, IsStandard name c.command
  /-- While an optional argument is wanted there are no required ones. -/
  required_nil : c.wantsOptional = true → c.required = []

namespace Call.Waits

variable {c : Call}

theorem accept (h : c.Waits) (n : Node) : (c.accept n).Waits := by
  refine ⟨by simpa using h.standard, fun hwants => ?_⟩
  unfold Call.accept at hwants ⊢
  split
  · rename_i hwants'
    exact h.required_nil hwants'
  · rename_i hwants'
    rw [if_neg hwants'] at hwants
    exact absurd hwants hwants'

theorem skip (h : c.Waits) : c.skip.Waits := by
  refine ⟨h.standard, fun hwants => h.required_nil ?_⟩
  rw [Call.wantsOptional_iff] at hwants ⊢
  simp only [Call.skip, List.length_append] at hwants
  omega

theorem bare (h : c.Waits) (span : Option Span) : Call.Waits { c with bare := some span } :=
  ⟨h.standard, h.required_nil⟩

/-- A call that leaves out an optional argument still lacks a required one, so it does not end
there. -/
theorem isComplete_skip (h : c.Waits) (hwants : c.wantsOptional = true) :
    c.skip.isComplete = false := by
  obtain ⟨name, hname⟩ := h.standard
  have hpos := hname.required_pos
  have hnil : c.skip.required = [] := h.required_nil hwants
  rw [Bool.eq_false_iff, ne_eq, Call.isComplete_iff, hnil]
  -- no required argument is there yet, and at least one is wanted
  rintro ⟨-, hle⟩
  have hzero : c.skip.command.required ≤ 0 := hle
  exact absurd hpos (Nat.not_lt.mpr hzero)

end Call.Waits

/-! ### Stacks -/

/-- What can be open while a document is read: the document itself, with groups, optional
arguments and calls above it. -/
def Stack.Waits : Stack (List Node) → Prop
  | expression mode stop _ result => mode = .math ∧ stop = none ∧ result = id
  | brace _ _ _ below | bracket _ _ _ below => below.Waits
  | call c below => c.Waits ∧ below.Waits
  -- no standard command takes what follows it, and a document is no list of arguments
  | arguments .. | scope .. => False

/-- Whether an outcome leaves such a stack or is an error. -/
def Outcome.Waits : Outcome (List Node) → Prop
  | read s => s.Waits
  | done _ => False
  | fail _ => True

/-- Whether a move leaves such a stack, is an error, or ends the document in front of its
token. -/
def Move.Waits (move : Move (List Node)) : Prop :=
  move.outcome.Waits ∨ move.taken = false ∧ ∃ a, move.outcome = .done a

namespace Stack.Waits

variable {env : Environment} {c : Call} {s below : Stack (List Node)} {t : Token} {mode : Mode}

theorem settle {deliver : Node → Outcome (List Node) × Log} {reply : Reply × Log}
    (hreply : ∀ stop finish, reply.1 ≠ .readUntil stop finish)
    (hdeliver : ∀ n, (deliver n).1.Waits) :
    (Stack.settle mode below deliver reply).1.Waits := by
  obtain ⟨reply, log⟩ := reply
  cases reply with
  | node n => exact hdeliver n
  | fail e => trivial
  | readUntil stop finish => exact absurd rfl (hreply stop finish)

theorem run_ne_readUntil (h : c.Waits) (stop : Option String) (finish : List Node → Node) :
    (c.invoke env).1 ≠ .readUntil stop finish := by
  obtain ⟨name, hname⟩ := h.standard
  exact hname.run_ne_readUntil env.options c.invocation stop finish

/-- A node that is delivered leaves such a stack. -/
theorem deliver (hs : s.Waits) (n : Node) : (s.deliver env n).1.Waits := by
  induction s generalizing n with
  | expression | brace | bracket => exact hs
  | arguments | scope => exact hs.elim
  | call c below ih =>
    obtain ⟨hcall, hbelow⟩ := hs
    have haccept := hcall.accept n
    simp only [Stack.deliver]
    split
    · exact settle (run_ne_readUntil haccept) fun m => ih hbelow m
    · exact ⟨haccept, hbelow⟩

theorem complete (hcall : c.Waits) (hbelow : below.Waits) : (below.complete env c).1.Waits :=
  settle (run_ne_readUntil hcall) fun n => deliver hbelow n

theorem feedCommand (henv : env.registry = .standard) (hs : s.Waits) :
    (s.feedCommand env t mode).outcome.Waits := by
  unfold Stack.feedCommand
  split
  · trivial
  · rename_i c hopen
    -- a standard command that was just opened has no arguments at all
    have hcall : c.Waits :=
      ⟨⟨t.text, Environment.isStandard_of_openCall henv hopen⟩,
        (Call.orderly_openCall hopen).required_nil⟩
    unfold Stack.take
    split
    · exact complete hcall hs
    · exact ⟨hcall, hs⟩

theorem feedAtom (henv : env.registry = .standard) (hs : s.Waits) :
    (s.feedAtom env t mode).outcome.Waits := by
  unfold Stack.feedAtom
  split
  · exact hs
  split
  · exact feedCommand henv hs
  split
  · exact deliver hs _
  · trivial

theorem feedBody (henv : env.registry = .standard) (hs : s.Waits) {stop : Option String}
    {close : Move (List Node)} (hclose : close.Waits) :
    (s.feedBody env t mode stop close).Waits := by
  unfold Stack.feedBody
  split
  · exact .inl hs
  split
  · exact hclose
  · exact .inl (feedAtom henv hs)

theorem feedClosing {expected : String} {result : Outcome (List Node) × Log}
    (h : result.1.Waits) : (Stack.feedClosing t expected result).Waits := by
  unfold Stack.feedClosing
  split
  · exact .inl h
  · exact .inl trivial

theorem feedCall (henv : env.registry = .standard) (hcall : c.Waits) (hbelow : below.Waits) :
    (Stack.feedCall env t c (.call · below) (below.complete env ·)).outcome.Waits := by
  unfold Stack.feedCall
  split
  · exact ⟨hcall, hbelow⟩
  split
  · split
    · exact ⟨hcall, hbelow⟩
    split
    · exact complete hcall.skip hbelow
    · exact ⟨hcall.skip, hbelow⟩
  split
  · trivial
  split
  · exact ⟨hcall, hbelow⟩
  · exact feedAtom henv ⟨hcall.bare t.span, hbelow⟩

/-- A token leaves such a stack, ends the document, or is an error.  It never ends the document
while something is open. -/
theorem feed (henv : env.registry = .standard) (hs : s.Waits) (t : Token) :
    (s.feed env t).Waits := by
  cases s with
  | expression mode stop items result => exact feedBody henv hs (.inr ⟨rfl, _, rfl⟩)
  | brace mode opening items below | bracket mode opening items below =>
    have hbelow : below.Waits := hs
    exact feedBody henv hs (feedClosing (deliver hbelow _))
  | call c below => exact .inl (feedCall henv hs.1 hs.2)
  | arguments | scope => exact hs.elim

/-- A stack that a token leaves is such a stack. -/
theorem of_read (henv : env.registry = .standard) (hs : s.Waits) {s' : Stack (List Node)}
    (h : (s.feed env t).outcome = .read s') : s'.Waits := by
  rcases hs.feed henv t with hwaits | ⟨-, a, hdone⟩
  · rwa [h] at hwaits
  · rw [h] at hdone
    cases hdone

/-! ### Ends and blanks -/

/-- A call that waits for an argument finds none at the end of a text. -/
theorem readList_call_nil (hcall : c.Waits) {span : Option Span} {x : List Node × List Token} :
    (Stack.call c below).readList env span [] ≠ .ok x := by
  -- optional arguments are left out one after the other
  induction hleft : c.optionalLeft using Nat.strongRecOn generalizing c with
  | ind k ih =>
    intro h
    cases hwants : c.wantsOptional with
    | true =>
      have hskip : c.skip.optionalLeft < k := hleft ▸ Call.optionalLeft_skip_lt hwants
      have hnext : ∀ t ∈ ([] : List Token).head?, t.text ≠ " " ∧ t.text ≠ "[" := by
        intro t ht
        cases ht
      rw [Stack.readList_call_omitted hwants hnext,
        Stack.enter_of_lacks (hcall.isComplete_skip hwants)] at h
      exact ih _ hskip hcall.skip rfl h
    | false =>
      rw [readList_call_missing hwants List.headD_nil rfl
        (by simp [Token.finish, Token.endText]) below] at h
      cases h

/-- **At the end of a text only the document is open**, if the text can end there at all. -/
theorem eq_expression_of_end (hs : s.Waits) {span : Option Span} {nodes : List Node}
    {rest : List Token} (h : s.readList env span [] = .ok (nodes, rest)) :
    s = .expression .math none nodes.reverse id := by
  cases s with
  | expression mode stop items result =>
    -- the document ends here, with all its nodes
    obtain ⟨rfl, rfl, rfl⟩ := hs
    rw [(Stack.isBody_expression env .math none id).readList_finish (endsAt_nil _ _)] at h
    cases h
    rw [id, List.reverse_reverse]
  -- a group that is open wants its closing token
  | brace mode opening items below =>
    rw [(Stack.isBody_brace env mode opening below).readList_finish (endsAt_nil _ _)] at h
    obtain ⟨u, rest', hnil, -⟩ := exists_closing (by decide) h
    cases hnil
  | bracket mode opening items below =>
    rw [(Stack.isBody_bracket env mode opening below).readList_finish (endsAt_nil _ _)] at h
    obtain ⟨u, rest', hnil, -⟩ := exists_closing (by decide) h
    cases hnil
  | call c below => exact absurd h (readList_call_nil hs.1)
  | arguments | scope => exact hs.elim

/-- Where nodes are collected, a blank is ignored or is one of them. -/
theorem feed_blank_of_isBody {stop : Option String} {body : List Node → Stack (List Node)}
    {close : Token → List Node → Move (List Node)} (hb : Stack.IsBody env mode stop body close)
    (hblank : t.text = " ") (hstop : stop ≠ some " ") (items : List Node) :
    ∃ items', (body items).feed env t = Stack.take (.read (body items'), []) := by
  rw [hb.feed_eq, Stack.feedBody]
  split
  · exact ⟨items, rfl⟩
  · -- in text mode a blank is a character like others
    have hcloses : ¬ Stack.closes stop t = true :=
      fun hcloses => Stack.ne_blank_of_closes hstop hcloses hblank
    have hsymbol : IsSymbol t.text := by rw [hblank]; decide
    obtain ⟨hbrace, hcontrol, hcharacter⟩ := Token.isSymbol_iff.mp hsymbol
    refine ⟨t.node mode :: items, ?_⟩
    rw [if_neg hcloses, Stack.feedAtom, if_neg hbrace, if_neg (by simp [hcontrol]),
      if_pos hcharacter, hb.deliver_eq]

/-- A blank is used up, and where it leaves nothing but the document open, nothing else was open
before. -/
theorem feed_blank (hs : s.Waits) (hblank : t.text = " ") :
    ∃ s', s.feed env t = Stack.take (.read s', []) ∧
      ∀ items, s' = .expression .math none items id → s = s' := by
  cases s with
  | expression mode stop items result =>
    obtain ⟨rfl, rfl, rfl⟩ := hs
    have hignored : Stack.isIgnored .math t = true := by simp [Stack.isIgnored, hblank]
    refine ⟨_, ?_, fun _ _ => rfl⟩
    rw [Stack.feed, Stack.feedBody, if_pos hignored]
  | brace mode opening items below =>
    obtain ⟨items', hfeed⟩ :=
      feed_blank_of_isBody (Stack.isBody_brace env mode opening below) hblank (by simp) items
    refine ⟨_, hfeed, ?_⟩
    intro _ hdocument
    cases hdocument
  | bracket mode opening items below =>
    obtain ⟨items', hfeed⟩ :=
      feed_blank_of_isBody (Stack.isBody_bracket env mode opening below) hblank (by simp) items
    refine ⟨_, hfeed, ?_⟩
    intro _ hdocument
    cases hdocument
  | call c below =>
    refine ⟨.call c below, ?_, ?_⟩
    · rw [Stack.feed, Stack.feedCall, if_pos hblank]
    · intro _ hdocument
      cases hdocument
  | arguments | scope => exact hs.elim

end Stack.Waits

end MathMarkup
