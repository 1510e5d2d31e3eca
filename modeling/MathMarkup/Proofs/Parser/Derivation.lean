import MathMarkup.Proofs.Parser.Supply

/-!
# What the parser reads, as a derivation

The parser keeps what is open on a stack and is fed token by token.  What it
accepts can be said without a stack: an expression is a sequence of atoms, an atom is
a group, a character or a command with its arguments, and so on.  `Reads` is that
description, with the nodes that come out.  It holds of a list of tokens and what is
left of it.

The two agree for every registry.  Each part of a derivation moves the stack on as if
the nodes had been delivered, whatever is below; and a run that succeeds falls into
such parts, since every atom uses up a token.

## Main definitions

* `IsSymbol` — the texts of tokens that stand for themselves.
* `Piece`, `Reads` — what can be read, and how.
* `Stack.IsBody` — the stacks that collect the nodes of an expression.

## Main results

* `Reads.advances` — a derivation moves every stack on.
* `explains` — a run that succeeds falls into derivations.
* `Environment.parse_eq_ok_iff_reads` — a text is read exactly if its tokens have a
  derivation as an expression.
-/

namespace MathMarkup

/-! ### Characters -/

/-- Whether a token with the text `s` can stand for itself: it is no control sequence and none of
the characters that have a meaning of their own, or that formulas must not contain. -/
def IsSymbol (s : String) : Prop :=
  Token.isControl ⟨s, none⟩ = false ∧ s ∉ ["\x7b", "\x7d", "^", "_", "&", "#", "$"]

instance : DecidablePred IsSymbol := fun _ => inferInstanceAs (Decidable (_ ∧ _))

/-- A token stands for itself exactly if the parser takes it as a character: these are the tests
that an atom is put to, in the order in which they are made. -/
theorem Token.isSymbol_iff {t : Token} : IsSymbol t.text ↔
    t.text ≠ "\x7b" ∧ t.isControl = false ∧ t.isCharacter = true := by
  constructor
  · rintro ⟨hcontrol, hmem⟩
    simp only [List.mem_cons, List.not_mem_nil, or_false, not_or] at hmem
    exact ⟨hmem.1, hcontrol, by simp [isCharacter, unsupported, hmem]⟩
  · rintro ⟨hbrace, hcontrol, hchar⟩
    simp [isCharacter, unsupported] at hchar
    exact ⟨hcontrol, by simp [hbrace, hchar]⟩

/-! ### Texts of tokens -/

/-- A token with the given text that stands at the bytes from `start` to `stop` of a source. -/
def Token.ofPlace (source text : String) (start stop : Nat) : Token :=
  ⟨text, some ⟨⟨source, 0⟩, start, stop⟩⟩

/-- The texts of some tokens. -/
def texts (ts : List Token) : List String := ts.map Token.text

@[simp] theorem texts_nil : texts [] = [] := rfl

@[simp] theorem texts_cons (t : Token) (ts : List Token) : texts (t :: ts) = t.text :: texts ts :=
  rfl

@[simp] theorem texts_append (ts us : List Token) : texts (ts ++ us) = texts ts ++ texts us :=
  List.map_append

/-- Tokens whose texts are an opening one, some others, a closing one and more behind it fall into
the opening token, those inside, the closing token and those behind. -/
theorem exists_of_texts_between {ts : List Token} {opening closing : String}
    {inner behind : List String} (h : texts ts = opening :: (inner ++ closing :: behind)) :
    ∃ t us u vs, ts = t :: (us ++ u :: vs) ∧ t.text = opening ∧ texts us = inner ∧
      u.text = closing ∧ texts vs = behind := by
  obtain ⟨t, ws, rfl, ht, hws⟩ := List.map_eq_cons_iff.mp h
  obtain ⟨us, ws', rfl, hus, hws'⟩ := List.map_eq_append_iff.mp hws
  obtain ⟨u, vs, rfl, hu, hvs⟩ := List.map_eq_cons_iff.mp hws'
  exact ⟨t, us, u, vs, rfl, ht, hus, hu, hvs⟩

theorem exists_of_texts_enclosed {ts : List Token} {opening closing : String}
    {inner : List String} (h : texts ts = opening :: (inner ++ [closing])) :
    ∃ t us u, ts = t :: (us ++ [u]) ∧ t.text = opening ∧ texts us = inner ∧ u.text = closing := by
  obtain ⟨t, us, u, vs, rfl, ht, hus, hu, hnil⟩ := exists_of_texts_between h
  obtain rfl : vs = [] := List.map_eq_nil_iff.mp hnil
  exact ⟨t, us, u, rfl, ht, hus, hu⟩

/-- A text at the front is that of the first token. -/
theorem exists_head_of_texts {ts : List Token} {s : String} (h : (texts ts).head? = some s) :
    ∃ t us, ts = t :: us ∧ t.text = s := by
  cases ts with
  | nil => cases h
  | cons t us => exact ⟨t, us, rfl, Option.some.inj h⟩

/-! ### Derivations -/

/-- What can be read, with what comes out of it: each piece carries the nodes or the call that the
parser has made when it is through with the piece. -/
inductive Piece where
  /-- The nodes of an expression, which ends at a closing token. -/
  | body (mode : Mode) (stop : Option String) (nodes : List Node)
  /-- One atom. -/
  | atom (mode : Mode) (node : Node)
  /-- The arguments that a call lacks. -/
  | arguments (call complete : Call)
  /-- What a complete call comes to. -/
  | reply (call : Call) (node : Node)

/-- Whether an expression ends in front of some tokens: nothing is left, or the first token closes
the expression and is no blank that would be skipped before. -/
def EndsAt (mode : Mode) (stop : Option String) (ts : List Token) : Prop :=
  ∀ t ∈ ts.head?, Stack.isIgnored mode t = false ∧ Stack.closes stop t = true

theorem endsAt_nil (mode : Mode) (stop : Option String) : EndsAt mode stop [] := by
  intro t ht
  cases ht

theorem Stack.closes_eq_false {stop : Option String} {t : Token} (hend : t.isEnd = false)
    (hbrace : t.text ≠ "\x7d") (hstop : stop ≠ some t.text) : closes stop t = false := by
  simp [closes, hend, hbrace, hstop]

theorem endsAt_brace {mode : Mode} {stop : Option String} {u : Token} (h : u.text = "\x7d")
    (rest : List Token) : EndsAt mode stop (u :: rest) := by
  intro v hv
  cases hv
  simp [Stack.isIgnored, Stack.closes, h]

theorem endsAt_bracket {mode : Mode} {u : Token} (h : u.text = "]") (rest : List Token) :
    EndsAt mode (some "]") (u :: rest) := by
  intro v hv
  cases hv
  simp [Stack.isIgnored, Stack.closes, h]

/-- A piece is read from the front of a list of tokens, and some tokens are left.  There is one rule
for each thing that the parser can do, and none of them mentions a stack. -/
inductive Reads (env : Environment) : Piece → List Token → List Token → Prop where
  /-- An expression ends. -/
  | finish {mode : Mode} {stop : Option String} {ts : List Token} (hend : EndsAt mode stop ts) :
      Reads env (.body mode stop []) ts ts
  /-- A blank that means nothing. -/
  | blank {mode : Mode} {stop : Option String} {nodes : List Node} {t : Token}
      {ts rest : List Token} (hblank : Stack.isIgnored mode t = true)
      (hbody : Reads env (.body mode stop nodes) ts rest) :
      Reads env (.body mode stop nodes) (t :: ts) rest
  /-- An expression goes on with an atom. -/
  | next {mode : Mode} {stop : Option String} {n : Node} {nodes : List Node} {t : Token}
      {ts mid rest : List Token} (hblank : Stack.isIgnored mode t = false)
      (hopen : Stack.closes stop t = false) (hatom : Reads env (.atom mode n) (t :: ts) mid)
      (hbody : Reads env (.body mode stop nodes) mid rest) :
      Reads env (.body mode stop (n :: nodes)) (t :: ts) rest
  /-- A group in braces. -/
  | group {mode : Mode} {nodes : List Node} {t u : Token} {ts rest : List Token}
      (hopen : t.text = "\x7b") (hbody : Reads env (.body mode none nodes) ts (u :: rest))
      (hclose : u.text = "\x7d") :
      Reads env (.atom mode (.group ⟨mode, Span.cover t.span u.span⟩ nodes)) (t :: ts) rest
  /-- A token that stands for itself. -/
  | character {mode : Mode} {t : Token} {ts : List Token} (hbrace : t.text ≠ "\x7b")
      (hcontrol : t.isControl = false) (hchar : t.isCharacter = true) :
      Reads env (.atom mode (t.node mode)) (t :: ts) ts
  /-- A command with its arguments. -/
  | command {mode : Mode} {c c' : Call} {n : Node} {t : Token} {ts mid rest : List Token}
      (hbrace : t.text ≠ "\x7b") (hcontrol : t.isControl = true)
      (hcall : env.openCall t mode = .ok c) (hargs : Reads env (.arguments c c') ts mid)
      (hreply : Reads env (.reply c' n) mid rest) :
      Reads env (.atom mode n) (t :: ts) rest
  /-- All arguments are there. -/
  | complete {c : Call} {ts : List Token} (hcomplete : c.isComplete = true) :
      Reads env (.arguments c c) ts ts
  /-- A blank in front of an argument. -/
  | space {c c' : Call} {t : Token} {ts rest : List Token} (hlacks : c.isComplete = false)
      (hspace : t.text = " ") (hargs : Reads env (.arguments c c') ts rest) :
      Reads env (.arguments c c') (t :: ts) rest
  /-- An optional argument in brackets. -/
  | bracket {c c' : Call} {nodes : List Node} {t u : Token} {ts mid rest : List Token}
      (hwants : c.wantsOptional = true) (hopen : t.text = "[")
      (hbody : Reads env (.body c.argumentMode (some "]") nodes) ts (u :: mid))
      (hclose : u.text = "]")
      (hargs : Reads env
        (.arguments (c.accept (.group ⟨c.argumentMode, Span.cover t.span u.span⟩ nodes)) c')
        mid rest) :
      Reads env (.arguments c c') (t :: ts) rest
  /-- An optional argument that is left out. -/
  | omitted {c c' : Call} {ts rest : List Token} (hwants : c.wantsOptional = true)
      (hnext : ∀ t ∈ ts.head?, t.text ≠ " " ∧ t.text ≠ "[")
      (hargs : Reads env (.arguments c.skip c') ts rest) :
      Reads env (.arguments c c') ts rest
  /-- A required argument in braces. -/
  | brace {c c' : Call} {nodes : List Node} {t u : Token} {ts mid rest : List Token}
      (hlacks : c.isComplete = false) (hwants : c.wantsOptional = false)
      (hopen : t.text = "\x7b")
      (hbody : Reads env (.body c.argumentMode none nodes) ts (u :: mid))
      (hclose : u.text = "\x7d")
      (hargs : Reads env
        (.arguments (c.accept (.group ⟨c.argumentMode, Span.cover t.span u.span⟩ nodes)) c')
        mid rest) :
      Reads env (.arguments c c') (t :: ts) rest
  /-- A required argument without braces. -/
  | bare {c c' : Call} {n : Node} {t : Token} {ts mid rest : List Token}
      (hlacks : c.isComplete = false) (hwants : c.wantsOptional = false)
      (hend : t.isEnd = false) (hnext : t.text ∉ [" ", "\x7d", "]", "\x7b"])
      (hatom : Reads env (.atom c.argumentMode n) (t :: ts) mid)
      (hargs : Reads env (.arguments ({ c with bare := some t.span }.accept n) c') mid rest) :
      Reads env (.arguments c c') (t :: ts) rest
  /-- The command makes a node. -/
  | node {c : Call} {n : Node} {ts : List Token} (hreply : (c.invoke env).1 = .node n) :
      Reads env (.reply c n) ts ts
  /-- The command takes what follows it. -/
  | scope {c : Call} {stop : Option String} {finish : List Node → Node} {nodes : List Node}
      {ts rest : List Token} (hreply : (c.invoke env).1 = .readUntil stop finish)
      (hbody : Reads env (.body c.mode stop nodes) ts rest) :
      Reads env (.reply c (finish nodes)) ts rest

/-- What is left behind an expression is where it ends: the closing token is not part of the
expression. -/
theorem Reads.endsAt {env : Environment} {mode : Mode} {stop : Option String}
    {nodes : List Node} {ts rest : List Token} (h : Reads env (.body mode stop nodes) ts rest) :
    EndsAt mode stop rest := by
  -- only bodies are meant, but the induction is over all pieces: the others are impossible
  generalize hx : Piece.body mode stop nodes = x at h
  induction h generalizing nodes with
  | finish hend =>
    cases hx
    exact hend
  | blank hblank hbody ih => exact ih hx
  | next hblank hopen hatom hbody ihatom ihbody =>
    cases hx
    exact ihbody rfl
  | _ => cases hx

/-- What is left behind a piece is the end of what was there in front of it. -/
theorem Reads.suffix {env : Environment} {x : Piece} {ts rest : List Token}
    (h : Reads env x ts rest) : rest <:+ ts := by
  induction h with
  | finish | complete | node => exact List.suffix_rfl
  | character => exact List.suffix_cons _ _
  | blank _ _ ih | space _ _ _ ih => exact ih.trans (List.suffix_cons _ _)
  | omitted _ _ _ ih | scope _ _ ih => exact ih
  | next _ _ _ _ ih₁ ih₂ | bare _ _ _ _ _ _ ih₁ ih₂ => exact ih₂.trans ih₁
  | group _ _ _ ih => exact ((List.suffix_cons _ _).trans ih).trans (List.suffix_cons _ _)
  | command _ _ _ _ _ ih₁ ih₂ => exact (ih₂.trans ih₁).trans (List.suffix_cons _ _)
  | bracket _ _ _ _ _ ih₁ ih₂ | brace _ _ _ _ _ _ ih₁ ih₂ =>
    exact ((ih₂.trans (List.suffix_cons _ _)).trans ih₁).trans (List.suffix_cons _ _)

/-- An atom uses up at least one token.  This is what makes reading come to an end. -/
theorem Reads.length_lt {env : Environment} {mode : Mode} {n : Node} {ts rest : List Token}
    (h : Reads env (.atom mode n) ts rest) : rest.length < ts.length := by
  -- each kind of atom takes its first token itself, and what follows takes no token back
  cases h with
  | group _ hbody _ =>
    have hlength := hbody.suffix.length_le
    simp only [List.length_cons] at *
    omega
  | character => exact Nat.lt_succ_self _
  | command _ _ _ hargs hreply =>
    exact Nat.lt_succ_of_le (hreply.suffix.trans hargs.suffix).length_le

/-- An atom that starts with a brace is a group: the other two rules for atoms exclude the brace. -/
theorem Reads.group_of_brace {env : Environment} {mode : Mode} {n : Node} {t : Token}
    {ts rest : List Token} (h : Reads env (.atom mode n) (t :: ts) rest)
    (hopen : t.text = "\x7b") :
    ∃ nodes u, n = .group ⟨mode, Span.cover t.span u.span⟩ nodes ∧
      Reads env (.body mode none nodes) ts (u :: rest) ∧ u.text = "\x7d" := by
  cases h with
  | group _ hbody hclose => exact ⟨_, _, rfl, hbody, hclose⟩
  | character hbrace => exact absurd hopen hbrace
  | command hbrace => exact absurd hopen hbrace

/-! ### Derivations move stacks on -/

namespace Stack

variable {α : Type}

/-- A stack that collects the nodes of an expression, the newest first, and what a
closing token does to it. -/
structure IsBody (env : Environment) (mode : Mode) (stop : Option String)
    (body : List Node → Stack α) (close : Token → List Node → Move α) : Prop where
  /-- A node is added to those that are there. -/
  deliver_eq : ∀ (n : Node) (items : List Node),
    deliver env n (body items) = (.read (body (n :: items)), [])
  /-- Tokens are read as in an expression. -/
  feed_eq : ∀ (t : Token) (items : List Node),
    feed env t (body items) = feedBody env t mode stop (body items) (close t items)

theorem isBody_expression (env : Environment) (mode : Mode) (stop : Option String)
    (result : List Node → α) :
    IsBody env mode stop (expression mode stop · result)
      fun _ items => leave (.done (result items.reverse), []) :=
  ⟨fun _ _ => rfl, fun _ _ => rfl⟩

theorem isBody_brace (env : Environment) (mode : Mode) (opening : Option Span)
    (below : Stack α) :
    IsBody env mode none (brace mode opening · below) fun t items =>
      feedClosing t "\x7d"
        (deliver env (.group ⟨mode, Span.cover opening t.span⟩ items.reverse) below) :=
  ⟨fun _ _ => rfl, fun _ _ => rfl⟩

theorem isBody_bracket (env : Environment) (mode : Mode) (opening : Option Span)
    (below : Stack α) :
    IsBody env mode (some "]") (bracket mode opening · below) fun t items =>
      feedClosing t "]"
        (deliver env (.group ⟨mode, Span.cover opening t.span⟩ items.reverse) below) :=
  ⟨fun _ _ => rfl, fun _ _ => rfl⟩

theorem isBody_scope (env : Environment) (mode : Mode) (stop : Option String)
    (finish : List Node → Node) (below : Stack α) :
    IsBody env mode stop (scope mode stop finish · below)
      fun _ items => leave (deliver env (finish items.reverse) below) :=
  ⟨fun _ _ => rfl, fun _ _ => rfl⟩

/-- Goes on with a call: it does its work if it is complete, else it waits for its next
argument. -/
def enter (env : Environment) (c : Call) (below : Stack α) : Outcome α × Log :=
  if c.isComplete then complete env c below else (.read (call c below), [])

theorem deliver_call (env : Environment) (n : Node) (c : Call) (below : Stack α) :
    deliver env n (call c below) = enter env (c.accept n) below := rfl

theorem enter_of_lacks {c : Call} (h : c.isComplete = false) (env : Environment)
    (below : Stack α) : enter env c below = (.read (call c below), []) := by
  rw [enter, h]
  rfl

theorem enter_of_isComplete {c : Call} (h : c.isComplete = true) (env : Environment)
    (below : Stack α) : enter env c below = complete env c below := by
  rw [enter, h]
  rfl

end Stack

theorem Call.isComplete_of_wantsOptional {c : Call} (h : c.wantsOptional = true) :
    c.isComplete = false := by
  simp only [Call.wantsOptional, decide_eq_true_eq] at h
  simp only [Call.isComplete, Bool.and_eq_false_iff, decide_eq_false_iff_not]
  omega

namespace Stack

variable {α : Type} {env : Environment} {mode : Mode} {stop : Option String}
  {body : List Node → Stack α} {close : Token → List Node → Move α}

/-! One lemma for each thing that a token does to a stack that collects nodes. -/

theorem IsBody.readList_blank (h : IsBody env mode stop body close) {t : Token}
    (hblank : isIgnored mode t = true) (span : Option Span) (ts : List Token)
    (items : List Node) :
    (body items).readList env span (t :: ts) = (body items).readList env span ts := by
  rw [readList_eq, List.headD_cons, h.feed_eq, feedBody, if_pos hblank]
  rfl

theorem IsBody.readList_next (h : IsBody env mode stop body close) {t : Token}
    (hblank : isIgnored mode t = false) (hopen : closes stop t = false) (span : Option Span)
    (ts : List Token) (items : List Node) :
    (body items).readList env span (t :: ts) =
      (feedAtom env t mode (body items)).follow env span (t :: ts) := by
  rw [readList_eq, List.headD_cons, h.feed_eq, feedBody, if_neg (by simp [hblank]),
    if_neg (by simp [hopen])]

theorem IsBody.readList_finish (h : IsBody env mode stop body close) {ts : List Token}
    (hend : EndsAt mode stop ts) (span : Option Span) (items : List Node) :
    (body items).readList env span ts =
      (close (ts.headD (.finish span)) items).follow env span ts := by
  -- behind the last token the end marker is read, which closes every expression
  have hhead : isIgnored mode (ts.headD (.finish span)) = false ∧
      closes stop (ts.headD (.finish span)) = true := by
    cases ts with
    | nil => simp [isIgnored, closes, Token.finish, Token.isEnd, Token.endText]
    | cons t ts => exact hend t rfl
  rw [readList_eq, h.feed_eq, feedBody, if_neg (Bool.eq_false_iff.mp hhead.1), if_pos hhead.2]

/-- The closing token of a group hands the group to what is below. -/
theorem follow_feedClosing {t : Token} {expected : String} (htext : t.text = expected)
    (span : Option Span) (ts : List Token) (result : Outcome α × Log) :
    (feedClosing t expected result).follow env span (t :: ts) =
      result.1.follow env span ts := by
  rw [feedClosing, if_pos htext]
  rfl

/-! The same for a call that lacks arguments. -/

theorem readList_call_space {t : Token} (hspace : t.text = " ") (span : Option Span)
    (ts : List Token) (c : Call) (below : Stack α) :
    (call c below).readList env span (t :: ts) = (call c below).readList env span ts := by
  rw [readList_eq, List.headD_cons, feed, feedCall, if_pos hspace]
  rfl

theorem readList_call_bracket {c : Call} (hwants : c.wantsOptional = true) {t : Token}
    (hopen : t.text = "[") (span : Option Span) (ts : List Token) (below : Stack α) :
    (call c below).readList env span (t :: ts) =
      (bracket c.argumentMode t.span [] (call c below)).readList env span ts := by
  rw [readList_eq, List.headD_cons, feed, feedCall, if_neg (by simp [hopen]), if_pos hwants,
    if_pos hopen]
  rfl

theorem readList_call_omitted {c : Call} (hwants : c.wantsOptional = true) {ts : List Token}
    (hnext : ∀ t ∈ ts.head?, t.text ≠ " " ∧ t.text ≠ "[") (span : Option Span)
    (below : Stack α) :
    (call c below).readList env span ts = (enter env c.skip below).1.follow env span ts := by
  -- behind the last token the end marker is read, which opens no bracket
  have hhead : (ts.headD (.finish span)).text ≠ " " ∧ (ts.headD (.finish span)).text ≠ "[" := by
    cases ts with
    | nil => simp [Token.finish, Token.endText]
    | cons t ts => exact hnext t rfl
  rw [readList_eq, feed, feedCall, if_neg hhead.1, if_pos hwants, if_neg hhead.2, enter]
  split <;> rfl

theorem readList_call_brace {c : Call} (hwants : c.wantsOptional = false) {t : Token}
    (hopen : t.text = "\x7b") (span : Option Span) (ts : List Token) (below : Stack α) :
    (call c below).readList env span (t :: ts) =
      (brace c.argumentMode t.span [] (call c below)).readList env span ts := by
  rw [readList_eq, List.headD_cons, feed, feedCall, if_neg (by simp [hopen]),
    if_neg (by simp [hwants]), if_neg (by simp [hopen, Token.isEnd, Token.endText]), if_pos hopen]
  rfl

theorem readList_call_bare {c : Call} (hwants : c.wantsOptional = false) {t : Token}
    (hend : t.isEnd = false) (hnext : t.text ∉ [" ", "\x7d", "]", "\x7b"]) (span : Option Span)
    (ts : List Token) (below : Stack α) :
    (call c below).readList env span (t :: ts) =
      (feedAtom env t c.argumentMode (call { c with bare := some t.span } below)).follow
        env span (t :: ts) := by
  simp only [List.mem_cons, List.not_mem_nil, or_false, not_or] at hnext
  obtain ⟨hspace, hbrace, hbracket, hopen⟩ := hnext
  rw [readList_eq, List.headD_cons, feed, feedCall, if_neg hspace, if_neg (by simp [hwants]),
    if_neg (by simp [hend, hbrace, hbracket]), if_neg hopen]

end Stack

/-- What reading a piece does to the stack around it, whatever that stack is: a body adds its nodes,
an atom is delivered, and a call is completed and does its work. -/
def Advances (env : Environment) (span : Option Span) (ts rest : List Token) : Piece → Prop
  | .body mode stop nodes => ∀ {α : Type} {body : List Node → Stack α}
      {close : Token → List Node → Move α}, Stack.IsBody env mode stop body close →
      ∀ items, (body items).readList env span ts =
        (body (nodes.reverse ++ items)).readList env span rest
  | .atom mode n => ∀ {α : Type} (s : Stack α),
      (Stack.feedAtom env (ts.headD (.finish span)) mode s).follow env span ts =
        (Stack.deliver env n s).1.follow env span rest
  | .arguments c c' => ∀ {α : Type} (below : Stack α),
      (Stack.enter env c below).1.follow env span ts =
        (Stack.complete env c' below).1.follow env span rest
  | .reply c n => ∀ {α : Type} (below : Stack α),
      (Stack.complete env c below).1.follow env span ts =
        (Stack.deliver env n below).1.follow env span rest

/-- A derivation moves every stack on: feeding the tokens of a piece to a stack is the same as
giving it what the piece comes to, and then going on with the tokens that are left. -/
theorem Reads.advances {env : Environment} {x : Piece} {ts rest : List Token}
    (h : Reads env x ts rest) (span : Option Span) : Advances env span ts rest x := by
  -- on the derivation, with the stack around the piece left free: a piece inside of another one is
  -- read with a larger stack
  induction h with
  | finish hend => exact fun _ _ => rfl
  | blank hblank hbody ih =>
    intro α body close hb items
    rw [hb.readList_blank hblank]
    exact ih hb items
  | next hblank hopen hatom hbody ihatom ihbody =>
    intro α body close hb items
    rw [hb.readList_next hblank hopen]
    -- the atom is delivered to the body, which goes on with one more node
    have hfollow := ihatom (body items)
    rw [List.headD_cons] at hfollow
    rw [hfollow, hb.deliver_eq, List.reverse_cons, List.append_assoc]
    exact ihbody hb _
  | @group mode nodes t u ts rest hopen hbody hclose ih =>
    intro α s
    have hb := Stack.isBody_brace env mode t.span s
    rw [List.headD_cons, Stack.feedAtom, if_pos hopen]
    -- the body ends in front of its closing brace, which hands the group to `s`
    refine (ih hb []).trans ?_
    rw [hb.readList_finish hbody.endsAt, List.headD_cons, Stack.follow_feedClosing hclose,
      List.append_nil, List.reverse_reverse]
  | character hbrace hcontrol hchar =>
    intro α s
    rw [List.headD_cons, Stack.feedAtom, if_neg hbrace, if_neg (by simp [hcontrol]),
      if_pos hchar]
    rfl
  | @command mode c c' n t ts mid rest hbrace hcontrol hcall hargs hreply ihargs ihreply =>
    intro α s
    rw [List.headD_cons, Stack.feedAtom, if_neg hbrace, if_pos hcontrol, Stack.feedCommand,
      hcall]
    exact (ihargs s).trans (ihreply s)
  | complete hcomplete =>
    intro α below
    rw [Stack.enter_of_isComplete hcomplete]
  | space hlacks hspace hargs ih =>
    intro α below
    have hread := ih below
    rw [Stack.enter_of_lacks hlacks] at hread ⊢
    exact (Stack.readList_call_space hspace span _ _ below).trans hread
  | @bracket c c' nodes t u ts mid rest hwants hopen hbody hclose hargs ihbody ihargs =>
    intro α below
    have hb := Stack.isBody_bracket env c.argumentMode t.span (Stack.call c below)
    rw [Stack.enter_of_lacks (Call.isComplete_of_wantsOptional hwants)]
    refine (Stack.readList_call_bracket hwants hopen span ts below).trans ?_
    refine (ihbody hb []).trans ?_
    rw [hb.readList_finish hbody.endsAt, List.headD_cons, Stack.follow_feedClosing hclose,
      List.append_nil, List.reverse_reverse, Stack.deliver_call]
    exact ihargs below
  | omitted hwants hnext hargs ih =>
    intro α below
    rw [Stack.enter_of_lacks (Call.isComplete_of_wantsOptional hwants)]
    exact (Stack.readList_call_omitted hwants hnext span below).trans (ih below)
  | @brace c c' nodes t u ts mid rest hlacks hwants hopen hbody hclose hargs ihbody ihargs =>
    intro α below
    have hb := Stack.isBody_brace env c.argumentMode t.span (Stack.call c below)
    rw [Stack.enter_of_lacks hlacks]
    refine (Stack.readList_call_brace hwants hopen span ts below).trans ?_
    refine (ihbody hb []).trans ?_
    rw [hb.readList_finish hbody.endsAt, List.headD_cons, Stack.follow_feedClosing hclose,
      List.append_nil, List.reverse_reverse, Stack.deliver_call]
    exact ihargs below
  | @bare c c' n t ts mid rest hlacks hwants hend hnext hatom hargs ihatom ihargs =>
    intro α below
    rw [Stack.enter_of_lacks hlacks]
    refine (Stack.readList_call_bare hwants hend hnext span ts below).trans ?_
    -- the atom is delivered to the call, which knows that no brace was there
    refine (ihatom (Stack.call { c with bare := some t.span } below)).trans ?_
    rw [Stack.deliver_call]
    exact ihargs below
  | @node c n ts hreply =>
    intro α below
    rw [Stack.complete]
    rcases hinvoke : c.invoke env with ⟨reply, log⟩
    rw [hinvoke] at hreply
    subst hreply
    rfl
  | @scope c stop finish nodes ts rest hreply hbody ih =>
    intro α below
    have hb := Stack.isBody_scope env c.mode stop finish below
    rw [Stack.complete]
    rcases hinvoke : c.invoke env with ⟨reply, log⟩
    rw [hinvoke] at hreply
    subst hreply
    -- no token closes a scope: the one in front of which it ends is left in place
    refine (ih hb []).trans ?_
    rw [hb.readList_finish hbody.endsAt, Stack.follow_leave, List.append_nil,
      List.reverse_reverse]

/-! ### Runs that succeed are derivations -/

/-- Whatever succeeds on some tokens has a derivation: from a run that ends well, read off the piece
that it starts with, and what the run makes of the tokens behind it. -/
structure Explains (α : Type) (env : Environment) (span : Option Span) (ts : List Token) :
    Prop where
  /-- An expression, whatever collects its nodes. -/
  body : ∀ {mode : Mode} {stop : Option String} {body : List Node → Stack α}
    {close : Token → List Node → Move α}, Stack.IsBody env mode stop body close →
    ∀ {items : List Node} {x : α × List Token}, (body items).readList env span ts = .ok x →
    ∃ nodes rest, Reads env (.body mode stop nodes) ts rest ∧
      (close (rest.headD (.finish span)) (nodes.reverse ++ items)).follow env span rest = .ok x
  /-- The arguments of a call, whatever is below it. -/
  arguments : ∀ {c : Call} {below : Stack α} {x : α × List Token},
    (Stack.enter env c below).1.follow env span ts = .ok x →
    ∃ c' rest, Reads env (.arguments c c') ts rest ∧
      (Stack.complete env c' below).1.follow env span rest = .ok x

section

variable {α : Type} {env : Environment} {span : Option Span}

/-- A group that is closed is closed by the right token.  The end marker is none, so there is a
token left. -/
theorem exists_closing {expected : String} (hexpected : expected ≠ Token.endText)
    {rest : List Token} {result : Outcome α × Log} {x : α × List Token}
    (h : (Stack.feedClosing (rest.headD (.finish span)) expected result).follow env span rest =
      .ok x) :
    ∃ u rest', rest = u :: rest' ∧ u.text = expected ∧ result.1.follow env span rest' = .ok x := by
  cases rest with
  | nil =>
    rw [List.headD_nil, Stack.feedClosing, 
      if_neg (show (Token.finish span).text ≠ expected from hexpected.symm)] at h
    cases h
  | cons u rest' =>
    rw [List.headD_cons, Stack.feedClosing] at h
    split at h
    · rename_i htext
      exact ⟨u, rest', rfl, htext, h⟩
    · cases h

theorem reads_reply {ts : List Token}
    (ih : Explains α env span ts) {c : Call} {below : Stack α} {x : α × List Token}
    (h : (Stack.complete env c below).1.follow env span ts = .ok x) :
    ∃ n rest, Reads env (.reply c n) ts rest ∧
      (Stack.deliver env n below).1.follow env span rest = .ok x := by
  -- what the handler answers decides which rule applies
  rw [Stack.complete] at h
  rcases hinvoke : c.invoke env with ⟨reply, log⟩
  rw [hinvoke] at h
  have hreply : (c.invoke env).1 = reply := by rw [hinvoke]
  cases reply with
  | node n => exact ⟨n, ts, .node hreply, h⟩
  | fail e => cases h
  | readUntil stop finish =>
    obtain ⟨nodes, rest, hbody, hclose⟩ :=
      ih.body (Stack.isBody_scope env c.mode stop finish below) h
    rw [Stack.follow_leave, List.append_nil, List.reverse_reverse] at hclose
    exact ⟨finish nodes, rest, .scope hreply hbody, hclose⟩

/-- An atom that is read to its end has a derivation, given those of everything that comes behind
its first token. -/
theorem reads_atom {t : Token} {ts : List Token}
    (ih : ∀ us : List Token, us.length ≤ ts.length → Explains α env span us) {mode : Mode}
    {s : Stack α} {x : α × List Token}
    (h : (Stack.feedAtom env t mode s).follow env span (t :: ts) = .ok x) :
    ∃ n rest, Reads env (.atom mode n) (t :: ts) rest ∧
      (Stack.deliver env n s).1.follow env span rest = .ok x := by
  -- the tests that the parser makes are the premises of the three rules for atoms
  rw [Stack.feedAtom] at h
  split at h
  · rename_i hopen
    obtain ⟨nodes, rest, hbody, hclose⟩ :=
      (ih ts (Nat.le_refl _)).body (Stack.isBody_brace env mode t.span s) h
    obtain ⟨u, rest', rfl, htext, hresult⟩ := exists_closing (by decide) hclose
    rw [List.append_nil, List.reverse_reverse] at hresult
    exact ⟨_, rest', .group hopen hbody htext, hresult⟩
  · rename_i hbrace
    split at h
    · rename_i hcontrol
      rw [Stack.feedCommand] at h
      split at h
      · cases h
      · rename_i c hcall
        obtain ⟨c', mid, hargs, hcomplete⟩ := (ih ts (Nat.le_refl _)).arguments h
        obtain ⟨n, rest, hreply, hresult⟩ := reads_reply (ih mid hargs.suffix.length_le) hcomplete
        exact ⟨n, rest, .command hbrace hcontrol hcall hargs hreply, hresult⟩
    · rename_i hcontrol
      split at h
      · rename_i hchar
        exact ⟨_, ts, .character hbrace (by simpa using hcontrol) hchar, h⟩
      · cases h

/-- An expression that is read to its end has a derivation, given those of all shorter lists of
tokens. -/
theorem reads_body {ts : List Token}
    (ih : ∀ us : List Token, us.length < ts.length → Explains α env span us) {mode : Mode}
    {stop : Option String} {body : List Node → Stack α} {close : Token → List Node → Move α}
    (hb : Stack.IsBody env mode stop body close) {items : List Node} {x : α × List Token}
    (h : (body items).readList env span ts = .ok x) :
    ∃ nodes rest, Reads env (.body mode stop nodes) ts rest ∧
      (close (rest.headD (.finish span)) (nodes.reverse ++ items)).follow env span rest =
        .ok x := by
  by_cases hend : EndsAt mode stop ts
  · rw [hb.readList_finish hend] at h
    exact ⟨[], ts, .finish hend, h⟩
  cases ts with
  | nil => exact absurd nofun hend
  | cons t ts =>
    cases hblank : Stack.isIgnored mode t with
    | true =>
      rw [hb.readList_blank hblank] at h
      obtain ⟨nodes, rest, hbody, hclose⟩ := (ih ts (Nat.lt_succ_self _)).body hb h
      exact ⟨nodes, rest, .blank hblank hbody, hclose⟩
    | false =>
      -- a token that is no blank and does not end the expression starts an atom
      have hopen : Stack.closes stop t = false := by
        cases hclose : Stack.closes stop t with
        | false => rfl
        | true =>
          refine absurd ?_ hend
          intro u hu
          cases hu
          exact ⟨hblank, hclose⟩
      rw [hb.readList_next hblank hopen] at h
      obtain ⟨n, mid, hatom, hmid⟩ :=
        reads_atom (fun us hus => ih us (Nat.lt_succ_of_le hus)) h
      rw [hb.deliver_eq] at hmid
      obtain ⟨nodes, rest, hbody, hclose⟩ := (ih mid hatom.length_lt).body hb hmid
      refine ⟨n :: nodes, rest, .next hblank hopen hatom hbody, ?_⟩
      rw [List.reverse_cons, List.append_assoc]
      exact hclose

/-- A required argument is not there if the next token is the end marker or closes something, and
then the run fails. -/
theorem readList_call_missing {c : Call} (hwants : c.wantsOptional = false) {ts : List Token}
    {t : Token} (ht : ts.headD (.finish span) = t)
    (hmissing : (t.isEnd || t.text == "\x7d" || t.text == "]") = true) (hspace : t.text ≠ " ")
    (below : Stack α) :
    (Stack.call c below).readList env span ts =
      .error (.located (.missingArgument c.name) t.span) := by
  rw [Stack.readList_eq, ht, Stack.feed, Stack.feedCall, if_neg hspace, if_neg (by simp [hwants]),
    if_pos hmissing]
  rfl

/-- Arguments that are read to their end have a derivation, given those of all shorter lists of
tokens. -/
theorem reads_arguments {ts : List Token}
    (ih : ∀ us : List Token, us.length < ts.length → Explains α env span us) {c : Call}
    {below : Stack α} {x : α × List Token}
    (h : (Stack.enter env c below).1.follow env span ts = .ok x) :
    ∃ c' rest, Reads env (.arguments c c') ts rest ∧
      (Stack.complete env c' below).1.follow env span rest = .ok x := by
  -- an optional argument that is left out uses up no token
  induction hleft : c.optionalLeft using Nat.strongRecOn generalizing c with
  | ind k ihskip =>
  -- only a call that lacks an argument looks at a token
  cases hlacks : c.isComplete with
  | true =>
    rw [Stack.enter_of_isComplete hlacks] at h
    exact ⟨c, ts, .complete hlacks, h⟩
  | false =>
    rw [Stack.enter_of_lacks hlacks] at h
    -- used at the end of the tokens and in front of a token that opens no bracket
    have homitted : c.wantsOptional = true →
        (∀ t ∈ ts.head?, t.text ≠ " " ∧ t.text ≠ "[") → ∃ c' rest,
          Reads env (.arguments c c') ts rest ∧
            (Stack.complete env c' below).1.follow env span rest = .ok x := by
      intro hwants hnext
      have hskip : c.skip.optionalLeft < k := hleft ▸ Call.optionalLeft_skip_lt hwants
      obtain ⟨c', rest, hargs, hresult⟩ :=
        ihskip _ hskip ((Stack.readList_call_omitted hwants hnext span below).symm.trans h) rfl
      exact ⟨c', rest, .omitted hwants hnext hargs, hresult⟩
    cases ts with
    | nil =>
      cases hwants : c.wantsOptional with
      | true => exact homitted hwants nofun
      | false =>
        have herror := h.symm.trans (readList_call_missing hwants List.headD_nil rfl
          (by simp [Token.finish, Token.endText]) below)
        cases herror
    | cons t ts =>
      have htail : Explains α env span ts := ih ts (Nat.lt_succ_self _)
      by_cases hspace : t.text = " "
      · have hrest := (Stack.readList_call_space hspace span ts c below).symm.trans h
        obtain ⟨c', rest, hargs, hresult⟩ :=
          htail.arguments (by rw [Stack.enter_of_lacks hlacks]; exact hrest)
        exact ⟨c', rest, .space hlacks hspace hargs, hresult⟩
      cases hwants : c.wantsOptional with
      | true =>
        by_cases hopen : t.text = "["
        · have hread := (Stack.readList_call_bracket hwants hopen span ts below).symm.trans h
          obtain ⟨nodes, rest, hbody, hclose⟩ := htail.body
            (Stack.isBody_bracket env c.argumentMode t.span (Stack.call c below)) hread
          obtain ⟨u, mid, rfl, htext, hdeliver⟩ := exists_closing (by decide) hclose
          rw [List.append_nil, List.reverse_reverse, Stack.deliver_call] at hdeliver
          -- the bracket and what is in it were used up
          have hmid : mid.length < (t :: ts).length := by
            have hlength := hbody.suffix.length_le
            simp only [List.length_cons] at hlength ⊢
            omega
          obtain ⟨c', rest, hargs, hresult⟩ := (ih mid hmid).arguments hdeliver
          exact ⟨c', rest, .bracket hwants hopen hbody htext hargs, hresult⟩
        · refine homitted hwants ?_
          intro u hu
          cases hu
          exact ⟨hspace, hopen⟩
      | false =>
        by_cases hmissing : (t.isEnd || t.text == "\x7d" || t.text == "]") = true
        · have herror := h.symm.trans
            (readList_call_missing hwants List.headD_cons hmissing hspace below)
          cases herror
        simp only [Bool.or_eq_true, beq_iff_eq, not_or, Bool.not_eq_true] at hmissing
        obtain ⟨⟨hend, hbrace⟩, hbracket⟩ := hmissing
        by_cases hopen : t.text = "\x7b"
        · have hread := (Stack.readList_call_brace hwants hopen span ts below).symm.trans h
          obtain ⟨nodes, rest, hbody, hclose⟩ := htail.body
            (Stack.isBody_brace env c.argumentMode t.span (Stack.call c below)) hread
          obtain ⟨u, mid, rfl, htext, hdeliver⟩ := exists_closing (by decide) hclose
          rw [List.append_nil, List.reverse_reverse, Stack.deliver_call] at hdeliver
          -- the braces and what is in them were used up
          have hmid : mid.length < (t :: ts).length := by
            have hlength := hbody.suffix.length_le
            simp only [List.length_cons] at hlength ⊢
            omega
          obtain ⟨c', rest, hargs, hresult⟩ := (ih mid hmid).arguments hdeliver
          exact ⟨c', rest, .brace hlacks hwants hopen hbody htext hargs, hresult⟩
        · have hnext : t.text ∉ [" ", "\x7d", "]", "\x7b"] := by
            simp [hspace, hbrace, hbracket, hopen]
          have hread := (Stack.readList_call_bare hwants hend hnext span ts below).symm.trans h
          obtain ⟨n, mid, hatom, hdeliver⟩ :=
            reads_atom (fun us hus => ih us (Nat.lt_succ_of_le hus)) hread
          rw [Stack.deliver_call] at hdeliver
          obtain ⟨c', rest, hargs, hresult⟩ := (ih mid hatom.length_lt).arguments hdeliver
          exact ⟨c', rest, .bare hlacks hwants hend hnext hatom hargs, hresult⟩

/-- Whatever succeeds has a derivation, for every registry and every stack. -/
theorem explains (α : Type) (env : Environment) (span : Option Span) (ts : List Token) :
    Explains α env span ts := by
  -- on the number of tokens: every part of a derivation but an omitted argument uses one up
  induction hlength : ts.length using Nat.strongRecOn generalizing ts with
  | ind k ih =>
    have hshorter : ∀ us : List Token, us.length < ts.length → Explains α env span us :=
      fun us hus => ih us.length (hlength ▸ hus) us rfl
    exact ⟨fun hb _ _ h => reads_body hshorter hb h, fun h => reads_arguments hshorter h⟩

/-- A run on all tokens that succeeds is a derivation, and conversely: this is where
`Reads.advances` and `explains` come together. -/
theorem readList_expression_iff {mode : Mode} {stop : Option String} {ts rest : List Token}
    {nodes : List Node} :
    (Stack.expression mode stop [] id).readList env span ts = .ok (nodes, rest) ↔
      Reads env (.body mode stop nodes) ts rest := by
  have hb := Stack.isBody_expression env mode stop (id : List Node → List Node)
  constructor
  · intro h
    obtain ⟨nodes', rest', hbody, hclose⟩ := (explains _ env span ts).body hb h
    rw [Stack.follow_leave, List.append_nil, List.reverse_reverse] at hclose
    cases hclose
    exact hbody
  · intro h
    refine (h.advances span hb []).trans ?_
    rw [hb.readList_finish h.endsAt, Stack.follow_leave, List.append_nil, List.reverse_reverse]
    rfl

end

namespace Environment

variable {env : Environment} {source : String} {nodes : List Node}

/-- Given the tokens `ts` that it supplies, a text is read exactly if these have a derivation as an
expression in math mode, with nothing left. -/
theorem parse_eq_ok_iff_reads {ts : List Token} {last : Token}
    (h : (Parser.ofText source).Supplies env ts last) :
    (env.parse source).1 = .ok nodes ↔ Reads env (.body .math none nodes) ts [] := by
  rw [parse_of_supplies h]
  exact readList_expression_iff

/-- A text is read if the tokens that come out of it, with macros replaced, have a derivation. -/
theorem parse_of_drain {ts : List Token}
    (h : ((Parser.ofText source).drain env).toOption = some ts)
    (hreads : Reads env (.body .math none nodes) ts []) : (env.parse source).1 = .ok nodes := by
  obtain ⟨last, hsupplies⟩ := Parser.exists_supplies_of_drain h
  exact (parse_eq_ok_iff_reads hsupplies).mpr hreads

/-- A text that is read has tokens with a derivation. -/
theorem reads_of_parse (h : (env.parse source).1 = .ok nodes) :
    ∃ ts last, (Parser.ofText source).Supplies env ts last ∧
      Reads env (.body .math none nodes) ts [] := by
  obtain ⟨ts, last, hsupplies⟩ := supplies_of_parse h
  exact ⟨ts, last, hsupplies, (parse_eq_ok_iff_reads hsupplies).mp h⟩

end Environment

end MathMarkup
