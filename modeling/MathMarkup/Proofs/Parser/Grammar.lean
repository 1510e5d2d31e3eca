import MathMarkup.Proofs.Parser.Arguments
import MathMarkup.Proofs.Registry.Standard

/-!
# The grammar of formulas

What can be written as a formula is said by a grammar over the texts of tokens, with macros
already replaced.  It knows nothing of nodes, spans, stacks or lookahead.

A body is a sequence of atoms; in math mode there may be blanks between them, and in text
mode a blank is an atom.  An atom is a symbol, a body in braces, or a command with its
arguments.  In front of an argument all blanks are skipped.  An optional argument is a body
in brackets and is there exactly if the next token is an opening bracket; a required one is
a body in braces or a single atom.

## Main definitions

* `Nonterminal`, `Derives` — the grammar.

## Main results

* `Reads.derives` — what the parser reads is derivable.
* `Derives.reads` — what is derivable is read by the parser.
* `Environment.parse_isOk_iff_derives` — a text is accepted exactly if its tokens are
  derivable as a body in math mode.
-/

namespace MathMarkup

/-! ### The grammar -/

/-- The mode in which a command reads one of its arguments, given the mode around it. -/
def Command.argumentMode (c : Command) (mode : Mode) (index : Nat) : Mode :=
  (c.argumentType index).mode mode

/-- What the grammar describes. -/
inductive Nonterminal where
  /-- A body that consists of the given atoms. -/
  | body (mode : Mode) (atoms : List (List String))
  /-- A single atom. -/
  | atom (mode : Mode)
  /-- The arguments of a command from some index on, the optional ones first. -/
  | arguments (command : Command) (mode : Mode) (index : Nat)

/-- The texts of tokens that the grammar allows, with the commands of a registry.  A body keeps its
atoms apart, since in an optional argument none of them may be a closing bracket. -/
inductive Derives (r : Registry) : Nonterminal → List String → Prop where
  /-- A body may be empty. -/
  | empty {mode : Mode} : Derives r (.body mode []) []
  /-- Blanks between atoms mean nothing in math mode. -/
  | blank {atoms : List (List String)} {ts : List String}
      (hbody : Derives r (.body .math atoms) ts) : Derives r (.body .math atoms) (" " :: ts)
  /-- A body is a sequence of atoms. -/
  | append {mode : Mode} {a ts : List String} {atoms : List (List String)}
      (hatom : Derives r (.atom mode) a) (hbody : Derives r (.body mode atoms) ts) :
      Derives r (.body mode (a :: atoms)) (a ++ ts)
  /-- A symbol is an atom; a blank is one in text mode. -/
  | symbol {mode : Mode} {s : String} (hsymbol : IsSymbol s) (hblank : mode = .math → s ≠ " ") :
      Derives r (.atom mode) [s]
  /-- A body in braces is an atom. -/
  | group {mode : Mode} {atoms : List (List String)} {ts : List String}
      (hbody : Derives r (.body mode atoms) ts) :
      Derives r (.atom mode) ("\x7b" :: (ts ++ ["\x7d"]))
  /-- A command that is allowed here is an atom together with its arguments. -/
  | command {mode : Mode} {name : String} {c : Command} {ts : List String}
      (hname : r.command? name = some c) (hallowed : c.allowedIn mode = true)
      (hargs : Derives r (.arguments c mode 0) ts) : Derives r (.atom mode) (name :: ts)
  /-- There are no arguments behind the last one. -/
  | complete {c : Command} {mode : Mode} {i : Nat} (hindex : c.optional + c.required ≤ i) :
      Derives r (.arguments c mode i) []
  /-- Blanks in front of an argument mean nothing. -/
  | space {c : Command} {mode : Mode} {i : Nat} {ts : List String}
      (hindex : i < c.optional + c.required) (hargs : Derives r (.arguments c mode i) ts) :
      Derives r (.arguments c mode i) (" " :: ts)
  /-- An optional argument is a body in brackets, of which no atom is a closing bracket. -/
  | bracket {c : Command} {mode : Mode} {i : Nat} {atoms : List (List String)}
      {b ts : List String} (hindex : i < c.optional)
      (hbody : Derives r (.body (c.argumentMode mode i) atoms) b) (hatoms : ["]"] ∉ atoms)
      (hargs : Derives r (.arguments c mode (i + 1)) ts) :
      Derives r (.arguments c mode i) ("[" :: (b ++ "]" :: ts))
  /-- An optional argument is left out exactly if the next token opens no bracket. -/
  | omitted {c : Command} {mode : Mode} {i : Nat} {ts : List String} (hindex : i < c.optional)
      (hblank : ts.head? ≠ some " ") (hnext : ts.head? ≠ some "[")
      (hargs : Derives r (.arguments c mode (i + 1)) ts) : Derives r (.arguments c mode i) ts
  /-- A required argument is a body in braces. -/
  | brace {c : Command} {mode : Mode} {i : Nat} {atoms : List (List String)}
      {b ts : List String} (hoptional : c.optional ≤ i) (hindex : i < c.optional + c.required)
      (hbody : Derives r (.body (c.argumentMode mode i) atoms) b)
      (hargs : Derives r (.arguments c mode (i + 1)) ts) :
      Derives r (.arguments c mode i) ("\x7b" :: (b ++ "\x7d" :: ts))
  /-- A required argument is an atom that starts neither with a blank nor with a closing
  bracket. -/
  | bare {c : Command} {mode : Mode} {i : Nat} {a ts : List String}
      (hoptional : c.optional ≤ i) (hindex : i < c.optional + c.required)
      (hatom : Derives r (.atom (c.argumentMode mode i)) a) (hblank : a.head? ≠ some " ")
      (hnext : a.head? ≠ some "]") (hargs : Derives r (.arguments c mode (i + 1)) ts) :
      Derives r (.arguments c mode i) (a ++ ts)

/-! ### Derivations of nodes are derivations of texts -/

/-- What the grammar says of the tokens `us` that a piece was read from.  It says nothing of an atom
that starts with a blank where blanks mean nothing, because no such atom is ever read. -/
def Piece.Derivable (us : List Token) : Piece → Prop
  | .body mode stop _ => ∃ atoms, Derives .standard (.body mode atoms) (texts us) ∧
      ∀ s, stop = some s → [s] ∉ atoms
  | .atom mode _ => us ≠ [] ∧ ((∀ t ∈ us.head?, Stack.isIgnored mode t = false) →
      Derives .standard (.atom mode) (texts us))
  | .arguments c _ => c.Orderly → Derives .standard (.arguments c.command c.mode c.index) (texts us)
  | .reply c _ => (∃ name, IsStandard name c.command) → us = []

/-- What is read is derivable: the tokens that a piece takes off the front are derivable, and the
nodes are forgotten. -/
theorem Reads.derives {o : Options} {x : Piece} {ts rest : List Token}
    (h : Reads ⟨.standard, o⟩ x ts rest) : ∃ us, ts = us ++ rest ∧ x.Derivable us := by
  -- on the derivation; what the grammar says of a call is said for orderly calls, since only for
  -- these the arguments that are there tell which one comes next
  induction h with
  | finish hend => exact ⟨[], rfl, [], .empty, fun _ _ => List.not_mem_nil⟩
  | @blank mode stop nodes t ts rest hblank hbody ih =>
    obtain ⟨us, rfl, atoms, hderives, hatoms⟩ := ih
    simp only [Stack.isIgnored, Bool.and_eq_true, beq_iff_eq] at hblank
    obtain ⟨rfl, htext⟩ := hblank
    refine ⟨t :: us, rfl, atoms, ?_, hatoms⟩
    rw [texts_cons, htext]
    exact .blank hderives
  | @next mode stop n nodes t ts mid rest hblank hopen hatom hbody ihatom ihbody =>
    obtain ⟨us, hus, hne, hderives⟩ := ihatom
    obtain ⟨vs, rfl, atoms, hderives', hatoms⟩ := ihbody
    -- the atom has a first token, and this is the one that was tested
    obtain ⟨u, us', rfl⟩ := List.exists_cons_of_ne_nil hne
    obtain rfl : t = u := (List.cons.inj hus).1
    refine ⟨t :: us' ++ vs, by rw [hus, List.append_assoc], texts (t :: us') :: atoms, ?_, ?_⟩
    · rw [texts_append]
      refine .append (hderives ?_) hderives'
      intro v hv
      cases hv
      exact hblank
    · -- an atom that consists of the stopping token alone would have ended the body
      intro s hs hmem
      rcases List.mem_cons.mp hmem with heq | hmem
      · have htext : s = t.text := (List.cons.inj heq).1
        simp [Stack.closes, hs, htext] at hopen
      · exact hatoms s hs hmem
  | @group mode nodes t u ts rest hopen hbody hclose ih =>
    obtain ⟨us, rfl, atoms, hderives, -⟩ := ih
    refine ⟨t :: (us ++ [u]), by simp, by simp, fun _ => ?_⟩
    have htexts : texts (t :: (us ++ [u])) = "\x7b" :: (texts us ++ ["\x7d"]) := by
      simp [hopen, hclose]
    rw [htexts]
    exact .group hderives
  | @character mode t ts hbrace hcontrol hchar =>
    refine ⟨[t], rfl, by simp, fun hignored => ?_⟩
    refine .symbol (Token.isSymbol_iff.mpr ⟨hbrace, hcontrol, hchar⟩) ?_
    rintro rfl htext
    have hblank := hignored t rfl
    simp [Stack.isIgnored, htext] at hblank
  | @command mode c c' n t ts mid rest hbrace hcontrol hcall hargs hreply ihargs ihreply =>
    obtain ⟨us, rfl, hderives⟩ := ihargs
    obtain ⟨vs, rfl, hvs⟩ := ihreply
    have horderly := Call.orderly_openCall hcall
    obtain ⟨command, hcommand, hallowed, rfl⟩ := Environment.openCall_eq_ok_iff.mp hcall
    -- a standard command takes nothing behind its arguments
    obtain rfl : vs = [] := by
      refine hvs ⟨t.text, ?_⟩
      rw [hargs.continues.command]
      exact Registry.command?_standard_iff.mp hcommand
    exact ⟨t :: us, by simp, by simp, fun _ => .command hcommand hallowed (hderives horderly)⟩
  | @complete c ts hcomplete =>
    exact ⟨[], rfl, fun hc => .complete (hc.isComplete_iff.mp hcomplete)⟩
  | @space c c' t ts rest hlacks hspace hargs ih =>
    obtain ⟨us, rfl, hderives⟩ := ih
    refine ⟨t :: us, rfl, fun hc => ?_⟩
    rw [texts_cons, hspace]
    exact .space (hc.index_lt hlacks) (hderives hc)
  | @bracket c c' nodes t u ts mid rest hwants hopen hbody hclose hargs ihbody ihargs =>
    obtain ⟨us, rfl, atoms, hbodyDerives, hatoms⟩ := ihbody
    obtain ⟨vs, rfl, hargsDerives⟩ := ihargs
    refine ⟨t :: (us ++ u :: vs), by simp, fun hc => ?_⟩
    -- the call has one argument more, so the grammar is at the next index
    have hrest := hargsDerives (hc.accept (Call.isComplete_of_wantsOptional hwants) _)
    rw [Call.command_accept, Call.mode_accept, Call.index_accept] at hrest
    have htexts : texts (t :: (us ++ u :: vs)) = "[" :: (texts us ++ "]" :: texts vs) := by
      simp [hopen, hclose]
    rw [htexts]
    exact .bracket (hc.wantsOptional_iff.mp hwants) hbodyDerives (hatoms _ rfl) hrest
  | @omitted c c' ts rest hwants hnext hargs ih =>
    obtain ⟨us, rfl, hderives⟩ := ih
    refine ⟨us, rfl, fun hc => ?_⟩
    have hrest := hderives (hc.skip hwants)
    rw [Call.index_skip] at hrest
    -- the token that was looked at is the first one of what follows
    have hhead : ∀ s, (texts us).head? = some s → s ≠ " " ∧ s ≠ "[" := by
      intro s hs
      obtain ⟨t, us', rfl, rfl⟩ := exists_head_of_texts hs
      exact hnext t rfl
    exact .omitted (hc.wantsOptional_iff.mp hwants) (fun hs => (hhead _ hs).1 rfl)
      (fun hs => (hhead _ hs).2 rfl) hrest
  | @brace c c' nodes t u ts mid rest hlacks hwants hopen hbody hclose hargs ihbody ihargs =>
    obtain ⟨us, rfl, atoms, hbodyDerives, -⟩ := ihbody
    obtain ⟨vs, rfl, hargsDerives⟩ := ihargs
    refine ⟨t :: (us ++ u :: vs), by simp, fun hc => ?_⟩
    have hrest := hargsDerives (hc.accept hlacks _)
    rw [Call.command_accept, Call.mode_accept, Call.index_accept] at hrest
    have htexts : texts (t :: (us ++ u :: vs)) =
        "\x7b" :: (texts us ++ "\x7d" :: texts vs) := by
      simp [hopen, hclose]
    rw [htexts]
    exact .brace (hc.optional_le_index hwants) (hc.index_lt hlacks) hbodyDerives hrest
  | @bare c c' n t ts mid rest hlacks hwants hend hnext hatom hargs ihatom ihargs =>
    obtain ⟨us, hus, hne, hatomDerives⟩ := ihatom
    obtain ⟨vs, rfl, hargsDerives⟩ := ihargs
    obtain ⟨u, us', rfl⟩ := List.exists_cons_of_ne_nil hne
    obtain rfl : t = u := (List.cons.inj hus).1
    simp only [List.mem_cons, List.not_mem_nil, or_false, not_or] at hnext
    obtain ⟨hspace, -, hbracket, -⟩ := hnext
    refine ⟨t :: us' ++ vs, by rw [hus, List.append_assoc], fun hc => ?_⟩
    have hrest := hargsDerives ((hc.bare (some t.span)).accept hlacks n)
    rw [Call.command_accept, Call.mode_accept, Call.index_accept] at hrest
    rw [texts_append]
    refine .bare (hc.optional_le_index hwants) (hc.index_lt hlacks) (hatomDerives ?_)
      (by simpa using hspace) (by simpa using hbracket) hrest
    intro v hv
    cases hv
    simp [Stack.isIgnored, hspace]
  | @node c n ts hreply => exact ⟨[], rfl, fun _ => rfl⟩
  | @scope c stop finish nodes ts rest hreply hbody ih =>
    obtain ⟨us, rfl, -⟩ := ih
    refine ⟨us, rfl, ?_⟩
    rintro ⟨name, hstandard⟩
    -- no standard command reads on
    exact absurd hreply (hstandard.run_ne_readUntil _ _ _ _)

/-! ### Derivations of texts are derivations of nodes -/

/-- How an atom starts: never with a closing brace, in math mode not with a blank, and with
a closing bracket only if it is nothing else. -/
theorem Derives.atom_head {mode : Mode} {a : List String}
    (h : Derives .standard (.atom mode) a) : ∃ s tail, a = s :: tail ∧ s ≠ "\x7d" ∧
      (mode = .math → s ≠ " ") ∧ (s = "]" → tail = []) := by
  cases h with
  | symbol hsymbol hblank =>
    have hbrace := hsymbol.2
    simp only [List.mem_cons, not_or] at hbrace
    exact ⟨_, [], rfl, hbrace.2.1, hblank, fun _ => rfl⟩
  | group hbody => exact ⟨_, _, rfl, by decide, fun _ => by decide, nofun⟩
  | command hname hallowed hargs =>
    have hstandard := Registry.command?_standard_iff.mp hname
    exact ⟨_, _, rfl, hstandard.name_ne (by decide +kernel),
      fun _ => hstandard.name_ne (by decide +kernel),
      fun hs => absurd hs (hstandard.name_ne (by decide +kernel))⟩

/-- A required argument takes at least one token, so the arguments from some index on take one as
long as a required one is among them. -/
theorem Derives.arguments_ne_nil {c : Command} {mode : Mode} {i : Nat} {ts : List String}
    (h : Derives .standard (.arguments c mode i) ts) (hrequired : 0 < c.required)
    (hindex : i < c.optional + c.required) : ts ≠ [] := by
  -- the induction is over all derivations, and only those of arguments are meant
  generalize hx : Nonterminal.arguments c mode i = x at h
  induction h generalizing i with
  | complete hcomplete =>
    cases hx
    omega
  | space | bracket | brace => simp
  | omitted hoptional _ _ _ ih =>
    cases hx
    exact ih (by omega) rfl
  | bare _ _ hatom =>
    obtain ⟨s, tail, rfl, -⟩ := hatom.atom_head
    simp
  | _ => cases hx

/-- What the parser does with tokens that have the texts `ss`, given what the grammar says of the
texts: it reads them, whatever follows them.  Commands without required arguments are left out, as
no standard command is of this kind. -/
def Nonterminal.Readable (env : Environment) (ss : List String) : Nonterminal → Prop
  | .body mode atoms => ∀ {ts : List Token} (stop : Option String) (rest : List Token),
      texts ts = ss → (∀ t ∈ ts, t.isEnd = false) →
      (∀ s, stop = some s → s = "]" ∧ ["]"] ∉ atoms) → EndsAt mode stop rest →
      ∃ nodes, Reads env (.body mode stop nodes) (ts ++ rest) rest
  | .atom mode => ∀ {ts : List Token} (rest : List Token), texts ts = ss →
      (∀ t ∈ ts, t.isEnd = false) → ∃ n, Reads env (.atom mode n) (ts ++ rest) rest
  | .arguments command mode i => 0 < command.required →
      ∀ {ts : List Token} {c : Call} (rest : List Token), texts ts = ss →
      (∀ t ∈ ts, t.isEnd = false) → c.Orderly → c.command = command → c.mode = mode →
      c.index = i → ∃ c', Reads env (.arguments c c') (ts ++ rest) rest

namespace Nonterminal.Readable

variable {env : Environment} {o : Options} {command : Command} {mode : Mode} {i : Nat}
  {atoms : List (List String)} {ss : List String}

/-- A body is read atom by atom. -/
theorem append {a : List String} (hatom : Derives .standard (.atom mode) a)
    (ha : (atom mode).Readable env a) (hbody : (body mode atoms).Readable env ss) :
    (body mode (a :: atoms)).Readable env (a ++ ss) := by
  intro ts stop rest htexts hnoend hstop hend
  obtain ⟨us, vs, rfl, hus, hvs⟩ := List.map_eq_append_iff.mp htexts
  rw [List.forall_mem_append] at hnoend
  -- the first text of the atom decides whether the body goes on
  obtain ⟨s, tail, rfl, hbrace, hblank, hbracket⟩ := hatom.atom_head
  obtain ⟨n, hn⟩ := ha (vs ++ rest) hus hnoend.1
  obtain ⟨nodes, hnodes⟩ := hbody stop rest hvs hnoend.2
    (fun s hs => ⟨(hstop s hs).1, fun hmem => (hstop s hs).2 (List.mem_cons_of_mem _ hmem)⟩) hend
  obtain ⟨t, us', rfl, rfl, hus'⟩ := List.map_eq_cons_iff.mp hus
  refine ⟨n :: nodes, ?_⟩
  rw [List.append_assoc]
  refine .next ?_ (Stack.closes_eq_false (hnoend.1 t List.mem_cons_self) hbrace ?_) hn hnodes
  · cases mode with
    | math => simpa [Stack.isIgnored] using hblank rfl
    | text => rfl
  · -- an atom that starts with the closing bracket would be that bracket alone
    intro hs
    obtain ⟨htext, hatoms⟩ := hstop _ hs
    apply hatoms
    rw [hbracket htext, htext]
    exact List.mem_cons_self

/-- A group is read by its body. -/
theorem group (hbody : (body mode atoms).Readable env ss) :
    (atom mode).Readable env ("\x7b" :: (ss ++ ["\x7d"])) := by
  intro ts rest htexts hnoend
  obtain ⟨t, vs, u, rfl, hopen, hvs, hclose⟩ := exists_of_texts_enclosed htexts
  rw [List.forall_mem_cons, List.forall_mem_append] at hnoend
  obtain ⟨nodes, hnodes⟩ :=
    hbody none (u :: rest) hvs hnoend.2.1 (by simp) (endsAt_brace hclose rest)
  refine ⟨.group ⟨mode, Span.cover t.span u.span⟩ nodes, ?_⟩
  rw [List.cons_append, List.append_assoc]
  exact .group hopen hnodes hclose

/-- A command is read by its arguments, and then makes a node of them.  Handlers can only fail where
the strict policy makes an error of something. -/
theorem command_of_arguments {name : String}
    (hstrict : ∀ breach, o.strict.resolve breach ≠ .error)
    (hname : Registry.standard.command? name = some command)
    (hallowed : command.allowedIn mode = true)
    (hargs : (arguments command mode 0).Readable ⟨.standard, o⟩ ss) :
    (atom mode).Readable ⟨.standard, o⟩ (name :: ss) := by
  intro ts rest htexts hnoend
  obtain ⟨t, us, rfl, rfl, hus⟩ := List.map_eq_cons_iff.mp htexts
  rw [List.forall_mem_cons] at hnoend
  have hstandard := Registry.command?_standard_iff.mp hname
  have hcontrol : t.isControl = true := hstandard.isControl t.span
  have hbrace : t.text ≠ "\x7b" := hstandard.name_ne (by decide +kernel)
  have hcall : Environment.openCall ⟨.standard, o⟩ t mode = .ok _ :=
    Environment.openCall_eq_ok_iff.mpr ⟨command, hname, hallowed, rfl⟩
  have horderly := Call.orderly_openCall hcall
  obtain ⟨c', hreads⟩ := hargs hstandard.required_pos rest hus hnoend.2 horderly rfl rfl rfl
  obtain ⟨horderly', hcomplete⟩ := hreads.orderly horderly
  have hcommand : c'.command = command := hreads.continues.command
  -- the command has all the arguments that its handler asks for
  have hlength : c'.invocation.required.length = command.required := by
    rw [← hcommand]
    exact (horderly'.lengths hcomplete).2
  obtain ⟨n, hn⟩ := hstandard.exists_node hstrict hlength
  rw [← hcommand] at hn
  exact ⟨n, .command hbrace hcontrol hcall hreads (.node hn)⟩

/-- An optional argument is read by its body, up to the bracket that closes it. -/
theorem bracket {b : List String} (hindex : i < command.optional) (hatoms : ["]"] ∉ atoms)
    (hbody : (body (command.argumentMode mode i) atoms).Readable env b)
    (hargs : (arguments command mode (i + 1)).Readable env ss) :
    (arguments command mode i).Readable env ("[" :: (b ++ "]" :: ss)) := by
  intro hrequired ts c rest htexts hnoend hc hcommand hmode hi
  obtain ⟨t, vs, u, ws, rfl, hopen, hvs, hclose, hws⟩ := exists_of_texts_between htexts
  rw [List.forall_mem_cons, List.forall_mem_append, List.forall_mem_cons] at hnoend
  subst hcommand hmode hi
  have hwants := hc.wantsOptional_iff.mpr hindex
  obtain ⟨nodes, hnodes⟩ := hbody (some "]") (u :: (ws ++ rest)) hvs hnoend.2.1
    (fun s hs => ⟨(Option.some.inj hs).symm, hatoms⟩) (endsAt_bracket hclose _)
  obtain ⟨c', hreads⟩ := hargs hrequired rest hws hnoend.2.2.2
    (hc.accept (Call.isComplete_of_wantsOptional hwants)
      (.group ⟨c.argumentMode, Span.cover t.span u.span⟩ nodes))
    (Call.command_accept _ _) (Call.mode_accept _ _) (Call.index_accept _ _)
  refine ⟨c', ?_⟩
  rw [List.cons_append, List.append_assoc]
  exact .bracket hwants hopen hnodes hclose hreads

/-- An optional argument is skipped where what follows it opens no bracket.  What follows must be an
argument of the same command, or the bracket could be that of something else. -/
theorem omitted (hindex : i < command.optional) (hblank : ss.head? ≠ some " ")
    (hnext : ss.head? ≠ some "[")
    (hderives : Derives .standard (.arguments command mode (i + 1)) ss)
    (hargs : (arguments command mode (i + 1)).Readable env ss) :
    (arguments command mode i).Readable env ss := by
  intro hrequired ts c rest htexts hnoend hc hcommand hmode hi
  have hne := hderives.arguments_ne_nil hrequired (by omega)
  subst hcommand hmode hi htexts
  have hwants := hc.wantsOptional_iff.mpr hindex
  obtain ⟨c', hreads⟩ := hargs hrequired rest rfl hnoend (hc.skip hwants) rfl rfl c.index_skip
  refine ⟨c', .omitted hwants ?_ hreads⟩
  -- the arguments that follow take a token, so the next one is theirs and not of the rest
  intro t ht
  cases ts with
  | nil => exact absurd rfl hne
  | cons u us =>
    cases ht
    exact ⟨by simpa using hblank, by simpa using hnext⟩

/-- A required argument in braces is read by its body. -/
theorem brace {b : List String} (hoptional : command.optional ≤ i)
    (hindex : i < command.optional + command.required)
    (hbody : (body (command.argumentMode mode i) atoms).Readable env b)
    (hargs : (arguments command mode (i + 1)).Readable env ss) :
    (arguments command mode i).Readable env ("\x7b" :: (b ++ "\x7d" :: ss)) := by
  intro hrequired ts c rest htexts hnoend hc hcommand hmode hi
  obtain ⟨t, vs, u, ws, rfl, hopen, hvs, hclose, hws⟩ := exists_of_texts_between htexts
  rw [List.forall_mem_cons, List.forall_mem_append, List.forall_mem_cons] at hnoend
  subst hcommand hmode hi
  obtain ⟨nodes, hnodes⟩ :=
    hbody none (u :: (ws ++ rest)) hvs hnoend.2.1 (by simp) (endsAt_brace hclose _)
  obtain ⟨c', hreads⟩ := hargs hrequired rest hws hnoend.2.2.2
    (hc.accept (hc.lacks hindex) (.group ⟨c.argumentMode, Span.cover t.span u.span⟩ nodes))
    (Call.command_accept _ _) (Call.mode_accept _ _) (Call.index_accept _ _)
  refine ⟨c', ?_⟩
  rw [List.cons_append, List.append_assoc]
  exact .brace (hc.lacks hindex) (hc.wantsRequired hoptional) hopen hnodes hclose hreads

/-- A required argument may be an atom. -/
theorem bare {a : List String} (hoptional : command.optional ≤ i)
    (hindex : i < command.optional + command.required)
    (hatom : Derives .standard (.atom (command.argumentMode mode i)) a)
    (hblank : a.head? ≠ some " ") (hnext : a.head? ≠ some "]")
    (ha : (atom (command.argumentMode mode i)).Readable env a)
    (hargs : (arguments command mode (i + 1)).Readable env ss) :
    (arguments command mode i).Readable env (a ++ ss) := by
  intro hrequired ts c rest htexts hnoend hc hcommand hmode hi
  obtain ⟨us, vs, rfl, hus, hvs⟩ := List.map_eq_append_iff.mp htexts
  rw [List.forall_mem_append] at hnoend
  obtain ⟨s, tail, rfl, hbrace, -⟩ := hatom.atom_head
  subst hcommand hmode hi
  have hlacks := hc.lacks hindex
  have hwants := hc.wantsRequired hoptional
  obtain ⟨n, hn⟩ := ha (vs ++ rest) hus hnoend.1
  obtain ⟨t, us', rfl, rfl, hus'⟩ := List.map_eq_cons_iff.mp hus
  rw [List.append_assoc]
  by_cases hopen : t.text = "\x7b"
  · -- an atom in braces is read as an argument in braces
    obtain ⟨c', hreads⟩ := hargs hrequired rest hvs hnoend.2 (hc.accept hlacks n)
      (Call.command_accept _ _) (Call.mode_accept _ _) (Call.index_accept _ _)
    obtain ⟨nodes, u, rfl, hnodes, hclose⟩ := hn.group_of_brace hopen
    exact ⟨c', .brace hlacks hwants hopen hnodes hclose hreads⟩
  · obtain ⟨c', hreads⟩ := hargs hrequired rest hvs hnoend.2
      ((hc.bare (some t.span)).accept hlacks n)
      (Call.command_accept _ _) (Call.mode_accept _ _) (Call.index_accept _ _)
    have hfirst : t.text ∉ [" ", "\x7d", "]", "\x7b"] := by
      simp only [List.head?_cons, ne_eq, Option.some.injEq] at hblank hnext
      simp [hblank, hbrace, hnext, hopen]
    exact ⟨c', .bare hlacks hwants (hnoend.1 t List.mem_cons_self) hfirst hn hreads⟩

end Nonterminal.Readable

/-- What is derivable is read, if the strict policy makes no error of it.  The tokens can be any
that have these texts, whatever follows them; only behind a body there must be something that ends
it. -/
theorem Derives.reads {o : Options} (hstrict : ∀ breach, o.strict.resolve breach ≠ .error)
    {x : Nonterminal} {ss : List String} (h : Derives .standard x ss) :
    x.Readable ⟨.standard, o⟩ ss := by
  -- on the derivation, with the tokens behind it left free
  induction h with
  | empty =>
    intro ts stop rest htexts _ _ hend
    obtain rfl : ts = [] := List.map_eq_nil_iff.mp htexts
    exact ⟨[], .finish hend⟩
  | blank hbody ih =>
    intro ts stop rest htexts hnoend hstop hend
    obtain ⟨t, us, rfl, htext, hus⟩ := List.map_eq_cons_iff.mp htexts
    rw [List.forall_mem_cons] at hnoend
    obtain ⟨nodes, hreads⟩ := ih stop rest hus hnoend.2 hstop hend
    exact ⟨nodes, .blank (by simp [Stack.isIgnored, htext]) hreads⟩
  | append hatom _ ihatom ihbody => exact Nonterminal.Readable.append hatom ihatom ihbody
  | @symbol mode s hsymbol hblank =>
    intro ts rest htexts _
    obtain ⟨t, us, rfl, rfl, hus⟩ := List.map_eq_cons_iff.mp htexts
    obtain rfl : us = [] := List.map_eq_nil_iff.mp hus
    obtain ⟨hbrace, hcontrol, hchar⟩ := Token.isSymbol_iff.mp hsymbol
    exact ⟨_, .character hbrace hcontrol hchar⟩
  | group _ ih => exact Nonterminal.Readable.group ih
  | command hname hallowed _ ih =>
    exact Nonterminal.Readable.command_of_arguments hstrict hname hallowed ih
  | @complete command mode i hindex =>
    intro _ ts c rest htexts _ hc hcommand _ hi
    obtain rfl : ts = [] := List.map_eq_nil_iff.mp htexts
    subst hcommand hi
    exact ⟨c, .complete (hc.isComplete_iff.mpr hindex)⟩
  | @space command mode i ss hindex hargs ih =>
    intro hrequired ts c rest htexts hnoend hc hcommand hmode hi
    obtain ⟨t, us, rfl, hspace, hus⟩ := List.map_eq_cons_iff.mp htexts
    rw [List.forall_mem_cons] at hnoend
    obtain ⟨c', hreads⟩ := ih hrequired rest hus hnoend.2 hc hcommand hmode hi
    subst hcommand hi
    exact ⟨c', .space (hc.lacks hindex) hspace hreads⟩
  | bracket hindex _ hatoms _ ihbody ihargs => exact .bracket hindex hatoms ihbody ihargs
  | omitted hindex hblank hnext hargs ih => exact .omitted hindex hblank hnext hargs ih
  | brace hoptional hindex _ _ ihbody ihargs => exact .brace hoptional hindex ihbody ihargs
  | bare hoptional hindex hatom hblank hnext _ ihatom ihargs =>
    exact .bare hoptional hindex hatom hblank hnext ihatom ihargs

/-! ### Acceptance -/

namespace Environment

/-- **The parser accepts exactly what the grammar allows.**  For the standard registry and a
strict policy that makes no errors, a text whose macros can all be replaced is read exactly
if the texts of its tokens are derivable as a body in math mode. -/
theorem parse_isOk_iff_derives (o : Options)
    (hstrict : ∀ breach, o.strict.resolve breach ≠ .error) (source : String) (ts : List Token)
    (hdrain : (Parser.ofText source).drain ⟨.standard, o⟩ = .ok ts) :
    (∃ nodes, (parse ⟨.standard, o⟩ source).1 = .ok nodes) ↔
      ∃ atoms, Derives .standard (.body .math atoms) (ts.map Token.text) := by
  obtain ⟨last, hsupplies⟩ := Parser.drain_eq_ok_iff.mp hdrain
  simp only [parse_eq_ok_iff_reads hsupplies]
  constructor
  · -- the derivation of the nodes, with the nodes forgotten
    rintro ⟨nodes, hreads⟩
    obtain ⟨us, hus, atoms, hderives, -⟩ := hreads.derives
    rw [List.append_nil] at hus
    exact ⟨atoms, hus ▸ hderives⟩
  · -- the tokens have spans, and the derivation gives nodes for them
    rintro ⟨atoms, hderives⟩
    obtain ⟨nodes, hreads⟩ := hderives.reads hstrict none [] rfl hsupplies.isEnd_eq_false
      (by simp) nofun
    exact ⟨nodes, by simpa using hreads⟩

/-- A fraction whose first argument comes from a macro, a pair of arrows with two labels, and a
blank, which is an atom because the argument that it stands in is read in text mode. -/
theorem parse_isOk_macro_arrowPair :
    ∃ ts, (Parser.ofText "\\half\x7bx\x7d\\xtofrom[a]b\\text\x7b \x7d").drain
        ⟨.standard, { macros := [("\\half", "\\frac 1")], strict := .mode .warn }⟩ = .ok ts ∧
      ts.map Token.text =
        ["\\frac", "1", "\x7b", "x", "\x7d", "\\xtofrom", "[", "a", "]", "b", "\\text", "\x7b", " ",
          "\x7d"] ∧
      ∃ nodes, (parse ⟨.standard, { macros := [("\\half", "\\frac 1")], strict := .mode .warn }⟩
        "\\half\x7bx\x7d\\xtofrom[a]b\\text\x7b \x7d").1 = .ok nodes := by
  have hdrain : ((Parser.ofText "\\half\x7bx\x7d\\xtofrom[a]b\\text\x7b \x7d").drain
      ⟨.standard, { macros := [("\\half", "\\frac 1")], strict := .mode .warn }⟩).toOption.map
        (·.map Token.text) =
      some ["\\frac", "1", "\x7b", "x", "\x7d", "\\xtofrom", "[", "a", "]", "b", "\\text", "\x7b",
        " ", "\x7d"] := by
    decide +kernel
  have hsymbol : ∀ s ∈ ["1", "x", "a", "b"], Derives .standard (.atom .math) [s] := by
    have hchars : ∀ s ∈ ["1", "x", "a", "b"], IsSymbol s ∧ s ≠ " " := by decide +kernel
    exact fun s hs => .symbol (hchars s hs).1 fun _ => (hchars s hs).2
  have hfraction : Derives .standard (.atom .math) ["\\frac", "1", "\x7b", "x", "\x7d"] := by
    refine .command (Registry.command?_standard_iff.mpr .fraction) rfl ?_
    refine .bare (a := ["1"]) (by decide) (by decide) (hsymbol "1" (by simp)) (by simp) (by simp) ?_
    exact .brace (b := ["x"]) (by decide) (by decide) (.append (hsymbol "x" (by simp)) .empty)
      (.complete (by decide))
  have hpair : Derives .standard (.atom .math) ["\\xtofrom", "[", "a", "]", "b"] := by
    refine .command (Registry.command?_standard_iff.mpr (.arrowPair (by decide))) rfl ?_
    refine .bracket (b := ["a"]) (by decide) (.append (hsymbol "a" (by simp)) .empty) (by simp) ?_
    exact .bare (a := ["b"]) (by decide) (by decide) (hsymbol "b" (by simp)) (by simp) (by simp)
      (.complete (by decide))
  have htext : Derives .standard (.atom .math) ["\\text", "\x7b", " ", "\x7d"] := by
    refine .command (Registry.command?_standard_iff.mpr .text) rfl ?_
    -- in math mode the blank would be no atom
    have hblank : Derives .standard (.atom .text) [" "] := .symbol (by decide +kernel) nofun
    exact .brace (b := [" "]) (by decide) (by decide) (.append hblank .empty)
      (.complete (by decide))
  cases hts : (Parser.ofText "\\half\x7bx\x7d\\xtofrom[a]b\\text\x7b \x7d").drain
      ⟨.standard, { macros := [("\\half", "\\frac 1")], strict := .mode .warn }⟩ with
  | error e => simp [hts, Except.toOption] at hdrain
  | ok ts =>
    have htexts : ts.map Token.text = _ := Option.some.inj (hts ▸ hdrain)
    have hbody : ∃ atoms, Derives .standard (.body .math atoms) (ts.map Token.text) := by
      rw [htexts]
      exact ⟨_, .append hfraction (.append hpair (.append htext .empty))⟩
    refine ⟨ts, rfl, htexts, (parse_isOk_iff_derives _ ?_ _ ts hts).mpr hbody⟩
    simp [Strictness.resolve]

end Environment

end MathMarkup
