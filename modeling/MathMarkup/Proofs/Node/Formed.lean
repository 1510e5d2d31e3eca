import MathMarkup.Proofs.Parser.Arguments
import MathMarkup.Proofs.Registry.Standard

/-!
# What the nodes of a formula look like

Not every tree of nodes can come out of the parser.  Each node has the mode of what is
around it, arguments are groups, an arrow has a label, the two arrows of a pair have space
as wide as each other's labels, and so on.  All of this is one invariant of nodes, and it
holds of whatever the parser reads with the standard commands.

The invariant leaves open which texts characters can have: it is stated for a property of
texts that all tokens have.

## Main definitions

* `Node.Formed` — the invariant.
* `Node.IsLabel` — what can stand in brackets.
* `Command.Makes` — what the standard commands make of their arguments.

## Main results

* `IsStandard.formed` — a standard command makes well-formed nodes of well-formed arguments.
* `Reads.formed` — what is read is well formed.
* `Environment.formed_of_parse` — so are the nodes of a text.
-/

namespace MathMarkup

namespace Node

/-- Whether a node can be given in brackets: none of its elements is a closing bracket. -/
def IsLabel (n : Node) : Prop := ∀ x ∈ n.elements, x.text? ≠ some "]"

/-- The nodes that can be read in a mode, given a property of the texts of characters. -/
inductive Formed (p : String → Prop) : Mode → Node → Prop where
  /-- A letter stands in math mode and is alphabetic. -/
  | letter {span : Option Span} {text : String} (hsymbol : IsSymbol text) (htext : p text)
      (halphabetic : Token.isAlphabetic ⟨text, span⟩ = true) :
      Formed p .math (.letter ⟨.math, span⟩ text)
  /-- In math mode a symbol is neither alphabetic nor a blank. -/
  | symbol {mode : Mode} {span : Option Span} {text : String} (hsymbol : IsSymbol text)
      (htext : p text)
      (hmath : mode = .math → Token.isAlphabetic ⟨text, span⟩ = false ∧ text ≠ " ") :
      Formed p mode (.symbol ⟨mode, span⟩ text)
  /-- A group is read in the mode around it. -/
  | group {mode : Mode} {span : Option Span} {body : List Node}
      (hbody : ∀ n ∈ body, Formed p mode n) : Formed p mode (.group ⟨mode, span⟩ body)
  /-- Text is read in text mode. -/
  | text {mode : Mode} {span : Option Span} {body : List Node}
      (hbody : ∀ n ∈ body, Formed p .text n) : Formed p mode (.text ⟨mode, span⟩ body)
  /-- A fraction stands in math mode and has groups as its parts. -/
  | fraction {span : Option Span} {a b : Node} (ha : Formed p .math a)
      (hagroup : a.kind = .group) (hb : Formed p .math b) (hbgroup : b.kind = .group) :
      Formed p .math (.fraction ⟨.math, span⟩ a b)
  /-- A phantom has a group as its body. -/
  | phantom {mode : Mode} {span : Option Span} {a : Node} (ha : Formed p mode a)
      (hgroup : a.kind = .group) : Formed p mode (.phantom ⟨mode, span⟩ a)
  /-- An overlap has a group as its body. -/
  | lap {mode : Mode} {span : Option Span} {side : Side} {a : Node} (ha : Formed p mode a)
      (hgroup : a.kind = .group) : Formed p mode (.lap ⟨mode, span⟩ side a)
  /-- An arrow stands in math mode and has a label on top. -/
  | arrow {span : Option Span} {name : String} {a : Node} {below : Option Node}
      (hname : name ∈ arrowNames) (ha : Formed p .math a) (hgroup : a.kind = .group)
      (hbelow : ∀ b ∈ below, Formed p .math b) (hbelowGroup : ∀ b ∈ below, b.kind = .group)
      (hlabel : ∀ b ∈ below, b.IsLabel) :
      Formed p .math (.arrow ⟨.math, span⟩ name (some a) below)
  /-- A pair of arrows is like an arrow, and has space for the labels. -/
  | arrowPair {span : Option Span} {name : String} {a : Node} {below : Option Node}
      (hname : name ∈ arrowPairNames) (ha : Formed p .math a) (hgroup : a.kind = .group)
      (hbelow : ∀ b ∈ below, Formed p .math b) (hbelowGroup : ∀ b ∈ below, b.kind = .group)
      (hlabel : ∀ b ∈ below, b.IsLabel) :
      Formed p .math (.arrowPair ⟨.math, span⟩ name (some a) below
        (below.map (Handler.labelSpace .math)) (some (Handler.labelSpace .math a)))

/-- A well-formed group is one of well-formed nodes. -/
theorem Formed.exists_group {p : String → Prop} {mode : Mode} {n : Node} (h : n.Formed p mode)
    (hgroup : n.kind = .group) :
    ∃ span body, n = .group ⟨mode, span⟩ body ∧ ∀ x ∈ body, x.Formed p mode := by
  cases h with
  | group hbody => exact ⟨_, _, rfl, hbody⟩
  | _ => cases hgroup

/-- The node of a character is well formed where blanks are not ignored. -/
theorem Formed.ofToken {p : String → Prop} {mode : Mode} {t : Token} (hsymbol : IsSymbol t.text)
    (htext : p t.text) (hblank : Stack.isIgnored mode t = false) :
    (t.node mode).Formed p mode := by
  unfold Token.node
  split
  · rename_i hletter
    obtain ⟨rfl, halphabetic⟩ := hletter
    exact .letter hsymbol htext halphabetic
  · rename_i hletter
    refine .symbol hsymbol htext ?_
    rintro rfl
    simpa [Stack.isIgnored] using And.intro hletter hblank

end Node

/-! ### What commands make of their arguments -/

/-- Well-formed arguments, all of which are read in one mode. -/
structure Call.Formed (p : String → Prop) (inner : Mode) (c : Call) : Prop where
  /-- The required arguments are well formed. -/
  required : ∀ a ∈ c.required, a.Formed p inner ∧ a.kind = .group
  /-- The optional arguments are well formed. -/
  optional : ∀ a, some a ∈ c.optional → (a.Formed p inner ∧ a.kind = .group) ∧ a.IsLabel

/-- Whether a command reads all of its arguments in one mode, given the mode around it.  All
standard commands do. -/
def Command.ReadsIn (c : Command) (mode inner : Mode) : Prop :=
  ∀ k < c.optional + c.required, (c.argumentType k).mode mode = inner

/-- Where the strict policy lets an overlap pass, it makes its node. -/
theorem Handler.lapReply_of_node {o : Options} {i : Invocation} {n : Node}
    (h : (Handler.lap o i).1 = .node n) : Handler.lapReply i = .node n := by
  unfold Handler.lap at h
  split at h
  · split at h
    · cases h
    · exact h
  · exact h

/-- The nodes that the standard commands make of their arguments. -/
inductive Command.Makes (i : Invocation) : Command → Node → Prop where
  /-- An arrow is named by its command. -/
  | arrow {a : Node} (hname : i.name ∈ arrowNames) (hrequired : i.required = [a]) :
      Makes i .arrow (.arrow i.site i.name (some a) i.firstOptional)
  /-- A pair of arrows is named by its command, and has space for the labels. -/
  | arrowPair {a : Node} (hname : i.name ∈ arrowPairNames) (hrequired : i.required = [a]) :
      Makes i .arrowPair (.arrowPair i.site i.name (some a) i.firstOptional
        (i.firstOptional.map (Handler.labelSpace i.mode)) (some (Handler.labelSpace i.mode a)))
  /-- The name of an overlap says to which side it is. -/
  | lap {a : Node} (hname : i.name ∈ lapNames) (hrequired : i.required = [a]) :
      Makes i .lap (.lap i.site (lapSide i.name) a)
  /-- A fraction has two arguments. -/
  | fraction {a b : Node} (hname : i.name = "\\frac") (hrequired : i.required = [a, b]) :
      Makes i .fraction (.fraction i.site a b)
  /-- A phantom has one argument. -/
  | phantom {a : Node} (hname : i.name = "\\hphantom") (hrequired : i.required = [a]) :
      Makes i .phantom (.phantom i.site a)
  /-- A text consists of the elements of its argument. -/
  | text {a : Node} (hname : i.name = "\\text") (hrequired : i.required = [a]) :
      Makes i .text (.text i.site a.elements)

namespace IsStandard

variable {p : String → Prop} {name : String} {c : Command}

/-- A standard command that makes a node makes the one for its name, out of the arguments it was
given. -/
theorem makes (h : IsStandard name c) {o : Options} {i : Invocation} {n : Node}
    (hname : i.name = name) (hlength : i.required.length = c.required)
    (hn : (c.run o i).1 = .node n) : c.Makes i n := by
  -- the call was complete, so there are as many arguments as the command requires
  have hone : c.required = 1 → ∃ a, i.required = [a] :=
    fun hone => List.length_eq_one_iff.mp (hlength.trans hone)
  cases h with
  | arrow hmem =>
    obtain ⟨a, ha⟩ := hone rfl
    obtain rfl : Node.arrow i.site i.name i.required.head? i.firstOptional = n := Reply.node.inj hn
    rw [ha]
    exact .arrow (hname ▸ hmem) ha
  | arrowPair hmem =>
    obtain ⟨a, ha⟩ := hone rfl
    obtain rfl : Node.arrowPair i.site i.name i.required.head? i.firstOptional
      (i.firstOptional.map (Handler.labelSpace i.mode))
      (i.required.head?.map (Handler.labelSpace i.mode)) = n := Reply.node.inj hn
    rw [ha]
    exact .arrowPair (hname ▸ hmem) ha
  | lap hmem =>
    obtain ⟨a, ha⟩ := hone rfl
    have hreply := Handler.lapReply_of_node hn
    simp only [Handler.lapReply, ha, List.head?_cons] at hreply
    obtain rfl := Reply.node.inj hreply
    exact .lap (hname ▸ hmem) ha
  | fraction =>
    obtain ⟨a, b, hab⟩ := List.length_eq_two.mp hlength
    simp only [Command.run, Command.fraction, Handler.fraction, hab] at hn
    obtain rfl := Reply.node.inj hn
    exact .fraction hname hab
  | phantom =>
    obtain ⟨a, ha⟩ := hone rfl
    simp only [Command.run, Command.phantom, Handler.phantom, ha, List.head?_cons] at hn
    obtain rfl := Reply.node.inj hn
    exact .phantom hname ha
  | text =>
    obtain ⟨a, ha⟩ := hone rfl
    simp only [Command.run, Command.text, Handler.text, ha, List.head?_cons] at hn
    obtain rfl := Reply.node.inj hn
    exact .text hname ha

/-- A standard command reads all of its arguments in one mode. -/
theorem exists_readsIn (h : IsStandard name c) (mode : Mode) : ∃ inner, c.ReadsIn mode inner := by
  cases h with
  | text =>
    refine ⟨.text, fun k hk => ?_⟩
    obtain rfl : k = 0 := by
      simp only [Command.text] at hk
      omega
    rfl
  | _ => exact ⟨mode, fun _ _ => rfl⟩

/-- Where arrows and fractions are allowed. -/
theorem eq_math_of_allowedIn {mode : Mode} (hallowed : c.allowedIn mode = true)
    (htext : c.inText = false) : mode = .math := by
  cases mode with
  | math => rfl
  | text => simp [Command.allowedIn, htext] at hallowed

/-- A standard command makes a well-formed node of well-formed arguments, and never a
single character. -/
theorem formed (h : IsStandard name c) {call : Call} {inner : Mode} {n : Node}
    (hallowed : c.allowedIn call.mode = true) (hinner : c.ReadsIn call.mode inner)
    (hargs : call.Formed p inner) (hmakes : c.Makes call.invocation n) :
    n.Formed p call.mode ∧ n.text? = none := by
  -- the commands look at the mode, the label below and the arguments, and at nothing else
  have hmode := hinner 0 (Nat.lt_of_lt_of_le h.required_pos (Nat.le_add_left _ _))
  have hbelow : ∀ b ∈ call.invocation.firstOptional,
      (b.Formed p inner ∧ b.kind = .group) ∧ b.IsLabel := by
    intro b hb
    rw [Invocation.firstOptional, Option.mem_def, Option.join_eq_some_iff] at hb
    exact hargs.optional b (List.mem_of_mem_head? hb)
  have hrequired : ∀ {args : List Node}, call.invocation.required = args →
      ∀ a ∈ args, a.Formed p inner ∧ a.kind = .group := by
    rintro args rfl
    exact hargs.required
  have hsite : call.invocation.site = ⟨call.mode, call.token.bind Token.span⟩ := rfl
  cases hmakes with
  | arrow hmem hargs =>
    obtain ⟨haformed, hagroup⟩ := hrequired hargs _ List.mem_cons_self
    -- arrows are not allowed in text mode
    have hmath := eq_math_of_allowedIn hallowed rfl
    obtain rfl : call.mode = inner := hmode
    rw [hmath] at hsite haformed hbelow ⊢
    refine ⟨?_, rfl⟩
    rw [hsite]
    exact .arrow hmem haformed hagroup (fun b hb => (hbelow b hb).1.1)
      (fun b hb => (hbelow b hb).1.2) fun b hb => (hbelow b hb).2
  | arrowPair hmem hargs =>
    obtain ⟨haformed, hagroup⟩ := hrequired hargs _ List.mem_cons_self
    have hmath := eq_math_of_allowedIn hallowed rfl
    obtain rfl : call.mode = inner := hmode
    rw [hmath] at hsite haformed hbelow ⊢
    refine ⟨?_, rfl⟩
    rw [hsite, show call.invocation.mode = .math from hmath]
    exact .arrowPair hmem haformed hagroup (fun b hb => (hbelow b hb).1.1)
      (fun b hb => (hbelow b hb).1.2) fun b hb => (hbelow b hb).2
  | lap hmem hargs =>
    obtain ⟨haformed, hagroup⟩ := hrequired hargs _ List.mem_cons_self
    obtain rfl : call.mode = inner := hmode
    exact ⟨.lap haformed hagroup, rfl⟩
  | fraction _ hargs =>
    obtain ⟨haformed, hagroup⟩ := hrequired hargs _ List.mem_cons_self
    obtain ⟨hbformed, hbgroup⟩ := hrequired hargs _ (List.mem_cons_of_mem _ List.mem_cons_self)
    have hmath := eq_math_of_allowedIn hallowed rfl
    obtain rfl : call.mode = inner := hmode
    rw [hmath] at hsite haformed hbformed ⊢
    exact ⟨hsite ▸ .fraction haformed hagroup hbformed hbgroup, rfl⟩
  | phantom _ hargs =>
    obtain ⟨haformed, hagroup⟩ := hrequired hargs _ List.mem_cons_self
    obtain rfl : call.mode = inner := hmode
    exact ⟨.phantom haformed hagroup, rfl⟩
  | text _ hargs =>
    obtain ⟨haformed, hagroup⟩ := hrequired hargs _ List.mem_cons_self
    -- the argument is a group of text mode, and its elements become the body
    obtain rfl : Mode.text = inner := hmode
    obtain ⟨span, body, rfl, hbody⟩ := haformed.exists_group hagroup
    exact ⟨.text hbody, rfl⟩

end IsStandard

/-! ### What is read is well formed -/

namespace Call

variable {p : String → Prop} {inner : Mode} {c : Call}

@[simp] theorem bare_accept (c : Call) (n : Node) : (c.accept n).bare = none := by
  unfold accept
  split <;> rfl

theorem Formed.skip (h : c.Formed p inner) : c.skip.Formed p inner := by
  refine ⟨h.required, fun a ha => ?_⟩
  rcases List.mem_append.mp ha with ha | ha
  · exact h.optional a ha
  · simp at ha

/-- A call with one more argument. -/
theorem Formed.accept (h : c.Formed p inner) {n : Node} (hn : (c.argument n).Formed p inner)
    (hgroup : (c.argument n).kind = .group)
    (hlabel : c.wantsOptional = true → (c.argument n).IsLabel) : (c.accept n).Formed p inner := by
  unfold Call.accept
  split
  · rename_i hwants
    refine ⟨h.required, fun a ha => ?_⟩
    rcases List.mem_append.mp ha with ha | ha
    · exact h.optional a ha
    · obtain rfl : a = c.argument n := by simpa using ha
      exact ⟨⟨hn, hgroup⟩, hlabel hwants⟩
  · refine ⟨fun a ha => ?_, h.optional⟩
    rcases List.mem_append.mp ha with ha | ha
    · exact h.required a ha
    · obtain rfl : a = c.argument n := by simpa using ha
      exact ⟨hn, hgroup⟩

/-- A call with one more argument, which is a group by itself. -/
theorem Formed.accept_group (h : c.Formed p inner) (hbare : c.bare = none) {nodes : List Node}
    (hnodes : ∀ n ∈ nodes, n.Formed p inner)
    (hlabel : c.wantsOptional = true → ∀ n ∈ nodes, n.text? ≠ some "]") (span : Option Span) :
    (c.accept (.group ⟨inner, span⟩ nodes)).Formed p inner := by
  have hargument : c.argument (.group ⟨inner, span⟩ nodes) = .group ⟨inner, span⟩ nodes := by
    simp only [argument, hbare]
  refine h.accept ?_ ?_ ?_ <;> rw [hargument]
  · exact .group hnodes
  · rfl
  · exact hlabel

/-- A call with one more argument, which becomes a group of one node. -/
theorem Formed.accept_bare (h : c.Formed p inner) (hmode : c.argumentMode = inner)
    (hwants : c.wantsOptional = false) {n : Node} (hn : n.Formed p inner) (span : Option Span) :
    ({ c with bare := some span }.accept n).Formed p inner := by
  have hargument : Call.argument { c with bare := some span } n = .group ⟨inner, span⟩ [n] := by
    rw [← hmode]
    rfl
  have hbare : Call.Formed p inner { c with bare := some span } := ⟨h.required, h.optional⟩
  refine hbare.accept ?_ ?_ ?_ <;> rw [hargument]
  · exact .group (by simpa using hn)
  · rfl
  · exact fun hwants' => absurd (hwants.symm.trans hwants') Bool.false_ne_true

/-- The next argument is read in the mode in which all of them are. -/
theorem argumentMode_eq (hinner : c.command.ReadsIn c.mode inner) (h : c.Orderly)
    (hlacks : c.isComplete = false) : c.argumentMode = inner :=
  hinner c.index (h.index_lt hlacks)

end Call

/-- A standard command is read with its arguments. -/
theorem Reads.standard_command {o : Options} {t : Token} {command : Command} {mode : Mode}
    {c' : Call} {n : Node} {ts rest : List Token} (hname : IsStandard t.text command)
    (hallowed : command.allowedIn mode = true)
    (hargs : Reads ⟨.standard, o⟩ (.arguments
      { name := t.text, token := some t, command := command, mode := mode } c') ts rest)
    (hreply : (c'.invoke ⟨.standard, o⟩).1 = .node n) :
    Reads ⟨.standard, o⟩ (.atom mode n) (t :: ts) rest := by
  have hcall : Environment.openCall ⟨.standard, o⟩ t mode = .ok _ :=
    Environment.openCall_eq_ok_iff.mpr
      ⟨command, Registry.command?_standard_iff.mpr hname, hallowed, rfl⟩
  exact .command (hname.name_ne (by decide +kernel)) (hname.isControl t.span) hcall hargs
    (.node hreply)

/-- A command that is read makes its node of its arguments, and reads nothing behind them. -/
theorem Reads.exists_makes {o : Options} {t : Token} {mode : Mode} {c c' : Call} {n : Node}
    {ts mid rest : List Token} (hcall : Environment.openCall ⟨.standard, o⟩ t mode = .ok c)
    (hargs : Reads ⟨.standard, o⟩ (.arguments c c') ts mid)
    (hreply : Reads ⟨.standard, o⟩ (.reply c' n) mid rest) :
    ∃ command, IsStandard t.text command ∧ command.allowedIn mode = true ∧
      c = { name := t.text, token := some t, command := command, mode := mode } ∧
      command.Makes c'.invocation n ∧ rest = mid := by
  obtain ⟨horderly, hcomplete⟩ := hargs.orderly (Call.orderly_openCall hcall)
  have hcontinues := hargs.continues
  obtain ⟨command, hcommand, hallowed, rfl⟩ := Environment.openCall_eq_ok_iff.mp hcall
  have hstandard : IsStandard t.text command := Registry.command?_standard_iff.mp hcommand
  have hlength := (horderly.lengths hcomplete).2
  rw [hcontinues.command] at hlength
  cases hreply with
  | node hn =>
    rw [Call.invoke, hcontinues.command] at hn
    exact ⟨command, hstandard, hallowed, rfl, hstandard.makes hcontinues.name hlength hn, rfl⟩
  | scope hscope =>
    rw [Call.invoke, hcontinues.command] at hscope
    exact absurd hscope (hstandard.run_ne_readUntil _ _ _ _)

/-- What is known of a piece that is read from some tokens.  A node has the text of the first token
if it has one, which is how a body knows that none of its nodes is its closing token. -/
def Piece.Formed (p : String → Prop) (ts : List Token) : Piece → Prop
  | .body mode stop nodes => ∀ n ∈ nodes, n.Formed p mode ∧ ∀ s, stop = some s → n.text? ≠ some s
  | .atom mode n => (∀ t ∈ ts.head?, Stack.isIgnored mode t = false) →
      n.Formed p mode ∧ ∀ s, n.text? = some s → ts.head?.map Token.text = some s
  | .arguments c c' => ∀ inner, c.Orderly → c.bare = none → c.command.ReadsIn c.mode inner →
      c.Formed p inner → c'.Formed p inner
  | .reply _ _ => True

/-- **What is read with the standard commands is well formed**, with any property of texts that all
of the tokens have. -/
theorem Reads.formed {p : String → Prop} {o : Options} {x : Piece} {ts rest : List Token}
    (h : Reads ⟨.standard, o⟩ x ts rest) (hp : ∀ t ∈ ts, p t.text) : x.Formed p ts := by
  -- on the derivation; the tokens that are left are among those of the text
  induction h with
  | finish => exact fun _ hn => absurd hn List.not_mem_nil
  | blank _ _ ih => exact ih fun t ht => hp t (List.mem_cons_of_mem _ ht)
  | @next mode stop n nodes t ts mid rest hblank hopen hatom hbody ihatom ihbody =>
    obtain ⟨hformed, htext⟩ := ihatom hp (by simpa using hblank)
    have hbodyFormed := ihbody fun u hu => hp u (hatom.suffix.subset hu)
    intro m hm
    rcases List.mem_cons.mp hm with rfl | hm
    · -- a node with the text of the closing token would have ended the body
      refine ⟨hformed, fun s hs hms => ?_⟩
      have hts : t.text = s := by simpa using htext s hms
      simp [Stack.closes, hs, hts] at hopen
    · exact hbodyFormed m hm
  | @group mode nodes t u ts rest hopen hbody hclose ih =>
    have hbodyFormed := ih fun v hv => hp v (List.mem_cons_of_mem _ hv)
    refine fun _ => ⟨.group fun n hn => (hbodyFormed n hn).1, fun s hs => ?_⟩
    cases hs
  | @character mode t ts hbrace hcontrol hchar =>
    intro hblank
    have hsymbol := Token.isSymbol_iff.mpr ⟨hbrace, hcontrol, hchar⟩
    refine ⟨.ofToken hsymbol (hp t List.mem_cons_self) (hblank t rfl), fun s hs => ?_⟩
    unfold Token.node at hs
    split at hs <;> exact hs
  | @command mode c c' n t ts mid rest hbrace hcontrol hcall hargs hreply ihargs _ =>
    intro _
    have horderly := Call.orderly_openCall hcall
    -- a call starts without arguments, and all that it takes are read in one mode
    obtain ⟨command, hstandard, hallowed, rfl, hmakes, -⟩ := hargs.exists_makes hcall hreply
    obtain ⟨inner, hinner⟩ := hstandard.exists_readsIn mode
    have hformed := ihargs (fun u hu => hp u (List.mem_cons_of_mem _ hu)) inner horderly rfl hinner
      ⟨fun a ha => absurd ha List.not_mem_nil, fun a ha => absurd ha List.not_mem_nil⟩
    have hmode : c'.mode = mode := hargs.continues.mode
    have hnode := hstandard.formed (hmode ▸ hallowed) (hmode ▸ hinner) hformed hmakes
    exact ⟨hmode ▸ hnode.1, fun s hs => by simp [hnode.2] at hs⟩
  | complete => exact fun _ _ _ _ hc => hc
  | space _ _ _ ih => exact ih fun t ht => hp t (List.mem_cons_of_mem _ ht)
  | @bracket c c' nodes t u ts mid rest hwants hopen hbody hclose hargs ihbody ihargs =>
    intro inner horderly hbare hinner hc
    have hlacks := Call.isComplete_of_wantsOptional hwants
    have hnodes := ihbody fun v hv => hp v (List.mem_cons_of_mem _ hv)
    rw [Call.argumentMode_eq hinner horderly hlacks] at hnodes ihargs
    have hmid : ∀ v ∈ mid, p v.text := fun v hv =>
      hp v (List.mem_cons_of_mem _ (hbody.suffix.subset (List.mem_cons_of_mem _ hv)))
    refine ihargs hmid inner (horderly.accept hlacks _) (Call.bare_accept _ _) ?_ ?_
    · rwa [Call.command_accept, Call.mode_accept]
    · exact hc.accept_group hbare (fun n hn => (hnodes n hn).1)
        (fun _ n hn => (hnodes n hn).2 _ rfl) _
  | @omitted c c' ts rest hwants hnext hargs ih =>
    intro inner horderly hbare hinner hc
    exact ih hp inner (horderly.skip hwants) hbare hinner hc.skip
  | @brace c c' nodes t u ts mid rest hlacks hwants hopen hbody hclose hargs ihbody ihargs =>
    intro inner horderly hbare hinner hc
    have hnodes := ihbody fun v hv => hp v (List.mem_cons_of_mem _ hv)
    rw [Call.argumentMode_eq hinner horderly hlacks] at hnodes ihargs
    have hmid : ∀ v ∈ mid, p v.text := fun v hv =>
      hp v (List.mem_cons_of_mem _ (hbody.suffix.subset (List.mem_cons_of_mem _ hv)))
    refine ihargs hmid inner (horderly.accept hlacks _) (Call.bare_accept _ _) ?_ ?_
    · rwa [Call.command_accept, Call.mode_accept]
    · exact hc.accept_group hbare (fun n hn => (hnodes n hn).1) (by simp [hwants]) _
  | @bare c c' n t ts mid rest hlacks hwants hend hnext hatom hargs ihatom ihargs =>
    intro inner horderly _ hinner hc
    -- in text mode a blank is an atom, but none is read as an argument
    have hmode := Call.argumentMode_eq hinner horderly hlacks
    have hspace : t.text ≠ " " := fun ht => hnext (by simp [ht])
    obtain ⟨hformed, -⟩ := ihatom hp (by simpa [Stack.isIgnored] using fun _ => hspace)
    have hmid : ∀ v ∈ mid, p v.text := fun v hv => hp v (hatom.suffix.subset hv)
    refine ihargs hmid inner ((horderly.bare (some t.span)).accept hlacks n)
      (Call.bare_accept _ _) ?_ (hc.accept_bare hmode hwants (hmode ▸ hformed) t.span)
    rwa [Call.command_accept, Call.mode_accept]
  | node | scope => trivial

/-- The nodes of a text are well formed, with texts that its tokens have. -/
theorem Environment.formed_of_parse {p : String → Prop} {o : Options} {source : String}
    {nodes : List Node} (h : (parse ⟨.standard, o⟩ source).1 = .ok nodes)
    (hp : ∀ ts last, (Parser.ofText source).Supplies ⟨.standard, o⟩ ts last → ∀ t ∈ ts, p t.text) :
    ∀ n ∈ nodes, n.Formed p .math := by
  obtain ⟨ts, last, hsupplies, hreads⟩ := reads_of_parse h
  exact fun n hn => (hreads.formed (hp ts last hsupplies) n hn).1

end MathMarkup
