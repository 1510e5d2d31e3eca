import MathMarkup.Proofs.Parser.Screen
import MathMarkup.Proofs.Registry.History
import MathMarkup.Proofs.Rendering

/-!
# Extending a registry

A text is compiled twice, with a registry and with one that has more in it.  A registry is asked
for commands by name and for layouts by kind, and for nothing else.  So the two runs do the same,
step by step, up to the first question that the smaller registry cannot answer.  There the first
run fails, and the failure names what is missing.

It follows that a new command changes nothing for texts that do not fail for want of it.

## Main definitions

* `Registry.Extends` — a registry has what another one has, and more besides.
* `IsWanting`, `Move.IsWanting` — a failure for want of something.
* `Definition.Provides` — the failures that a definition does away with.

## Main results

* `Registry.Extends.feed`, `Registry.Extends.run` — what one token does, and a whole run.
* `Registry.Extends.toMarkup` — what a node is laid out as.
* `Registry.Extends.render` — **an extended registry renders texts as before, unless something was
  missing.**
* `Registry.render_define` — **a new command leaves the rendering of other texts as it is.**
-/

namespace MathMarkup

variable {α β S : Type} {missing : Reason → Prop}

/-! ### Failures for want of something -/

/-- Whether a result is a failure for want of something, such as a command that is not
registered. -/
def IsWanting (missing : Reason → Prop) (x : Except CompileError α) : Prop :=
  ∃ e, x = .error e ∧ missing e.reason

/-- Whether a stack fails for want of something. -/
def Move.IsWanting (missing : Reason → Prop) (move : Move α) : Prop :=
  ∃ e, move.outcome = .fail e ∧ missing e.reason

/-- Two steps that agree with two others one by one agree with them together, unless something
is missing. -/
theorem isWanting_or_bind_eq {x y : Except CompileError α} {next next' : α → Except CompileError β}
    (h : IsWanting missing x ∨ y = x)
    (hnext : ∀ a, IsWanting missing (next a) ∨ next' a = next a) :
    IsWanting missing (x >>= next) ∨ y >>= next' = x >>= next := by
  -- the first step fails already, or both go on from the same value
  rcases h with ⟨e, rfl, he⟩ | rfl
  · exact .inl ⟨e, rfl, he⟩
  · cases y with
    | error e => exact .inr rfl
    | ok a => exact hnext a

/-- So do steps that hand on a state. -/
theorem isWanting_or_onward_eq {x y : Except CompileError α × S}
    {next next' : α → S → Except CompileError β × S} (h : IsWanting missing x.1 ∨ y = x)
    (hnext : ∀ a s, IsWanting missing (next a s).1 ∨ next' a s = next a s) :
    IsWanting missing (onward x next).1 ∨
      onward y next' = onward x next := by
  obtain ⟨result, s⟩ := x
  rcases h with ⟨e, rfl, he⟩ | rfl
  · exact .inl ⟨e, rfl, he⟩
  · cases result with
    | error e => exact .inr rfl
    | ok a => exact hnext a s

namespace Environment

theorem tree_eq_onward (env : Environment) (source : String) :
    env.tree source = onward (env.parse source) fun nodes log =>
      (env.registry.formulaMarkup env.options source nodes, .building nodes.length :: log) := by
  unfold tree
  rcases env.parse source with ⟨_ | nodes, log⟩ <;> rfl

theorem render_eq_onward (env : Environment) (source : String) :
    env.render source = onward (env.tree source) fun m log =>
      (.ok m.serialize, .serialized m.serialize.utf8ByteSize :: log) := by
  unfold render
  rcases env.tree source with ⟨_ | m, log⟩ <;> rfl

end Environment

namespace Registry

/-- Whether a registry has what another one has.  Where it has something else, the other one has
nothing, and this is one of the things that are missing, as the error of the other one will say. -/
structure Extends (missing : Reason → Prop) (r r' : Registry) : Prop where
  /-- A name stands for the same command, or stood for none. -/
  command : ∀ name, r'.command? name = r.command? name ∨
    r.command? name = none ∧ missing (.undefinedCommand name)
  /-- A kind has the same layout, or had none. -/
  layout : ∀ kind, r'.layouts kind = r.layouts kind ∨
    r.layouts kind = none ∧ missing (.unknownGroup kind)

namespace Extends

variable {r r' : Registry} {o : Options}

/-! ### Reading -/

/-- A token starts the same call, or its name is missing and it stays in place. -/
theorem openCall (h : Extends missing r r') (t : Token) (mode : Mode) :
    (∃ e, Environment.openCall ⟨r, o⟩ t mode = .error (false, e) ∧ missing e.reason) ∨
      Environment.openCall ⟨r', o⟩ t mode = Environment.openCall ⟨r, o⟩ t mode := by
  unfold Environment.openCall
  -- a name that the smaller registry does not know is an error there
  rcases h.command t.text with hsame | ⟨hnone, hmissing⟩
  · rw [hsame]
    exact .inr rfl
  · rw [hnone]
    exact .inl ⟨_, rfl, hmissing⟩

/-- A node is delivered without a look at the registry. -/
theorem deliver_eq (r r' : Registry) (n : Node) (s : Stack α) :
    Stack.deliver ⟨r', o⟩ n s = Stack.deliver ⟨r, o⟩ n s := by
  induction s generalizing n with
  | expression | arguments | brace | bracket | scope => rfl
  | call c below ih =>
    have hbelow : (fun n => Stack.deliver ⟨r', o⟩ n below) =
        fun n => Stack.deliver ⟨r, o⟩ n below := funext ih
    simp only [Stack.deliver, hbelow]
    rfl

/-- So is a call that is complete. -/
theorem complete_eq (r r' : Registry) (c : Call) (s : Stack α) :
    Stack.complete ⟨r', o⟩ c s = Stack.complete ⟨r, o⟩ c s := by
  have hbelow : (fun n => Stack.deliver ⟨r', o⟩ n s) = fun n => Stack.deliver ⟨r, o⟩ n s :=
    funext fun n => deliver_eq r r' n s
  unfold Stack.complete
  rw [hbelow]
  rfl

theorem feedCommand (h : Extends missing r r') (t : Token) (mode : Mode) (s : Stack α) :
    (Stack.feedCommand ⟨r, o⟩ t mode s).IsWanting missing ∨
      Stack.feedCommand ⟨r', o⟩ t mode s = Stack.feedCommand ⟨r, o⟩ t mode s := by
  unfold Stack.feedCommand
  rcases h.openCall t mode with ⟨e, he, hmissing⟩ | hsame
  · rw [he]
    exact .inl ⟨e, rfl, hmissing⟩
  · rw [hsame]
    simp only [complete_eq r r', or_true]

/-- Of the atoms only commands are looked up. -/
theorem feedAtom (h : Extends missing r r') (t : Token) (mode : Mode) (s : Stack α) :
    (Stack.feedAtom ⟨r, o⟩ t mode s).IsWanting missing ∨
      Stack.feedAtom ⟨r', o⟩ t mode s = Stack.feedAtom ⟨r, o⟩ t mode s := by
  unfold Stack.feedAtom
  rw [deliver_eq r r']
  split
  · exact .inr rfl
  · split
    · exact h.feedCommand t mode s
    · exact .inr rfl

theorem feedBody (h : Extends missing r r') (t : Token) (mode : Mode) (stop : Option String)
    (s : Stack α) (close : Move α) :
    (Stack.feedBody ⟨r, o⟩ t mode stop s close).IsWanting missing ∨
      Stack.feedBody ⟨r', o⟩ t mode stop s close = Stack.feedBody ⟨r, o⟩ t mode stop s close := by
  unfold Stack.feedBody
  split
  · exact .inr rfl
  · split
    · exact .inr rfl
    · exact h.feedAtom t mode s

theorem feedCall (h : Extends missing r r') (t : Token) (c : Call) (stack : Call → Stack α)
    (finish : Call → Outcome α × Log) :
    (Stack.feedCall ⟨r, o⟩ t c stack finish).IsWanting missing ∨
      Stack.feedCall ⟨r', o⟩ t c stack finish = Stack.feedCall ⟨r, o⟩ t c stack finish := by
  unfold Stack.feedCall
  split
  · exact .inr rfl
  · split
    · exact .inr rfl
    · split
      · exact .inr rfl
      · split
        · exact .inr rfl
        · exact h.feedAtom t c.argumentMode _

/-- **A token does the same to a stack, unless it names a command that is missing.** -/
theorem feed (h : Extends missing r r') (t : Token) (s : Stack α) :
    (s.feed ⟨r, o⟩ t).IsWanting missing ∨ s.feed ⟨r', o⟩ t = s.feed ⟨r, o⟩ t := by
  cases s with
  | expression mode stop items result => exact h.feedBody t mode stop _ _
  | brace mode opening items below =>
    simp only [Stack.feed, deliver_eq r r']
    exact h.feedBody t mode none _ _
  | bracket mode opening items below =>
    simp only [Stack.feed, deliver_eq r r']
    exact h.feedBody t mode (some "]") _ _
  | scope mode stop finish items below =>
    simp only [Stack.feed, deliver_eq r r']
    exact h.feedBody t mode stop _ _
  | call c below =>
    simp only [Stack.feed, complete_eq r r']
    exact h.feedCall t c _ _
  | arguments c result => exact h.feedCall t c _ _

/-- **A run goes the same way, unless it comes to something that is missing.** -/
theorem run (h : Extends missing r r') (s : Stack α) (p : Parser) :
    IsWanting missing (p.run ⟨r, o⟩ s).1 ∨ p.run ⟨r', o⟩ s = p.run ⟨r, o⟩ s := by
  -- the recursion of the first run; tokens come into view without a look at the registry
  have hview : ∀ p : Parser, p.fetch ⟨r', o⟩ = p.fetch ⟨r, o⟩ := fun _ => rfl
  fun_induction Parser.run ⟨r, o⟩ s p with
  | case1 s p e p₁ hfetch =>
    rw [Parser.run_of_fetch_error ((hview p).trans hfetch)]
    exact .inr rfl
  | case2 s p t p₁ hfetch s₁ hread ih =>
    -- a run that goes on has not failed for want of anything
    rcases h.feed t s with ⟨e, hfail, -⟩ | hsame
    · rw [hread] at hfail
      cases hfail
    · rw [Parser.run_eq ((hview p).trans hfetch), hsame, hread]
      exact ih
  | case3 s p t p₁ hfetch a hdone =>
    rcases h.feed t s with ⟨e, hfail, -⟩ | hsame
    · rw [hdone] at hfail
      cases hfail
    · rw [Parser.run_eq ((hview p).trans hfetch), hsame, hdone]
      exact .inr rfl
  | case4 s p t p₁ hfetch e hfail =>
    rcases h.feed t s with ⟨e', hfail', hmissing⟩ | hsame
    · rw [hfail] at hfail'
      cases hfail'
      exact .inl ⟨e, rfl, hmissing⟩
    · rw [Parser.run_eq ((hview p).trans hfetch), hsame, hfail]
      exact .inr rfl

/-- So does a parser that reads everything. -/
theorem document (h : Extends missing r r') (p : Parser) :
    IsWanting missing (p.document ⟨r, o⟩).1 ∨ p.document ⟨r', o⟩ = p.document ⟨r, o⟩ := by
  rw [Parser.document_eq, Parser.document_eq]
  apply isWanting_or_onward_eq (h.run p.start p)
  intro nodes p₁
  exact .inr rfl

/-! ### Laying out -/

/-- A node passes the same check, or there is no layout for its kind. -/
theorem checkLayout (h : Extends missing r r') (n : Node) :
    IsWanting missing (n.checkLayout r) ∨ n.checkLayout r' = n.checkLayout r := by
  unfold Node.checkLayout
  rcases h.layout n.kind with hsame | ⟨hnone, hmissing⟩
  · rw [hsame]
    exact .inr rfl
  · rw [hnone]
    exact .inl ⟨_, rfl, hmissing⟩

open Node

mutual

/-- **A node has the same markup, unless a layout is missing.**  The layout of a node is looked up
before anything inside of it is laid out, so the first registry fails there, before the two can
differ. -/
theorem toMarkup (h : Extends missing r r') : ∀ (n : Node) (level : Nat),
    IsWanting missing (Node.toMarkup r level n) ∨ Node.toMarkup r' level n = Node.toMarkup r level n
  | .letter s t, level => by
    rw [Node.toMarkup, Node.toMarkup]
    exact isWanting_or_bind_eq (h.checkLayout _) fun _ => .inr rfl
  | .symbol s t, level => by
    rw [Node.toMarkup, Node.toMarkup]
    exact isWanting_or_bind_eq (h.checkLayout _) fun _ => .inr rfl
  | .group s body, level => by
    rw [Node.toMarkup, Node.toMarkup]
    refine isWanting_or_bind_eq (h.checkLayout _) fun _ => ?_
    exact isWanting_or_bind_eq (h.toMarkupList body level) fun _ => .inr rfl
  | .fraction s a b, level => by
    rw [Node.toMarkup, Node.toMarkup]
    refine isWanting_or_bind_eq (h.checkLayout _) fun _ => ?_
    refine isWanting_or_bind_eq (h.toMarkup a level) fun _ => ?_
    exact isWanting_or_bind_eq (h.toMarkup b level) fun _ => .inr rfl
  | .phantom s a, level => by
    rw [toMarkup_phantom, toMarkup_phantom]
    refine isWanting_or_bind_eq (h.checkLayout _) fun _ => ?_
    refine isWanting_or_bind_eq ?_ fun _ => .inr rfl
    -- the elements of the body are those of a group, or the body alone
    cases a with
    | group t body => exact h.toMarkupList body level
    | _ =>
      simp only [elements, Node.toMarkupList]
      exact isWanting_or_bind_eq (h.toMarkup _ level) fun _ => .inr rfl
  | .lap s side a, level => by
    rw [Node.toMarkup, Node.toMarkup]
    refine isWanting_or_bind_eq (h.checkLayout _) fun _ => ?_
    exact isWanting_or_bind_eq (h.toMarkup a level) fun _ => .inr rfl
  | .text s body, level => by
    rw [Node.toMarkup, Node.toMarkup]
    refine isWanting_or_bind_eq (h.checkLayout _) fun _ => ?_
    split
    · exact .inr rfl
    · exact isWanting_or_bind_eq (h.toMarkupList body level) fun _ => .inr rfl
  | .arrow s name body below, level => by
    rw [Node.toMarkup, Node.toMarkup]
    refine isWanting_or_bind_eq (h.checkLayout _) fun _ => ?_
    refine isWanting_or_bind_eq (h.labelMarkup body _) fun _ => ?_
    exact isWanting_or_bind_eq (h.labelMarkup below _) fun _ => .inr rfl
  | .arrowPair s name body below upperBelow lowerBody, level => by
    rw [Node.toMarkup, Node.toMarkup]
    refine isWanting_or_bind_eq (h.checkLayout _) fun _ => ?_
    split
    · exact .inr rfl
    · refine isWanting_or_bind_eq (h.labelMarkup body _) fun _ => ?_
      refine isWanting_or_bind_eq (h.labelMarkup upperBelow _) fun _ => ?_
      refine isWanting_or_bind_eq (h.labelMarkup lowerBody _) fun _ => ?_
      exact isWanting_or_bind_eq (h.labelMarkup below _) fun _ => .inr rfl

/-- So have nodes one after the other. -/
theorem toMarkupList (h : Extends missing r r') : ∀ (ns : List Node) (level : Nat),
    IsWanting missing (Node.toMarkupList r level ns) ∨
      Node.toMarkupList r' level ns = Node.toMarkupList r level ns
  | [], level => .inr rfl
  | n :: ns, level => by
    rw [Node.toMarkupList, Node.toMarkupList]
    refine isWanting_or_bind_eq (h.toMarkup n level) fun _ => ?_
    exact isWanting_or_bind_eq (h.toMarkupList ns level) fun _ => .inr rfl

/-- So has a label. -/
theorem labelMarkup (h : Extends missing r r') : ∀ (n : Option Node) (level : Nat),
    IsWanting missing (Node.labelMarkup r level n) ∨
      Node.labelMarkup r' level n = Node.labelMarkup r level n
  | none, level => by
    rw [Node.labelMarkup, Node.labelMarkup]
    exact .inr rfl
  | some n, level => by
    rw [Node.labelMarkup, Node.labelMarkup]
    split
    · exact isWanting_or_bind_eq (h.toMarkup n level) fun _ => .inr rfl
    · exact .inr rfl

end

theorem formulaMarkup (h : Extends missing r r') (source : String) (nodes : List Node) :
    IsWanting missing (r.formulaMarkup o source nodes) ∨
      r'.formulaMarkup o source nodes = r.formulaMarkup o source nodes := by
  unfold Registry.formulaMarkup
  exact isWanting_or_bind_eq (h.toMarkupList nodes _) fun _ => .inr rfl

/-! ### Whole texts -/

theorem parse (h : Extends missing r r') (source : String) :
    IsWanting missing (Environment.parse ⟨r, o⟩ source).1 ∨
      Environment.parse ⟨r', o⟩ source = Environment.parse ⟨r, o⟩ source := by
  unfold Environment.parse
  rcases h.document ((Parser.ofText source).report [.parsing source.utf8ByteSize]) with
    hwanting | hsame
  · exact .inl hwanting
  · rw [hsame]
    exact .inr rfl

theorem tree (h : Extends missing r r') (source : String) :
    IsWanting missing (Environment.tree ⟨r, o⟩ source).1 ∨
      Environment.tree ⟨r', o⟩ source = Environment.tree ⟨r, o⟩ source := by
  rw [Environment.tree_eq_onward, Environment.tree_eq_onward]
  apply isWanting_or_onward_eq (h.parse source)
  intro nodes log
  rcases h.formulaMarkup source nodes with hwanting | hsame
  · exact .inl hwanting
  · rw [hsame]
    exact .inr rfl

/-- **An extended registry renders a text as before, unless something was missing.**  What is
reported on the way is the same as well. -/
theorem render (h : Extends missing r r') (source : String) :
    IsWanting missing (Environment.render ⟨r, o⟩ source).1 ∨
      Environment.render ⟨r', o⟩ source = Environment.render ⟨r, o⟩ source := by
  rw [Environment.render_eq_onward, Environment.render_eq_onward]
  apply isWanting_or_onward_eq (h.tree source)
  intro m log
  exact .inr rfl

end Extends

end Registry

/-! ### New commands -/

/-- Whether something fails for want of what a definition provides: a command with one of its
names, or a layout for the kind of node that its command makes. -/
def Definition.Provides (d : Definition) : Reason → Prop
  | .undefinedCommand name => name ∈ d.names
  | .unknownGroup kind => d.command.kind = some kind
  | _ => False

namespace Registry

variable {r r' : Registry} {d : Definition}

/-- A definition extends a registry, unless it replaces a layout: what it adds was not there
before. -/
theorem extends_define (h : r.define d = .ok r')
    (hlayout : ∀ kind, d.command.kind = some kind → d.layout = none ∨ r.layouts kind = none) :
    Extends d.Provides r r' := by
  constructor
  · intro name
    by_cases hname : name ∈ d.names
    · -- the names of a definition that succeeds were free
      exact .inr ⟨exists_define_iff.mp ⟨r', h⟩ name hname, hname⟩
    · exact .inl (command?_define_of_notMem h hname)
  · intro kind
    rw [layouts_define h]
    by_cases hkind : d.command.kind = some kind
    · rw [if_pos hkind]
      -- the definition has no layout, or it is the first for its kind
      rcases hlayout kind hkind with hnone | hnone
      · rw [hnone]
        exact .inl rfl
      · exact .inr ⟨hnone, hkind⟩
    · rw [if_neg hkind]
      exact .inl rfl

/-- **A new command leaves the rendering of other texts as it is.**  Unless a definition replaces
a layout, every text is rendered as before, with every option, or fails as before, except for
those that failed for want of a command with one of its names, or of a layout for its kind of
node. -/
theorem render_define (r r' : Registry) (d : Definition) (hdefine : r.define d = .ok r')
    (hlayout : ∀ kind, d.command.kind = some kind → d.layout = none ∨ r.layouts kind = none)
    (o : Options) (source : String)
    (hother : ∀ e, (Environment.render ⟨r, o⟩ source).1 = .error e → ¬ d.Provides e.reason) :
    Environment.render ⟨r', o⟩ source = Environment.render ⟨r, o⟩ source := by
  rcases (extends_define hdefine hlayout).render source with ⟨e, he, hprovides⟩ | hsame
  · exact absurd hprovides (hother e he)
  · exact hsame

/-- A command for the digit two is new to the standard registry.  Fractions are rendered as
before. -/
theorem render_define_two :
    let two : Definition :=
      { names := ["\\two"]
        command :=
          { kind := some .symbol, handler := some fun _ i => (.node (.symbol i.site "2"), []) } }
    ∃ r' written, Registry.standard.define two = .ok r' ∧ r'.command? "\\two" = some two.command ∧
      (Environment.render ⟨.standard, {}⟩ "\\frac\x7b\x7db").1 = .ok written ∧
      (Environment.render ⟨r', {}⟩ "\\frac\x7b\x7db").1 = .ok written := by
  intro two
  let token := Token.ofPlace "\\frac\x7b\x7db"
  let upper : Node :=
    .group ⟨.math, Span.cover (token "\x7b" 5 6).span (token "\x7d" 6 7).span⟩ []
  let lower : Node := .group ⟨.math, (token "b" 7 8).span⟩ [(token "b" 7 8).node .math]
  let fraction : Node := .fraction ⟨.math, (token "\\frac" 0 5).span⟩ upper lower
  -- the name is new, so that the definition succeeds
  have hfree : (Registry.standard.command? "\\two").isSome = false := by decide +kernel
  obtain ⟨r', hdefine⟩ : ∃ r', Registry.standard.define two = .ok r' := by
    apply exists_define_iff.mpr
    intro name hname
    rw [List.mem_singleton.mp hname]
    simpa using hfree
  have hdrain : ((Parser.ofText "\\frac\x7b\x7db").drain ⟨.standard, {}⟩).toOption =
      some [token "\\frac" 0 5, token "\x7b" 5 6, token "\x7d" 6 7, token "b" 7 8] := by
    decide +kernel
  have hlower : Reads ⟨.standard, {}⟩ (.atom .math ((token "b" 7 8).node .math))
      [token "b" 7 8] [] :=
    .character (by decide) (by decide +kernel) (by decide)
  have hfraction : Reads ⟨.standard, {}⟩ (.atom .math fraction) _ [] :=
    .standard_command (t := token "\\frac" 0 5) .fraction rfl
      (.brace rfl rfl rfl (.finish (endsAt_brace rfl _)) rfl
        (.bare rfl rfl (by decide) (by decide) hlower (.complete rfl))) rfl
  have hparse := Environment.parse_of_drain hdrain
    (.next (by decide) (by decide) hfraction (.finish (endsAt_nil _ _)))
  obtain ⟨m, hm⟩ := Environment.exists_tree_of_parse hparse
  have hrender : (Environment.render ⟨.standard, {}⟩ "\\frac\x7b\x7db").1 = .ok m.serialize := by
    rw [Environment.render_eq, hm]
    rfl
  have hsame := render_define _ r' two hdefine (fun _ _ => .inl rfl) {} "\\frac\x7b\x7db" (by
    intro e he
    rw [hrender] at he
    cases he)
  exact ⟨r', m.serialize, hdefine, command?_define_of_mem hdefine List.mem_cons_self, hrender,
    hsame ▸ hrender⟩

end Registry

end MathMarkup
