import Mathlib.Data.List.Basic
import Mathlib.Tactic.SplitIfs
import MathMarkup.Compile

/-!
# What the standard registry holds

The standard registry is made by registering one family after the other.  Here is what
comes of it: which names it knows, what each of them does, and that every kind of node
is laid out by its own rule.

## Main definitions

* `IsStandard` — the standard commands with their names.
* `standardNames` — the list of these names.

## Main results

* `Registry.command?_standard_iff` — the standard registry has these commands and no
  others.
* `Registry.layouts_standard` — every kind has its own layout.
* `IsStandard.run_ne_readUntil`, `IsStandard.isUsage_of_fail`, `IsStandard.exists_node` — no
  standard command takes what follows it, each one fails only where it is used wrongly,
  and with its arguments it makes a node.
-/

namespace MathMarkup

/-- The standard commands, each with the names it has. -/
inductive IsStandard : String → Command → Prop where
  /-- Arrows. -/
  | arrow {name : String} (h : name ∈ arrowNames) : IsStandard name .arrow
  /-- Pairs of arrows. -/
  | arrowPair {name : String} (h : name ∈ arrowPairNames) : IsStandard name .arrowPair
  /-- Overlaps. -/
  | lap {name : String} (h : name ∈ lapNames) : IsStandard name .lap
  /-- Fractions. -/
  | fraction : IsStandard "\\frac" .fraction
  /-- Phantoms. -/
  | phantom : IsStandard "\\hphantom" .phantom
  /-- Text. -/
  | text : IsStandard "\\text" .text

/-- All names of standard commands. -/
def standardNames : List String :=
  arrowNames ++ (arrowPairNames ++ (lapNames ++ ["\\frac", "\\hphantom", "\\text"]))

namespace Registry

/-! ### Names -/

/-- The table of the standard registry, the newest commands first. -/
theorem commands_standard : standard.commands =
    ["\\text"].map (·, .text) ++ (["\\hphantom"].map (·, .phantom) ++
      (["\\frac"].map (·, .fraction) ++ (lapNames.reverse.map (·, .lap) ++
        (arrowPairNames.reverse.map (·, .arrowPair) ++ arrowNames.reverse.map (·, .arrow))))) := by
  rfl

theorem lookup_map_const (names : List String) (c : Command) (name : String) :
    (names.map (·, c)).lookup name = if name ∈ names then some c else none := by
  induction names with
  | nil => rfl
  | cons other names ih =>
    by_cases h : name = other
    · simp [h]
    · have hne : (name == other) = false := by simpa using h
      simp [List.lookup_cons, hne, ih, h]

/-- The command with a name, by the families in the order in which they are looked
through. -/
theorem command?_standard (name : String) :
    standard.command? name =
      if name = "\\text" then some .text
      else if name = "\\hphantom" then some .phantom
      else if name = "\\frac" then some .fraction
      else if name ∈ lapNames then some .lap
      else if name ∈ arrowPairNames then some .arrowPair
      else if name ∈ arrowNames then some .arrow
      else none := by
  have hsingle : ∀ other : String, name ∈ [other] ↔ name = other := fun _ => List.mem_singleton
  rw [command?, commands_standard]
  simp only [List.lookup_append, lookup_map_const, List.mem_reverse, hsingle]
  split_ifs <;> rfl

/-- The standard registry has the standard commands and no others.  Later proofs go by cases on
`IsStandard` and never look at the table itself. -/
theorem command?_standard_iff {name : String} {c : Command} :
    standard.command? name = some c ↔ IsStandard name c := by
  rw [command?_standard]
  constructor
  · intro h
    split_ifs at h with htext hphantom hfraction hlap hpair harrow <;> cases h
    · exact htext ▸ .text
    · exact hphantom ▸ .phantom
    · exact hfraction ▸ .fraction
    · exact .lap hlap
    · exact .arrowPair hpair
    · exact .arrow harrow
  · -- no name belongs to two families, so the order of the search is irrelevant
    have hlap : ∀ name ∈ lapNames,
        name ≠ "\\text" ∧ name ≠ "\\hphantom" ∧ name ≠ "\\frac" := by decide
    have hpair : ∀ name ∈ arrowPairNames, name ≠ "\\text" ∧ name ≠ "\\hphantom" ∧
        name ≠ "\\frac" ∧ name ∉ lapNames := by decide
    have harrow : ∀ name ∈ arrowNames, name ≠ "\\text" ∧ name ≠ "\\hphantom" ∧
        name ≠ "\\frac" ∧ name ∉ lapNames ∧ name ∉ arrowPairNames := by decide
    intro h
    cases h with
    | arrow h =>
      obtain ⟨h₁, h₂, h₃, h₄, h₅⟩ := harrow name h
      simp [h, h₁, h₂, h₃, h₄, h₅]
    | arrowPair h =>
      obtain ⟨h₁, h₂, h₃, h₄⟩ := hpair name h
      simp [h, h₁, h₂, h₃, h₄]
    | lap h =>
      obtain ⟨h₁, h₂, h₃⟩ := hlap name h
      simp [h, h₁, h₂, h₃]
    | fraction => simp
    | phantom => simp
    | text => simp

/-! ### Layouts -/

/-- Every kind is laid out by its own rule. -/
theorem layouts_standard (k : NodeKind) : standard.layouts k = some k := by
  -- one look at each of the kinds
  have hall : ∀ k ∈ NodeKind.all, standard.layouts k = some k := by decide +kernel
  exact hall k k.mem_all

end Registry

namespace IsStandard

variable {name : String} {c : Command}

/-! ### Properties of the standard commands -/

theorem mem_names (h : IsStandard name c) : name ∈ standardNames := by
  cases h with
  | arrow h | arrowPair h | lap h => simp [standardNames, h]
  | fraction | phantom | text => simp [standardNames]

theorem isControl (h : IsStandard name c) (span : Option Span) :
    Token.isControl ⟨name, span⟩ = true := by
  have hnames : ∀ name ∈ standardNames, Token.isControl ⟨name, none⟩ = true := by
    decide +kernel
  exact hnames name h.mem_names

/-- No standard command has the name of a token that is no control sequence. -/
theorem name_ne (h : IsStandard name c) {s : String} (hs : Token.isControl ⟨s, none⟩ = false) :
    name ≠ s := by
  rintro rfl
  rw [h.isControl none] at hs
  cases hs

/-- Every standard command requires an argument. -/
theorem required_pos (h : IsStandard name c) : 0 < c.required := by
  cases h <;> decide

/-- No standard command takes what follows it. -/
theorem run_ne_readUntil (h : IsStandard name c) (o : Options) (i : Invocation)
    (stop : Option String) (finish : List Node → Node) :
    (c.run o i).1 ≠ .readUntil stop finish := by
  intro heq
  cases h with
  | arrow | arrowPair | text => cases heq
  | fraction | phantom =>
    simp only [Command.run, Command.fraction, Command.phantom, Handler.fraction,
      Handler.phantom] at heq
    split at heq <;> cases heq
  | lap =>
    -- whatever the policy says, an overlap makes a node or fails
    simp only [Command.run, Command.lap, Handler.lap, Handler.lapReply] at heq
    split at heq
    · split at heq
      · cases heq
      · split at heq <;> cases heq
    · split at heq <;> cases heq

/-- Only overlaps look at the options and report anything.  What the other commands reply depends on
nothing but how they are invoked. -/
theorem eq_lap_or_run_eq (h : IsStandard name c) (i : Invocation) :
    c = .lap ∨ ∃ reply, ∀ o, c.run o i = (reply, []) := by
  cases h with
  | arrow | arrowPair | text => exact .inr ⟨_, fun _ => rfl⟩
  | lap => exact .inl rfl
  | fraction =>
    refine .inr ⟨(Command.fraction.run {} i).1, fun o => ?_⟩
    simp only [Command.run, Command.fraction, Handler.fraction]
    split <;> rfl
  | phantom =>
    refine .inr ⟨(Command.phantom.run {} i).1, fun o => ?_⟩
    simp only [Command.run, Command.phantom, Handler.phantom]
    split <;> rfl

/-- Of the options only the strict policy concerns the standard commands, so that others can be
changed. -/
theorem run_congr (h : IsStandard name c) {o o' : Options} (hstrict : o'.strict = o.strict)
    (i : Invocation) : c.run o' i = c.run o i := by
  rcases h.eq_lap_or_run_eq i with rfl | ⟨reply, hrun⟩
  · simp only [Command.run, Command.lap, Handler.lap, Options.isStrictAbout, Options.consult,
      hstrict]
  · rw [hrun, hrun]

/-- A standard command fails because an argument is missing, or because it is for text mode
only. -/
theorem eq_of_fail (h : IsStandard name c) {o : Options} {i : Invocation} {e : CompileError}
    (hfail : (c.run o i).1 = .fail e) :
    e = ⟨.missingArgument i.name, none⟩ ∨
      e = .atToken (.textModeOnly i.name (mathForm i.name)) i.token := by
  cases h with
  | arrow | arrowPair | text => cases hfail
  | fraction | phantom =>
    simp only [Command.run, Command.fraction, Command.phantom, Handler.fraction,
      Handler.phantom] at hfail
    split at hfail <;> cases hfail
    exact .inl rfl
  | lap =>
    have hreply : Handler.lapReply i = .fail e → e = ⟨.missingArgument i.name, none⟩ := by
      intro hreply
      unfold Handler.lapReply at hreply
      split at hreply <;> cases hreply
      rfl
    simp only [Command.run, Command.lap, Handler.lap] at hfail
    split at hfail
    · split at hfail
      · cases hfail
        exact .inr rfl
      · exact .inl (hreply hfail)
    · exact .inl (hreply hfail)

/-- A standard command fails only where it is used wrongly. -/
theorem isUsage_of_fail (h : IsStandard name c) {o : Options} {i : Invocation}
    {e : CompileError} (hfail : (c.run o i).1 = .fail e) : e.reason.isUsage = true := by
  rcases h.eq_of_fail hfail with rfl | rfl
  · rfl
  · rfl

/-- With its arguments a standard command makes a node, unless the strict policy makes an
error of irregular input. -/
theorem exists_node (h : IsStandard name c) {o : Options}
    (hstrict : ∀ breach, o.strict.resolve breach ≠ .error) {i : Invocation}
    (hlength : i.required.length = c.required) : ∃ n, (c.run o i).1 = .node n := by
  cases h with
  | arrow | arrowPair | text => exact ⟨_, rfl⟩
  | fraction =>
    obtain ⟨a, b, hargs⟩ := List.length_eq_two.mp hlength
    refine ⟨.fraction i.site a b, ?_⟩
    simp only [Command.run, Command.fraction, Handler.fraction, hargs]
  | phantom =>
    obtain ⟨a, hargs⟩ := List.length_eq_one_iff.mp hlength
    refine ⟨.phantom i.site a, ?_⟩
    simp only [Command.run, Command.phantom, Handler.phantom, hargs, List.head?_cons]
  | lap =>
    obtain ⟨a, hargs⟩ := List.length_eq_one_iff.mp hlength
    have hreply : Handler.lapReply i = .node (.lap i.site (lapSide i.name) a) := by
      simp only [Handler.lapReply, hargs, List.head?_cons]
    have hignored : (o.isStrictAbout (Handler.lapBreach i)).1 = false := by
      simpa [Options.isStrictAbout, Options.consult] using hstrict (Handler.lapBreach i)
    simp only [Command.run, Command.lap, Handler.lap]
    split
    · split
      · rename_i hasked
        simp [hasked] at hignored
      · exact ⟨_, hreply⟩
    · exact ⟨_, hreply⟩

end IsStandard

end MathMarkup
