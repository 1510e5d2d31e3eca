import MathMarkup.Proofs.Parser.Comparison
import MathMarkup.Proofs.Registry.Standard

/-!
# Comparisons that the standard commands respect

A standard command puts its arguments into one node and looks at nothing else, apart from the
overlaps, which may ask the strict policy.  So it respects every comparison of nodes that goes
through the constructors, as long as the policy has one answer to everything.

## Main definitions

* `Comparison.Congruent` — a comparison that goes through the constructors of nodes.

## Main results

* `IsStandard.respects` — **the standard commands respect every such comparison.**
-/

namespace MathMarkup

namespace Comparison

/-- Whether nodes made of related parts are related, for the nodes that commands make.  Reports do
not matter, and neither does what the strict policy is asked about, so that the commands cannot tell
the two apart. -/
structure Congruent (R : Comparison) : Prop where
  /-- Places that are missing in both are related. -/
  span_none : R.span none none
  node_fraction : ∀ {mode : Mode} {a a' : Option Span} {x x' y y' : Node}, R.span a a' →
    R.node x x' → R.node y y' → R.node (.fraction ⟨mode, a⟩ x y) (.fraction ⟨mode, a'⟩ x' y')
  node_phantom : ∀ {mode : Mode} {a a' : Option Span} {x x' : Node}, R.span a a' →
    R.node x x' → R.node (.phantom ⟨mode, a⟩ x) (.phantom ⟨mode, a'⟩ x')
  node_lap : ∀ {mode : Mode} {a a' : Option Span} {x x' : Node} (side : Side), R.span a a' →
    R.node x x' → R.node (.lap ⟨mode, a⟩ side x) (.lap ⟨mode, a'⟩ side x')
  node_text : ∀ {mode : Mode} {a a' : Option Span} {xs ys : List Node}, R.span a a' →
    List.Forall₂ R.node xs ys → R.node (.text ⟨mode, a⟩ xs) (.text ⟨mode, a'⟩ ys)
  node_arrow : ∀ {mode : Mode} {a a' : Option Span} {x x' y y' : Option Node} (label : String),
    R.span a a' → Option.Rel R.node x x' → Option.Rel R.node y y' →
    R.node (.arrow ⟨mode, a⟩ label x y) (.arrow ⟨mode, a'⟩ label x' y')
  node_arrowPair : ∀ {mode : Mode} {a a' : Option Span}
    {x x' y y' upper upper' lower lower' : Option Node} (label : String), R.span a a' →
    Option.Rel R.node x x' → Option.Rel R.node y y' → Option.Rel R.node upper upper' →
    Option.Rel R.node lower lower' →
    R.node (.arrowPair ⟨mode, a⟩ label x y upper lower)
      (.arrowPair ⟨mode, a'⟩ label x' y' upper' lower')
  /-- Related nodes have related elements. -/
  node_elements : ∀ {n n' : Node}, R.node n n' → List.Forall₂ R.node n.elements n'.elements
  /-- The two policies have the same answer to everything. -/
  resolve : ∀ breach breach' : Breach, R.left.strict.resolve breach = R.right.strict.resolve breach'
  /-- All reports are related. -/
  log : ∀ l l' : Log, R.log l l'

variable {R : Comparison} {i i' : Invocation}

namespace Invocations

/-- The commands stand at related places. -/
theorem span (hR : R.Congruent) (h : R.Invocations i i') :
    R.span (i.token.bind Token.span) (i'.token.bind Token.span) := by
  have htoken := h.token
  generalize i.token = t at htoken
  generalize i'.token = t' at htoken
  cases htoken with
  | none => exact hR.span_none
  | some ht => exact ht.span

/-- The first required arguments are related. -/
theorem head? (h : R.Invocations i i') :
    Option.Rel R.node i.required.head? i'.required.head? := by
  have hrequired := h.required
  generalize i.required = xs at hrequired
  generalize i'.required = ys at hrequired
  cases hrequired with
  | nil => exact .none
  | cons hn _ => exact .some hn

/-- The first optional arguments are related. -/
theorem firstOptional (h : R.Invocations i i') :
    Option.Rel R.node i.firstOptional i'.firstOptional := by
  have hoptional := h.optional
  unfold Invocation.firstOptional
  generalize i.optional = xs at hoptional
  generalize i'.optional = ys at hoptional
  cases hoptional with
  | nil => exact .none
  | cons hn _ => exact hn

end Invocations

/-! ### The standard commands -/

theorem Congruent.missing (hR : R.Congruent) (reason : Reason) :
    R.error ⟨reason, none⟩ ⟨reason, none⟩ := R.error_located reason hR.span_none

theorem respects_arrow (hR : R.Congruent) : R.Respects .arrow := by
  intro i i' hi
  simp only [Command.run, Command.arrow, Handler.arrow, Invocation.site, hi.name, hi.mode]
  exact .node (hR.node_arrow _ (hi.span hR) hi.head? hi.firstOptional) (hR.log _ _)

theorem respects_arrowPair (hR : R.Congruent) : R.Respects .arrowPair := by
  intro i i' hi
  -- the spaces are phantoms of the labels, without a place
  have hspace : ∀ {n n' : Option Node}, Option.Rel R.node n n' →
      Option.Rel R.node (n.map (Handler.labelSpace i'.mode))
        (n'.map (Handler.labelSpace i'.mode)) := by
    intro n n' hn
    cases hn with
    | none => exact .none
    | some hnode => exact .some (hR.node_phantom hR.span_none hnode)
  simp only [Command.run, Command.arrowPair, Handler.arrowPair, Invocation.site, hi.name, hi.mode]
  exact .node (hR.node_arrowPair _ (hi.span hR) hi.head? hi.firstOptional
    (hspace hi.firstOptional) (hspace hi.head?)) (hR.log _ _)

theorem respects_fraction (hR : R.Congruent) : R.Respects .fraction := by
  intro i i' hi
  have hspan := hi.span hR
  have hrequired := hi.required
  simp only [Command.run, Command.fraction, Handler.fraction, Invocation.site, hi.name, hi.mode]
  generalize i.required = xs at hrequired
  generalize i'.required = ys at hrequired
  cases hrequired with
  | nil => exact .fail (hR.missing _) (hR.log _ _)
  | cons hx hrest =>
    cases hrest with
    | nil => exact .fail (hR.missing _) (hR.log _ _)
    | cons hy _ => exact .node (hR.node_fraction hspan hx hy) (hR.log _ _)

theorem respects_phantom (hR : R.Congruent) : R.Respects .phantom := by
  intro i i' hi
  have hspan := hi.span hR
  have hhead := hi.head?
  simp only [Command.run, Command.phantom, Handler.phantom, Invocation.site, hi.name, hi.mode]
  generalize i.required.head? = x at hhead
  generalize i'.required.head? = y at hhead
  cases hhead with
  | none => exact .fail (hR.missing _) (hR.log _ _)
  | some hn => exact .node (hR.node_phantom hspan hn) (hR.log _ _)

theorem respects_text (hR : R.Congruent) : R.Respects .text := by
  intro i i' hi
  have hspan := hi.span hR
  have hhead := hi.head?
  simp only [Command.run, Command.text, Handler.text, Invocation.site, hi.mode]
  generalize i.required.head? = x at hhead
  generalize i'.required.head? = y at hhead
  refine .node (hR.node_text hspan ?_) (hR.log _ _)
  cases hhead with
  | none => exact .nil
  | some hn => exact hR.node_elements hn

theorem replies_lapReply (hR : R.Congruent) (hi : R.Invocations i i') (log log' : Log) :
    R.Replies (Handler.lapReply i, log) (Handler.lapReply i', log') := by
  have hspan := hi.span hR
  have hhead := hi.head?
  simp only [Handler.lapReply, Invocation.site, hi.name, hi.mode]
  generalize i.required.head? = x at hhead
  generalize i'.required.head? = y at hhead
  cases hhead with
  | none => exact .fail (hR.missing _) (hR.log _ _)
  | some hn => exact .node (hR.node_lap _ hspan hn) (hR.log _ _)

theorem respects_lap (hR : R.Congruent) : R.Respects .lap := by
  intro i i' hi
  -- the two are asked about breaches that may differ in their tokens
  have hverdict : (R.left.isStrictAbout (Handler.lapBreach i)).1 =
      (R.right.isStrictAbout (Handler.lapBreach i')).1 :=
    congrArg (· == StrictMode.error) (hR.resolve _ _)
  simp only [Command.run, Command.lap, Handler.lap]
  rw [hi.name, hi.mode]
  split
  · -- the policy is asked about different tokens, and gives the same answer
    generalize R.left.isStrictAbout (Handler.lapBreach i) = answer at hverdict
    generalize R.right.isStrictAbout (Handler.lapBreach i') = answer' at hverdict
    obtain ⟨verdict, log⟩ := answer
    obtain ⟨verdict', log'⟩ := answer'
    obtain rfl : verdict = verdict' := hverdict
    cases verdict with
    | true => exact .fail (R.error_located _ (hi.span hR)) (hR.log _ _)
    | false => exact replies_lapReply hR hi log log'
  · exact replies_lapReply hR hi [] []

end Comparison

/-- **The standard commands respect every comparison that goes through the constructors.** -/
theorem IsStandard.respects {R : Comparison} (hR : R.Congruent) {name : String} {c : Command}
    (h : IsStandard name c) : R.Respects c := by
  cases h with
  | arrow => exact Comparison.respects_arrow hR
  | arrowPair => exact Comparison.respects_arrowPair hR
  | lap => exact Comparison.respects_lap hR
  | fraction => exact Comparison.respects_fraction hR
  | phantom => exact Comparison.respects_phantom hR
  | text => exact Comparison.respects_text hR

theorem Comparison.Congruent.respectsAll {R : Comparison} (hR : R.Congruent) :
    R.RespectsAll .standard :=
  fun _ _ hcommand => (Registry.command?_standard_iff.mp hcommand).respects hR

/-- A policy that is no rule has one answer to everything, since only a rule looks at what it is
asked. -/
theorem Strictness.resolve_eq {policy : Strictness} (h : ∀ answer, policy ≠ .rule answer)
    (breach breach' : Breach) : policy.resolve breach = policy.resolve breach' := by
  cases policy with
  | mode m => rfl
  | flag strict => rfl
  | rule answer => exact absurd rfl (h answer)

end MathMarkup
