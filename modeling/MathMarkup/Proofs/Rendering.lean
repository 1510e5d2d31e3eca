import MathMarkup.Proofs.Node.Formed
import MathMarkup.Proofs.Parser.Failure

/-!
# Rendering what was read

Laying out nodes can fail: a kind may have no layout, or that of another kind, and a pair of
arrows may have a name that stands for no arrows.  With the standard registry none of this
happens to nodes that were read from a text.  So a text is rendered as soon as it is read,
and the failures of rendering are those of reading.

## Main definitions

* `Reason.isInternal` — the causes that lie in the registry or in the writer.

## Main results

* `Node.Formed.exists_toMarkup` — well-formed nodes have markup.
* `Environment.render_standard` — what is read is rendered, and rendering fails because of
  the input only.
-/

namespace MathMarkup

/-- Whether a cause lies in the registry, in nodes that do not fit it, or in the writer. -/
def Reason.isInternal : Reason → Bool
  | alreadyDefined .. | noHandler .. | unknownGroup .. | kindMismatch .. | unknownArrowPair ..
  | writeFailed => true
  | _ => false

theorem Reason.IsInputFailure.isInternal_eq_false {r : Reason} (h : r.IsInputFailure) :
    r.isInternal = false := by
  cases r with
  | alreadyDefined | noHandler | unknownGroup | kindMismatch | unknownArrowPair | writeFailed =>
    rcases h with husage | hstrict | hlimit
    · cases husage
    · cases hstrict
    · cases hlimit
  | _ => rfl

namespace Node

variable {level : Nat}

/-! ### Nodes with standard layouts -/

/-- With the standard layouts every node is laid out by the rule of its own kind. -/
theorem checkLayout_standard (n : Node) : checkLayout .standard n = .ok () := by
  simp [checkLayout, Registry.layouts_standard, expectKind]

/-- Nodes that have markup one by one have it together. -/
theorem exists_toMarkupList {r : Registry} {ns : List Node}
    (h : ∀ n ∈ ns, ∃ m, toMarkup r level n = .ok m) : ∃ ms, toMarkupList r level ns = .ok ms := by
  induction ns with
  | nil => exact ⟨[], rfl⟩
  | cons n ns ih =>
    rw [List.forall_mem_cons] at h
    obtain ⟨m, hm⟩ := h.1
    obtain ⟨ms, hms⟩ := ih h.2
    exact ⟨m :: ms, by rw [toMarkupList, hm, hms]; rfl⟩

/-- A label that has markup can be put at an arrow, and so can a missing one. -/
theorem exists_labelMarkup {r : Registry} {label : Option Node}
    (h : ∀ n ∈ label, ∃ m, toMarkup r level n = .ok m) :
    ∃ m, labelMarkup r level label = .ok m := by
  cases label with
  | none => exact ⟨none, by rw [labelMarkup]; rfl⟩
  | some n =>
    obtain ⟨m, hm⟩ := h n rfl
    rw [labelMarkup, hm]
    split
    · exact ⟨some m, rfl⟩
    · exact ⟨none, rfl⟩

/-- A group has markup exactly if its nodes have. -/
theorem exists_toMarkup_group {s : Site} {body : List Node} :
    (∃ m, toMarkup .standard level (.group s body) = .ok m) ↔
      ∃ ms, toMarkupList .standard level body = .ok ms := by
  rw [toMarkup, checkLayout_standard]
  cases toMarkupList .standard level body with
  | error e => simp [bind, Except.bind]
  | ok ms => simp [bind, Except.bind, pure, Except.pure]

/-- A phantom has markup if its body has. -/
theorem exists_toMarkup_phantom {s : Site} {a : Node}
    (h : ∃ m, toMarkup .standard level a = .ok m) :
    ∃ m, toMarkup .standard level (.phantom s a) = .ok m := by
  -- the elements of the body are those of a group, or the body alone
  obtain ⟨ms, hms⟩ : ∃ ms, toMarkupList .standard level a.elements = .ok ms := by
    cases a with
    | group t body => exact exists_toMarkup_group.mp h
    | _ => exact exists_toMarkupList (by simpa [elements] using h)
  exact ⟨Layout.phantom ms, by rw [toMarkup_phantom, checkLayout_standard, hms]; rfl⟩

/-- An arrow has markup if its labels have. -/
theorem exists_arrowMarkup {r : Registry} {name : String} {body below : Option Node}
    (hbody : ∀ n ∈ body, ∃ m, toMarkup r (labelLevel level) n = .ok m)
    (hbelow : ∀ n ∈ below, ∃ m, toMarkup r (labelLevel level) n = .ok m) :
    ∃ m, r.arrowMarkup level name body below = .ok m := by
  obtain ⟨top, htop⟩ := exists_labelMarkup hbody
  obtain ⟨bottom, hbottom⟩ := exists_labelMarkup hbelow
  exact ⟨_, by rw [Registry.arrowMarkup, htop, hbottom]; rfl⟩

/-- Every pair of arrows consists of two arrows. -/
theorem exists_arrowPair {name : String} (h : name ∈ arrowPairNames) :
    ∃ upper lower, arrowPair? name = some (upper, lower) := by
  -- one look at each of the names
  have hsome : ∀ name ∈ arrowPairNames, (arrowPair? name).isSome = true := by decide
  obtain ⟨⟨upper, lower⟩, hpair⟩ := Option.isSome_iff_exists.mp (hsome name h)
  exact ⟨upper, lower, hpair⟩

/-- **Well-formed nodes have markup at every level**, since the names of their pairs of arrows are
known. -/
theorem Formed.exists_toMarkup {p : String → Prop} {mode : Mode} {n : Node}
    (h : n.Formed p mode) (level : Nat) : ∃ m, toMarkup .standard level n = .ok m := by
  -- on the nodes; the level is another one inside labels
  induction h generalizing level with
  | letter | symbol => exact ⟨_, by rw [toMarkup, checkLayout_standard]; rfl⟩
  | group hbody ih =>
    exact exists_toMarkup_group.mpr (exists_toMarkupList fun n hn => ih n hn level)
  | @text mode span body hbody ih =>
    obtain ⟨ms, hms⟩ := exists_toMarkupList fun n hn => ih n hn level
    rw [toMarkup, checkLayout_standard]
    cases hplain : plainTextList? body with
    | some t => exact ⟨.leaf .mtext t, rfl⟩
    | none => exact ⟨.row ms, by rw [hms]; rfl⟩
  | fraction _ _ _ _ iha ihb =>
    obtain ⟨upper, hupper⟩ := iha level
    obtain ⟨lower, hlower⟩ := ihb level
    exact ⟨_, by rw [toMarkup, checkLayout_standard, hupper, hlower]; rfl⟩
  | phantom _ _ ih => exact exists_toMarkup_phantom (ih level)
  | lap _ _ ih =>
    obtain ⟨inner, hinner⟩ := ih level
    exact ⟨_, by rw [toMarkup, checkLayout_standard, hinner]; rfl⟩
  | @arrow span name a below _ _ _ _ _ _ iha ihbelow =>
    obtain ⟨labelled, hlabelled⟩ : ∃ m, Registry.arrowMarkup .standard level name (some a) below =
        .ok m :=
      exists_arrowMarkup (by simpa using iha (labelLevel level))
        fun b hb => ihbelow b hb (labelLevel level)
    exact ⟨_, by rw [toMarkup_arrow, checkLayout_standard, hlabelled]; rfl⟩
  | @arrowPair span name a below hname _ _ _ _ _ iha ihbelow =>
    obtain ⟨upper, lower, hpair⟩ := exists_arrowPair hname
    -- each arrow has a label of its own and leaves room for that of the other
    have hspace : ∀ b, (∃ m, toMarkup .standard (labelLevel level) b = .ok m) →
        ∃ m, toMarkup .standard (labelLevel level) (Handler.labelSpace .math b) = .ok m :=
      fun b => exists_toMarkup_phantom
    obtain ⟨top, htop⟩ : ∃ m, labelMarkup .standard (labelLevel level) (some a) = .ok m :=
      exists_labelMarkup (by simpa using iha (labelLevel level))
    obtain ⟨bottom, hbottom⟩ : ∃ m, labelMarkup .standard (labelLevel level)
        (below.map (Handler.labelSpace .math)) = .ok m := by
      refine exists_labelMarkup fun n hn => ?_
      obtain ⟨b, hb, rfl⟩ := Option.map_eq_some_iff.mp hn
      exact hspace b (ihbelow b hb (labelLevel level))
    obtain ⟨lowerTop, hlowerTop⟩ : ∃ m, labelMarkup .standard (labelLevel level)
        (some (Handler.labelSpace .math a)) = .ok m :=
      exists_labelMarkup (by simpa using hspace a (iha (labelLevel level)))
    obtain ⟨lowerBottom, hlowerBottom⟩ :=
      exists_labelMarkup fun b hb => ihbelow b hb (labelLevel level)
    rw [toMarkup, checkLayout_standard, hpair, htop, hbottom, hlowerTop, hlowerBottom]
    exact ⟨_, rfl⟩

end Node

/-! ### Formulas -/

namespace Environment

variable {o : Options} {source : String}

/-- A text that is read has a tree, because its nodes are well-formed. -/
theorem exists_tree_of_parse {nodes : List Node}
    (h : (parse ⟨.standard, o⟩ source).1 = .ok nodes) :
    ∃ m, (tree ⟨.standard, o⟩ source).1 = .ok m := by
  have hformed : ∀ n ∈ nodes, n.Formed (fun _ => True) .math :=
    formed_of_parse h fun _ _ _ _ _ => trivial
  obtain ⟨ms, hms⟩ := Node.exists_toMarkupList fun n hn =>
    (hformed n hn).exists_toMarkup (if o.displayMode then displayLevel else textLevel)
  obtain ⟨log, hparse⟩ : ∃ log, parse ⟨.standard, o⟩ source = (.ok nodes, log) :=
    ⟨_, Prod.ext h rfl⟩
  rw [tree, hparse]
  simp only [Registry.formulaMarkup, hms]
  exact ⟨_, rfl⟩

/-- A tree is written out, and a failure is passed on. -/
theorem render_eq (env : Environment) (source : String) :
    (env.render source).1 = (env.tree source).1.map Markup.serialize := by
  rw [render]
  rcases env.tree source with ⟨_ | m, log⟩ <;> rfl

theorem tree_of_parse {env : Environment} {nodes : List Node}
    (h : (env.parse source).1 = .ok nodes) :
    (env.tree source).1 = env.registry.formulaMarkup env.options source nodes := by
  rw [tree]
  rcases hparse : env.parse source with ⟨_ | nodes', log⟩ <;> rw [hparse] at h <;> cases h
  rfl

theorem tree_of_parse_error {env : Environment} {e : CompileError}
    (h : (env.parse source).1 = .error e) : (env.tree source).1 = .error e := by
  rw [tree]
  rcases hparse : env.parse source with ⟨_ | nodes, log⟩ <;> rw [hparse] at h <;> cases h
  rfl

/-- **What is read is rendered.**  With the standard registry and any options, a text that is
read has a tree and a written form; and where there is no written form, the text was not
read, either because it uses something wrongly, or because of the strict policy, or because
of the limit for macros. -/
theorem render_standard (o : Options) (source : String) :
    (∀ nodes, (parse ⟨.standard, o⟩ source).1 = .ok nodes →
      ∃ m, (tree ⟨.standard, o⟩ source).1 = .ok m ∧
        (render ⟨.standard, o⟩ source).1 = .ok m.serialize) ∧
    ∀ e, (render ⟨.standard, o⟩ source).1 = .error e →
      (parse ⟨.standard, o⟩ source).1 = .error e ∧ e.reason.IsInputFailure ∧
        e.reason.isInternal = false := by
  constructor
  · intro nodes hparse
    obtain ⟨m, hm⟩ := exists_tree_of_parse hparse
    exact ⟨m, hm, by rw [render_eq, hm]; rfl⟩
  · intro e hrender
    rw [render_eq] at hrender
    cases hparse : (parse ⟨.standard, o⟩ source).1 with
    -- what is read has a tree, so this is no failure
    | ok nodes =>
      obtain ⟨m, hm⟩ := exists_tree_of_parse hparse
      rw [hm] at hrender
      cases hrender
    | error e' =>
      rw [tree_of_parse_error hparse] at hrender
      cases hrender
      have hinput := isInputFailure_of_parse rfl hparse
      exact ⟨rfl, hinput, hinput.isInternal_eq_false⟩

end Environment

end MathMarkup
