import MathMarkup.Proofs.Layout.Validity
import MathMarkup.Proofs.Node.Occurrence

/-!
# The two arrows of a pair have matching labels

The arrows of a pair lie one above the other and have to be equally long.  So the label that one
of them carries is repeated at the other one, as space: the elements of the label are laid out a
second time, at the same level, and hidden.  A label without content is left out, and then the
other arrow must leave it out as well, though there it is inside a phantom.

The two arrows may be of different classes of length.  If they are of the same class, the places
for their labels do not differ in their attributes either.

## Main definitions

* `Layout.Counterparts` — the places for a label at the two arrows.
* `Layout.Carries`, `Layout.Stacked` — an arrow with its labels, and where the two arrows stand.
* `Layout.MatchingLabels` — a pair of arrows both of whose labels have such places.

## Main results

* `Node.toMarkup_labelSpace` — the space for a label, in terms of the elements of the label.
* `Layout.exists_counterparts` — what is made of a label at the two arrows.
* `Environment.matchingLabels_of_parse` — **the arrows of every pair that is read match.**
-/

namespace MathMarkup

namespace Node

/-! ### Space for a label -/

/-- The space for a label takes up room exactly if the label does, so that both are left out or
neither is. -/
theorem hasContent_labelSpace (mode : Mode) (n : Node) :
    (Handler.labelSpace mode n).hasContent = n.hasContent := rfl

/-- The space for a label hides the elements of the label. -/
theorem toMarkup_labelSpace (level : Nat) (mode : Mode) (n : Node) :
    toMarkup .standard level (Handler.labelSpace mode n) =
      (toMarkupList .standard level n.elements).map Layout.phantom := by
  rw [Handler.labelSpace, toMarkup_phantom, Layout.checkLayout_bind]
  cases toMarkupList .standard level n.elements <;> rfl

end Node

namespace Layout

/-! ### Places for one label -/

/-- The places for a label at the two arrows of a pair, given the level at which labels are set:
that at the arrow which carries the label, and that at the other arrow. -/
structure Counterparts (level : Nat) (label : Option Node) (own space : Markup) : Prop where
  /-- Both are places for labels. -/
  padded : own.tag? = some .mpadded ∧ space.tag? = some .mpadded
  /-- One of them is empty exactly if the other one is. -/
  empty_iff : own.children = [] ↔ space.children = []
  /-- They are empty exactly if there is no label, or nothing in it. -/
  empty_iff_label : own.children = [] ↔ ∀ n ∈ label, n.elements = []
  /-- Otherwise one of them holds the label, and the other one the elements of the label, laid out
  at the same level and hidden: they are the children of an `mphantom`, which stands alone in an
  `mpadded` without height. -/
  filled : own.children ≠ [] → ∃ site items inner hidden, label = some (.group site items) ∧
    Node.toMarkup .standard level (.group site items) = .ok inner ∧ own.children = [inner] ∧
    Node.toMarkupList .standard level items = .ok hidden ∧
    space.children = [.element .mpadded [("depth", "0px"), ("height", "0px")]
      [.element .mphantom [] hidden]]

/-- The attributes of the place for a label depend on whether there is a label, and not on what
it is. -/
theorem attributes_label {own space : Option Markup} (h : own.isSome = space.isSome)
    (length : ArrowLength) (level : Nat) :
    (label length level own).attributes = (label length level space).attributes := by
  cases own with
  | none =>
    cases space with
    | none => rfl
    | some m => cases h
  | some m =>
    cases space with
    | none => cases h
    | some m' => rfl

/-- Where there is nothing to be seen of a label, both places for it are empty. -/
theorem counterparts_of_empty {level : Nat} {content : Option Node}
    (h : ∀ n ∈ content, n.elements = []) (length length' : ArrowLength) :
    Counterparts level content (label length level none) (label length' level none) where
  padded := ⟨rfl, rfl⟩
  empty_iff := ⟨fun _ => rfl, fun _ => rfl⟩
  empty_iff_label := ⟨fun _ => h, fun _ => rfl⟩
  filled hne := absurd rfl hne

/-- A label with something in it is shown at one place, and leaves room at the other. -/
theorem counterparts_of_items {level : Nat} {site : Site} {items : List Node} {inner : Markup}
    {hidden : List Markup} (hitems : items ≠ [])
    (hinner : Node.toMarkup .standard level (.group site items) = .ok inner)
    (hhidden : Node.toMarkupList .standard level items = .ok hidden)
    (length length' : ArrowLength) :
    Counterparts level (some (.group site items)) (label length level (some inner))
      (label length' level (some (phantom hidden))) where
  padded := ⟨rfl, rfl⟩
  empty_iff := ⟨nofun, nofun⟩
  empty_iff_label := ⟨nofun, fun hnone => absurd (hnone _ rfl) hitems⟩
  filled _ := ⟨site, items, inner, hidden, rfl, hinner, rfl, hhidden, rfl⟩

/-- What is made of a label at the two arrows: it is shown at one and leaves room at the other,
or it is left out at both. -/
theorem exists_counterparts {p : String → Prop} {content : Option Node}
    (hformed : ∀ n ∈ content, n.Formed p .math) (hgroup : ∀ n ∈ content, n.kind = .group)
    (level : Nat) :
    ∃ own space, Node.labelMarkup .standard level content = .ok own ∧
      Node.labelMarkup .standard level (content.map (Handler.labelSpace .math)) = .ok space ∧
      own.isSome = space.isSome ∧
      ∀ length length', Counterparts level content (label length level own)
        (label length' level space) := by
  cases content with
  | none =>
    refine ⟨none, none, ?_, ?_, rfl, counterparts_of_empty nofun⟩
    · rw [Node.labelMarkup]
      rfl
    · rw [Option.map_none, Node.labelMarkup]
      rfl
  | some n =>
    -- a label is a group, so it is empty or has elements
    obtain ⟨span, items, rfl, hitems⟩ := (hformed n rfl).exists_group (hgroup n rfl)
    rw [Option.map_some, Node.labelMarkup, Node.labelMarkup, Node.hasContent_labelSpace,
      Node.toMarkup_labelSpace]
    cases items with
    | nil =>
      refine ⟨none, none, rfl, rfl, rfl, counterparts_of_empty ?_⟩
      intro n hn
      cases hn
      rfl
    | cons x xs =>
      obtain ⟨inner, hinner⟩ := (hformed _ rfl).exists_toMarkup level
      -- the elements that are hidden have been laid out for the label already
      obtain ⟨hidden, hhidden⟩ := Node.exists_toMarkup_group.mp ⟨inner, hinner⟩
      refine ⟨some inner, some (phantom hidden), ?_, ?_, rfl,
        counterparts_of_items (List.cons_ne_nil x xs) hinner hhidden⟩
      · rw [hinner]
        rfl
      · rw [Node.elements, hhidden]
        rfl

/-! ### Pairs of arrows -/

/-- An arrow with its two labels: a `munderover` of the character, the place for the label below
and the place for the label on top. -/
def Carries (name : String) (under above arrow : Markup) : Prop :=
  ∃ attributes, arrow =
    .element .munderover [] [.element .mo attributes [.text (glyph name)], under, above]

/-- Where the two arrows of a pair stand: the upper one is raised and comes first, and the lower
one follows as it is.  Only where the upper arrow is the short one the lower one comes first. -/
structure Stacked (name : String) (top bottom pair : Markup) : Prop where
  /-- The pair has space around it. -/
  padded : pair.tag? = some .mpadded
  /-- The first arrow hardly has a width, so that both start at the same place. -/
  children_eq : pair.children =
    if name = "\\equilibriumLeft" then
      [.element .mpadded [("width", "0.5em")] [bottom],
        .element .mpadded [("depth", "-0.3em"), ("height", "+0.3em"), ("voffset", "0.3em")] [top]]
    else
      [.element .mpadded [("depth", "-0.3em"), ("height", "+0.3em"), ("voffset", "0.3em"),
        ("width", if name = "\\equilibriumRight" then "0.5em" else "0")] [top], bottom]

/-- A pair of arrows that match: each label has its places at the two arrows, at the level of
labels, and arrows of the same class have places with the same attributes. -/
inductive MatchingLabels (level : Nat) (name : String) (body below : Option Node) :
    Markup → Prop where
  /-- The upper arrow carries the label on top, the lower one the label below. -/
  | intro {upper lower : String} {above above' under under' top bottom pair : Markup}
      (hpair : arrowPair? name = some (upper, lower))
      (htop : Carries upper under above top)
      (hbottom : Carries lower under' above' bottom)
      (hstacked : Stacked name top bottom pair)
      (hbody : Counterparts (max level 2) body above above')
      (hbelow : Counterparts (max level 2) below under' under)
      (hsame : ArrowLength.ofName upper = ArrowLength.ofName lower →
        above.attributes = above'.attributes ∧ under.attributes = under'.attributes) :
      MatchingLabels level name body below pair

theorem carries_labelled (name : String) (level : Nat) (above below : Option Markup) :
    Carries name (label (.ofName name) (labelLevel level) below)
      (label (.ofName name) (labelLevel level) above) (labelled name level above below) :=
  ⟨_, rfl⟩

theorem stacked_arrowPair (name : String) (top bottom : Markup) :
    Stacked name top bottom (arrowPair name top bottom) where
  padded := rfl
  children_eq := rfl

/-- **The arrows of a well-formed pair match**: the label on top is that of the upper arrow, and the
label below that of the lower one. -/
theorem matchingLabels_of_formed {p : String → Prop} {mode : Mode} {site : Site} {name : String}
    {body below upperBelow lowerBody : Option Node}
    (h : (Node.arrowPair site name body below upperBelow lowerBody).Formed p mode) (level : Nat) :
    ∃ m, Node.toMarkup .standard level
        (.arrowPair site name body below upperBelow lowerBody) = .ok m ∧
      MatchingLabels level name body below m := by
  cases h with
  | @arrowPair span _ a _ hname ha hgroup hbelow hbelowGroup _ =>
    obtain ⟨upper, lower, hpair⟩ := Node.exists_arrowPair hname
    obtain ⟨own, space, hown, hspace, hbody, hplaces⟩ := @exists_counterparts p (some a)
      (by simpa using ha) (by simpa using hgroup) (labelLevel level)
    obtain ⟨own', space', hown', hspace', hunder, hplaces'⟩ :=
      exists_counterparts hbelow hbelowGroup (labelLevel level)
    -- each arrow has one label of its own and the space for that of the other
    refine ⟨arrowPair name (labelled upper level own space') (labelled lower level space own'), ?_,
      .intro hpair (carries_labelled upper level own space')
        (carries_labelled lower level space own') (stacked_arrowPair name _ _)
        (hplaces (.ofName upper) (.ofName lower)) (hplaces' (.ofName lower) (.ofName upper)) ?_⟩
    · rw [Option.map_some] at hspace
      rw [Node.toMarkup, checkLayout_bind, hpair, hown, hspace', hspace, hown']
      rfl
    · intro hlength
      rw [hlength]
      exact ⟨attributes_label hbody _ _, attributes_label hunder.symm _ _⟩

end Layout

namespace Environment

/-- **The arrows of every pair that is read match.**  Wherever a pair of arrows occurs in what is
read, it has markup at every level, and the places for its labels at the two arrows match. -/
theorem matchingLabels_of_parse (o : Options) (source : String) (nodes : List Node)
    (h : (parse ⟨.standard, o⟩ source).1 = .ok nodes) (mode : Mode) (site : Site) (name : String)
    (body below upperBelow lowerBody : Option Node)
    (hn : Node.Occurs .math nodes mode (.arrowPair site name body below upperBelow lowerBody))
    (level : Nat) :
    ∃ m, Node.toMarkup .standard level
        (.arrowPair site name body below upperBelow lowerBody) = .ok m ∧
      Layout.MatchingLabels level name body below m := by
  have hformed : ∀ x ∈ nodes, x.Formed (fun _ => True) .math :=
    formed_of_parse h fun _ _ _ _ _ => trivial
  exact Layout.matchingLabels_of_formed (hn.formed hformed) level

/-- A pair of arrows with a letter below and an empty label on top. -/
theorem matchingLabels_of_parse_brackets :
    ∃ nodes site body below upperBelow lowerBody,
      (parse ⟨.standard, {}⟩ "\\xtofrom[b]\x7b\x7d").1 = .ok nodes ∧
      Node.Occurs .math nodes .math
        (.arrowPair site "\\xtofrom" body below upperBelow lowerBody) ∧
      ∃ m, Node.toMarkup .standard displayLevel
          (.arrowPair site "\\xtofrom" body below upperBelow lowerBody) = .ok m ∧
        Layout.MatchingLabels displayLevel "\\xtofrom" body below m := by
  let token := Token.ofPlace "\\xtofrom[b]\x7b\x7d"
  let letter := token "b" 9 10
  let below : Node := .group ⟨.math, Span.cover (token "[" 8 9).span (token "]" 10 11).span⟩
    [letter.node .math]
  let body : Node := .group ⟨.math, Span.cover (token "\x7b" 11 12).span (token "\x7d" 12 13).span⟩
    []
  let pair : Node := .arrowPair ⟨.math, (token "\\xtofrom" 0 8).span⟩ "\\xtofrom" (some body)
    (some below) (some (.phantom ⟨.math, none⟩ below)) (some (.phantom ⟨.math, none⟩ body))
  have hdrain : ((Parser.ofText "\\xtofrom[b]\x7b\x7d").drain ⟨.standard, {}⟩).toOption =
      some [token "\\xtofrom" 0 8, token "[" 8 9, letter, token "]" 10 11, token "\x7b" 11 12,
        token "\x7d" 12 13] := by
    decide +kernel
  have hletter : Reads ⟨.standard, {}⟩ (.body .math (some "]") [letter.node .math])
      [letter, token "]" 10 11, token "\x7b" 11 12, token "\x7d" 12 13]
      [token "]" 10 11, token "\x7b" 11 12, token "\x7d" 12 13] :=
    .next (by decide) (by decide) (.character (by decide) (by decide +kernel) (by decide))
      (.finish (endsAt_bracket rfl _))
  have hpair : Reads ⟨.standard, {}⟩ (.atom .math pair) _ [] :=
    .standard_command (t := token "\\xtofrom" 0 8) (.arrowPair (by decide)) rfl
      (.bracket rfl rfl hletter rfl
        (.brace rfl rfl rfl (.finish (endsAt_brace rfl _)) rfl (.complete rfl))) rfl
  have hparse := parse_of_drain hdrain (.next (by decide) (by decide) hpair (.finish nofun))
  have hoccurs : Node.Occurs .math [pair] .math pair := .here List.mem_cons_self
  exact ⟨[pair], _, _, _, _, _, hparse, hoccurs,
    matchingLabels_of_parse _ _ _ hparse _ _ _ _ _ _ _ hoccurs displayLevel⟩

end Environment

end MathMarkup
