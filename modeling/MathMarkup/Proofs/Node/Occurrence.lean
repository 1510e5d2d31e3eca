import MathMarkup.Proofs.Node.Formed

/-!
# Every node of a formula

What is well formed is well formed throughout.  So each node that occurs in a formula, however
deep inside, obeys the rules for a node of its kind in the mode around it: its arguments are
groups of that mode, arrows have labels, pairs of arrows have space for each other's labels, and
characters are letters or symbols as the mode says.

The mode around the nodes of a text is text mode.  Around all other nodes it is the mode around
the node they stand in, and at the top it is math mode.

## Main definitions

* `Node.children`, `Node.Occurs` — the nodes that stand inside a node, and those that occur in
  a formula, each with the mode around it.
* `Node.arguments` — the arguments that a node was made of.
* `Node.Fits` — the rules for one node.

## Main results

* `Node.Occurs.formed` — what occurs in well-formed nodes is well formed.
* `Node.Formed.fits` — a well-formed node obeys the rules.
* `Environment.fits_of_occurs` — **so does every node that occurs in what is read.**
-/

namespace MathMarkup

namespace Node

/-! ### Occurrences -/

/-- The nodes that stand directly inside a node, generated space included. -/
def children : Node → List Node
  | letter .. | symbol .. => []
  | group _ body | text _ body => body
  | fraction _ a b => [a, b]
  | phantom _ a | lap _ _ a => [a]
  | arrow _ _ body below => body.toList ++ below.toList
  | arrowPair _ _ body below upperBelow lowerBody =>
      body.toList ++ below.toList ++ (upperBelow.toList ++ lowerBody.toList)

/-- The mode around the nodes inside a node, given the mode around the node itself. -/
def innerMode (around : Mode) : Node → Mode
  | text .. => .text
  | _ => around

/-- The nodes that occur in some nodes at any depth, each with the mode around it. -/
inductive Occurs (around : Mode) (nodes : List Node) : Mode → Node → Prop where
  /-- One of the nodes. -/
  | here {n : Node} (hn : n ∈ nodes) : Occurs around nodes around n
  /-- A node inside one that occurs. -/
  | inside {mode : Mode} {n x : Node} (hn : Occurs around nodes mode n) (hx : x ∈ n.children) :
      Occurs around nodes (n.innerMode mode) x

/-- In text mode everything is in text mode. -/
theorem Occurs.eq_text {nodes : List Node} {mode : Mode} {n : Node}
    (h : Occurs .text nodes mode n) : mode = .text := by
  induction h with
  | here => rfl
  | @inside mode n x _ _ ih =>
    rw [ih]
    cases n <;> rfl

/-! ### What is inside well-formed nodes -/

variable {p : String → Prop} {mode : Mode} {n : Node}

/-- The space that a pair of arrows has for a label is well formed. -/
theorem Formed.labelSpace {a : Node} (ha : a.Formed p mode) (hgroup : a.kind = .group) :
    (Handler.labelSpace mode a).Formed p mode :=
  .phantom ha hgroup

/-- The nodes inside a well-formed node are well formed, in the mode around them, which a text
changes. -/
theorem Formed.child (h : n.Formed p mode) {x : Node} (hx : x ∈ n.children) :
    x.Formed p (n.innerMode mode) := by
  cases h with
  | letter | symbol => exact absurd hx List.not_mem_nil
  | group hbody | text hbody => exact hbody x hx
  | fraction ha _ hb _ =>
    rcases List.mem_pair.mp hx with rfl | rfl
    · exact ha
    · exact hb
  | phantom ha _ | lap ha _ => exact List.mem_singleton.mp hx ▸ ha
  | arrow _ ha _ hbelow _ _ =>
    rcases List.mem_append.mp hx with hx | hx
    · exact List.mem_singleton.mp hx ▸ ha
    · exact hbelow x (Option.mem_toList.mp hx)
  | arrowPair _ ha hgroup hbelow hbelowGroup _ =>
    -- the two labels, and the two spaces for them
    rcases List.mem_append.mp hx with hx | hx <;> rcases List.mem_append.mp hx with hx | hx
    · exact List.mem_singleton.mp hx ▸ ha
    · exact hbelow x (Option.mem_toList.mp hx)
    · obtain ⟨b, hb, rfl⟩ := Option.map_eq_some_iff.mp (Option.mem_toList.mp hx)
      exact (hbelow b hb).labelSpace (hbelowGroup b hb)
    · exact List.mem_singleton.mp hx ▸ ha.labelSpace hgroup

/-- **What occurs in well-formed nodes is well formed**, at any depth. -/
theorem Occurs.formed {around : Mode} {nodes : List Node} (h : Occurs around nodes mode n)
    (hnodes : ∀ x ∈ nodes, x.Formed p around) : n.Formed p mode := by
  induction h with
  | here hn => exact hnodes _ hn
  | inside _ hx ih => exact ih.child hx

/-! ### The rules for one node -/

/-- The arguments that a fraction, a phantom, an overlap or an arrow was made of. -/
def arguments : Node → List Node
  | fraction _ a b => [a, b]
  | phantom _ a | lap _ _ a => [a]
  | arrow _ _ body below | arrowPair _ _ body below _ _ => body.toList ++ below.toList
  | _ => []

/-- The rules for a node, given the mode around it. -/
structure Fits (mode : Mode) (n : Node) : Prop where
  /-- It was read in the mode around it. -/
  mode_eq : n.mode = mode
  /-- Its arguments are groups that were read in this mode. -/
  arguments : ∀ a ∈ n.arguments, a.kind = .group ∧ a.mode = mode
  /-- An arrow has a label on top. -/
  arrow : ∀ site label body below, n = .arrow site label body below → body.isSome = true
  /-- A pair of arrows is one of the known pairs and has a label on top.  Its lower arrow has
  space for the label on top, and its upper arrow for the label below, if there is one. -/
  arrowPair : ∀ site label body below upperBelow lowerBody,
    n = .arrowPair site label body below upperBelow lowerBody →
      label ∈ arrowPairTable.map Prod.fst ∧ body.isSome = true ∧
        lowerBody = body.map (.phantom ⟨mode, none⟩) ∧
        upperBelow = below.map (.phantom ⟨mode, none⟩)
  /-- Whatever occurs in a text was read in text mode. -/
  text : ∀ site body, n = .text site body → ∀ inner x, Occurs .text body inner x → x.mode = .text
  /-- In text mode there are no letters, fractions and arrows. -/
  kind : mode = .text → n.kind ∉ [.letter, .fraction, .arrow, .arrowPair]
  /-- In math mode a letter starts with an alphabetic character and is no blank. -/
  letter : mode = .math → ∀ site s, n = .letter site s →
    (∃ c ∈ s.toList.head?, Text.isAlphabetic c = true) ∧ s ≠ " "
  /-- In math mode a symbol does not start with an alphabetic character and is no blank. -/
  symbol : mode = .math → ∀ site s, n = .symbol site s →
    (∀ c ∈ s.toList.head?, Text.isAlphabetic c = false) ∧ s ≠ " "

theorem Formed.mode_eq (h : n.Formed p mode) : n.mode = mode := by
  cases h <;> rfl

theorem Formed.arguments_group (h : n.Formed p mode) :
    ∀ a ∈ n.arguments, a.kind = .group ∧ a.mode = mode := by
  -- the label below is the one argument that may be missing
  have hlabels : ∀ {a : Node} {below : Option Node}, a.Formed p mode → a.kind = .group →
      (∀ b ∈ below, b.Formed p mode) → (∀ b ∈ below, b.kind = .group) →
      ∀ x ∈ (some a).toList ++ below.toList, x.kind = .group ∧ x.mode = mode := by
    intro a below ha hgroup hbelow hbelowGroup x hx
    rcases List.mem_append.mp hx with hx | hx
    · rw [List.mem_singleton.mp hx]
      exact ⟨hgroup, ha.mode_eq⟩
    · have hx := Option.mem_toList.mp hx
      exact ⟨hbelowGroup x hx, (hbelow x hx).mode_eq⟩
  intro x hx
  cases h with
  | letter | symbol | group | text => exact absurd hx List.not_mem_nil
  | fraction ha hagroup hb hbgroup =>
    rcases List.mem_pair.mp hx with rfl | rfl
    · exact ⟨hagroup, ha.mode_eq⟩
    · exact ⟨hbgroup, hb.mode_eq⟩
  | phantom ha hgroup | lap ha hgroup =>
    rw [List.mem_singleton.mp hx]
    exact ⟨hgroup, ha.mode_eq⟩
  | arrow _ ha hgroup hbelow hbelowGroup _ => exact hlabels ha hgroup hbelow hbelowGroup x hx
  | arrowPair _ ha hgroup hbelow hbelowGroup _ => exact hlabels ha hgroup hbelow hbelowGroup x hx

/-- Every name of a pair of arrows is in the table of pairs. -/
theorem mem_arrowPairTable {label : String} (h : label ∈ arrowPairNames) :
    label ∈ arrowPairTable.map Prod.fst := by
  have hnames : ∀ label ∈ arrowPairNames, label ∈ arrowPairTable.map Prod.fst := by decide
  exact hnames label h

theorem Formed.exists_letter {site : Site} {s : String}
    (h : (Node.letter site s).Formed p mode) :
    (∃ c ∈ s.toList.head?, Text.isAlphabetic c = true) ∧ s ≠ " " := by
  cases h with
  | letter _ _ halphabetic =>
    unfold Token.isAlphabetic at halphabetic
    split at halphabetic
    · rename_i c cs hchars
      refine ⟨⟨c, by rw [hchars]; rfl, halphabetic⟩, ?_⟩
      rintro rfl
      -- a blank is not alphabetic
      obtain ⟨rfl, -⟩ : c = ' ' ∧ cs = [] := by simpa using hchars.symm
      exact absurd halphabetic (by decide)
    · cases halphabetic

theorem Formed.forall_symbol {site : Site} {s : String}
    (h : (Node.symbol site s).Formed p .math) :
    (∀ c ∈ s.toList.head?, Text.isAlphabetic c = false) ∧ s ≠ " " := by
  cases h with
  | symbol _ _ hmath =>
    obtain ⟨halphabetic, hblank⟩ := hmath rfl
    refine ⟨fun c hc => ?_, hblank⟩
    obtain ⟨cs, hchars⟩ := List.head?_eq_some_iff.mp hc
    simpa only [Token.isAlphabetic, hchars] using halphabetic

/-- **A well-formed node obeys the rules** for its kind.  They concern its mode and its arguments,
the kinds that text mode excludes, and what arrows, texts, letters and symbols have besides. -/
theorem Formed.fits (h : n.Formed p mode) : n.Fits mode where
  mode_eq := h.mode_eq
  arguments := h.arguments_group
  arrow := by
    rintro site label body below rfl
    cases h
    rfl
  arrowPair := by
    rintro site label body below upperBelow lowerBody rfl
    cases h with
    | arrowPair hname => exact ⟨mem_arrowPairTable hname, rfl, rfl, rfl⟩
  text := by
    rintro site body rfl inner x hx
    cases h with
    -- whatever is inside was read in text mode, at any depth
    | text hbody => exact (hx.formed hbody).mode_eq.trans hx.eq_text
  kind := by
    rintro rfl
    cases h <;> simp [Node.kind]
  letter := by
    rintro rfl site s rfl
    exact h.exists_letter
  symbol := by
    rintro rfl site s rfl
    exact h.forall_symbol

end Node

namespace Environment

/-- **Every node that occurs in what is read obeys the rules**, whatever the text, its macros and
the options are. -/
theorem fits_of_occurs (o : Options) (source : String) (nodes : List Node)
    (h : (parse ⟨.standard, o⟩ source).1 = .ok nodes) (mode : Mode) (n : Node)
    (hn : Node.Occurs .math nodes mode n) : n.Fits mode := by
  have hformed : ∀ x ∈ nodes, x.Formed (fun _ => True) .math :=
    formed_of_parse h fun _ _ _ _ _ => trivial
  exact (hn.formed hformed).fits

/-- A blank in a text that is the label of a pair of arrows, where it occurs in the space that
the lower arrow has for this label. -/
theorem fits_of_occurs_blank :
    ∃ nodes, (parse ⟨.standard, {}⟩ "\\xtofrom\x7b\\text\x7b \x7d\x7d").1 = .ok nodes ∧
      ∃ site, Node.Occurs .math nodes .text (.symbol site " ") ∧
        (Node.symbol site " ").Fits .text := by
  let token := Token.ofPlace "\\xtofrom\x7b\\text\x7b \x7d\x7d"
  let blank := token " " 15 16
  let closing := token "\x7d" 17 18
  let inner := [blank, token "\x7d" 16 17, closing]
  let text : Node := .text ⟨.math, (token "\\text" 9 14).span⟩ [blank.node .text]
  let body : Node := .group ⟨.math, Span.cover (token "\x7b" 8 9).span closing.span⟩ [text]
  let pair : Node := .arrowPair ⟨.math, (token "\\xtofrom" 0 8).span⟩ "\\xtofrom" (some body) none
    none (some (.phantom ⟨.math, none⟩ body))
  have hdrain : ((Parser.ofText "\\xtofrom\x7b\\text\x7b \x7d\x7d").drain
      ⟨.standard, {}⟩).toOption = some (token "\\xtofrom" 0 8 :: token "\x7b" 8 9 ::
        token "\\text" 9 14 :: token "\x7b" 14 15 :: inner) := by
    decide +kernel
  have hinner : Reads ⟨.standard, {}⟩ (.body .text none [blank.node .text]) inner
      [token "\x7d" 16 17, closing] :=
    .next (by decide) (by decide) (.character (by decide) (by decide +kernel) (by decide))
      (.finish (endsAt_brace rfl _))
  have htext : Reads ⟨.standard, {}⟩ (.atom .math text)
      (token "\\text" 9 14 :: token "\x7b" 14 15 :: inner) [closing] :=
    .standard_command .text rfl (.brace rfl rfl rfl hinner rfl (.complete rfl)) rfl
  have hbody : Reads ⟨.standard, {}⟩ (.body .math none [text])
      (token "\\text" 9 14 :: token "\x7b" 14 15 :: inner) [closing] :=
    .next (by decide) (by decide) htext (.finish (endsAt_brace rfl _))
  have hpair : Reads ⟨.standard, {}⟩ (.atom .math pair) _ [] :=
    .standard_command (t := token "\\xtofrom" 0 8) (.arrowPair (by decide)) rfl
      (.omitted rfl (by simp [token, Token.ofPlace])
        (.brace rfl rfl rfl hbody rfl (.complete rfl))) rfl
  have hparse := parse_of_drain hdrain (.next (by decide) (by decide) hpair (.finish nofun))
  have hspace : Node.Occurs .math [pair] .math (.phantom ⟨.math, none⟩ body) :=
    .inside (.here List.mem_cons_self) (by simp [pair, Node.children])
  have hlabel : Node.Occurs .math [pair] .math text :=
    .inside (.inside hspace List.mem_cons_self) List.mem_cons_self
  have hblank : Node.Occurs .math [pair] .text (blank.node .text) :=
    .inside hlabel List.mem_cons_self
  exact ⟨[pair], hparse, ⟨.text, blank.span⟩, hblank, fits_of_occurs _ _ _ hparse _ _ hblank⟩

end Environment

end MathMarkup
