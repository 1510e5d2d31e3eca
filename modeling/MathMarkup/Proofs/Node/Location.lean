import MathMarkup.Proofs.Node.Occurrence
import MathMarkup.Proofs.Token.Place

/-!
# The places of nodes

A node that was read from the document knows its place there.  At the place of a character
stands that character, at the place of a command its name, and a group goes from its opening to
its closing delimiter.  Nodes next to each other are in order and do not overlap.

Macros leave gaps: what comes out of a replacement has no place, and a group of which only one
delimiter stands in the document has the place of that delimiter.  Without macros there are no
gaps, apart from the space that a pair of arrows has for the labels.  An argument without
delimiters is a group as well, with the place of its only node.

## Main definitions

* `Span.LiesIn` — a proper piece of a text.
* `Node.SpelledAs` — what is written at the place of a node.
* `Node.InOrder` — nodes one behind the other.
* `Node.PlacedIn` — the rules for the place of one node.
* `Node.EnclosedIn`, `Node.IsBare` — groups with and without delimiters.
* `Node.WrittenIn` — the rules for the nodes inside one node, if all tokens have places.

## Main results

* `Reads.located` — what is read keeps to the rules, by one case for each rule of reading.
* `Environment.located_of_parse` — **so does every node that occurs in what is read.**
-/

namespace MathMarkup

/-! ### The rules -/

/-- Whether a span is a piece of a text that is not empty and does not cut through a
character. -/
structure Span.LiesIn (s : Span) (source : String) : Prop where
  /-- It is a piece of this text. -/
  document : s.document = ⟨source, 0⟩
  /-- It is not empty. -/
  start_lt : s.start < s.stop
  /-- It ends where the text does, or before. -/
  stop_le : s.stop ≤ source.utf8ByteSize
  /-- It starts and ends between characters. -/
  isSome_chars : s.chars?.isSome = true

/-- A place with characters is a proper piece of the text. -/
theorem Span.Shows.liesIn {s : Span} {source : String} {found : List Char}
    (h : s.Shows source found) (hne : found ≠ []) : s.LiesIn source :=
  ⟨h.1, h.start_lt hne, h.stop_le, by rw [h.chars?_eq]; rfl⟩

/-- Whether an opening brace is the last token in front of some tokens, blanks apart. -/
def FollowsBrace (tokens ts : List Token) : Prop :=
  ∃ before t blanks, tokens = before ++ t :: (blanks ++ ts) ∧ t.text = "\x7b" ∧
    ∀ b ∈ blanks, b.text = " "

namespace Node

/-- What is written at the place of a node.  A blank stands for a run of blanks. -/
def SpelledAs : Node → String → Prop
  | letter _ t, word | symbol _ t, word =>
      if t = " " then word ≠ "" ∧ ∀ c ∈ word.toList, isBlank c = true else word = t
  | fraction .., word => word = "\\frac"
  | text .., word => word = "\\text"
  | phantom .., word => word = "\\hphantom"
  | lap _ side _, word => word ∈ lapNames ∧ lapSide word = side
  | arrow _ label .., word | arrowPair _ label .., word => word = label
  | group .., _ => True

/-- The nodes of a body: those of a group or a text. -/
def items : Node → List Node
  | group _ body | text _ body => body
  | _ => []

/-- The label below an arrow. -/
def below? : Node → Option Node
  | arrow _ _ _ below | arrowPair _ _ _ below _ _ => below
  | _ => none

/-- The space that a pair of arrows has for its labels. -/
def spaces : Node → List Node
  | arrowPair _ _ _ _ upperBelow lowerBody => upperBelow.toList ++ lowerBody.toList
  | _ => []

/-- Nodes of which each one with a place stands before the later ones. -/
def InOrder (nodes : List Node) : Prop :=
  nodes.Pairwise fun n m => ∀ s u, n.span = some s → m.span = some u → s.stop ≤ u.start

/-- The rules for the place of a node, if it has one, and of the nodes in its body. -/
structure PlacedIn (source : String) (n : Node) : Prop where
  /-- The place is a piece of the text. -/
  liesIn : ∀ s, n.span = some s → s.LiesIn source
  /-- The node is written there. -/
  spelled : ∀ s, n.span = some s → n.SpelledAs s.text
  /-- The nodes of the body are in order. -/
  inOrder : InOrder n.items

/-- A group with delimiters: it starts with one and ends with the other, and its nodes are between
them, as far as they have places. -/
def EnclosedIn (opening closing : String) (n : Node) : Prop :=
  ∃ site body s inner, n = .group site body ∧ site.span = some s ∧
    s.text = opening ++ inner ++ closing ∧
    ∀ x ∈ body, ∀ u, x.span = some u → s.start < u.start ∧ u.stop < s.stop

/-- An argument without delimiters: a group of one node that is no group, has the same place and is
not behind an opening brace. -/
def IsBare (tokens : List Token) (n : Node) : Prop :=
  ∃ site x t ts, n = .group site [x] ∧ x.kind ≠ .group ∧ x.span = site.span ∧
    t :: ts <:+ tokens ∧ t.span = site.span ∧ t.span ≠ none ∧ ¬ FollowsBrace tokens (t :: ts)

/-- A node of a body: if it is a group, it has braces. -/
structure IsItem (n : Node) : Prop where
  /-- It has a place. -/
  span_ne_none : n.span ≠ none
  /-- A group has braces. -/
  enclosed : n.kind = .group → n.EnclosedIn "\x7b" "\x7d"

/-- An argument of a command, with or without delimiters. -/
def IsArgument (tokens : List Token) (n : Node) : Prop :=
  n.EnclosedIn "\x7b" "\x7d" ∨ n.EnclosedIn "[" "]" ∨ n.IsBare tokens

/-- The rules for the nodes inside a node, where all tokens have places. -/
structure WrittenIn (tokens : List Token) (n : Node) : Prop where
  /-- All of them have places, except the space that a pair of arrows has for its labels. -/
  located : ∀ x ∈ n.children, x.span = none → x ∈ n.spaces
  /-- The groups in its body have braces. -/
  items : ∀ x ∈ n.items, x.IsItem
  /-- Its arguments have delimiters, or are single nodes without. -/
  arguments : ∀ x ∈ n.arguments, x.IsArgument tokens
  /-- A label below has brackets. -/
  below : ∀ x ∈ n.below?, x.EnclosedIn "[" "]"

theorem EnclosedIn.span_ne_none {opening closing : String} {n : Node}
    (h : n.EnclosedIn opening closing) : n.span ≠ none := by
  obtain ⟨site, body, s, inner, rfl, hspan, -⟩ := h
  show site.span ≠ none
  rw [hspan]
  exact Option.some_ne_none s

theorem IsArgument.span_ne_none {tokens : List Token} {n : Node} (h : n.IsArgument tokens) :
    n.span ≠ none := by
  rcases h with h | h | ⟨site, x, t, ts, rfl, -, -, -, ht, hne, -⟩
  · exact h.span_ne_none
  · exact h.span_ne_none
  · show site.span ≠ none
    rw [← ht]
    exact hne

/-! ### All nodes of a tree -/

/-- A property of a node and of all nodes inside. -/
inductive Throughout (P : Node → Prop) : Node → Prop where
  /-- The node has the property, and the nodes inside have it throughout. -/
  | intro {n : Node} (hn : P n) (hchildren : ∀ x ∈ n.children, Throughout P x) : Throughout P n

theorem Throughout.self {P : Node → Prop} {n : Node} (h : n.Throughout P) : P n := by
  cases h with
  | intro hn _ => exact hn

theorem Occurs.throughout {P : Node → Prop} {around mode : Mode} {nodes : List Node} {n : Node}
    (h : Occurs around nodes mode n) (hnodes : ∀ x ∈ nodes, x.Throughout P) :
    n.Throughout P := by
  induction h with
  | here hn => exact hnodes _ hn
  | inside _ hx ih =>
    cases ih with
    | intro _ hchildren => exact hchildren _ hx

/-- The rules for one node, given all tokens of the text. -/
structure Sound (source : String) (tokens : List Token) (n : Node) : Prop where
  /-- It is where it should be. -/
  placedIn : n.PlacedIn source
  /-- If there are no gaps, the nodes inside are written as they should be. -/
  writtenIn : (∀ t ∈ tokens, t.span ≠ none) → n.WrittenIn tokens

/-- Whether a node is read between two places in a list of tokens. -/
def Between (ts rest : List Token) (n : Node) : Prop :=
  ∀ s, n.span = some s →
    (∀ offset, StartsFrom offset ts → offset ≤ s.start) ∧ StartsFrom s.stop rest

end Node

/-! ### Places of tokens and of nodes -/

section

variable {source : String} {tokens ts rest : List Token} {t u : Token} {s a b : Span}

theorem Token.Stands.liesIn (h : t.Stands source) (hs : t.span = some s) : s.LiesIn source := by
  obtain ⟨found, hshows, hne, -⟩ := h s hs
  exact hshows.liesIn hne

theorem Token.Stands.text_eq (h : t.Stands source) (hs : t.span = some s) (hblank : t.text ≠ " ") :
    s.text = t.text := by
  obtain ⟨found, hshows, -, htext⟩ := h s hs
  rw [if_neg hblank] at htext
  rw [hshows.text_eq, htext]

/-- Tokens that stand one behind the other are in order. -/
theorem PlacedTokens.le_of_mem (h : PlacedTokens source (t :: ts)) (hu : u ∈ ts)
    (ha : t.span = some a) (hb : u.span = some b) : a.stop ≤ b.start := by
  cases h with
  | cons _ hbefore _ => exact hbefore a ha u hu b hb

/-- A node with the place of the first token. -/
theorem PlacedTokens.between_token (h : PlacedTokens source (t :: ts)) {n : Node}
    (hspan : n.span = t.span) (hrest : rest <:+ ts) : n.Between (t :: ts) rest := by
  intro s hs
  rw [hspan] at hs
  refine ⟨fun offset hoffset => hoffset t List.mem_cons_self s hs, fun u hu b hb => ?_⟩
  exact h.le_of_mem (hrest.subset hu) hs hb

/-- From one token to a later one, if both have places: the span starts with the first and ends with
the second. -/
theorem PlacedTokens.cover_eq (h : PlacedTokens source (t :: ts)) (hu : u ∈ ts)
    (ha : t.span = some a) (hb : u.span = some b) :
    Span.cover t.span u.span = some ⟨a.document, a.start, b.stop⟩ := by
  have hle := h.le_of_mem hu ha hb
  have hastands := (h.stands t List.mem_cons_self).liesIn ha
  have hbstands := (h.stands u (List.mem_cons_of_mem _ hu)).liesIn hb
  have hstart := hastands.start_lt
  have hstop := hbstands.start_lt
  rw [ha, hb, Span.cover, hastands.document, hbstands.document, if_pos rfl,
    Nat.min_eq_left (by omega), Nat.max_eq_right (by omega)]

/-- A span that covers two tokens starts with the first one that has a place and ends with the
last one. -/
theorem PlacedTokens.between_cover (h : PlacedTokens source (t :: ts)) (hu : u :: rest <:+ ts)
    (hs : Span.cover t.span u.span = some s) :
    s.LiesIn source ∧ (∀ offset, StartsFrom offset (t :: ts) → offset ≤ s.start) ∧
      StartsFrom s.stop rest := by
  have hmem : u ∈ ts := hu.subset List.mem_cons_self
  have htplace := h.stands t List.mem_cons_self
  have huplace := h.stands u (List.mem_cons_of_mem _ hmem)
  -- the closing token stands in front of all that is left
  have hbehind : ∀ b, u.span = some b → StartsFrom b.stop rest := by
    intro b hb
    cases h.of_suffix (hu.trans (List.suffix_cons _ _)) with
    | cons _ hbefore _ => exact hbefore b hb
  -- either delimiter may have come out of a macro, and then the span is that of the other
  cases ha : t.span with
  | none =>
    rw [ha] at hs
    have hb : u.span = some s := by
      cases hb : u.span with
      | none => simp [hb, Span.cover] at hs
      | some b => simpa [hb, Span.cover] using hs
    refine ⟨huplace.liesIn hb, fun offset hoffset => ?_, hbehind s hb⟩
    exact hoffset u (List.mem_cons_of_mem _ hmem) s hb
  | some a =>
    have hstart : ∀ offset, StartsFrom offset (t :: ts) → offset ≤ a.start :=
      fun offset hoffset => hoffset t List.mem_cons_self a ha
    cases hb : u.span with
    | none =>
      obtain rfl : a = s := by simpa [ha, hb, Span.cover] using hs
      refine ⟨htplace.liesIn ha, hstart, fun v hv c hc => ?_⟩
      exact h.le_of_mem (hu.subset (List.mem_cons_of_mem _ hv)) ha hc
    | some b =>
      rw [h.cover_eq hmem ha hb] at hs
      cases hs
      obtain ⟨first, hfirst, hne, -⟩ := htplace a ha
      obtain ⟨last, hlast, -, -⟩ := huplace b hb
      obtain ⟨mid, hmid⟩ := hfirst.join hlast (h.le_of_mem hmem ha hb)
      exact ⟨hmid.liesIn (by simp [hne]), hstart, hbehind b hb⟩

/-! ### Behind an opening brace -/

/-- In front of what follows an opening brace there is the brace, or a blank that follows it. -/
theorem FollowsBrace.eq_or (h : FollowsBrace tokens rest) (hrest : t :: rest <:+ tokens) :
    t.text = "\x7b" ∨ t.text = " " ∧ FollowsBrace tokens (t :: rest) := by
  obtain ⟨before, u, blanks, htokens, hu, hblanks⟩ := h
  obtain ⟨front, rfl⟩ := hrest
  have hwhole : (front ++ [t]) ++ rest = (before ++ u :: blanks) ++ rest := by
    simpa using htokens
  -- the token in front of the rest is the last of what leads to it
  have hcancel := List.append_cancel_right hwhole
  rcases List.eq_nil_or_concat blanks with rfl | ⟨blanks, v, rfl⟩
  · obtain ⟨-, rfl⟩ := List.append_singleton_inj.mp hcancel
    exact .inl hu
  · rw [List.concat_eq_append, ← List.cons_append, ← List.append_assoc] at hcancel
    obtain ⟨rfl, rfl⟩ := List.append_singleton_inj.mp hcancel
    refine .inr ⟨hblanks t (by simp), before, u, blanks, by simp, hu, fun b hb => ?_⟩
    exact hblanks b (by simp [hb])

theorem not_followsBrace (hrest : t :: rest <:+ tokens) (hbrace : t.text ≠ "\x7b")
    (hblank : t.text ≠ " ") : ¬ FollowsBrace tokens rest := by
  intro h
  rcases h.eq_or hrest with ht | ⟨ht, -⟩
  · exact hbrace ht
  · exact hblank ht

end

/-! ### What is known of a piece -/

section

variable (source : String) (tokens : List Token)

/-- The arguments of a call keep to the rules, which is what is known while they are read. -/
structure Call.Located (c : Call) : Prop where
  /-- The required arguments do. -/
  required : ∀ a ∈ c.required, a.Throughout (Node.Sound source tokens) ∧ a.kind = .group ∧
    ((∀ t ∈ tokens, t.span ≠ none) → a.IsArgument tokens)
  /-- The optional arguments do, and have brackets. -/
  optional : ∀ a, some a ∈ c.optional → a.Throughout (Node.Sound source tokens) ∧
    a.kind = .group ∧ ((∀ t ∈ tokens, t.span ≠ none) → a.EnclosedIn "[" "]")

/-- One node of an expression keeps to the rules. -/
structure Node.Located (ts rest : List Token) (n : Node) : Prop where
  /-- All nodes in it do. -/
  sound : n.Throughout (Node.Sound source tokens)
  /-- Its place is between those of the tokens before and behind it. -/
  between : n.Between ts rest
  /-- It has a place and braces if there are no gaps. -/
  isItem : (∀ t ∈ tokens, t.span ≠ none) → n.IsItem

/-- What is known of the places in a piece, given the tokens before and behind it. -/
def Piece.Located (ts rest : List Token) : Piece → Prop
  | .body _ _ nodes => Node.InOrder nodes ∧ ∀ n ∈ nodes, n.Located source tokens ts rest
  | .atom _ n => n.Located source tokens ts rest ∧ ∀ t ∈ ts.head?,
      (t.text ≠ "\x7b" → n.kind ≠ .group ∧ n.span = t.span) ∧
        (t.text ≠ " " → ¬ FollowsBrace tokens rest)
  | .arguments c c' => c.bare = none → c.Located source tokens → ¬ FollowsBrace tokens ts →
      c'.Located source tokens ∧ ¬ FollowsBrace tokens rest
  | .reply _ _ => True

end

section

variable {source : String} {tokens ts mid rest : List Token} {t u : Token} {mode : Mode}
  {nodes : List Node} {n : Node} {c : Call}

theorem Node.Between.of_suffix (h : n.Between mid rest) {rest' : List Token} (hmid : mid <:+ ts)
    (hrest : rest' <:+ rest) : n.Between ts rest' := by
  intro s hs
  obtain ⟨hstart, hstop⟩ := h s hs
  exact ⟨fun offset hoffset => hstart offset (hoffset.of_suffix hmid), hstop.of_suffix hrest⟩

/-- A node in front of others that are in order, if it is read from the tokens in front of
theirs. -/
theorem Node.InOrder.cons (h : InOrder nodes) (hn : n.Between ts mid)
    (hnodes : ∀ m ∈ nodes, m.Between mid rest) : InOrder (n :: nodes) := by
  refine List.pairwise_cons.mpr ⟨fun m hm s u hs hu => ?_, h⟩
  exact (hnodes m hm u hu).1 s.stop (hn s hs).2

/-! One lemma for each kind of atom. -/

/-- A group in delimiters keeps to the rules if its body does.  If both delimiters have places, the
group covers what is from one to the other; if only one of them has, the group has the place of that
one. -/
theorem Piece.Located.group {stop : Option String} {opening closing : String}
    (hplaced : PlacedTokens source (t :: ts)) (hu : u :: rest <:+ ts) (hopen : t.text = opening)
    (hclose : u.text = closing) (hopening : opening ≠ " ") (hclosing : closing ≠ " ")
    (hbody : Piece.Located source tokens ts (u :: rest) (.body mode stop nodes)) :
    (Node.group ⟨mode, Span.cover t.span u.span⟩ nodes).Throughout (Node.Sound source tokens) ∧
      (Node.group ⟨mode, Span.cover t.span u.span⟩ nodes).Between (t :: ts) rest ∧
      (t.span ≠ none → u.span ≠ none →
        (Node.group ⟨mode, Span.cover t.span u.span⟩ nodes).EnclosedIn opening closing) := by
  obtain ⟨hinOrder, hnodes⟩ := hbody
  have hspan : ∀ s, Span.cover t.span u.span = some s → _ := fun s hs =>
    hplaced.between_cover hu hs
  refine ⟨.intro ⟨⟨?_, fun _ _ => trivial, hinOrder⟩, ?_⟩ fun x hx => (hnodes x hx).sound, ?_, ?_⟩
  · intro s hs
    exact (hspan s hs).1
  · intro hcomplete
    refine ⟨?_, fun x hx => (hnodes x hx).isItem hcomplete, ?_, ?_⟩
    · intro x hx hnone
      exact absurd hnone ((hnodes x hx).isItem hcomplete).span_ne_none
    · exact fun x hx => absurd hx List.not_mem_nil
    · exact fun x hx => absurd hx (Option.not_mem_none x)
  · intro s hs
    exact (hspan s hs).2
  · intro htne hune
    obtain ⟨a, ha⟩ := Option.ne_none_iff_exists'.mp htne
    obtain ⟨b, hb⟩ := Option.ne_none_iff_exists'.mp hune
    have hmem : u ∈ ts := hu.subset List.mem_cons_self
    have htplace := hplaced.stands t List.mem_cons_self
    have huplace := hplaced.stands u (List.mem_cons_of_mem _ hmem)
    obtain ⟨first, hfirst, -, hfirstText⟩ := htplace a ha
    obtain ⟨last, hlast, -, hlastText⟩ := huplace b hb
    rw [hopen, if_neg hopening] at hfirstText
    rw [hclose, if_neg hclosing] at hlastText
    obtain ⟨mid, hmid⟩ := hfirst.join hlast (hplaced.le_of_mem hmem ha hb)
    refine ⟨_, nodes, _, String.ofList mid, rfl, hplaced.cover_eq hmem ha hb, ?_, ?_⟩
    · rw [hmid.text_eq, String.ofList_append, String.ofList_append, hfirstText, hlastText]
    · -- the body starts behind the opening token and ends before the closing one
      intro x hx s hs
      obtain ⟨hstart, hstop⟩ := (hnodes x hx).between s hs
      have hopenLt := (htplace.liesIn ha).start_lt
      have hcloseLt := (huplace.liesIn hb).start_lt
      have hle := hstart a.stop fun v hv c hc => hplaced.le_of_mem hv ha hc
      have hge := hstop u List.mem_cons_self b hb
      exact ⟨by show a.start < s.start; omega, by show s.stop < b.stop; omega⟩

/-- A character keeps to the rules: it has the place of its token, and nothing is inside.  A blank
is written there as one or more blanks, any other character as it is. -/
theorem Token.Stands.sound_node (ht : t.Stands source) (mode : Mode) :
    (t.node mode).Throughout (Node.Sound source tokens) ∧ (t.node mode).span = t.span ∧
      (t.node mode).kind ≠ .group := by
  -- a blank token stands for all the blanks that were written
  have hspelled : ∀ s, t.span = some s → if t.text = " " then
      s.text ≠ "" ∧ ∀ c ∈ s.text.toList, isBlank c = true else s.text = t.text := by
    intro s hs
    obtain ⟨found, hshows, hne, htext⟩ := ht s hs
    rw [hshows.text_eq, String.toList_ofList]
    split at htext
    · rename_i hblank
      rw [if_pos hblank]
      exact ⟨by simpa using hne, htext⟩
    · rename_i hblank
      rw [if_neg hblank, htext]
  -- letters and symbols are alike in this
  have hsound : ∀ n : Node, n.span = t.span → n.children = [] → n.items = [] →
      n.arguments = [] → n.below? = none → (∀ s, t.span = some s → n.SpelledAs s.text) →
      n.Throughout (Node.Sound source tokens) := by
    intro n hspan hchildren hitems harguments hbelow hn
    refine .intro ⟨⟨fun s hs => ht.liesIn (hspan ▸ hs), fun s hs => hn s (hspan ▸ hs), ?_⟩, ?_⟩ ?_
    · rw [hitems]
      exact List.Pairwise.nil
    · intro _
      exact ⟨by simp [hchildren], by simp [hitems], by simp [harguments], by simp [hbelow]⟩
    · simp [hchildren]
  unfold Token.node
  split
  · exact ⟨hsound _ rfl rfl rfl rfl rfl hspelled, rfl, NodeKind.noConfusion⟩
  · exact ⟨hsound _ rfl rfl rfl rfl rfl hspelled, rfl, NodeKind.noConfusion⟩

/-- A node without a body keeps to the rules if it is in place and its arguments do. -/
theorem Node.sound_of_arguments (hplacedIn : n.PlacedIn source) (hitems : n.items = [])
    (hchildren : ∀ x ∈ n.children, x ∈ n.arguments ∨ x ∈ n.spaces)
    (harguments : ∀ x ∈ n.arguments, x.Throughout (Sound source tokens) ∧
      ((∀ t ∈ tokens, t.span ≠ none) → x.IsArgument tokens))
    (hspaces : ∀ x ∈ n.spaces, x.Throughout (Sound source tokens))
    (hbelow : ∀ x ∈ n.below?, (∀ t ∈ tokens, t.span ≠ none) → x.EnclosedIn "[" "]") :
    n.Throughout (Sound source tokens) := by
  refine .intro ⟨hplacedIn, fun hcomplete => ⟨?_, ?_, ?_, ?_⟩⟩ ?_
  · intro x hx hnone
    -- what is inside is an argument, or space that was made for one
    rcases hchildren x hx with hx | hx
    · exact absurd hnone ((harguments x hx).2 hcomplete).span_ne_none
    · exact hx
  · simp [hitems]
  · exact fun x hx => (harguments x hx).2 hcomplete
  · exact fun x hx => hbelow x hx hcomplete
  · intro x hx
    rcases hchildren x hx with hx | hx
    · exact (harguments x hx).1
    · exact hspaces x hx

/-- Space for a label has no place, and keeps to the rules if the label does: it is a phantom of the
label, which has its place a second time. -/
theorem Node.sound_labelSpace {a : Node} (ha : a.Throughout (Sound source tokens))
    (hargument : (∀ t ∈ tokens, t.span ≠ none) → a.IsArgument tokens) (mode : Mode) :
    (Handler.labelSpace mode a).Throughout (Sound source tokens) := by
  refine sound_of_arguments ⟨nofun, nofun, List.Pairwise.nil⟩ rfl (fun x hx => .inl hx) ?_ ?_ ?_
  · intro x hx
    obtain rfl : x = a := List.mem_singleton.mp hx
    exact ⟨ha, hargument⟩
  · exact fun x hx => absurd hx List.not_mem_nil
  · exact fun x hx => absurd hx (Option.not_mem_none x)

/-- A node that has the place of a token is placed as its token is. -/
theorem Token.Stands.placedIn (ht : t.Stands source) (hblank : t.text ≠ " ")
    (hspan : n.span = t.span) (hspelled : n.SpelledAs t.text) (hinOrder : Node.InOrder n.items) :
    n.PlacedIn source := by
  refine ⟨fun s hs => ht.liesIn (hspan ▸ hs), fun s hs => ?_, hinOrder⟩
  rw [ht.text_eq (hspan ▸ hs) hblank]
  exact hspelled

theorem Call.Located.required_eq (hc : c.Located source tokens) {args : List Node}
    (hargs : c.invocation.required = args) : ∀ a ∈ args, a.Throughout (Node.Sound source tokens) ∧
      ((∀ t ∈ tokens, t.span ≠ none) → a.IsArgument tokens) := by
  subst hargs
  intro a ha
  exact ⟨(hc.required a ha).1, (hc.required a ha).2.2⟩

theorem Call.Located.firstOptional (hc : c.Located source tokens) :
    ∀ b ∈ c.invocation.firstOptional, b.Throughout (Node.Sound source tokens) ∧
      ((∀ t ∈ tokens, t.span ≠ none) → b.EnclosedIn "[" "]") := by
  intro b hb
  rw [Invocation.firstOptional, Option.mem_def, Option.join_eq_some_iff] at hb
  have hoptional := hc.optional b (List.mem_of_mem_head? hb)
  exact ⟨hoptional.1, hoptional.2.2⟩

/-- The labels of an arrow are its arguments. -/
theorem Call.Located.labels (hc : c.Located source tokens) {a : Node}
    (ha : c.invocation.required = [a]) :
    ∀ x ∈ (some a).toList ++ c.invocation.firstOptional.toList,
      x.Throughout (Node.Sound source tokens) ∧
        ((∀ t ∈ tokens, t.span ≠ none) → x.IsArgument tokens) := by
  intro x hx
  rcases List.mem_append.mp hx with hx | hx
  · exact hc.required_eq ha x hx
  · obtain ⟨hsound, henclosed⟩ := hc.firstOptional x (Option.mem_toList.mp hx)
    exact ⟨hsound, fun hcomplete => .inr (.inl (henclosed hcomplete))⟩

/-- A command keeps to the rules if its arguments do: it has the place of its name. -/
theorem Command.Makes.sound {command : Command} (h : command.Makes c.invocation n)
    (hc : c.Located source tokens) (ht : t.Stands source) (htoken : c.token = some t)
    (hname : c.name = t.text) (hblank : t.text ≠ " ") :
    n.Throughout (Node.Sound source tokens) ∧ n.kind ≠ .group ∧ n.span = t.span := by
  have hsite : c.invocation.site.span = t.span := by
    rw [Invocation.site, Call.invocation, htoken]
    rfl
  -- the name of the command is what stands at its place
  have hplacedIn : ∀ m : Node, m.span = c.invocation.site.span → m.SpelledAs c.name →
      Node.InOrder m.items → m.PlacedIn source := by
    intro m hspan hspelled hinOrder
    exact ht.placedIn hblank (hspan.trans hsite) (hname ▸ hspelled) hinOrder
  cases h with
  | arrow hmem ha =>
    refine ⟨?_, NodeKind.noConfusion, hsite⟩
    refine Node.sound_of_arguments (hplacedIn _ rfl rfl .nil) rfl (fun x hx => .inl hx)
      (hc.labels ha) (fun x hx => absurd hx List.not_mem_nil) fun x hx => (hc.firstOptional x hx).2
  | @arrowPair a hmem ha =>
    refine ⟨?_, NodeKind.noConfusion, hsite⟩
    refine Node.sound_of_arguments (hplacedIn _ rfl rfl .nil) rfl
      (fun x hx => List.mem_append.mp hx) (hc.labels ha) ?_ fun x hx => (hc.firstOptional x hx).2
    intro x hx
    rcases List.mem_append.mp hx with hx | hx
    · obtain ⟨b, hb, rfl⟩ := Option.map_eq_some_iff.mp (Option.mem_toList.mp hx)
      obtain ⟨hsound, hargument⟩ := hc.labels ha b (by simp [hb])
      exact Node.sound_labelSpace hsound hargument _
    · obtain rfl : x = Handler.labelSpace c.invocation.mode a := by simpa using hx
      obtain ⟨hsound, hargument⟩ := hc.labels ha a (by simp)
      exact Node.sound_labelSpace hsound hargument _
  | lap hmem ha =>
    refine ⟨?_, NodeKind.noConfusion, hsite⟩
    exact Node.sound_of_arguments (hplacedIn _ rfl ⟨hmem, rfl⟩ .nil) rfl (fun x hx => .inl hx)
      (hc.required_eq ha) (fun x hx => absurd hx List.not_mem_nil)
      fun x hx => absurd hx (Option.not_mem_none x)
  | fraction hfraction hab =>
    refine ⟨?_, NodeKind.noConfusion, hsite⟩
    exact Node.sound_of_arguments (hplacedIn _ rfl hfraction .nil) rfl (fun x hx => .inl hx)
      (hc.required_eq hab) (fun x hx => absurd hx List.not_mem_nil)
      fun x hx => absurd hx (Option.not_mem_none x)
  | phantom hphantom ha =>
    refine ⟨?_, NodeKind.noConfusion, hsite⟩
    exact Node.sound_of_arguments (hplacedIn _ rfl hphantom .nil) rfl (fun x hx => .inl hx)
      (hc.required_eq ha) (fun x hx => absurd hx List.not_mem_nil)
      fun x hx => absurd hx (Option.not_mem_none x)
  | @text a htext ha =>
    refine ⟨?_, NodeKind.noConfusion, hsite⟩
    -- the text takes over the body of its argument
    have hmem : a ∈ c.required := by
      rw [show c.required = [a] from ha]
      exact List.mem_cons_self
    obtain ⟨hthroughout, hgroup, -⟩ := hc.required a hmem
    cases a with
    | group site body =>
      cases hthroughout with
      | intro hsound hchildren =>
        refine .intro ⟨hplacedIn _ rfl htext hsound.placedIn.inOrder, fun hcomplete => ?_⟩ hchildren
        have hwritten := hsound.writtenIn hcomplete
        exact ⟨hwritten.located, hwritten.items, hwritten.arguments, hwritten.below⟩
    | _ => cases hgroup

/-! ### What is read -/

theorem Call.Located.accept_optional (h : c.Located source tokens) (hbare : c.bare = none)
    (hwants : c.wantsOptional = true) (hn : n.Throughout (Node.Sound source tokens))
    (hgroup : n.kind = .group)
    (henclosed : (∀ t ∈ tokens, t.span ≠ none) → n.EnclosedIn "[" "]") :
    (c.accept n).Located source tokens := by
  simp only [accept, argument, hwants, hbare, if_true]
  refine ⟨h.required, fun a ha => ?_⟩
  rcases List.mem_append.mp ha with ha | ha
  · exact h.optional a ha
  · obtain rfl : a = n := by simpa using ha
    exact ⟨hn, hgroup, henclosed⟩

theorem Call.Located.accept_required (h : c.Located source tokens)
    (hwants : c.wantsOptional = false) (hn : (c.argument n).Throughout (Node.Sound source tokens))
    (hgroup : (c.argument n).kind = .group)
    (hargument : (∀ t ∈ tokens, t.span ≠ none) → (c.argument n).IsArgument tokens) :
    (c.accept n).Located source tokens := by
  simp only [accept, hwants, Bool.false_eq_true, if_false]
  refine ⟨fun a ha => ?_, h.optional⟩
  rcases List.mem_append.mp ha with ha | ha
  · exact h.required a ha
  · obtain rfl : a = c.argument n := by simpa using ha
    exact ⟨hn, hgroup, hargument⟩

theorem Call.Located.skip (h : c.Located source tokens) : c.skip.Located source tokens := by
  refine ⟨h.required, fun a ha => ?_⟩
  rcases List.mem_append.mp ha with ha | ha
  · exact h.optional a ha
  · simp at ha

/-- A group of one node keeps to the rules if the node does, with the place of that node. -/
theorem Node.sound_bare {span : Option Span} (hspan : n.span = span)
    (hn : n.Throughout (Sound source tokens))
    (hitem : (∀ t ∈ tokens, t.span ≠ none) → n.IsItem) :
    (Node.group ⟨mode, span⟩ [n]).Throughout (Sound source tokens) := by
  refine .intro ⟨⟨fun s hs => ?_, fun _ _ => trivial, List.pairwise_singleton _ _⟩, ?_⟩ ?_
  · exact hn.self.placedIn.liesIn s (hspan.trans hs)
  · intro hcomplete
    refine ⟨?_, by simpa [items] using hitem hcomplete, ?_, ?_⟩
    · intro x hx hnone
      obtain rfl : x = n := List.mem_singleton.mp hx
      exact absurd hnone (hitem hcomplete).span_ne_none
    · exact fun x hx => absurd hx List.not_mem_nil
    · exact fun x hx => absurd hx (Option.not_mem_none x)
  · simpa [children] using hn

/-- A node that has the place of its token keeps to the rules if all nodes in it do. -/
theorem Node.Located.of_token (hplaced : PlacedTokens source tokens) (hts : t :: ts <:+ tokens)
    (hrest : rest <:+ ts) (hsound : n.Throughout (Sound source tokens)) (hkind : n.kind ≠ .group)
    (hspan : n.span = t.span) : n.Located source tokens (t :: ts) rest := by
  refine ⟨hsound, (hplaced.of_suffix hts).between_token hspan hrest, fun hcomplete => ?_⟩
  refine ⟨?_, fun hgroup => absurd hgroup hkind⟩
  rw [hspan]
  exact hcomplete t (hts.subset List.mem_cons_self)

/-- A group among the tokens keeps to the rules if its body does, and its closing token is no
opening brace. -/
theorem Piece.Located.delimited {stop : Option String} {opening closing : String}
    (hplaced : PlacedTokens source tokens) (hts : t :: ts <:+ tokens) (hu : u :: rest <:+ ts)
    (hopen : t.text = opening) (hclose : u.text = closing) (hopening : opening ≠ " ")
    (hclosing : closing ∉ [" ", "\x7b"])
    (hbody : Piece.Located source tokens ts (u :: rest) (.body mode stop nodes)) :
    (Node.group ⟨mode, Span.cover t.span u.span⟩ nodes).Throughout (Node.Sound source tokens) ∧
      (Node.group ⟨mode, Span.cover t.span u.span⟩ nodes).Between (t :: ts) rest ∧
      ((∀ t ∈ tokens, t.span ≠ none) →
        (Node.group ⟨mode, Span.cover t.span u.span⟩ nodes).EnclosedIn opening closing) ∧
      ¬ FollowsBrace tokens rest := by
  simp only [List.mem_cons, List.not_mem_nil, or_false, not_or] at hclosing
  obtain ⟨hsound, hbetween, henclosed⟩ :=
    hbody.group (hplaced.of_suffix hts) hu hopen hclose hopening hclosing.1
  have hutokens : u :: rest <:+ tokens := hu.trans ((List.suffix_cons _ _).trans hts)
  refine ⟨hsound, hbetween, fun hcomplete => ?_, ?_⟩
  · exact henclosed (hcomplete t (hts.subset List.mem_cons_self))
      (hcomplete u (hutokens.subset List.mem_cons_self))
  · subst hclose
    exact not_followsBrace hutokens hclosing.2 hclosing.1

/-- **What is read keeps to the rules for places**, given that the tokens stand in the text one
behind the other. -/
theorem Reads.located {o : Options} {x : Piece} (h : Reads ⟨.standard, o⟩ x ts rest)
    (hplaced : PlacedTokens source tokens) (hts : ts <:+ tokens) :
    x.Located source tokens ts rest := by
  -- on the derivation; the tokens that are left are an end of those of the text
  induction h with
  | finish => exact ⟨.nil, fun n hn => absurd hn List.not_mem_nil⟩
  | @blank mode stop nodes t ts rest _ _ ih =>
    obtain ⟨hinOrder, hnodes⟩ := ih ((List.suffix_cons _ _).trans hts)
    refine ⟨hinOrder, fun n hn => ?_⟩
    obtain ⟨hsound, hbetween, hitem⟩ := hnodes n hn
    exact ⟨hsound, hbetween.of_suffix (List.suffix_cons _ _) List.suffix_rfl, hitem⟩
  | @next mode stop n nodes t ts mid rest hblank hopen hatom hbody ihatom ihbody =>
    obtain ⟨hn, -⟩ := ihatom hts
    obtain ⟨hinOrder, hnodes⟩ := ihbody (hatom.suffix.trans hts)
    -- the node ends before what is left of the tokens, where the others start
    refine ⟨hinOrder.cons hn.between fun m hm => (hnodes m hm).between, ?_⟩
    intro m hm
    rcases List.mem_cons.mp hm with rfl | hm
    · exact ⟨hn.sound, hn.between.of_suffix List.suffix_rfl hbody.suffix, hn.isItem⟩
    · obtain ⟨hsound, hbetween, hitem⟩ := hnodes m hm
      exact ⟨hsound, hbetween.of_suffix hatom.suffix List.suffix_rfl, hitem⟩
  | @group mode nodes t u ts rest hopen hbody hclose ih =>
    have htail : ts <:+ tokens := (List.suffix_cons _ _).trans hts
    obtain ⟨hsound, hbetween, henclosed, hbehind⟩ := (ih htail).delimited hplaced hts hbody.suffix
      hopen hclose (by decide) (by decide)
    refine ⟨⟨hsound, hbetween, fun hcomplete => ?_⟩, ?_⟩
    · exact ⟨(henclosed hcomplete).span_ne_none, fun _ => henclosed hcomplete⟩
    · intro v hv
      cases hv
      exact ⟨fun hbrace => absurd hopen hbrace, fun _ => hbehind⟩
  | @character mode t ts hbrace hcontrol hchar =>
    have hstands := hplaced.stands t (hts.subset List.mem_cons_self)
    obtain ⟨hsound, hspan, hkind⟩ := hstands.sound_node mode
    refine ⟨.of_token hplaced hts List.suffix_rfl hsound hkind hspan, ?_⟩
    intro v hv
    cases hv
    exact ⟨fun _ => ⟨hkind, hspan⟩, not_followsBrace hts hbrace⟩
  | @command mode c c' n t ts mid rest hbrace hcontrol hcall hargs hreply ihargs _ =>
    have hblank := (Token.isEnd_of_isControl hcontrol).2
    have hstands := hplaced.stands t (hts.subset List.mem_cons_self)
    obtain ⟨command, -, -, rfl, hmakes, rfl⟩ := hargs.exists_makes hcall hreply
    obtain ⟨hc', hbehind⟩ := ihargs ((List.suffix_cons _ _).trans hts) rfl
      ⟨fun a ha => absurd ha List.not_mem_nil, fun a ha => absurd ha List.not_mem_nil⟩
      (not_followsBrace hts hbrace hblank)
    obtain ⟨hsound, hkind, hspan⟩ :=
      hmakes.sound hc' hstands hargs.continues.token hargs.continues.name hblank
    refine ⟨.of_token hplaced hts hargs.suffix hsound hkind hspan, ?_⟩
    intro v hv
    cases hv
    exact ⟨fun _ => ⟨hkind, hspan⟩, fun _ => hbehind⟩
  | complete => exact fun _ hc hbrace => ⟨hc, hbrace⟩
  | @space c c' t ts rest hlacks hspace hargs ih =>
    intro hbare hc hbrace
    refine ih ((List.suffix_cons _ _).trans hts) hbare hc fun hfollows => ?_
    -- a blank is no brace, so the brace was in front of the blank already
    rcases hfollows.eq_or hts with hopen | ⟨-, hfollows⟩
    · rw [hspace] at hopen
      exact absurd hopen (by decide)
    · exact hbrace hfollows
  | @bracket c c' nodes t u ts mid rest hwants hopen hbody hclose hargs ihbody ihargs =>
    intro hbare hc _
    have htail : ts <:+ tokens := (List.suffix_cons _ _).trans hts
    have hmid : mid <:+ tokens := (List.suffix_cons _ _).trans (hbody.suffix.trans htail)
    obtain ⟨hsound, -, henclosed, hbehind⟩ := (ihbody htail).delimited hplaced hts hbody.suffix
      hopen hclose (by decide) (by decide)
    exact ihargs hmid (Call.bare_accept _ _)
      (hc.accept_optional hbare hwants hsound rfl henclosed) hbehind
  | @omitted c c' ts rest hwants hnext hargs ih =>
    intro hbare hc hbrace
    exact ih hts hbare hc.skip hbrace
  | @brace c c' nodes t u ts mid rest hlacks hwants hopen hbody hclose hargs ihbody ihargs =>
    intro hbare hc _
    have htail : ts <:+ tokens := (List.suffix_cons _ _).trans hts
    have hmid : mid <:+ tokens := (List.suffix_cons _ _).trans (hbody.suffix.trans htail)
    obtain ⟨hsound, -, henclosed, hbehind⟩ := (ihbody htail).delimited hplaced hts hbody.suffix
      hopen hclose (by decide) (by decide)
    refine ihargs hmid (Call.bare_accept _ _) ?_ hbehind
    have hargument : ∀ n : Node, c.argument n = n := fun n => by
      simp only [Call.argument, hbare]
    refine hc.accept_required hwants ?_ ?_ ?_ <;> rw [hargument]
    · exact hsound
    · rfl
    · exact fun hcomplete => .inl (henclosed hcomplete)
  | @bare c c' n t ts mid rest hlacks hwants hend hnext hatom hargs ihatom ihargs =>
    intro _ hc hbrace
    obtain ⟨hn, hhead⟩ := ihatom hts
    obtain ⟨hproper, hbehind⟩ := hhead t rfl
    -- the token is no opening brace, so the atom is no group and has the place of the token
    obtain ⟨hkind, hspan⟩ := hproper fun htext => hnext (by simp [htext])
    refine ihargs (hatom.suffix.trans hts) (Call.bare_accept _ _) ?_
      (hbehind fun htext => hnext (by simp [htext]))
    have hc' : Call.Located source tokens { c with bare := some t.span } :=
      ⟨hc.required, hc.optional⟩
    refine hc'.accept_required hwants (Node.sound_bare hspan hn.sound hn.isItem) rfl ?_
    intro hcomplete
    refine .inr (.inr ⟨⟨c.argumentMode, t.span⟩, n, t, ts, rfl, hkind, hspan, hts, rfl, ?_, hbrace⟩)
    exact hcomplete t (hts.subset List.mem_cons_self)
  | node | scope => trivial

end

/-! ### Whole texts -/

/-- **Nodes are where they say they are.**  A node that occurs in what is read from a text, and
that has a place, is written at its place; in each body the nodes with places are in order.
Without macros all nodes have places, apart from the space that pairs of arrows have for their
labels, and groups have their delimiters around their nodes. -/
theorem Environment.located_of_parse (o : Options) (source : String) (nodes : List Node)
    (h : (parse ⟨.standard, o⟩ source).1 = .ok nodes) :
    (Node.InOrder nodes ∧ ∀ mode n, Node.Occurs .math nodes mode n → n.PlacedIn source) ∧
    (o.macros = [] → ∃ tokens,
      (Parser.ofText source).drain ⟨.standard, o⟩ = .ok tokens ∧ (∀ n ∈ nodes, n.IsItem) ∧
        ∀ mode n, Node.Occurs .math nodes mode n → n.WrittenIn tokens) := by
  obtain ⟨tokens, last, hsupplies, hreads⟩ := reads_of_parse h
  obtain ⟨hinOrder, hnodes⟩ := hreads.located hsupplies.placed List.suffix_rfl
  -- the rules are known throughout the nodes, and what occurs is one of those
  have hsound : ∀ mode n, Node.Occurs .math nodes mode n → n.Sound source tokens := by
    intro mode n hn
    exact (hn.throughout fun x hx => (hnodes x hx).sound).self
  refine ⟨⟨hinOrder, fun mode n hn => (hsound mode n hn).placedIn⟩, fun hmacros => ?_⟩
  -- without macros every token has a place
  have hcomplete := hsupplies.span_ne_none hmacros rfl rfl
  refine ⟨tokens, ?_, fun n hn => (hnodes n hn).isItem hcomplete, fun mode n hn => ?_⟩
  · exact Parser.drain_eq_ok_iff.mpr ⟨last, hsupplies⟩
  · exact (hsound mode n hn).writtenIn hcomplete

/-- A fraction with braces around one argument, in which there is a character of two bytes and
a blank, and none around the other. -/
theorem Environment.located_of_parse_fraction :
    ∃ nodes tokens n,
      (parse ⟨.standard, {}⟩ "\\frac\x7bé \x7db").1 = .ok nodes ∧
      (Parser.ofText "\\frac\x7bé \x7db").drain ⟨.standard, {}⟩ = .ok tokens ∧
      Node.Occurs .math nodes .math n ∧ n.kind = .fraction ∧
      n.PlacedIn "\\frac\x7bé \x7db" ∧ n.WrittenIn tokens := by
  let token := Token.ofPlace "\\frac\x7bé \x7db"
  let closing := token "\x7d" 9 10
  let upper : Node := .group ⟨.math, Span.cover (token "\x7b" 5 6).span closing.span⟩
    [(token "é" 6 8).node .math]
  let lower : Node := .group ⟨.math, (token "b" 10 11).span⟩ [(token "b" 10 11).node .math]
  let fraction : Node := .fraction ⟨.math, (token "\\frac" 0 5).span⟩ upper lower
  have hdrain : ((Parser.ofText "\\frac\x7bé \x7db").drain ⟨.standard, {}⟩).toOption =
      some [token "\\frac" 0 5, token "\x7b" 5 6, token "é" 6 8, token " " 8 9, closing,
        token "b" 10 11] := by
    decide +kernel
  have hupper : Reads ⟨.standard, {}⟩ (.body .math none [(token "é" 6 8).node .math])
      [token "é" 6 8, token " " 8 9, closing, token "b" 10 11] [closing, token "b" 10 11] :=
    .next (by decide) (by decide) (.character (by decide) (by decide +kernel) (by decide))
      (.blank (by decide) (.finish (endsAt_brace rfl _)))
  have hlower : Reads ⟨.standard, {}⟩ (.atom .math ((token "b" 10 11).node .math))
      [token "b" 10 11] [] :=
    .character (by decide) (by decide +kernel) (by decide)
  have hfraction : Reads ⟨.standard, {}⟩ (.atom .math fraction) _ [] :=
    .standard_command (t := token "\\frac" 0 5) .fraction rfl
      (.brace rfl rfl rfl hupper rfl
        (.bare rfl rfl (by decide) (by decide) hlower (.complete rfl))) rfl
  have hparse := parse_of_drain hdrain (.next (by decide) (by decide) hfraction (.finish nofun))
  have hoccurs : Node.Occurs .math [fraction] .math fraction := .here List.mem_cons_self
  obtain ⟨⟨-, hplaced⟩, hwritten⟩ := located_of_parse _ _ _ hparse
  obtain ⟨tokens, htokens, -, hwritten⟩ := hwritten rfl
  exact ⟨[fraction], tokens, fraction, hparse, htokens, hoccurs, rfl, hplaced _ _ hoccurs,
    hwritten _ _ hoccurs⟩

end MathMarkup
