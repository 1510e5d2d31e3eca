import MathMarkup.Proofs.Node.Erase
import MathMarkup.Proofs.Parser.Congruence
import MathMarkup.Proofs.Parser.Supply

/-!
# Macros are replaced before anything is read

The parser never learns whether a token stood in the text or came out of a macro, except
that a token from a macro has no place.  So what becomes of a text is fixed by the texts of
its tokens, with all macros replaced: two texts with the same ones have the same nodes, or
fail for the same reason, places apart.

Places reach the strict policy if it is a rule, and a rule may look at them.  A policy that
gives the same answer to everything does not.

## Main definitions

* `Comparison.Readings` — related results of reading tokens.
* `Comparison.places` — the comparison that forgets places.
* `forgetPlaces` — what becomes of a text, without places.

## Main results

* `Comparison.Stacks.readList` — tokens with the same texts are read to the same effect.
* `Comparison.congruent_places` — forgetting places goes through the constructors, so that the
  standard commands do not notice.
* `Environment.parse_of_same_texts` — **the texts of its tokens fix what becomes of a text.**
-/

namespace MathMarkup

/-! ### Reading lists of tokens -/

namespace Comparison

variable {α : Type} {R : Comparison} {value : α → α → Prop} {registry : Registry}

/-- Related results of reading tokens: both have a value and leave related tokens, or both
fail. -/
inductive Readings (R : Comparison) (value : α → α → Prop) :
    Except CompileError (α × List Token) → Except CompileError (α × List Token) → Prop where
  /-- Both have a value. -/
  | ok {a a' : α} {rest rest' : List Token} (hvalue : value a a')
      (hrest : List.Forall₂ R.Tokens rest rest') :
      Readings R value (.ok (a, rest)) (.ok (a', rest'))
  /-- Both fail. -/
  | error {e e' : CompileError} (herror : R.error e e') :
      Readings R value (.error e) (.error e')

theorem Moves.leaves {move move' : Move α} (h : R.Moves value move move') {ts ts' : List Token}
    (hts : List.Forall₂ R.Tokens ts ts') :
    List.Forall₂ R.Tokens (move.leaves ts) (move'.leaves ts') := by
  unfold Move.leaves
  rw [h.taken]
  split
  · cases hts with
    | nil => exact .nil
    | cons _ hrest => exact hrest
  · exact hts

/-- The first of some tokens, or the end marker behind them: this is what a stack is fed next. -/
theorem tokens_headD {ts ts' : List Token} (hts : List.Forall₂ R.Tokens ts ts')
    {span span' : Option Span} (hspan : R.span span span') :
    R.Tokens (ts.headD (.finish span)) (ts'.headD (.finish span')) := by
  cases hts with
  | nil => exact ⟨rfl, hspan⟩
  | cons ht _ => exact ht

/-- **Tokens with the same texts are read to the same effect**, if the commands respect the
comparison. -/
theorem Stacks.readList (hr : R.RespectsAll registry) {s s' : Stack α}
    (h : R.Stacks value s s') {ts ts' : List Token} (hts : List.Forall₂ R.Tokens ts ts')
    {span span' : Option Span} (hspan : R.span span span') :
    R.Readings value (s.readList ⟨registry, R.left⟩ span ts)
      (s'.readList ⟨registry, R.right⟩ span' ts') := by
  -- the recursion of the first run; the second makes a related move at every step
  fun_induction Stack.readList ⟨registry, R.left⟩ span ts s generalizing s' ts' with
  | case1 ts s s₁ hread ih =>
    have hmove := h.feed hr (tokens_headD hts hspan)
    obtain ⟨s₁', hread', hstack⟩ := (hread ▸ hmove.outcome).exists_read
    rw [Stack.readList_eq ⟨registry, R.right⟩, Move.follow, hread']
    exact ih hstack (hmove.leaves hts)
  | case2 ts s a hdone =>
    have hmove := h.feed hr (tokens_headD hts hspan)
    obtain ⟨a', hdone', hvalue⟩ := (hdone ▸ hmove.outcome).exists_done
    rw [Stack.readList_eq ⟨registry, R.right⟩, Move.follow, hdone']
    exact .ok hvalue (hmove.leaves hts)
  | case3 ts s e hfail =>
    have hmove := h.feed hr (tokens_headD hts hspan)
    obtain ⟨e', hfail', herror⟩ := (hfail ▸ hmove.outcome).exists_fail
    rw [Stack.readList_eq ⟨registry, R.right⟩, Move.follow, hfail']
    exact .error herror

end Comparison

/-! ### Forgetting places -/

namespace Comparison

/-- The comparison that forgets places: nodes are the same without them, and errors have the
same cause. -/
def places (left right : Options) : Comparison where
  left := left
  right := right
  span _ _ := True
  node n n' := n.erase = n'.erase
  error e e' := e.reason = e'.reason
  log _ _ := True
  span_cover _ _ := trivial
  node_letter _ _ := rfl
  node_symbol _ _ := rfl
  node_group _ hitems := by
    rw [Node.erase_group, Node.erase_group]
    exact congrArg _ (List.forall₂_eq_eq_eq ▸ List.forall₂_map_left_iff.mpr
      (List.forall₂_map_right_iff.mpr hitems))
  error_located _ _ := rfl
  log_nil := trivial
  log_append _ _ := trivial

variable {left right : Options}

/-- Nodes are related one by one exactly if they are the same lists without their places. -/
theorem forall₂_places_iff {xs ys : List Node} :
    List.Forall₂ (places left right).node xs ys ↔ xs.map Node.erase = ys.map Node.erase := by
  rw [← List.forall₂_eq_eq_eq, List.forall₂_map_left_iff, List.forall₂_map_right_iff]
  rfl

/-- Nodes that may be missing are related exactly if they are the same without their places. -/
theorem rel_places_iff {x y : Option Node} :
    Option.Rel (places left right).node x y ↔ x.map Node.erase = y.map Node.erase := by
  constructor
  · intro h
    cases h with
    | some hnode => exact congrArg some hnode
    | none => rfl
  · intro h
    cases x with
    | none =>
      rw [Option.map_eq_none_iff.mp h.symm]
      exact .none
    | some n =>
      obtain ⟨n', rfl, hnode⟩ := Option.map_eq_some_iff.mp h.symm
      exact .some hnode.symm

/-- Forgetting places goes through the constructors.  The policies have to give one answer to
everything, as two breaches may differ in their tokens. -/
theorem congruent_places
    (hstrict : ∀ breach breach', left.strict.resolve breach = right.strict.resolve breach') :
    (places left right).Congruent where
  span_none := trivial
  node_fraction _ hx hy := by
    simp only [places] at hx hy ⊢
    rw [Node.erase, Node.erase, hx, hy]
    rfl
  node_phantom _ hx := congrArg (Node.phantom _) hx
  node_lap side _ hx := congrArg (Node.lap _ side) hx
  node_text _ hxs := by
    simp only [places, Node.erase, Node.eraseList_eq_map, forall₂_places_iff.mp hxs]
    rfl
  node_arrow label _ hx hy := by
    simp only [places, Node.erase, Node.eraseOption_eq_map, rel_places_iff.mp hx,
      rel_places_iff.mp hy]
    rfl
  node_arrowPair label _ hx hy hupper hlower := by
    simp only [places, Node.erase, Node.eraseOption_eq_map, rel_places_iff.mp hx,
      rel_places_iff.mp hy, rel_places_iff.mp hupper, rel_places_iff.mp hlower]
    rfl
  node_elements hn := forall₂_places_iff.mpr (Node.map_erase_elements hn)
  resolve := hstrict
  log _ _ := trivial

end Comparison

/-! ### Whole texts -/

/-- What becomes of a text, without places: its nodes, or the cause of its error. -/
def forgetPlaces : Except CompileError (List Node) → Except Reason (List Node)
  | .ok nodes => .ok (nodes.map Node.erase)
  | .error e => .error e.reason

namespace Comparison

variable {left right : Options}

/-- Tokens are related one by one exactly if they have the same texts. -/
theorem forall₂_tokens_iff {ts ts' : List Token} :
    List.Forall₂ (places left right).Tokens ts ts' ↔
      ts.map Token.text = ts'.map Token.text := by
  have htokens : ∀ {t t' : Token}, (places left right).Tokens t t' ↔ t.text = t'.text :=
    ⟨Tokens.text, fun htext => ⟨htext, trivial⟩⟩
  rw [← List.forall₂_eq_eq_eq, List.forall₂_map_left_iff, List.forall₂_map_right_iff]
  exact ⟨.imp fun _ _ => htokens.mp, .imp fun _ _ => htokens.mpr⟩

/-- A first token that is left is the same error in both, as the error names its text only. -/
theorem Readings.closeDocument {reading reading' : Except CompileError (List Node × List Token)}
    (h : (places left right).Readings (List.Forall₂ (places left right).node) reading reading') :
    forgetPlaces (Parser.closeDocument reading) =
      forgetPlaces (Parser.closeDocument reading') := by
  cases h with
  | error herror => exact congrArg Except.error herror
  | ok hvalue hrest =>
    cases hrest with
    | nil => exact congrArg Except.ok (forall₂_places_iff.mp hvalue)
    | cons ht _ =>
      simp only [Parser.closeDocument, forgetPlaces, ht.text]
      rfl

end Comparison

namespace Environment

/-- Tokens with the same texts become the same document, if the commands forget places. -/
theorem forgetPlaces_readList {registry : Registry} {left right : Options}
    (hrespects : (Comparison.places left right).RespectsAll registry) (source source' : String)
    {ts ts' : List Token} (htexts : ts.map Token.text = ts'.map Token.text)
    (span span' : Option Span) :
    forgetPlaces (Parser.closeDocument
        ((Parser.ofText source).start.readList ⟨registry, left⟩ span ts)) =
      forgetPlaces (Parser.closeDocument
        ((Parser.ofText source').start.readList ⟨registry, right⟩ span' ts')) := by
  have hstart : (Comparison.places left right).Stacks
      (List.Forall₂ (Comparison.places left right).node)
      (Parser.ofText source).start (Parser.ofText source').start := .expression id
  have hspan : (Comparison.places left right).span span span' := trivial
  exact (hstart.readList hrespects (Comparison.forall₂_tokens_iff.mpr htexts) hspan).closeDocument

/-- Texts whose tokens have the same texts become the same, if the commands forget places. -/
theorem forgetPlaces_parse {registry : Registry} {left right : Options}
    (hrespects : (Comparison.places left right).RespectsAll registry)
    {source source' : String} {ts ts' : List Token} {last last' : Token}
    (h : (Parser.ofText source).Supplies ⟨registry, left⟩ ts last)
    (h' : (Parser.ofText source').Supplies ⟨registry, right⟩ ts' last')
    (htexts : ts.map Token.text = ts'.map Token.text) :
    forgetPlaces (parse ⟨registry, left⟩ source).1 =
      forgetPlaces (parse ⟨registry, right⟩ source').1 := by
  -- from here on the texts are lists of tokens, and macros play no part
  rw [parse_eq_of_supplies h, parse_eq_of_supplies h']
  exact forgetPlaces_readList hrespects source source' htexts last.span last'.span

/-- **The texts of its tokens fix what becomes of a text**, places apart: if two texts come to
the same ones, whatever macros each of them goes through, they have the same nodes or fail for
the same reason. -/
theorem parse_of_same_texts (o : Options) (hfixed : ∀ answer, o.strict ≠ .rule answer)
    (macros macros' : MacroTable) (limit limit' : Nat) (source source' : String)
    (words : List String)
    (h : ((Parser.ofText source).drain
      ⟨.standard, { o with macros := macros, maxExpand := limit }⟩).map (·.map Token.text) =
        .ok words)
    (h' : ((Parser.ofText source').drain
      ⟨.standard, { o with macros := macros', maxExpand := limit' }⟩).map (·.map Token.text) =
        .ok words) :
    forgetPlaces
        (parse ⟨.standard, { o with macros := macros, maxExpand := limit }⟩ source).1 =
      forgetPlaces
        (parse ⟨.standard, { o with macros := macros', maxExpand := limit' }⟩ source').1 := by
  obtain ⟨ts, last, hts, htexts⟩ := Parser.exists_supplies_of_map_drain h
  obtain ⟨ts', last', hts', htexts'⟩ := Parser.exists_supplies_of_map_drain h'
  refine forgetPlaces_parse ?_ hts hts' (htexts.trans htexts'.symm)
  refine (Comparison.congruent_places ?_).respectsAll
  exact Strictness.resolve_eq hfixed

/-- A fraction that two macros put together, one of which opens a brace, and the same fraction
as it stands. -/
theorem parse_of_same_texts_fraction :
    ((Parser.ofText "\\half x\x7d").drain ⟨.standard,
      { macros := [("\\half", "\\frac\\one"), ("\\one", "1\x7b")], maxExpand := 2 }⟩).map
        (·.map Token.text) = .ok ["\\frac", "1", "\x7b", "x", "\x7d"] ∧
    forgetPlaces (parse ⟨.standard,
        { macros := [("\\half", "\\frac\\one"), ("\\one", "1\x7b")], maxExpand := 2 }⟩
          "\\half x\x7d").1 =
      forgetPlaces (parse ⟨.standard, { macros := [], maxExpand := 0 }⟩ "\\frac1\x7bx\x7d").1 := by
  have hdrain : ((Parser.ofText "\\half x\x7d").drain ⟨.standard,
      { macros := [("\\half", "\\frac\\one"), ("\\one", "1\x7b")], maxExpand := 2 }⟩).map
        (·.map Token.text) = .ok ["\\frac", "1", "\x7b", "x", "\x7d"] := by
    decide +kernel
  refine ⟨hdrain, parse_of_same_texts {} nofun _ _ _ _ _ _ _ hdrain ?_⟩
  decide +kernel

end Environment

end MathMarkup
