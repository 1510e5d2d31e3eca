import MathMarkup.Proofs.Node.Formed
import MathMarkup.Proofs.Parser.Grammar

/-!
# The parser keeps the characters

The characters of the nodes that are read are the tokens that stand for themselves, each once
and in the order in which they were written.  Commands, braces and the like are not among them.

Two kinds of tokens stand for themselves in some places only: blanks, which mean nothing in math
mode and in front of arguments, and brackets, which may enclose an optional argument.  They are
left out on both sides.

The order is that of the text.  An optional argument is written before the required ones,
although the node of an arrow keeps it behind them.  The space that a pair of arrows has for its
labels is made of copies that were not written.

## Main definitions

* `Node.characters`, `Call.characters` — the characters of a node, and of the arguments of a call.
* `shown`, `written` — the characters and the tokens that are compared.

## Main results

* `Call.Orderly.characters_accept` — an argument comes behind those that are there.
* `Command.Makes.characters_eq` — a command keeps the characters of its arguments.
* `Reads.conserves` — whatever is read keeps the characters.
* `Environment.characters_of_parse` — **so do the nodes of a text.**
-/

namespace MathMarkup

namespace Node

/-! ### The characters of nodes -/

mutual

/-- The characters of a node in the order in which they are written. -/
def characters : Node → List String
  | letter _ t | symbol _ t => [t]
  | group _ body | text _ body => charactersList body
  | fraction _ a b => characters a ++ characters b
  | phantom _ a | lap _ _ a => characters a
  | arrow _ _ body below | arrowPair _ _ body below _ _ =>
      charactersOption below ++ charactersOption body

/-- The characters of some nodes, one after the other. -/
def charactersList : List Node → List String
  | [] => []
  | n :: ns => characters n ++ charactersList ns

/-- The characters of a node that may be missing. -/
def charactersOption : Option Node → List String
  | none => []
  | some n => characters n

end

theorem charactersList_eq_flatMap (ns : List Node) : charactersList ns = ns.flatMap characters := by
  induction ns with
  | nil => rw [charactersList, List.flatMap_nil]
  | cons n ns ih => rw [charactersList, ih, List.flatMap_cons]

theorem charactersList_append (ns ms : List Node) :
    charactersList (ns ++ ms) = charactersList ns ++ charactersList ms := by
  simp only [charactersList_eq_flatMap, List.flatMap_append]

theorem charactersList_singleton (n : Node) : charactersList [n] = n.characters := by
  rw [charactersList, charactersList, List.append_nil]

theorem characters_group (s : Site) (body : List Node) :
    characters (.group s body) = charactersList body := by
  rw [characters]

theorem charactersList_elements (n : Node) : charactersList n.elements = n.characters := by
  cases n with
  | group s body => rw [elements, characters_group]
  | _ => exact charactersList_singleton _

end Node

theorem Token.characters_node (t : Token) (mode : Mode) : (t.node mode).characters = [t.text] := by
  unfold Token.node
  split <;> rw [Node.characters]

/-! ### The characters of arguments -/

open Node in
/-- The characters of the arguments that a command has, the optional ones first. -/
def argumentCharacters (optional : List (Option Node)) (required : List Node) : List String :=
  optional.flatMap charactersOption ++ charactersList required

namespace Call

/-- The characters of the arguments read so far. -/
def characters (c : Call) : List String := argumentCharacters c.optional c.required

/-- An argument has the characters of its node, with braces or without. -/
theorem characters_argument (c : Call) (n : Node) : (c.argument n).characters = n.characters := by
  unfold argument
  split
  · rw [Node.characters_group, Node.charactersList_singleton]
  · rfl

/-- Each argument comes behind those that are there: as long as there are optional arguments to
come, there are no required ones. -/
theorem Orderly.characters_accept {c : Call} (h : c.Orderly) (n : Node) :
    (c.accept n).characters = c.characters ++ n.characters := by
  unfold Call.accept
  split
  · -- no required argument is there yet, so the end of the optional ones is the end of all
    rename_i hwants
    have hnone := h.required_nil hwants
    simp only [characters, argumentCharacters, hnone, List.flatMap_append, List.flatMap_cons,
      List.flatMap_nil, Node.charactersOption, Node.charactersList, characters_argument,
      List.append_nil]
  · simp only [characters, argumentCharacters, Node.charactersList_append,
      Node.charactersList_singleton, characters_argument, List.append_assoc]

theorem characters_skip (c : Call) : c.skip.characters = c.characters := by
  simp only [characters, argumentCharacters, skip, List.flatMap_append, List.flatMap_cons,
    List.flatMap_nil, Node.charactersOption, List.append_nil]

theorem characters_openCall {env : Environment} {t : Token} {mode : Mode} {c : Call}
    (h : env.openCall t mode = .ok c) : c.characters = [] := by
  obtain ⟨command, -, -, rfl⟩ := Environment.openCall_eq_ok_iff.mp h
  simp only [characters, argumentCharacters, List.flatMap_nil, Node.charactersList,
    List.append_nil]

end Call

/-- A standard command keeps the characters of its arguments, all of them and in order.  The copies
of labels that a pair of arrows makes are not counted. -/
theorem Command.Makes.characters_eq {c : Command} {i : Invocation} {n : Node} (h : c.Makes i n)
    (hlength : i.optional.length = c.optional) :
    n.characters = argumentCharacters i.optional i.required := by
  -- most commands have no optional argument, and the arrows have one
  have hnone : c.optional = 0 → i.optional = [] := by
    intro hzero
    exact List.length_eq_zero_iff.mp (hlength.trans hzero)
  have hone : c.optional = 1 →
      i.optional.flatMap Node.charactersOption = Node.charactersOption i.firstOptional := by
    intro hone
    obtain ⟨a, ha⟩ := List.length_eq_one_iff.mp (hlength.trans hone)
    rw [Invocation.firstOptional, ha, List.flatMap_cons, List.flatMap_nil, List.append_nil]
    rfl
  unfold argumentCharacters
  cases h with
  | arrow _ hrequired | arrowPair _ hrequired =>
    rw [hone rfl, hrequired, Node.charactersList_singleton, Node.characters,
      Node.charactersOption]
  | lap _ hrequired | phantom _ hrequired =>
    rw [hnone rfl, hrequired, Node.charactersList_singleton, Node.characters]
    rfl
  | fraction _ hrequired =>
    rw [hnone rfl, hrequired, Node.charactersList, Node.charactersList_singleton,
      Node.characters]
    rfl
  | text _ hrequired =>
    rw [hnone rfl, hrequired, Node.charactersList_singleton, Node.characters,
      Node.charactersList_elements]
    rfl

/-! ### What is compared -/

/-- The characters that stand for themselves wherever they are written. -/
def shown (texts : List String) : List String := texts.filter (· ∉ [" ", "[", "]"])

/-- The texts of the tokens that stand for themselves wherever they are written. -/
def written (ts : List Token) : List String :=
  (ts.map Token.text).filter fun s =>
    s ∉ [" ", "\x7b", "\x7d", "[", "]"] ∧ Token.isControl ⟨s, none⟩ = false

theorem shown_append (ss ts : List String) : shown (ss ++ ts) = shown ss ++ shown ts :=
  List.filter_append ..

@[simp] theorem shown_nil : shown [] = [] := rfl

/-- Blanks, braces and brackets do not count. -/
theorem written_cons_of_mem {t : Token} (h : t.text ∈ [" ", "\x7b", "\x7d", "[", "]"])
    (ts : List Token) : written (t :: ts) = written ts := by
  rw [written, List.map_cons, List.filter_cons_of_neg (by simp [h])]
  rfl

/-- Commands do not count. -/
theorem written_cons_of_isControl {t : Token} (h : t.isControl = true) (ts : List Token) :
    written (t :: ts) = written ts := by
  have hcontrol : Token.isControl ⟨t.text, none⟩ = true := h
  rw [written, List.map_cons, List.filter_cons_of_neg (by simp [hcontrol])]
  rfl

/-- A token that is read as a character counts as the character does. -/
theorem written_cons_of_isSymbol {t : Token} (h : IsSymbol t.text) (ts : List Token) :
    written (t :: ts) = shown [t.text] ++ written ts := by
  obtain ⟨hcontrol, hmem⟩ := h
  simp only [List.mem_cons, List.not_mem_nil, or_false, not_or] at hmem
  -- a token that is read as a character is neither a brace nor a command
  have hsame : decide (t.text ∉ [" ", "\x7b", "\x7d", "[", "]"] ∧
      Token.isControl ⟨t.text, none⟩ = false) = decide (t.text ∉ [" ", "[", "]"]) := by
    simp [hcontrol, hmem]
  rw [written, List.map_cons, List.filter_cons, hsame, shown, List.filter_cons]
  split <;> rfl

/-! ### What is read keeps the characters -/

/-- What the characters of a piece are that is read from some tokens, where some are left: those of
the tokens that were used up, and for arguments those that were added to the call. -/
def Piece.Conserves (ts rest : List Token) : Piece → Prop
  | .body _ _ nodes => written ts = shown (Node.charactersList nodes) ++ written rest
  | .atom _ n => written ts = shown n.characters ++ written rest
  | .arguments c c' => c.Orderly →
      shown c.characters ++ written ts = shown c'.characters ++ written rest
  | .reply _ _ => True

/-- An argument that was enclosed in braces or brackets is added to the call with its
characters. -/
theorem Piece.Conserves.enclosed {mode : Mode} {stop : Option String} {nodes : List Node}
    {c : Call} {t u : Token} {ts mid : List Token}
    (hopen : t.text ∈ [" ", "\x7b", "\x7d", "[", "]"])
    (hclose : u.text ∈ [" ", "\x7b", "\x7d", "[", "]"])
    (hbody : (Piece.body mode stop nodes).Conserves ts (u :: mid)) (hc : c.Orderly) (s : Site) :
    shown c.characters ++ written (t :: ts) =
      shown (c.accept (.group s nodes)).characters ++ written mid := by
  have hwritten : written ts = shown (Node.charactersList nodes) ++ written (u :: mid) := hbody
  rw [written_cons_of_mem hopen, hwritten, written_cons_of_mem hclose, hc.characters_accept,
    Node.characters_group, shown_append, List.append_assoc]

/-- **Whatever is read with the standard commands keeps the characters.**  The characters of the
tokens that a piece uses up are those that its nodes show, in the same order; of a call they are
those of the arguments that it has got. -/
theorem Reads.conserves {o : Options} {x : Piece} {ts rest : List Token}
    (h : Reads ⟨.standard, o⟩ x ts rest) : x.Conserves ts rest := by
  -- on the derivation: what each rule uses up is what it adds to the nodes
  induction h with
  | finish hend =>
    rw [Piece.Conserves, Node.charactersList]
    rfl
  | @blank mode stop nodes t ts rest hblank hbody ih =>
    have hspace : t.text = " " := by
      simp only [Stack.isIgnored, Bool.and_eq_true, beq_iff_eq] at hblank
      exact hblank.2
    exact (written_cons_of_mem (by simp [hspace]) ts).trans ih
  | @next mode stop n nodes t ts mid rest hblank hopen hatom hbody ihatom ihbody =>
    have hfirst : written (t :: ts) = shown n.characters ++ written mid := ihatom
    have hothers : written mid = shown (Node.charactersList nodes) ++ written rest := ihbody
    rw [Piece.Conserves, hfirst, hothers, Node.charactersList, shown_append, List.append_assoc]
  | @group mode nodes t u ts rest hopen hbody hclose ih =>
    have hinner : written ts = shown (Node.charactersList nodes) ++ written (u :: rest) := ih
    rw [Piece.Conserves, written_cons_of_mem (by simp [hopen]), hinner,
      written_cons_of_mem (by simp [hclose]), Node.characters_group]
  | @character mode t ts hbrace hcontrol hchar =>
    rw [Piece.Conserves, t.characters_node]
    exact written_cons_of_isSymbol (Token.isSymbol_iff.mpr ⟨hbrace, hcontrol, hchar⟩) ts
  | @command mode c c' n t ts mid rest hbrace hcontrol hcall hargs hreply ihargs _ =>
    -- the call starts without arguments, so all of its characters were read with them
    have horderly := Call.orderly_openCall hcall
    have hkept := ihargs horderly
    rw [Call.characters_openCall hcall] at hkept
    obtain ⟨horderly', hcomplete⟩ := hargs.orderly horderly
    have hlength : c'.invocation.optional.length = c'.command.optional :=
      (horderly'.lengths hcomplete).1
    have hcommand := hargs.continues.command
    obtain ⟨command, -, -, rfl, hmakes, rfl⟩ := hargs.exists_makes hcall hreply
    rw [Piece.Conserves, written_cons_of_isControl hcontrol,
      hmakes.characters_eq (hlength.trans (by rw [hcommand]))]
    exact hkept
  | complete hcomplete => exact fun _ => rfl
  | @space c c' t ts rest hlacks hspace hargs ih =>
    intro hc
    rw [written_cons_of_mem (by simp [hspace])]
    exact ih hc
  | @bracket c c' nodes t u ts mid rest hwants hopen hbody hclose hargs ihbody ihargs =>
    intro hc
    rw [ihbody.enclosed (by simp [hopen]) (by simp [hclose]) hc]
    exact ihargs (hc.accept (Call.isComplete_of_wantsOptional hwants) _)
  | @omitted c c' ts rest hwants hnext hargs ih =>
    intro hc
    rw [← c.characters_skip]
    exact ih (hc.skip hwants)
  | @brace c c' nodes t u ts mid rest hlacks hwants hopen hbody hclose hargs ihbody ihargs =>
    intro hc
    rw [ihbody.enclosed (by simp [hopen]) (by simp [hclose]) hc]
    exact ihargs (hc.accept hlacks _)
  | @bare c c' n t ts mid rest hlacks hwants hend hnext hatom hargs ihatom ihargs =>
    intro hc
    -- without braces the characters are those of one atom
    have hbare := hc.bare (some t.span)
    have hwritten : written (t :: ts) = shown n.characters ++ written mid := ihatom
    rw [hwritten, ← List.append_assoc, ← shown_append]
    have hrest := ihargs (hbare.accept hlacks n)
    rw [hbare.characters_accept] at hrest
    exact hrest
  | node | scope => trivial

/-! ### Texts -/

namespace Environment

/-- **The parser loses, repeats and reorders no character.**  For the standard registry, any
options and a text that is read, all tokens of the text come out of a fresh parser, and the
characters of the nodes are the texts of these tokens, in order, where blanks and brackets are
left out on both sides, and braces and commands among the tokens. -/
theorem characters_of_parse (o : Options) (source : String) (nodes : List Node)
    (h : (parse ⟨.standard, o⟩ source).1 = .ok nodes) :
    ∃ ts, (Parser.ofText source).drain ⟨.standard, o⟩ = .ok ts ∧
      (nodes.flatMap Node.characters).filter (· ∉ [" ", "[", "]"]) =
        (ts.map Token.text).filter fun s =>
          s ∉ [" ", "\x7b", "\x7d", "[", "]"] ∧ Token.isControl ⟨s, none⟩ = false := by
  obtain ⟨ts, last, hsupplies, hreads⟩ := reads_of_parse h
  refine ⟨ts, Parser.drain_eq_ok_iff.mpr ⟨last, hsupplies⟩, ?_⟩
  have hconserves : written ts = shown (Node.charactersList nodes) ++ written [] := hreads.conserves
  rw [Node.charactersList_eq_flatMap] at hconserves
  exact (hconserves.trans (List.append_nil _)).symm

/-- A pair of arrows from a macro, with the label below in brackets and a text with a blank and a
bracket as its other label. -/
theorem characters_of_parse_arrowPair :
    ∃ nodes, (parse ⟨.standard, { macros := [("\\m", "\\xtofrom")], strict := .mode .warn }⟩
        "\\m[a]\\text\x7bb [\x7d").1 = .ok nodes ∧
      (nodes.flatMap Node.characters).filter (· ∉ [" ", "[", "]"]) = ["a", "b"] := by
  have htexts : ((Parser.ofText "\\m[a]\\text\x7bb [\x7d").drain
      ⟨.standard, { macros := [("\\m", "\\xtofrom")], strict := .mode .warn }⟩).map
        (·.map Token.text) =
      .ok ["\\xtofrom", "[", "a", "]", "\\text", "\x7b", "b", " ", "[", "\x7d"] := by
    decide +kernel
  have hsymbol : ∀ s ∈ ["a", "b", " ", "["], IsSymbol s := by decide +kernel
  have hletter : Derives .standard (.atom .math) ["a"] := .symbol (hsymbol "a" (by simp)) (by simp)
  have hbody : Derives .standard (.body .text [["b"], [" "], ["["]]) ["b", " ", "["] := by
    refine .append (a := ["b"]) (.symbol (hsymbol "b" (by simp)) (by simp)) ?_
    refine .append (a := [" "]) (.symbol (hsymbol " " (by simp)) (by simp)) ?_
    exact .append (a := ["["]) (.symbol (hsymbol "[" (by simp)) (by simp)) .empty
  have htext : Derives .standard (.atom .math) ["\\text", "\x7b", "b", " ", "[", "\x7d"] := by
    refine .command (Registry.command?_standard_iff.mpr .text) rfl ?_
    exact .brace (b := ["b", " ", "["]) (by decide) (by decide) hbody (.complete (by decide))
  have hpair : Derives .standard (.atom .math)
      ["\\xtofrom", "[", "a", "]", "\\text", "\x7b", "b", " ", "[", "\x7d"] := by
    refine .command (Registry.command?_standard_iff.mpr (.arrowPair (by decide))) rfl ?_
    refine .bracket (b := ["a"]) (by decide) (.append hletter .empty) (by simp) ?_
    exact .bare (a := ["\\text", "\x7b", "b", " ", "[", "\x7d"]) (by decide) (by decide) htext
      (by simp) (by simp) (.complete (by decide))
  have hstrict : ∀ breach, (Strictness.mode .warn).resolve breach ≠ .error := by
    simp [Strictness.resolve]
  cases hdrain : (Parser.ofText "\\m[a]\\text\x7bb [\x7d").drain
      ⟨.standard, { macros := [("\\m", "\\xtofrom")], strict := .mode .warn }⟩ with
  | error e =>
    rw [hdrain] at htexts
    cases htexts
  | ok ts =>
    have hts : ts.map Token.text = _ := Except.ok.inj (hdrain ▸ htexts)
    obtain ⟨last, hsupplies⟩ := Parser.drain_eq_ok_iff.mp hdrain
    obtain ⟨nodes, hreads⟩ := (Derives.append hpair .empty).reads
      (o := { macros := [("\\m", "\\xtofrom")], strict := .mode .warn }) hstrict none [] hts
      hsupplies.isEnd_eq_false (by simp) (endsAt_nil _ _)
    have hparse := (parse_eq_ok_iff_reads hsupplies).mpr (by simpa using hreads)
    obtain ⟨us, hus, hcharacters⟩ := characters_of_parse _ _ _ hparse
    obtain rfl : ts = us := Except.ok.inj (hdrain.symm.trans hus)
    refine ⟨nodes, hparse, hcharacters.trans ?_⟩
    rw [hts]
    decide +kernel

end Environment

end MathMarkup
