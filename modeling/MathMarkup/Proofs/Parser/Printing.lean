import MathMarkup.Proofs.Node.Erase
import MathMarkup.Proofs.Node.Formed
import MathMarkup.Proofs.Token.Legible

/-!
# Printing nodes and reading them again

Nodes can be printed as tokens: a group in braces, a command with its name and its arguments,
a label below in brackets.  Spelled out and read without any macros, the tokens give the same
nodes, up to their places in the document.

Printed arguments are always in braces, so it does not matter that an argument may be read
without them; and overlaps are printed with the names for math mode, which no policy refuses.

## Main definitions

* `Node.printed`, `Node.printedList` — the texts of the tokens of nodes.
* `Node.print` — nodes as a text.
* `Node.Rereads`, `Node.BodyRereads` — what is printed is read again.

## Main results

* `Node.Formed.rereads` — well-formed nodes are read again.
* `Environment.parse_print` — the nodes of a text, printed and read, are the same nodes.
-/

namespace MathMarkup

namespace Node

/-! ### Printing -/

mutual

/-- The texts of the tokens that a node is printed as. -/
def printed : Node → List String
  | group _ body => "\x7b" :: (printedList body ++ ["\x7d"])
  | fraction _ a b => "\\frac" :: (printed a ++ printed b)
  | letter _ t | symbol _ t => [t]
  | text _ body => "\\text" :: "\x7b" :: (printedList body ++ ["\x7d"])
  | phantom _ a => "\\hphantom" :: printed a
  | lap _ side a => ("\\math" ++ side.name) :: printed a
  | arrow _ name body below => name :: (printedLabel below ++ printedOption body)
  | arrowPair _ name body below _ _ => name :: (printedLabel below ++ printedOption body)

/-- The texts of the tokens that some nodes are printed as. -/
def printedList : List Node → List String
  | [] => []
  | n :: ns => printed n ++ printedList ns

/-- The texts of the tokens of a label in brackets. -/
def printedLabel : Option Node → List String
  | some (group _ body) => "[" :: (printedList body ++ ["]"])
  | some n => "[" :: (printed n ++ ["]"])
  | none => []

/-- The texts of the tokens of a node that may be missing. -/
def printedOption : Option Node → List String
  | some n => printed n
  | none => []

end

/-- Nodes as a text: the tokens are spelled one behind the other, each with an empty comment behind
it, so that no two of them can run together. -/
def print (ns : List Node) : String := String.ofList (spell (printedList ns))

/-! ### Reading again -/

/-- Whether tokens that print a node are read as that node, up to its places, whatever follows. -/
def Rereads (env : Environment) (mode : Mode) (n : Node) : Prop :=
  ∀ (ts rest : List Token), texts ts = n.printed → (∀ t ∈ ts, t.isEnd = false) →
    ∃ n', Reads env (.atom mode n') (ts ++ rest) rest ∧ n'.erase = n.erase

/-- Whether tokens that print some nodes are read as these nodes, up to their places, wherever they
may stand.  In brackets none of the nodes may be a closing bracket, or the label would end there. -/
def BodyRereads (env : Environment) (mode : Mode) (nodes : List Node) : Prop :=
  ∀ (stop : Option String) (ts rest : List Token), texts ts = printedList nodes →
    (∀ t ∈ ts, t.isEnd = false) →
    (∀ s, stop = some s → s = "]" ∧ ∀ n ∈ nodes, n.text? ≠ some "]") → EndsAt mode stop rest →
    ∃ nodes', Reads env (.body mode stop nodes') (ts ++ rest) rest ∧
      nodes'.map erase = nodes.map erase

/-- Whether tokens that print a label in brackets are read as that label. -/
def LabelRereads (env : Environment) (label : Node) : Prop :=
  ∃ span nodes, label = .group ⟨.math, span⟩ nodes ∧ BodyRereads env .math nodes ∧
    ∀ n ∈ nodes, n.text? ≠ some "]"

variable {p : String → Prop} {env : Environment} {mode : Mode}

theorem Formed.labelRereads {label : Node} (h : label.Formed p .math)
    (hgroup : label.kind = .group) (hlabel : label.IsLabel)
    (hbody : label.kind = .group → BodyRereads env .math label.elements) :
    label.LabelRereads env := by
  obtain ⟨span, nodes, rfl, -⟩ := h.exists_group hgroup
  exact ⟨span, nodes, rfl, hbody rfl, hlabel⟩

/-- How a printed node starts: never with a closing brace, in math mode not with a blank, and
with a closing bracket only if it is one. -/
theorem Formed.exists_head {n : Node} (h : n.Formed p mode) :
    ∃ s tail, n.printed = s :: tail ∧ s ≠ "\x7d" ∧ (mode = .math → s ≠ " ") ∧
      (s = "]" → n.text? = some "]") := by
  -- the name of a command is neither a brace nor a blank nor a bracket
  have hcommand : ∀ {name : String} {c : Command} (tail : List String), IsStandard name c →
      ∃ s tail', name :: tail = s :: tail' ∧ s ≠ "\x7d" ∧ (mode = .math → s ≠ " ") ∧
        (s = "]" → n.text? = some "]") := by
    intro name c tail hname
    exact ⟨name, tail, rfl, hname.name_ne (by decide +kernel),
      fun _ => hname.name_ne (by decide +kernel),
      fun hs => absurd hs (hname.name_ne (by decide +kernel))⟩
  have hsymbol : ∀ {text : String}, IsSymbol text → text ≠ "\x7d" := by
    rintro text ⟨-, hmem⟩ rfl
    simp at hmem
  cases h with
  | @letter span text htext hp halphabetic =>
    refine ⟨text, [], rfl, hsymbol htext, ?_, ?_⟩
    · rintro - rfl
      have hspace : Text.isAlphabetic ' ' = false := by decide
      simp [Token.isAlphabetic, hspace] at halphabetic
    · rintro rfl
      rfl
  | @symbol mode span text htext hp hmath =>
    refine ⟨text, [], rfl, hsymbol htext, fun hmode => (hmath hmode).2, ?_⟩
    rintro rfl
    rfl
  | group => exact ⟨"\x7b", _, rfl, by decide, fun _ => by decide, nofun⟩
  | text => exact hcommand _ .text
  | fraction => exact hcommand _ .fraction
  | phantom => exact hcommand _ .phantom
  | @lap mode span side a => exact hcommand _ (.lap (by cases side <;> decide))
  | arrow hname => exact hcommand _ (.arrow hname)
  | arrowPair hname => exact hcommand _ (.arrowPair hname)

/-- Nodes are read again one after the other, as none of them starts like the end of the list. -/
theorem bodyRereads_of_forall {nodes : List Node} (hformed : ∀ n ∈ nodes, n.Formed p mode)
    (h : ∀ n ∈ nodes, n.Rereads env mode) : BodyRereads env mode nodes := by
  induction nodes with
  | nil =>
    intro stop ts rest htexts _ _ hend
    obtain rfl : ts = [] := List.map_eq_nil_iff.mp htexts
    exact ⟨[], .finish hend, rfl⟩
  | cons n nodes ih =>
    intro stop ts rest htexts hnoend hstop hend
    rw [List.forall_mem_cons] at hformed h
    obtain ⟨us, vs, rfl, hus, hvs⟩ := List.map_eq_append_iff.mp htexts
    rw [List.forall_mem_append] at hnoend
    obtain ⟨n', hn', hnerase⟩ := h.1 us (vs ++ rest) hus hnoend.1
    obtain ⟨nodes', hnodes', hnodesErase⟩ := ih hformed.2 h.2 stop vs rest hvs hnoend.2
      (fun s hs => ⟨(hstop s hs).1, fun m hm => (hstop s hs).2 m (List.mem_cons_of_mem _ hm)⟩) hend
    -- the first token of a node must not be taken for the end of the body
    obtain ⟨s, tail, hprinted, hbrace, hblank, hbracket⟩ := hformed.1.exists_head
    rw [hprinted] at hus
    obtain ⟨t, us', rfl, rfl, -⟩ := List.map_eq_cons_iff.mp hus
    refine ⟨n' :: nodes', ?_, by rw [List.map_cons, List.map_cons, hnerase, hnodesErase]⟩
    rw [List.append_assoc]
    refine .next ?_ (Stack.closes_eq_false (hnoend.1 t List.mem_cons_self) hbrace ?_) hn' hnodes'
    · cases mode with
      | math => simpa [Stack.isIgnored] using hblank rfl
      | text => rfl
    · intro hs
      obtain ⟨htext, hlabel⟩ := hstop _ hs
      exact hlabel n List.mem_cons_self (hbracket htext)

end Node

/-! ### Calls with printed arguments -/

namespace Call

variable {c : Call}

theorem accept_of_required (hbare : c.bare = none) (hwants : c.wantsOptional = false) (n : Node) :
    c.accept n = { c with required := c.required ++ [n] } := by
  obtain ⟨name, token, command, mode, optional, required, bare⟩ := c
  obtain rfl : bare = none := hbare
  simp [accept, hwants, argument]

theorem accept_of_optional (hbare : c.bare = none) (hwants : c.wantsOptional = true) (n : Node) :
    c.accept n = { c with optional := c.optional ++ [some n] } := by
  obtain ⟨name, token, command, mode, optional, required, bare⟩ := c
  obtain rfl : bare = none := hbare
  simp [accept, hwants, argument]

end Call

namespace Reads

open Node

variable {o : Options} {env : Environment} {c : Call} {body : List Node} {ts : List Token}

/-- A printed group is read as a required argument, and the rest of the call goes on behind it. -/
theorem printed_argument (hbody : BodyRereads env c.argumentMode body) (hbare : c.bare = none)
    (hlacks : c.isComplete = false) (hwants : c.wantsOptional = false)
    (htexts : texts ts = "\x7b" :: (printedList body ++ ["\x7d"]))
    (hnoend : ∀ t ∈ ts, t.isEnd = false) (mid : List Token) :
    ∃ span nodes, nodes.map erase = body.map erase ∧ ∀ c' rest,
      Reads env (.arguments
        { c with required := c.required ++ [.group ⟨c.argumentMode, span⟩ nodes] } c') mid rest →
      Reads env (.arguments c c') (ts ++ mid) rest := by
  obtain ⟨t, vs, u, rfl, hopen, hvs, hclose⟩ := exists_of_texts_enclosed htexts
  rw [List.forall_mem_cons, List.forall_mem_append] at hnoend
  obtain ⟨nodes, hnodes, herase⟩ :=
    hbody none vs (u :: mid) hvs hnoend.2.1 (by simp) (endsAt_brace hclose mid)
  refine ⟨Span.cover t.span u.span, nodes, herase, fun c' rest hargs => ?_⟩
  -- the call is open when its argument starts, so the braces are those of the argument
  rw [List.cons_append, List.append_assoc]
  refine .brace hlacks hwants hopen hnodes hclose ?_
  rwa [Call.accept_of_required hbare hwants]

/-- A printed label is read as an optional argument, if it has no closing bracket of its own. -/
theorem printed_label (hbody : BodyRereads env c.argumentMode body)
    (hlabel : ∀ n ∈ body, n.text? ≠ some "]") (hbare : c.bare = none)
    (hwants : c.wantsOptional = true) (htexts : texts ts = "[" :: (printedList body ++ ["]"]))
    (hnoend : ∀ t ∈ ts, t.isEnd = false) (mid : List Token) :
    ∃ span nodes, nodes.map erase = body.map erase ∧ ∀ c' rest,
      Reads env (.arguments
        { c with optional := c.optional ++ [some (.group ⟨c.argumentMode, span⟩ nodes)] } c')
        mid rest →
      Reads env (.arguments c c') (ts ++ mid) rest := by
  obtain ⟨t, vs, u, rfl, hopen, hvs, hclose⟩ := exists_of_texts_enclosed htexts
  rw [List.forall_mem_cons, List.forall_mem_append] at hnoend
  have hstop : ∀ s, some "]" = some s → s = "]" ∧ ∀ n ∈ body, n.text? ≠ some "]" :=
    fun s hs => ⟨(Option.some.inj hs).symm, hlabel⟩
  obtain ⟨nodes, hnodes, herase⟩ :=
    hbody (some "]") vs (u :: mid) hvs hnoend.2.1 hstop (endsAt_bracket hclose mid)
  refine ⟨Span.cover t.span u.span, nodes, herase, fun c' rest hargs => ?_⟩
  rw [List.cons_append, List.append_assoc]
  refine .bracket hwants hopen hnodes hclose ?_
  rwa [Call.accept_of_optional hbare hwants]

/-- The call that an arrow starts, with the labels read so far. -/
def arrowCall (t : Token) (command : Command) (below : List (Option Node)) (body : List Node) :
    Call :=
  { name := t.text, token := some t, command := command, mode := .math, optional := below
    required := body }

/-- The printed labels of an arrow are read as the arguments of its command. -/
theorem printed_labels (t : Token) (command : Command) {site : Site} {below : Option Node}
    (hoptional : command.optional = 1) (hrequired : command.required = 1)
    (htypes : command.argumentTypes = []) (hsite : site.mode = .math)
    (hbody : BodyRereads env .math body)
    (hbelow : ∀ b ∈ below, b.LabelRereads env)
    (htexts : texts ts = printedLabel below ++ printed (.group site body))
    (hnoend : ∀ t ∈ ts, t.isEnd = false) (rest : List Token) :
    ∃ a below', erase a = erase (.group site body) ∧ below'.map erase = below.map erase ∧
      Reads env (.arguments (arrowCall t command [] []) (arrowCall t command [below'] [a]))
        (ts ++ rest) rest := by
  obtain ⟨us, vs, rfl, hus, hvs⟩ := List.map_eq_append_iff.mp htexts
  rw [List.forall_mem_append] at hnoend
  have hmath : ∀ optional required,
      (arrowCall t command optional required).argumentMode = .math := by
    intro optional required
    simp [arrowCall, Call.argumentMode, Command.argumentType, htypes, ArgumentType.mode]
  -- whatever stands below, the call then lacks the label on top only
  have htop : ∀ below' : Option Node, ∃ a, erase a = erase (.group site body) ∧
      Reads env (.arguments (arrowCall t command [below'] []) (arrowCall t command [below'] [a]))
        (vs ++ rest) rest := by
    intro below'
    have hlacks : (arrowCall t command [below'] []).isComplete = false := by
      simp [arrowCall, Call.isComplete, hoptional, hrequired]
    have hwants : (arrowCall t command [below'] []).wantsOptional = false := by
      simp [arrowCall, Call.wantsOptional, hoptional]
    obtain ⟨span, nodes, herase, hreads⟩ :=
      printed_argument (hmath [below'] [] ▸ hbody) rfl hlacks hwants hvs hnoend.2 rest
    rw [hmath [below'] []] at hreads
    refine ⟨.group ⟨.math, span⟩ nodes, ?_, hreads _ _ (.complete ?_)⟩
    · rw [erase_group, erase_group, herase, eraseSite, eraseSite, hsite]
    · simp [arrowCall, Call.isComplete, hoptional, hrequired]
  have hwants : (arrowCall t command [] []).wantsOptional = true := by
    simp [arrowCall, Call.wantsOptional, hoptional]
  cases below with
  | none =>
    obtain rfl : us = [] := List.map_eq_nil_iff.mp hus
    obtain ⟨a, ha, hreads⟩ := htop none
    refine ⟨a, none, ha, rfl, .omitted hwants ?_ hreads⟩
    -- the label on top starts with a brace
    obtain ⟨v, vs', rfl, hv, -⟩ := List.map_eq_cons_iff.mp hvs
    intro u hu
    cases hu
    simp [hv]
  | some b =>
    obtain ⟨span, nodes, rfl, hnodes, hlabel⟩ := hbelow b rfl
    obtain ⟨span', nodes', herase, hreads⟩ :=
      printed_label (hmath [] [] ▸ hnodes) hlabel rfl hwants hus hnoend.1 (vs ++ rest)
    rw [hmath [] []] at hreads
    obtain ⟨a, ha, htopReads⟩ := htop (some (.group ⟨.math, span'⟩ nodes'))
    refine ⟨a, some (.group ⟨.math, span'⟩ nodes'), ha, ?_, ?_⟩
    · exact congrArg some (by rw [erase_group, erase_group, herase]; rfl)
    · rw [List.append_assoc]
      exact hreads _ _ htopReads

end Reads

namespace Node

variable {p : String → Prop} {o : Options} {mode : Mode}

/-- A token with the text of a character is read as that character. -/
theorem rereads_of_node {n : Node} {text : String} {env : Environment}
    (hprinted : n.printed = [text]) (hsymbol : IsSymbol text)
    (hnode : ∀ span, (Token.node ⟨text, span⟩ mode).erase = n.erase) : n.Rereads env mode := by
  intro ts rest htexts _
  rw [hprinted] at htexts
  -- one token has the text, and its place makes no difference but to the place of the node
  obtain ⟨⟨text', span⟩, us, rfl, rfl, hus⟩ := List.map_eq_cons_iff.mp htexts
  obtain rfl : us = [] := List.map_eq_nil_iff.mp hus
  obtain ⟨hbrace, hcontrol, hchar⟩ := Token.isSymbol_iff.mp hsymbol
  exact ⟨_, .character hbrace hcontrol hchar, hnode span⟩

theorem rereads_group {env : Environment} {span : Option Span} {body : List Node}
    (hbody : BodyRereads env mode body) : Rereads env mode (.group ⟨mode, span⟩ body) := by
  intro ts rest htexts hnoend
  obtain ⟨t, vs, u, rfl, hopen, hvs, hclose⟩ := exists_of_texts_enclosed htexts
  rw [List.forall_mem_cons, List.forall_mem_append] at hnoend
  obtain ⟨nodes, hnodes, herase⟩ :=
    hbody none vs (u :: rest) hvs hnoend.2.1 (by simp) (endsAt_brace hclose rest)
  refine ⟨.group ⟨mode, Span.cover t.span u.span⟩ nodes, ?_, ?_⟩
  · rw [List.cons_append, List.append_assoc]
    exact .group hopen hnodes hclose
  · rw [erase_group, erase_group, herase]
    rfl

theorem rereads_text {span : Option Span} {body : List Node}
    (hbody : BodyRereads ⟨.standard, o⟩ .text body) :
    Rereads ⟨.standard, o⟩ mode (.text ⟨mode, span⟩ body) := by
  intro ts rest htexts hnoend
  obtain ⟨t, us, rfl, htext, hus⟩ := List.map_eq_cons_iff.mp htexts
  rw [List.forall_mem_cons] at hnoend
  have hname : IsStandard t.text .text := htext ▸ .text
  obtain ⟨span', nodes, herase, hreads⟩ := Reads.printed_argument
    (c := { name := t.text, token := some t, command := .text, mode := mode }) hbody rfl rfl rfl
    hus hnoend.2 rest
  refine ⟨.text ⟨mode, t.span⟩ nodes, ?_, ?_⟩
  · exact .standard_command hname (by cases mode <;> rfl) (hreads _ _ (.complete rfl)) rfl
  · simp only [erase, eraseList_eq_map, herase]
    rfl

theorem rereads_fraction {span : Option Span} {s t : Site} {xs ys : List Node}
    (hs : s.mode = .math) (ht : t.mode = .math) (hxs : BodyRereads ⟨.standard, o⟩ .math xs)
    (hys : BodyRereads ⟨.standard, o⟩ .math ys) :
    Rereads ⟨.standard, o⟩ .math (.fraction ⟨.math, span⟩ (.group s xs) (.group t ys)) := by
  intro ts rest htexts hnoend
  obtain ⟨u, us, rfl, htext, hus⟩ := List.map_eq_cons_iff.mp htexts
  obtain ⟨vs, ws, rfl, hvs, hws⟩ := List.map_eq_append_iff.mp hus
  rw [List.forall_mem_cons, List.forall_mem_append] at hnoend
  have hname : IsStandard u.text .fraction := htext ▸ .fraction
  obtain ⟨xspan, xs', hxerase, hxreads⟩ := Reads.printed_argument
    (c := { name := u.text, token := some u, command := .fraction, mode := .math }) hxs rfl rfl rfl
    hvs hnoend.2.1 (ws ++ rest)
  obtain ⟨yspan, ys', hyerase, hyreads⟩ := Reads.printed_argument
    (c := { name := u.text, token := some u, command := .fraction, mode := .math
            required := [.group ⟨.math, xspan⟩ xs'] }) hys rfl rfl rfl hws hnoend.2.2 rest
  refine ⟨.fraction ⟨.math, u.span⟩ (.group ⟨.math, xspan⟩ xs') (.group ⟨.math, yspan⟩ ys'), ?_, ?_⟩
  · rw [List.cons_append, List.append_assoc]
    exact .standard_command hname rfl (hxreads _ _ (hyreads _ _ (.complete rfl))) rfl
  · simp only [erase, eraseList_eq_map, eraseSite, hxerase, hyerase, hs, ht]

theorem rereads_phantom {span : Option Span} {s : Site} {xs : List Node} (hs : s.mode = mode)
    (hxs : BodyRereads ⟨.standard, o⟩ mode xs) :
    Rereads ⟨.standard, o⟩ mode (.phantom ⟨mode, span⟩ (.group s xs)) := by
  intro ts rest htexts hnoend
  obtain ⟨t, us, rfl, htext, hus⟩ := List.map_eq_cons_iff.mp htexts
  rw [List.forall_mem_cons] at hnoend
  have hname : IsStandard t.text .phantom := htext ▸ .phantom
  obtain ⟨xspan, xs', herase, hreads⟩ := Reads.printed_argument
    (c := { name := t.text, token := some t, command := .phantom, mode := mode }) hxs rfl rfl rfl
    hus hnoend.2 rest
  refine ⟨.phantom ⟨mode, t.span⟩ (.group ⟨mode, xspan⟩ xs'), ?_, ?_⟩
  · exact .standard_command hname (by cases mode <;> rfl) (hreads _ _ (.complete rfl)) rfl
  · simp only [erase, eraseList_eq_map, eraseSite, herase, hs]

/-- An overlap is printed with its name for math mode, which no policy refuses. -/
theorem rereads_lap {span : Option Span} {side : Side} {s : Site} {xs : List Node}
    (hs : s.mode = mode) (hxs : BodyRereads ⟨.standard, o⟩ mode xs) :
    Rereads ⟨.standard, o⟩ mode (.lap ⟨mode, span⟩ side (.group s xs)) := by
  intro ts rest htexts hnoend
  obtain ⟨t, us, rfl, htext, hus⟩ := List.map_eq_cons_iff.mp htexts
  rw [List.forall_mem_cons] at hnoend
  have hname : IsStandard t.text .lap := htext ▸ .lap (by cases side <;> decide)
  have hform : isMathForm t.text = true := htext ▸ by cases side <;> decide
  have hside : lapSide t.text = side := htext ▸ by cases side <;> decide
  obtain ⟨xspan, xs', herase, hreads⟩ := Reads.printed_argument
    (c := { name := t.text, token := some t, command := .lap, mode := mode }) hxs rfl rfl rfl
    hus hnoend.2 rest
  refine ⟨.lap ⟨mode, t.span⟩ side (.group ⟨mode, xspan⟩ xs'), ?_, ?_⟩
  · refine .standard_command hname (by cases mode <;> rfl) (hreads _ _ (.complete rfl)) ?_
    simp [Call.invoke, Call.invocation, Command.run, Command.lap, Handler.lap, Handler.lapReply,
      hform, hside, Invocation.site, Call.argumentMode, Command.argumentType, ArgumentType.mode]
  · simp only [erase, eraseList_eq_map, eraseSite, herase, hs]

theorem rereads_arrow {span : Option Span} {name : String} (hname : name ∈ arrowNames) {s : Site}
    {xs : List Node} {below : Option Node} (hs : s.mode = .math)
    (hxs : BodyRereads ⟨.standard, o⟩ .math xs)
    (hbelow : ∀ b ∈ below, b.LabelRereads ⟨.standard, o⟩) :
    Rereads ⟨.standard, o⟩ .math (.arrow ⟨.math, span⟩ name (some (.group s xs)) below) := by
  intro ts rest htexts hnoend
  obtain ⟨t, us, rfl, rfl, hus⟩ := List.map_eq_cons_iff.mp htexts
  rw [List.forall_mem_cons] at hnoend
  obtain ⟨a, below', haerase, hbelowErase, hreads⟩ :=
    Reads.printed_labels t .arrow rfl rfl rfl hs hxs hbelow hus hnoend.2 rest
  refine ⟨.arrow ⟨.math, t.span⟩ t.text (some a) below',
    .standard_command (.arrow hname) rfl hreads rfl, ?_⟩
  simp only [erase, eraseOption_eq_map, hbelowErase, Option.map_some, haerase, eraseSite]

/-- The space that a pair of arrows has for its labels is not printed, but made anew from the labels
when the pair is read. -/
theorem rereads_arrowPair {span : Option Span} {name : String} (hname : name ∈ arrowPairNames)
    {s : Site} {xs : List Node} {below : Option Node} (hs : s.mode = .math)
    (hxs : BodyRereads ⟨.standard, o⟩ .math xs)
    (hbelow : ∀ b ∈ below, b.LabelRereads ⟨.standard, o⟩) :
    Rereads ⟨.standard, o⟩ .math (.arrowPair ⟨.math, span⟩ name (some (.group s xs)) below
      (below.map (Handler.labelSpace .math)) (some (Handler.labelSpace .math (.group s xs)))) := by
  intro ts rest htexts hnoend
  obtain ⟨t, us, rfl, rfl, hus⟩ := List.map_eq_cons_iff.mp htexts
  rw [List.forall_mem_cons] at hnoend
  obtain ⟨a, below', haerase, hbelowErase, hreads⟩ :=
    Reads.printed_labels t .arrowPair rfl rfl rfl hs hxs hbelow hus hnoend.2 rest
  refine ⟨.arrowPair ⟨.math, t.span⟩ t.text (some a) below'
    (below'.map (Handler.labelSpace .math)) (some (Handler.labelSpace .math a)),
    .standard_command (.arrowPair hname) rfl hreads rfl, ?_⟩
  -- the spaces depend on the labels only, and forgetting places commutes with making them
  have hspace : ∀ n : Node, (Handler.labelSpace .math n).erase = Handler.labelSpace .math n.erase :=
    fun _ => rfl
  have hbelowSpace : (below'.map (Handler.labelSpace .math)).map erase =
      (below.map (Handler.labelSpace .math)).map erase := by
    have hcomm : erase ∘ Handler.labelSpace .math = Handler.labelSpace .math ∘ erase :=
      funext hspace
    rw [Option.map_map, Option.map_map, hcomm, ← Option.map_map, ← Option.map_map, hbelowErase]
  simp only [erase, eraseOption_eq_map, hbelowErase, hbelowSpace, Option.map_some, haerase, hspace,
    eraseSite]

/-- **Well-formed nodes are read again**, and so are the contents of a group without its braces,
which is how labels are printed. -/
theorem Formed.rereads {n : Node} (h : n.Formed p mode) :
    n.Rereads ⟨.standard, o⟩ mode ∧
      (n.kind = .group → BodyRereads ⟨.standard, o⟩ mode n.elements) := by
  -- the contents of a group are carried along, since a label is printed without its braces
  induction h with
  | @letter span text hsymbol _ halphabetic =>
    refine ⟨rereads_of_node rfl hsymbol fun span' => ?_, by simp [kind]⟩
    have hletter : Token.isAlphabetic ⟨text, span'⟩ = true := halphabetic
    simp [Token.node, hletter, erase, eraseSite]
  | @symbol mode span text hsymbol _ hmath =>
    refine ⟨rereads_of_node rfl hsymbol fun span' => ?_, by simp [kind]⟩
    have hnot : ¬ (mode = .math ∧ Token.isAlphabetic ⟨text, span'⟩ = true) := by
      rintro ⟨hmode, hletter⟩
      exact Bool.false_ne_true ((hmath hmode).1.symm.trans hletter)
    simp [Token.node, hnot, erase, eraseSite]
  | group hbody ih =>
    have hbodyRereads := bodyRereads_of_forall hbody fun n hn => (ih n hn).1
    exact ⟨rereads_group hbodyRereads, fun _ => hbodyRereads⟩
  | text hbody ih =>
    exact ⟨rereads_text (bodyRereads_of_forall hbody fun n hn => (ih n hn).1), by simp [kind]⟩
  | fraction ha hagroup hb hbgroup iha ihb =>
    obtain ⟨_, xs, rfl, -⟩ := ha.exists_group hagroup
    obtain ⟨_, ys, rfl, -⟩ := hb.exists_group hbgroup
    exact ⟨rereads_fraction rfl rfl (iha.2 rfl) (ihb.2 rfl), by simp [kind]⟩
  | phantom ha hgroup ih =>
    obtain ⟨_, xs, rfl, -⟩ := ha.exists_group hgroup
    exact ⟨rereads_phantom rfl (ih.2 rfl), by simp [kind]⟩
  | lap ha hgroup ih =>
    obtain ⟨_, xs, rfl, -⟩ := ha.exists_group hgroup
    exact ⟨rereads_lap rfl (ih.2 rfl), by simp [kind]⟩
  | arrow hname ha hgroup hbelow hbelowGroup hlabel iha ihbelow =>
    -- an argument is always a group, and as such it has been printed
    obtain ⟨_, xs, rfl, -⟩ := ha.exists_group hgroup
    refine ⟨rereads_arrow hname rfl (iha.2 rfl) fun b hb => ?_, by simp [kind]⟩
    exact (hbelow b hb).labelRereads (hbelowGroup b hb) (hlabel b hb) (ihbelow b hb).2
  | arrowPair hname ha hgroup hbelow hbelowGroup hlabel iha ihbelow =>
    obtain ⟨_, xs, rfl, -⟩ := ha.exists_group hgroup
    refine ⟨rereads_arrowPair hname rfl (iha.2 rfl) fun b hb => ?_, by simp [kind]⟩
    exact (hbelow b hb).labelRereads (hbelowGroup b hb) (hlabel b hb) (ihbelow b hb).2

/-! ### Legible texts -/

/-- The names of the standard commands are legible. -/
theorem legible_of_isStandard {name : String} {c : Command} (h : IsStandard name c) :
    Legible name := by
  -- one look at each of the names
  have hnames : ∀ name ∈ standardNames,
      (name.toList.takeWhile (· == '\\') = ['\\'] ∨
        name.toList.takeWhile (· == '\\') = ['\\', '\\']) ∧
      name.toList.dropWhile (· == '\\') ≠ [] ∧
      (name.toList.dropWhile (· == '\\')).all isNameChar = true := by
    decide +kernel
  obtain ⟨hslashes, hne, hname⟩ := hnames name h.mem_names
  exact .inr (Lexeme.isText_of_span hslashes hne (List.all_eq_true.mp hname))

theorem printedList_eq (ns : List Node) : printedList ns = ns.flatMap printed := by
  induction ns with
  | nil => rfl
  | cons n ns ih => rw [printedList, ih, List.flatMap_cons]

/-- Braces and brackets are legible. -/
theorem legible_of_mem {s : String} (h : s ∈ ["\x7b", "\x7d", "[", "]"]) : Legible s := by
  simp only [List.mem_cons, List.not_mem_nil, or_false] at h
  rcases h with rfl | rfl | rfl | rfl <;>
    exact .inr (.character (by decide) (by decide) (by decide) (by decide)
      fun _ hm => absurd hm List.not_mem_nil)

theorem legible_enclosed {opening closing : String} {inner : List String}
    (hopening : opening ∈ ["\x7b", "\x7d", "[", "]"])
    (hclosing : closing ∈ ["\x7b", "\x7d", "[", "]"]) (hinner : ∀ s ∈ inner, Legible s) :
    ∀ s ∈ opening :: (inner ++ [closing]), Legible s := by
  rw [List.forall_mem_cons, List.forall_mem_append, List.forall_mem_singleton]
  exact ⟨legible_of_mem hopening, hinner, legible_of_mem hclosing⟩

theorem legible_printedList {ns : List Node} (h : ∀ n ∈ ns, ∀ s ∈ n.printed, Legible s) :
    ∀ s ∈ printedList ns, Legible s := by
  intro s hs
  rw [printedList_eq] at hs
  obtain ⟨n, hn, hsn⟩ := List.mem_flatMap.mp hs
  exact h n hn s hsn

/-- In brackets a label is as legible as in braces. -/
theorem legible_printedLabel {label : Option Node} (h : ∀ n ∈ label, ∀ s ∈ n.printed, Legible s) :
    ∀ s ∈ printedLabel label, Legible s := by
  cases label with
  | none => exact fun _ hs => absurd hs List.not_mem_nil
  | some n =>
    have hn := h n rfl
    cases n with
    | group t body =>
      rw [printed, List.forall_mem_cons, List.forall_mem_append] at hn
      exact legible_enclosed (by simp) (by simp) hn.2.1
    | _ => exact legible_enclosed (by simp) (by simp) hn

/-- Nodes with legible characters are printed as legible texts: all else that is printed are names
of standard commands, braces and brackets. -/
theorem Formed.legible {n : Node} (h : n.Formed Legible mode) : ∀ s ∈ n.printed, Legible s := by
  induction h with
  | letter _ htext | symbol _ htext => exact List.forall_mem_singleton.mpr htext
  | group _ ih => exact legible_enclosed (by simp) (by simp) (legible_printedList ih)
  | text _ ih =>
    rw [printed, List.forall_mem_cons]
    exact ⟨legible_of_isStandard .text,
      legible_enclosed (by simp) (by simp) (legible_printedList ih)⟩
  | fraction _ _ _ _ iha ihb =>
    rw [printed, List.forall_mem_cons, List.forall_mem_append]
    exact ⟨legible_of_isStandard .fraction, iha, ihb⟩
  | phantom _ _ ih =>
    rw [printed, List.forall_mem_cons]
    exact ⟨legible_of_isStandard .phantom, ih⟩
  | @lap _ _ side _ _ _ ih =>
    rw [printed, List.forall_mem_cons]
    exact ⟨legible_of_isStandard (.lap (by cases side <;> decide)), ih⟩
  | arrow hname _ _ _ _ _ iha ihbelow =>
    rw [printed, List.forall_mem_cons, List.forall_mem_append]
    exact ⟨legible_of_isStandard (.arrow hname), legible_printedLabel ihbelow, iha⟩
  | arrowPair hname _ _ _ _ _ iha ihbelow =>
    rw [printed, List.forall_mem_cons, List.forall_mem_append]
    exact ⟨legible_of_isStandard (.arrowPair hname), legible_printedLabel ihbelow, iha⟩

end Node

namespace Environment

/-- Without macros, well-formed nodes that are printed are read again. -/
theorem exists_parse_print {o : Options} (hmacros : o.macros = []) {nodes : List Node}
    (hformed : ∀ n ∈ nodes, n.Formed Legible .math) :
    ∃ nodes', (parse ⟨.standard, o⟩ (Node.print nodes)).1 = .ok nodes' ∧
      nodes'.map Node.erase = nodes.map Node.erase := by
  have hlegible : ∀ s ∈ Node.printedList nodes, Legible s :=
    Node.legible_printedList fun n hn => (hformed n hn).legible
  -- the tokens that are supplied are those that were spelled
  have hbefore := Parser.isBefore_ofText (spell (Node.printedList nodes))
  obtain ⟨ts, last, htexts, hsupplies⟩ :
      ∃ ts last, texts ts = Node.printedList nodes ∧ Parser.Supplies ⟨.standard, o⟩ _ ts last :=
    Parser.supplies_of_spell hmacros hlegible hbefore
  have hbody := Node.bodyRereads_of_forall hformed fun n hn => ((hformed n hn).rereads (o := o)).1
  obtain ⟨nodes', hreads, herase⟩ :=
    hbody none ts [] htexts hsupplies.isEnd_eq_false (by simp) nofun
  rw [List.append_nil] at hreads
  exact ⟨nodes', (parse_eq_ok_iff_reads hsupplies).mpr hreads, herase⟩

/-- **Printing undoes reading.**  The nodes of a text, whatever its macros and options, are
printed as a text that is read without any macros; and the nodes that come out are the same,
places apart. -/
theorem parse_print (o : Options) (source : String) (nodes : List Node)
    (h : (parse ⟨.standard, o⟩ source).1 = .ok nodes) :
    ∃ nodes', (parse ⟨.standard, { o with macros := [] }⟩ (Node.print nodes)).1 = .ok nodes' ∧
      nodes'.map Node.erase = nodes.map Node.erase := by
  have hformed : ∀ n ∈ nodes, n.Formed Legible .math :=
    formed_of_parse h fun ts last hsupplies => hsupplies.legible (Parser.isLegible_ofText source)
  exact exists_parse_print rfl hformed

/-- A pair of arrows from a macro, with a closing bracket in its label and an argument without
braces. -/
theorem parse_print_macro_arrowPair :
    ∃ nodes, (parse ⟨.standard, { macros := [("\\x", "\\xtofrom[\x7b]\x7d]")] }⟩ "\\x b").1 =
        .ok nodes ∧
      Node.print nodes = "\\xtofrom%\n[%\n\x7b%\n]%\n\x7d%\n]%\n\x7b%\nb%\n\x7d%\n" ∧
      ∃ nodes', (parse ⟨.standard, {}⟩ (Node.print nodes)).1 = .ok nodes' ∧
        nodes'.map Node.erase = nodes.map Node.erase := by
  let o : Options := { macros := [("\\x", "\\xtofrom[\x7b]\x7d]")] }
  let b := Token.ofPlace "\\x b" "b" 3 4
  let label : Node := .group ⟨.math, none⟩ [.group ⟨.math, none⟩ [Token.node ⟨"]", none⟩ .math]]
  let body : Node := .group ⟨.math, b.span⟩ [b.node .math]
  let pair : Node := .arrowPair ⟨.math, none⟩ "\\xtofrom" (some body) (some label)
    (some (Handler.labelSpace .math label)) (some (Handler.labelSpace .math body))
  let ts : List Token := [⟨"\\xtofrom", none⟩, ⟨"[", none⟩, ⟨"\x7b", none⟩, ⟨"]", none⟩,
    ⟨"\x7d", none⟩, ⟨"]", none⟩, b]
  -- the tokens of the macro come first, and only the argument has a place
  have hdrain : ((Parser.ofText "\\x b").drain ⟨.standard, o⟩).toOption = some ts := by
    decide +kernel
  have hlabel : Reads ⟨.standard, o⟩
      (.body .math (some "]") [.group ⟨.math, none⟩ [Token.node ⟨"]", none⟩ .math]])
      [⟨"\x7b", none⟩, ⟨"]", none⟩, ⟨"\x7d", none⟩, ⟨"]", none⟩, b] [⟨"]", none⟩, b] := by
    have hinner : Reads ⟨.standard, o⟩ (.body .math none [Token.node ⟨"]", none⟩ .math])
        [⟨"]", none⟩, ⟨"\x7d", none⟩, ⟨"]", none⟩, b] [⟨"\x7d", none⟩, ⟨"]", none⟩, b] :=
      .next (by decide) (by decide) (.character (by decide) (by decide +kernel) (by decide))
        (.finish (endsAt_brace rfl _))
    exact .next (by decide) (by decide)
      (.group (t := ⟨"\x7b", none⟩) (u := ⟨"\x7d", none⟩) rfl hinner rfl)
      (.finish (endsAt_bracket rfl _))
  have hbody : Reads ⟨.standard, o⟩ (.atom .math (b.node .math)) [b] [] :=
    .character (by decide) (by decide +kernel) (by decide)
  have hpair : Reads ⟨.standard, o⟩ (.atom .math pair) ts [] := by
    refine .standard_command (.arrowPair (by decide)) rfl (.bracket rfl rfl hlabel rfl
      (.bare rfl rfl (by decide) (by decide) hbody (.complete rfl))) ?_
    rfl
  have hparse : (parse ⟨.standard, o⟩ "\\x b").1 = .ok [pair] := by
    cases hts : (Parser.ofText "\\x b").drain ⟨.standard, o⟩ with
    | error e => simp [hts, Except.toOption] at hdrain
    | ok us =>
      obtain ⟨last, hsupplies⟩ := Parser.drain_eq_ok_iff.mp hts
      rw [hts] at hdrain
      have hus : us = ts := Option.some.inj hdrain
      exact (parse_eq_ok_iff_reads (hus ▸ hsupplies)).mpr
        (.next (by decide) (by decide) hpair (.finish nofun))
  exact ⟨[pair], hparse, by decide +kernel, parse_print _ _ _ hparse⟩

end Environment

end MathMarkup
