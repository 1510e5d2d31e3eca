import MathMarkup.Node.Basic
import MathMarkup.Options

/-!
# The registry of commands

A command has a name, a number of arguments and a handler that makes a node of
them.  How nodes of a kind are laid out is registered as well.  A registry only keeps
layouts and never looks into them, so that any type will do for them.  Where nodes are
in fact laid out, a kind is laid out by the rule of some kind, which is its own unless
it was registered otherwise.

A name is registered only once.  Of several registrations made together those in
front of the first failing one stay in force.

## Main definitions

* `Invocation`, `Reply`, `Handler` — one use of a command and what becomes of it.
* `Command` — a registered command.
* `Registry`, `Registry.define`, `Registry.setLayout` — the registry.
* `Registration`, `Registry.apply`, `Registry.applyAll` — changes to it.

## Main results

* `Registry.command?_define_of_mem`, `Registry.command?_define_of_notMem` — what a
  definition changes.
-/

namespace MathMarkup

/-! ### Commands -/

/-- One use of a command, with its arguments. -/
structure Invocation where
  /-- The name of the command. -/
  name : String
  /-- The token that named it. -/
  token : Option Token := none
  /-- The mode it stands in. -/
  mode : Mode
  /-- Its required arguments. -/
  required : List Node
  /-- Its optional arguments, in so far as they were given. -/
  optional : List (Option Node)

namespace Invocation

/-- The site of the node that a command makes. -/
def site (i : Invocation) : Site := ⟨i.mode, i.token.bind Token.span⟩

/-- The first optional argument, if it was given. -/
def firstOptional (i : Invocation) : Option Node := i.optional.head?.join

end Invocation

/-- What becomes of a command. -/
inductive Reply where
  /-- It makes a node. -/
  | node (n : Node)
  /-- It fails. -/
  | fail (e : CompileError)
  /-- It takes what follows, up to a token that is left in place, and makes a node
  of that. -/
  | readUntil (stop : Option String) (finish : List Node → Node)

/-- What a command does with its arguments, and what is reported on the way. -/
abbrev Handler := Options → Invocation → Reply × Log

/-- A registered command. -/
structure Command where
  /-- The kind of node it makes. -/
  kind : Option NodeKind := none
  /-- How many arguments it requires. -/
  required : Nat := 0
  /-- How many optional arguments it takes in front of these. -/
  optional : Nat := 0
  /-- How its arguments are read, the optional ones first. -/
  argumentTypes : List ArgumentType := []
  /-- Whether it may stand in text mode. -/
  inText : Bool := false
  /-- Whether it may stand in math mode. -/
  inMath : Bool := true
  /-- What it does. -/
  handler : Option Handler := none

namespace Command

/-- How an argument is read; arguments that are not listed are read like what
stands around the command. -/
def argumentType (c : Command) (index : Nat) : ArgumentType :=
  c.argumentTypes[index]?.getD .ambient

/-- Whether a command may stand in a mode. -/
def allowedIn (c : Command) : Mode → Bool
  | .math => c.inMath
  | .text => c.inText

/-- Does what a command does.  One without a handler fails. -/
def run (c : Command) (o : Options) (i : Invocation) : Reply × Log :=
  match c.handler with
  | some handler => handler o i
  | none => (.fail ⟨.noHandler i.name, none⟩, [])

end Command

/-! ### The registry -/

/-- The commands by name, and the layouts by kind.  A layout is the kind whose rule lays
out the nodes of a kind, unless another type is given for layouts. -/
structure Registry (β : Type := NodeKind) where
  /-- The commands, each name once. -/
  commands : List (String × Command) := []
  /-- The layouts. -/
  layouts : NodeKind → Option β := fun _ => none

/-- A command under one or more names, with a layout for the nodes it makes. -/
structure Definition (β : Type := NodeKind) where
  /-- The names. -/
  names : List String
  /-- The command. -/
  command : Command
  /-- The layout for the kind of node that the command makes. -/
  layout : Option β := none

namespace Registry

variable {β : Type}

/-- The command with a name. -/
def command? (r : Registry β) (name : String) : Option Command := r.commands.lookup name

/-- The registered names. -/
def names (r : Registry β) : List String := r.commands.map Prod.fst

/-- The kinds that have a layout. -/
def laidOut (r : Registry β) : List NodeKind := NodeKind.all.filter fun k => (r.layouts k).isSome

/-- Registers a layout for a kind, if there is one to register. -/
def setLayout (r : Registry β) (kind : NodeKind) : Option β → Registry β
  | none => r
  | some layout => { r with layouts := fun k => if k = kind then some layout else r.layouts k }

/-- Puts a command under a name, whatever stood there before. -/
def put (commands : List (String × Command)) (c : Command) (name : String) :
    List (String × Command) :=
  (name, c) :: commands.filter fun entry => entry.1 != name

/-- Registers a command under its names, and its layout.  Fails at the first name
that is taken, and changes nothing then. -/
def define (r : Registry β) (d : Definition β) : Except CompileError (Registry β) :=
  match d.names.find? fun name => (r.command? name).isSome with
  | some name => .error ⟨.alreadyDefined name, none⟩
  | none =>
      let r := { r with commands := d.names.foldl (put · d.command) r.commands }
      .ok (match d.command.kind with
        | some kind => r.setLayout kind d.layout
        | none => r)

end Registry

/-! ### Registrations -/

/-- A change to the registry. -/
inductive Registration (β : Type := NodeKind) where
  /-- A new command. -/
  | define (d : Definition β)
  /-- A layout for a kind of node. -/
  | layout (kind : NodeKind) (layout : Option β)

namespace Registry

variable {β : Type} {r r' : Registry β} {d : Definition β}

/-- Makes one change. -/
def apply (r : Registry β) : Registration β → Except CompileError (Registry β)
  | .define d => r.define d
  | .layout kind layout => .ok (r.setLayout kind layout)

/-- Makes several changes, up to the first one that fails. -/
def applyAll (r : Registry β) : List (Registration β) → Except CompileError Unit × Registry β
  | [] => (.ok (), r)
  | change :: rest =>
      match r.apply change with
      | .ok r => r.applyAll rest
      | .error e => (.error e, r)

/-! ### What a definition changes -/

theorem lookup_put_self (commands : List (String × Command)) (c : Command) (name : String) :
    (put commands c name).lookup name = some c := by
  simp [put]

theorem lookup_put_of_ne (commands : List (String × Command)) (c : Command) {name other : String}
    (h : other ≠ name) : (put commands c name).lookup other = commands.lookup other := by
  have hne : (other == name) = false := by simpa using h
  simp only [put, List.lookup_cons, hne]
  induction commands with
  | nil => rfl
  | cons entry rest ih =>
    obtain ⟨key, value⟩ := entry
    by_cases hkey : key = name
    · subst hkey
      simp [List.lookup_cons, hne, ih]
    · simp [List.lookup_cons, hkey, ih]

theorem lookup_foldl_put_of_notMem (commands : List (String × Command)) (c : Command)
    {names : List String} {name : String} (h : name ∉ names) :
    (names.foldl (put · c) commands).lookup name = commands.lookup name := by
  induction names generalizing commands with
  | nil => rfl
  | cons other names ih =>
    rw [List.mem_cons, not_or] at h
    rw [List.foldl_cons, ih _ h.2, lookup_put_of_ne _ _ h.1]

theorem lookup_foldl_put_of_mem (commands : List (String × Command)) (c : Command)
    {names : List String} {name : String} (h : name ∈ names) :
    (names.foldl (put · c) commands).lookup name = some c := by
  induction names generalizing commands with
  | nil => cases h
  | cons other names ih =>
    rw [List.foldl_cons]
    by_cases hmem : name ∈ names
    · exact ih _ hmem
    · obtain rfl : name = other := (List.mem_cons.mp h).resolve_right hmem
      rw [lookup_foldl_put_of_notMem _ _ hmem, lookup_put_self]

@[simp] theorem commands_setLayout (r : Registry β) (kind : NodeKind) (layout : Option β) :
    (r.setLayout kind layout).commands = r.commands := by
  cases layout <;> rfl

theorem commands_define (h : r.define d = .ok r') :
    r'.commands = d.names.foldl (put · d.command) r.commands := by
  unfold define at h
  split at h
  · cases h
  · cases h
    cases d.command.kind <;> simp

/-- Each of the names of a definition then stands for its command. -/
theorem command?_define_of_mem {name : String}
    (h : r.define d = .ok r') (hname : name ∈ d.names) : r'.command? name = some d.command := by
  rw [command?, commands_define h, lookup_foldl_put_of_mem _ _ hname]

/-- Every other name stands for what it stood for before. -/
theorem command?_define_of_notMem {name : String}
    (h : r.define d = .ok r') (hname : name ∉ d.names) : r'.command? name = r.command? name := by
  rw [command?, commands_define h, lookup_foldl_put_of_notMem _ _ hname, command?]

end Registry

end MathMarkup
