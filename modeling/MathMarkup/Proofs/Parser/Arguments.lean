import MathMarkup.Proofs.Parser.Derivation

/-!
# Calls while their arguments are read

A call takes its optional arguments first and then the required ones, so the number of
arguments it has says which one comes next.  What the call was opened with stays as it
is, and once the arguments are read there are as many as the command asks for.

## Main definitions

* `Call.Continues` — the same call, with more arguments.
* `Call.Orderly` — no required argument comes before an optional one, and there are not
  too many.
* `Call.index` — the number of arguments so far.

## Main results

* `Reads.continues`, `Reads.orderly` — both are kept while arguments are read.
* `Call.Orderly.lengths` — how many arguments a complete call has.
-/

namespace MathMarkup

/-- What an opened call is made of: a command that is registered under the name and allowed in the
mode, with no arguments yet. -/
theorem Environment.openCall_eq_ok_iff {env : Environment} {t : Token} {mode : Mode} {c : Call} :
    env.openCall t mode = .ok c ↔ ∃ command, env.registry.command? t.text = some command ∧
      command.allowedIn mode = true ∧
      c = { name := t.text, token := some t, command := command, mode := mode } := by
  unfold openCall
  constructor
  · intro h
    split at h
    · cases h
    · rename_i command hcommand
      split at h
      · rename_i hallowed
        cases h
        exact ⟨command, hcommand, hallowed, rfl⟩
      · cases h
  · rintro ⟨command, hcommand, hallowed, rfl⟩
    simp [hcommand, hallowed]

/-- A call that is not opened has a name that is unknown or not allowed here. -/
theorem Environment.eq_of_openCall_eq_error {env : Environment} {t : Token} {mode : Mode}
    {taken : Bool} {e : CompileError} (h : env.openCall t mode = .error (taken, e)) :
    e = .located (.undefinedCommand t.text) t.span ∨
      e = .located (.wrongMode t.text mode) t.span := by
  unfold openCall at h
  split at h
  · cases h
    exact .inl rfl
  · split at h <;> cases h
    exact .inr rfl

namespace Call

/-! ### What a call was opened with -/

/-- The same call, perhaps with more arguments. -/
structure Continues (c c' : Call) : Prop where
  /-- It has the same name. -/
  name : c'.name = c.name
  /-- The same token named it. -/
  token : c'.token = c.token
  /-- It calls the same command. -/
  command : c'.command = c.command
  /-- It stands in the same mode. -/
  mode : c'.mode = c.mode

theorem Continues.refl (c : Call) : c.Continues c := ⟨rfl, rfl, rfl, rfl⟩

theorem Continues.trans {a b c : Call} (hab : a.Continues b) (hbc : b.Continues c) :
    a.Continues c :=
  ⟨hbc.name.trans hab.name, hbc.token.trans hab.token, hbc.command.trans hab.command,
    hbc.mode.trans hab.mode⟩

theorem continues_accept (c : Call) (n : Node) : c.Continues (c.accept n) := by
  unfold accept
  split <;> exact ⟨rfl, rfl, rfl, rfl⟩

theorem continues_skip (c : Call) : c.Continues c.skip := ⟨rfl, rfl, rfl, rfl⟩

theorem continues_bare (c : Call) (bare : Option (Option Span)) :
    c.Continues { c with bare := bare } := ⟨rfl, rfl, rfl, rfl⟩

/-! ### The order of arguments -/

/-- The number of arguments so far, those that were left out included. -/
def index (c : Call) : Nat := c.optional.length + c.required.length

/-- Optional arguments come first, and there are no more arguments than the command
asks for. -/
structure Orderly (c : Call) : Prop where
  /-- There are not too many optional arguments. -/
  optional_le : c.optional.length ≤ c.command.optional
  /-- There are not too many required arguments. -/
  required_le : c.required.length ≤ c.command.required
  /-- Before the last optional argument there are no required ones. -/
  required_nil : c.wantsOptional = true → c.required = []

@[simp] theorem index_skip (c : Call) : c.skip.index = c.index + 1 := by
  simp only [index, skip, List.length_append, List.length_cons, List.length_nil]
  omega

@[simp] theorem index_accept (c : Call) (n : Node) : (c.accept n).index = c.index + 1 := by
  unfold accept
  split <;>
    simp only [index, List.length_append, List.length_cons, List.length_nil] <;> omega

theorem wantsOptional_iff {c : Call} : c.wantsOptional = true ↔
    c.optional.length < c.command.optional := by
  simp [wantsOptional]

theorem wantsOptional_eq_false_iff {c : Call} : c.wantsOptional = false ↔
    c.command.optional ≤ c.optional.length := by
  simp [wantsOptional]

theorem isComplete_iff {c : Call} : c.isComplete = true ↔
    c.command.optional ≤ c.optional.length ∧ c.command.required ≤ c.required.length := by
  simp [isComplete]

theorem Orderly.wantsOptional_iff {c : Call} (h : c.Orderly) :
    c.wantsOptional = true ↔ c.index < c.command.optional := by
  constructor
  · intro hwants
    rw [index, h.required_nil hwants]
    exact Call.wantsOptional_iff.mp hwants
  · intro hindex
    rw [index] at hindex
    exact Call.wantsOptional_iff.mpr (by omega)

theorem Orderly.isComplete_iff {c : Call} (h : c.Orderly) :
    c.isComplete = true ↔ c.command.optional + c.command.required ≤ c.index := by
  have hoptional := h.optional_le
  have hrequired := h.required_le
  rw [Call.isComplete_iff, index]
  omega

theorem Orderly.index_lt {c : Call} (h : c.Orderly) (hlacks : c.isComplete = false) :
    c.index < c.command.optional + c.command.required := by
  have hnot : ¬ c.isComplete = true := by simp [hlacks]
  rw [h.isComplete_iff] at hnot
  omega

theorem Orderly.optional_le_index {c : Call} (h : c.Orderly) (hwants : c.wantsOptional = false) :
    c.command.optional ≤ c.index := by
  have hnot : ¬ c.wantsOptional = true := by simp [hwants]
  rw [h.wantsOptional_iff] at hnot
  omega

theorem Orderly.lacks {c : Call} (h : c.Orderly)
    (hindex : c.index < c.command.optional + c.command.required) : c.isComplete = false := by
  rw [Bool.eq_false_iff, ne_eq, h.isComplete_iff]
  omega

theorem Orderly.wantsRequired {c : Call} (h : c.Orderly) (hindex : c.command.optional ≤ c.index) :
    c.wantsOptional = false := by
  rw [Bool.eq_false_iff, ne_eq, h.wantsOptional_iff]
  omega

/-- A complete call has as many arguments as its command asks for. -/
theorem Orderly.lengths {c : Call} (h : c.Orderly) (hcomplete : c.isComplete = true) :
    c.optional.length = c.command.optional ∧ c.required.length = c.command.required := by
  obtain ⟨hoptional, hrequired⟩ := Call.isComplete_iff.mp hcomplete
  exact ⟨Nat.le_antisymm h.optional_le hoptional, Nat.le_antisymm h.required_le hrequired⟩

theorem Orderly.bare {c : Call} (h : c.Orderly) (bare : Option (Option Span)) :
    Call.Orderly { c with bare := bare } :=
  ⟨h.optional_le, h.required_le, h.required_nil⟩

theorem Orderly.skip {c : Call} (h : c.Orderly) (hwants : c.wantsOptional = true) :
    c.skip.Orderly := by
  have hlt := Call.wantsOptional_iff.mp hwants
  refine ⟨?_, h.required_le, fun _ => h.required_nil hwants⟩
  simp only [Call.skip, List.length_append, List.length_cons, List.length_nil]
  omega

theorem Orderly.accept {c : Call} (h : c.Orderly) (hlacks : c.isComplete = false) (n : Node) :
    (c.accept n).Orderly := by
  unfold Call.accept
  split
  · rename_i hwants
    have hlt := Call.wantsOptional_iff.mp hwants
    refine ⟨?_, h.required_le, fun _ => h.required_nil hwants⟩
    simp only [List.length_append, List.length_cons, List.length_nil]
    omega
  · rename_i hwants
    -- all optional arguments are there, so it is a required one that is missing
    have hle := Call.wantsOptional_eq_false_iff.mp (by simpa using hwants)
    have hlt : c.required.length < c.command.required := by
      have hnot : ¬ c.isComplete = true := by simp [hlacks]
      rw [Call.isComplete_iff] at hnot
      omega
    refine ⟨h.optional_le, ?_, fun hwants' => absurd hwants' hwants⟩
    simp only [List.length_append, List.length_cons, List.length_nil]
    omega

/-- A call that was just opened is in order. -/
theorem orderly_openCall {env : Environment} {t : Token} {mode : Mode} {c : Call}
    (h : env.openCall t mode = .ok c) : c.Orderly := by
  obtain ⟨command, -, -, rfl⟩ := Environment.openCall_eq_ok_iff.mp h
  exact ⟨Nat.zero_le _, Nat.zero_le _, fun _ => rfl⟩

end Call

namespace Reads

variable {env : Environment} {c c' : Call} {ts rest : List Token}

/-- While its arguments are read, a call stays the same in all but its arguments. -/
theorem continues (h : Reads env (.arguments c c') ts rest) : c.Continues c' := by
  generalize hx : Piece.arguments c c' = x at h
  -- on the derivation; only the rules for arguments apply, and each adds one or none
  induction h generalizing c with
  | complete =>
    cases hx
    exact .refl _
  | space _ _ _ ih =>
    cases hx
    exact ih rfl
  | bracket _ _ _ _ _ _ ih | brace _ _ _ _ _ _ _ ih =>
    cases hx
    exact (Call.continues_accept _ _).trans (ih rfl)
  | omitted _ _ _ ih =>
    cases hx
    exact (Call.continues_skip _).trans (ih rfl)
  | bare _ _ _ _ _ _ _ ih =>
    cases hx
    exact (Call.continues_bare _ _).trans ((Call.continues_accept _ _).trans (ih rfl))
  | _ => cases hx

/-- Arguments that are read leave the call in order and complete. -/
theorem orderly (h : Reads env (.arguments c c') ts rest) (hc : c.Orderly) :
    c'.Orderly ∧ c'.isComplete = true := by
  generalize hx : Piece.arguments c c' = x at h
  induction h generalizing c with
  | complete hcomplete =>
    cases hx
    exact ⟨hc, hcomplete⟩
  | space _ _ _ ih =>
    cases hx
    exact ih hc rfl
  | bracket hwants _ _ _ _ _ ih =>
    cases hx
    exact ih (hc.accept (Call.isComplete_of_wantsOptional hwants) _) rfl
  | omitted hwants _ _ ih =>
    cases hx
    exact ih (hc.skip hwants) rfl
  | brace hlacks _ _ _ _ _ _ ih =>
    cases hx
    exact ih (hc.accept hlacks _) rfl
  | @bare _ _ n t _ _ _ hlacks _ _ _ _ _ _ ih =>
    cases hx
    exact ih ((hc.bare (some t.span)).accept hlacks n) rfl
  | _ => cases hx

end Reads

end MathMarkup
