import MathMarkup.Proofs.Registry.Standard

/-!
# Histories of a registry

A registry is changed by one operation after the other: single commands, layouts and whole
families, in any order.  Operations may fail, and the history goes on.  Whatever happens, the
first command with a name stays the one with this name, and a kind that can be laid out can
always be laid out.  All this holds for layouts of any type.

A definition fails exactly if one of its names is taken, and then nothing is changed.  A family
is made of several definitions, and those in front of the one that fails stay in force.  All
families but one have at most one definition and are registered as a whole or not at all.  The
family of arrows has two: if a pair of arrows is taken and no single arrow is, the single arrows
are registered although the family fails.

## Main definitions

* `Operation`, `Registry.perform`, `Registry.after` — operations, and what a history of them comes
  to.
* `Registry.IsFirstTaken` — the first of some names that is taken.
* `Registry.Keeps` — a later registry keeps what an earlier one has.

## Main results

* `Registry.define_eq_error_iff`, `Registry.exists_define_iff`, `Registry.layouts_define` — when a
  definition fails, and what it does if it does not.
* `Registry.keeps_perform`, `Registry.keeps_after` — what one operation keeps, and a whole history.
* `Registry.first_definitions_stay` — **a history keeps first definitions.**
* `Registry.exists_of_applyAll_error` — of several changes those in front of a failure stay.
* `Registry.perform_error_unchanged_iff` — **which failed operations change nothing.**
-/

namespace MathMarkup

/-- Something that is done to a registry. -/
inductive Operation (β : Type) where
  /-- A command is registered. -/
  | define (d : Definition β)
  /-- A layout is registered for a kind of node. -/
  | layout (kind : NodeKind) (layout : Option β)
  /-- A family is registered. -/
  | family (f : Family)

namespace Registry

variable {β : Type} {own : NodeKind → β} {r r' : Registry β} {d : Definition β} {e : CompileError}

/-! ### Operations -/

/-- Does an operation, where `own` are the layouts that families give to the kinds.  The registry
is the one in force afterwards, also if the operation failed. -/
def perform (own : NodeKind → β) (r : Registry β) :
    Operation β → Except CompileError Unit × Registry β
  | .define d =>
      match r.define d with
      | .ok r' => (.ok (), r')
      | .error e => (.error e, r)
  | .layout kind layout => (.ok (), r.setLayout kind layout)
  | .family f => r.addFamilyWith own f

/-- The registry after some operations, of which any may have failed. -/
def after (own : NodeKind → β) (r : Registry β) (history : List (Operation β)) : Registry β :=
  history.foldl (fun r op => (r.perform own op).2) r

theorem after_append (r : Registry β) (earlier later : List (Operation β)) :
    r.after own (earlier ++ later) = (r.after own earlier).after own later :=
  List.foldl_append ..

theorem perform_define_of_ok (h : r.define d = .ok r') :
    r.perform own (.define d) = (.ok (), r') := by
  simp only [perform, h]

theorem perform_define_of_error (h : r.define d = .error e) :
    r.perform own (.define d) = (.error e, r) := by
  simp only [perform, h]

/-! ### Definitions -/

/-- The first of some names that is taken: all names in front of it are free. -/
def IsFirstTaken (r : Registry β) (names : List String) (name : String) : Prop :=
  ∃ before behind, names = before ++ name :: behind ∧ (r.command? name).isSome = true ∧
    ∀ other ∈ before, r.command? other = none

theorem IsFirstTaken.exists_mem {names : List String} {name : String}
    (h : r.IsFirstTaken names name) : ∃ name ∈ names, (r.command? name).isSome = true := by
  obtain ⟨before, behind, rfl, htaken, -⟩ := h
  exact ⟨name, List.mem_append_right _ List.mem_cons_self, htaken⟩

/-- **A definition fails at the first of its names that is taken**, and the error names it. -/
theorem define_eq_error_iff : r.define d = .error e ↔
    ∃ name, r.IsFirstTaken d.names name ∧ e = ⟨.alreadyDefined name, none⟩ := by
  -- the search for a name that is taken finds the first
  have hfind : ∀ name, (d.names.find? fun n => (r.command? n).isSome) = some name ↔
      r.IsFirstTaken d.names name := by
    intro name
    rw [List.find?_eq_some_iff_append]
    constructor
    · rintro ⟨htaken, before, behind, hnames, hfree⟩
      exact ⟨before, behind, hnames, htaken, fun other hother => by simpa using hfree other hother⟩
    · rintro ⟨before, behind, hnames, htaken, hfree⟩
      exact ⟨htaken, before, behind, hnames, fun other hother => by simp [hfree other hother]⟩
  unfold define
  constructor
  · intro h
    split at h
    · rename_i name hname
      cases h
      exact ⟨name, (hfind name).mp hname, rfl⟩
    · cases h
  · rintro ⟨name, hname, rfl⟩
    rw [(hfind name).mpr hname]

/-- A definition succeeds exactly if all of its names are free. -/
theorem exists_define_iff :
    (∃ r', r.define d = .ok r') ↔ ∀ name ∈ d.names, r.command? name = none := by
  unfold define
  constructor
  · rintro ⟨r', h⟩ name hname
    split at h
    · cases h
    · rename_i hfree
      simpa using List.find?_eq_none.mp hfree name hname
  · intro h
    rw [List.find?_eq_none.mpr (by simpa using h)]
    exact ⟨_, rfl⟩

theorem layouts_setLayout (r : Registry β) (kind : NodeKind) (layout : Option β)
    (k : NodeKind) : (r.setLayout kind layout).layouts k =
      if k = kind then layout.or (r.layouts k) else r.layouts k := by
  cases layout with
  | none => simp [setLayout]
  | some layout => rfl

/-- A definition gives its layout to the kind of node that its command makes, and leaves all
other layouts as they are. -/
theorem layouts_define (h : r.define d = .ok r') (k : NodeKind) : r'.layouts k =
    if d.command.kind = some k then d.layout.or (r.layouts k) else r.layouts k := by
  unfold define at h
  split at h
  · cases h
  · cases h
    -- a command that makes no kind of node sets no layout
    cases hkind : d.command.kind with
    | none => simp
    | some kind => simp [layouts_setLayout, eq_comm]

/-! ### What is kept -/

/-- Whether a later registry keeps the commands of an earlier one, and has layouts for the kinds
that had one, perhaps other layouts. -/
structure Keeps (r r' : Registry β) : Prop where
  /-- A name that is taken stands for the same command. -/
  command : ∀ {name : String} {c : Command}, r.command? name = some c → r'.command? name = some c
  /-- A kind that has a layout has one. -/
  layout : ∀ {kind : NodeKind}, (r.layouts kind).isSome = true → (r'.layouts kind).isSome = true

theorem Keeps.refl (r : Registry β) : r.Keeps r := ⟨id, id⟩

theorem Keeps.trans {r₁ r₂ r₃ : Registry β} (h : r₁.Keeps r₂) (h' : r₂.Keeps r₃) : r₁.Keeps r₃ :=
  ⟨fun hc => h'.command (h.command hc), fun hk => h'.layout (h.layout hk)⟩

theorem keeps_setLayout (r : Registry β) (kind : NodeKind) (layout : Option β) :
    r.Keeps (r.setLayout kind layout) := by
  constructor
  · intro name c hc
    rwa [command?, commands_setLayout]
  · intro k hk
    rw [layouts_setLayout]
    split
    · simp [hk]
    · exact hk

/-- A name that is taken is none of those of a definition that succeeds. -/
theorem keeps_define (h : r.define d = .ok r') : r.Keeps r' := by
  constructor
  · intro name c hc
    have hfree := exists_define_iff.mp ⟨r', h⟩
    by_cases hname : name ∈ d.names
    · rw [hfree name hname] at hc
      cases hc
    · rwa [command?_define_of_notMem h hname]
  · intro k hk
    rw [layouts_define h]
    split
    · simp [hk]
    · exact hk

theorem keeps_apply {change : Registration β} (h : r.apply change = .ok r') : r.Keeps r' := by
  cases change with
  | define d => exact keeps_define h
  | layout kind layout =>
    cases h
    exact keeps_setLayout r kind layout

theorem keeps_applyAll (r : Registry β) (changes : List (Registration β)) :
    r.Keeps (r.applyAll changes).2 := by
  -- the changes up to the first that fails are made one after the other
  induction changes generalizing r with
  | nil => exact .refl r
  | cons change rest ih =>
    rw [applyAll]
    cases h : r.apply change with
    | error e => exact .refl r
    | ok r' => exact (keeps_apply h).trans (ih r')

/-- One operation keeps what is there, whether it fails or not, and also if it fails halfway. -/
theorem keeps_perform (r : Registry β) (op : Operation β) : r.Keeps (r.perform own op).2 := by
  cases op with
  | define d =>
    cases h : r.define d with
    | error e =>
      rw [perform_define_of_error h]
      exact .refl r
    | ok r' =>
      rw [perform_define_of_ok h]
      exact keeps_define h
  | layout kind layout => exact keeps_setLayout r kind layout
  | family f => exact keeps_applyAll r (f.registrations own)

/-- A history keeps what is there. -/
theorem keeps_after (r : Registry β) (history : List (Operation β)) :
    r.Keeps (r.after own history) := by
  induction history generalizing r with
  | nil => exact .refl r
  | cons op history ih => exact (keeps_perform r op).trans (ih (r.perform own op).2)

/-- **A history keeps first definitions.**  Whatever was done to a registry and whatever is done
to it later, commands stay as they are and layouts are never lost.  A definition that is made in
between fails exactly if one of its names is taken; it then reports the first such name and
changes nothing.  If it succeeds, its names stand for its command and all other names for what
they stood for. -/
theorem first_definitions_stay {β : Type} (own : NodeKind → β) (r : Registry β)
    (earlier later : List (Operation β)) (d : Definition β) :
    let now := r.after own earlier
    (∀ name c, now.command? name = some c →
      (r.after own (earlier ++ later)).command? name = some c) ∧
    (∀ kind, (now.layouts kind).isSome = true →
      ((r.after own (earlier ++ later)).layouts kind).isSome = true) ∧
    ((∃ e, (now.perform own (.define d)).1 = .error e) ↔
      ∃ name ∈ d.names, (now.command? name).isSome = true) ∧
    (∀ e, (now.perform own (.define d)).1 = .error e →
      (∃ name, now.IsFirstTaken d.names name ∧ e = ⟨.alreadyDefined name, none⟩) ∧
        (now.perform own (.define d)).2 = now) ∧
    ((now.perform own (.define d)).1 = .ok () → ∀ name,
      (now.perform own (.define d)).2.command? name =
        if name ∈ d.names then some d.command else now.command? name) := by
  intro now
  have hkeeps : now.Keeps (r.after own (earlier ++ later)) := by
    rw [after_append]
    exact keeps_after now later
  refine ⟨fun _ _ => hkeeps.command, fun _ => hkeeps.layout, ?_⟩
  cases h : now.define d with
  | error e =>
    obtain ⟨name, hname, he⟩ := define_eq_error_iff.mp h
    rw [perform_define_of_error h]
    refine ⟨⟨fun _ => hname.exists_mem, fun _ => ⟨e, rfl⟩⟩, ?_, ?_⟩
    · intro e' he'
      cases he'
      exact ⟨⟨name, hname, he⟩, rfl⟩
    · intro hok
      cases hok
  | ok r' =>
    have hfree := exists_define_iff.mp ⟨r', h⟩
    rw [perform_define_of_ok h]
    refine ⟨⟨?_, ?_⟩, ?_, ?_⟩
    · rintro ⟨e, he⟩
      cases he
    · rintro ⟨name, hname, htaken⟩
      rw [hfree name hname] at htaken
      cases htaken
    · intro e he
      cases he
    · intro _ name
      split
      · rename_i hname
        exact command?_define_of_mem h hname
      · rename_i hname
        exact command?_define_of_notMem h hname

/-- Fractions are registered, and a definition that wants their name along with a new one fails:
fractions stay, and nothing is registered under the new name. -/
theorem first_definitions_stay_fraction :
    let d : Definition := { names := ["\\brandnew", "\\frac"], command := .phantom }
    let r := ({} : Registry).after id [.family .fractions]
    (r.perform id (.define d)).1 = .error ⟨.alreadyDefined "\\frac", none⟩ ∧
      (r.perform id (.define d)).2 = r ∧
      (({} : Registry).after id ([.family .fractions] ++ [.define d, .family .fractions])).command?
        "\\frac" = some .fraction := by
  intro d r
  have hfraction : r.command? "\\frac" = some .fraction := rfl
  have hfails : (r.perform id (.define d)).1 = .error ⟨.alreadyDefined "\\frac", none⟩ := rfl
  obtain ⟨hcommand, -, -, herror, -⟩ :=
    first_definitions_stay id {} [.family .fractions] [.define d, .family .fractions] d
  exact ⟨hfails, (herror _ hfails).2, hcommand _ _ hfraction⟩

/-! ### Failed operations -/

/-- **Of several changes, those in front of the one that fails stay in force**, and the one that
fails is a definition. -/
theorem exists_of_applyAll_error {changes : List (Registration β)}
    (h : (r.applyAll changes).1 = .error e) : ∃ before d behind,
      changes = before ++ .define d :: behind ∧
        r.applyAll before = (.ok (), (r.applyAll changes).2) ∧
        (r.applyAll changes).2.define d = .error e := by
  induction changes generalizing r with
  | nil => cases h
  | cons change rest ih =>
    rw [applyAll] at h ⊢
    -- the first change fails, or it is made and the failure is further behind
    cases happly : r.apply change with
    | error e' =>
      rw [happly] at h
      cases h
      cases change with
      | define d => exact ⟨[], d, rest, rfl, rfl, happly⟩
      -- a layout can always be set
      | layout kind layout => cases happly
    | ok r' =>
      rw [happly] at h
      obtain ⟨before, d, behind, hrest, hbefore, hdefine⟩ := ih h
      refine ⟨change :: before, d, behind, by rw [hrest, List.cons_append], ?_, hdefine⟩
      rw [applyAll, happly]
      exact hbefore

/-- The definition of the single arrows. -/
def arrowDefinition (own : NodeKind → β) : Definition β :=
  { names := arrowNames, command := .arrow, layout := own .arrow }

/-- The definition of the pairs of arrows. -/
def arrowPairDefinition (own : NodeKind → β) : Definition β :=
  { names := arrowPairNames, command := .arrowPair, layout := own .arrowPair }

/-- The definitions of families come first in them, with the pairs of arrows as the only
exception. -/
theorem registrations_eq_append {f : Family} {before behind : List (Registration β)}
    (h : f.registrations own = before ++ .define d :: behind) :
    before = [] ∧ (f = .arrows → d = arrowDefinition own) ∨
      f = .arrows ∧ before = [.define (arrowDefinition own)] := by
  have hmem : Registration.define d ∈ f.registrations own := by
    rw [h]
    exact List.mem_append_right _ List.mem_cons_self
  cases f with
  | groups => simp [Family.registrations, groupRegistrations] at hmem
  | symbols => simp [Family.registrations, symbolRegistrations] at hmem
  | arrows =>
    have hpair : [Registration.define (arrowDefinition own), .define (arrowPairDefinition own)] =
        before ++ .define d :: behind := h
    -- the arrows come first, so that only the pairs can fail behind something
    match before with
    | [] =>
      simp only [List.nil_append, List.cons.injEq, Registration.define.injEq] at hpair
      exact .inl ⟨rfl, fun _ => hpair.1.symm⟩
    | [change] =>
      simp only [List.cons_append, List.nil_append, List.cons.injEq] at hpair
      exact .inr ⟨rfl, by rw [hpair.1]⟩
    | _ :: _ :: _ => simp at hpair
  | laps | fractions | phantoms | texts =>
    cases before with
    | nil => exact .inl ⟨rfl, by simp⟩
    | cons change before =>
      simp [Family.registrations, lapRegistrations, fractionRegistrations, phantomRegistrations,
        textRegistrations] at h

/-- A family that fails changes nothing, unless it is that of the arrows and fails behind the
single arrows. -/
theorem perform_family_error {f : Family} (h : (r.perform own (.family f)).1 = .error e) :
    (r.perform own (.family f)).2 = r ∧
        (f = .arrows → ∃ name ∈ arrowNames, (r.command? name).isSome = true) ∨
      f = .arrows ∧ r.define (arrowDefinition own) = .ok (r.perform own (.family f)).2 := by
  obtain ⟨before, d, behind, hchanges, hbefore, hdefine⟩ := exists_of_applyAll_error h
  -- the first definition of the family fails, or the second one of the arrows
  rcases registrations_eq_append hchanges with ⟨rfl, hfirst⟩ | ⟨rfl, rfl⟩
  · have hsame : (r.perform own (.family f)).2 = r := (congrArg Prod.snd hbefore).symm
    refine .inl ⟨hsame, ?_⟩
    intro hf
    rw [hfirst hf] at hdefine
    obtain ⟨name, hname, -⟩ := define_eq_error_iff.mp hdefine
    exact hsame ▸ hname.exists_mem
  · refine .inr ⟨rfl, ?_⟩
    simp only [applyAll, apply] at hbefore
    split at hbefore
    · rename_i r' hsingle
      cases hbefore
      exact hsingle
    · cases hbefore

/-- The single arrows make a difference. -/
theorem define_arrows_ne (h : r.define (arrowDefinition own) = .ok r') : r' ≠ r := by
  have hmem : "\\xrightarrow" ∈ arrowNames := by decide
  have hfree := exists_define_iff.mp ⟨r', h⟩ _ hmem
  rintro rfl
  rw [command?_define_of_mem h hmem] at hfree
  cases hfree

/-- **Which failed operations change nothing.**  All of them do, except for the family of arrows
where no single arrow is taken, so that it fails at a pair of arrows.  The single arrows are then
registered. -/
theorem perform_error_unchanged_iff {β : Type} (own : NodeKind → β) (r : Registry β)
    (op : Operation β) (e : CompileError) (h : (r.perform own op).1 = .error e) :
    ((r.perform own op).2 = r ↔
      ¬ (op = .family .arrows ∧ ∀ name ∈ arrowNames, r.command? name = none)) ∧
    (op = .family .arrows ∧ (∀ name ∈ arrowNames, r.command? name = none) →
      r.define (arrowDefinition own) = .ok (r.perform own op).2) := by
  cases op with
  | define d =>
    cases hdefine : r.define d with
    | ok r' =>
      rw [perform_define_of_ok hdefine] at h
      cases h
    | error e' => simp [perform_define_of_error hdefine]
  | layout kind layout => cases h
  | family f =>
    rcases perform_family_error h with ⟨hsame, htaken⟩ | ⟨rfl, hdefine⟩
    · have hnot : ¬ ((Operation.family f : Operation β) = .family .arrows ∧
          ∀ name ∈ arrowNames, r.command? name = none) := by
        rintro ⟨hf, hfree⟩
        obtain ⟨name, hname, hsome⟩ := htaken (Operation.family.inj hf)
        rw [hfree name hname] at hsome
        cases hsome
      exact ⟨iff_of_true hsame hnot, fun hboth => absurd hboth hnot⟩
    · -- the single arrows were registered, so none of them was taken
      have hfree := exists_define_iff.mp ⟨_, hdefine⟩
      refine ⟨iff_of_false (define_arrows_ne hdefine) ?_, fun _ => hdefine⟩
      exact not_not_intro ⟨rfl, hfree⟩

/-- A fraction is taken, and the family of fractions fails without any effect. -/
theorem perform_error_unchanged_fractions :
    let r : Registry := { commands := [("\\frac", .phantom)] }
    (r.perform id (.family .fractions)).1 = .error ⟨.alreadyDefined "\\frac", none⟩ ∧
      (r.perform id (.family .fractions)).2 = r := by
  intro r
  have hfails : (r.perform id (.family .fractions)).1 = .error ⟨.alreadyDefined "\\frac", none⟩ :=
    rfl
  refine ⟨hfails, (perform_error_unchanged_iff id r (.family .fractions) _ hfails).1.mpr ?_⟩
  rintro ⟨hfamily, -⟩
  cases hfamily

/-- A pair of arrows is taken, and the family of arrows fails, but not without an effect. -/
theorem perform_arrows_registers_half :
    let r : Registry := { commands := [("\\xtofrom", .arrowPair)] }
    (r.perform id (.family .arrows)).1 = .error ⟨.alreadyDefined "\\xtofrom", none⟩ ∧
      (r.perform id (.family .arrows)).2 ≠ r := by
  intro r
  have hbefore : (r.command? "\\xrightarrow").isSome = false := by decide +kernel
  have hafter : ((r.perform id (.family .arrows)).2.command? "\\xrightarrow").isSome = true := by
    decide +kernel
  refine ⟨by decide +kernel, ?_⟩
  intro hsame
  rw [hsame, hbefore] at hafter
  cases hafter

end Registry

end MathMarkup
