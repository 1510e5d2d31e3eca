import MathMarkup.Node.Basic

/-!
# Moving places

A text can be read on its own or as a piece of a longer one.  Its places then lie in another
document, a fixed number of bytes further to the right.

## Main definitions

* `Span.moveTo`, `Node.moveTo`, `CompileError.moveTo` — the same with its places in another
  document, moved to the right.

## Main results

* `Span.cover_moveTo` — what covers two places is moved with them.
* `CompileError.located_moveTo` — an error is moved with its place.
* `Node.elements_moveTo` — the elements of a node are moved with it.
-/

namespace MathMarkup

variable (d : Document) (k : Nat)

/-- The range in another document, some bytes further to the right. -/
def Span.moveTo (s : Span) : Span := ⟨d, s.start + k, s.stop + k⟩

/-- What covers two places of one document is moved with them.  Places of two documents are covered
by nothing, and moving would bring them into one. -/
theorem Span.cover_moveTo {old : Document} {a b : Option Span} (ha : ∀ s ∈ a, s.document = old)
    (hb : ∀ s ∈ b, s.document = old) :
    Span.cover (a.map (moveTo d k)) (b.map (moveTo d k)) = (Span.cover a b).map (moveTo d k) := by
  cases a with
  | none => cases b <;> rfl
  | some s =>
    cases b with
    | none => rfl
    | some t =>
      -- places of one document are put together, before and after
      have hserial : s.document.serial = t.document.serial := by rw [ha s rfl, hb t rfl]
      simp only [cover, Option.map_some, moveTo, if_pos hserial, if_true, Nat.add_min_add_right,
        Nat.add_max_add_right]

theorem Span.document_of_mem_cover {old : Document} {a b : Option Span}
    (ha : ∀ s ∈ a, s.document = old) (hb : ∀ s ∈ b, s.document = old) :
    ∀ s ∈ Span.cover a b, s.document = old := by
  intro s hs
  cases a with
  | none =>
    cases b with
    | none => cases hs
    | some t => exact hb s hs
  | some r =>
    cases b with
    | none => exact ha s hs
    | some t =>
      simp only [cover] at hs
      split at hs
      · cases hs
        exact ha r rfl
      · cases hs

/-- The token with its place moved. -/
def Token.moveTo (t : Token) : Token := ⟨t.text, t.span.map (Span.moveTo d k)⟩

/-! ### Errors -/

namespace CompileError

/-- The error with its place moved. -/
def moveTo (e : CompileError) : CompileError := ⟨e.reason, e.place.map (Span.moveTo d k)⟩

@[simp] theorem reason_moveTo (e : CompileError) : (e.moveTo d k).reason = e.reason := rfl

@[simp] theorem position_moveTo (e : CompileError) :
    (e.moveTo d k).position = e.position.map (· + k) := by
  simp only [position, moveTo, Option.map_map]
  rfl

@[simp] theorem length_moveTo (e : CompileError) : (e.moveTo d k).length = e.length := by
  have hlength : (fun s : Span => s.stop - s.start) ∘ Span.moveTo d k =
      fun s => s.stop - s.start := by
    funext s
    exact Nat.add_sub_add_right _ _ _
  simp only [length, moveTo, Option.map_map, hlength]

/-- An error is moved with its place. -/
theorem located_moveTo (reason : Reason) (a : Option Span) :
    located reason (a.map (Span.moveTo d k)) = (located reason a).moveTo d k := by
  cases a with
  | none => rfl
  | some s =>
    -- a range that ends before it starts is no place, wherever it is moved
    by_cases hle : s.start ≤ s.stop
    · have hle' : s.start + k ≤ s.stop + k := by omega
      simp [located, moveTo, Span.moveTo, Option.filter, hle, hle']
    · have hle' : ¬ s.start + k ≤ s.stop + k := by omega
      simp [located, moveTo, Span.moveTo, Option.filter, hle, hle']

end CompileError

/-! ### Nodes -/

namespace Node

/-- The site with its place moved. -/
def moveSite (s : Site) : Site := ⟨s.mode, s.span.map (Span.moveTo d k)⟩

mutual

/-- A node with all of its places moved. -/
def moveTo : Node → Node
  | group s body => group (moveSite d k s) (moveList body)
  | fraction s a b => fraction (moveSite d k s) (moveTo a) (moveTo b)
  | letter s t => letter (moveSite d k s) t
  | symbol s t => symbol (moveSite d k s) t
  | text s body => text (moveSite d k s) (moveList body)
  | phantom s a => phantom (moveSite d k s) (moveTo a)
  | lap s side a => lap (moveSite d k s) side (moveTo a)
  | arrow s name body below => arrow (moveSite d k s) name (moveOption body) (moveOption below)
  | arrowPair s name body below upperBelow lowerBody =>
      arrowPair (moveSite d k s) name (moveOption body) (moveOption below)
        (moveOption upperBelow) (moveOption lowerBody)

/-- Nodes with all of their places moved. -/
def moveList : List Node → List Node
  | [] => []
  | n :: ns => moveTo n :: moveList ns

/-- A node that may be missing, with all of its places moved. -/
def moveOption : Option Node → Option Node
  | some n => some (moveTo n)
  | none => none

end

theorem moveList_eq_map (ns : List Node) : moveList d k ns = ns.map (moveTo d k) := by
  induction ns with
  | nil => rfl
  | cons n ns ih => rw [moveList, ih, List.map_cons]

theorem moveOption_eq_map (n : Option Node) : moveOption d k n = n.map (moveTo d k) := by
  cases n <;> rfl

/-- The elements of a node are moved with it. -/
theorem elements_moveTo (n : Node) : (n.moveTo d k).elements = n.elements.map (moveTo d k) := by
  cases n with
  | group s body => rw [moveTo, elements, elements, moveList_eq_map]
  | _ => rfl

end Node

end MathMarkup
