import MathMarkup.Node.Basic

/-!
# Nodes without their places

Two texts can be read as the same formula without being the same text.  Their nodes then
differ in nothing but their places in the document.

## Main definitions

* `Node.erase` — a node without its places.

## Main results

* `Node.erase_group` — erasing a group erases its nodes.
* `Node.map_erase_elements` — nodes that are the same, places apart, have the same elements,
  places apart.
-/

namespace MathMarkup

namespace Node

/-- The site without its place. -/
def eraseSite (s : Site) : Site := ⟨s.mode, none⟩

mutual

/-- A node without any places. -/
def erase : Node → Node
  | group s body => group (eraseSite s) (eraseList body)
  | fraction s a b => fraction (eraseSite s) (erase a) (erase b)
  | letter s t => letter (eraseSite s) t
  | symbol s t => symbol (eraseSite s) t
  | text s body => text (eraseSite s) (eraseList body)
  | phantom s a => phantom (eraseSite s) (erase a)
  | lap s side a => lap (eraseSite s) side (erase a)
  | arrow s name body below => arrow (eraseSite s) name (eraseOption body) (eraseOption below)
  | arrowPair s name body below upperBelow lowerBody =>
      arrowPair (eraseSite s) name (eraseOption body) (eraseOption below)
        (eraseOption upperBelow) (eraseOption lowerBody)

/-- Nodes without any places. -/
def eraseList : List Node → List Node
  | [] => []
  | n :: ns => erase n :: eraseList ns

/-- A node that may be missing, without any places. -/
def eraseOption : Option Node → Option Node
  | some n => some (erase n)
  | none => none

end

theorem eraseList_eq_map (ns : List Node) : eraseList ns = ns.map erase := by
  induction ns with
  | nil => rfl
  | cons n ns ih => rw [eraseList, ih, List.map_cons]

theorem eraseOption_eq_map (n : Option Node) : eraseOption n = n.map erase := by
  cases n <;> rfl

theorem erase_group (s : Site) (body : List Node) :
    erase (.group s body) = .group (eraseSite s) (body.map erase) := by
  rw [erase, eraseList_eq_map]

theorem elements_erase (n : Node) : n.erase.elements = n.elements.map erase := by
  cases n with
  | group s body => rw [erase_group, elements, elements]
  | _ => rfl

theorem map_erase_elements {n n' : Node} (h : n.erase = n'.erase) :
    n.elements.map erase = n'.elements.map erase := by
  rw [← elements_erase, ← elements_erase, h]

end Node

end MathMarkup
