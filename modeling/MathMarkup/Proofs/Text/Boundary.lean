import Mathlib.Order.Bounds.Basic
import MathMarkup.Proofs.Parser.Consumption

/-!
# Boundaries of a text

A text can be cut between its characters, at offsets that are counted in bytes.  From an offset
inside a character there is a nearest boundary on either side, and the two searches find it: one
goes back to the greatest boundary in front of the offset, the other on to the least boundary
behind it.

## Main definitions

* `Text.IsBoundary` — an offset at which a text can be cut.

## Main results

* `Text.isBoundary_iff` — a cut at a boundary, in characters.
* `Text.isGreatest_floorBoundary` — the nearest boundary in front of an offset.
* `Text.isLeast_ceilBoundary` — the nearest boundary behind an offset in the text.
-/

namespace MathMarkup.Text

/-- Whether an offset in bytes falls between two characters of a text, or at one of its ends. -/
def IsBoundary (text : String) (offset : Nat) : Prop := String.Pos.Raw.IsValid text ⟨offset⟩

/-- A text is cut at a boundary into some characters and the others. -/
theorem isBoundary_iff {text : String} {offset : Nat} :
    IsBoundary text offset ↔
      ∃ before after, text.toList = before ++ after ∧ byteLength before = offset := by
  rw [IsBoundary, String.Pos.Raw.isValid_iff_exists_append]
  constructor
  · rintro ⟨before, after, rfl, hoffset⟩
    refine ⟨before.toList, after.toList, String.toList_append, ?_⟩
    rw [← utf8ByteSize_eq]
    exact (congrArg String.Pos.Raw.byteIdx hoffset).symm
  · rintro ⟨before, after, htext, rfl⟩
    refine ⟨String.ofList before, String.ofList after, ?_, ?_⟩
    · rw [← String.ofList_append, ← htext, String.ofList_toList]
    · rw [← utf8ByteSize_ofList]
      rfl

/-! ### Back to a boundary -/

theorem floorBoundary_le (n : Nat) (cs : List Char) : floorBoundary n cs ≤ n := by
  induction cs generalizing n with
  | nil => exact Nat.zero_le n
  | cons c cs ih =>
    rw [floorBoundary]
    split
    · have hrest := ih (n - c.utf8Size)
      omega
    · exact Nat.zero_le n

/-- The text can be cut where the search ends. -/
theorem exists_append_floorBoundary (n : Nat) (cs : List Char) :
    ∃ before after, cs = before ++ after ∧ byteLength before = floorBoundary n cs := by
  induction cs generalizing n with
  | nil => exact ⟨[], [], rfl, rfl⟩
  | cons c cs ih =>
    rw [floorBoundary]
    split
    · obtain ⟨before, after, hcs, hlength⟩ := ih (n - c.utf8Size)
      exact ⟨c :: before, after, by rw [hcs, List.cons_append], by rw [byteLength_cons, hlength]⟩
    · exact ⟨[], c :: cs, rfl, rfl⟩

/-- The search passes no boundary that is in front of the offset. -/
theorem byteLength_le_floorBoundary {n : Nat} {before : List Char} (after : List Char)
    (h : byteLength before ≤ n) : byteLength before ≤ floorBoundary n (before ++ after) := by
  induction before generalizing n with
  | nil => exact Nat.zero_le _
  | cons c before ih =>
    rw [byteLength_cons] at h
    -- the offset is behind the first character, so the search goes on
    have hrest : byteLength before ≤ floorBoundary (n - c.utf8Size) (before ++ after) :=
      ih (by omega)
    rw [List.cons_append, floorBoundary, if_pos (by omega), byteLength_cons]
    omega

/-- **The nearest boundary in front of an offset.**  There always is one, as a text can be cut in
front of its first character. -/
theorem isGreatest_floorBoundary (text : String) (n : Nat) :
    IsGreatest {offset | IsBoundary text offset ∧ offset ≤ n} (floorBoundary n text.toList) := by
  constructor
  · exact ⟨isBoundary_iff.mpr (exists_append_floorBoundary n text.toList), floorBoundary_le n _⟩
  · rintro offset ⟨hboundary, hle⟩
    obtain ⟨before, after, htext, rfl⟩ := isBoundary_iff.mp hboundary
    rw [htext]
    exact byteLength_le_floorBoundary after hle

/-! ### On to a boundary -/

theorem le_ceilBoundary {n : Nat} {cs : List Char} (h : n ≤ byteLength cs) :
    n ≤ ceilBoundary n cs := by
  induction cs generalizing n with
  | nil => exact h
  | cons c cs ih =>
    cases n with
    | zero => exact Nat.zero_le _
    | succ n =>
      rw [byteLength_cons] at h
      have hrest : n + 1 - c.utf8Size ≤ ceilBoundary (n + 1 - c.utf8Size) cs := ih (by omega)
      rw [ceilBoundary]
      omega

/-- The text can be cut where the search ends. -/
theorem exists_append_ceilBoundary (n : Nat) (cs : List Char) :
    ∃ before after, cs = before ++ after ∧ byteLength before = ceilBoundary n cs := by
  induction cs generalizing n with
  | nil => exact ⟨[], [], rfl, by rw [ceilBoundary]; rfl⟩
  | cons c cs ih =>
    cases n with
    | zero => exact ⟨[], c :: cs, rfl, rfl⟩
    | succ n =>
      obtain ⟨before, after, hcs, hlength⟩ := ih (n + 1 - c.utf8Size)
      refine ⟨c :: before, after, by rw [hcs, List.cons_append], ?_⟩
      rw [byteLength_cons, hlength, ceilBoundary]

/-- The search goes no further than a boundary that is behind the offset. -/
theorem ceilBoundary_le_byteLength {n : Nat} {before : List Char} (after : List Char)
    (h : n ≤ byteLength before) : ceilBoundary n (before ++ after) ≤ byteLength before := by
  induction before generalizing n with
  | nil =>
    obtain rfl : n = 0 := Nat.le_zero.mp h
    cases after <;> exact Nat.le_refl 0
  | cons c before ih =>
    cases n with
    | zero => exact Nat.zero_le _
    | succ n =>
      rw [byteLength_cons] at h
      have hrest : ceilBoundary (n + 1 - c.utf8Size) (before ++ after) ≤ byteLength before :=
        ih (by omega)
      rw [List.cons_append, ceilBoundary, byteLength_cons]
      omega

/-- **The nearest boundary behind an offset in the text.**  Behind the end of the text there is
none, so the offset has to be inside. -/
theorem isLeast_ceilBoundary {text : String} {n : Nat} (h : n ≤ text.utf8ByteSize) :
    IsLeast {offset | IsBoundary text offset ∧ n ≤ offset} (ceilBoundary n text.toList) := by
  constructor
  · refine ⟨isBoundary_iff.mpr (exists_append_ceilBoundary n text.toList), ?_⟩
    exact le_ceilBoundary (by rwa [← utf8ByteSize_eq])
  · rintro offset ⟨hboundary, hle⟩
    obtain ⟨before, after, htext, rfl⟩ := isBoundary_iff.mp hboundary
    rw [htext]
    exact ceilBoundary_le_byteLength after hle

end MathMarkup.Text
