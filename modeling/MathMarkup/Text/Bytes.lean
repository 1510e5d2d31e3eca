/-!
# Byte offsets in text

Positions in a document are counted in bytes of its UTF-8 form, while the text
itself is read as a list of characters.  An offset is a *boundary* of the text
when it falls between two characters, or at one of the ends.

## Main definitions

* `byteLength` — the number of bytes of a text.
* `splitAt?` — cut a text at a boundary.
* `slice?` — the piece between two boundaries.
* `floorBoundary`, `ceilBoundary` — the nearest boundary on either side of an
  offset.

## Main results

* `slice?_eq_some_iff` — a slice is a piece of the text between the two offsets.
-/

namespace MathMarkup.Text

/-- The number of bytes of a text in UTF-8. -/
def byteLength : List Char → Nat
  | [] => 0
  | c :: cs => c.utf8Size + byteLength cs

@[simp] theorem byteLength_nil : byteLength [] = 0 := rfl

@[simp] theorem byteLength_cons (c : Char) (cs : List Char) :
    byteLength (c :: cs) = c.utf8Size + byteLength cs := rfl

@[simp] theorem byteLength_append (as bs : List Char) :
    byteLength (as ++ bs) = byteLength as + byteLength bs := by
  induction as with
  | nil => simp
  | cons a as ih => simp [ih, Nat.add_assoc]

/-- The two parts of a text before and after a byte offset; nothing unless the
offset is a boundary of the text. -/
def splitAt? : Nat → List Char → Option (List Char × List Char)
  | 0, cs => some ([], cs)
  | _ + 1, [] => none
  | n + 1, c :: cs =>
      if c.utf8Size ≤ n + 1 then
        (splitAt? (n + 1 - c.utf8Size) cs).map fun (before, after) => (c :: before, after)
      else none

/-- Cutting at the length of the first part gives the parts back. -/
theorem splitAt?_append (as bs : List Char) :
    splitAt? (byteLength as) (as ++ bs) = some (as, bs) := by
  induction as with
  | nil => simp [splitAt?]
  | cons a as ih =>
    have hpos : 0 < a.utf8Size := Char.utf8Size_pos a
    obtain ⟨n, hn⟩ : ∃ n, byteLength (a :: as) = n + 1 :=
      ⟨byteLength (a :: as) - 1, by simp only [byteLength_cons]; omega⟩
    have hle : a.utf8Size ≤ n + 1 := by rw [← hn]; simp
    have hsub : n + 1 - a.utf8Size = byteLength as := by rw [← hn]; simp
    rw [hn, List.cons_append, splitAt?, if_pos hle, hsub, ih]
    rfl

/-- A text that is cut falls into its two parts. -/
theorem eq_append_of_splitAt? {n : Nat} {cs as bs : List Char}
    (h : splitAt? n cs = some (as, bs)) : cs = as ++ bs ∧ byteLength as = n := by
  induction cs generalizing n as with
  | nil =>
    cases n with
    | zero =>
      cases h
      exact ⟨rfl, rfl⟩
    | succ n => cases h
  | cons c cs ih =>
    cases n with
    | zero =>
      cases h
      exact ⟨rfl, rfl⟩
    | succ n =>
      rw [splitAt?] at h
      split at h
      · rename_i hle
        obtain ⟨⟨before, after⟩, hsplit, heq⟩ := Option.map_eq_some_iff.mp h
        cases heq
        obtain ⟨rfl, hlength⟩ := ih hsplit
        exact ⟨rfl, by rw [byteLength_cons, hlength]; omega⟩
      · cases h

/-- The piece of a text between two byte offsets; nothing unless both are
boundaries of the text, in order. -/
def slice? (cs : List Char) (start stop : Nat) : Option (List Char) :=
  if start ≤ stop then
    (splitAt? start cs).bind fun (_, rest) =>
      (splitAt? (stop - start) rest).map Prod.fst
  else none

/-- What a slice is: a piece of the text that stands between the two offsets. -/
theorem slice?_eq_some_iff {cs found : List Char} {start stop : Nat} :
    slice? cs start stop = some found ↔ ∃ before after, cs = before ++ (found ++ after) ∧
      start = byteLength before ∧ stop = start + byteLength found := by
  constructor
  · intro h
    rw [slice?] at h
    split at h
    · rename_i hle
      obtain ⟨⟨before, rest⟩, hstart, hrest⟩ := Option.bind_eq_some_iff.mp h
      obtain ⟨⟨piece, after⟩, hstop, hpiece⟩ := Option.map_eq_some_iff.mp hrest
      obtain rfl : piece = found := hpiece
      obtain ⟨rfl, hbefore⟩ := eq_append_of_splitAt? hstart
      obtain ⟨rfl, hfound⟩ := eq_append_of_splitAt? hstop
      exact ⟨before, after, rfl, hbefore.symm, by omega⟩
    · cases h
  · rintro ⟨before, after, rfl, rfl, rfl⟩
    rw [slice?, if_pos (Nat.le_add_right _ _), splitAt?_append, Nat.add_sub_cancel_left]
    show (splitAt? _ (found ++ after)).map Prod.fst = _
    rw [splitAt?_append]
    rfl

/-- The greatest boundary of a text at or before an offset. -/
def floorBoundary : Nat → List Char → Nat
  | _, [] => 0
  | n, c :: cs =>
      if c.utf8Size ≤ n then c.utf8Size + floorBoundary (n - c.utf8Size) cs else 0

/-- The least boundary of a text at or after an offset, or its end. -/
def ceilBoundary : Nat → List Char → Nat
  | _, [] => 0
  | 0, _ :: _ => 0
  | n + 1, c :: cs => c.utf8Size + ceilBoundary (n + 1 - c.utf8Size) cs

end MathMarkup.Text
