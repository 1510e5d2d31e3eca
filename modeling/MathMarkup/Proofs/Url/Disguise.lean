import MathMarkup.Url.Scheme

/-!
# Colons in disguise

A URL without a scheme is relative.  What could be a scheme stands before the first of
the characters `\`, `/`, `#` and `?`, and it is one if a colon follows it there.  The
colon can be spelled as an entity: by name, or by its number with any zeros in front.

An entity is searched for in a window of limited length only, so an entity with enough
zeros in front of its number is not seen.  A URL counts as relative exactly if there is
neither a colon in the part for the scheme nor an entity that starts there and fits into
the window.

## Main definitions

* `Url.SpellsColon`, `Url.IsEncodedColon` — the entities for a colon.
* `Url.trimmed`, `Url.schemePart` — where they are searched for.
* `Url.Disguises` — an entity that starts in the part for the scheme.

## Main results

* `Url.startsEncodedColon_iff` — which entities are seen.
* `Url.ending_eq_absent_iff` — when neither a colon nor an entity is found.
* `Url.scheme?_eq_relative_iff` — which URLs count as relative.
* `Url.scheme?_overlooks_padded_colon` — one that has a colon in disguise.
-/

namespace MathMarkup

/-! ### Cutting texts -/

namespace Text

/-- A cut behind the first part of a text is a cut of the second part. -/
theorem splitAt?_append_of_le {n : Nat} {as : List Char} (bs : List Char)
    (h : byteLength as ≤ n) :
    splitAt? n (as ++ bs) =
      (splitAt? (n - byteLength as) bs).map fun (before, after) => (as ++ before, after) := by
  induction as generalizing n with
  | nil => simp
  | cons a as ih =>
    have hpos : 0 < a.utf8Size := Char.utf8Size_pos a
    rw [byteLength_cons] at h
    obtain ⟨m, rfl⟩ : ∃ m, n = m + 1 := ⟨n - 1, by omega⟩
    have hsub : m + 1 - byteLength (a :: as) = m + 1 - a.utf8Size - byteLength as := by
      rw [byteLength_cons]
      omega
    rw [List.cons_append, splitAt?, if_pos (by omega), ih (by omega), hsub, Option.map_map]
    rfl

/-- Where every character has one byte, bytes and characters count the same. -/
theorem byteLength_eq_length {cs : List Char} (h : ∀ c ∈ cs, c.utf8Size = 1) :
    byteLength cs = cs.length := by
  induction cs with
  | nil => rfl
  | cons c cs ih =>
    rw [List.forall_mem_cons] at h
    rw [byteLength_cons, h.1, ih h.2, List.length_cons]
    omega

end Text

namespace Url

open Text

/-! ### The window -/

/-- The window is the beginning of the text. -/
theorem exists_append_entityText (cs : List Char) : ∃ behind, cs = entityText cs ++ behind := by
  unfold entityText
  split
  · rename_i window behind hsplit
    exact ⟨behind, (eq_append_of_splitAt? hsplit).1⟩
  · exact ⟨[], (List.append_nil cs).symm⟩

/-- What fits into the window and stands at its beginning is in the window. -/
theorem exists_entityText_append {es : List Char} (after : List Char)
    (h : byteLength es ≤ entityWindow) : ∃ behind, entityText (es ++ after) = es ++ behind := by
  unfold entityText
  have hle : byteLength es ≤ min (byteLength (es ++ after)) entityWindow := by
    rw [byteLength_append]
    omega
  rw [splitAt?_append_of_le after hle]
  cases splitAt? (min (byteLength (es ++ after)) entityWindow - byteLength es) after with
  | none => exact ⟨after, rfl⟩
  | some parts => exact ⟨parts.1, rfl⟩

/-- Characters of one byte that stand at the beginning of the window fit into it. -/
theorem length_le_entityWindow {es cs behind : List Char} (hsize : ∀ c ∈ es, c.utf8Size = 1)
    (h : entityText cs = es ++ behind) : es.length ≤ entityWindow := by
  unfold entityText at h
  split at h
  · rename_i window rest hsplit
    have hbytes := congrArg byteLength h
    rw [(eq_append_of_splitAt? hsplit).2, byteLength_append, byteLength_eq_length hsize] at hbytes
    omega
  · -- there is no window only if it would end inside a character
    rename_i hsplit
    refine Nat.le_of_not_lt fun hlt => ?_
    have htake : byteLength (es.take entityWindow) = entityWindow := by
      rw [byteLength_eq_length fun c hc => hsize c (List.mem_of_mem_take hc), List.length_take]
      omega
    have hcut : cs = es.take entityWindow ++ (es.drop entityWindow ++ behind) := by
      rw [← List.append_assoc, List.take_append_drop, h]
    have hmin : min (byteLength cs) entityWindow = byteLength (es.take entityWindow) := by
      rw [htake, hcut, byteLength_append, htake]
      omega
    rw [hmin, hcut, splitAt?_append] at hsplit
    cases hsplit

/-! ### Entities -/

/-- The entities for a colon, in lower case. -/
inductive SpellsColon : List Char → Prop where
  /-- By name. -/
  | named : SpellsColon ['&', 'c', 'o', 'l', 'o', 'n']
  /-- By its decimal number. -/
  | decimal (zeros : Nat) :
      SpellsColon ('&' :: '#' :: (List.replicate zeros '0' ++ ['5', '8']))
  /-- By its hexadecimal number. -/
  | hexadecimal (zeros : Nat) :
      SpellsColon ('&' :: '#' :: 'x' :: (List.replicate zeros '0' ++ ['3', 'a']))

/-- Whether a text is an entity for a colon, in whatever case it is written. -/
def IsEncodedColon (cs : List Char) : Prop := SpellsColon (cs.map Char.toLower)

theorem utf8Size_eq_one_of_toLower {c : Char} (h : c.toLower.utf8Size = 1) : c.utf8Size = 1 := by
  rw [Char.utf8Size_eq_one_iff] at h ⊢
  unfold Char.toLower at h
  split at h
  · rename_i hupper
    exact UInt32.le_trans hupper.2 (by decide)
  · exact h

/-- Only small letters come from other characters. -/
theorem eq_of_toLower_eq {c d : Char} (hd : ¬(97 ≤ d.toNat ∧ d.toNat ≤ 122))
    (h : c.toLower = d) : c = d := by
  unfold Char.toLower at h
  split at h
  · -- a capital letter would become a small one
    rename_i hupper
    have hlower : 65 ≤ c.toNat := UInt32.le_iff_toNat_le.mp hupper.1
    have hhigher : c.toNat ≤ 90 := UInt32.le_iff_toNat_le.mp hupper.2
    have hval : d.toNat = c.toNat + 32 := by
      rw [← h, ← Char.toNat_val, UInt32.toNat_add, Char.toNat_val]
      exact Nat.mod_eq_of_lt (show c.toNat + 32 < 2 ^ 32 by omega)
    omega
  · exact h

theorem SpellsColon.utf8Size_eq_one {cs : List Char} (h : SpellsColon cs) :
    ∀ c ∈ cs, c.utf8Size = 1 := by
  have hdigits : ∀ (zeros : Nat) (c : Char), c ∈ List.replicate zeros '0' → c.utf8Size = 1 := by
    intro zeros c hc
    rw [List.eq_of_mem_replicate hc]
    rfl
  cases h with
  | named =>
    simp only [List.forall_mem_cons]
    exact ⟨rfl, rfl, rfl, rfl, rfl, rfl, nofun⟩
  | decimal zeros =>
    simp only [List.forall_mem_cons, List.forall_mem_append]
    exact ⟨rfl, rfl, hdigits zeros, rfl, rfl, nofun⟩
  | hexadecimal zeros =>
    simp only [List.forall_mem_cons, List.forall_mem_append]
    exact ⟨rfl, rfl, rfl, hdigits zeros, rfl, rfl, nofun⟩

/-- An entity has as many bytes as characters. -/
theorem IsEncodedColon.utf8Size_eq_one {cs : List Char} (h : IsEncodedColon cs) :
    ∀ c ∈ cs, c.utf8Size = 1 := by
  intro c hc
  exact utf8Size_eq_one_of_toLower
    (SpellsColon.utf8Size_eq_one h c.toLower (List.mem_map_of_mem hc))

theorem IsEncodedColon.exists_cons {cs : List Char} (h : IsEncodedColon cs) :
    ∃ tail, cs = '&' :: tail := by
  obtain ⟨tail, hlower⟩ : ∃ tail, cs.map Char.toLower = '&' :: tail := by
    unfold IsEncodedColon at h
    generalize cs.map Char.toLower = ds at h
    cases h with
    | named => exact ⟨_, rfl⟩
    | decimal => exact ⟨_, rfl⟩
    | hexadecimal => exact ⟨_, rfl⟩
  obtain ⟨c, tail', rfl, hc, -⟩ := List.map_eq_cons_iff.mp hlower
  exact ⟨tail', by rw [eq_of_toLower_eq (by decide) hc]⟩

/-! ### Looking for an entity -/

theorem after?_eq_some_iff {bs cs rest : List Char} :
    after? bs cs = some rest ↔ cs = bs ++ rest := by
  induction bs generalizing cs with
  | nil => simp [after?]
  | cons b bs ih =>
    cases cs with
    | nil => simp [after?]
    | cons c cs =>
      rw [after?]
      split
      · rename_i hbc
        rw [ih, hbc, List.cons_append, List.cons_inj_right]
      · rename_i hbc
        simp [Ne.symm hbc]

theorem isSome_after?_iff {bs cs : List Char} :
    (after? bs cs).isSome = true ↔ ∃ rest, cs = bs ++ rest := by
  rw [Option.isSome_iff_exists]
  exact exists_congr fun _ => after?_eq_some_iff

/-- A number that follows some zeros is the first thing that is left without them. -/
theorem isSome_after?_dropWhile_iff {d e : Char} (hd : d ≠ '0') {digits : List Char} :
    (after? [d, e] (digits.dropWhile (· == '0'))).isSome = true ↔
      ∃ zeros rest, digits = List.replicate zeros '0' ++ [d, e] ++ rest := by
  have hd' : (d == '0') = false := by simpa using hd
  rw [isSome_after?_iff]
  induction digits with
  | nil => simp
  | cons c cs ih =>
    -- zeros are dropped one by one, and the number itself does not start with one
    by_cases hc : c = '0'
    · subst hc
      rw [List.dropWhile_cons_of_pos (by rfl)]
      refine ih.trans ⟨?_, ?_⟩
      · rintro ⟨zeros, rest, rfl⟩
        exact ⟨zeros + 1, rest, rfl⟩
      · rintro ⟨zeros, rest, heq⟩
        cases zeros with
        | zero => exact absurd (List.cons.inj heq).1.symm hd
        | succ zeros => exact ⟨zeros, rest, (List.cons.inj heq).2⟩
    · rw [List.dropWhile_cons_of_neg (by simpa using hc)]
      constructor
      · rintro ⟨rest, heq⟩
        exact ⟨0, rest, heq⟩
      · rintro ⟨zeros, rest, heq⟩
        cases zeros with
        | zero => exact ⟨rest, heq⟩
        | succ zeros => exact absurd (List.cons.inj heq).1 hc

/-- The search finds the entities at the beginning of the window, in lower case. -/
theorem startsEncodedColon_iff_spellsColon (cs : List Char) : startsEncodedColon cs = true ↔
    ∃ es rest, SpellsColon es ∧ (entityText cs).map Char.toLower = es ++ rest := by
  unfold startsEncodedColon
  generalize (entityText cs).map Char.toLower = text
  simp only [Bool.or_eq_true]
  constructor
  · rintro (hnamed | hnumber)
    · obtain ⟨rest, rfl⟩ := isSome_after?_iff.mp hnamed
      exact ⟨_, rest, .named, rfl⟩
    · split at hnumber
      · cases hnumber
      · rename_i digits hafter
        obtain rfl := after?_eq_some_iff.mp hafter
        obtain ⟨zeros, rest, rfl⟩ := (isSome_after?_dropWhile_iff (by decide)).mp hnumber
        exact ⟨_, rest, .hexadecimal zeros, rfl⟩
      · rename_i digits _ hafter
        obtain rfl := after?_eq_some_iff.mp hafter
        obtain ⟨zeros, rest, rfl⟩ := (isSome_after?_dropWhile_iff (by decide)).mp hnumber
        exact ⟨_, rest, .decimal zeros, rfl⟩
  · rintro ⟨es, rest, hes, rfl⟩
    cases hes with
    | named => exact .inl (isSome_after?_iff.mpr ⟨rest, rfl⟩)
    | decimal zeros =>
      right
      have hfound := (isSome_after?_dropWhile_iff (e := '8') (show '5' ≠ '0' by decide)).mpr
        ⟨zeros, rest, rfl⟩
      -- the number does not start with an `x`, with or without zeros in front
      cases zeros with
      | zero => exact hfound
      | succ zeros => exact hfound
    | hexadecimal zeros =>
      right
      exact (isSome_after?_dropWhile_iff (by decide)).mpr ⟨zeros, rest, rfl⟩

/-- **Which entities are seen.**  At the beginning of a text exactly those entities for a
colon are found that are not longer than the window. -/
theorem startsEncodedColon_iff (cs : List Char) : startsEncodedColon cs = true ↔
    ∃ entity after, cs = entity ++ after ∧ IsEncodedColon entity ∧
      entity.length ≤ entityWindow := by
  rw [startsEncodedColon_iff_spellsColon]
  constructor
  · rintro ⟨es, rest, hes, hlower⟩
    obtain ⟨entity, behind, hwindow, rfl, -⟩ := List.map_eq_append_iff.mp hlower
    obtain ⟨rest', hcs⟩ := exists_append_entityText cs
    refine ⟨entity, behind ++ rest', ?_, hes, ?_⟩
    · rw [hcs, hwindow, List.append_assoc]
    · exact length_le_entityWindow (IsEncodedColon.utf8Size_eq_one hes) hwindow
  · rintro ⟨entity, after, rfl, hentity, hlength⟩
    rw [← byteLength_eq_length hentity.utf8Size_eq_one] at hlength
    obtain ⟨behind, hwindow⟩ := exists_entityText_append after hlength
    exact ⟨entity.map Char.toLower, behind.map Char.toLower, hentity, by
      rw [hwindow, List.map_append]⟩

/-! ### The part for the scheme -/

/-- The text of a URL without what is skipped in front of it. -/
def trimmed (url : String) : List Char := url.toList.dropWhile isLeading

/-- The part of a URL in which a colon ends a scheme. -/
def schemePart (url : String) : List Char := (trimmed url).takeWhile (!isStop ·)

/-- Whether an entity for a colon starts in the part for the scheme.  It may end behind
it, since a number is introduced by one of the characters that end the part. -/
def Disguises (url : String) (entity : List Char) : Prop :=
  IsEncodedColon entity ∧ ∃ before after, trimmed url = before ++ (entity ++ after) ∧
    before.length < (schemePart url).length

/-- Neither a colon nor an entity is found exactly if there is none that starts before the
first stop. -/
theorem ending_eq_absent_iff (cs : List Char) : ending cs = .absent ↔
    ':' ∉ cs.takeWhile (!isStop ·) ∧ ∀ before rest, cs = before ++ rest →
      before.length < (cs.takeWhile (!isStop ·)).length → startsEncodedColon rest = false := by
  -- on the text, in the order of the search: a colon, an entity, a stop, or none of them
  induction cs with
  | nil => simp [ending]
  | cons c cs ih =>
    rw [ending]
    split
    · rename_i hcolon
      subst hcolon
      have hstop : isStop ':' = false := by decide
      simp [hstop]
    · rename_i hcolon
      split
      · -- the entity that starts here is found
        rename_i hentity
        obtain ⟨rfl, hstarts⟩ := hentity
        have hstop : isStop '&' = false := by decide
        refine ⟨nofun, fun h => ?_⟩
        have hmissed := h.2 [] ('&' :: cs) rfl (by simp [hstop])
        rw [hstarts] at hmissed
        cases hmissed
      · rename_i hentity
        split
        · rename_i hstop
          simp [hstop]
        · -- the search goes on behind a character that is nothing special
          rename_i hstop
          have hhere : startsEncodedColon (c :: cs) = false := by
            rw [Bool.eq_false_iff]
            intro hstarts
            obtain ⟨entity, after, heq, hcolon, -⟩ := (startsEncodedColon_iff _).mp hstarts
            obtain ⟨tail, rfl⟩ := hcolon.exists_cons
            exact hentity ⟨(List.cons.inj heq).1, hstarts⟩
          have htake : (c :: cs).takeWhile (!isStop ·) = c :: cs.takeWhile (!isStop ·) :=
            List.takeWhile_cons_of_pos (by simpa using hstop)
          rw [ih, htake, List.mem_cons, not_or]
          constructor
          · rintro ⟨hnone, hseen⟩
            refine ⟨⟨Ne.symm hcolon, hnone⟩, ?_⟩
            intro before rest heq hlength
            cases before with
            | nil => exact (show c :: cs = rest from heq) ▸ hhere
            | cons b before =>
              exact hseen before rest (List.cons.inj heq).2 (by simpa using hlength)
          · rintro ⟨⟨-, hnone⟩, hseen⟩
            refine ⟨hnone, fun before rest heq hlength => ?_⟩
            exact hseen (c :: before) rest (by rw [heq, List.cons_append]) (by simpa using hlength)

/-- A scheme begins with a letter, so none has the name that stands for relative URLs. -/
theorem schemeName?_ne_relative (cs : List Char) : schemeName? cs ≠ some relative := by
  intro heq
  cases cs with
  | nil => cases heq
  | cons c cs =>
    rw [schemeName?] at heq
    split at heq
    · rename_i hname
      rw [Bool.and_eq_true] at hname
      have hlower : c.toLower = '_' :=
        (List.cons.inj (String.ofList_injective (Option.some.inj heq))).1
      rw [eq_of_toLower_eq (by decide) hlower] at hname
      exact absurd hname.1 (by decide)
    · cases heq

/-! ### Relative URLs -/

/-- **Which URLs count as relative**: those that have no colon in the part for the scheme,
and of which every entity for a colon that starts there is longer than the window. -/
theorem scheme?_eq_relative_iff (url : String) : scheme? url = some relative ↔
    ':' ∉ schemePart url ∧ ∀ entity, Disguises url entity → entityWindow < entity.length := by
  have hending : scheme? url = some relative ↔ ending (trimmed url) = .absent := by
    simp only [scheme?]
    rw [← trimmed]
    -- only where nothing is found the URL counts as relative, as no scheme has that name
    cases hend : ending (trimmed url) with
    | colon => simpa using schemeName?_ne_relative _
    | disguised => simp
    | absent => simp
  rw [hending, ending_eq_absent_iff, ← schemePart]
  refine and_congr_right fun _ => ⟨?_, ?_⟩
  · rintro hseen entity ⟨hentity, before, after, htext, hlength⟩
    have hmissed := hseen before (entity ++ after) htext hlength
    refine Nat.lt_of_not_le fun hle => ?_
    rw [(startsEncodedColon_iff _).mpr ⟨entity, after, rfl, hentity, hle⟩] at hmissed
    cases hmissed
  · intro hlong before rest htext hlength
    rw [Bool.eq_false_iff]
    intro hstarts
    obtain ⟨entity, after, rfl, hentity, hle⟩ := (startsEncodedColon_iff rest).mp hstarts
    exact absurd (hlong entity ⟨hentity, before, after, htext, hlength⟩) (Nat.not_lt.mpr hle)

/-- A colon with so many zeros in front of its number is overlooked: the URL counts as
relative, although an entity for a colon starts in the part for its scheme. -/
theorem scheme?_overlooks_padded_colon :
    scheme? "javascript&#0000000000000000000000000000058;alert(1)" = some relative ∧
      ∃ entity, Disguises "javascript&#0000000000000000000000000000058;alert(1)" entity := by
  refine ⟨by decide +kernel, "&#0000000000000000000000000000058".toList, .decimal 29, ?_⟩
  exact ⟨"javascript".toList, ";alert(1)".toList, by decide +kernel, by decide +kernel⟩

end Url

end MathMarkup
