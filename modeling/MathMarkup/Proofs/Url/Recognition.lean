import MathMarkup.Proofs.Url.Disguise

/-!
# Which schemes are recognised

The scheme of a URL is found by a search.  It skips blanks and control characters, and ends at
a colon, at a colon in disguise, or at a character after which no scheme can follow; only then
the text in front of the colon is looked at.  What comes of it is said here without a search: a
URL has a scheme exactly if it is some blanks and control characters, the name of the scheme, a
colon, and anything else.  No scheme is missed, and none is made up.

## Main definitions

* `Url.IsLetter`, `Url.IsSchemeText` — how names of schemes are written.

## Main results

* `Url.schemeName?_eq_some_iff` — which texts are names, and in which form they are given.
* `Url.ending_append_colon`, `Url.exists_of_ending_eq_colon` — when the search ends at a colon.
* `Url.scheme?_eq_some_iff` — **schemes are recognised exactly.**
-/

namespace MathMarkup.Url

/-! ### Names of schemes -/

/-- The letters from `a` to `z`, small or capital. -/
def IsLetter (c : Char) : Prop := 'a' ≤ c ∧ c ≤ 'z' ∨ 'A' ≤ c ∧ c ≤ 'Z'

/-- The names of schemes: a letter, and then letters, digits, and the signs `+`, `.` and `-`. -/
def IsSchemeText : List Char → Prop
  | [] => False
  | c :: cs => IsLetter c ∧ ∀ d ∈ cs, IsLetter d ∨ '0' ≤ d ∧ d ≤ '9' ∨ d ∈ ['+', '.', '-']

instance (c : Char) : Decidable (IsLetter c) := inferInstanceAs (Decidable (_ ∨ _))

instance : DecidablePred IsSchemeText
  | [] => inferInstanceAs (Decidable False)
  | c :: cs => @instDecidableAnd (IsLetter c) _ inferInstance (List.decidableBAll _ cs)

example : IsSchemeText "Web+x.1".toList ∧ ¬ IsSchemeText "ht tp".toList := by decide

theorem isAlpha_iff {c : Char} : c.isAlpha = true ↔ IsLetter c := by
  have hcapital : c.isUpper = true ↔ 'A' ≤ c ∧ c ≤ 'Z' := decide_eq_true_iff
  have hsmall : c.isLower = true ↔ 'a' ≤ c ∧ c ≤ 'z' :=
    Bool.and_eq_true_iff.trans (and_congr decide_eq_true_iff decide_eq_true_iff)
  exact Bool.or_eq_true_iff.trans ((or_congr hcapital hsmall).trans or_comm)

theorem isSchemeChar_iff {c : Char} :
    isSchemeChar c = true ↔ IsLetter c ∨ '0' ≤ c ∧ c ≤ '9' ∨ c ∈ ['+', '.', '-'] := by
  have hdigit : c.isDigit = true ↔ '0' ≤ c ∧ c ≤ '9' := by
    simp only [Char.isDigit, decide_eq_true_eq, Bool.and_eq_true, ge_iff_le]
    exact Iff.rfl
  simp only [isSchemeChar, Char.isAlphanum, Bool.or_eq_true, isAlpha_iff, hdigit, beq_iff_eq,
    List.mem_cons, List.not_mem_nil, or_false]
  rw [or_assoc, or_assoc, or_assoc]
  exact or_congr_right (or_congr_right (or_congr_right or_comm))

/-- The characters of a scheme, its first letter included. -/
theorem IsSchemeText.isSchemeChar {cs : List Char} (h : IsSchemeText cs) :
    ∀ c ∈ cs, isSchemeChar c = true := by
  cases cs with
  | nil => exact h.elim
  | cons c cs =>
    rw [List.forall_mem_cons]
    exact ⟨isSchemeChar_iff.mpr (.inl h.1), fun d hd => isSchemeChar_iff.mpr (h.2 d hd)⟩

/-- A text is the name of a scheme if it is written like one, and the name is given in lower
case. -/
theorem schemeName?_eq_some_iff {cs : List Char} {p : String} :
    schemeName? cs = some p ↔ IsSchemeText cs ∧ (String.ofList cs).toLower = p := by
  have hlower : (String.ofList cs).toLower = String.ofList (cs.map Char.toLower) := by
    apply String.toList_injective
    change (String.map Char.toLower (String.ofList cs)).toList = _
    rw [String.toList_map, String.toList_ofList, String.toList_ofList]
  cases cs with
  | nil =>
    constructor
    · intro h
      cases h
    · intro h
      exact h.1.elim
  | cons c cs =>
    -- the check of the first letter and of the others is the rule for names
    have htext : (c.isAlpha && cs.all Url.isSchemeChar) = true ↔ IsSchemeText (c :: cs) := by
      rw [Bool.and_eq_true, List.all_eq_true, isAlpha_iff]
      exact and_congr_right fun _ => forall₂_congr fun _ _ => isSchemeChar_iff
    rw [schemeName?, hlower]
    split
    · rename_i hname
      simp [htext.mp hname]
    · rename_i hname
      constructor
      · intro h
        cases h
      · intro h
        exact absurd (htext.mpr h.1) hname

/-! ### The search for the colon -/

/-- Nothing at which the search ends is a character of a scheme, and neither is anything that is
skipped in front. -/
theorem ne_of_isSchemeChar {c : Char} (h : isSchemeChar c = true) :
    c ≠ ':' ∧ c ≠ '&' ∧ isStop c = false ∧ isLeading c = false := by
  have hne : ∀ {d : Char}, isSchemeChar d = false → c ≠ d := by
    rintro d hd rfl
    rw [h] at hd
    cases hd
  refine ⟨hne (by decide), hne (by decide), ?_, ?_⟩
  · simp [isStop, hne (show isSchemeChar '\\' = false by decide),
      hne (show isSchemeChar '/' = false by decide), hne (show isSchemeChar '#' = false by decide),
      hne (show isSchemeChar '?' = false by decide)]
  · -- all of them come behind the blank
    have hbehind : 0x20 < c.val.toNat := by
      simp only [isSchemeChar_iff, IsLetter, Char.le_def, UInt32.le_iff_toNat_le, Char.reduceVal,
        UInt32.reduceToNat, List.mem_cons, List.not_mem_nil, or_false] at h
      rcases h with (hsmall | hcapital) | hdigit | rfl | rfl | rfl
      · omega
      · omega
      · omega
      · decide
      · decide
      · decide
    rw [isLeading, decide_eq_false_iff_not, UInt32.le_iff_toNat_le]
    exact Nat.not_le.mpr hbehind

/-- The search goes past characters of a scheme to the colon behind them. -/
theorem ending_append_colon {name : List Char} (h : ∀ c ∈ name, isSchemeChar c = true)
    (rest : List Char) : ending (name ++ ':' :: rest) = .colon := by
  induction name with
  | nil => rw [List.nil_append, ending, if_pos rfl]
  | cons c name ih =>
    rw [List.forall_mem_cons] at h
    obtain ⟨hcolon, hentity, hstop, -⟩ := ne_of_isSchemeChar h.1
    rw [List.cons_append, ending, if_neg hcolon, if_neg fun hboth => hentity hboth.1,
      if_neg (by simp [hstop]), ih h.2]

/-- Where the search ends at a colon, there is one, and the text in front of it has none. -/
theorem exists_of_ending_eq_colon {cs : List Char} (h : ending cs = .colon) :
    ∃ rest, cs = cs.takeWhile (· != ':') ++ ':' :: rest := by
  induction cs with
  | nil => cases h
  | cons c cs ih =>
    by_cases hcolon : c = ':'
    · subst hcolon
      exact ⟨cs, by rw [List.takeWhile_cons_of_neg (by decide), List.nil_append]⟩
    · rw [ending, if_neg hcolon] at h
      split at h
      · cases h
      · split at h
        · cases h
        · obtain ⟨rest, hrest⟩ := ih h
          refine ⟨rest, ?_⟩
          rw [List.takeWhile_cons_of_pos (by simpa using hcolon), List.cons_append, ← hrest]

/-- A URL has a scheme of its own exactly if the search ends at a colon, and the text in front
of the colon is a name. -/
theorem scheme?_eq_some_iff_ending {url p : String} (h : p ≠ relative) :
    scheme? url = some p ↔ ending (trimmed url) = .colon ∧
      schemeName? ((trimmed url).takeWhile (· != ':')) = some p := by
  simp only [scheme?]
  rw [← trimmed]
  cases ending (trimmed url) with
  | colon => simp
  | disguised => simp
  | absent => simp [h.symm]

/-! ### Schemes -/

/-- What is skipped in front of a scheme ends where the scheme begins. -/
theorem trimmed_append {blanks name : String} (hblanks : ∀ c ∈ blanks.toList, c.val ≤ 0x20)
    (hname : IsSchemeText name.toList) (rest : String) :
    trimmed (blanks ++ name ++ ":" ++ rest) = name.toList ++ ':' :: rest.toList := by
  have htext : (blanks ++ name ++ ":" ++ rest).toList =
      blanks.toList ++ (name.toList ++ ':' :: rest.toList) := by
    simp
  have hskipped : ∀ c ∈ blanks.toList, isLeading c = true := by simpa [isLeading] using hblanks
  have hchars := hname.isSchemeChar
  rw [trimmed, htext, List.dropWhile_append_of_pos hskipped]
  -- a name has a first letter, and nothing is skipped from there on
  cases hlist : name.toList with
  | nil =>
    rw [hlist] at hname
    exact hname.elim
  | cons c cs =>
    rw [hlist] at hchars
    have hfirst := (ne_of_isSchemeChar (hchars c List.mem_cons_self)).2.2.2
    rw [List.cons_append, List.dropWhile_cons_of_neg (by simp [hfirst])]

/-- **Schemes are recognised exactly.**  A URL has a scheme if and only if it consists of some
blanks and control characters, the name of the scheme in whatever case, a colon and any rest. -/
theorem scheme?_eq_some_iff (url p : String) (h : p ≠ relative) : scheme? url = some p ↔
    ∃ blanks name rest : String, url = blanks ++ name ++ ":" ++ rest ∧
      (∀ c ∈ blanks.toList, c.val ≤ 0x20) ∧ IsSchemeText name.toList ∧ name.toLower = p := by
  rw [scheme?_eq_some_iff_ending h]
  constructor
  · rintro ⟨hending, hname⟩
    obtain ⟨rest, hrest⟩ := exists_of_ending_eq_colon hending
    obtain ⟨htext, hlower⟩ := schemeName?_eq_some_iff.mp hname
    refine ⟨String.ofList (url.toList.takeWhile isLeading),
      String.ofList ((trimmed url).takeWhile (· != ':')), String.ofList rest, ?_, ?_, ?_, hlower⟩
    · apply String.toList_injective
      have hwhole : url.toList = url.toList.takeWhile isLeading ++ trimmed url :=
        List.takeWhile_append_dropWhile.symm
      rw [hrest] at hwhole
      simpa using hwhole
    · intro c hc
      rw [String.toList_ofList] at hc
      simpa [isLeading] using List.all_eq_true.mp List.all_takeWhile c hc
    · rwa [String.toList_ofList]
  · rintro ⟨blanks, name, rest, rfl, hblanks, hname, rfl⟩
    have hchars := hname.isSchemeChar
    have hfront : (name.toList ++ ':' :: rest.toList).takeWhile (· != ':') = name.toList := by
      have hnone : ∀ c ∈ name.toList, (c != ':') = true :=
        fun c hc => bne_iff_ne.mpr (ne_of_isSchemeChar (hchars c hc)).1
      rw [List.takeWhile_append_of_pos hnone, List.takeWhile_cons_of_neg (by decide),
        List.append_nil]
    rw [trimmed_append hblanks hname, hfront]
    refine ⟨ending_append_colon hchars _, schemeName?_eq_some_iff.mpr ⟨hname, ?_⟩⟩
    rw [String.ofList_toList]

/-- A scheme in mixed case behind a control character and a blank, with a colon in disguise and
another colon behind it; and a URL in which a blank stands in the name. -/
theorem scheme?_eq_some_iff_mixed :
    scheme? "\x07 JavaScript:&colon;a:b" = some "javascript" ∧
      "javascript" ≠ relative ∧ ¬ ∃ blanks name rest : String,
        "java script:x" = blanks ++ name ++ ":" ++ rest ∧
          (∀ c ∈ blanks.toList, c.val ≤ 0x20) ∧ IsSchemeText name.toList ∧
            name.toLower = "javascript" := by
  have hne : "javascript" ≠ relative := by decide
  have hblanks : ∀ c ∈ "\x07 ".toList, c.val ≤ 0x20 := by
    rw [show "\x07 ".toList = ['\x07', ' '] from rfl, List.forall_mem_cons,
      List.forall_mem_singleton]
    decide
  refine ⟨(scheme?_eq_some_iff _ _ hne).mpr ⟨"\x07 ", "JavaScript", "&colon;a:b", ?_⟩, hne, ?_⟩
  · exact ⟨by decide +kernel, hblanks, by decide, by decide +kernel⟩
  · rw [← scheme?_eq_some_iff _ _ hne]
    decide +kernel

end MathMarkup.Url
