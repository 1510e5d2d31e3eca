import MathMarkup.Token.Lexer

/-!
# Tokens with macros replaced

Tokens reach the parser through a feed.  A token whose text is the name of a
macro is replaced by the tokens of the macro's replacement, which are read next
and may be macros themselves; the end marker is no exception.  The number of
replacements is limited.

## Main definitions

* `Feed` — what is left to read.
* `Feed.take` — the next token as it stands.
* `Feed.expand` — put a replacement in front of what is left.
* `Feed.pull` — the next token that is no macro.
* `Feed.potential` — a bound on the tokens that are still to come.

## Main results

* `Feed.potential_pull_le`, `Feed.potential_pull_lt` — the bound never grows, and
  every token but the end marker uses some of it up.
-/

namespace MathMarkup

/-- What is left to read of a document, with what macros put in front of it. -/
structure Feed where
  /-- The rest of the document. -/
  lexer : Lexer
  /-- Tokens of replacements that are read first. -/
  pending : List Token := []
  /-- How many macros were replaced. -/
  expansions : Nat := 0
  /-- What was reported so far, the newest first. -/
  log : Log := []

namespace Feed

/-- The feed of a document. -/
def ofDocument (document : Document) : Feed := { lexer := .ofDocument document }

/-- Adds to what was reported. -/
def report (f : Feed) (log : Log) : Feed := { f with log := log ++ f.log }

@[simp] theorem lexer_report (f : Feed) (log : Log) : (f.report log).lexer = f.lexer := rfl

@[simp] theorem pending_report (f : Feed) (log : Log) : (f.report log).pending = f.pending := rfl

@[simp] theorem expansions_report (f : Feed) (log : Log) :
    (f.report log).expansions = f.expansions := rfl

/-- The next token as it stands. -/
def take (o : Options) (f : Feed) : Except CompileError Token × Feed :=
  match f.pending with
  | t :: rest => (.ok t, { f with pending := rest })
  | [] =>
      let (result, lexer, log) := f.lexer.next o
      (result, { f with lexer := lexer }.report log)

@[simp] theorem expansions_take (o : Options) (f : Feed) :
    (f.take o).2.expansions = f.expansions := by
  unfold take
  split <;> rfl

/-- The tokens of a replacement.  Their text is a document of its own. -/
def replacementTokens (o : Options) (replacement : String) :
    Except CompileError (List Token) × Log :=
  (Lexer.ofDocument ⟨replacement, 1⟩).readAll o

/-- Replaces a macro: counts it, and puts the tokens of its replacement in front
of what is left.  Fails where the limit is passed. -/
def expand (o : Options) (t : Token) (replacement : String) (f : Feed) :
    Except CompileError Unit × Feed :=
  let counted := { f with expansions := f.expansions + 1 }
  if f.expansions < o.maxExpand then
    match replacementTokens o replacement with
    | (.ok tokens, log) =>
        (.ok (), { counted with pending := tokens ++ f.pending }.report
          (log ++ [Event.expanding t.text]))
    | (.error e, log) => (.error e, counted.report (log ++ [Event.expanding t.text]))
  else (.error (.located .tooManyExpansions t.span), counted)

/-- A macro is replaced within the limit only. -/
theorem expand_eq_ok {o : Options} {t : Token} {replacement : String} {f f' : Feed} {u : Unit}
    (h : f.expand o t replacement = (.ok u, f')) :
    f.expansions < o.maxExpand ∧ ∃ tokens log,
      replacementTokens o replacement = (.ok tokens, log) ∧
      f' = { f with pending := tokens ++ f.pending, expansions := f.expansions + 1 }.report
        (log ++ [Event.expanding t.text]) := by
  unfold expand at h
  split at h
  · rename_i hlt
    split at h
    · rename_i tokens log htokens
      cases h
      exact ⟨hlt, tokens, log, htokens, rfl⟩
    · cases h
  · cases h

/-- The next token that is no macro. -/
def pull (o : Options) (f : Feed) : Except CompileError Token × Feed :=
  match _ht : f.take o with
  | (.error e, f') => (.error e, f')
  | (.ok t, f') =>
      match o.macros.lookup t.text with
      | none => (.ok t, f')
      | some replacement =>
          match _he : f'.expand o t replacement with
          | (.error e, f'') => (.error e, f'')
          | (.ok _, f'') => pull o f''
termination_by o.maxExpand - f.expansions
decreasing_by
  have htake : f'.expansions = f.expansions := by rw [← expansions_take o f, _ht]
  obtain ⟨hlt, tokens, log, -, rfl⟩ := expand_eq_ok _he
  simp only [expansions_report]
  omega

/-! ### A bound on what is still to come -/

/-- How many tokens are read at most before another macro is replaced. -/
def size (f : Feed) : Nat := f.pending.length + f.lexer.rest.length

/-- How many tokens a replacement has. -/
def replacementLength (o : Options) (replacement : String) : Nat :=
  match replacementTokens o replacement with
  | (.ok tokens, _) => tokens.length
  | (.error _, _) => 0

/-- The number of tokens in the longest replacement. -/
def longestReplacement (o : Options) : Nat :=
  (o.macros.map fun entry => replacementLength o entry.2).foldr max 0

/-- How many tokens are still to come at most, the end marker aside. -/
def potential (o : Options) (f : Feed) : Nat :=
  (o.maxExpand - f.expansions) * longestReplacement o + f.size

theorem le_foldr_max {n : Nat} {ns : List Nat} (h : n ∈ ns) : n ≤ ns.foldr max 0 := by
  induction ns with
  | nil => cases h
  | cons m ns ih =>
    simp only [List.foldr_cons]
    cases h with
    | head => exact Nat.le_max_left _ _
    | tail _ h => exact Nat.le_trans (ih h) (Nat.le_max_right _ _)

theorem mem_of_lookup_eq_some {table : MacroTable} {name replacement : String}
    (h : table.lookup name = some replacement) : (name, replacement) ∈ table := by
  induction table with
  | nil => cases h
  | cons entry rest ih =>
    obtain ⟨key, value⟩ := entry
    rw [List.lookup_cons] at h
    split at h
    · rename_i hkey
      cases h
      rw [eq_of_beq hkey]
      exact List.mem_cons_self
    · exact List.mem_cons_of_mem _ (ih h)

theorem length_le_longestReplacement {o : Options} {name replacement : String}
    {tokens : List Token} {log : Log} (h : o.macros.lookup name = some replacement)
    (ht : replacementTokens o replacement = (.ok tokens, log)) :
    tokens.length ≤ longestReplacement o := by
  apply le_foldr_max
  refine List.mem_map.mpr ⟨(name, replacement), mem_of_lookup_eq_some h, ?_⟩
  simp only [replacementLength, ht]

theorem size_take_le (o : Options) (f : Feed) : (f.take o).2.size ≤ f.size := by
  unfold take
  split
  · rename_i t rest hp
    simp only [size, hp, List.length_cons]
    omega
  · rename_i hp
    have hle := Lexer.length_rest_next_le o f.lexer
    rcases hn : f.lexer.next o with ⟨result, lexer, log⟩
    rw [hn] at hle
    simpa [size, hp] using hle

theorem size_take_lt {o : Options} {f f' : Feed} {t : Token} (h : f.take o = (.ok t, f'))
    (ht : t.isEnd = false) : f'.size < f.size := by
  unfold take at h
  split at h
  · rename_i t' rest hp
    cases h
    simp only [size, hp, List.length_cons]
    omega
  · rename_i hp
    rcases hn : f.lexer.next o with ⟨result, lexer, log⟩
    rw [hn] at h
    cases h
    simpa [size, hp] using Lexer.next_shorter hn ht

theorem potential_take_le (o : Options) (f : Feed) :
    (f.take o).2.potential o ≤ f.potential o := by
  have := size_take_le o f
  simp only [potential, expansions_take]
  omega

theorem potential_take_lt {o : Options} {f f' : Feed} {t : Token} (h : f.take o = (.ok t, f'))
    (ht : t.isEnd = false) : f'.potential o < f.potential o := by
  have hsize := size_take_lt h ht
  have hexp : f'.expansions = f.expansions := by rw [← expansions_take o f, h]
  simp only [potential, hexp]
  omega

theorem potential_expand_le {o : Options} {f f' : Feed} {t : Token} {replacement : String}
    {u : Unit} (hm : o.macros.lookup t.text = some replacement)
    (h : f.expand o t replacement = (.ok u, f')) : f'.potential o ≤ f.potential o := by
  obtain ⟨hlt, tokens, log, htokens, rfl⟩ := expand_eq_ok h
  have hlen := length_le_longestReplacement hm htokens
  -- one replacement less in the budget pays for the tokens that were added
  have hbudget : (o.maxExpand - f.expansions) * longestReplacement o =
      (o.maxExpand - (f.expansions + 1)) * longestReplacement o + longestReplacement o := by
    rw [show o.maxExpand - f.expansions = (o.maxExpand - (f.expansions + 1)) + 1 by omega,
      Nat.add_mul, Nat.one_mul]
  simp only [potential, size, expansions_report, pending_report, lexer_report, List.length_append]
  omega

/-- The bound on what is still to come never grows. -/
theorem potential_pull_le {o : Options} {f f' : Feed} {t : Token}
    (h : f.pull o = (.ok t, f')) : f'.potential o ≤ f.potential o := by
  fun_induction pull o f with
  | case1 f e f₁ ht => cases h
  | case2 f t₁ f₁ ht hm =>
    cases h
    rw [show f' = (f.take o).2 by rw [ht]]
    exact potential_take_le o f
  | case3 f t₁ f₁ ht replacement hm e f₂ he => cases h
  | case4 f t₁ f₁ ht replacement hm u f₂ he ih =>
    have htake : f₁.potential o ≤ f.potential o := by
      rw [show f₁ = (f.take o).2 by rw [ht]]
      exact potential_take_le o f
    exact Nat.le_trans (ih h) (Nat.le_trans (potential_expand_le hm he) htake)

/-- Every token but the end marker uses up some of the bound. -/
theorem potential_pull_lt {o : Options} {f f' : Feed} {t : Token}
    (h : f.pull o = (.ok t, f')) (hend : t.isEnd = false) : f'.potential o < f.potential o := by
  fun_induction pull o f with
  | case1 f e f₁ ht => cases h
  | case2 f t₁ f₁ ht hm =>
    cases h
    exact potential_take_lt ht hend
  | case3 f t₁ f₁ ht replacement hm e f₂ he => cases h
  | case4 f t₁ f₁ ht replacement hm u f₂ he ih =>
    have htake : f₁.potential o ≤ f.potential o := by
      rw [show f₁ = (f.take o).2 by rw [ht]]
      exact potential_take_le o f
    exact Nat.lt_of_lt_of_le (ih h) (Nat.le_trans (potential_expand_le hm he) htake)

end Feed

end MathMarkup
