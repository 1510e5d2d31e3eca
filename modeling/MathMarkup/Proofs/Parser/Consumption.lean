import MathMarkup.Proofs.Parser.Supply

/-!
# How many tokens a text takes

A run is a sequence of steps.  At each step the parser looks at a token and feeds it to the
stack, and the stack uses it up or leaves it.  Runs come to an end whatever the macros are,
also if they call themselves or open braces that they do not close: a token that is used up
is paid for with a character of the text or with a token of a replacement, and the number of
replacements is limited.

## Main definitions

* `Parser.Runs` — a run, step by step, with the tokens that it uses up.
* `Parser.ReadsDocument`, `Environment.Consumes` — a document and a text are read, with the
  tokens that they use up.

## Main results

* `Parser.exists_runs`, `Parser.Runs.unique` — a stack has one run on a parser, which is what
  `Parser.run` comes to.
* `Parser.Runs.length_le` — a run uses up no more tokens than there are to come.
* `Environment.parse_consumes_at_most` — **every text is read, and takes a bounded number of
  tokens.**
-/

namespace MathMarkup

/-! ### Bytes and characters -/

namespace Text

theorem length_le_byteLength (cs : List Char) : cs.length ≤ byteLength cs := by
  induction cs with
  | nil => exact Nat.le_refl 0
  | cons c cs ih =>
    have hpos := c.utf8Size_pos
    rw [List.length_cons, byteLength_cons]
    omega

theorem utf8ByteSize_ofList (cs : List Char) : (String.ofList cs).utf8ByteSize = byteLength cs := by
  induction cs with
  | nil => rfl
  | cons c cs ih =>
    rw [← List.singleton_append, String.ofList_append, String.utf8ByteSize_append, ih,
      ← String.singleton_eq_ofList, String.utf8ByteSize_singleton]
    rfl

theorem utf8ByteSize_eq (s : String) : s.utf8ByteSize = byteLength s.toList := by
  rw [← utf8ByteSize_ofList, String.ofList_toList]

/-- A text has at least as many bytes as characters. -/
theorem length_toList_le (s : String) : s.toList.length ≤ s.utf8ByteSize := by
  rw [utf8ByteSize_eq]
  exact length_le_byteLength s.toList

end Text

/-! ### Runs, step by step -/

variable {α : Type}

/-- The tokens that a move uses up: the one that was fed, or none. -/
def Move.uses (move : Move α) (t : Token) : List Token := if move.taken then [t] else []

namespace Parser

variable {env : Environment} {s : Stack α} {p : Parser} {used : List Token}
  {result : Except CompileError α × Parser}

/-- A run of a stack on a parser, step by step, with the tokens that it uses up and what it
comes to. -/
inductive Runs (env : Environment) :
    Stack α → Parser → List Token → Except CompileError α × Parser → Prop where
  /-- No token comes into view. -/
  | stuck {s : Stack α} {p p' : Parser} {e : CompileError}
      (hfetch : p.fetch env = (.error e, p')) : Runs env s p [] (.error e, p')
  /-- The stack wants more. -/
  | read {s s' : Stack α} {p p' : Parser} {t : Token} {used : List Token}
      {result : Except CompileError α × Parser} (hfetch : p.fetch env = (.ok t, p'))
      (hread : (s.feed env t).outcome = .read s')
      (hrest : Runs env s' (p'.after (s.feed env t)) used result) :
      Runs env s p ((s.feed env t).uses t ++ used) result
  /-- The stack is complete. -/
  | done {s : Stack α} {p p' : Parser} {t : Token} {a : α} (hfetch : p.fetch env = (.ok t, p'))
      (hdone : (s.feed env t).outcome = .done a) :
      Runs env s p ((s.feed env t).uses t) (.ok a, p'.after (s.feed env t))
  /-- The token is out of place. -/
  | fail {s : Stack α} {p p' : Parser} {t : Token} {e : CompileError}
      (hfetch : p.fetch env = (.ok t, p')) (hfail : (s.feed env t).outcome = .fail e) :
      Runs env s p ((s.feed env t).uses t) (.error e, p'.after (s.feed env t))

/-- Every run comes to an end: the steps are those of the recursion of `run`. -/
theorem exists_runs (env : Environment) (s : Stack α) (p : Parser) :
    ∃ used, Runs env s p used (p.run env s) := by
  fun_induction Parser.run env s p with
  | case1 s p e p' hfetch => exact ⟨[], .stuck hfetch⟩
  | case2 s p t p' hfetch s' hread ih =>
    obtain ⟨used, hused⟩ := ih
    exact ⟨_, .read hfetch hread hused⟩
  | case3 s p t p' hfetch a hdone => exact ⟨_, .done hfetch hdone⟩
  | case4 s p t p' hfetch e hfail => exact ⟨_, .fail hfetch hfail⟩

/-- There is only one run. -/
theorem Runs.unique {used' : List Token} {result' : Except CompileError α × Parser}
    (h : Runs env s p used result) (h' : Runs env s p used' result') :
    used = used' ∧ result = result' := by
  -- the token in view and what the stack makes of it decide which step is next
  induction h generalizing used' result' with
  | stuck hfetch => cases h' <;> simp_all
  | read hfetch hread hrest ih =>
    cases h' with
    | read hfetch' hread' hrest' =>
      rw [hfetch] at hfetch'
      cases hfetch'
      rw [hread] at hread'
      cases hread'
      obtain ⟨rfl, rfl⟩ := ih hrest'
      exact ⟨rfl, rfl⟩
    | stuck hfetch' | done hfetch' _ | fail hfetch' _ => simp_all
  | done hfetch hdone => cases h' <;> simp_all
  | fail hfetch hfail => cases h' <;> simp_all

/-- Each token that is used up was still to come: what is to come gets less by one with each of
them. -/
theorem length_uses_add_potential_le {p' : Parser} {t : Token} (s : Stack α)
    (hfetch : p.fetch env = (.ok t, p')) :
    ((s.feed env t).uses t).length + (p'.after (s.feed env t)).potential env ≤
      p.potential env := by
  unfold Move.uses
  cases htaken : (s.feed env t).taken with
  | true =>
    have hlt := potential_after_of_taken hfetch htaken
    simp only [if_true, List.length_singleton]
    omega
  | false => simpa using potential_after_of_left hfetch htaken

/-- A run uses up no more tokens than are still to come. -/
theorem Runs.length_le (h : Runs env s p used result) : used.length ≤ p.potential env := by
  -- a step that uses up a token leaves less to come, and no other step leaves more
  induction h with
  | stuck hfetch => exact Nat.zero_le _
  | @read s s' p p' t used result hfetch hread hrest ih =>
    have hstep := length_uses_add_potential_le s hfetch
    rw [List.length_append]
    omega
  | @done s p p' t a hfetch hdone =>
    have hstep := length_uses_add_potential_le s hfetch
    omega
  | @fail s p p' t e hfetch hfail =>
    have hstep := length_uses_add_potential_le s hfetch
    omega

/-! ### Documents -/

/-- A document is read: its expression, and then the end marker, which is used up as well. -/
inductive ReadsDocument (env : Environment) (p : Parser) :
    List Token → Except CompileError (List Node) → Prop where
  /-- The expression is wrong. -/
  | failed {p' : Parser} {used : List Token} {e : CompileError}
      (hruns : Runs env p.start p used (.error e, p')) : ReadsDocument env p used (.error e)
  /-- Something else stands behind the expression. -/
  | refused {p' p'' : Parser} {used : List Token} {nodes : List Node} {e : CompileError}
      (hruns : Runs env p.start p used (.ok nodes, p'))
      (hexpect : p'.expect env Token.endText true = (.error e, p'')) :
      ReadsDocument env p used (.error e)
  /-- The end marker stands behind the expression. -/
  | finished {p' p'' : Parser} {used : List Token} {nodes : List Node} {last : Token}
      (hruns : Runs env p.start p used (.ok nodes, p'))
      (hfetch : p'.fetch env = (.ok last, p'')) (hend : last.text = Token.endText) :
      ReadsDocument env p (used ++ [last]) (.ok nodes)

/-- A token is as expected exactly if it has the text in question. -/
theorem expect_eq_ok_iff {p p' : Parser} {text : String} :
    p.expect env text true = (.ok (), p') ↔
      ∃ t q, p.fetch env = (.ok t, q) ∧ t.text = text ∧ q.consume = p' := by
  unfold expect
  constructor
  · intro h
    rcases hfetch : p.fetch env with ⟨e | t, q⟩
    · rw [hfetch] at h
      cases h
    · rw [hfetch] at h
      simp only at h
      split at h
      · rename_i htext
        cases h
        exact ⟨t, q, rfl, htext, rfl⟩
      · cases h
  · rintro ⟨t, q, hfetch, rfl, rfl⟩
    simp only [hfetch, if_true]

/-- Every document is read. -/
theorem exists_readsDocument (env : Environment) (p : Parser) :
    ∃ used, ReadsDocument env p used (p.document env).1 := by
  obtain ⟨used, hruns⟩ := exists_runs env p.start p
  rw [document, expression, ← start]
  rcases hrun : p.run env p.start with ⟨e | nodes, p'⟩
  · rw [hrun] at hruns
    exact ⟨used, .failed hruns⟩
  · rw [hrun] at hruns
    simp only
    rcases hexpect : p'.expect env Token.endText true with ⟨e | u, p''⟩
    · exact ⟨used, .refused hruns hexpect⟩
    · obtain ⟨last, q, hfetch, hend, -⟩ := expect_eq_ok_iff.mp hexpect
      exact ⟨used ++ [last], .finished hruns hfetch hend⟩

namespace ReadsDocument

variable {result : Except CompileError (List Node)}

/-- A document is read in only one way: the tokens that are used up and the result depend on nothing
but the environment and the parser in front of the document. -/
theorem unique {used' : List Token} {result' : Except CompileError (List Node)}
    (h : ReadsDocument env p used result) (h' : ReadsDocument env p used' result') :
    used = used' ∧ result = result' := by
  -- the run is the same in both, and so is what stands behind it
  cases h with
  | failed hruns =>
    cases h' with
    | failed hruns' =>
      obtain ⟨rfl, heq⟩ := hruns.unique hruns'
      cases heq
      exact ⟨rfl, rfl⟩
    | refused hruns' _ | finished hruns' _ _ => cases (hruns.unique hruns').2
  | refused hruns hexpect =>
    cases h' with
    | failed hruns' => cases (hruns.unique hruns').2
    | refused hruns' hexpect' =>
      obtain ⟨rfl, heq⟩ := hruns.unique hruns'
      cases heq
      rw [hexpect] at hexpect'
      cases hexpect'
      exact ⟨rfl, rfl⟩
    | finished hruns' hfetch' hend' =>
      cases (hruns.unique hruns').2
      rw [expect_eq_ok_iff.mpr ⟨_, _, hfetch', hend', rfl⟩] at hexpect
      cases hexpect
  | finished hruns hfetch hend =>
    cases h' with
    | failed hruns' => cases (hruns.unique hruns').2
    | refused hruns' hexpect' =>
      cases (hruns.unique hruns').2
      rw [expect_eq_ok_iff.mpr ⟨_, _, hfetch, hend, rfl⟩] at hexpect'
      cases hexpect'
    | finished hruns' hfetch' hend' =>
      obtain ⟨rfl, heq⟩ := hruns.unique hruns'
      cases heq
      rw [hfetch] at hfetch'
      cases hfetch'
      exact ⟨rfl, rfl⟩

/-- A document uses up no more tokens than are still to come, and the end marker, which is not among
them. -/
theorem length_le (h : ReadsDocument env p used result) : used.length ≤ p.potential env + 1 := by
  cases h with
  | failed hruns => exact Nat.le_succ_of_le hruns.length_le
  | refused hruns hexpect => exact Nat.le_succ_of_le hruns.length_le
  | finished hruns hfetch hend =>
    rw [List.length_append]
    exact Nat.succ_le_succ hruns.length_le

end ReadsDocument

/-- The tokens that are still to come at the start of a text. -/
theorem potential_ofText_le (env : Environment) (source : String) :
    (ofText source).potential env ≤
      source.utf8ByteSize + env.options.maxExpand * Feed.longestReplacement env.options := by
  -- bytes are at least as many as characters, and each token takes one
  have hsize := Text.length_toList_le source
  have hpotential : (ofText source).potential env =
      env.options.maxExpand * Feed.longestReplacement env.options + source.toList.length := by
    simp [potential, ofText, Feed.potential, Feed.size, Feed.ofDocument, Lexer.ofDocument]
  omega

end Parser

namespace Environment

/-- A text is read, with the tokens that it uses up and what it comes to. -/
def Consumes (env : Environment) (source : String) (used : List Token)
    (result : Except CompileError (List Node)) : Prop :=
  ((Parser.ofText source).report [.parsing source.utf8ByteSize]).ReadsDocument env used result

/-- **Every text is read, and takes a bounded number of tokens**: at most one for each of its
bytes, as many as the longest replacement has for each macro that may be replaced, and the end
marker.  It is read in one way only, which is what parsing comes to. -/
theorem parse_consumes_at_most (env : Environment) (source : String) :
    ∃ used, env.Consumes source used (env.parse source).1 ∧
      used.length ≤ source.utf8ByteSize +
        env.options.maxExpand * Feed.longestReplacement env.options + 1 ∧
      ∀ used' result, env.Consumes source used' result →
        used' = used ∧ result = (env.parse source).1 := by
  obtain ⟨used, hreads⟩ :=
    Parser.exists_readsDocument env
      ((Parser.ofText source).report [.parsing source.utf8ByteSize])
  refine ⟨used, hreads, ?_, fun used' result h' => h'.unique hreads⟩
  calc used.length
      ≤ (Parser.ofText source).potential env + 1 := hreads.length_le
    _ ≤ source.utf8ByteSize +
          env.options.maxExpand * Feed.longestReplacement env.options + 1 :=
        Nat.succ_le_succ (Parser.potential_ofText_le env source)

end Environment

end MathMarkup
