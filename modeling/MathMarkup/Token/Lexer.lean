import MathMarkup.Options

/-!
# Reading tokens

Markup falls into lexemes, read from the left:

* a run of blanks, which counts as a single space;
* a comment, from `%` through the end of the line;
* a control word, one or two backslashes followed by letters, together with the
  blanks behind it, which do not count;
* a control symbol, a backslash with any other character;
* any other visible character with the combining marks behind it.

A control character, and a backslash at the very end, belong to no lexeme.

## Main definitions

* `Lexeme`, `Lexeme.read` — the first lexeme of a text.
* `Lexer`, `Lexer.next` — the next token of a document.
* `Lexer.readAll` — all tokens of a document, without their places.

## Main results

* `isBlank_iff`, `isNameChar_iff`, `isCombiningMark_iff` — the characters of each class.
* `Lexeme.read_eq` — a lexeme and what follows it make up the text.
* `Lexer.next_eq` — the next token, by the kind of the first lexeme.
* `Lexer.next_shorter` — a token takes something off the text.
-/

namespace MathMarkup

/-! ### Lexemes -/

/-- The characters that separate tokens. -/
def isBlank (c : Char) : Bool := c == ' ' || c == '\r' || c == '\n' || c == '\t'

/-- The characters of a control word after its backslashes. -/
def isNameChar (c : Char) : Bool := c.isAlpha || c == '@'

/-- The combining marks that belong to the character in front of them. -/
def isCombiningMark (c : Char) : Bool := 0x0300 ≤ c.val && c.val ≤ 0x036F

section

variable {c : Char}

theorem isBlank_iff : isBlank c = true ↔ c = ' ' ∨ c = '\r' ∨ c = '\n' ∨ c = '\t' := by
  simp [isBlank, or_assoc]

/-- A name has no letters but those from `a` to `z`, large or small. -/
theorem isNameChar_iff :
    isNameChar c = true ↔ 'A' ≤ c ∧ c ≤ 'Z' ∨ 'a' ≤ c ∧ c ≤ 'z' ∨ c = '@' := by
  have hupper : c.isUpper = true ↔ 'A' ≤ c ∧ c ≤ 'Z' := decide_eq_true_iff
  have hlower : c.isLower = true ↔ 'a' ≤ c ∧ c ≤ 'z' :=
    Bool.and_eq_true_iff.trans (and_congr decide_eq_true_iff decide_eq_true_iff)
  have halpha : c.isAlpha = (c.isUpper || c.isLower) := rfl
  rw [isNameChar, halpha, Bool.or_eq_true, Bool.or_eq_true, hupper, hlower, beq_iff_eq, or_assoc]

theorem isCombiningMark_iff : isCombiningMark c = true ↔ '\u0300' ≤ c ∧ c ≤ '\u036f' := by
  rw [isCombiningMark, Bool.and_eq_true, decide_eq_true_iff, decide_eq_true_iff]
  exact Iff.rfl

end

/-- What a lexeme is. -/
inductive LexemeKind where
  /-- There is nothing left to read. -/
  | finish
  /-- A run of blanks. -/
  | blank
  /-- A comment, with or without the end of its line. -/
  | comment (closed : Bool)
  /-- A token that is read as it stands. -/
  | plain
  /-- A character that is part of no token. -/
  | stray
  deriving DecidableEq, Repr

/-- The first lexeme of a text. -/
structure Lexeme where
  /-- What the lexeme is. -/
  kind : LexemeKind
  /-- The characters of the lexeme. -/
  taken : List Char
  /-- Blanks behind the lexeme that do not count. -/
  skipped : List Char
  /-- The text that follows. -/
  rest : List Char
  deriving DecidableEq, Repr

namespace Lexeme

/-- The comment at the start of a text. -/
def readComment (cs : List Char) : Lexeme :=
  match cs.dropWhile (· != '\n') with
  | [] => ⟨.comment false, cs, [], []⟩
  | newline :: rest => ⟨.comment true, cs.takeWhile (· != '\n') ++ [newline], [], rest⟩

/-- The control word at the start of a text, if there is one: some backslashes,
then the text behind them. -/
def readWord? (slashes cs : List Char) : Option Lexeme :=
  match cs.takeWhile isNameChar with
  | [] => none
  | name =>
      let behind := cs.dropWhile isNameChar
      some ⟨.plain, slashes ++ name, behind.takeWhile isBlank, behind.dropWhile isBlank⟩

/-- The control symbol at the start of a text, given what follows its
backslash. -/
def readSymbol : List Char → Lexeme
  | [] => ⟨.stray, ['\\'], [], []⟩
  | c :: rest => ⟨.plain, ['\\', c], [], rest⟩

/-- The control sequence at the start of a text, given what follows its
backslash. -/
def readControl (cs : List Char) : Lexeme :=
  let word := match cs with
    | '\\' :: behind => readWord? ['\\', '\\'] behind
    | _ => readWord? ['\\'] cs
  word.getD (readSymbol cs)

/-- The first lexeme of a text. -/
def read : List Char → Lexeme
  | [] => ⟨.finish, [], [], []⟩
  | c :: cs =>
      if isBlank c then
        ⟨.blank, (c :: cs).takeWhile isBlank, [], (c :: cs).dropWhile isBlank⟩
      else if c = '%' then readComment (c :: cs)
      else if c = '\\' then readControl cs
      else if c.val < 0x21 then ⟨.stray, [c], [], cs⟩
      else ⟨.plain, c :: cs.takeWhile isCombiningMark, [], cs.dropWhile isCombiningMark⟩

/-- The text that a lexeme was read from. -/
def whole (x : Lexeme) : List Char := x.taken ++ x.skipped ++ x.rest

theorem whole_readComment (cs : List Char) : (readComment cs).whole = cs := by
  have h := List.takeWhile_append_dropWhile (p := (· != '\n')) (l := cs)
  unfold readComment
  split
  · simp [whole]
  · rename_i newline rest heq
    rw [heq] at h
    simpa [whole] using h

theorem whole_readWord? {slashes cs : List Char} {x : Lexeme} (h : readWord? slashes cs = some x) :
    x.whole = slashes ++ cs := by
  unfold readWord? at h
  split at h
  · cases h
  · rename_i name _
    cases h
    simp only [whole, List.append_assoc, List.takeWhile_append_dropWhile]

theorem whole_readSymbol (cs : List Char) : (readSymbol cs).whole = '\\' :: cs := by
  cases cs <;> rfl

theorem whole_readControl (cs : List Char) : (readControl cs).whole = '\\' :: cs := by
  unfold readControl
  split
  · rename_i behind
    cases h : readWord? ['\\', '\\'] behind with
    | none => exact whole_readSymbol ('\\' :: behind)
    | some x => exact whole_readWord? h
  · cases h : readWord? ['\\'] cs with
    | none => exact whole_readSymbol _
    | some x => exact whole_readWord? h

/-- A lexeme and what follows it make up the text. -/
theorem read_eq (cs : List Char) : (read cs).whole = cs := by
  cases cs with
  | nil => rfl
  | cons c cs =>
    simp only [read]
    split
    · simp [whole]
    split
    · exact whole_readComment _
    split
    · subst_vars
      exact whole_readControl cs
    split
    · rfl
    · simp [whole]

theorem taken_readControl_ne_nil (cs : List Char) : (readControl cs).taken ≠ [] := by
  have hword : ∀ (slashes behind : List Char) (x : Lexeme), slashes ≠ [] →
      readWord? slashes behind = some x → x.taken ≠ [] := by
    intro slashes behind x hs h
    unfold readWord? at h
    split at h
    · cases h
    · cases h
      simp [hs]
  have hsymbol : (readSymbol cs).taken ≠ [] := by
    cases cs <;> simp [readSymbol]
  unfold readControl
  split
  · rename_i behind
    cases h : readWord? ['\\', '\\'] behind with
    | none => exact hsymbol
    | some x => exact hword _ _ x (by simp) h
  · cases h : readWord? ['\\'] cs with
    | none => exact hsymbol
    | some x => exact hword _ _ x (by simp) h

/-- Every lexeme has characters, unless nothing is left to read. -/
theorem taken_ne_nil (c : Char) (cs : List Char) : (read (c :: cs)).taken ≠ [] := by
  simp only [read]
  split
  · rename_i h
    simp [h]
  split
  · unfold readComment
    split <;> simp
  split
  · exact taken_readControl_ne_nil cs
  split <;> simp

/-- What follows a lexeme is shorter than the text, unless nothing is left to
read. -/
theorem length_rest_lt {cs : List Char} {k : LexemeKind} (hk : (read cs).kind = k)
    (h : k ≠ .finish) : (read cs).rest.length < cs.length := by
  cases cs with
  | nil => exact absurd hk.symm h
  | cons c cs =>
    have hwhole := congrArg List.length (read_eq (c :: cs))
    have htaken := List.length_pos_iff.mpr (taken_ne_nil c cs)
    simp only [whole, List.length_append] at hwhole
    omega

end Lexeme

/-! ### Tokens of a document -/

/-- A place in a document from which tokens are read. -/
structure Lexer where
  /-- The document. -/
  document : Document
  /-- The text that is still to be read. -/
  rest : List Char
  /-- Its offset in the document. -/
  position : Nat
  deriving DecidableEq, Repr

namespace Lexer

/-- The start of a document. -/
def ofDocument (document : Document) : Lexer := ⟨document, document.text.toList, 0⟩

/-- The place behind a lexeme. -/
def advance (lx : Lexer) (x : Lexeme) : Lexer :=
  { lx with
    rest := x.rest
    position := lx.position + Text.byteLength x.taken + Text.byteLength x.skipped }

/-- The span of a lexeme that starts here. -/
def spanOf (lx : Lexer) (x : Lexeme) : Span :=
  ⟨lx.document, lx.position, lx.position + Text.byteLength x.taken⟩

/-- A comment that the end of the document cuts off. -/
def openComment : Breach where
  code := "commentAtEnd"
  detail := "% comment has no terminating newline; LaTeX would fail because of "
    ++ "commenting the end of math mode (e.g. $)"

/-- The end marker at this place. -/
def finish (lx : Lexer) : Token := .finish (some ⟨lx.document, lx.position, lx.position⟩)

/-- The next token, the place behind it, and what is reported on the way.  At the
end of the document the end marker is read again and again. -/
def next (o : Options) (lx : Lexer) : Except CompileError Token × Lexer × Log :=
  let x := Lexeme.read lx.rest
  match _h : x.kind with
  | .finish => (.ok lx.finish, lx, [])
  | .blank => (.ok ⟨" ", some (lx.spanOf x)⟩, lx.advance x, [])
  | .plain => (.ok ⟨String.ofList x.taken, some (lx.spanOf x)⟩, lx.advance x, [])
  | .stray =>
      (.error (.located (.unexpectedToken (String.ofList x.taken)) (some (lx.spanOf x))), lx, [])
  | .comment true => next o (lx.advance x)
  | .comment false =>
      match o.report openComment with
      | (.ok _, log) => (.ok (lx.advance x).finish, lx.advance x, log)
      | (.error e, log) => (.error e, lx.advance x, log)
termination_by lx.rest.length
decreasing_by
  exact Lexeme.length_rest_lt _h nofun

/-- The next token, by the kind of the first lexeme. -/
theorem next_eq (o : Options) (lx : Lexer) :
    lx.next o = match (Lexeme.read lx.rest).kind with
      | .finish => (.ok lx.finish, lx, [])
      | .blank => (.ok ⟨" ", some (lx.spanOf (Lexeme.read lx.rest))⟩,
          lx.advance (Lexeme.read lx.rest), [])
      | .plain => (.ok ⟨String.ofList (Lexeme.read lx.rest).taken,
          some (lx.spanOf (Lexeme.read lx.rest))⟩, lx.advance (Lexeme.read lx.rest), [])
      | .stray => (.error (.located (.unexpectedToken (String.ofList (Lexeme.read lx.rest).taken))
          (some (lx.spanOf (Lexeme.read lx.rest)))), lx, [])
      | .comment true => (lx.advance (Lexeme.read lx.rest)).next o
      | .comment false =>
          ((o.report openComment).1.map fun _ => (lx.advance (Lexeme.read lx.rest)).finish,
            lx.advance (Lexeme.read lx.rest), (o.report openComment).2) := by
  rw [next]
  split <;> rename_i h <;> simp only [h]
  rcases o.report openComment with ⟨_ | _, log⟩ <;> rfl

theorem length_rest_advance_le (lx : Lexer) :
    (lx.advance (Lexeme.read lx.rest)).rest.length ≤ lx.rest.length := by
  have hwhole := congrArg List.length (Lexeme.read_eq lx.rest)
  simp only [Lexeme.whole, List.length_append] at hwhole
  simp only [advance]
  omega

/-- Nothing is ever put back. -/
theorem length_rest_next_le (o : Options) (lx : Lexer) :
    (lx.next o).2.1.rest.length ≤ lx.rest.length := by
  fun_induction next o lx with
  | case1 | case4 => exact Nat.le_refl _
  | case2 | case3 | case6 | case7 => exact length_rest_advance_le _
  | case5 lx x hk ih => exact Nat.le_trans ih (length_rest_advance_le lx)

/-- A token takes something off the text that is still to be read. -/
theorem next_shorter {o : Options} {lx lx' : Lexer} {t : Token} {log : Log}
    (h : lx.next o = (.ok t, lx', log)) (ht : t.isEnd = false) :
    lx'.rest.length < lx.rest.length := by
  fun_induction next o lx with
  | case1 lx x hk =>
    cases h
    simp [finish] at ht
  | case2 lx x hk =>
    cases h
    exact Lexeme.length_rest_lt hk nofun
  | case3 lx x hk =>
    cases h
    exact Lexeme.length_rest_lt hk nofun
  | case4 lx x hk => cases h
  | case5 lx x hk ih =>
    have hlt : (lx.advance x).rest.length < lx.rest.length :=
      Lexeme.length_rest_lt hk nofun
    exact Nat.lt_trans (ih h) hlt
  | case6 lx x hk log' u hr =>
    cases h
    simp [finish] at ht
  | case7 lx x hk e log' hr => cases h

/-- All tokens up to the end of the document, without their places. -/
def readAll (o : Options) (lx : Lexer) : Except CompileError (List Token) × Log :=
  match _h : lx.next o with
  | (.error e, _, log) => (.error e, log)
  | (.ok t, lx', log) =>
      if _ht : t.isEnd then (.ok [], log)
      else
        let (tokens, later) := readAll o lx'
        (tokens.map (t.detach :: ·), later ++ log)
termination_by lx.rest.length
decreasing_by
  exact next_shorter _h (by simpa using _ht)

end Lexer

end MathMarkup
