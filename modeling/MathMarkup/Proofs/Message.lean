import MathMarkup.Proofs.Parser.Located
import MathMarkup.Proofs.Rendering
import MathMarkup.Proofs.Text.Boundary

/-!
# What messages show

A message shows the text around the place of an error as through a window: fifteen bytes on each
side of it, or as many as there are, and the rest of a character that is cut by that.  What is at
the place itself is underlined, and where the text goes on outside of the window there is an
ellipsis.

The pieces that are shown are taken out of the text by their offsets, which fails if an offset is
outside of the text or inside a character.  A place that is a proper range of the text has a
window, and the message shows just that; any other place has no message.  All errors of a text
that is compiled are in proper places, so that all of them have a message.

## Main definitions

* `Span.Window` — a document as it is cut for the message.
* `Span.Window.context` — what a window shows, with the place in words.

## Main results

* `Span.Window.context?_eq` — a window is what is shown.
* `Span.exists_window` — a proper range has a window.
* `Span.context?_eq_some_iff` — nothing else is shown.
* `Environment.message_window` — **every error has a message, and the message of an error in a
  place shows the window around it.**
-/

namespace MathMarkup

/-- The piece of a text between two others is the slice between their offsets. -/
theorem Text.slice?_of_append {text before found after : String}
    (h : text = before ++ found ++ after) :
    slice? text.toList before.utf8ByteSize (before ++ found).utf8ByteSize = some found.toList := by
  refine slice?_eq_some_iff.mpr ⟨before.toList, after.toList, ?_, utf8ByteSize_eq before, ?_⟩
  · rw [h, String.toList_append, String.toList_append, List.append_assoc]
  · rw [String.utf8ByteSize_append, utf8ByteSize_eq found]

/-! ### Windows -/

/-- A window on a document around a span.  The document is cut into what is in front of the
window, the three pieces that the window shows, and what is behind it; the second of the three
pieces is what the span covers. -/
structure Span.Window (s : Span) where
  /-- What is in front of the window. -/
  hidden : String
  /-- What is shown in front of the span. -/
  before : String
  /-- What the span covers. -/
  marked : String
  /-- What is shown behind the span. -/
  after : String
  /-- What is behind the window. -/
  omitted : String
  /-- The pieces make up the document. -/
  text_eq : s.document.text = hidden ++ before ++ marked ++ after ++ omitted
  /-- The marked piece starts where the span does. -/
  start_eq : s.start = (hidden ++ before).utf8ByteSize
  /-- It ends where the span does. -/
  stop_eq : s.stop = (hidden ++ before ++ marked).utf8ByteSize
  /-- The window starts at the last boundary that is fifteen bytes or more in front of the span;
  if there are not so many, at the start of the document. -/
  isGreatest : IsGreatest {offset | Text.IsBoundary s.document.text offset ∧ offset ≤ s.start - 15}
    hidden.utf8ByteSize
  /-- The window ends at the first boundary that is fifteen bytes or more behind the span; if
  there are not so many, at the end of the document. -/
  isLeast : IsLeast {offset | Text.IsBoundary s.document.text offset ∧
      min (s.stop + 15) s.document.text.utf8ByteSize ≤ offset}
    (hidden ++ before ++ marked ++ after).utf8ByteSize

namespace Span

variable {s : Span}

theorem isGreatest_excerptStart (s : Span) :
    IsGreatest {offset | Text.IsBoundary s.document.text offset ∧ offset ≤ s.start - 15}
      s.excerptStart :=
  Text.isGreatest_floorBoundary s.document.text (s.start - 15)

theorem isLeast_excerptStop (s : Span) :
    IsLeast {offset | Text.IsBoundary s.document.text offset ∧
      min (s.stop + 15) s.document.text.utf8ByteSize ≤ offset} s.excerptStop :=
  Text.isLeast_ceilBoundary (Nat.min_le_right _ _)

/-! ### What a window shows -/

namespace Window

/-- Where a window starts. -/
def first (w : s.Window) : Nat := w.hidden.utf8ByteSize

/-- Where a window ends. -/
def last (w : s.Window) : Nat := (w.hidden ++ w.before ++ w.marked ++ w.after).utf8ByteSize

/-- What a window shows, behind the place of the span in words.  Each character that the span
covers has a low line, and an ellipsis stands for what is in front of the window and for what is
behind it. -/
def context (w : s.Window) : String :=
  (if s.start = s.document.text.utf8ByteSize then " at end of input: "
    else " at position " ++ toString (s.start + 1) ++ ": ")
    ++ (if 0 < w.first then "\u2026" else "")
    ++ w.before
    ++ String.join (w.marked.toList.map fun c => String.singleton c ++ "\u0332")
    ++ w.after
    ++ (if w.last < s.document.text.utf8ByteSize then "\u2026" else "")

theorem excerptStart_eq (w : s.Window) : s.excerptStart = w.first :=
  s.isGreatest_excerptStart.unique w.isGreatest

theorem excerptStop_eq (w : s.Window) : s.excerptStop = w.last :=
  s.isLeast_excerptStop.unique w.isLeast

theorem slice?_before (w : s.Window) :
    Text.slice? s.document.text.toList s.excerptStart s.start = some w.before.toList := by
  -- the window is cut where the span starts
  have htext : s.document.text = w.hidden ++ w.before ++ (w.marked ++ w.after ++ w.omitted) := by
    rw [w.text_eq]
    simp only [String.append_assoc]
  rw [w.excerptStart_eq, w.start_eq]
  exact Text.slice?_of_append htext

theorem chars?_eq (w : s.Window) : s.chars? = some w.marked.toList := by
  have htext : s.document.text = w.hidden ++ w.before ++ w.marked ++ (w.after ++ w.omitted) := by
    rw [w.text_eq]
    simp only [String.append_assoc]
  rw [Span.chars?, w.start_eq, w.stop_eq]
  exact Text.slice?_of_append htext

theorem slice?_after (w : s.Window) :
    Text.slice? s.document.text.toList s.stop s.excerptStop = some w.after.toList := by
  rw [w.excerptStop_eq, w.stop_eq]
  exact Text.slice?_of_append w.text_eq

end Window

theorem ofList_underline (cs : List Char) :
    String.ofList (underline cs) =
      String.join (cs.map fun c => String.singleton c ++ "\u0332") := by
  induction cs with
  | nil => rfl
  | cons c cs ih =>
    rw [List.map_cons, String.join_cons, ← ih]
    simp [underline, String.ofList_cons, String.append_assoc]

/-- **A window is what is shown**: the three slices that the excerpt takes are its three pieces. -/
theorem Window.context?_eq (w : s.Window) : s.context? = some w.context := by
  have hexcerpt : s.excerpt? = some ((if 0 < w.first then "\u2026" else "") ++ w.before ++
      String.join (w.marked.toList.map fun c => String.singleton c ++ "\u0332") ++ w.after ++
      (if w.last < s.document.text.utf8ByteSize then "\u2026" else "")) := by
    rw [excerpt?, w.slice?_before, w.chars?_eq, w.slice?_after, w.excerptStart_eq,
      w.excerptStop_eq]
    simp [ofList_underline]
  rw [context?, hexcerpt, bearing]
  simp only [Option.map_some, Window.context, String.append_assoc]
  rfl

/-! ### Proper ranges -/

/-- Around a proper range a document can be cut where the excerpt starts and where it ends. -/
theorem exists_pieces (h : s.chars?.isSome = true) : ∃ hidden before marked after omitted,
    s.document.text.toList = hidden ++ before ++ marked ++ after ++ omitted ∧
      s.start = Text.byteLength (hidden ++ before) ∧
      s.stop = Text.byteLength (hidden ++ before ++ marked) ∧
      s.excerptStart = Text.byteLength hidden ∧
      s.excerptStop = Text.byteLength (hidden ++ before ++ marked ++ after) := by
  obtain ⟨marked, hmarked⟩ := Option.isSome_iff_exists.mp h
  obtain ⟨front, back, htext, hstart, hstop⟩ := Text.slice?_eq_some_iff.mp hmarked
  obtain ⟨⟨hfirst, hstartLe⟩, -⟩ := s.isGreatest_excerptStart
  obtain ⟨⟨hlast, hleStop⟩, -⟩ := s.isLeast_excerptStop
  obtain ⟨hidden, rest, hcut, hhidden⟩ := Text.isBoundary_iff.mp hfirst
  obtain ⟨shown, omitted, hcut', hshown⟩ := Text.isBoundary_iff.mp hlast
  -- the excerpt starts in front of the span
  obtain ⟨before, rfl, -⟩ := Text.exists_append_of_byteLength_le (hcut.symm.trans htext) (by omega)
  have hspan : Text.byteLength (hidden ++ before ++ marked) = s.stop := by
    rw [Text.byteLength_append, ← hstart, hstop]
  -- and ends behind it
  have hbehind : Text.byteLength (hidden ++ before ++ marked) ≤ Text.byteLength shown := by
    have hsize := Text.utf8ByteSize_eq s.document.text
    rw [htext, ← List.append_assoc, Text.byteLength_append, hspan] at hsize
    omega
  rw [← List.append_assoc] at htext
  obtain ⟨after, rfl, -⟩ := Text.exists_append_of_byteLength_le (htext.symm.trans hcut') hbehind
  exact ⟨hidden, before, marked, after, omitted, hcut', hstart, hspan.symm, hhidden.symm,
    hshown.symm⟩

/-- A proper range has a window, which starts and ends where the excerpt does. -/
theorem exists_window (h : s.chars?.isSome = true) : Nonempty s.Window := by
  obtain ⟨hidden, before, marked, after, omitted, htext, hstart, hstop, hfirst, hlast⟩ :=
    exists_pieces h
  rw [← Text.utf8ByteSize_ofList] at hstart hstop hfirst hlast
  simp only [String.ofList_append] at hstart hstop hlast
  refine ⟨.ofList hidden, .ofList before, .ofList marked, .ofList after, .ofList omitted, ?_,
    hstart, hstop, ?_, ?_⟩
  · rw [← s.document.text.ofList_toList, htext]
    simp only [String.ofList_append]
  · rw [← hfirst]
    exact s.isGreatest_excerptStart
  · rw [← hlast]
    exact s.isLeast_excerptStop

/-- What is shown of a place is the window around it, if there is one. -/
theorem context?_eq_some_iff {context : String} :
    s.context? = some context ↔ ∃ w : s.Window, w.context = context := by
  -- a window is shown, and whatever is shown is a window
  constructor
  · intro h
    obtain ⟨excerpt, hexcerpt, -⟩ := Option.map_eq_some_iff.mp h
    -- what the span covers was shown, so the span is a proper range
    obtain ⟨w⟩ : Nonempty s.Window := by
      refine exists_window ?_
      cases hchars : s.chars? with
      | none => simp [excerpt?, hchars] at hexcerpt
      | some found => rfl
    exact ⟨w, Option.some.inj (w.context?_eq.symm.trans h)⟩
  · rintro ⟨w, rfl⟩
    exact w.context?_eq

end Span

/-! ### Messages -/

namespace CompileError

variable {e : CompileError} {s : Span}

/-- The message of an error in a place ends with the window around the place; if there is no window,
there is no message. -/
theorem message?_eq_some_iff (h : e.place = some s) {message : String} :
    e.message? = some message ↔
      ∃ w : s.Window, message = "Math parse error: " ++ e.reason.message ++ w.context := by
  have hmessage : e.message? = s.context?.map (e.summary ++ ·) := by rw [message?, h]
  rw [hmessage, Option.map_eq_some_iff]
  constructor
  · rintro ⟨context, hcontext, rfl⟩
    obtain ⟨w, rfl⟩ := Span.context?_eq_some_iff.mp hcontext
    exact ⟨w, rfl⟩
  · rintro ⟨w, rfl⟩
    exact ⟨w.context, w.context?_eq, rfl⟩

/-- An error that is in no place, or in a proper one, has a message. -/
theorem message?_eq (h : ∀ s ∈ e.place, s.chars?.isSome = true) :
    e.message? = some e.message := by
  obtain ⟨text, htext⟩ : ∃ text, e.message? = some text := by
    cases hplace : e.place with
    | none => exact ⟨e.summary, by rw [message?, hplace]⟩
    | some s =>
      obtain ⟨w⟩ := Span.exists_window (h s hplace)
      exact ⟨_, (message?_eq_some_iff hplace).mpr ⟨w, rfl⟩⟩
  rw [message, htext]
  rfl

end CompileError

/-! ### Compiling -/

namespace Environment

/-- What has no tree was not read. -/
theorem parse_of_tree_error {o : Options} {source : String} {e : CompileError}
    (h : (tree ⟨.standard, o⟩ source).1 = .error e) :
    (parse ⟨.standard, o⟩ source).1 = .error e := by
  cases hparse : (parse ⟨.standard, o⟩ source).1 with
  | ok nodes =>
    obtain ⟨m, hm⟩ := exists_tree_of_parse hparse
    rw [hm] at h
    cases h
  | error e' =>
    rw [tree_of_parse_error hparse] at h
    cases h
    rfl

theorem tree_of_render_error {env : Environment} {source : String} {e : CompileError}
    (h : (env.render source).1 = .error e) : (env.tree source).1 = .error e := by
  rw [render_eq] at h
  cases htree : (env.tree source).1 with
  | ok m =>
    rw [htree] at h
    cases h
  | error e' =>
    rw [htree] at h
    cases h
    rfl

/-- **Messages show the window around the error.**  With the standard registry and any options,
every error of reading, laying out or rendering a text has a message.  If the error is in a place,
this is a place in the text or in the replacement of a macro, and all that is shown of it are the
pieces of a window.  More generally, the message of any error in a place, wherever the error comes
from, is the cause and the window around the place; where there is no window there is no
message. -/
theorem message_window :
    (∀ (o : Options) (source : String) (e : CompileError),
      (parse ⟨.standard, o⟩ source).1 = .error e ∨ (tree ⟨.standard, o⟩ source).1 = .error e ∨
        (render ⟨.standard, o⟩ source).1 = .error e →
      e.message? = some e.message ∧ ∀ s, e.place = some s →
        (s.document.text = source ∨ ∃ name, o.macros.lookup name = some s.document.text) ∧
        ∃ w : s.Window, e.message = "Math parse error: " ++ e.reason.message ++ w.context) ∧
    ∀ (e : CompileError) (s : Span) (message : String), e.place = some s →
      (e.message? = some message ↔
        ∃ w : s.Window, message = "Math parse error: " ++ e.reason.message ++ w.context) := by
  constructor
  · intro o source e herror
    have hparse : (parse ⟨.standard, o⟩ source).1 = .error e := by
      -- laying out and writing add no errors of their own
      rcases herror with hparse | htree | hrender
      · exact hparse
      · exact parse_of_tree_error htree
      · exact parse_of_tree_error (tree_of_render_error hrender)
    have hproper := isProper_of_parse hparse
    have hmessage := CompileError.message?_eq fun s hs => (hproper s hs).isSome_chars
    refine ⟨hmessage, fun s hs => ⟨?_, (CompileError.message?_eq_some_iff hs).mp hmessage⟩⟩
    obtain ⟨document, start, stop⟩ := s
    cases (hproper _ hs).document with
    | text => exact .inl rfl
    | replacement hlookup => exact .inr ⟨_, hlookup⟩
  · intro e s message hplace
    exact CompileError.message?_eq_some_iff hplace

/-- A control character in a replacement, between characters of two bytes, so that fifteen bytes
on either side end inside a character. -/
theorem message_window_replacement :
    let replacement := "ééééééééé\x01ééééééééé"
    let s : Span := ⟨⟨replacement, 1⟩, 18, 19⟩
    let e : CompileError := ⟨.unexpectedToken "\x01", some s⟩
    let message := "Math parse error: Unexpected '\x01' at position 19: " ++
      "\u2026éééééééé\x01\u0332éééééééé\u2026"
    (parse ⟨.standard, { macros := [("\\m", replacement)] }⟩ "\\m").1 = .error e ∧
    e.message? = some e.message ∧ e.message = message ∧
    ∃ w : s.Window, message = "Math parse error: " ++ e.reason.message ++ w.context := by
  intro replacement s e message
  have hparse : (parse ⟨.standard, { macros := [("\\m", replacement)] }⟩ "\\m").1 = .error e := by
    refine parse_of_fetch_error ?_
    decide +kernel
  have hmessage : e.message? = some message := by decide +kernel
  obtain ⟨hsome, -⟩ := message_window.1 _ _ e (.inl hparse)
  refine ⟨hparse, hsome, ?_, (message_window.2 e s message rfl).mp hmessage⟩
  exact Option.some.inj (hsome.symm.trans hmessage)

end Environment

end MathMarkup
