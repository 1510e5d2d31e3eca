import MathMarkup.Markup.Basic

/-!
# Reading markup back

Markup that was written can be decoded.  A decoder first takes the text apart into opening
tags, closing tags and single characters, undoing the escapes; then it puts these together
to a tree.  What comes out is the tree that was written, except that texts next to each
other have become one and empty texts are gone: these cannot be told apart in the written
form.  So no text and no value of an attribute can be mistaken for markup.

The decoder refuses whatever is not of this form: unknown elements and entities, raw special
characters, and tags that do not match.

## Main definitions

* `Text.readChar?` — one character of an escaped text.
* `Markup.Item`, `Markup.scan` — the parts of written markup.
* `Markup.assemble`, `Markup.decode` — the tree of these parts, and that of a text.
* `Markup.wellNamed` — all names of attributes can be read.
* `Markup.normalize` — texts next to each other become one.

## Main results

* `Markup.scan_prepend` — the parts of a tree that was written.
* `Markup.foldr_step_items` — the tree of these parts.
* `Markup.serialize_normalize` — a normalized tree is written in the same way.
* `Markup.decode_serialize` — decoding undoes writing, so that trees which are written in
  the same way differ at most in how their texts are divided.
-/

namespace MathMarkup

/-! ### Escaped characters -/

namespace Text

/-- The characters that are not written as they are. -/
def isSpecial (c : Char) : Bool := ['&', '>', '<', '"', '\x27'].contains c

/-- The character that an entity stands for, given what follows the ampersand. -/
def readEntity? : List Char → Option (Char × List Char)
  | 'a' :: 'm' :: 'p' :: ';' :: rest => some ('&', rest)
  | 'g' :: 't' :: ';' :: rest => some ('>', rest)
  | 'l' :: 't' :: ';' :: rest => some ('<', rest)
  | 'q' :: 'u' :: 'o' :: 't' :: ';' :: rest => some ('"', rest)
  | '#' :: 'x' :: '2' :: '7' :: ';' :: rest => some ('\x27', rest)
  | _ => none

/-- One character of an escaped text, with the text behind it. -/
def readChar? : List Char → Option (Char × List Char)
  | [] => none
  | c :: rest =>
      if c = '&' then readEntity? rest
      else if isSpecial c then none
      else some (c, rest)

theorem escapeChar_of_isSpecial_eq_false {c : Char} (h : isSpecial c = false) :
    escapeChar c = [c] := by
  unfold escapeChar
  split
  case h_6 => rfl
  all_goals cases h

theorem readChar?_of_isSpecial_eq_false {c : Char} (h : isSpecial c = false)
    (rest : List Char) : readChar? (c :: rest) = some (c, rest) := by
  have hne : c ≠ '&' := by
    rintro rfl
    cases h
  simp [readChar?, hne, h]

/-- Every character can be read back. -/
theorem readChar?_escapeChar (c : Char) (rest : List Char) :
    readChar? (escapeChar c ++ rest) = some (c, rest) := by
  -- a character is written as it is, or as one of five entities
  cases h : isSpecial c with
  | false =>
    rw [escapeChar_of_isSpecial_eq_false h]
    exact readChar?_of_isSpecial_eq_false h rest
  | true =>
    simp only [isSpecial, List.contains_iff_mem, List.mem_cons, List.not_mem_nil, or_false] at h
    rcases h with rfl | rfl | rfl | rfl | rfl <;> rfl

theorem readEntity?_shorter {cs rest : List Char} {c : Char}
    (h : readEntity? cs = some (c, rest)) : rest.length < cs.length := by
  unfold readEntity? at h
  split at h <;> cases h <;> simp only [List.length_cons] <;> omega

theorem readChar?_shorter {cs rest : List Char} {c : Char} (h : readChar? cs = some (c, rest)) :
    rest.length < cs.length := by
  cases cs with
  | nil => cases h
  | cons d ds =>
    simp only [readChar?] at h
    split at h
    · exact Nat.lt_succ_of_lt (readEntity?_shorter h)
    · split at h <;> cases h
      exact Nat.lt_succ_self _

end Text

/-! ### The parts of written markup -/

/-- All names of elements. -/
def Tag.all : List Tag :=
  [math, remark, semantics, mtext, mn, mo, mi, munderover, mfrac, mrow, mpadded, mphantom]

/-- The element with a name. -/
def Tag.ofName? (name : List Char) : Option Tag := Tag.all.find? fun tag => tag.name.toList == name

theorem Tag.ofName?_name (tag : Tag) : ofName? tag.name.toList = some tag := by
  cases tag <;> decide

/-- The names of elements consist of letters. -/
theorem Tag.isAlpha_of_mem_name (tag : Tag) : ∀ c ∈ tag.name.toList, c.isAlpha = true := by
  have hall : tag.name.toList.all Char.isAlpha = true := by cases tag <;> decide
  exact List.all_eq_true.mp hall

theorem Tag.exists_cons_name (tag : Tag) (rest : List Char) :
    ∃ c cs, tag.name.toList ++ rest = c :: cs ∧ c ≠ '/' := by
  cases tag <;> exact ⟨_, _, rfl, by decide⟩

namespace Markup

/-- A part of written markup. -/
inductive Item where
  /-- An opening tag with its attributes. -/
  | opening (tag : Tag) (attributes : Attributes)
  /-- A closing tag. -/
  | closing (tag : Tag)
  /-- A character of a text. -/
  | character (c : Char)
  deriving DecidableEq

/-- The characters that can be part of the name of an attribute. -/
def isAttributeChar (c : Char) : Bool :=
  !([' ', '\t', '\n', '\r', '=', '"', '<', '>', '/'].contains c)

/-- The value of an attribute, up to the quotation mark that ends it. -/
def readValue? (cs : List Char) : Option (List Char × List Char) :=
  match cs with
  | '"' :: rest => some ([], rest)
  | cs =>
      match _h : Text.readChar? cs with
      | none => none
      | some (c, rest) => (readValue? rest).map fun (value, behind) => (c :: value, behind)
termination_by cs.length
decreasing_by exact Text.readChar?_shorter _h

/-- The name and the value of an attribute. -/
def readAttribute? (cs : List Char) : Option ((String × String) × List Char) :=
  match cs.takeWhile isAttributeChar, cs.dropWhile isAttributeChar with
  | c :: name, '=' :: '"' :: rest =>
      (readValue? rest).map fun (value, behind) =>
        ((String.ofList (c :: name), String.ofList value), behind)
  | _, _ => none

theorem readValue?_shorter {cs value rest : List Char}
    (h : readValue? cs = some (value, rest)) : rest.length < cs.length := by
  fun_induction readValue? cs generalizing value with
  | case1 rest' =>
    cases h
    exact Nat.lt_succ_self _
  | case2 cs hcs hread => cases h
  | case3 cs hcs c rest' hread ih =>
    obtain ⟨⟨value', behind⟩, hvalue, heq⟩ := Option.map_eq_some_iff.mp h
    cases heq
    exact Nat.lt_trans (ih hvalue) (Text.readChar?_shorter hread)

theorem readAttribute?_shorter {cs rest : List Char} {entry : String × String}
    (h : readAttribute? cs = some (entry, rest)) : rest.length < cs.length := by
  have hlength := congrArg List.length
    (List.takeWhile_append_dropWhile (p := isAttributeChar) (l := cs))
  unfold readAttribute? at h
  split at h
  · rename_i c name behind _ hdrop
    obtain ⟨⟨value, rest'⟩, hvalue, heq⟩ := Option.map_eq_some_iff.mp h
    cases heq
    have hshorter := readValue?_shorter hvalue
    rw [hdrop] at hlength
    simp only [List.length_append, List.length_cons] at hlength
    omega
  · cases h

/-- The attributes of an opening tag, up to its end. -/
def readAttributes? (cs : List Char) : Option (Attributes × List Char) :=
  match cs with
  | '>' :: rest => some ([], rest)
  | ' ' :: cs =>
      match _h : readAttribute? cs with
      | none => none
      | some (entry, rest) =>
          (readAttributes? rest).map fun (attributes, behind) => (entry :: attributes, behind)
  | _ => none
termination_by cs.length
decreasing_by exact Nat.lt_succ_of_lt (readAttribute?_shorter _h)

/-- A closing tag, given what follows its slash. -/
def readClosing? (cs : List Char) : Option (Item × List Char) :=
  match Tag.ofName? (cs.takeWhile Char.isAlpha), cs.dropWhile Char.isAlpha with
  | some tag, '>' :: rest => some (.closing tag, rest)
  | _, _ => none

/-- An opening tag, given what follows its bracket. -/
def readOpening? (cs : List Char) : Option (Item × List Char) := do
  let tag ← Tag.ofName? (cs.takeWhile Char.isAlpha)
  let (attributes, rest) ← readAttributes? (cs.dropWhile Char.isAlpha)
  return (.opening tag attributes, rest)

/-- The first part of written markup.  A bracket starts a tag, and the slash behind it tells which
kind. -/
def readItem? : List Char → Option (Item × List Char)
  | '<' :: cs =>
      match cs with
      | '/' :: behind => readClosing? behind
      | _ => readOpening? cs
  | cs => (Text.readChar? cs).map fun (c, rest) => (.character c, rest)

theorem readAttributes?_shorter {cs rest : List Char} {attributes : Attributes}
    (h : readAttributes? cs = some (attributes, rest)) : rest.length < cs.length := by
  fun_induction readAttributes? cs generalizing attributes with
  | case1 rest' =>
    cases h
    exact Nat.lt_succ_self _
  | case2 cs hread => cases h
  | case3 cs entry rest' hread ih =>
    obtain ⟨⟨attributes', behind⟩, hattributes, heq⟩ := Option.map_eq_some_iff.mp h
    cases heq
    exact Nat.lt_succ_of_lt (Nat.lt_trans (ih hattributes) (readAttribute?_shorter hread))
  | case4 => cases h

theorem readItem?_shorter {cs rest : List Char} {item : Item}
    (h : readItem? cs = some (item, rest)) : rest.length < cs.length := by
  have hdrop : ∀ ds : List Char, (ds.dropWhile Char.isAlpha).length ≤ ds.length := fun ds =>
    (List.dropWhile_suffix Char.isAlpha).length_le
  unfold readItem? at h
  split at h
  · split at h
    · rename_i behind
      unfold readClosing? at h
      split at h
      · rename_i tag rest' _ heq
        cases h
        have hbehind := hdrop behind
        rw [heq] at hbehind
        simp only [List.length_cons] at *
        omega
      · cases h
    · simp only [readOpening?, Option.bind_eq_bind, Option.bind_eq_some_iff] at h
      obtain ⟨tag, -, ⟨attributes, rest'⟩, hattributes, heq⟩ := h
      cases heq
      have hrest := readAttributes?_shorter hattributes
      exact Nat.lt_succ_of_lt (Nat.lt_of_lt_of_le hrest (hdrop _))
  · obtain ⟨⟨c, rest'⟩, hread, heq⟩ := Option.map_eq_some_iff.mp h
    cases heq
    exact Text.readChar?_shorter hread

/-- All parts of written markup. -/
def scan (cs : List Char) : Option (List Item) :=
  match cs with
  | [] => some []
  | c :: cs =>
      match _h : readItem? (c :: cs) with
      | none => none
      | some (item, rest) => (scan rest).map (item :: ·)
termination_by cs.length
decreasing_by exact readItem?_shorter _h

/-! ### Putting the parts together -/

/-- Puts a tree in front of others.  Texts next to each other become one, and an empty text
is left out. -/
def attach : Markup → List Markup → List Markup
  | text s, text t :: ms => text (s ++ t) :: ms
  | text s, ms => if s = "" then ms else text s :: ms
  | m, ms => m :: ms

/-- What one part does to the trees that follow it, which are put together from the end to
the beginning.  There are the trees up to the next closing tag, and behind every closing tag
whose opening tag is still to come there are others. -/
def step : Item → Option (List Markup × List (Tag × List Markup)) →
    Option (List Markup × List (Tag × List Markup))
  | .character c, some (trees, unopened) =>
      some (attach (text (String.singleton c)) trees, unopened)
  | .closing tag, some (trees, unopened) => some ([], (tag, trees) :: unopened)
  | .opening tag attributes, some (trees, (closing, behind) :: unopened) =>
      if tag = closing then some (element tag attributes trees :: behind, unopened) else none
  | _, _ => none

/-- The tree that some parts are written for. -/
def assemble (items : List Item) : Option Markup :=
  match items.foldr step (some ([], [])) with
  | some ([m], []) => some m
  | _ => none

/-- The tree of written markup, if it is well formed: it is scanned, and the parts are put
together. -/
def decode (written : String) : Option Markup := (scan written.toList).bind assemble

/-! ### What is written and what is read -/

mutual

/-- The parts of a tree. -/
def items : Markup → List Item
  | element tag attributes children =>
      .opening tag attributes :: (itemsList children ++ [.closing tag])
  | text s => s.toList.map .character

/-- The parts of some trees. -/
def itemsList : List Markup → List Item
  | [] => []
  | m :: ms => items m ++ itemsList ms

end

/-- Whether the name of an attribute can be read: it is not empty, and nothing in it ends a name. -/
def isAttributeName (name : String) : Bool := name != "" && name.toList.all isAttributeChar

mutual

/-- Whether the names of all attributes in a tree can be read. -/
def wellNamed : Markup → Bool
  | element _ attributes children =>
      (attributes.all fun entry => isAttributeName entry.1) && wellNamedList children
  | text _ => true

/-- Whether the names of all attributes in some trees can be read. -/
def wellNamedList : List Markup → Bool
  | [] => true
  | m :: ms => wellNamed m && wellNamedList ms

end

mutual

/-- The tree in which texts next to each other are one and no text is empty, the tree itself
apart. -/
def normalize : Markup → Markup
  | element tag attributes children => element tag attributes (normalizeList children)
  | text s => text s

/-- Trees in which texts next to each other are one and no text is empty. -/
def normalizeList : List Markup → List Markup
  | [] => []
  | m :: ms => attach (normalize m) (normalizeList ms)

end

/-- Whether a tree is an element. -/
def isElement : Markup → Bool
  | element .. => true
  | text _ => false

/-! ### Scanning what was written -/

theorem readValue?_of_readChar? {cs rest : List Char} {c : Char}
    (h : Text.readChar? cs = some (c, rest)) :
    readValue? cs = (readValue? rest).map fun (value, behind) => (c :: value, behind) := by
  -- a quotation mark is never the start of an escaped character
  have hquote : ∀ behind, cs = '"' :: behind → False := by
    rintro behind rfl
    cases h
  rw [readValue?]
  · split
    · rename_i hnone
      rw [h] at hnone
      cases hnone
    · rename_i hsome
      rw [h] at hsome
      cases hsome
      rfl
  · exact hquote

/-- A value ends where its quotation mark is, as those inside the value are escaped. -/
theorem readValue?_escape (value rest : List Char) :
    readValue? (Text.escape value ++ '"' :: rest) = some (value, rest) := by
  induction value with
  | nil =>
    rw [Text.escape_nil, List.nil_append, readValue?]
  | cons c value ih =>
    rw [Text.escape_cons, List.append_assoc,
      readValue?_of_readChar? (Text.readChar?_escapeChar c _), ih]
    rfl

/-- What an attribute is written as. -/
theorem attributeChars_cons (name value : String) (attributes : Attributes) (rest : List Char) :
    attributeChars ((name, value) :: attributes) ++ rest =
      ' ' :: (name.toList ++ '=' :: '"' :: (Text.escape value.toList ++
        '"' :: (attributeChars attributes ++ rest))) := by
  simp [attributeChars]

theorem readAttribute?_written {name : String} (hname : isAttributeName name = true)
    (value : String) (rest : List Char) :
    readAttribute? (name.toList ++ '=' :: '"' :: (Text.escape value.toList ++ '"' :: rest)) =
      some ((name, value), rest) := by
  simp only [isAttributeName, Bool.and_eq_true, bne_iff_ne, List.all_eq_true] at hname
  obtain ⟨hne, hchars⟩ := hname
  obtain ⟨c, cs, hcs⟩ := List.exists_cons_of_ne_nil (mt String.toList_eq_nil_iff.mp hne)
  -- the name ends at the equals sign
  have hstop : isAttributeChar '=' = false := by decide
  have htake : (name.toList ++ '=' :: '"' :: (Text.escape value.toList ++ '"' :: rest)).takeWhile
      isAttributeChar = c :: cs := by
    rw [List.takeWhile_append_of_pos hchars, List.takeWhile_cons_of_neg (by simp [hstop]),
      List.append_nil, hcs]
  have hdrop : (name.toList ++ '=' :: '"' :: (Text.escape value.toList ++ '"' :: rest)).dropWhile
      isAttributeChar = '=' :: '"' :: (Text.escape value.toList ++ '"' :: rest) := by
    rw [List.dropWhile_append_of_pos hchars, List.dropWhile_cons_of_neg (by simp [hstop])]
  have hname : String.ofList (c :: cs) = name := by rw [← hcs, String.ofList_toList]
  rw [readAttribute?, htake, hdrop]
  simp only [readValue?_escape, Option.map_some, hname, String.ofList_toList]

/-- The attributes of an element can be read back, in order. -/
theorem readAttributes?_written {attributes : Attributes}
    (hnames : ∀ entry ∈ attributes, isAttributeName entry.1 = true) (rest : List Char) :
    readAttributes? (attributeChars attributes ++ '>' :: rest) = some (attributes, rest) := by
  induction attributes with
  | nil =>
    simp only [attributeChars, List.flatMap_nil, List.nil_append]
    rw [readAttributes?]
  | cons entry attributes ih =>
    obtain ⟨name, value⟩ := entry
    rw [List.forall_mem_cons] at hnames
    rw [attributeChars_cons, readAttributes?, readAttribute?_written hnames.1]
    simp [ih hnames.2]

/-- The first part of a text is read, and then the others. -/
theorem scan_of_readItem? {cs rest : List Char} {item : Item}
    (h : readItem? cs = some (item, rest)) : scan cs = (scan rest).map (item :: ·) := by
  cases cs with
  | nil => cases h
  | cons c cs =>
    rw [scan]
    split
    · rename_i hnone
      rw [h] at hnone
      cases hnone
    · rename_i hsome
      rw [h] at hsome
      cases hsome
      rfl

theorem readItem?_of_readChar? {cs rest : List Char} {c : Char}
    (h : Text.readChar? cs = some (c, rest)) : readItem? cs = some (.character c, rest) := by
  unfold readItem?
  split
  · -- a bracket is no character of a text
    cases h
  · rw [h]
    rfl

/-- A text falls into its characters. -/
theorem scan_escape (cs rest : List Char) :
    scan (Text.escape cs ++ rest) = (scan rest).map (cs.map Item.character ++ ·) := by
  induction cs with
  | nil => simp
  | cons c cs ih =>
    have hread := Text.readChar?_escapeChar c (Text.escape cs ++ rest)
    rw [Text.escape_cons, List.append_assoc, scan_of_readItem? (readItem?_of_readChar? hread), ih,
      Option.map_map]
    rfl

/-- Where the name of an element ends: at the first character that is no letter. -/
theorem span_name (tag : Tag) (rest : List Char) (hrest : ∀ c ∈ rest.head?, c.isAlpha = false) :
    (tag.name.toList ++ rest).takeWhile Char.isAlpha = tag.name.toList ∧
      (tag.name.toList ++ rest).dropWhile Char.isAlpha = rest := by
  rw [List.takeWhile_append_of_pos tag.isAlpha_of_mem_name,
    List.dropWhile_append_of_pos tag.isAlpha_of_mem_name]
  cases rest with
  | nil => simp
  | cons c rest =>
    have hc : ¬ c.isAlpha = true := by simp [hrest c rfl]
    rw [List.takeWhile_cons_of_neg hc, List.dropWhile_cons_of_neg hc, List.append_nil]
    exact ⟨rfl, rfl⟩

theorem readItem?_closing (tag : Tag) (rest : List Char) :
    readItem? ('<' :: '/' :: (tag.name.toList ++ '>' :: rest)) = some (.closing tag, rest) := by
  obtain ⟨htake, hdrop⟩ := span_name tag ('>' :: rest) (by simp)
  rw [readItem?, readClosing?, htake, hdrop, Tag.ofName?_name]
  rfl

theorem readItem?_opening (tag : Tag) {attributes : Attributes}
    (hnames : ∀ entry ∈ attributes, isAttributeName entry.1 = true) (rest : List Char) :
    readItem? ('<' :: (tag.name.toList ++ (attributeChars attributes ++ '>' :: rest))) =
      some (.opening tag attributes, rest) := by
  have hhead : ∀ c ∈ (attributeChars attributes ++ '>' :: rest).head?, c.isAlpha = false := by
    cases attributes with
    | nil => simp [attributeChars]
    | cons entry attributes =>
      rw [attributeChars_cons entry.1 entry.2]
      simp
  obtain ⟨htake, hdrop⟩ := span_name tag _ hhead
  have hopening : readOpening? (tag.name.toList ++ (attributeChars attributes ++ '>' :: rest)) =
      some (.opening tag attributes, rest) := by
    rw [readOpening?, htake, hdrop, Tag.ofName?_name, readAttributes?_written hnames]
    rfl
  -- the name starts with a letter, so this is no closing tag
  obtain ⟨c, cs, hname, hslash⟩ := tag.exists_cons_name (attributeChars attributes ++ '>' :: rest)
  rw [hname] at hopening ⊢
  simpa [readItem?, hslash] using hopening

mutual

/-- **The parts of what was written are the parts of the tree**, in front of the parts of the
rest. -/
theorem scan_prepend {m : Markup} (h : m.wellNamed = true) (rest : List Char) :
    scan (m.prepend rest) = (scan rest).map (m.items ++ ·) := by
  cases m with
  | element tag attributes children =>
    simp only [wellNamed, Bool.and_eq_true, List.all_eq_true] at h
    obtain ⟨hnames, hchildren⟩ := h
    -- the opening tag, the children and the closing tag are scanned one after the other
    rw [prepend, scan_of_readItem? (readItem?_opening tag hnames _), scan_prependList hchildren,
      scan_of_readItem? (readItem?_closing tag rest), Option.map_map, Option.map_map]
    congr 1
    funext ts
    simp [items]
  | text s =>
    rw [prepend, scan_escape]
    rfl

theorem scan_prependList {ms : List Markup} (h : wellNamedList ms = true) (rest : List Char) :
    scan (prependList ms rest) = (scan rest).map (itemsList ms ++ ·) := by
  cases ms with
  | nil => simp [prependList, itemsList]
  | cons m ms =>
    simp only [wellNamedList, Bool.and_eq_true] at h
    rw [prependList, scan_prepend h.1, scan_prependList h.2, Option.map_map]
    congr 1
    funext ts
    simp [itemsList]

end

/-! ### Putting together what was scanned -/

@[simp] theorem attach_element (tag : Tag) (attributes : Attributes) (children ms : List Markup) :
    attach (element tag attributes children) ms = element tag attributes children :: ms := by
  cases ms <;> rfl

/-- A text in front of a text in front of others. -/
theorem attach_attach (s t : String) (ms : List Markup) :
    attach (text s) (attach (text t) ms) = attach (text (s ++ t)) ms := by
  cases ms with
  -- an empty text in the middle disappears, and the outer ones meet
  | nil => by_cases ht : t = "" <;> simp [attach, ht]
  | cons m ms =>
    cases m with
    | text u => simp [attach, String.append_assoc]
    | element => by_cases ht : t = "" <;> simp [attach, ht]

theorem attach_empty (ms : List Markup) : attach (text "") ms = ms := by
  cases ms with
  | nil => rfl
  | cons m ms => cases m <;> simp [attach]

/-- Characters become a text. -/
theorem foldr_step_characters (cs : List Char) (trees : List Markup)
    (unopened : List (Tag × List Markup)) :
    (cs.map Item.character).foldr step (some (trees, unopened)) =
      some (attach (text (String.ofList cs)) trees, unopened) := by
  induction cs with
  | nil => simp [attach_empty]
  | cons c cs ih =>
    rw [List.map_cons, List.foldr_cons, ih]
    simp only [step, attach_attach]
    simp

mutual

/-- **The parts of a tree are put together to the tree**, in front of what follows.  Tags that are
still open behind it are not touched. -/
theorem foldr_step_items (m : Markup) (trees : List Markup)
    (unopened : List (Tag × List Markup)) :
    m.items.foldr step (some (trees, unopened)) = some (attach m.normalize trees, unopened) := by
  cases m with
  | element tag attributes children =>
    -- from the end: the closing tag opens a new level, which the opening tag closes
    rw [items, List.foldr_cons, List.foldr_append, List.foldr_cons, List.foldr_nil, step,
      foldr_step_itemsList children]
    simp [step, normalize]
  | text s =>
    rw [items, foldr_step_characters, String.ofList_toList]
    rfl

theorem foldr_step_itemsList (ms : List Markup) (unopened : List (Tag × List Markup)) :
    (itemsList ms).foldr step (some ([], unopened)) = some (normalizeList ms, unopened) := by
  cases ms with
  | nil => rfl
  | cons m ms =>
    rw [itemsList, List.foldr_append, foldr_step_itemsList ms, foldr_step_items m]
    rfl

end

/-! ### Normalized trees -/

theorem prependList_attach (m : Markup) (ms : List Markup) (rest : List Char) :
    prependList (attach m ms) rest = prepend m (prependList ms rest) := by
  cases m with
  | element tag attributes children => rw [attach_element, prependList]
  | text s =>
    -- where no text follows, the text is put in front unless it is empty
    have hempty : ∀ ns : List Markup, attach (text s) ns = (if s = "" then ns else text s :: ns) →
        prependList (attach (text s) ns) rest = prepend (text s) (prependList ns rest) := by
      intro ns hns
      rw [hns]
      split
      · rename_i hs
        simp [prepend, hs]
      · rw [prependList]
    cases ms with
    | nil => exact hempty [] rfl
    | cons n ms =>
      cases n with
      | element tag attributes children => exact hempty _ rfl
      | text t => simp [attach, prependList, prepend]

mutual

/-- A normalized tree is written as the tree itself is. -/
theorem prepend_normalize (m : Markup) (rest : List Char) :
    m.normalize.prepend rest = m.prepend rest := by
  cases m with
  | element tag attributes children =>
    rw [normalize, prepend, prepend, prependList_normalizeList children]
  | text s => rfl

theorem prependList_normalizeList (ms : List Markup) (rest : List Char) :
    prependList (normalizeList ms) rest = prependList ms rest := by
  cases ms with
  | nil => rfl
  | cons m ms =>
    rw [normalizeList, prependList_attach, prependList, prependList_normalizeList ms,
      prepend_normalize m]

end

theorem serialize_normalize (m : Markup) : m.normalize.serialize = m.serialize := by
  rw [serialize, chars, prepend_normalize]
  rfl

/-! ### The round trip -/

/-- What was written for an element is decoded to the normalized element. -/
theorem decode_of_wellNamed {m : Markup} (helement : m.isElement = true)
    (hnames : m.wellNamed = true) : decode m.serialize = some m.normalize := by
  have hscan : scan m.serialize.toList = some m.items := by
    rw [serialize, String.toList_ofList, chars, scan_prepend hnames, scan]
    simp
  cases m with
  | text s => cases helement
  | element tag attributes children =>
    rw [decode, hscan, Option.bind_some, assemble, foldr_step_items]
    rfl

/-- **Decoding undoes writing.**  For every element whose attributes have names that can be
read, whatever its texts and the values of its attributes are, what was written is decoded
to the element with its texts merged.  Two such elements are therefore written in the same
way exactly if they are the same up to the division of texts. -/
theorem decode_serialize (m : Markup) (helement : m.isElement = true)
    (hnames : m.wellNamed = true) :
    decode m.serialize = some m.normalize ∧
      ∀ n : Markup, n.isElement = true → n.wellNamed = true →
        (m.serialize = n.serialize ↔ m.normalize = n.normalize) := by
  refine ⟨decode_of_wellNamed helement hnames, fun n hn hnnames => ?_⟩
  constructor
  · -- both are decoded from the same text
    intro hwritten
    have hdecode := decode_of_wellNamed hn hnnames
    rw [← hwritten, decode_of_wellNamed helement hnames] at hdecode
    exact Option.some.inj hdecode
  · intro hnormal
    rw [← serialize_normalize m, hnormal, serialize_normalize]

/-- Texts and values that look like markup stay what they are. -/
theorem decode_serialize_lookalikes :
    wellNamed (element .mrow [("title", "\"><mi>"), ("x", "&quot;")]
      [text "</mrow>", text "", text "&lt;", element .mi [] [text ""], text "\x27"]) = true ∧
    decode (serialize (element .mrow [("title", "\"><mi>"), ("x", "&quot;")]
      [text "</mrow>", text "", text "&lt;", element .mi [] [text ""], text "\x27"])) =
    some (element .mrow [("title", "\"><mi>"), ("x", "&quot;")]
      [text "</mrow>&lt;", element .mi [] [], text "\x27"]) :=
  ⟨by decide, (decode_serialize _ rfl (by decide)).1⟩

end Markup

end MathMarkup
