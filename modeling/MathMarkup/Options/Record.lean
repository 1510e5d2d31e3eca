import MathMarkup.Options
import MathMarkup.Json.Number
import MathMarkup.Json.Parser

/-!
# Option records

Options can be given as a JSON record: an object with named options, or an array
with the options in their fixed order.  Options that are missing or null are left
open, unknown ones are passed over, and one that is given twice is an error.

## Main definitions

* `OptionRecord.names` — the names of the options, in their fixed order.
* `OptionRecord.ofJson?` — the options a value gives, by name.
* `Options.ofJson`, `Options.ofText` — the options of a record.
-/

namespace MathMarkup

/-- Options by name. -/
abbrev OptionRecord := List (String × Json)

namespace OptionRecord

/-- The names of the options, in their fixed order. -/
def names : List String :=
  ["displayMode", "annotate", "leqno", "errorColor", "preventTagLap", "macros", "xml",
    "colorIsTextColor", "strict", "trust", "maxSize", "maxExpand"]

/-- The known options among named values.  No name may be unreadable, and no
known option may be given twice. -/
def ofFields? : List (Option String × Json) → Option OptionRecord
  | [] => some []
  | (none, _) :: _ => none
  | (some name, value) :: rest => do
      let record ← ofFields? rest
      if names.contains name then
        if (record.lookup name).isSome then none else some ((name, value) :: record)
      else some record

/-- The options a value gives: by name in an object, by position in an array that
is not too long. -/
def ofJson? : Json → Option OptionRecord
  | .object fields => ofFields? fields
  | .array items => if items.length ≤ names.length then some (names.zip items) else none
  | _ => none

/-- The value of an option, read as the option demands; nothing if it is missing
or null. -/
def get? {α : Type} (record : OptionRecord) (name : String) (read : Json → Option α) :
    Option (Option α) :=
  match record.lookup name with
  | none | some .null => some none
  | some value => (read value).map some

/-- A table of macros; of two with the same name the later one counts. -/
def macros? : Json → Option MacroTable
  | .object fields =>
      fields.foldlM (fun table (name, value) => do
        return MacroTable.insert table (← name) (← value.string?)) []
  | _ => none

/-- A strict policy as it is written: a truth value or a tag. -/
def strictness? : Json → Option (Except String Strictness)
  | .bool strict => some (.ok (.flag strict))
  | .string (some tag) =>
      some (match StrictMode.ofTag? tag with
        | some mode => .ok (.mode mode)
        | none => .error tag)
  | _ => none

/-- A double. -/
def float? : Json → Option Float
  | .number n => n.float?
  | _ => none

/-- An integer. -/
def int? : Json → Option Int
  | .number n => n.int64?
  | _ => none

/-- The choices that a record makes, the strict policy aside, and that policy as
it is written. -/
def choices? (record : OptionRecord) :
    Option (Choices × Option (Except String Strictness)) := do
  let strict ← record.get? "strict" strictness?
  let choices : Choices :=
    { displayMode := ← record.get? "displayMode" Json.bool?
      annotate := ← record.get? "annotate" Json.bool?
      leqno := ← record.get? "leqno" Json.bool?
      errorColor := ← record.get? "errorColor" Json.string?
      preventTagLap := ← record.get? "preventTagLap" Json.bool?
      macros := ← record.get? "macros" macros?
      xml := ← record.get? "xml" Json.bool?
      colorIsTextColor := ← record.get? "colorIsTextColor" Json.bool?
      trust := (← record.get? "trust" Json.bool?).map Trust.flag
      maxSize := ← record.get? "maxSize" float?
      maxExpand := ← record.get? "maxExpand" int? }
  return (choices, strict)

end OptionRecord

namespace Options

/-- The options that a record gives.  A tag that no strict mode has is found only
in a record that is otherwise right. -/
def ofJson (value : Json) : Except CompileError Options :=
  match (OptionRecord.ofJson? value).bind OptionRecord.choices? with
  | none => .error ⟨.invalidOptions, none⟩
  | some (choices, none) => .ok (ofChoices choices)
  | some (choices, some (.ok strict)) => .ok (ofChoices { choices with strict := some strict })
  | some (_, some (.error _)) => .error ⟨.unknownTag, none⟩

/-- The options that the text of a record gives. -/
def ofText (text : String) : Except CompileError Options :=
  match Json.parse? text with
  | none => .error ⟨.invalidOptions, none⟩
  | some value => ofJson value

end Options

end MathMarkup
