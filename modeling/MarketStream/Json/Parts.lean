import MarketStream.Json.Extent
import MarketStream.Json.Quoted

/-!
# The parts of a delimited value

Once a value has been delimited its parts can be cut out one after another: the items of a list,
the keys and values of a record, the text of a string.

* `string?` — the text of a string;
* `items?` — the extents of the items of a list;
* `members?` — the keys of a record with the extents of their values.
-/

namespace MarketStream.Json

/-- The text of a delimited string. A stray byte or an unpaired surrogate makes it unreadable. -/
def string? : Input → Option String
  | some '"' :: rest => (Glyph.chars? rest.dropLast).bind unescape
  | _ => none

/-- The items from a value on, `seen` being those before it, last first. -/
def itemsFrom (seen : List Input) : (fuel : Nat) → Input → Option (List Input)
  | 0, _ => none
  | fuel + 1, input =>
    match extent? input with
    | none => none
    | some (item, rest) =>
      match dropSpace rest with
      | some ',' :: rest => itemsFrom (item :: seen) fuel rest
      | some ']' :: _ => some (item :: seen).reverse
      | _ => none

/-- The extents of the items of a delimited list. -/
def items? : Input → Option (List Input)
  | some '[' :: rest =>
    match dropSpace rest with
    | some ']' :: _ => some []
    | rest => itemsFrom [] rest.length rest
  | _ => none

/-- The members from a key on, `seen` being those before it, last first. -/
def membersFrom (seen : List (String × Input)) :
    (fuel : Nat) → Input → Option (List (String × Input))
  | 0, _ => none
  | fuel + 1, input =>
    match extent? input with
    | none => none
    | some (name, rest) =>
      match string? name, dropSpace rest with
      | some key, some ':' :: rest =>
        match extent? rest with
        | none => none
        | some (value, rest) =>
          match dropSpace rest with
          | some ',' :: rest => membersFrom ((key, value) :: seen) fuel rest
          | some '}' :: _ => some ((key, value) :: seen).reverse
          | _ => none
      | _, _ => none

/-- The keys of a delimited record, in the order of the text, with the extents of their values. -/
def members? : Input → Option (List (String × Input))
  | some '{' :: rest =>
    match dropSpace rest with
    | some '}' :: _ => some []
    | rest => membersFrom [] rest.length rest
  | _ => none

end MarketStream.Json
