import MarketStream.Settings.Tree
import MarketStream.Text.Numeral

/-!
# Paths into settings

A key such as `reconnect.delays_ms[0]` names a place inside nested tables and lists, in any case.
Setting it creates what is missing on the way. A key that is no path names an entry of the whole
table.

* `Path` — a place; `Path.ofKey` — the place that a key names;
* `Path.set` — the tree with a value at a place.
-/

namespace MarketStream.Settings

/-- A step from a place to one inside it. -/
inductive Path.Step where
  /-- An entry of a table. -/
  | entry (key : String)
  /-- An item of a list, counted from the end if negative. -/
  | item (index : Int)
deriving DecidableEq

/-- A place inside settings: an entry of the whole table, and steps from there. -/
structure Path where
  /-- The entry of the whole table. -/
  root : String
  /-- The steps from there. -/
  steps : List Path.Step
deriving DecidableEq

namespace Path

/-- A character of a name, which may be a space. -/
def isNameChar (c : Char) : Bool := c.isAlphanum || c == ' ' || c == '_' || c == '-'

/-- Space inside brackets. -/
def isPad (c : Char) : Bool := c == ' ' || c == '\t'

/-- The signed 64-bit number between brackets, perhaps padded, without a leading `+`. -/
def index? (cs : List Char) : Option Int :=
  let inner := ((cs.dropWhile isPad).reverse.dropWhile isPad).reverse
  if inner.head? = some '+' then none else (Text.int64? inner).map Int64.toInt

/-- Reads the steps of a path; `fuel` bounds their number. -/
def steps? : (fuel : Nat) → List Char → Option (List Step)
  | _, [] => some []
  | 0, _ => none
  | fuel + 1, '.' :: cs =>
    let name := cs.takeWhile isNameChar
    if name = [] then none
    else (steps? fuel (cs.dropWhile isNameChar)).map (.entry (String.ofList name) :: ·)
  | fuel + 1, '[' :: cs =>
    let inside := cs.takeWhile (· != ']')
    match index? inside, cs.drop inside.length with
    | some n, ']' :: rest => (steps? fuel rest).map (.item n :: ·)
    | _, _ => none
  | _, _ => none

/-- Reads a key as a path. -/
def parse? (key : String) : Option Path :=
  let cs := key.toList
  let name := cs.takeWhile isNameChar
  if name = [] then none
  else (steps? cs.length (cs.dropWhile isNameChar)).map fun steps => ⟨String.ofList name, steps⟩

/-- The place that a key names, in lower case: a path, or else the entry of that very key. -/
def ofKey (key : String) : Path := (parse? (lower key)).getD ⟨lower key, []⟩

/-- The place of an item in a list of the given length. -/
def place (index : Int) (length : Nat) : Int := if 0 ≤ index then index else length + index

/-- Changes the item at an index, lengthening the list at either end as needed. -/
def updateItem (index : Int) (f : Tree → Tree) (ts : List Tree) : List Tree :=
  match place index ts.length with
  | .ofNat i => (ts ++ List.replicate (i + 1 - ts.length) Tree.absent).modify i f
  | .negSucc n => (List.replicate (n + 1) Tree.absent ++ ts).modify 0 f

/-- Sets a value at the end of steps inside a tree. -/
def setAt (value : Tree) : List Step → Tree → Tree
  | [], _ => value
  | [.entry key], t => t.merge key value
  | .entry key :: rest, t =>
    .table (t.entries.set key (setAt value rest ((t.entries.find? key).getD .absent)))
  | .item index :: rest, t => .list (updateItem index (setAt value rest) t.items)

/-- The tree with a value at a place. -/
def set (p : Path) (value : Tree) (t : Tree) : Tree := setAt value (.entry p.root :: p.steps) t

end MarketStream.Settings.Path
