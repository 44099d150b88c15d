import MarketStream.Json.Reader

/-!
# Loose settings

Settings that people write by hand are read more loosely than those that programs exchange. They
are gathered from several sources into one tree, whose tables are keyed in lower case and merged
deeply.

* `Tree` — gathered settings; `Scale` — a measured number, which may be out of range;
* `Tree.merge` — puts a value under a key of a table;
* `Tree.ofJson` — the tree of a JSON value.
-/

namespace MarketStream.Settings

/-- A measured number as settings may spell it. -/
inductive Scale where
  /-- A number in range. -/
  | finite (x : Binary64)
  /-- A number out of range. -/
  | infinite (negative : Bool)
  /-- No number. -/
  | undefined
deriving DecidableEq

/-- Gathered settings. -/
inductive Tree where
  /-- Nothing. -/
  | absent
  /-- A truth value. -/
  | truth (b : Bool)
  /-- A signed 64-bit number. -/
  | whole (n : Int)
  /-- A measured number. -/
  | scale (x : Scale)
  /-- A text. -/
  | text (s : String)
  /-- A list. -/
  | list (items : List Tree)
  /-- A table, each key once. -/
  | table (entries : List (String × Tree))

instance : Inhabited Tree := ⟨.absent⟩

/-- A letter in lower case. Of the letters beyond ASCII only the Kelvin sign becomes one that a name
may hold. -/
def lowerLetter (c : Char) : Char := if c = '\u212a' then 'k' else c.toLower

/-- A key in lower case. -/
def lower (s : String) : String := String.ofList (s.toList.map lowerLetter)

/-- The tables of settings, each key once. -/
abbrev Entries := List (String × Tree)

namespace Entries

/-- The value under a key. -/
def find? (key : String) (es : Entries) : Option Tree := es.lookup key

/-- Sets the value under a key. -/
def set (key : String) (value : Tree) : Entries → Entries
  | [] => [(key, value)]
  | (k, v) :: rest => if k = key then (key, value) :: rest else (k, v) :: set key value rest

end Entries

namespace Tree

/-- The entries of a table; anything else has none. -/
def entries : Tree → Entries
  | .table es => es
  | _ => []

/-- The items of a list; anything else has none. -/
def items : Tree → List Tree
  | .list ts => ts
  | _ => []

mutual
/-- Puts a value under a key of a tree, which becomes a table if it is none. A table is merged
into the value that is there, anything else replaces it. -/
def merge (target : Tree) (key : String) : Tree → Tree
  | .table es =>
    let slot := lower key
    let inner := ((target.entries.find? slot).getD (.table []))
    .table (target.entries.set slot (mergeAll inner es))
  | value => .table (target.entries.set (lower key) value)

/-- Puts values under keys, one after another. -/
def mergeAll (target : Tree) : List (String × Tree) → Tree
  | [] => target
  | (key, value) :: rest => mergeAll (merge target key value) rest
end

mutual
/-- The tree of a JSON value. A whole number beyond the signed range is taken as measured. -/
def ofJson : Json.Value → Tree
  | .null => .absent
  | .bool b => .truth b
  | .integer n =>
    if n.val ≤ Int64.maxValue.toInt then .whole n.val
    else .scale (((Binary64.ofInt? n.val).map .finite).getD .undefined)
  | .float x => .scale (.finite x)
  | .string s => .text s
  | .array vs => .list (ofItems vs)
  | .object ms => .table (ofMembers ms)

/-- The trees of items. -/
def ofItems : List Json.Value → List Tree
  | [] => []
  | v :: rest => ofJson v :: ofItems rest

/-- The keys of members with the trees of their values. -/
def ofMembers : List (String × Json.Value) → List (String × Tree)
  | [] => []
  | (key, v) :: rest => (key, ofJson v) :: ofMembers rest
end

end MarketStream.Settings.Tree
