import MarketStream.Settings.Path
import MarketStream.Settings.Reading

/-!
# Where settings come from

Settings are read from a text or a file, and variables of the environment override them. The name
of a variable is a path under the mark `FEED_`, with `__` between the parts.

* `gather` — puts settings from one source over those gathered so far;
* `ofText`, `ofFile` — the settings of a text, and of a file under an environment.
-/

namespace MarketStream.Settings

/-- Puts values at the places their keys name, one after another. -/
def gather (t : Tree) (values : List (String × Tree)) : Tree :=
  values.foldl (fun t (key, value) => (Path.ofKey key).set value t) t

/-- What a text says: the entries of a JSON object. -/
def textEntries? (bytes : Bytes) : Option (List (String × Tree)) :=
  match Json.decode? bytes with
  | some (.object ms) => some (Tree.ofMembers ms)
  | _ => none

/-! ## The environment -/

/-- What the names of variables start with, in lower case. -/
def variableMark : List Char := ['f', 'e', 'e', 'd', '_']

/-- A name with every `__` turned into a point, from the left. -/
def dotted : List Char → List Char
  | '_' :: '_' :: rest => '.' :: dotted rest
  | c :: rest => c :: dotted rest
  | [] => []

/-- Reads the digits of a measured number: digits with a point somewhere or nowhere, and perhaps an
exponent. -/
def decimalScale? (negative : Bool) (cs : List Char) : Option Scale :=
  let whole := cs.takeWhile Char.isDigit
  let (fraction, rest) := match cs.dropWhile Char.isDigit with
    | '.' :: rest => (rest.takeWhile Char.isDigit, rest.dropWhile Char.isDigit)
    | rest => ([], rest)
  if whole = [] ∧ fraction = [] then none
  else
    (Json.Numeral.exponent? rest).map fun exponent =>
      match Binary64.ofDecimal? negative (Text.digitsValue (whole ++ fraction))
        (exponent.getD 0 - fraction.length) with
      | some x => .finite x
      | none => .infinite negative

/-- Reads a measured number without its sign. -/
def unsignedScale? (negative : Bool) (cs : List Char) : Option Scale :=
  let word := cs.map Char.toLower
  if word = ['i', 'n', 'f'] ∨ word = ['i', 'n', 'f', 'i', 'n', 'i', 't', 'y'] then
    some (.infinite negative)
  else if word = ['n', 'a', 'n'] then some .undefined
  else decimalScale? negative cs

/-- Reads a measured number. -/
def scale? : List Char → Option Scale
  | '+' :: cs => unsignedScale? false cs
  | '-' :: cs => unsignedScale? true cs
  | cs => unsignedScale? false cs

/-- What the text of a variable stands for: a truth value, a number, or itself. -/
def variableValue (s : String) : Tree :=
  if lower s = "true" then .truth true
  else if lower s = "false" then .truth false
  else
    match Text.int64? s.toList with
    | some n => .whole n.toInt
    | none =>
      match scale? s.toList with
      | some x => .scale x
      | none => .text s

/-- The key that a variable sets, if it is one of ours. -/
def variableKey? (name : String) : Option String :=
  let cs := (lower name).toList
  if variableMark.isPrefixOf cs then
    some (String.ofList (dotted (cs.drop variableMark.length)))
  else none

/-- What the variables of an environment say. -/
def variableEntries (environment : List (String × String)) : List (String × Tree) :=
  environment.filterMap fun (name, value) =>
    (variableKey? name).map fun key => (key, variableValue value)

/-! ## Loading -/

/-- The settings of gathered values, if they can be read and used. -/
def ofEntries (values : List (String × Tree)) : Except Fault Settings :=
  match ofTree? (gather (.table []) values) with
  | some s => s.validate
  | none => .error .unreadableSettings

/-- The settings of a text. -/
def ofText (bytes : Bytes) : Except Fault Settings :=
  match textEntries? bytes with
  | some values => ofEntries values
  | none => .error .unreadableSettings

/-- What the names of files with settings end in. -/
def fileMark : List Char := ['.', 'j', 's', 'o', 'n']

/-- The name of a file, the last part of its path, has something before its ending. -/
def isSettingsName (name : String) : Bool :=
  let cs := (name.toList.reverse.takeWhile (· != '/')).reverse
  fileMark.isSuffixOf cs && decide (fileMark.length < cs.length)

/-- The settings of a file under an environment, whose variables win. -/
def ofFile (name : String) (content : Option Bytes) (environment : List (String × String)) :
    Except Fault Settings :=
  match content with
  | none => .error .unreadableSettings
  | some bytes =>
    if isSettingsName name then
      match textEntries? bytes with
      | some values => ofEntries (values ++ variableEntries environment)
      | none => .error .unreadableSettings
    else .error .unreadableSettings

end MarketStream.Settings
