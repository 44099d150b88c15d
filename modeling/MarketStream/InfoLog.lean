import MarketStream.Json.Value

/-!
# The info log

What a status report tells besides the state of the cache: entries that callers set, and the last
errors. Errors are kept up to a limit, the oldest being dropped first; entries of callers stay.

* `InfoLog` — the log; `InfoLog.set` — an entry of a caller; `InfoLog.record` — an error.
-/

namespace MarketStream

/-- Entries of callers, and the last errors. -/
structure InfoLog where
  /-- All entries, by key. -/
  entries : Json.Members
  /-- The keys of the errors, oldest first. -/
  errorKeys : List String

namespace InfoLog

/-- An empty log. -/
def empty : InfoLog := ⟨[], []⟩

/-- Members without a key. -/
def without (key : String) (ms : Json.Members) : Json.Members := ms.filter fun m => m.1 != key

/-- Sets an entry of a caller. -/
def set (l : InfoLog) (key : String) (value : Json.Value) : InfoLog :=
  { l with entries := l.entries.insert key value }

/-- Drops the oldest errors beyond a limit. -/
def trim (limit : Nat) (l : InfoLog) : InfoLog :=
  let excess := l.errorKeys.take (l.errorKeys.length - limit)
  ⟨excess.foldl (fun ms key => without key ms) l.entries,
    l.errorKeys.drop (l.errorKeys.length - limit)⟩

/-- Records an error under a key. A key that is in use only gets the new text. -/
def record (l : InfoLog) (limit : Nat) (key text : String) : InfoLog :=
  let isNew := (Json.Members.find? key l.entries).isNone
  trim limit ⟨l.entries.insert key (.string text),
    if isNew then l.errorKeys ++ [key] else l.errorKeys⟩

/-- The texts of the errors with their keys, oldest first. -/
def errors (l : InfoLog) : List (String × Json.Value) :=
  l.errorKeys.filterMap fun key => (Json.Members.find? key l.entries).map fun v => (key, v)

/-- The entries of callers. -/
def notes (l : InfoLog) : Json.Members := l.entries.filter fun m => !l.errorKeys.contains m.1

end MarketStream.InfoLog
