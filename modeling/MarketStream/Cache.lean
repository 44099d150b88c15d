import MarketStream.Frame
import MarketStream.StreamKey

/-!
# The cache of snapshots

Payloads are sparse: a field that an update leaves out keeps its value. The cache holds the merged
payload of every stream, under its key, and of every order, under its account and number.

* `Snapshot` — a merged payload; `Snapshot.update` — one more payload;
* `Cache` — all of them; `Cache.merge`, `Cache.mergeOrder` — one more frame;
* `Cache.get?`, `Cache.orders`, `Cache.snapshots`, `Cache.summary` — what can be asked.
-/

namespace MarketStream

/-- A merged payload, by field. -/
abbrev Snapshot := Json.Members

/-- The snapshot after an update: its fields replace those of the same name. -/
def Snapshot.update (s : Snapshot) (u : Json.Members) : Snapshot :=
  u.foldl (fun s (name, value) => Json.Members.insert name value s) s

/-- Snapshots by key, each key once, in the order in which they first appeared. -/
abbrev Filed (κ : Type) := List (κ × Snapshot)

namespace Filed

variable {κ : Type} [DecidableEq κ]

/-- The snapshot under a key. -/
def find? (key : κ) (filed : Filed κ) : Option Snapshot := filed.lookup key

/-- Merges an update into the snapshot of a key, or files it as the first. -/
def put (key : κ) (u : Json.Members) : Filed κ → Filed κ
  | [] => [(key, u)]
  | (k, s) :: rest => if k = key then (k, s.update u) :: rest else (k, s) :: put key u rest

end Filed

/-- The merged payloads of streams and orders. -/
structure Cache where
  /-- The snapshots of streams. -/
  streams : Filed StreamKey
  /-- The snapshots of orders, under account and number. -/
  orders : Filed String

namespace Cache

/-- A cache that holds nothing. -/
def empty : Cache := ⟨[], []⟩

/-- The frame to pass on: the frame as it came if its payload was the first of its key, else the
merged payload under the same kind and sequence number. -/
def passOn (f : Frame) (before : Option Snapshot) (u : Json.Members) : Frame :=
  match before with
  | none => f
  | some s => (Frame.ofValue f.kindName (.object (s.update u))).withSeq f.seq

/-- Merges the payload of a frame into the snapshot of its stream. -/
def merge (c : Cache) (f : Frame) : Except Fault (Cache × Frame) :=
  match f.members? with
  | none => .error .unreadable
  | some u =>
    let key := StreamKey.ofPayload f.kindName u
    .ok ({ c with streams := Filed.put key u c.streams }, passOn f (Filed.find? key c.streams) u)

/-- The text of a field that has to be there. -/
def fieldText (u : Json.Members) (name : String) : Except Fault String :=
  match u.find? name with
  | none | some .null => .error (.missingField name)
  | some (.string s) => .ok s
  | some other => .ok other.text

/-- The key of an order: its account and its number with a colon between. -/
def orderKey (u : Json.Members) : Except Fault String :=
  match fieldText u "accno", fieldText u "order_id" with
  | .ok account, .ok number => .ok (account ++ ":" ++ number)
  | .error e, _ => .error e
  | _, .error e => .error e

/-- Merges the payload of a frame into the snapshot of its order. -/
def mergeOrder (c : Cache) (f : Frame) : Except Fault (Cache × Frame) :=
  match f.members? with
  | none => .error .unreadable
  | some u =>
    match orderKey u with
    | .error e => .error e
    | .ok key =>
      .ok ({ c with orders := Filed.put key u c.orders }, passOn f (Filed.find? key c.orders) u)

/-- The snapshot of a stream. -/
def get? (c : Cache) (key : StreamKey) : Option Snapshot := Filed.find? key.stateKey c.streams

/-- The snapshots of orders, in the order of their keys. -/
def orderList (c : Cache) : List Snapshot :=
  (c.orders.mergeSort fun a b => decide (a.1 ≤ b.1)).map Prod.snd

/-- The streams of an instrument and a market, where absent filters admit all, in the order in
which their keys are displayed. -/
def matching (c : Cache) (identifier market : Option String) : Filed StreamKey :=
  (c.streams.filter fun (key, _) =>
    identifier.all (· == key.identifier) && market.all (· == key.market)).mergeSort
    fun a b => decide (a.1.display ≤ b.1.display)

/-- The matching snapshots, each with the kind of its stream. -/
def snapshots (c : Cache) (identifier market : Option String) : List (String × Snapshot) :=
  (c.matching identifier market).map fun (key, s) => (key.kindName, s)

/-! ## Counting -/

/-- How much the cache holds. -/
structure Summary where
  /-- The number of streams of each kind that has any, in the order of the kinds. -/
  streams : List (String × Nat)
  /-- The number of orders. -/
  orders : Nat
deriving DecidableEq

/-- Counts one more stream of a kind. -/
def tally (kindName : String) : List (String × Nat) → List (String × Nat)
  | [] => [(kindName, 1)]
  | (k, n) :: rest =>
    if kindName = k then (k, n + 1) :: rest
    else if kindName < k then (kindName, 1) :: (k, n) :: rest
    else (k, n) :: tally kindName rest

/-- How much the cache holds. -/
def summary (c : Cache) : Summary :=
  ⟨c.streams.foldl (fun counts (key, _) => tally key.kindName counts) [], c.orders.length⟩

namespace Summary

/-- The text of a count. -/
def writeCounts (counts : List (String × Nat)) : List Char :=
  Json.record (counts.map fun (k, n) => (k, Text.natural n))

/-- The text of a summary. -/
def write (s : Summary) : List Char :=
  Json.record [("snapshots", writeCounts s.streams), ("orders", Text.natural s.orders)]

end Summary

end MarketStream.Cache
