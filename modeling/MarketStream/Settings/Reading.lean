import MarketStream.Settings
import MarketStream.Settings.Tree

/-!
# Reading loose settings

What a loose tree says as settings. Numbers, truth values and texts stand in for one another where
that makes sense; a section is a table of its fields, or a list of them in order.

* `Tree.unsigned?`, `Tree.truth?`, `Tree.text?`, `Tree.unsignedList?` — the loose readings;
* `ofTree?` — the settings that a tree holds.
-/

namespace MarketStream.Settings

/-- The whole number nearest to a measured one, a half going away from zero, and brought into the
unsigned 64-bit range. -/
def Scale.round : Scale → UInt64
  | .finite x =>
    if x.negative then 0
    else .ofNat (min (Halfway.away.round x.numerator x.denominator) 0xFFFFFFFFFFFFFFFF)
  | .infinite true | .undefined => 0
  | .infinite false => .ofNat 0xFFFFFFFFFFFFFFFF

/-- The text of a measured number. -/
def Scale.write : Scale → List Char
  | .finite x => Layout.plain.write x
  | .infinite true => ['-', 'i', 'n', 'f']
  | .infinite false => ['i', 'n', 'f']
  | .undefined => ['N', 'a', 'N']

/-- An unsigned number spelled with an optional `+`. -/
def unsignedText? (s : String) : Option UInt64 :=
  let digits := match s.toList with
    | '+' :: rest => rest
    | cs => cs
  (Text.natural? digits).bind fun n => if n < 0x10000000000000000 then some (.ofNat n) else none

namespace Tree

/-- A word for a truth value, in any case. -/
def word? (s : String) : Option Bool :=
  let w := lower s
  if w = "true" ∨ w = "on" ∨ w = "yes" then some true
  else if w = "false" ∨ w = "off" ∨ w = "no" then some false
  else none

/-- An unsigned number: a number that is not negative, a measured number rounded, a truth value as
one or zero, or a text that spells one of these. -/
def unsigned? : Tree → Option UInt64
  | .whole n => if 0 ≤ n then some (.ofNat n.toNat) else none
  | .scale x => some x.round
  | .truth b => some (if b then 1 else 0)
  | .text s =>
    match word? s with
    | some b => some (if b then 1 else 0)
    | none => unsignedText? s
  | _ => none

/-- A truth value: a number counts as true unless it is zero. -/
def truth? : Tree → Option Bool
  | .truth b => some b
  | .whole n => some (n != 0)
  | .scale (.finite x) => some (!x.isZero)
  | .scale _ => some true
  | .text s =>
    match word? s with
    | some b => some b
    | none => if s = "1" then some true else if s = "0" then some false else none
  | _ => none

/-- A text, which may be spelled as a truth value or a number. -/
def text? : Tree → Option String
  | .text s => some s
  | .truth b => some (if b then "true" else "false")
  | .whole n => some (String.ofList (Text.integer n))
  | .scale x => some (String.ofList x.write)
  | _ => none

/-- Nothing, or a text. -/
def optionalText? : Tree → Option (Option String)
  | .absent => some none
  | t => t.text?.map some

/-- A list of unsigned numbers. -/
def unsignedList? : Tree → Option (List UInt64)
  | .list ts => ts.mapM unsigned?
  | _ => none

/-- Reads a field of a section, by its name in a table or by its place in a list; a field that is
left out takes its default. -/
def field {α : Type} (t : Tree) (place : Nat) (name : String) (default : α)
    (read : Tree → Option α) : Option α :=
  match t with
  | .table es => ((Entries.find? name es).map read).getD (some default)
  | .list ts => ((ts[place]?).map read).getD (some default)
  | _ => none

end Tree

/-- The security section that a tree holds. -/
def Security.ofTree? (t : Tree) : Option Security := do
  let acceptInvalidCerts ← t.field 0 "accept_invalid_certs" false Tree.truth?
  let acceptInvalidHostnames ← t.field 1 "accept_invalid_hostnames" false Tree.truth?
  let domain ← t.field 2 "domain" none Tree.optionalText?
  return { acceptInvalidCerts, acceptInvalidHostnames, domain }

/-- The reconnect section that a tree holds. -/
def Reconnect.ofTree? (t : Tree) : Option Reconnect := do
  let standard : Reconnect := {}
  let windowSecs ← t.field 0 "window_secs" standard.windowSecs Tree.unsigned?
  let delaysMs ← t.field 1 "delays_ms" standard.delaysMs Tree.unsignedList?
  return { windowSecs, delaysMs }

/-- The heartbeat section that a tree holds. -/
def Heartbeat.ofTree? (t : Tree) : Option Heartbeat := do
  let standard : Heartbeat := {}
  let intervalSecs ← t.field 0 "interval_secs" standard.intervalSecs Tree.unsigned?
  let staleAfterSecs ← t.field 1 "stale_after_secs" standard.staleAfterSecs Tree.unsigned?
  return { intervalSecs, staleAfterSecs }

/-- The settings that a tree holds. -/
def ofTree? (t : Tree) : Option Settings := do
  let security ← t.field 0 "tls" {} Security.ofTree?
  let reconnect ← t.field 1 "reconnect" {} Reconnect.ofTree?
  let heartbeat ← t.field 2 "heartbeat" {} Heartbeat.ofTree?
  let maxInfoEntries ← t.field 3 "max_info_entries" standard.maxInfoEntries Tree.unsigned?
  let requestDeletedOrders ←
    t.field 4 "request_deleted_orders" standard.requestDeletedOrders Tree.truth?
  return { security, reconnect, heartbeat, maxInfoEntries, requestDeletedOrders }

end MarketStream.Settings
