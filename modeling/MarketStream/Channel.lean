import MarketStream.Json.Record

/-!
# Channels

A feed has two channels: the private one carries account events, the public one market data.
-/

namespace MarketStream

/-- One of the two channels of a feed. -/
inductive Channel where
  /-- Orders and own trades. -/
  | «private»
  /-- Prices, depth, indicators and news. -/
  | «public»
deriving DecidableEq, Repr

namespace Channel

/-- Both channels, the private one first. -/
def all : List Channel := [.private, .public]

/-- The name of a channel. -/
def name : Channel → String
  | .private => "private"
  | .public => "public"

/-- The place of a channel among all channels. -/
def index : Channel → Nat
  | .private => 0
  | .public => 1

/-- The channel of a name. -/
def ofName? (name : String) : Option Channel := all.find? fun c => c.name == name

/-- Reads a channel from a delimited text: its name, or a record whose only member has that name
and no value. -/
def read? (input : Json.Input) : Option Channel :=
  match Json.string? input with
  | some name => ofName? name
  | none =>
    match Json.members? input with
    | some [(name, value)] => if Json.isNull value then ofName? name else none
    | _ => none

/-- Reads a channel. -/
def decode? (bytes : Bytes) : Option Channel := (Json.document? bytes).bind read?

end MarketStream.Channel

namespace MarketStream

/-- Something that each channel has one of. -/
structure ByChannel (α : Type) where
  /-- That of the private channel. -/
  «private» : α
  /-- That of the public channel. -/
  «public» : α
deriving DecidableEq

namespace ByChannel

variable {α : Type}

/-- The same for both channels. -/
def both (a : α) : ByChannel α := ⟨a, a⟩

/-- That of a channel. -/
def get (t : ByChannel α) : Channel → α
  | .private => t.private
  | .public => t.public

/-- Replaces that of a channel. -/
def set (t : ByChannel α) (c : Channel) (a : α) : ByChannel α :=
  match c with
  | .private => { t with «private» := a }
  | .public => { t with «public» := a }

/-- What was set is there. -/
@[simp] theorem get_set_self (t : ByChannel α) (c : Channel) (a : α) : (t.set c a).get c = a := by
  cases c <;> rfl

/-- Setting that of one channel leaves the other alone. -/
theorem get_set_ne (t : ByChannel α) {c d : Channel} (a : α) (h : d ≠ c) :
    (t.set c a).get d = t.get d := by
  cases c <;> cases d <;> first | rfl | exact absurd rfl h

end MarketStream.ByChannel
