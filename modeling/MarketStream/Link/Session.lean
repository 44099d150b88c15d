import MarketStream.Channel

/-!
# Sessions

Before a link is dialled, someone has to say under which key and to which address. Fixed
credentials say the same every time.
-/

namespace MarketStream.Link

/-- Under which key and to which address to dial. -/
structure Session where
  /-- The key sent at login. -/
  key : String
  /-- The address to dial. -/
  address : String
deriving DecidableEq

/-- Credentials that do not change. -/
structure Credentials where
  /-- The key for both channels. -/
  key : String
  /-- The addresses of the channels. -/
  addresses : ByChannel String

/-- The session of a channel under fixed credentials. -/
def Credentials.session (c : Credentials) (channel : Channel) : Session :=
  ⟨c.key, c.addresses.get channel⟩

end MarketStream.Link
