/-!
# Kinds of frames

A frame names its kind. The kinds that mean something here have a constructor each; any other name
is kept as it came, so naming a kind and reading the name back loses nothing.
-/

namespace MarketStream.Frame

/-- What a frame is about. -/
inductive Kind where
  /-- A price tick. -/
  | price
  /-- The depth of an order book. -/
  | depth
  /-- A trade. -/
  | trade
  /-- An update of an own order. -/
  | order
  /-- A value of an index or indicator. -/
  | indicator
  /-- A news item. -/
  | news
  /-- Whether an instrument can be traded. -/
  | tradingStatus
  /-- A keep-alive. -/
  | heartbeat
  /-- A kind unknown here, by its name. -/
  | other (name : String)
deriving DecidableEq

namespace Kind

/-- The name of a kind. -/
def name : Kind → String
  | .price => "price"
  | .depth => "depth"
  | .trade => "trade"
  | .order => "order"
  | .indicator => "indicator"
  | .news => "news"
  | .tradingStatus => "trading_status"
  | .heartbeat => "heartbeat"
  | .other name => name

/-- The kind of a name. -/
def ofName (name : String) : Kind :=
  if name = "price" then .price
  else if name = "depth" then .depth
  else if name = "trade" then .trade
  else if name = "order" then .order
  else if name = "indicator" then .indicator
  else if name = "news" then .news
  else if name = "trading_status" then .tradingStatus
  else if name = "heartbeat" then .heartbeat
  else .other name

/-- A kind that means something here. -/
def isKnown : Kind → Bool
  | .other _ => false
  | _ => true

/-- The kind of a name has that name. -/
theorem name_ofName (s : String) : (ofName s).name = s := by
  unfold ofName
  repeat' split
  all_goals first | rfl | (subst_vars; rfl)

end MarketStream.Frame.Kind
