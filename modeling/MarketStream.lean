import MarketStream.Aggregator
import MarketStream.Aggregator.Admin
import MarketStream.Aggregator.Status
import MarketStream.Bus.Envelope
import MarketStream.Bus.Exchange
import MarketStream.Bus.Mailroom
import MarketStream.Bus.Requester
import MarketStream.Bus.Responder
import MarketStream.Bus.Segments
import MarketStream.Bus.Station
import MarketStream.Cache
import MarketStream.Channel
import MarketStream.Command
import MarketStream.Consumer
import MarketStream.Decimal.Binary64
import MarketStream.Decimal.Fixed
import MarketStream.Decimal.Scaling
import MarketStream.Decimal.Shortest
import MarketStream.Desk
import MarketStream.Desk.Alarms
import MarketStream.Fault
import MarketStream.Frame
import MarketStream.Frame.Kind
import MarketStream.Indicator
import MarketStream.InfoLog
import MarketStream.Json.Extent
import MarketStream.Json.Number
import MarketStream.Json.Parts
import MarketStream.Json.Quoted
import MarketStream.Json.Reader
import MarketStream.Json.Record
import MarketStream.Json.Sparse
import MarketStream.Json.Value
import MarketStream.Json.Writer
import MarketStream.Link.Backoff
import MarketStream.Link.Connection
import MarketStream.Link.Greeter
import MarketStream.Link.Inbound
import MarketStream.Link.Line
import MarketStream.Link.Session
import MarketStream.Link.Timeline
import MarketStream.Liveness
import MarketStream.Quote
import MarketStream.Quote.History
import MarketStream.Quote.Selector
import MarketStream.Registry
import MarketStream.Reorder.DelayWindow
import MarketStream.Reorder.Sequencer
import MarketStream.Settings
import MarketStream.Settings.Path
import MarketStream.Settings.Reading
import MarketStream.Settings.Source
import MarketStream.Settings.Tree
import MarketStream.StreamKey
import MarketStream.Text.Base64
import MarketStream.Text.Blank
import MarketStream.Text.Numeral
import MarketStream.Text.Utf8
import MarketStream.Trade
import MarketStream.Trade.Detector
import MarketStream.Proofs.Aggregator.Refusals
import MarketStream.Proofs.Aggregator.Remarks
import MarketStream.Proofs.Aggregator.RoundTrip
import MarketStream.Proofs.Bus.Answers
import MarketStream.Proofs.Bus.Boundaries
import MarketStream.Proofs.Bus.Callers
import MarketStream.Proofs.Bus.Completion
import MarketStream.Proofs.Bus.Deliveries
import MarketStream.Proofs.Bus.Envelope
import MarketStream.Proofs.Bus.Failure
import MarketStream.Proofs.Bus.Mailroom
import MarketStream.Proofs.Bus.Office
import MarketStream.Proofs.Bus.Outstanding
import MarketStream.Proofs.Bus.Reassembly
import MarketStream.Proofs.Bus.Requester
import MarketStream.Proofs.Bus.Splitting
import MarketStream.Proofs.Bus.Standing
import MarketStream.Proofs.Bus.Stations
import MarketStream.Proofs.Bus.Traffic
import MarketStream.Proofs.Cache.Belonging
import MarketStream.Proofs.Cache.Finding
import MarketStream.Proofs.Cache.LastWrite
import MarketStream.Proofs.Cache.Listing
import MarketStream.Proofs.Cache.Republish
import MarketStream.Proofs.Cache.Separation
import MarketStream.Proofs.Command.RoundTrip
import MarketStream.Proofs.Decimal.Comparison
import MarketStream.Proofs.Decimal.Rounding
import MarketStream.Proofs.Decimal.Scaling
import MarketStream.Proofs.Decimal.Shortest
import MarketStream.Proofs.Desk.Clock
import MarketStream.Proofs.Desk.Probing
import MarketStream.Proofs.Desk.Silence
import MarketStream.Proofs.Desk.Watch
import MarketStream.Proofs.Frame.RoundTrip
import MarketStream.Proofs.Indicator.Buckets
import MarketStream.Proofs.Json.Columns
import MarketStream.Proofs.Json.Embedding
import MarketStream.Proofs.Json.Extent
import MarketStream.Proofs.Json.Float
import MarketStream.Proofs.Json.Members
import MarketStream.Proofs.Json.Nesting
import MarketStream.Proofs.Json.Number
import MarketStream.Proofs.Json.Printable
import MarketStream.Proofs.Json.Quoted
import MarketStream.Proofs.Json.Reading
import MarketStream.Proofs.Json.Record
import MarketStream.Proofs.Json.Scalar
import MarketStream.Proofs.Json.Spacing
import MarketStream.Proofs.Json.Value
import MarketStream.Proofs.Link.Course
import MarketStream.Proofs.Link.Framing
import MarketStream.Proofs.Link.Greeting
import MarketStream.Proofs.Link.Layout
import MarketStream.Proofs.Link.Lines
import MarketStream.Proofs.Link.Moves
import MarketStream.Proofs.Link.Report
import MarketStream.Proofs.Link.Run
import MarketStream.Proofs.Link.Stream
import MarketStream.Proofs.Link.Windows
import MarketStream.Proofs.Lookup
import MarketStream.Proofs.Quote.Forgotten
import MarketStream.Proofs.Quote.LastTrades
import MarketStream.Proofs.Quote.Newest
import MarketStream.Proofs.Quote.Pipeline
import MarketStream.Proofs.Quote.RoundTrip
import MarketStream.Proofs.Registry.Arguments
import MarketStream.Proofs.Registry.Crossing
import MarketStream.Proofs.Registry.Entries
import MarketStream.Proofs.Registry.Errands
import MarketStream.Proofs.Registry.Replay
import MarketStream.Proofs.Registry.Requests
import MarketStream.Proofs.Registry.View
import MarketStream.Proofs.Reorder.EventTime
import MarketStream.Proofs.Reorder.Flow
import MarketStream.Proofs.Reorder.Front
import MarketStream.Proofs.Reorder.Holding
import MarketStream.Proofs.Reorder.Lanes
import MarketStream.Proofs.Reorder.Loss
import MarketStream.Proofs.Reorder.Release
import MarketStream.Proofs.Reorder.Restore
import MarketStream.Proofs.Reorder.Rising
import MarketStream.Proofs.Reorder.Runs
import MarketStream.Proofs.Reorder.Waiting
import MarketStream.Proofs.Reorder.Window
import MarketStream.Proofs.Settings.RoundTrip
import MarketStream.Proofs.StableOrder
import MarketStream.Proofs.Text.Base64
import MarketStream.Proofs.Text.Glyphs
import MarketStream.Proofs.Text.Numeral
import MarketStream.Proofs.Trade.Accounting
import MarketStream.Proofs.Trade.Agreement
import MarketStream.Proofs.Trade.IdNumber
