import Takeaway.Command.Basic
import Takeaway.Command.Router
import Takeaway.Coverage
import Takeaway.Desk
import Takeaway.Double
import Takeaway.Engine.Basic
import Takeaway.Engine.Session
import Takeaway.Fault
import Takeaway.Flow
import Takeaway.Http.Api
import Takeaway.Http.Basic
import Takeaway.Http.MediaType
import Takeaway.Http.Target
import Takeaway.Index
import Takeaway.Json.Decode
import Takeaway.Json.Doc
import Takeaway.Json.Token
import Takeaway.Json.Value
import Takeaway.Kitchen
import Takeaway.Menu
import Takeaway.Message.Broker
import Takeaway.Message.Envelope
import Takeaway.Message.Event
import Takeaway.Message.Failure
import Takeaway.Message.Intake
import Takeaway.Message.Payload
import Takeaway.Message.Pool
import Takeaway.Message.Retry
import Takeaway.Message.Subscription
import Takeaway.Metrics
import Takeaway.Order.Basic
import Takeaway.Order.Document
import Takeaway.Order.Item
import Takeaway.Order.Number
import Takeaway.Order.Refusal
import Takeaway.Order.Status
import Takeaway.Proofs.Acceptance
import Takeaway.Proofs.Agreement
import Takeaway.Proofs.Arrivals
import Takeaway.Proofs.Command.Fanout
import Takeaway.Proofs.Command.Foresight
import Takeaway.Proofs.Command.Handling
import Takeaway.Proofs.Command.Returning
import Takeaway.Proofs.Command.Running
import Takeaway.Proofs.Command.Siblings
import Takeaway.Proofs.Conduct
import Takeaway.Proofs.Conservation
import Takeaway.Proofs.Contracts
import Takeaway.Proofs.Cover
import Takeaway.Proofs.Coverage.Actions
import Takeaway.Proofs.Coverage.Additions
import Takeaway.Proofs.Coverage.Attempts
import Takeaway.Proofs.Coverage.Conduct
import Takeaway.Proofs.Coverage.Exact
import Takeaway.Proofs.Coverage.Failure
import Takeaway.Proofs.Coverage.Fair
import Takeaway.Proofs.Coverage.Fill
import Takeaway.Proofs.Coverage.Handing
import Takeaway.Proofs.Coverage.InTurn
import Takeaway.Proofs.Coverage.LowestFirst
import Takeaway.Proofs.Coverage.Pass
import Takeaway.Proofs.Coverage.Requests
import Takeaway.Proofs.Coverage.Rounds
import Takeaway.Proofs.Coverage.Run
import Takeaway.Proofs.Coverage.Sweep
import Takeaway.Proofs.Coverage.Tour
import Takeaway.Proofs.Coverage.Visits
import Takeaway.Proofs.Crowd
import Takeaway.Proofs.Delivery
import Takeaway.Proofs.Desk
import Takeaway.Proofs.Duty
import Takeaway.Proofs.Engine.Arrivals
import Takeaway.Proofs.Engine.Ceasing
import Takeaway.Proofs.Engine.Conduct
import Takeaway.Proofs.Engine.EachItem
import Takeaway.Proofs.Engine.Failure
import Takeaway.Proofs.Engine.Fair
import Takeaway.Proofs.Engine.Job
import Takeaway.Proofs.Engine.Run
import Takeaway.Proofs.Flow.Anyhow
import Takeaway.Proofs.Flow.Calls
import Takeaway.Proofs.Flow.Ceasing
import Takeaway.Proofs.Flow.Deeds
import Takeaway.Proofs.Flow.Delivered
import Takeaway.Proofs.Flow.Does
import Takeaway.Proofs.Flow.Each
import Takeaway.Proofs.Flow.Ends
import Takeaway.Proofs.Flow.Fair
import Takeaway.Proofs.Flow.Parts
import Takeaway.Proofs.Flow.Plain
import Takeaway.Proofs.Flow.Posted
import Takeaway.Proofs.Flow.Quiet
import Takeaway.Proofs.Flow.Run
import Takeaway.Proofs.History
import Takeaway.Proofs.Http.Answer
import Takeaway.Proofs.Http.Conduct
import Takeaway.Proofs.Http.Steps
import Takeaway.Proofs.Index
import Takeaway.Proofs.Json.Decode
import Takeaway.Proofs.Json.Doc
import Takeaway.Proofs.Json.Token
import Takeaway.Proofs.Message.Books
import Takeaway.Proofs.Message.Broker
import Takeaway.Proofs.Message.Codec
import Takeaway.Proofs.Message.Document
import Takeaway.Proofs.Message.Draining
import Takeaway.Proofs.Message.Intake
import Takeaway.Proofs.Message.Mailroom
import Takeaway.Proofs.Message.Mirror
import Takeaway.Proofs.Message.Notified
import Takeaway.Proofs.Message.Number
import Takeaway.Proofs.Message.Pool
import Takeaway.Proofs.Message.Relay
import Takeaway.Proofs.Message.Retry
import Takeaway.Proofs.Message.Task
import Takeaway.Proofs.Numbering
import Takeaway.Proofs.Order.Climb
import Takeaway.Proofs.Order.Document
import Takeaway.Proofs.Order.Inert
import Takeaway.Proofs.Order.Logged
import Takeaway.Proofs.Order.Missing
import Takeaway.Proofs.Order.Onward
import Takeaway.Proofs.Order.Sound
import Takeaway.Proofs.Overtaking
import Takeaway.Proofs.Placement
import Takeaway.Proofs.Preparation
import Takeaway.Proofs.Punctual
import Takeaway.Proofs.Queue
import Takeaway.Proofs.Quiescence
import Takeaway.Proofs.Recovery
import Takeaway.Proofs.Refusal
import Takeaway.Proofs.Routing
import Takeaway.Proofs.Sequence
import Takeaway.Proofs.Settings
import Takeaway.Proofs.Sharing
import Takeaway.Proofs.Stock
import Takeaway.Proofs.Stocked
import Takeaway.Proofs.Stocktaking
import Takeaway.Proofs.Store
import Takeaway.Proofs.Text.Blank
import Takeaway.Proofs.Text.Grammar
import Takeaway.Proofs.Text.Numeral
import Takeaway.Proofs.Text.Utf8
import Takeaway.Proofs.Time.Timestamp
import Takeaway.Proofs.Transport
import Takeaway.Proofs.Validation
import Takeaway.Proofs.World.Aside
import Takeaway.Proofs.World.Backed
import Takeaway.Proofs.World.Clear
import Takeaway.Proofs.World.Clock
import Takeaway.Proofs.World.Elapsing
import Takeaway.Proofs.World.Logs
import Takeaway.Proofs.World.Parts
import Takeaway.Proofs.World.Perform
import Takeaway.Proofs.World.Portion
import Takeaway.Proofs.World.Room
import Takeaway.Proofs.World.Served
import Takeaway.Proofs.World.Steady
import Takeaway.Proofs.World.Tidy
import Takeaway.Quantity
import Takeaway.RequestKey
import Takeaway.Service
import Takeaway.Settings
import Takeaway.Stock
import Takeaway.Store.Basic
import Takeaway.Store.Script
import Takeaway.Text.Blank
import Takeaway.Text.Hidden
import Takeaway.Text.Numeral
import Takeaway.Text.Quoted
import Takeaway.Text.Utf8
import Takeaway.Time.Span
import Takeaway.Time.Timestamp
import Takeaway.Work
import Takeaway.World.Basic
import Takeaway.World.Notices
