import Amqp.Broker.Machine
import Amqp.Broker.Routing
import Amqp.Broker.State
import Amqp.Channel.Machine
import Amqp.Channel.Request
import Amqp.Channel.State
import Amqp.Client.Adapter
import Amqp.Client.Properties
import Amqp.CloseParams
import Amqp.Connection.Dialer
import Amqp.Connection.Environment
import Amqp.Connection.Lifecycle
import Amqp.Connection.Options
import Amqp.Connection.Timer
import Amqp.Delivery.Basic
import Amqp.Delivery.Machine
import Amqp.Delivery.Tag
import Amqp.Delivery.TagMap
import Amqp.Error.Connection
import Amqp.Error.Construction
import Amqp.Error.Decode
import Amqp.Error.Delivery
import Amqp.Error.Operation
import Amqp.Error.Report
import Amqp.Json
import Amqp.Log
import Amqp.Number.Binary64
import Amqp.Number.Decimal
import Amqp.Number.Literal
import Amqp.Number.Shortest
import Amqp.Payload
import Amqp.Proofs.Broker.Atomicity
import Amqp.Proofs.Broker.Balance
import Amqp.Proofs.Broker.Bindings
import Amqp.Proofs.Broker.Books
import Amqp.Proofs.Broker.Changes
import Amqp.Proofs.Broker.Conservation
import Amqp.Proofs.Broker.Copies
import Amqp.Proofs.Broker.FirstInFirstOut
import Amqp.Proofs.Broker.Moves
import Amqp.Proofs.Broker.Prompt
import Amqp.Proofs.Broker.PutBack
import Amqp.Proofs.Broker.Queues
import Amqp.Proofs.Broker.Ready
import Amqp.Proofs.Broker.Registries
import Amqp.Proofs.Broker.Routing
import Amqp.Proofs.Broker.Runs
import Amqp.Proofs.Broker.Separation
import Amqp.Proofs.Broker.Shifts
import Amqp.Proofs.Broker.Sound
import Amqp.Proofs.Broker.Steps
import Amqp.Proofs.Broker.Tallies
import Amqp.Proofs.Channel.Account
import Amqp.Proofs.Channel.Answer
import Amqp.Proofs.Channel.Asking
import Amqp.Proofs.Channel.Calm
import Amqp.Proofs.Channel.Closed
import Amqp.Proofs.Channel.Closing
import Amqp.Proofs.Channel.Containment
import Amqp.Proofs.Channel.Dispatch
import Amqp.Proofs.Channel.Effects
import Amqp.Proofs.Channel.Multiple
import Amqp.Proofs.Channel.Orderly
import Amqp.Proofs.Channel.Run
import Amqp.Proofs.Channel.Settling
import Amqp.Proofs.Channel.Sound
import Amqp.Proofs.Channel.Step
import Amqp.Proofs.Channel.Table
import Amqp.Proofs.Channel.Tabulated
import Amqp.Proofs.Channel.Turns
import Amqp.Proofs.Client.Adapter
import Amqp.Proofs.Connection.Heartbeat
import Amqp.Proofs.Connection.Lifecycle
import Amqp.Proofs.Delivery.Once
import Amqp.Proofs.Delivery.TagMap
import Amqp.Proofs.Error.Description
import Amqp.Proofs.Gathered
import Amqp.Proofs.Hub.Agreement
import Amqp.Proofs.Hub.Lines
import Amqp.Proofs.Hub.Links
import Amqp.Proofs.Hub.Order
import Amqp.Proofs.Hub.Play
import Amqp.Proofs.Hub.System
import Amqp.Proofs.Json.Number
import Amqp.Proofs.Number.Literal
import Amqp.Proofs.Number.Rounding
import Amqp.Proofs.Payload.Integer
import Amqp.Proofs.Payload.Numeric
import Amqp.Proofs.Payload.Text
import Amqp.Proofs.Session.Accounts
import Amqp.Proofs.Session.Agreement
import Amqp.Proofs.Session.Links
import Amqp.Proofs.Session.Retry
import Amqp.Proofs.Session.System
import Amqp.Proofs.Text.Ascii
import Amqp.Proofs.Text.Blank
import Amqp.Proofs.Text.Split
import Amqp.Proofs.Text.Utf8
import Amqp.Proofs.Topic.Expansion
import Amqp.Proofs.Url.Address
import Amqp.Proofs.Url.Authority
import Amqp.Proofs.Url.Domain
import Amqp.Proofs.Url.Hierarchy
import Amqp.Proofs.Url.Host
import Amqp.Proofs.Url.Path
import Amqp.Proofs.Url.Percent
import Amqp.Proofs.Url.Query
import Amqp.Proofs.Url.Reading
import Amqp.Simulation.AdapterPlay
import Amqp.Simulation.ChannelPlay
import Amqp.Simulation.ChannelWorld
import Amqp.Simulation.ConnectionPlay
import Amqp.Simulation.DeliveryPlay
import Amqp.Simulation.Handler
import Amqp.Simulation.Remote
import Amqp.Simulation.Script
import Amqp.Simulation.Snapshot
import Amqp.Text.Blank
import Amqp.Text.Composed
import Amqp.Text.Runs
import Amqp.Text.Split
import Amqp.Text.Units
import Amqp.Text.Upper
import Amqp.Text.Utf8
import Amqp.Topic
import Amqp.Topology
import Amqp.Url.Basic
import Amqp.Url.Domain
import Amqp.Url.Host
import Amqp.Url.Label
import Amqp.Url.Mapping
import Amqp.Url.Percent
import Amqp.Url.Punycode
import Amqp.Url.Query
import Amqp.Value
import Amqp.Value.Comparison
import Amqp.Value.Inspection
import Amqp.Xml.Doctype
import Amqp.Xml.Document
import Amqp.Xml.Entity
import Amqp.Xml.Source
import Amqp.Xml.WellFormed
import Amqp.Proofs.Connection.Attempts
import Amqp.Proofs.Connection.Outcomes
import Amqp.Proofs.Connection.Timer
import Amqp.Proofs.Client.Consumers
import Amqp.Proofs.Client.Cancels
import Amqp.Proofs.Broker.Incarnations
import Amqp.Proofs.Client.Properties
import Amqp.Proofs.Number.Nearest
import Amqp.Proofs.Number.Decimal
import Amqp.Proofs.Connection.Environment
