import DevMachine.Channel.Bus
import DevMachine.Channel.Failure
import DevMachine.Channel.Frame
import DevMachine.Channel.Pump
import DevMachine.CommandLine.Arguments
import DevMachine.CommandLine.Help
import DevMachine.CommandLine.Run
import DevMachine.Connection.Basic
import DevMachine.Connection.Driver
import DevMachine.Connection.Step
import DevMachine.Container.Failure
import DevMachine.Container.Manager
import DevMachine.Daemon.Exchange
import DevMachine.Daemon.Feed
import DevMachine.Daemon.Inspection
import DevMachine.Daemon.Output
import DevMachine.Daemon.Reading
import DevMachine.Exec.Backend
import DevMachine.Exec.Runner
import DevMachine.Exec.Script
import DevMachine.Json.Document
import DevMachine.Json.Printer
import DevMachine.Json.Reader
import DevMachine.Json.Value
import DevMachine.Logs.Message
import DevMachine.Logs.Reassembly
import DevMachine.Logs.Sink
import DevMachine.Logs.Stream
import DevMachine.Machine.Event
import DevMachine.Machine.Launcher
import DevMachine.Main
import DevMachine.Proofs.Channel.Beliefs
import DevMachine.Proofs.Channel.Bus
import DevMachine.Proofs.Channel.Claims
import DevMachine.Proofs.Channel.Displacement
import DevMachine.Proofs.Channel.Parts
import DevMachine.Proofs.Channel.Queues
import DevMachine.Proofs.Channel.Routing
import DevMachine.Proofs.Channel.Traffic
import DevMachine.Proofs.Channel.WireGrammar
import DevMachine.Proofs.Channel.WireRoundTrip
import DevMachine.Proofs.Connection.Abandonment
import DevMachine.Proofs.Connection.Desk
import DevMachine.Proofs.Connection.Effects
import DevMachine.Proofs.Connection.Incidents
import DevMachine.Proofs.Connection.Notices
import DevMachine.Proofs.Connection.OldLinks
import DevMachine.Proofs.Connection.RequestTurns
import DevMachine.Proofs.Connection.RetryGrammar
import DevMachine.Proofs.Connection.Rounds
import DevMachine.Proofs.Connection.Settling
import DevMachine.Proofs.Connection.SharedState
import DevMachine.Proofs.Connection.Situation
import DevMachine.Proofs.Connection.Stability
import DevMachine.Proofs.Connection.Steps
import DevMachine.Proofs.Connection.StoppedDrivers
import DevMachine.Proofs.Connection.Subscriptions
import DevMachine.Proofs.Connection.WaiterProtocol
import DevMachine.Proofs.Container.Startup
import DevMachine.Proofs.Exec.Forwarding
import DevMachine.Proofs.Exec.Liveness
import DevMachine.Proofs.Exec.Traceability
import DevMachine.Proofs.Json.Grammar
import DevMachine.Proofs.Json.RoundTrip
import DevMachine.Proofs.Json.Tokens
import DevMachine.Proofs.Json.Values
import DevMachine.Proofs.Logs.CountingFlush
import DevMachine.Proofs.Logs.Delivery
import DevMachine.Proofs.Logs.Payloads
import DevMachine.Proofs.Logs.Promptness
import DevMachine.Proofs.Logs.Reassembly
import DevMachine.Proofs.Logs.ReassemblyRun
import DevMachine.Proofs.Machine.Launches
import DevMachine.Proofs.Session.Agreement
import DevMachine.Proofs.Session.EarlyStops
import DevMachine.Proofs.Session.FlushTimer
import DevMachine.Proofs.Session.Isolation
import DevMachine.Proofs.Session.Lifetimes
import DevMachine.Proofs.Session.Listings
import DevMachine.Proofs.Session.Looks
import DevMachine.Proofs.Session.ManagedCourse
import DevMachine.Proofs.Session.Moves
import DevMachine.Proofs.Session.PartSteps
import DevMachine.Proofs.Session.Parts
import DevMachine.Proofs.Session.StopOrder
import DevMachine.Proofs.Session.StopVerdict
import DevMachine.Proofs.Session.StreamRefinement
import DevMachine.Proofs.Session.Turns
import DevMachine.Proofs.Session.Views
import DevMachine.Proofs.Settings.Overlay
import DevMachine.Proofs.Text.Decoding
import DevMachine.Proofs.Text.Lines
import DevMachine.Proofs.Text.LinesOfText
import DevMachine.Proofs.Text.MaximalSubparts
import DevMachine.Proofs.Text.Sequences
import DevMachine.Proofs.Toml.DistinctKeys
import DevMachine.Session.Basic
import DevMachine.Session.Linked
import DevMachine.Session.Manager
import DevMachine.Session.Step
import DevMachine.Settings.File
import DevMachine.Settings.Overlay
import DevMachine.Text.Blank
import DevMachine.Text.Hexadecimal
import DevMachine.Text.Lines
import DevMachine.Text.ShortestDecimal
import DevMachine.Text.UrlPath
import DevMachine.Text.Utf8
import DevMachine.Toml.Reader
import DevMachine.Toml.Scalars
import DevMachine.Toml.Value
