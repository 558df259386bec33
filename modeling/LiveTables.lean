import LiveTables.Change.Queue
import LiveTables.Computed.Formula
import LiveTables.Config.Fields
import LiveTables.Config.Pipeline
import LiveTables.Delta.Decoder
import LiveTables.Delta.Encoder
import LiveTables.Delta.Error
import LiveTables.Event
import LiveTables.Join.Engine
import LiveTables.Network.World
import LiveTables.Pipeline
import LiveTables.Proofs.Change.Window
import LiveTables.Proofs.Computed.Registry
import LiveTables.Proofs.Delta.Chunks
import LiveTables.Proofs.Delta.FieldMap
import LiveTables.Proofs.Delta.RoundTrip
import LiveTables.Proofs.Join.Alike
import LiveTables.Proofs.Join.Build
import LiveTables.Proofs.Join.Cells
import LiveTables.Proofs.Join.DecimalKeys
import LiveTables.Proofs.Join.EditScript
import LiveTables.Proofs.Join.Index
import LiveTables.Proofs.Join.Keyed
import LiveTables.Proofs.Join.Mirror
import LiveTables.Proofs.Join.Numbering
import LiveTables.Proofs.Join.Outcome
import LiveTables.Proofs.Join.Reading
import LiveTables.Proofs.Join.RowIds
import LiveTables.Proofs.Join.Run
import LiveTables.Proofs.Join.Script
import LiveTables.Proofs.Join.Sound
import LiveTables.Proofs.Join.Standing
import LiveTables.Proofs.Join.Transit
import LiveTables.Proofs.Join.Undo
import LiveTables.Proofs.Network.Answering
import LiveTables.Proofs.Network.Columns
import LiveTables.Proofs.Network.Contents
import LiveTables.Proofs.Network.Dispatch
import LiveTables.Proofs.Network.Formed
import LiveTables.Proofs.Network.Hearing
import LiveTables.Proofs.Network.Joining
import LiveTables.Proofs.Network.Lasting
import LiveTables.Proofs.Network.Maintained
import LiveTables.Proofs.Network.Monitor
import LiveTables.Proofs.Network.Notice
import LiveTables.Proofs.Network.Passing
import LiveTables.Proofs.Network.Quiet
import LiveTables.Proofs.Network.Reachable
import LiveTables.Proofs.Network.Settled
import LiveTables.Proofs.Network.Speaking
import LiveTables.Proofs.Network.Telling
import LiveTables.Proofs.Network.Typed
import LiveTables.Proofs.Network.Views
import LiveTables.Proofs.Network.Wave
import LiveTables.Proofs.Network.Wiring
import LiveTables.Proofs.Observer.Abreast
import LiveTables.Proofs.Observer.Account
import LiveTables.Proofs.Observer.Answers
import LiveTables.Proofs.Observer.Attached
import LiveTables.Proofs.Observer.Feed
import LiveTables.Proofs.Observer.Follower
import LiveTables.Proofs.Observer.Ledger
import LiveTables.Proofs.Observer.Recomputed
import LiveTables.Proofs.Observer.Shadow
import LiveTables.Proofs.Observer.Spectator
import LiveTables.Proofs.Observer.Watch
import LiveTables.Proofs.Publisher.LastValues
import LiveTables.Proofs.Publisher.Sinks
import LiveTables.Proofs.Replica.Accounted
import LiveTables.Proofs.Replica.Alone
import LiveTables.Proofs.Replica.Applied
import LiveTables.Proofs.Replica.Drained
import LiveTables.Proofs.Replica.Encoded
import LiveTables.Proofs.Replica.Foreign
import LiveTables.Proofs.Replica.Interrupted
import LiveTables.Proofs.Replica.Piped
import LiveTables.Proofs.Replica.Published
import LiveTables.Proofs.Replica.Shared
import LiveTables.Proofs.Replica.Streamed
import LiveTables.Proofs.Replica.Untrusted
import LiveTables.Proofs.Subject.History
import LiveTables.Proofs.Subject.Order
import LiveTables.Proofs.Subject.Scenes
import LiveTables.Proofs.Table.History
import LiveTables.Proofs.Table.Writes
import LiveTables.Proofs.Value.Decimals
import LiveTables.Proofs.Value.Grammar
import LiveTables.Proofs.Value.Order
import LiveTables.Proofs.Value.Same
import LiveTables.Proofs.Wire.Fields
import LiveTables.Proofs.Wire.Prefix
import LiveTables.Proofs.Wire.Widths
import LiveTables.Publisher
import LiveTables.Replica.Applier
import LiveTables.Schema
import LiveTables.Session.Run
import LiveTables.Subject.Scene
import LiveTables.Table.Basic
import LiveTables.Value.Order
import LiveTables.Value.Text
import LiveTables.Wire.Reader
import LiveTables.Proofs.Delta.Foreign
import LiveTables.Proofs.Computed.Dependents
import LiveTables.Proofs.Computed.Unfold
import LiveTables.Proofs.Network.Reading
import LiveTables.Proofs.Table.Extended
import LiveTables.Proofs.Network.Extended
import LiveTables.Proofs.Network.InStep
import LiveTables.Proofs.Network.Registering
import LiveTables.Proofs.Network.Unfolded
import LiveTables.Proofs.Wire.Groups
import LiveTables.Proofs.Delta.Dictionary
