import LightningLink.Support.UnorderedMap
import LightningLink.Support.Format
import LightningLink.Support.Machine
import LightningLink.Support.Ring
import LightningLink.Support.LastWrite
import LightningLink.Support.Plane
import LightningLink.Support.Rollback
import LightningLink.Support.Bracket
import LightningLink.Support.PriorityQueue
import LightningLink.Support.Heap
import LightningLink.Support.Ledger
import LightningLink.Support.Lines
import LightningLink.Support.Pipe
import LightningLink.Support.Cadence
import LightningLink.Support.Throttle
import LightningLink.Support.Tokens
import LightningLink.Common.Types
import LightningLink.Common.Reals
import LightningLink.Common.Serialization
import LightningLink.Common.Wire
import LightningLink.Common.Codec
import LightningLink.Common.Packet
import LightningLink.Common.FieldSequence
import LightningLink.Common.Pacing
import LightningLink.Server.WorldState
import LightningLink.Server.SessionManager
import LightningLink.Server.Server
import LightningLink.Server.Store
import LightningLink.Server.Membership
import LightningLink.Server.Allocation
import LightningLink.Server.Rejection
import LightningLink.Server.Timeout
import LightningLink.Server.NonInterference
import LightningLink.Server.Broadcast
import LightningLink.Server.Rejoin
import LightningLink.Server.Acknowledgement
import LightningLink.Server.Stream
import LightningLink.Server.Delivery
import LightningLink.Server.Motion
import LightningLink.Server.Loop
import LightningLink.Server.Accounting
import LightningLink.Server.PeriodicLog
import LightningLink.Server.Obedience
import LightningLink.Client.Prediction
import LightningLink.Client.History
import LightningLink.Client.Lockstep
import LightningLink.Client.Interpolation
import LightningLink.Client.Smoothing
import LightningLink.Client.Staleness
import LightningLink.Client.Handshake
import LightningLink.Client.Client
import LightningLink.Client.Rendering
import LightningLink.Client.Inputs
import LightningLink.Client.Newest
import LightningLink.Client.Reception
import LightningLink.Client.Lookup
import LightningLink.Client.Loop
import LightningLink.Client.Correction
import LightningLink.Client.Lead
import LightningLink.Network.System
import LightningLink.Network.Ownership
import LightningLink.Common.LaggedSocket
import LightningLink.Common.Conservation
import LightningLink.Common.Flush
import LightningLink.Common.Inbound
import LightningLink.Common.Interleaving
import LightningLink.Common.CsvLog
import LightningLink.Network.Conditioned
import LightningLink.Network.Refinement
import LightningLink.Network.Transparent
import LightningLink.Network.Projection
import LightningLink.Network.Authenticity
import LightningLink.Network.Arena
import LightningLink.Network.Frame
import LightningLink.Network.Steering
import LightningLink.Network.Counters
import LightningLink.Network.Prediction
import LightningLink.Network.Convergence
import LightningLink.Baseline.Conditioner
import LightningLink.Baseline.Order
import LightningLink.Baseline.Text
import LightningLink.Baseline.Server
import LightningLink.Baseline.Exact
import LightningLink.Baseline.Client
import LightningLink.Baseline.Lines
import LightningLink.Baseline.RoundTrip
import LightningLink.Baseline.SameWorld
import LightningLink.Baseline.Retirement
import LightningLink.Baseline.Accounting
import LightningLink.Baseline.Departure
import LightningLink.Baseline.Framing
import LightningLink.Baseline.Intake
import LightningLink.Baseline.Fields
import LightningLink.Baseline.InputLines
import LightningLink.Baseline.SnapshotLines
import LightningLink.Baseline.Loop
import LightningLink.Baseline.Occupancy
import LightningLink.Baseline.Removal
import LightningLink.Baseline.Uplink
import LightningLink.Baseline.Downlink
