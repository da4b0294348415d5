import DistDpi.Support.Machine
import DistDpi.Support.Words
import DistDpi.Support.Access
import DistDpi.Support.Slices
import DistDpi.Support.OnesComplement
import DistDpi.Support.Ring
import DistDpi.Support.Fifo
import DistDpi.Support.Fragments
import DistDpi.Support.Handles
import DistDpi.Support.Packed
import DistDpi.Support.Monitor
import DistDpi.Support.Waiting
import DistDpi.Flow.ConnKey
import DistDpi.Flow.Definitions
import DistDpi.Flow.Table
import DistDpi.Flow.Steps
import DistDpi.Flow.Messages
import DistDpi.Flow.Queue
import DistDpi.Flow.Nodes
import DistDpi.Flow.Invariants
import DistDpi.Flow.Log
import DistDpi.Flow.Identity
import DistDpi.Flow.Affinity
import DistDpi.Flow.Order
import DistDpi.Flow.Direction
import DistDpi.Flow.Failure
import DistDpi.Flow.Verdict
import DistDpi.Flow.Expiry
import DistDpi.Flow.Lifecycle
import DistDpi.Flow.Routing
import DistDpi.Flow.Shutdown
import DistDpi.Flow.Dangling
import DistDpi.Flow.Drain
import DistDpi.Flow.CleanupThread
import DistDpi.Flow.Callback
import DistDpi.Flow.Process
import DistDpi.Flow.Results
import DistDpi.Flow.Names
import DistDpi.Flow.Alone
import DistDpi.Flow.View
import DistDpi.Flow.Isolation
import DistDpi.Flow.Feed
import DistDpi.Flow.Schedule
import DistDpi.Spsc.Definitions
import DistDpi.Spsc.Steps
import DistDpi.Spsc.Invariants
import DistDpi.Spsc.Refinement
import DistDpi.Packet.Definitions
import DistDpi.Packet.Bounds
import DistDpi.Packet.Encoding
import DistDpi.Packet.Delivery
import DistDpi.Packet.Arrivals
import DistDpi.Packet.Pipeline
import DistDpi.Packet.Wakeup
import DistDpi.Packet.Handler
import DistDpi.Packet.Stopping
import DistDpi.Netx.Filters
import DistDpi.Netx.Capture
import DistDpi.Netx.CopyData
import DistDpi.Netx.DirectRef
import DistDpi.Netx.Headers
import DistDpi.Netx.Lookups
import DistDpi.Netx.Napt
import DistDpi.Netx.NaptStatus
import DistDpi.Netx.Parse
import DistDpi.Netx.Agreement
import DistDpi.Netx.Encoding
import DistDpi.Netx.Copy
import DistDpi.Netx.Ownership
import DistDpi.Netx.Forwarding
import DistDpi.Netx.SavedState
import DistDpi.Netx.Service
import DistDpi.Netx.Chain
import DistDpi.Netx.ConnInfo
import DistDpi.Netx.Commands
import DistDpi.Netx.Cli
import DistDpi.Netx.Framing
import DistDpi.Netx.Descriptors
