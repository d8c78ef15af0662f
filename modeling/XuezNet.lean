import XuezNet.Foundation.StdMap
import XuezNet.Protocol.Primitives
import XuezNet.Protocol.Blob
import XuezNet.Chain.BlockIndex
import XuezNet.Chain.Ancestry
import XuezNet.Registry.NodeState
import XuezNet.Registry.Operations
import XuezNet.Registry.Invariant
import XuezNet.Registry.Reachable
import XuezNet.Orphans.Pool
import XuezNet.Orphans.Invariant
import XuezNet.Node.Connection
import XuezNet.Node.PeerLogic
import XuezNet.Handlers.Transaction
import XuezNet.Handlers.Resolution
import XuezNet.Handlers.Handshake
import XuezNet.Download.Availability
import XuezNet.Download.FindNextBlocks
import XuezNet.Download.Walk
import XuezNet.Download.Staller
import XuezNet.Handlers.Inventory
import XuezNet.Handlers.Headers
import XuezNet.Handlers.Control
import XuezNet.Dispatch.ProcessMessages
import XuezNet.Dispatch.SendMessages
import XuezNet.Dispatch.Ping
import XuezNet.System.Net
import XuezNet.System.Relay
import XuezNet.Registry.Updates
import XuezNet.Registry.DownloadTimer
import XuezNet.System.Steps
import XuezNet.System.Invariant
import XuezNet.Effects.Control
import XuezNet.System.Connection
import XuezNet.Effects.Transaction
import XuezNet.Effects.GetData
import XuezNet.Effects.Serving
import XuezNet.Effects.Inventory
import XuezNet.Effects.Headers
import XuezNet.Effects.Handshake
import XuezNet.Effects.Dispatch
import XuezNet.Effects.Tick
import XuezNet.Effects.Trickle
import XuezNet.Effects.Requests
import XuezNet.Effects.Announce
import XuezNet.System.Run
import XuezNet.System.Availability
import XuezNet.System.Trace
import XuezNet.System.Guarantees
import XuezNet.System.Peers
import XuezNet.System.Replay
