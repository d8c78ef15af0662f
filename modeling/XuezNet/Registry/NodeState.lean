import XuezNet.Foundation.StdMap
import XuezNet.Protocol.Primitives

/-! # The peer registry

`mapNodeState` holds one `CNodeState` per connected peer; `mapBlocksInFlight`
indexes every requested block by hash, pointing at the peer that was asked and
at the node of that peer's `vBlocksInFlight` list that records the request.
Three global counters summarise the registry: `nSyncStarted`,
`nPreferredDownload` and `nPeersWithValidatedDownloads`.

A `std::list` iterator is the identity of a list node. Each queued block is
therefore stored with a node number, drawn from `nextQueuedNode` when the node
is allocated, and `mapBlocksInFlight` stores that number as the iterator.
-/

namespace XuezNet

/-- `QueuedBlock`: a requested block, with the index entry it was requested for
(`pindex`, `NULL` when the header is unknown). -/
structure QueuedBlock where
  hash : Hash
  pindex : Option Hash
  fValidatedHeaders : Bool
  deriving DecidableEq, Repr

/-- `CBlockReject`: a block reject queued for the next flush. -/
structure CBlockReject where
  chRejectCode : Nat
  strRejectReason : String
  hashBlock : Hash
  deriving DecidableEq, Repr

/-- An `int` result: the value wrapped around to 32 bits, as signed overflow,
undefined in C++, does on the two's-complement targets the node is built for. -/
def toInt32 (value : Int) : Int := value.bmod 4294967296

/-- A value within the range of `int` is its own 32-bit result. -/
theorem toInt32_of_range {value : Int} (low : -2147483648 ≤ value) (high : value < 2147483648) :
    toInt32 value = value := by
  unfold toInt32 Int.bmod
  dsimp only
  split <;> omega

/-- `CNodeState`: the validation-side state of one peer. A queued block is kept
with the number of its list node. -/
structure CNodeState where
  fCurrentlyConnected : Bool
  nMisbehavior : Int
  fShouldBan : Bool
  rejects : List CBlockReject
  pindexBestKnownBlock : Option Hash
  hashLastUnknownBlock : Hash
  pindexLastCommonBlock : Option Hash
  pindexBestHeaderSent : Option Hash
  fSyncStarted : Bool
  nStallingSince : Int
  vBlocksInFlight : List (Nat × QueuedBlock)
  nDownloadingSince : Int
  nBlocksInFlight : Int
  nBlocksInFlightValidHeaders : Int
  fPreferredDownload : Bool
  fPreferHeaders : Bool
  deriving DecidableEq, Repr

/-- Modelled from the spec: the `CNodeState` constructor (its header is not under
`src/`); a new peer has no score, no known blocks and nothing in flight. -/
def CNodeState.initial : CNodeState where
  fCurrentlyConnected := false
  nMisbehavior := 0
  fShouldBan := false
  rejects := []
  pindexBestKnownBlock := none
  hashLastUnknownBlock := 0
  pindexLastCommonBlock := none
  pindexBestHeaderSent := none
  fSyncStarted := false
  nStallingSince := 0
  vBlocksInFlight := []
  nDownloadingSince := 0
  nBlocksInFlight := 0
  nBlocksInFlightValidHeaders := 0
  fPreferredDownload := false
  fPreferHeaders := false

/-- **The registry**: `mapNodeState`, `mapBlocksInFlight` and the counters derived
from them, with the allocator of list nodes. -/
structure Registry where
  mapNodeState : StdMap NodeId CNodeState
  mapBlocksInFlight : StdMap Hash (NodeId × Nat)
  nSyncStarted : Int
  nPreferredDownload : Int
  nPeersWithValidatedDownloads : Int
  nextQueuedNode : Nat

namespace Registry

/-- The registry before any peer connects. -/
def empty : Registry := ⟨∅, ∅, 0, 0, 0, 0⟩

/-- `State(nodeid)`: `NULL` for an unknown peer. -/
def state (registry : Registry) (nodeid : NodeId) : Option CNodeState :=
  registry.mapNodeState.find? nodeid

/-- Write back a peer's state through the pointer `State` returned. -/
def setState (registry : Registry) (nodeid : NodeId) (nodeState : CNodeState) : Registry :=
  { registry with mapNodeState := registry.mapNodeState.insert nodeid nodeState }

@[simp] theorem state_setState (registry : Registry) (nodeid other : NodeId) (nodeState : CNodeState) :
    (registry.setState nodeid nodeState).state other =
      if other = nodeid then some nodeState else registry.state other := by
  simp [state, setState]

@[simp] theorem setState_mapBlocksInFlight (registry : Registry) (nodeid : NodeId)
    (nodeState : CNodeState) :
    (registry.setState nodeid nodeState).mapBlocksInFlight = registry.mapBlocksInFlight := rfl

@[simp] theorem setState_counters (registry : Registry) (nodeid : NodeId)
    (nodeState : CNodeState) :
    (registry.setState nodeid nodeState).nSyncStarted = registry.nSyncStarted ∧
    (registry.setState nodeid nodeState).nPreferredDownload = registry.nPreferredDownload ∧
    (registry.setState nodeid nodeState).nPeersWithValidatedDownloads =
      registry.nPeersWithValidatedDownloads ∧
    (registry.setState nodeid nodeState).nextQueuedNode = registry.nextQueuedNode :=
  ⟨rfl, rfl, rfl, rfl⟩

end Registry

end XuezNet
