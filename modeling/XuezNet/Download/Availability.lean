import XuezNet.Node.PeerLogic

/-! # What a peer is known to have

`ProcessBlockAvailability` and `UpdateBlockAvailability` keep a peer's
`pindexBestKnownBlock` (the best block it announced that the index knows) and
`hashLastUnknownBlock` (the last announced block the index did not know yet).
`PeerHasHeader` and `CanDirectFetch` are the tests the announcement and
download paths make. Each registry update returns `none` where the code's
`assert(state != NULL)` fails.
-/

namespace XuezNet

namespace CNodeState

variable (chain : ChainView)

/-- The body of `ProcessBlockAvailability` on a peer's state: once the last
unknown announced block is in the index with work, it becomes the best known
block if it has at least as much work, and is forgotten. -/
def processBlockAvailability (nodeState : CNodeState) : CNodeState :=
  if nodeState.hashLastUnknownBlock ≠ 0 then
    match chain.mapBlockIndex nodeState.hashLastUnknownBlock with
    | some old =>
        if 0 < old.nChainWork then
          let better := match nodeState.pindexBestKnownBlock with
            | none => true
            | some best => decide (chain.nChainWork best ≤ old.nChainWork)
          { nodeState with
            pindexBestKnownBlock := if better then some nodeState.hashLastUnknownBlock
              else nodeState.pindexBestKnownBlock
            hashLastUnknownBlock := 0 }
        else nodeState
    | none => nodeState
  else nodeState

/-- The body of `UpdateBlockAvailability(hash)` on a peer's state: a known block
with work becomes the best known block if it has at least as much work; an
unknown one is remembered. -/
def updateBlockAvailability (nodeState : CNodeState) (hash : Hash) : CNodeState :=
  let nodeState := processBlockAvailability chain nodeState
  match chain.mapBlockIndex hash with
  | some block =>
      if 0 < block.nChainWork then
        match nodeState.pindexBestKnownBlock with
        | none => { nodeState with pindexBestKnownBlock := some hash }
        | some best =>
            if chain.nChainWork best ≤ block.nChainWork then
              { nodeState with pindexBestKnownBlock := some hash }
            else nodeState
      else { nodeState with hashLastUnknownBlock := hash }
  | none => { nodeState with hashLastUnknownBlock := hash }

/-- `PeerHasHeader(state, pindex)`: the block is an ancestor of the peer's best
known block or of the best header sent to it. -/
def peerHasHeader (nodeState : CNodeState) (hash : Hash) : Bool :=
  let below := fun (top : Option Hash) => match top with
    | some top => chain.getAncestor top (chain.nHeight hash) = some hash
    | none => false
  below nodeState.pindexBestKnownBlock || below nodeState.pindexBestHeaderSent

/-- The registry half of the two availability updates leaves the queue alone. -/
@[simp] theorem processBlockAvailability_queue (nodeState : CNodeState) :
    (processBlockAvailability chain nodeState).vBlocksInFlight = nodeState.vBlocksInFlight ∧
    (processBlockAvailability chain nodeState).nBlocksInFlight = nodeState.nBlocksInFlight := by
  unfold processBlockAvailability
  split_ifs <;> (try split) <;> (try split_ifs) <;> exact ⟨rfl, rfl⟩

@[simp] theorem processBlockAvailability_lastCommon (nodeState : CNodeState) :
    (processBlockAvailability chain nodeState).pindexLastCommonBlock = nodeState.pindexLastCommonBlock := by
  unfold processBlockAvailability
  split_ifs <;> (try split) <;> (try split_ifs) <;> rfl

/-- The refresh sets the best known block only to a block of the index. -/
theorem processBlockAvailability_best {nodeState : CNodeState} {best : Hash}
    (found : (processBlockAvailability chain nodeState).pindexBestKnownBlock = some best) :
    nodeState.pindexBestKnownBlock = some best ∨ (chain.mapBlockIndex best).isSome := by
  unfold processBlockAvailability at found
  split_ifs at found
  · split at found
    · rename_i old known
      split_ifs at found
      · dsimp only at found
        split_ifs at found
        · cases found
          simp [known]
        · exact .inl found
      · exact .inl found
    · exact .inl found
  · exact .inl found

end CNodeState

namespace Registry

variable (chain : ChainView) (registry : Registry)

/-- `ProcessBlockAvailability(nodeid)`. -/
def processBlockAvailability (nodeid : NodeId) : Option Registry := do
  let nodeState ← registry.state nodeid
  some (registry.setState nodeid (nodeState.processBlockAvailability chain))

/-- `UpdateBlockAvailability(nodeid, hash)`. -/
def updateBlockAvailability (nodeid : NodeId) (hash : Hash) : Option Registry := do
  let nodeState ← registry.state nodeid
  some (registry.setState nodeid (nodeState.updateBlockAvailability chain hash))

end Registry

/-- `CanDirectFetch()`: the tip is recent, within twenty block intervals of the
adjusted time; after the service hard fork the interval is 150 seconds. -/
def Env.canDirectFetch (env : Env) : Bool :=
  match env.chain.mapBlockIndex env.chain.tip with
  | some tip =>
      let targetSpacing := if env.SERVICE_UPGRADE_HARDFORK < tip.nMedianTimePast then 150
        else env.nTargetSpacing
      decide (env.nAdjustedTime - targetSpacing * 20 < tip.nTime)
  | none => false

end XuezNet
