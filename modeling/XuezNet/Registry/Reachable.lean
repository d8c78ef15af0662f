import XuezNet.Registry.Invariant

/-! # Runs of the peer registry

`RegistryStep` is one registry operation with any arguments, as the connection
manager's callbacks and the message handlers call them, or a write-back of a
registered peer's other fields (`setFields`); a step exists only when
the operation returns, that is when none of its `State()` dereferences or
assertions fails. `RegistryReachable` is every state reached from the empty
registry by any sequence of steps, over any peers and in any order.

Every reachable registry is consistent (`RegistryReachable.consistent`), no hash
is queued twice across all peers, and the operations that dereference `State()`
or assert never fail on a registered peer (`registry_invariant`).
-/

namespace XuezNet

open Registry

/-- One operation on the registry. -/
inductive RegistryStep : Registry → Registry → Prop
  | initializeNode (registry : Registry) (nodeid : NodeId) :
      RegistryStep registry (registry.initializeNode nodeid)
  | updatePreferredDownload {registry registry' : Registry} {nodeid : NodeId}
      {fInbound fWhitelisted fOneShot fClient : Bool}
      (updated : registry.updatePreferredDownload nodeid fInbound fWhitelisted fOneShot fClient =
        some registry') :
      RegistryStep registry registry'
  | markBlockAsInFlight {registry registry' : Registry} {nodeid : NodeId} {hash : Hash}
      {pindex : Option Hash} {now : Int}
      (marked : registry.markBlockAsInFlight nodeid hash pindex now = some registry') :
      RegistryStep registry registry'
  | markBlockAsReceived {registry registry' : Registry} {hash : Hash} {now : Int} {received : Bool}
      (marked : registry.markBlockAsReceived hash now = some (registry', received)) :
      RegistryStep registry registry'
  | startSync {registry registry' : Registry} {nodeid : NodeId}
      (started : registry.startSync nodeid = some registry') :
      RegistryStep registry registry'
  | misbehaving (registry : Registry) (nodeid : NodeId) (howmuch banscore : Int) :
      RegistryStep registry (registry.misbehaving nodeid howmuch banscore)
  | setFields {registry : Registry} {nodeid : NodeId} {old new : CNodeState}
      (found : registry.state nodeid = some old) (same : old.SameQueue new) :
      RegistryStep registry (registry.setState nodeid new)
  | finalizeNode {registry registry' : Registry} {nodeid : NodeId} {fUpdateConnectionTime : Bool}
      (finalized : registry.finalizeNode nodeid = some (registry', fUpdateConnectionTime)) :
      RegistryStep registry registry'

/-- The registries reached from the empty one by any sequence of operations. -/
inductive RegistryReachable : Registry → Prop
  | empty : RegistryReachable Registry.empty
  | step {registry registry' : Registry} (reachable : RegistryReachable registry)
      (step : RegistryStep registry registry') : RegistryReachable registry'

/-- Each operation keeps the registry consistent. -/
theorem RegistryStep.consistent {registry registry' : Registry}
    (step : RegistryStep registry registry') (consistent : registry.Consistent) :
    registry'.Consistent := by
  cases step with
  | initializeNode nodeid => exact consistent.initializeNode nodeid
  | updatePreferredDownload updated => exact consistent.updatePreferredDownload updated
  | markBlockAsInFlight marked => exact consistent.markBlockAsInFlight marked
  | markBlockAsReceived marked => exact consistent.markBlockAsReceived marked
  | startSync started => exact consistent.startSync started
  | misbehaving nodeid howmuch banscore => exact consistent.misbehaving nodeid howmuch banscore
  | setFields found same => exact consistent.setFields found same
  | finalizeNode finalized => exact consistent.finalizeNode finalized

theorem RegistryReachable.consistent {registry : Registry} (reachable : RegistryReachable registry) :
    registry.Consistent := by
  induction reachable with
  | empty => exact consistent_empty
  | step _ step ih => exact step.consistent ih

/-- Two queued blocks with one hash are the same list node of the same peer. -/
theorem Registry.Consistent.queued_once {registry : Registry} (consistent : registry.Consistent)
    {nodeid nodeid' : NodeId} {nodeState nodeState' : CNodeState} {node node' : Nat}
    {queued queued' : QueuedBlock}
    (found : registry.state nodeid = some nodeState) (member : (node, queued) ∈ nodeState.vBlocksInFlight)
    (found' : registry.state nodeid' = some nodeState')
    (member' : (node', queued') ∈ nodeState'.vBlocksInFlight) (same : queued.hash = queued'.hash) :
    nodeid = nodeid' ∧ node = node' := by
  have indexed := consistent.indexed found member
  rw [same, consistent.indexed found' member'] at indexed
  exact Prod.mk.inj (Option.some.inj indexed.symm)

theorem registry_invariant {registry : Registry} (reachable : RegistryReachable registry) :
    registry.Consistent ∧
      (∀ {nodeid nodeid' nodeState nodeState' node node' queued queued'},
        registry.state nodeid = some nodeState → (node, queued) ∈ nodeState.vBlocksInFlight →
        registry.state nodeid' = some nodeState' → (node', queued') ∈ nodeState'.vBlocksInFlight →
        queued.hash = queued'.hash → nodeid = nodeid' ∧ node = node') ∧
      (∀ hash now, (registry.markBlockAsReceived hash now).isSome) ∧
      (∀ nodeid hash pindex now, (registry.state nodeid).isSome →
        (registry.markBlockAsInFlight nodeid hash pindex now).isSome) ∧
      (∀ nodeid, (registry.state nodeid).isSome → (registry.finalizeNode nodeid).isSome) := by
  have consistent := reachable.consistent
  exact ⟨consistent, consistent.queued_once, consistent.markBlockAsReceived_isSome,
    fun _ hash pindex now registered => consistent.markBlockAsInFlight_isSome registered hash pindex now,
    fun _ registered => consistent.finalizeNode_isSome registered⟩

/-- A peer connects and one block is requested from it. -/
def requestedRegistry : Registry :=
  ((Registry.empty.initializeNode 1).markBlockAsInFlight 1 7 none 0).getD Registry.empty

theorem requestedRegistry_reachable : RegistryReachable requestedRegistry :=
  .step (.step .empty (.initializeNode _ 1)) (@RegistryStep.markBlockAsInFlight _ _ 1 7 none 0 rfl)

theorem registry_invariant_requested :
    RegistryReachable requestedRegistry ∧ requestedRegistry.Consistent ∧
      (∀ {nodeid nodeid' nodeState nodeState' node node' queued queued'},
        requestedRegistry.state nodeid = some nodeState →
        (node, queued) ∈ nodeState.vBlocksInFlight →
        requestedRegistry.state nodeid' = some nodeState' →
        (node', queued') ∈ nodeState'.vBlocksInFlight →
        queued.hash = queued'.hash → nodeid = nodeid' ∧ node = node') ∧
      (∀ hash now, (requestedRegistry.markBlockAsReceived hash now).isSome) ∧
      (∀ nodeid hash pindex now, (requestedRegistry.state nodeid).isSome →
        (requestedRegistry.markBlockAsInFlight nodeid hash pindex now).isSome) ∧
      (∀ nodeid, (requestedRegistry.state nodeid).isSome →
        (requestedRegistry.finalizeNode nodeid).isSome) :=
  ⟨requestedRegistry_reachable, registry_invariant requestedRegistry_reachable⟩

end XuezNet
