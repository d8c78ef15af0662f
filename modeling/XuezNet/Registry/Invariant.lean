import XuezNet.Registry.Operations

/-! # Consistency of the peer registry

`Registry.Consistent` is the registry's invariant: `mapBlocksInFlight` is an
exact index of the peers' queues (every entry names a registered peer's list
node for that hash, every queued block is indexed at its own node), list
nodes are unique and allocated, each peer's counts match its queue, and the
three global counters count the peers with the corresponding flag.

Each registry operation keeps it (`Consistent.initializeNode` through
`Consistent.finalizeNode`), so every state reached by any sequence of them is
consistent (`RegistryReachable.consistent`); in such a state no hash is queued
twice and the `State()` lookups and assertions of the operations never fail.
-/

namespace XuezNet

/-- A peer's own counters agree with its queue. -/
def CNodeState.Counted (nodeState : CNodeState) : Prop :=
  nodeState.nBlocksInFlight = nodeState.vBlocksInFlight.length ∧
    nodeState.nBlocksInFlightValidHeaders =
      nodeState.vBlocksInFlight.countP (fun entry => entry.2.fValidatedHeaders)

/-- Two states of one peer with the same download queue, counts and counted
flags: what the updates of a peer's other fields leave alone. -/
structure CNodeState.SameQueue (old new : CNodeState) : Prop where
  queue : new.vBlocksInFlight = old.vBlocksInFlight
  inFlight : new.nBlocksInFlight = old.nBlocksInFlight
  validHeaders : new.nBlocksInFlightValidHeaders = old.nBlocksInFlightValidHeaders
  preferred : new.fPreferredDownload = old.fPreferredDownload
  syncing : new.fSyncStarted = old.fSyncStarted

namespace Registry

/-- The number of registered peers whose state satisfies `flag`. -/
def countPeers (registry : Registry) (flag : CNodeState → Bool) : Nat :=
  registry.mapNodeState.countP (fun _ nodeState => flag nodeState)

/-- The queues and `mapBlocksInFlight` index each other exactly, list nodes are
unique and allocated, and each peer's counts match its queue. -/
structure QueuesIndexed (registry : Registry) : Prop where
  indexed : ∀ {nodeid nodeState node queued}, registry.state nodeid = some nodeState →
    (node, queued) ∈ nodeState.vBlocksInFlight →
      registry.mapBlocksInFlight.find? queued.hash = some (nodeid, node)
  targets : ∀ {hash nodeid node}, registry.mapBlocksInFlight.find? hash = some (nodeid, node) →
    ∃ nodeState, registry.state nodeid = some nodeState ∧
      ∃ queued, (node, queued) ∈ nodeState.vBlocksInFlight ∧ queued.hash = hash
  unique : ∀ {nodeid nodeState}, registry.state nodeid = some nodeState →
    (nodeState.vBlocksInFlight.map Prod.fst).Nodup
  allocated : ∀ {nodeid nodeState}, registry.state nodeid = some nodeState →
    ∀ entry ∈ nodeState.vBlocksInFlight, entry.1 < registry.nextQueuedNode
  counted : ∀ {nodeid nodeState}, registry.state nodeid = some nodeState → nodeState.Counted

/-- **The registry invariant**: exact queues and index, and the three global
counters count the peers with the corresponding flag. -/
structure Consistent (registry : Registry) extends registry.QueuesIndexed : Prop where
  validated : registry.nPeersWithValidatedDownloads =
    registry.countPeers (fun nodeState => 0 < nodeState.nBlocksInFlightValidHeaders)
  preferred : registry.nPreferredDownload = registry.countPeers (·.fPreferredDownload)
  syncing : registry.nSyncStarted = registry.countPeers (·.fSyncStarted)

/-- Writing back a registered peer's state moves each count by the change of that
peer's flag. -/
theorem countPeers_setState {registry : Registry} {nodeid : NodeId} {old : CNodeState}
    (found : registry.state nodeid = some old) (new : CNodeState) (flag : CNodeState → Bool) :
    (registry.setState nodeid new).countPeers flag + (flag old).toNat =
      registry.countPeers flag + (flag new).toNat := by
  have moved := registry.mapNodeState.countP_insert (fun _ nodeState => flag nodeState) nodeid new
  simp only [StdMap.countAt, show registry.mapNodeState.find? nodeid = some old from found] at moved
  exact moved

theorem countPeers_setState_of_eq {registry : Registry} {nodeid : NodeId} {old : CNodeState}
    (found : registry.state nodeid = some old) {new : CNodeState} {flag : CNodeState → Bool}
    (same : flag new = flag old) :
    (registry.setState nodeid new).countPeers flag = registry.countPeers flag := by
  have moved := countPeers_setState found new flag
  rw [same] at moved
  omega

/-- What every registered peer's state has, every registered peer's state has in
a registry that replaces one peer's state by a state that has it too. -/
theorem states_of_update {registry registry' : Registry} {nodeid : NodeId} {new : CNodeState}
    {P : CNodeState → Prop}
    (states : ∀ other, registry'.state other = if other = nodeid then some new else registry.state other)
    (holds : P new) (kept : ∀ {other nodeState}, registry.state other = some nodeState → P nodeState)
    {other : NodeId} {nodeState : CNodeState} (found : registry'.state other = some nodeState) : P nodeState := by
  rw [states] at found
  split_ifs at found
  · cases found
    exact holds
  · exact kept found

theorem consistent_empty : empty.Consistent where
  indexed found := by simp [state, empty] at found
  targets found := by simp [empty] at found
  unique found := by simp [state, empty] at found
  allocated found := by simp [state, empty] at found
  counted found := by simp [state, empty] at found
  validated := rfl
  preferred := rfl
  syncing := rfl

/-- Rewriting a registered peer's state without touching its queue or its queue
counts keeps the queues indexed. -/
theorem QueuesIndexed.setState {registry : Registry} (indexed : registry.QueuesIndexed)
    {nodeid : NodeId} {old new : CNodeState} (found : registry.state nodeid = some old)
    (queue : new.vBlocksInFlight = old.vBlocksInFlight)
    (inFlight : new.nBlocksInFlight = old.nBlocksInFlight)
    (validHeaders : new.nBlocksInFlightValidHeaders = old.nBlocksInFlightValidHeaders) :
    (registry.setState nodeid new).QueuesIndexed := by
  have lookup : ∀ {other nodeState}, (registry.setState nodeid new).state other = some nodeState →
      ∃ before, registry.state other = some before ∧
        nodeState.vBlocksInFlight = before.vBlocksInFlight ∧
        nodeState.nBlocksInFlight = before.nBlocksInFlight ∧
        nodeState.nBlocksInFlightValidHeaders = before.nBlocksInFlightValidHeaders := by
    intro other nodeState updated
    rw [state_setState] at updated
    split_ifs at updated with same
    · cases updated
      exact ⟨old, same ▸ found, queue, inFlight, validHeaders⟩
    · exact ⟨nodeState, updated, rfl, rfl, rfl⟩
  refine ⟨fun updated member => ?_, fun {_ other _} entry => ?_, fun updated => ?_,
    fun updated => ?_, fun updated => ?_⟩
  · obtain ⟨before, present, same, -, -⟩ := lookup updated
    exact indexed.indexed present (same ▸ member)
  · obtain ⟨before, present, queued, member, named⟩ := indexed.targets entry
    by_cases same : other = nodeid
    · subst same
      rw [found] at present
      cases present
      exact ⟨new, by simp, queued, queue ▸ member, named⟩
    · exact ⟨before, by simp [same, present], queued, member, named⟩
  · obtain ⟨before, present, same, -, -⟩ := lookup updated
    exact same ▸ indexed.unique present
  · obtain ⟨before, present, same, -, -⟩ := lookup updated
    exact same ▸ indexed.allocated present
  · obtain ⟨before, present, same, count, valid⟩ := lookup updated
    obtain ⟨countEq, validEq⟩ := indexed.counted present
    exact ⟨by rw [count, countEq, same], by rw [valid, validEq, same]⟩

/-- After `MarkBlockAsReceived` the block is no longer in flight, and the same
peers are registered. -/
theorem markBlockAsReceived_released {registry registry' : Registry} {hash : Hash} {now : Int}
    {received : Bool} (marked : registry.markBlockAsReceived hash now = some (registry', received)) :
    registry'.mapBlocksInFlight.find? hash = none ∧
      ∀ nodeid, (registry'.state nodeid).isSome = (registry.state nodeid).isSome := by
  cases entry : registry.mapBlocksInFlight.find? hash with
  | none =>
      simp only [Registry.markBlockAsReceived, entry, Option.some.injEq, Prod.mk.injEq] at marked
      exact marked.1 ▸ ⟨entry, fun _ => rfl⟩
  | some target =>
      obtain ⟨nodeid, node⟩ := target
      cases found : registry.state nodeid with
      | none => simp [Registry.markBlockAsReceived, entry, found] at marked
      | some nodeState =>
          cases lookup : nodeState.vBlocksInFlight.lookup node with
          | none => simp [Registry.markBlockAsReceived, entry, found, lookup] at marked
          | some queued =>
              simp only [Registry.markBlockAsReceived, entry, found, lookup, Option.bind_eq_bind,
                Option.some_bind, Option.some.injEq, Prod.mk.injEq] at marked
              obtain ⟨rfl, -⟩ := marked
              refine ⟨by simp, fun other => ?_⟩
              show ((registry.setState nodeid _).state other).isSome = _
              by_cases same : other = nodeid <;> simp [same, found]

/-- Forgetting a registered peer removes its flag from each count. -/
theorem countPeers_forgetNode {registry : Registry} {nodeid : NodeId} {nodeState : CNodeState}
    (found : registry.state nodeid = some nodeState) (flag : CNodeState → Bool) :
    (registry.forgetNode nodeid nodeState).countPeers flag + (flag nodeState).toNat =
      registry.countPeers flag := by
  have erased := registry.mapNodeState.countP_erase (fun _ nodeState => flag nodeState) nodeid
  simp only [StdMap.countAt, show registry.mapNodeState.find? nodeid = some nodeState from found]
    at erased
  exact erased

theorem initializeNode_state (registry : Registry) (nodeid other : NodeId) :
    (registry.initializeNode nodeid).state other =
      if other = nodeid ∧ registry.mapNodeState.contains nodeid = false then some CNodeState.initial
      else registry.state other :=
  StdMap.find?_emplace _ _ _ _

/-- `InitializeNode` registers the peer and keeps every peer registered. -/
theorem initializeNode_registers (registry : Registry) (nodeid : NodeId) {other : NodeId}
    (either : other = nodeid ∨ (registry.state other).isSome) :
    ((registry.initializeNode nodeid).state other).isSome := by
  rw [initializeNode_state]
  split_ifs with new
  · rfl
  · rcases either with rfl | registered
    · simpa [state, Option.isSome_iff_ne_none] using new
    · exact registered

@[simp] theorem forgetNode_state (registry : Registry) (nodeid other : NodeId) (nodeState : CNodeState) :
    (registry.forgetNode nodeid nodeState).state other =
      if other = nodeid then none else registry.state other := by
  simp [state, forgetNode]

/-- Forgetting a peer just registered, with its fresh state, gives back the
registry it was registered in. -/
theorem forgetNode_initializeNode {registry : Registry} {nodeid : NodeId} (absent : registry.state nodeid = none) :
    (registry.initializeNode nodeid).forgetNode nodeid CNodeState.initial = registry := by
  have erased : (registry.mapNodeState.emplace nodeid CNodeState.initial).erase nodeid = registry.mapNodeState :=
    StdMap.ext fun other => by
      rw [StdMap.find?_erase]
      split_ifs with same
      · rw [same]
        exact absent.symm
      · rw [StdMap.find?_emplace, if_neg fun both => same both.1]
  unfold forgetNode initializeNode
  simp only [erased]
  simp [CNodeState.initial]

/-- Forgetting a peer drops exactly the blocks of its queue from the index. -/
theorem forgetNode_find? (registry : Registry) (nodeid : NodeId) (nodeState : CNodeState) (hash : Hash) :
    (registry.forgetNode nodeid nodeState).mapBlocksInFlight.find? hash =
      if ∃ entry ∈ nodeState.vBlocksInFlight, entry.2.hash = hash then none
      else registry.mapBlocksInFlight.find? hash :=
  StdMap.find?_foldl_erase (fun entry : Nat × QueuedBlock => entry.2.hash) _ _ hash

/-- `FinalizeNode` forgets the peer's state as it was, and reports whether the
peer left well-behaved while connected. -/
theorem finalizeNode_eq {registry registry' : Registry} {nodeid : NodeId} {fUpdateConnectionTime : Bool}
    (finalized : registry.finalizeNode nodeid = some (registry', fUpdateConnectionTime)) :
    ∃ nodeState, registry.state nodeid = some nodeState ∧ registry' = registry.forgetNode nodeid nodeState ∧
      fUpdateConnectionTime = (nodeState.nMisbehavior = 0 && nodeState.fCurrentlyConnected) := by
  cases found : registry.state nodeid with
  | none => simp [finalizeNode, found] at finalized
  | some nodeState =>
      rw [finalizeNode, found] at finalized
      simp only [Option.bind_eq_bind, Option.some_bind] at finalized
      split_ifs at finalized
      cases finalized
      exact ⟨nodeState, rfl, rfl, rfl⟩

namespace Consistent

variable {registry registry' : Registry} (consistent : registry.Consistent)
include consistent

theorem initializeNode (nodeid : NodeId) : (registry.initializeNode nodeid).Consistent := by
  by_cases present : registry.mapNodeState.contains nodeid
  · simpa [Registry.initializeNode, StdMap.emplace, present] using consistent
  have absent : registry.state nodeid = none := by simpa [state] using present
  have counts : ∀ flag : CNodeState → Bool, flag CNodeState.initial = false →
      (registry.initializeNode nodeid).countPeers flag = registry.countPeers flag := by
    intro flag initial
    have moved := registry.mapNodeState.countP_insert (fun _ nodeState => flag nodeState) nodeid
      CNodeState.initial
    simp only [StdMap.countAt, show registry.mapNodeState.find? nodeid = none from absent,
      initial] at moved
    simpa [countPeers, Registry.initializeNode, StdMap.emplace, present] using moved
  have lookup : ∀ other, (registry.initializeNode nodeid).state other =
      if other = nodeid then some CNodeState.initial else registry.state other := by
    intro other
    simp [Registry.initializeNode, state, StdMap.emplace, present]
  refine ⟨⟨fun {other _ _ _} found member => ?_, fun {_ other _} entry => ?_,
    fun {other _} found => ?_, fun {other _} found => ?_, fun {other _} found => ?_⟩, ?_, ?_, ?_⟩
  · rw [lookup] at found
    split_ifs at found
    · cases found
      simp [CNodeState.initial] at member
    · exact consistent.indexed found member
  · obtain ⟨before, present', rest⟩ := consistent.targets entry
    have differ : other ≠ nodeid := by rintro rfl; simp [absent] at present'
    exact ⟨before, by rw [lookup]; simp [differ, present'], rest⟩
  · exact states_of_update lookup (by simp [CNodeState.initial]) consistent.unique found
  · exact states_of_update lookup (by simp [CNodeState.initial]) consistent.allocated found
  · exact states_of_update lookup (by simp [CNodeState.Counted, CNodeState.initial]) consistent.counted found
  · rw [counts _ (by simp [CNodeState.initial])]
    exact consistent.validated
  · rw [counts _ rfl]
    exact consistent.preferred
  · rw [counts _ rfl]
    exact consistent.syncing

/-- A registry that differs from a consistent one only in a registered peer's
flags and in the two counters of those flags, moved accordingly, is consistent. -/
theorem of_setState {nodeid : NodeId} {old new : CNodeState}
    (found : registry.state nodeid = some old)
    (nodes : registry'.mapNodeState = (registry.setState nodeid new).mapNodeState)
    (queue : new.vBlocksInFlight = old.vBlocksInFlight)
    (inFlight : new.nBlocksInFlight = old.nBlocksInFlight)
    (validHeaders : new.nBlocksInFlightValidHeaders = old.nBlocksInFlightValidHeaders)
    (index : registry'.mapBlocksInFlight = registry.mapBlocksInFlight)
    (allocator : registry'.nextQueuedNode = registry.nextQueuedNode)
    (validated : registry'.nPeersWithValidatedDownloads = registry.nPeersWithValidatedDownloads)
    (preferred : registry'.nPreferredDownload = registry.nPreferredDownload -
      old.fPreferredDownload.toNat + new.fPreferredDownload.toNat)
    (syncing : registry'.nSyncStarted = registry.nSyncStarted -
      old.fSyncStarted.toNat + new.fSyncStarted.toNat) :
    registry'.Consistent := by
  have queues := consistent.toQueuesIndexed.setState found queue inFlight validHeaders
  have counts : ∀ flag, registry'.countPeers flag = (registry.setState nodeid new).countPeers flag :=
    fun flag => by simp only [countPeers, nodes]
  have moved := fun flag => countPeers_setState found new flag
  have preferredMoved := moved (·.fPreferredDownload)
  have syncingMoved := moved (·.fSyncStarted)
  refine ⟨⟨fun found member => ?_, fun entry => ?_, fun found => ?_, fun found => ?_,
    fun found => ?_⟩, ?_, ?_, ?_⟩
  · exact index ▸ queues.indexed (by simpa [state, nodes] using found) member
  · obtain ⟨nodeState, present, rest⟩ := queues.targets (by rwa [index] at entry)
    exact ⟨nodeState, by simpa [state, nodes] using present, rest⟩
  · exact queues.unique (by simpa [state, nodes] using found)
  · exact allocator ▸ queues.allocated (by simpa [state, nodes] using found)
  · exact queues.counted (by simpa [state, nodes] using found)
  · rw [validated, counts, countPeers_setState_of_eq found (by rw [validHeaders])]
    exact consistent.validated
  · rw [preferred, counts, consistent.preferred]
    simp only at preferredMoved
    omega
  · rw [syncing, counts, consistent.syncing]
    simp only at syncingMoved
    omega

/-- Writing back a registered peer's state with the same queue and counted
flags keeps the registry consistent. -/
theorem setFields {nodeid : NodeId} {old new : CNodeState} (found : registry.state nodeid = some old)
    (same : old.SameQueue new) : (registry.setState nodeid new).Consistent :=
  consistent.of_setState found rfl same.queue same.inFlight same.validHeaders rfl rfl rfl
    (by simp [same.preferred]) (by simp [same.syncing])

theorem updatePreferredDownload {nodeid : NodeId} {fInbound fWhitelisted fOneShot fClient : Bool}
    (updated : registry.updatePreferredDownload nodeid fInbound fWhitelisted fOneShot fClient =
      some registry') : registry'.Consistent := by
  cases found : registry.state nodeid with
  | none => simp [Registry.updatePreferredDownload, found] at updated
  | some old =>
      rw [Registry.updatePreferredDownload, found] at updated
      simp only [Option.bind_eq_bind, Option.some_bind, Option.some.injEq] at updated
      subst updated
      exact consistent.of_setState found rfl rfl rfl rfl rfl rfl rfl rfl (by simp)

theorem startSync {nodeid : NodeId} (started : registry.startSync nodeid = some registry') :
    registry'.Consistent := by
  cases found : registry.state nodeid with
  | none => simp [Registry.startSync, found] at started
  | some old =>
      rw [Registry.startSync, found] at started
      simp only [Option.bind_eq_bind, Option.some_bind] at started
      split_ifs at started with already
      · cases started
        exact consistent
      · cases started
        exact consistent.of_setState found rfl rfl rfl rfl rfl rfl rfl (by simp)
          (by simp [already])

theorem misbehaving (nodeid : NodeId) (howmuch banscore : Int) :
    (registry.misbehaving nodeid howmuch banscore).Consistent := by
  unfold Registry.misbehaving
  split_ifs
  · exact consistent
  cases found : registry.state nodeid with
  | none => exact consistent
  | some old =>
      dsimp only
      exact consistent.of_setState found rfl rfl rfl rfl rfl rfl rfl (by simp) (by simp)

/-- `MarkBlockAsReceived` succeeds in a consistent registry: the index entry it
follows names a registered peer and one of that peer's list nodes. -/
theorem markBlockAsReceived_isSome (hash : Hash) (now : Int) :
    (registry.markBlockAsReceived hash now).isSome := by
  cases entry : registry.mapBlocksInFlight.find? hash with
  | none => simp [Registry.markBlockAsReceived, entry]
  | some target =>
      obtain ⟨nodeid, node⟩ := target
      obtain ⟨nodeState, found, queued, member, -⟩ := consistent.targets entry
      have lookup := CNodeState.lookup_of_mem (consistent.unique found) member
      simp [Registry.markBlockAsReceived, entry, found, lookup]

theorem markBlockAsReceived {hash : Hash} {now : Int} {received : Bool}
    (marked : registry.markBlockAsReceived hash now = some (registry', received)) :
    registry'.Consistent := by
  cases entry : registry.mapBlocksInFlight.find? hash with
  | none =>
      simp only [Registry.markBlockAsReceived, entry, Option.some.injEq, Prod.mk.injEq] at marked
      exact marked.1 ▸ consistent
  | some target =>
  obtain ⟨nodeid, node⟩ := target
  obtain ⟨nodeState, found, queued, member, named⟩ := consistent.targets entry
  have unique := consistent.unique found
  have lookup := CNodeState.lookup_of_mem unique member
  simp only [Registry.markBlockAsReceived, entry, found, lookup, Option.bind_eq_bind,
    Option.some_bind, Option.some.injEq, Prod.mk.injEq] at marked
  obtain ⟨rfl, -⟩ := marked
  set nodeState' := nodeState.dequeue node queued now with dequeued
  have states : ∀ other, (registry.setState nodeid nodeState').state other =
      if other = nodeid then some nodeState' else registry.state other := by
    intro other
    simp
  have kept : ∀ {entry'}, entry' ∈ nodeState'.vBlocksInFlight ↔
      entry' ∈ nodeState.vBlocksInFlight ∧ entry'.1 ≠ node := by
    intro entry'
    simp only [dequeued, CNodeState.dequeue_queue]
    exact CNodeState.mem_eraseNode unique
  -- a block of the same peer at another list node has another hash
  have otherHash : ∀ {node' queued'}, (node', queued') ∈ nodeState.vBlocksInFlight →
      node' ≠ node → queued'.hash ≠ hash := by
    intro node' queued' member' differ same
    have indexed := consistent.indexed found member'
    rw [same, entry] at indexed
    exact differ (Prod.mk.inj (Option.some.inj indexed)).2.symm
  refine ⟨⟨fun {other nodeState'' node' queued'} found' member' => ?_,
    fun {hash' other node'} entry' => ?_, fun {other nodeState''} found' => ?_,
    fun {other nodeState''} found' => ?_, fun {other nodeState''} found' => ?_⟩, ?_, ?_, ?_⟩
  · change (registry.setState nodeid nodeState').state other = _ at found'
    rw [states] at found'
    show (registry.mapBlocksInFlight.erase hash).find? queued'.hash = _
    by_cases same : other = nodeid
    · subst same
      simp only [↓reduceIte, Option.some.injEq] at found'
      subst found'
      obtain ⟨member', differ⟩ := kept.mp member'
      simp [otherHash member' differ, consistent.indexed found member']
    · simp only [same, ↓reduceIte] at found'
      have indexed := consistent.indexed found' member'
      have differ : queued'.hash ≠ hash := by
        intro equal
        rw [equal, entry] at indexed
        exact same (Prod.mk.inj (Option.some.inj indexed)).1.symm
      simp [differ, indexed]
  · change (registry.mapBlocksInFlight.erase hash).find? hash' = _ at entry'
    simp only [StdMap.find?_erase] at entry'
    split_ifs at entry' with same
    obtain ⟨nodeState'', found', queued', member', named'⟩ := consistent.targets entry'
    show ∃ nodeState, (registry.setState nodeid nodeState').state other = some nodeState ∧ _
    rw [states]
    by_cases owner : other = nodeid
    · subst owner
      rw [found] at found'
      cases found'
      have differ : node' ≠ node := by
        rintro rfl
        have again := CNodeState.lookup_of_mem unique member'
        rw [lookup] at again
        cases again
        exact same (named'.symm.trans named)
      exact ⟨_, by simp, queued', kept.mpr ⟨member', differ⟩, named'⟩
    · exact ⟨nodeState'', by simp [owner, found'], queued', member', named'⟩
  · change (registry.setState nodeid nodeState').state other = _ at found'
    refine states_of_update states ?_ consistent.unique found'
    simp only [dequeued, CNodeState.dequeue_queue]
    exact unique.sublist ((List.eraseP_sublist _).map _)
  · change (registry.setState nodeid nodeState').state other = _ at found'
    exact states_of_update states (fun entry' member' => consistent.allocated found entry' (kept.mp member').1)
      consistent.allocated found'
  · change (registry.setState nodeid nodeState').state other = _ at found'
    refine states_of_update states ?_ consistent.counted found'
    obtain ⟨before, after, split, erased⟩ := CNodeState.eraseNode_split unique member
    obtain ⟨inFlight, validHeaders⟩ := consistent.counted found
    rw [split] at inFlight validHeaders
    simp only [CNodeState.Counted, dequeued, CNodeState.dequeue_queue, erased, inFlight,
      validHeaders, List.length_append, List.length_cons, List.countP_append, List.countP_cons]
    constructor <;> cases queued.fValidatedHeaders <;> simp <;> omega
  · have moved := countPeers_setState found nodeState'
      (fun nodeState => 0 < nodeState.nBlocksInFlightValidHeaders)
    have validHeaders := (consistent.counted found).2
    obtain ⟨before, after, split, -⟩ := CNodeState.eraseNode_split unique member
    have counted : queued.fValidatedHeaders.toNat ≤ nodeState.nBlocksInFlightValidHeaders := by
      rw [validHeaders, split]
      cases hv : queued.fValidatedHeaders <;> simp [List.countP_append, hv] <;> omega
    show _ - _ = ((registry.setState nodeid nodeState').countPeers _ : Int)
    rw [consistent.validated]
    simp only [dequeued, CNodeState.dequeue_queue] at moved ⊢
    cases hv : queued.fValidatedHeaders
    · simp only [hv, Bool.toNat_false, Bool.and_false] at moved ⊢
      simp at moved ⊢
      omega
    · simp only [hv, Bool.toNat_true, Bool.and_true] at moved counted ⊢
      have positive : 0 < nodeState.nBlocksInFlightValidHeaders := by simpa using counted
      by_cases last : nodeState.nBlocksInFlightValidHeaders = 1
      · simp [last] at moved ⊢
        omega
      · have remains : 0 < nodeState.nBlocksInFlightValidHeaders - 1 := by omega
        simp [positive, remains, remains.ne'] at moved ⊢
        omega
  · show _ = ((registry.setState nodeid nodeState').countPeers (·.fPreferredDownload) : Int)
    rw [countPeers_setState_of_eq found (by simp [dequeued])]
    exact consistent.preferred
  · show _ = ((registry.setState nodeid nodeState').countPeers (·.fSyncStarted) : Int)
    rw [countPeers_setState_of_eq found (by simp [dequeued])]
    exact consistent.syncing

/-- Queueing a block that is not in flight at a registered peer keeps the registry
consistent: the new list node is fresh and its hash was not indexed. -/
theorem queueBlock {nodeid : NodeId} {nodeState : CNodeState} {hash : Hash}
    (found : registry.state nodeid = some nodeState)
    (idle : registry.mapBlocksInFlight.find? hash = none) (pindex : Option Hash) (now : Int) :
    (registry.queueBlock nodeid nodeState hash pindex now).Consistent := by
  set queued : QueuedBlock := ⟨hash, pindex, pindex.isSome⟩
  set node := registry.nextQueuedNode
  set nodeState' := nodeState.enqueue node queued now with enqueued
  have states : ∀ other, (registry.queueBlock nodeid nodeState hash pindex now).state other =
      if other = nodeid then some nodeState' else registry.state other := by
    intro other
    simp [Registry.queueBlock, state, setState, nodeState', node, queued]
  have index : ∀ hash', (registry.queueBlock nodeid nodeState hash pindex now).mapBlocksInFlight.find?
      hash' = if hash' = hash then some (nodeid, node) else registry.mapBlocksInFlight.find? hash' := by
    intro hash'
    simp [Registry.queueBlock, node]
  have kept : ∀ {entry}, entry ∈ nodeState'.vBlocksInFlight ↔
      entry ∈ nodeState.vBlocksInFlight ∨ entry = (node, queued) := by
    intro entry
    simp [enqueued]
  -- every block already queued has another hash
  have otherHash : ∀ {other nodeState'' node' queued'}, registry.state other = some nodeState'' →
      (node', queued') ∈ nodeState''.vBlocksInFlight → queued'.hash ≠ hash := by
    intro other nodeState'' node' queued' found' member' same
    have indexed := consistent.indexed found' member'
    rw [same, idle] at indexed
    cases indexed
  refine ⟨⟨fun {other nodeState'' node' queued'} found' member' => ?_,
    fun {hash' other node'} entry' => ?_, fun {other nodeState''} found' => ?_,
    fun {other nodeState''} found' => ?_, fun {other nodeState''} found' => ?_⟩, ?_, ?_, ?_⟩
  · rw [states] at found'
    rw [index]
    split_ifs at found' with same
    · cases found'
      rcases kept.mp member' with old | added
      · simp [otherHash found old, consistent.indexed found old, same]
      · obtain ⟨rfl, rfl⟩ := Prod.mk.inj added
        simp [queued, same]
    · simp [otherHash found' member', consistent.indexed found' member']
  · rw [index] at entry'
    rw [states]
    split_ifs at entry' with same
    · cases entry'
      exact ⟨nodeState', by simp, queued, kept.mpr (.inr rfl), same.symm⟩
    · obtain ⟨nodeState'', found', queued', member', named⟩ := consistent.targets entry'
      by_cases owner : other = nodeid
      · subst owner
        rw [found] at found'
        cases found'
        exact ⟨nodeState', by simp, queued', kept.mpr (.inl member'), named⟩
      · exact ⟨nodeState'', by simp [owner, found'], queued', member', named⟩
  · refine states_of_update states ?_ consistent.unique found'
    have fresh : node ∉ nodeState.vBlocksInFlight.map Prod.fst := by
      simp only [List.mem_map, not_exists, not_and]
      exact fun entry member same => (consistent.allocated found entry member).ne same
    simpa [enqueued, List.nodup_append, fresh] using consistent.unique found
  · show ∀ entry ∈ nodeState''.vBlocksInFlight, entry.1 < node + 1
    refine states_of_update states (fun entry member => ?_)
      (fun found' entry member => Nat.lt_succ_of_lt (consistent.allocated found' entry member)) found'
    rcases kept.mp member with old | rfl
    · exact Nat.lt_succ_of_lt (consistent.allocated found entry old)
    · exact Nat.lt_succ_self node
  · refine states_of_update states ?_ consistent.counted found'
    obtain ⟨inFlight, validHeaders⟩ := consistent.counted found
    simp only [CNodeState.Counted, enqueued, CNodeState.enqueue_queue, List.length_append,
      List.countP_append, inFlight, validHeaders]
    constructor <;> cases pindex <;> simp [queued]
  · have moved := countPeers_setState found nodeState'
      (fun nodeState => 0 < nodeState.nBlocksInFlightValidHeaders)
    have nonneg : 0 ≤ nodeState.nBlocksInFlightValidHeaders := by
      rw [(consistent.counted found).2]
      omega
    show _ + _ = ((registry.setState nodeid nodeState').countPeers _ : Int)
    rw [consistent.validated]
    simp only [enqueued, CNodeState.enqueue_queue] at moved ⊢
    cases pindex with
    | none =>
        simp only [queued, Option.isSome_none, Bool.toNat_false, Bool.and_false] at moved ⊢
        simp at moved ⊢
        omega
    | some pindex =>
        simp only [queued, Option.isSome_some, Bool.toNat_true, Bool.and_true] at moved ⊢
        by_cases idleBefore : nodeState.nBlocksInFlightValidHeaders = 0
        · simp [idleBefore] at moved ⊢
          omega
        · have positive : 0 < nodeState.nBlocksInFlightValidHeaders := by omega
          have busy : nodeState.nBlocksInFlightValidHeaders + 1 ≠ 1 := by omega
          simp [positive, busy, show 0 < nodeState.nBlocksInFlightValidHeaders + 1 by omega]
            at moved ⊢
          omega
  · show _ = ((registry.setState nodeid nodeState').countPeers (·.fPreferredDownload) : Int)
    rw [countPeers_setState_of_eq found (by simp [enqueued])]
    exact consistent.preferred
  · show _ = ((registry.setState nodeid nodeState').countPeers (·.fSyncStarted) : Int)
    rw [countPeers_setState_of_eq found (by simp [enqueued])]
    exact consistent.syncing

/-- `MarkBlockAsInFlight` keeps the registry consistent, also when it steals the
block from another peer. -/
theorem markBlockAsInFlight {nodeid : NodeId} {hash : Hash} {pindex : Option Hash} {now : Int}
    (marked : registry.markBlockAsInFlight nodeid hash pindex now = some registry') :
    registry'.Consistent := by
  obtain ⟨⟨released, received⟩, receivedEq⟩ :=
    Option.isSome_iff_exists.mp (consistent.markBlockAsReceived_isSome hash now)
  cases found : registry.state nodeid with
  | none => simp [Registry.markBlockAsInFlight, found] at marked
  | some _ =>
  cases present : released.state nodeid with
  | none => simp [Registry.markBlockAsInFlight, found, receivedEq, present] at marked
  | some nodeState =>
      simp only [Registry.markBlockAsInFlight, found, receivedEq, present, Option.bind_eq_bind,
        Option.some_bind, Option.some.injEq] at marked
      subst marked
      exact (consistent.markBlockAsReceived receivedEq).queueBlock present
        (markBlockAsReceived_released receivedEq).1 pindex now

/-- `MarkBlockAsInFlight` succeeds for a registered peer: its `assert` holds and the
second `State()` lookup, after the release, finds the peer again. -/
theorem markBlockAsInFlight_isSome {nodeid : NodeId} (registered : (registry.state nodeid).isSome)
    (hash : Hash) (pindex : Option Hash) (now : Int) :
    (registry.markBlockAsInFlight nodeid hash pindex now).isSome := by
  obtain ⟨⟨released, received⟩, receivedEq⟩ :=
    Option.isSome_iff_exists.mp (consistent.markBlockAsReceived_isSome hash now)
  obtain ⟨_, found⟩ := Option.isSome_iff_exists.mp registered
  have kept := (markBlockAsReceived_released receivedEq).2 nodeid
  rw [found, Option.isSome_some, Option.isSome_iff_exists] at kept
  obtain ⟨nodeState, present⟩ := kept
  simp [Registry.markBlockAsInFlight, found, receivedEq, present]

theorem forgetNode {nodeid : NodeId} {nodeState : CNodeState}
    (found : registry.state nodeid = some nodeState) :
    (registry.forgetNode nodeid nodeState).Consistent := by
  have remaining : ∀ {other nodeState'}, (registry.forgetNode nodeid nodeState).state other =
      some nodeState' → other ≠ nodeid ∧ registry.state other = some nodeState' := by
    intro other nodeState' found'
    simp only [state, Registry.forgetNode, StdMap.find?_erase] at found'
    split_ifs at found' with same
    exact ⟨same, found'⟩
  have index := registry.forgetNode_find? nodeid nodeState
  -- a block queued at another peer is none of the forgotten peer's
  have foreign : ∀ {other nodeState' node queued}, registry.state other = some nodeState' →
      (node, queued) ∈ nodeState'.vBlocksInFlight → other ≠ nodeid →
      ¬∃ entry ∈ nodeState.vBlocksInFlight, entry.2.hash = queued.hash := by
    rintro other nodeState' node queued found' member differ ⟨entry, mine, same⟩
    have indexed := consistent.indexed found' member
    rw [← same, consistent.indexed found mine] at indexed
    exact differ (Prod.mk.inj (Option.some.inj indexed)).1.symm
  have moved := fun flag => countPeers_forgetNode found flag
  refine ⟨⟨fun found' member => ?_, fun {hash other node} entry => ?_, fun found' => ?_,
    fun found' => ?_, fun found' => ?_⟩, ?_, ?_, ?_⟩
  · obtain ⟨differ, found'⟩ := remaining found'
    rw [index, if_neg (foreign found' member differ)]
    exact consistent.indexed found' member
  · rw [index] at entry
    split_ifs at entry with forgotten
    obtain ⟨nodeState', found', queued, member, named⟩ := consistent.targets entry
    have differ : other ≠ nodeid := by
      rintro rfl
      rw [found] at found'
      cases found'
      exact forgotten ⟨_, member, named⟩
    refine ⟨nodeState', ?_, queued, member, named⟩
    simpa [state, Registry.forgetNode, differ] using found'
  · exact consistent.unique (remaining found').2
  · exact consistent.allocated (remaining found').2
  · exact consistent.counted (remaining found').2
  · have nonneg : 0 ≤ nodeState.nBlocksInFlightValidHeaders := by
      rw [(consistent.counted found).2]
      omega
    have validated := moved (fun nodeState => 0 < nodeState.nBlocksInFlightValidHeaders)
    show registry.nPeersWithValidatedDownloads - _ =
      ((registry.forgetNode nodeid nodeState).countPeers _ : Int)
    rw [consistent.validated]
    by_cases idle : nodeState.nBlocksInFlightValidHeaders = 0
    · simp [idle] at validated ⊢
      omega
    · simp [idle, lt_of_le_of_ne nonneg (Ne.symm idle)] at validated ⊢
      omega
  · have preferred := moved (·.fPreferredDownload)
    show registry.nPreferredDownload - _ =
      ((registry.forgetNode nodeid nodeState).countPeers (·.fPreferredDownload) : Int)
    rw [consistent.preferred]
    omega
  · have syncing := moved (·.fSyncStarted)
    show registry.nSyncStarted - _ =
      ((registry.forgetNode nodeid nodeState).countPeers (·.fSyncStarted) : Int)
    rw [consistent.syncing]
    omega

theorem finalizeNode {nodeid : NodeId} {fUpdateConnectionTime : Bool}
    (finalized : registry.finalizeNode nodeid = some (registry', fUpdateConnectionTime)) :
    registry'.Consistent := by
  obtain ⟨nodeState, found, rfl, -⟩ := finalizeNode_eq finalized
  exact consistent.forgetNode found

/-- `FinalizeNode`'s assertions hold for a registered peer of a consistent
registry: the validated-download count stays non-negative, and once the last
peer is gone nothing is in flight and both counters are zero. -/
theorem finalizeNode_isSome {nodeid : NodeId} (registered : (registry.state nodeid).isSome) :
    (registry.finalizeNode nodeid).isSome := by
  obtain ⟨nodeState, found⟩ := Option.isSome_iff_exists.mp registered
  have forgotten := consistent.forgetNode found
  have nonneg : 0 ≤ (registry.forgetNode nodeid nodeState).nPeersWithValidatedDownloads := by
    rw [forgotten.validated]
    omega
  rw [Registry.finalizeNode, found]
  simp only [Option.bind_eq_bind, Option.some_bind]
  rw [if_neg (not_lt.mpr nonneg), if_neg]
  · rfl
  rintro ⟨noPeers, busy⟩
  have unregistered : ∀ other, (registry.forgetNode nodeid nodeState).state other = none :=
    fun other => by simp [state, StdMap.find?, noPeers]
  refine busy ⟨List.eq_nil_iff_forall_not_mem.mpr ?_, ?_, ?_⟩
  · rintro ⟨hash, other, node⟩ member
    obtain ⟨_, present, -⟩ := forgotten.targets ((StdMap.mem_entries_iff _ _ _).mp member)
    rw [unregistered] at present
    cases present
  · rw [forgotten.preferred]
    simp [countPeers, StdMap.countP, noPeers]
  · rw [forgotten.validated]
    simp [countPeers, StdMap.countP, noPeers]

/-- **Registering a new peer and forgetting it at once gives back the registry**:
on a consistent registry without the peer, `FinalizeNode` after `InitializeNode`
passes its assertions, restores every map and counter, and asks for no update of
the connection time. -/
theorem finalizeNode_initializeNode {nodeid : NodeId} (absent : registry.state nodeid = none) :
    (registry.initializeNode nodeid).finalizeNode nodeid = some (registry, false) := by
  have found : (registry.initializeNode nodeid).state nodeid = some CNodeState.initial := by
    rw [initializeNode_state, if_pos ⟨rfl, by rw [StdMap.contains, ← state, absent]; rfl⟩]
  obtain ⟨⟨registry', fUpdateConnectionTime⟩, finalized⟩ := Option.isSome_iff_exists.mp
    ((consistent.initializeNode nodeid).finalizeNode_isSome (by rw [found]; rfl))
  obtain ⟨nodeState, found', rfl, rfl⟩ := finalizeNode_eq finalized
  rw [found] at found'
  cases found'
  rw [finalized, forgetNode_initializeNode absent]
  rfl

end Consistent

/-- A second peer registered and forgotten beside a first one. -/
theorem finalizeNode_initializeNode_second :
    (empty.initializeNode 1).Consistent ∧ (empty.initializeNode 1).state 2 = none ∧
      ((empty.initializeNode 1).initializeNode 2).finalizeNode 2 = some (empty.initializeNode 1, false) :=
  ⟨consistent_empty.initializeNode 1, rfl, (consistent_empty.initializeNode 1).finalizeNode_initializeNode rfl⟩

end Registry

end XuezNet
