import XuezNet.Registry.NodeState

/-! # Registry operations

The functions of `messages.cpp` that create, update and remove peers and
in-flight blocks: `InitializeNode`, `UpdatePreferredDownload`,
`MarkBlockAsReceived`, `MarkBlockAsInFlight`, the sync start of
`SendMessages`, `Misbehaving` and the registry half of `FinalizeNode`. Each
returns `none` where the code dereferences a `NULL` state or fails an
`assert`.

`MarkBlockAsReceived` and `MarkBlockAsInFlight` change one peer's queue
(`CNodeState.dequeue`, `CNodeState.enqueue`) and the global index and counters
around it.
-/

namespace XuezNet

namespace CNodeState

/-- `std::list::erase(it)`: remove the list node an iterator names. -/
def eraseNode (node : Nat) (queue : List (Nat × QueuedBlock)) : List (Nat × QueuedBlock) :=
  queue.eraseP (fun entry => entry.1 = node)

theorem mem_eraseNode {node : Nat} {queue : List (Nat × QueuedBlock)}
    (unique : (queue.map Prod.fst).Nodup) {entry : Nat × QueuedBlock} :
    entry ∈ eraseNode node queue ↔ entry ∈ queue ∧ entry.1 ≠ node := by
  constructor
  · intro member
    refine ⟨List.mem_of_mem_eraseP member, fun same => ?_⟩
    obtain ⟨first, before, after, skipped, hit, rfl, erased⟩ :=
      List.exists_of_eraseP (List.mem_of_mem_eraseP member) (p := fun e => e.1 = node)
        (by simpa using same)
    rw [eraseNode, erased] at member
    rcases List.mem_append.mp member with early | late
    · exact skipped entry early (by simpa using same)
    · rw [List.map_append, List.map_cons] at unique
      have twice := List.nodup_cons.mp (List.nodup_middle.mp unique)
      simp only [decide_eq_true_eq] at hit
      exact twice.1 (List.mem_append_right _ (List.mem_map.mpr ⟨entry, late, same.trans hit.symm⟩))
  · rintro ⟨member, differ⟩
    exact (List.mem_eraseP_of_neg (by simpa using differ)).mpr member

theorem lookup_of_mem {queue : List (Nat × QueuedBlock)} (unique : (queue.map Prod.fst).Nodup)
    {node : Nat} {queued : QueuedBlock} (member : (node, queued) ∈ queue) :
    queue.lookup node = some queued := by
  induction queue with
  | nil => simp at member
  | cons head rest ih =>
      obtain ⟨key, value⟩ := head
      simp only [List.map_cons, List.nodup_cons, List.mem_map] at unique
      rcases List.mem_cons.mp member with same | later
      · cases same
        simp
      · have differ : node ≠ key := fun equal => unique.1 ⟨_, later, by simp [equal]⟩
        have skip : (node == key) = false := by simpa using differ
        simp [List.lookup_cons, skip, ih unique.2 later]

/-- Erasing a list node removes exactly the entry it names, once. -/
theorem eraseNode_split {node : Nat} {queue : List (Nat × QueuedBlock)}
    (unique : (queue.map Prod.fst).Nodup) {queued : QueuedBlock} (member : (node, queued) ∈ queue) :
    ∃ before after, queue = before ++ (node, queued) :: after ∧
      eraseNode node queue = before ++ after := by
  obtain ⟨first, before, after, _, hit, rfl, erased⟩ :=
    List.exists_of_eraseP member (p := fun e => e.1 = node) (by simp)
  obtain ⟨key, value⟩ := first
  simp only [decide_eq_true_eq] at hit
  subst hit
  have found := lookup_of_mem unique member
  have here := lookup_of_mem unique
    (List.mem_append_right before (List.mem_cons_self (key, value) after))
  rw [found] at here
  cases here
  exact ⟨before, after, rfl, erased⟩

/-- The peer half of `MarkBlockAsReceived`: drop the list node, restart the
download timer when it was the head, and clear the stall mark. -/
def dequeue (nodeState : CNodeState) (node : Nat) (queued : QueuedBlock) (now : Int) :
    CNodeState :=
  { nodeState with
    nBlocksInFlightValidHeaders :=
      nodeState.nBlocksInFlightValidHeaders - queued.fValidatedHeaders.toNat
    nDownloadingSince := if nodeState.vBlocksInFlight.head?.map Prod.fst = some node then
      max nodeState.nDownloadingSince now else nodeState.nDownloadingSince
    vBlocksInFlight := eraseNode node nodeState.vBlocksInFlight
    nBlocksInFlight := nodeState.nBlocksInFlight - 1
    nStallingSince := 0 }

@[simp] theorem dequeue_queue (nodeState : CNodeState) (node : Nat) (queued : QueuedBlock)
    (now : Int) :
    (nodeState.dequeue node queued now).vBlocksInFlight = eraseNode node nodeState.vBlocksInFlight ∧
    (nodeState.dequeue node queued now).nBlocksInFlight = nodeState.nBlocksInFlight - 1 ∧
    (nodeState.dequeue node queued now).nBlocksInFlightValidHeaders =
      nodeState.nBlocksInFlightValidHeaders - queued.fValidatedHeaders.toNat :=
  ⟨rfl, rfl, rfl⟩

@[simp] theorem dequeue_flags (nodeState : CNodeState) (node : Nat) (queued : QueuedBlock)
    (now : Int) :
    (nodeState.dequeue node queued now).fPreferredDownload = nodeState.fPreferredDownload ∧
    (nodeState.dequeue node queued now).fSyncStarted = nodeState.fSyncStarted :=
  ⟨rfl, rfl⟩

/-- The peer half of `MarkBlockAsInFlight`: append the list node and start the
download timer when it is the only one. -/
def enqueue (nodeState : CNodeState) (node : Nat) (queued : QueuedBlock) (now : Int) :
    CNodeState :=
  { nodeState with
    vBlocksInFlight := nodeState.vBlocksInFlight ++ [(node, queued)]
    nBlocksInFlight := nodeState.nBlocksInFlight + 1
    nBlocksInFlightValidHeaders :=
      nodeState.nBlocksInFlightValidHeaders + queued.fValidatedHeaders.toNat
    nDownloadingSince := if nodeState.nBlocksInFlight + 1 = 1 then now
      else nodeState.nDownloadingSince }

@[simp] theorem enqueue_queue (nodeState : CNodeState) (node : Nat) (queued : QueuedBlock)
    (now : Int) :
    (nodeState.enqueue node queued now).vBlocksInFlight =
      nodeState.vBlocksInFlight ++ [(node, queued)] ∧
    (nodeState.enqueue node queued now).nBlocksInFlight = nodeState.nBlocksInFlight + 1 ∧
    (nodeState.enqueue node queued now).nBlocksInFlightValidHeaders =
      nodeState.nBlocksInFlightValidHeaders + queued.fValidatedHeaders.toNat :=
  ⟨rfl, rfl, rfl⟩

@[simp] theorem enqueue_flags (nodeState : CNodeState) (node : Nat) (queued : QueuedBlock)
    (now : Int) :
    (nodeState.enqueue node queued now).fPreferredDownload = nodeState.fPreferredDownload ∧
    (nodeState.enqueue node queued now).fSyncStarted = nodeState.fSyncStarted :=
  ⟨rfl, rfl⟩

end CNodeState

namespace Registry

variable (registry : Registry)

/-- `InitializeNode`, registry half: `emplace` a fresh state for the peer. -/
def initializeNode (nodeid : NodeId) : Registry :=
  { registry with mapNodeState := registry.mapNodeState.emplace nodeid CNodeState.initial }

/-- `UpdatePreferredDownload(node, state)`, given the flags it reads from the
`CNode`: a peer is preferred when it is outbound or whitelisted, and neither
one-shot nor a client. -/
def updatePreferredDownload (nodeid : NodeId) (fInbound fWhitelisted fOneShot fClient : Bool) :
    Option Registry := do
  let nodeState ← registry.state nodeid
  let preferred := (!fInbound || fWhitelisted) && !fOneShot && !fClient
  some { registry.setState nodeid { nodeState with fPreferredDownload := preferred } with
    nPreferredDownload := registry.nPreferredDownload - nodeState.fPreferredDownload.toNat +
      preferred.toNat }

/-- `MarkBlockAsReceived(hash)` at clock reading `now`: drop the block from the
peer it was requested from; the flag says whether it was in flight. -/
def markBlockAsReceived (hash : Hash) (now : Int) : Option (Registry × Bool) :=
  match registry.mapBlocksInFlight.find? hash with
  | none => some (registry, false)
  | some (nodeid, node) => do
      let nodeState ← registry.state nodeid
      let queued ← nodeState.vBlocksInFlight.lookup node
      let nodeState' := nodeState.dequeue node queued now
      some ({ registry.setState nodeid nodeState' with
        nPeersWithValidatedDownloads := registry.nPeersWithValidatedDownloads -
          (nodeState'.nBlocksInFlightValidHeaders = 0 && queued.fValidatedHeaders).toNat
        mapBlocksInFlight := registry.mapBlocksInFlight.erase hash }, true)

/-- The second half of `MarkBlockAsInFlight`: queue a new list node for the block
at the peer and index the block at it. -/
def queueBlock (nodeid : NodeId) (nodeState : CNodeState) (hash : Hash) (pindex : Option Hash)
    (now : Int) : Registry :=
  let queued : QueuedBlock := ⟨hash, pindex, pindex.isSome⟩
  let node := registry.nextQueuedNode
  let nodeState' := nodeState.enqueue node queued now
  { registry.setState nodeid nodeState' with
    nextQueuedNode := node + 1
    nPeersWithValidatedDownloads := registry.nPeersWithValidatedDownloads +
      (nodeState'.nBlocksInFlightValidHeaders = 1 && pindex.isSome).toNat
    mapBlocksInFlight := registry.mapBlocksInFlight.insert hash (nodeid, node) }

/-- `MarkBlockAsInFlight(nodeid, hash, pindex)` at clock reading `now`: release
any earlier request for the block, then queue it at the end of the peer's list. -/
def markBlockAsInFlight (nodeid : NodeId) (hash : Hash) (pindex : Option Hash) (now : Int) :
    Option Registry := do
  let _ ← registry.state nodeid
  let (released, _) ← registry.markBlockAsReceived hash now
  let nodeState ← released.state nodeid
  some (released.queueBlock nodeid nodeState hash pindex now)

/-- The sync start of `SendMessages`, once its guard has passed: the peer becomes
the one headers are requested from. -/
def startSync (nodeid : NodeId) : Option Registry := do
  let nodeState ← registry.state nodeid
  if nodeState.fSyncStarted then some registry
  else some { registry.setState nodeid { nodeState with fSyncStarted := true } with
    nSyncStarted := registry.nSyncStarted + 1 }

/-- `Misbehaving(pnode, howmuch)` with ban threshold `banscore`. The score is an
`int`: `nMisbehavior += howmuch` and `nMisbehavior - howmuch` wrap around at 32
bits (`toInt32`). -/
def misbehaving (nodeid : NodeId) (howmuch banscore : Int) : Registry :=
  if howmuch = 0 then registry
  else match registry.state nodeid with
    | none => registry
    | some nodeState =>
        let score := toInt32 (nodeState.nMisbehavior + howmuch)
        let crossed := decide (banscore ≤ score) && decide (toInt32 (score - howmuch) < banscore)
        registry.setState nodeid { nodeState with
          nMisbehavior := score
          fShouldBan := nodeState.fShouldBan || crossed }

/-- The updates of `FinalizeNode` to a registered peer's registry entries: forget
the peer, its requests and its share of the counters. -/
def forgetNode (nodeid : NodeId) (nodeState : CNodeState) : Registry :=
  { registry with
    mapNodeState := registry.mapNodeState.erase nodeid
    mapBlocksInFlight := nodeState.vBlocksInFlight.foldl
      (fun index entry => index.erase entry.2.hash) registry.mapBlocksInFlight
    nSyncStarted := registry.nSyncStarted - nodeState.fSyncStarted.toNat
    nPreferredDownload := registry.nPreferredDownload - nodeState.fPreferredDownload.toNat
    nPeersWithValidatedDownloads := registry.nPeersWithValidatedDownloads -
      (nodeState.nBlocksInFlightValidHeaders ≠ 0 : Bool).toNat }

/-- `FinalizeNode`, registry half: forget the peer, then run the consistency
checks; `none` when an `assert` fails. The flag is `fUpdateConnectionTime`. -/
def finalizeNode (nodeid : NodeId) : Option (Registry × Bool) := do
  let nodeState ← registry.state nodeid
  let fUpdateConnectionTime := nodeState.nMisbehavior = 0 && nodeState.fCurrentlyConnected
  let finalized := registry.forgetNode nodeid nodeState
  if finalized.nPeersWithValidatedDownloads < 0 then none
  else if finalized.mapNodeState.entries = [] ∧ ¬(finalized.mapBlocksInFlight.entries = [] ∧
      finalized.nPreferredDownload = 0 ∧ finalized.nPeersWithValidatedDownloads = 0) then none
  else some (finalized, fUpdateConnectionTime)

end Registry

end XuezNet
