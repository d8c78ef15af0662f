import XuezNet.Registry.Reachable

/-! # What the message handlers do to the registry

The handlers change the registry in two ways. `RegistryUpdate` is every change
other than a block request: a write-back of a peer's other fields, a download
preference, a received block, a sync start, a misbehavior score. None of them
registers or forgets a peer, none raises a peer's count of blocks in flight,
and none puts a hash in flight (`RegistryUpdate.state_isSome`,
`RegistryUpdate.inFlight_le`, `RegistryUpdate.find?_none`).

A block request for a hash that is not in flight releases nothing: it queues
the block at the peer, whose count rises by one, and indexes it there, leaving
every other peer and every other hash as it was
(`markBlockAsInFlight_of_fresh`).
-/

namespace XuezNet

open Registry

/-- A change of the registry by a message handler other than a block request. -/
inductive RegistryUpdate : Registry → Registry → Prop
  | setFields {registry : Registry} {nodeid : NodeId} {old new : CNodeState}
      (found : registry.state nodeid = some old) (same : old.SameQueue new) :
      RegistryUpdate registry (registry.setState nodeid new)
  | updatePreferredDownload {registry registry' : Registry} {nodeid : NodeId}
      {fInbound fWhitelisted fOneShot fClient : Bool}
      (updated : registry.updatePreferredDownload nodeid fInbound fWhitelisted fOneShot fClient =
        some registry') :
      RegistryUpdate registry registry'
  | markBlockAsReceived {registry registry' : Registry} {hash : Hash} {now : Int} {received : Bool}
      (marked : registry.markBlockAsReceived hash now = some (registry', received)) :
      RegistryUpdate registry registry'
  | startSync {registry registry' : Registry} {nodeid : NodeId}
      (started : registry.startSync nodeid = some registry') :
      RegistryUpdate registry registry'
  | misbehaving (registry : Registry) (nodeid : NodeId) (howmuch banscore : Int) :
      RegistryUpdate registry (registry.misbehaving nodeid howmuch banscore)

namespace RegistryUpdate

variable {registry registry' : Registry}

/-- Every update is a registry operation, so it keeps the registry consistent. -/
theorem toStep (update : RegistryUpdate registry registry') : RegistryStep registry registry' := by
  cases update with
  | setFields found same => exact .setFields found same
  | updatePreferredDownload updated => exact .updatePreferredDownload updated
  | markBlockAsReceived marked => exact .markBlockAsReceived marked
  | startSync started => exact .startSync started
  | misbehaving => exact .misbehaving _ _ _ _

/-- The writes of an update: one registered peer's state, possibly with a
smaller count, and possibly an index entry fewer. -/
theorem cases_setState (update : RegistryUpdate registry registry') :
    registry' = registry ∨ ∃ nodeid old new, registry.state nodeid = some old ∧
      new.nBlocksInFlight ≤ old.nBlocksInFlight ∧
      registry'.mapNodeState = (registry.setState nodeid new).mapNodeState ∧
      ∀ hash, registry.mapBlocksInFlight.find? hash = none →
        registry'.mapBlocksInFlight.find? hash = none := by
  cases update with
  | setFields found same =>
      exact .inr ⟨_, _, _, found, same.inFlight.le, rfl, fun _ idle => idle⟩
  | updatePreferredDownload updated =>
      rename_i nodeid fInbound fWhitelisted fOneShot fClient
      cases found : registry.state nodeid with
      | none => simp [Registry.updatePreferredDownload, found] at updated
      | some old =>
          simp only [Registry.updatePreferredDownload, found, Option.bind_eq_bind, Option.some_bind,
            Option.some.injEq] at updated
          subst updated
          exact .inr ⟨nodeid, old, { old with fPreferredDownload :=
            (!fInbound || fWhitelisted) && !fOneShot && !fClient }, found, le_rfl, rfl,
            fun _ idle => idle⟩
  | markBlockAsReceived marked =>
      rename_i hash now _
      unfold Registry.markBlockAsReceived at marked
      split at marked
      · simp only [Option.some.injEq, Prod.mk.injEq] at marked
        exact .inl marked.1.symm
      · rename_i nodeid node _
        cases found : registry.state nodeid with
        | none => simp [found] at marked
        | some old =>
            cases lookup : old.vBlocksInFlight.lookup node with
            | none => simp [found, lookup] at marked
            | some queued =>
                simp only [found, lookup, Option.bind_eq_bind, Option.some_bind, Option.some.injEq,
                  Prod.mk.injEq] at marked
                obtain ⟨rfl, -⟩ := marked
                refine .inr ⟨nodeid, old, _, found, ?_, rfl, fun other idle => ?_⟩
                · simp only [CNodeState.dequeue_queue]
                  omega
                · simp [StdMap.find?_erase, idle]
  | startSync started =>
      rename_i nodeid
      cases found : registry.state nodeid with
      | none => simp [Registry.startSync, found] at started
      | some old =>
          simp only [Registry.startSync, found, Option.bind_eq_bind, Option.some_bind] at started
          split_ifs at started
          · cases started
            exact .inl rfl
          · cases started
            exact .inr ⟨nodeid, old, { old with fSyncStarted := true }, found, le_rfl, rfl,
              fun _ idle => idle⟩
  | misbehaving nodeid howmuch banscore =>
      unfold Registry.misbehaving
      split_ifs
      · exact .inl rfl
      cases found : registry.state nodeid with
      | none => exact .inl rfl
      | some old =>
          exact .inr ⟨nodeid, old, { old with
            nMisbehavior := toInt32 (old.nMisbehavior + howmuch)
            fShouldBan := old.fShouldBan || (decide (banscore ≤ toInt32 (old.nMisbehavior + howmuch)) &&
              decide (toInt32 (toInt32 (old.nMisbehavior + howmuch) - howmuch) < banscore)) }, found, le_rfl, rfl,
            fun _ idle => idle⟩

/-- An update registers and forgets no peer. -/
theorem state_isSome (update : RegistryUpdate registry registry') (nodeid : NodeId) :
    (registry'.state nodeid).isSome = (registry.state nodeid).isSome := by
  rcases update.cases_setState with rfl | ⟨written, old, new, found, -, nodes, -⟩
  · rfl
  · have state' : registry'.state nodeid = (registry.setState written new).state nodeid := by
      simp only [state, nodes]
    rw [state', state_setState]
    split_ifs with same
    · subst same
      simp [found]
    · rfl

/-- An update raises no peer's count of blocks in flight. -/
theorem inFlight_le (update : RegistryUpdate registry registry') {nodeid : NodeId}
    {nodeState' : CNodeState} (found' : registry'.state nodeid = some nodeState') :
    ∃ nodeState, registry.state nodeid = some nodeState ∧
      nodeState'.nBlocksInFlight ≤ nodeState.nBlocksInFlight := by
  rcases update.cases_setState with rfl | ⟨written, old, new, found, lower, nodes, -⟩
  · exact ⟨nodeState', found', le_rfl⟩
  · have state' : registry'.state nodeid = (registry.setState written new).state nodeid := by
      simp only [state, nodes]
    rw [state', state_setState] at found'
    split_ifs at found' with same
    · cases found'
      exact ⟨old, same ▸ found, lower⟩
    · exact ⟨nodeState', found', le_rfl⟩

/-- An update puts no hash in flight. -/
theorem find?_none (update : RegistryUpdate registry registry') {hash : Hash}
    (idle : registry.mapBlocksInFlight.find? hash = none) :
    registry'.mapBlocksInFlight.find? hash = none := by
  rcases update.cases_setState with rfl | ⟨-, -, -, -, -, -, index⟩
  · exact idle
  · exact index hash idle

end RegistryUpdate

/-- A request for a hash not in flight only queues it at the requesting peer. -/
theorem markBlockAsInFlight_of_fresh {registry registry' : Registry} {nodeid : NodeId} {hash : Hash}
    {pindex : Option Hash} {now : Int} (fresh : registry.mapBlocksInFlight.find? hash = none)
    (marked : registry.markBlockAsInFlight nodeid hash pindex now = some registry') :
    ∃ nodeState, registry.state nodeid = some nodeState ∧
      registry' = registry.queueBlock nodeid nodeState hash pindex now := by
  cases found : registry.state nodeid with
  | none => simp [markBlockAsInFlight, found] at marked
  | some nodeState =>
      simp only [markBlockAsInFlight, markBlockAsReceived, fresh, found, Option.bind_eq_bind,
        Option.some_bind, Option.some.injEq] at marked
      exact ⟨nodeState, rfl, marked.symm⟩

namespace Registry

variable (registry : Registry) (nodeid : NodeId) (nodeState : CNodeState) (hash : Hash)
  (pindex : Option Hash) (now : Int)

@[simp] theorem queueBlock_state (other : NodeId) :
    (registry.queueBlock nodeid nodeState hash pindex now).state other =
      if other = nodeid then
        some (nodeState.enqueue registry.nextQueuedNode ⟨hash, pindex, pindex.isSome⟩ now)
      else registry.state other :=
  state_setState _ _ _ _

@[simp] theorem queueBlock_find? (other : Hash) :
    (registry.queueBlock nodeid nodeState hash pindex now).mapBlocksInFlight.find? other =
      if other = hash then some (nodeid, registry.nextQueuedNode)
      else registry.mapBlocksInFlight.find? other := by
  simp [queueBlock, StdMap.find?_insert]

/-- The download bookkeeping of a registry, timing apart: the index of blocks in
flight, the count of peers with validated downloads, and each peer's queue and
counts. -/
def inFlightView (registry : Registry) :
    StdMap Hash (NodeId × Nat) × Int × (NodeId → Option (List (Nat × QueuedBlock) × Int × Int)) :=
  (registry.mapBlocksInFlight, registry.nPeersWithValidatedDownloads,
    fun nodeid => (registry.state nodeid).map fun nodeState =>
      (nodeState.vBlocksInFlight, nodeState.nBlocksInFlight, nodeState.nBlocksInFlightValidHeaders))

/-- `MarkBlockAsReceived` reads the clock for the peer's timing only. -/
theorem markBlockAsReceived_inFlightView {registry released : Registry} {hash : Hash} {now : Int}
    {received : Bool} (marked : registry.markBlockAsReceived hash now = some (released, received)) (now' : Int) :
    ∃ released', registry.markBlockAsReceived hash now' = some (released', received) ∧
      released'.inFlightView = released.inFlightView := by
  unfold markBlockAsReceived at marked ⊢
  cases entry : registry.mapBlocksInFlight.find? hash with
  | none =>
      simp only [entry, Option.some.injEq, Prod.mk.injEq] at marked
      obtain ⟨rfl, rfl⟩ := marked
      exact ⟨_, rfl, rfl⟩
  | some target =>
      obtain ⟨nodeid, node⟩ := target
      simp only [entry, Option.bind_eq_bind] at marked ⊢
      obtain ⟨nodeState, found, marked⟩ := Option.bind_eq_some.mp marked
      obtain ⟨queued, lookup, marked⟩ := Option.bind_eq_some.mp marked
      cases marked
      refine ⟨_, by rw [found, Option.some_bind, lookup, Option.some_bind], ?_⟩
      dsimp only [inFlightView, setState]
      refine Prod.ext rfl (Prod.ext rfl (funext fun other => ?_))
      by_cases same : other = nodeid <;> simp [inFlightView, state, setState, same, CNodeState.dequeue]

/-- Erasing the list node just appended restores the queue. -/
theorem eraseNode_append_fresh {queue : List (Nat × QueuedBlock)} {node : Nat} (queued : QueuedBlock)
    (fresh : node ∉ queue.map Prod.fst) : CNodeState.eraseNode node (queue ++ [(node, queued)]) = queue := by
  unfold CNodeState.eraseNode
  rw [List.eraseP_append_right _ fun entry member same => fresh (List.mem_map.mpr ⟨entry, member, by simpa using same⟩)]
  simp

theorem lookup_append_fresh {queue : List (Nat × QueuedBlock)} {node : Nat} (queued : QueuedBlock)
    (fresh : node ∉ queue.map Prod.fst) : (queue ++ [(node, queued)]).lookup node = some queued := by
  induction queue with
  | nil => simp [List.lookup_cons]
  | cons head rest ih =>
      obtain ⟨key, value⟩ := head
      simp only [List.map_cons, List.mem_cons, not_or] at fresh
      have skip : (node == key) = false := by simpa using fresh.1
      simp [List.lookup_cons, skip, ih fresh.2]

/-- **A block marked in flight and then received leaves the downloads as
receiving it alone would**, for a registered peer of a consistent registry and
any clock readings: the second call finds the block in flight at the peer, and
only the peer's timing fields may differ. When the block was not in flight,
the downloads are restored exactly. -/
theorem markBlockAsInFlight_received {registry : Registry} (consistent : registry.Consistent) {nodeid : NodeId}
    (registered : (registry.state nodeid).isSome) (hash : Hash) (pindex : Option Hash) (now now' now'' : Int) :
    ∃ marked cleared alone received,
      registry.markBlockAsInFlight nodeid hash pindex now = some marked ∧
      marked.markBlockAsReceived hash now' = some (cleared, true) ∧
      registry.markBlockAsReceived hash now'' = some (alone, received) ∧
      cleared.inFlightView = alone.inFlightView ∧
      (registry.mapBlocksInFlight.find? hash = none → cleared.inFlightView = registry.inFlightView) := by
  obtain ⟨⟨released, received⟩, receivedEq⟩ :=
    Option.isSome_iff_exists.mp (consistent.markBlockAsReceived_isSome hash now)
  obtain ⟨gone, kept⟩ := markBlockAsReceived_released receivedEq
  obtain ⟨nodeState, found₁⟩ := Option.isSome_iff_exists.mp ((kept nodeid).trans registered)
  obtain ⟨_, found⟩ := Option.isSome_iff_exists.mp registered
  have fresh : released.nextQueuedNode ∉ nodeState.vBlocksInFlight.map Prod.fst := fun member => by
    obtain ⟨entry, mem, same⟩ := List.mem_map.mp member
    have := (consistent.markBlockAsReceived receivedEq).allocated found₁ entry mem
    omega
  have restored := eraseNode_append_fresh ⟨hash, pindex, pindex.isSome⟩ fresh
  have lookup := lookup_append_fresh ⟨hash, pindex, pindex.isSome⟩ fresh
  obtain ⟨alone, aloneEq, aloneView⟩ := markBlockAsReceived_inFlightView receivedEq now''
  have view : ((released.queueBlock nodeid nodeState hash pindex now).markBlockAsReceived hash now').map
      (fun result => (result.1.inFlightView, result.2)) = some (released.inFlightView, true) := by
    simp only [markBlockAsReceived, queueBlock_find?, queueBlock_state, CNodeState.enqueue, lookup, if_true,
      Option.bind_eq_bind, Option.some_bind, Option.map_some', inFlightView, Option.some.injEq, Prod.mk.injEq]
    refine ⟨⟨StdMap.ext fun other => ?_, ?_, funext fun other => ?_⟩, trivial⟩
    · by_cases same : other = hash <;> simp [queueBlock, same, gone]
    · simp only [queueBlock, CNodeState.dequeue, CNodeState.enqueue]
      cases pindex.isSome <;> simp [show ∀ n : Int, n + 1 = 1 ↔ n = 0 from fun n => by omega]
    · have found₁ : released.mapNodeState.find? nodeid = some nodeState := found₁
      by_cases same : other = nodeid <;> simp [queueBlock, state, setState, same, restored, found₁]
  obtain ⟨⟨cleared, flag⟩, clearedEq, viewEq⟩ := Option.map_eq_some'.mp view
  obtain ⟨clearedView, rfl⟩ := Prod.mk.inj viewEq
  refine ⟨_, cleared, alone, received, by simp [markBlockAsInFlight, found, receivedEq, found₁], clearedEq, aloneEq,
    clearedView.trans aloneView.symm, fun idle => ?_⟩
  simp only [markBlockAsReceived, idle, Option.some.injEq, Prod.mk.injEq] at receivedEq
  rw [clearedView, receivedEq.1]

theorem markBlockAsInFlight_received_single :
    ∃ marked cleared alone received,
      (empty.initializeNode 1).markBlockAsInFlight 1 7 none 0 = some marked ∧
      marked.markBlockAsReceived 7 1 = some (cleared, true) ∧
      (empty.initializeNode 1).markBlockAsReceived 7 2 = some (alone, received) ∧
      cleared.inFlightView = alone.inFlightView ∧
      ((empty.initializeNode 1).mapBlocksInFlight.find? 7 = none →
        cleared.inFlightView = (empty.initializeNode 1).inFlightView) :=
  markBlockAsInFlight_received (consistent_empty.initializeNode 1)
    (show ((empty.initializeNode 1).state 1).isSome from rfl) 7 none 0 1 2

section Score

variable {registry : Registry} {nodeid : NodeId} {nodeState : CNodeState} {howmuch : Int}

/-- One `Misbehaving(p, howmuch)` on a registered peer adds to its `int` score and
raises `fShouldBan` when the score went from below `banscore` to at least it. -/
theorem misbehaving_state (banscore : Int) (found : registry.state nodeid = some nodeState)
    (nonzero : howmuch ≠ 0) :
    (registry.misbehaving nodeid howmuch banscore).state nodeid = some { nodeState with
      nMisbehavior := toInt32 (nodeState.nMisbehavior + howmuch)
      fShouldBan := nodeState.fShouldBan || (decide (banscore ≤ toInt32 (nodeState.nMisbehavior + howmuch)) &&
        decide (toInt32 (toInt32 (nodeState.nMisbehavior + howmuch) - howmuch) < banscore)) } := by
  simp [Registry.misbehaving, nonzero, found]

theorem toInt32_add_of_eq {a b : Int} (same : toInt32 a = toInt32 b) (howmuch : Int) :
    toInt32 (a + howmuch) = toInt32 (b + howmuch) := by
  unfold toInt32 at *
  rw [← Int.bmod_add_bmod_congr, same, Int.bmod_add_bmod_congr]

theorem toInt32_toInt32 (value : Int) : toInt32 (toInt32 value) = toInt32 value :=
  Int.bmod_bmod

/-- **The misbehavior score wraps around.** Over `n + 1` calls of
`Misbehaving(p, howmuch)` on a registered peer, the score is the exact sum wrapped
to 32 bits, and the last call raises `fShouldBan` exactly when that wrapped running
score goes from below `banscore` to at least it, whatever calls raised it before. -/
theorem misbehaving_iterate (banscore : Int) (found : registry.state nodeid = some nodeState)
    (nonzero : howmuch ≠ 0) (n : Nat) :
    ∃ before after,
      ((fun registry => registry.misbehaving nodeid howmuch banscore)^[n] registry).state nodeid = some before ∧
      ((fun registry => registry.misbehaving nodeid howmuch banscore)^[n + 1] registry).state nodeid =
        some after ∧
      after.nMisbehavior = toInt32 (nodeState.nMisbehavior + (n + 1) * howmuch) ∧
      after.fShouldBan = (before.fShouldBan ||
        (decide (toInt32 (nodeState.nMisbehavior + n * howmuch) < banscore) &&
          decide (banscore ≤ toInt32 (nodeState.nMisbehavior + (n + 1) * howmuch)))) := by
  have step : ∀ {before : CNodeState} {n : Nat},
      toInt32 before.nMisbehavior = toInt32 (nodeState.nMisbehavior + n * howmuch) →
        toInt32 (before.nMisbehavior + howmuch) = toInt32 (nodeState.nMisbehavior + (n + 1) * howmuch) :=
    fun score => by rw [toInt32_add_of_eq score, Int.add_mul, Int.one_mul, Int.add_assoc]
  have scored : ∀ n : Nat, ∃ before,
      ((fun registry => registry.misbehaving nodeid howmuch banscore)^[n] registry).state nodeid = some before ∧
        toInt32 before.nMisbehavior = toInt32 (nodeState.nMisbehavior + n * howmuch) := by
    intro n
    induction n with
    | zero => exact ⟨nodeState, found, by simp⟩
    | succ n ih =>
      obtain ⟨before, stated, score⟩ := ih
      refine ⟨_, by rw [Function.iterate_succ_apply', misbehaving_state banscore stated nonzero], ?_⟩
      show toInt32 (toInt32 (before.nMisbehavior + howmuch)) = _
      rw [toInt32_toInt32, step score]
      push_cast
      rfl
  obtain ⟨before, stated, score⟩ := scored n
  have back : toInt32 (toInt32 (before.nMisbehavior + howmuch) - howmuch) =
      toInt32 (nodeState.nMisbehavior + n * howmuch) := by
    unfold toInt32 at score ⊢
    rw [Int.bmod_sub_bmod_congr, Int.add_sub_cancel, score]
  refine ⟨before, _, stated, by rw [Function.iterate_succ_apply', misbehaving_state banscore stated nonzero],
    step score, ?_⟩
  show (before.fShouldBan || _) = _
  rw [back, step score, Bool.and_comm]

theorem misbehaving_iterate_wraps :
    ∃ before after,
      ((fun registry => registry.misbehaving 1 100 100)^[42949673] (empty.initializeNode 1)).state 1 =
        some before ∧
      ((fun registry => registry.misbehaving 1 100 100)^[42949673 + 1] (empty.initializeNode 1)).state 1 =
        some after ∧
      after.nMisbehavior = toInt32 (CNodeState.initial.nMisbehavior + ((42949673 : Nat) + 1) * 100) ∧
      after.fShouldBan = (before.fShouldBan ||
        (decide (toInt32 (CNodeState.initial.nMisbehavior + (42949673 : Nat) * 100) < 100) &&
          decide (100 ≤ toInt32 (CNodeState.initial.nMisbehavior + ((42949673 : Nat) + 1) * 100)))) :=
  misbehaving_iterate 100 (show (empty.initializeNode 1).state 1 = some CNodeState.initial from rfl) (by decide)
    42949673

/-- The running score wraps past `int`'s maximum at the 21474837th call of 100, and
climbs back across a threshold of 100 at the 42949674th. -/
example : toInt32 (CNodeState.initial.nMisbehavior + (21474837 : Nat) * 100) = -2147483596 ∧
    toInt32 (CNodeState.initial.nMisbehavior + (42949673 : Nat) * 100) = 4 ∧
    toInt32 (CNodeState.initial.nMisbehavior + ((42949673 : Nat) + 1) * 100) = 104 := by
  decide

end Score

end Registry

end XuezNet
