import XuezNet.System.Net
import XuezNet.Registry.Updates
import Mathlib.Logic.Relation

/-! # The primitive changes the handlers are made of

Every handler changes the globals by a sequence of primitive steps,
`LogicStep`: a registry update, a block request for a hash not in flight to a
peer with room, an `AlreadyHave`, an access of `recentRejects` while it is in
step with the active tip, a mempool insertion, an orphan stored and the pool
trimmed, an orphan erased, the relay map expired, a block source recorded.
`LogicMoves` is any sequence of them. The invariants of the globals are then
proved once per primitive step (`XuezNet.System.Invariant`), and each handler
is shown to move the globals by such a sequence.

On its own connection a handler keeps its id, the queues the message thread
reads, the handshake fields and the kinds of the queued ask-for requests
(`NodeKeeps`), and only appends messages (`NodeFrame`). `Handling.Runs` bundles
the two over a relation of primitive steps and a test on the messages pushed.
A handler other than a request path moves by `LogicStep`s and pushes messages
within the limits the receiving handlers enforce that ask for no block
(`Handling.Moves`). The three request paths (`INV`, `HEADERS` and
`SendMessages`) release no request (`FetchStep`), and the blocks their
`GETDATA`s ask for are the hashes they requested, in order, pairwise distinct
and none in flight when they started (`Handling.Fetches`).
-/

namespace XuezNet

/-- The size limits the handlers enforce on what they receive: `MAX_INV_SZ`
entries in `INV`, `GETDATA` and `NOTFOUND`, 1000 addresses in `ADDR`,
`MAX_HEADERS_RESULTS` headers in `HEADERS`. -/
def NetMsg.withinLimits : NetMsg → Bool
  | .inv vInv | .getdata vInv | .notfound vInv => decide (vInv.length ≤ MAX_INV_SZ)
  | .addr vAddr => decide (vAddr.length ≤ 1000)
  | .headers vHeaders => decide (vHeaders.length ≤ MAX_HEADERS_RESULTS)
  | _ => true

/-- The hashes of the `MSG_BLOCK` entries of a list of inventories. -/
def blocksOf (vInv : List CInv) : List Hash :=
  (vInv.filter fun inv => decide (inv.type = .block)).map (·.hash)

@[simp] theorem blocksOf_nil : blocksOf [] = [] := rfl

@[simp] theorem blocksOf_append (vInv vInv' : List CInv) :
    blocksOf (vInv ++ vInv') = blocksOf vInv ++ blocksOf vInv' := by
  simp [blocksOf]

theorem blocksOf_singleton_block (hash : Hash) : blocksOf [⟨.block, hash⟩] = [hash] := rfl

theorem blocksOf_singleton_of_block {inv : CInv} (isBlock : inv.type = .block) :
    blocksOf [inv] = [inv.hash] := by
  simp [blocksOf, isBlock]

theorem blocksOf_singleton_of_ne {inv : CInv} (other : inv.type ≠ .block) : blocksOf [inv] = [] := by
  simp [blocksOf, other]

/-- The blocks a message asks for: the `MSG_BLOCK` entries of a `GETDATA`. -/
def NetMsg.blocksRequested : NetMsg → List Hash
  | .getdata vInv => blocksOf vInv
  | _ => []

/-- A message of a handler other than a request path: within the limits, and
asking for no block. -/
def NetMsg.framed (msg : NetMsg) : Bool := msg.withinLimits && msg.blocksRequested.isEmpty

theorem NetMsg.withinLimits_of_framed {msg : NetMsg} (ok : msg.framed) : msg.withinLimits := by
  simp only [NetMsg.framed, Bool.and_eq_true] at ok
  exact ok.1

/-- **A primitive change of the globals** in environment `env`. -/
inductive LogicStep (env : Env) : PeerLogic → PeerLogic → Prop
  | registry {logic : PeerLogic} {registry : Registry}
      (update : RegistryUpdate logic.registry registry) :
      LogicStep env logic { logic with registry }
  | request {logic logic' : PeerLogic} {nodeid : NodeId} {hash : Hash} {pindex : Option Hash}
      (fresh : logic.registry.mapBlocksInFlight.find? hash = none)
      (room : ∀ {nodeState}, logic.registry.state nodeid = some nodeState →
        nodeState.nBlocksInFlight < MAX_BLOCKS_IN_TRANSIT_PER_PEER)
      (marked : logic.markBlockAsInFlight env nodeid hash pindex = some logic') :
      LogicStep env logic logic'
  | alreadyHave (logic : PeerLogic) (inv : CInv) : LogicStep env logic (logic.alreadyHave env inv).1
  | rejectsInsert {logic : PeerLogic} (synced : logic.hashRecentRejectsChainTip = env.chain.tip)
      (hash : Hash) : LogicStep env logic (logic.rejectsInsert env hash)
  | rejectsContains {logic : PeerLogic} (synced : logic.hashRecentRejectsChainTip = env.chain.tip)
      (hash : Hash) : LogicStep env logic (logic.rejectsContains env hash).1
  | acceptToMempool (logic : PeerLogic) (hash : Hash) :
      LogicStep env logic { logic with mempool := logic.mempool.insert hash () }
  | addOrphan {logic : PeerLogic} (tx : CTransaction) (fromPeer : NodeId)
      (registered : (logic.registry.state fromPeer).isSome) :
      LogicStep env logic { logic with orphans := ((logic.orphans.addOrphanTx tx fromPeer).1.limitOrphanTxSize
        env.args.nMaxOrphanTx env.randomHash).1 }
  | eraseOrphan (logic : PeerLogic) (hash : Hash) :
      LogicStep env logic { logic with orphans := logic.orphans.eraseOrphanTx hash }
  | expireRelay (logic : PeerLogic) (nNow : Int) :
      LogicStep env logic { logic with
        vRelayExpiration := (expireRelay nNow logic.vRelayExpiration logic.mapRelay).1
        mapRelay := (expireRelay nNow logic.vRelayExpiration logic.mapRelay).2 }
  | blockSource (logic : PeerLogic) (hash : Hash) (source : NodeId × Bool) :
      LogicStep env logic { logic with mapBlockSource := logic.mapBlockSource.emplace hash source }

/-- Any sequence of primitive changes. -/
abbrev LogicMoves (env : Env) : PeerLogic → PeerLogic → Prop := Relation.ReflTransGen (LogicStep env)

/-- The block requests of the globals only grow: a hash in flight stays in flight. -/
def PeerLogic.Holds (logic logic' : PeerLogic) : Prop :=
  ∀ {hash}, (logic.registry.mapBlocksInFlight.find? hash).isSome →
    (logic'.registry.mapBlocksInFlight.find? hash).isSome

theorem PeerLogic.Holds.of_eq {logic logic' : PeerLogic}
    (same : logic'.registry.mapBlocksInFlight = logic.registry.mapBlocksInFlight) : logic.Holds logic' :=
  fun inFlight => same ▸ inFlight

/-- A primitive change of a request path: one that releases no request. -/
def FetchStep (env : Env) (logic logic' : PeerLogic) : Prop :=
  LogicStep env logic logic' ∧ logic.Holds logic'

/-- A block request puts the hash in the ghost log with whether it was in flight. -/
theorem PeerLogic.markBlockAsInFlight_eq (env : Env) (logic : PeerLogic) {nodeid : NodeId} {hash : Hash}
    {pindex : Option Hash} {logic' : PeerLogic}
    (marked : logic.markBlockAsInFlight env nodeid hash pindex = some logic') :
    ∃ registry, logic.registry.markBlockAsInFlight nodeid hash pindex env.nTimeMicros = some registry ∧
      logic' = { logic with
        registry
        inFlightRequests := logic.inFlightRequests ++
          [(hash, logic.registry.mapBlocksInFlight.contains hash)] } := by
  unfold PeerLogic.markBlockAsInFlight at marked
  cases marking : logic.registry.markBlockAsInFlight nodeid hash pindex env.nTimeMicros with
  | none => simp [marking] at marked
  | some registry =>
      simp only [marking, Option.bind_eq_bind, Option.some_bind, Option.some.injEq] at marked
      exact ⟨registry, rfl, marked.symm⟩

/-- Registry writes that keep the block requests. -/
@[simp] theorem Registry.misbehaving_mapBlocksInFlight (registry : Registry) (nodeid : NodeId)
    (howmuch banscore : Int) :
    (registry.misbehaving nodeid howmuch banscore).mapBlocksInFlight = registry.mapBlocksInFlight := by
  unfold Registry.misbehaving
  split_ifs
  · rfl
  · split <;> rfl

namespace LogicStep

variable {env : Env} {logic : PeerLogic}

/-- `Misbehaving` is a registry update. -/
theorem misbehaving (nodeid : NodeId) (howmuch : Int) :
    LogicStep env logic (logic.misbehaving env nodeid howmuch) :=
  .registry (.misbehaving _ _ _ _)

/-- A write-back of a registered peer's other fields is a registry update. -/
theorem setFields {nodeid : NodeId} {old new : CNodeState}
    (found : logic.registry.state nodeid = some old) (same : old.SameQueue new) :
    LogicStep env logic { logic with registry := logic.registry.setState nodeid new } :=
  .registry (.setFields found same)

end LogicStep

namespace CNodeState

theorem SameQueue.refl (nodeState : CNodeState) : nodeState.SameQueue nodeState :=
  ⟨rfl, rfl, rfl, rfl, rfl⟩

theorem SameQueue.trans {first second third : CNodeState} (early : first.SameQueue second)
    (late : second.SameQueue third) : first.SameQueue third :=
  ⟨late.queue.trans early.queue, late.inFlight.trans early.inFlight,
    late.validHeaders.trans early.validHeaders, late.preferred.trans early.preferred,
    late.syncing.trans early.syncing⟩

/-- The availability updates touch only what the peer is known to have. -/
theorem sameQueue_processBlockAvailability (chain : ChainView) (nodeState : CNodeState) :
    nodeState.SameQueue (nodeState.processBlockAvailability chain) := by
  unfold processBlockAvailability
  split_ifs <;> (try split) <;> (try split_ifs) <;> exact ⟨rfl, rfl, rfl, rfl, rfl⟩

theorem sameQueue_updateBlockAvailability (chain : ChainView) (nodeState : CNodeState) (hash : Hash) :
    nodeState.SameQueue (nodeState.updateBlockAvailability chain hash) := by
  refine (sameQueue_processBlockAvailability chain nodeState).trans ?_
  unfold updateBlockAvailability
  dsimp only
  split <;> (try split_ifs) <;> (try split) <;> (try split_ifs) <;> exact ⟨rfl, rfl, rfl, rfl, rfl⟩

end CNodeState

namespace RegistryUpdate

variable {chain : ChainView} {registry registry' : Registry} {nodeid : NodeId}

/-- `ProcessBlockAvailability` is a write-back of the peer's other fields. -/
theorem processBlockAvailability (updated : registry.processBlockAvailability chain nodeid = some registry') :
    RegistryUpdate registry registry' ∧ registry'.mapBlocksInFlight = registry.mapBlocksInFlight := by
  unfold Registry.processBlockAvailability at updated
  cases found : registry.state nodeid with
  | none => simp [found] at updated
  | some nodeState =>
      simp only [found, Option.bind_eq_bind, Option.some_bind, Option.some.injEq] at updated
      subst updated
      exact ⟨.setFields found (nodeState.sameQueue_processBlockAvailability chain), rfl⟩

/-- `UpdateBlockAvailability` is a write-back of the peer's other fields. -/
theorem updateBlockAvailability {hash : Hash}
    (updated : registry.updateBlockAvailability chain nodeid hash = some registry') :
    RegistryUpdate registry registry' ∧ registry'.mapBlocksInFlight = registry.mapBlocksInFlight := by
  unfold Registry.updateBlockAvailability at updated
  cases found : registry.state nodeid with
  | none => simp [found] at updated
  | some nodeState =>
      simp only [found, Option.bind_eq_bind, Option.some_bind, Option.some.injEq] at updated
      subst updated
      exact ⟨.setFields found (nodeState.sameQueue_updateBlockAvailability chain hash), rfl⟩

end RegistryUpdate

/-- **What a handler keeps of its connection**: its id, its queues of received
messages and `GETDATA` items with their logs, its handshake state, and that no
block waits in the ask-for queue. -/
structure NodeKeeps (node node' : CNode) : Prop where
  id : node'.id = node.id
  recvGetData : node'.vRecvGetData = node.vRecvGetData
  requested : node'.getDataRequested = node.getDataRequested
  served : node'.getDataServed = node.getDataServed
  processMsg : node'.vProcessMsg = node.vProcessMsg
  version : node'.nVersion = node.nVersion
  connected : node'.fSuccessfullyConnected = node.fSuccessfullyConnected
  askFor : (∀ entry ∈ node.mapAskFor, entry.2.type ≠ .block) →
    ∀ entry ∈ node'.mapAskFor, entry.2.type ≠ .block

namespace NodeKeeps

variable {node node' node'' : CNode}

@[refl] theorem refl (node : CNode) : NodeKeeps node node :=
  ⟨rfl, rfl, rfl, rfl, rfl, rfl, rfl, fun ok => ok⟩

@[trans] theorem trans (first : NodeKeeps node node') (second : NodeKeeps node' node'') :
    NodeKeeps node node'' :=
  ⟨second.id.trans first.id, second.recvGetData.trans first.recvGetData,
    second.requested.trans first.requested, second.served.trans first.served,
    second.processMsg.trans first.processMsg, second.version.trans first.version,
    second.connected.trans first.connected, second.askFor ∘ first.askFor⟩

/-- A write of fields other than those kept. -/
theorem update (id : node'.id = node.id) (recvGetData : node'.vRecvGetData = node.vRecvGetData)
    (requested : node'.getDataRequested = node.getDataRequested)
    (served : node'.getDataServed = node.getDataServed)
    (processMsg : node'.vProcessMsg = node.vProcessMsg) (version : node'.nVersion = node.nVersion)
    (connected : node'.fSuccessfullyConnected = node.fSuccessfullyConnected)
    (askFor : node'.mapAskFor = node.mapAskFor) : NodeKeeps node node' :=
  ⟨id, recvGetData, requested, served, processMsg, version, connected, fun ok => askFor ▸ ok⟩

end NodeKeeps

/-- **What a handler may do to its own connection**: keep what `NodeKeeps`
keeps, and only append messages that pass `allowed`. -/
structure NodeFrame (allowed : NetMsg → Bool) (node node' : CNode) : Prop where
  keeps : NodeKeeps node node'
  sent : ∃ pushed, node'.vSendMsg = node.vSendMsg ++ pushed ∧ ∀ msg ∈ pushed, allowed msg

namespace NodeFrame

variable {allowed : NetMsg → Bool} {node node' node'' : CNode}

@[refl] theorem refl (node : CNode) : NodeFrame allowed node node :=
  ⟨.refl node, [], by simp, by simp⟩

@[trans] theorem trans (first : NodeFrame allowed node node') (second : NodeFrame allowed node' node'') :
    NodeFrame allowed node node'' := by
  obtain ⟨pushed, sent, within⟩ := first.sent
  obtain ⟨pushed', sent', within'⟩ := second.sent
  refine ⟨first.keeps.trans second.keeps, pushed ++ pushed', by rw [sent', sent, List.append_assoc],
    fun msg member => ?_⟩
  rcases List.mem_append.mp member with early | late
  · exact within msg early
  · exact within' msg late

/-- A weaker test on the messages pushed. -/
theorem mono {allowed' : NetMsg → Bool} (weaker : ∀ {msg}, allowed msg → allowed' msg)
    (frame : NodeFrame allowed node node') : NodeFrame allowed' node node' := by
  obtain ⟨pushed, sent, within⟩ := frame.sent
  exact ⟨frame.keeps, pushed, sent, fun msg member => weaker (within msg member)⟩

/-- A write of fields other than those the frame keeps. -/
theorem update (id : node'.id = node.id) (sent : node'.vSendMsg = node.vSendMsg)
    (recvGetData : node'.vRecvGetData = node.vRecvGetData)
    (requested : node'.getDataRequested = node.getDataRequested)
    (served : node'.getDataServed = node.getDataServed)
    (processMsg : node'.vProcessMsg = node.vProcessMsg) (version : node'.nVersion = node.nVersion)
    (connected : node'.fSuccessfullyConnected = node.fSuccessfullyConnected)
    (askFor : node'.mapAskFor = node.mapAskFor) : NodeFrame allowed node node' :=
  ⟨.update id recvGetData requested served processMsg version connected askFor, [],
    by simp [sent], by simp⟩

/-- Noting that the peer knows an object leaves the frame. -/
theorem addInventoryKnown (node : CNode) (inv : CInv) :
    NodeFrame allowed node (node.addInventoryKnown inv) :=
  update rfl rfl rfl rfl rfl rfl rfl rfl rfl

/-- Marking the connection for disconnection leaves the frame. -/
theorem disconnect (node : CNode) : NodeFrame allowed node { node with fDisconnect := true } :=
  update rfl rfl rfl rfl rfl rfl rfl rfl rfl

/-- Queueing an address or an inventory leaves the frame. -/
theorem pushAddress (node : CNode) (addr : CAddress) :
    NodeFrame allowed node (node.pushAddress addr) := by
  unfold CNode.pushAddress
  split_ifs
  · exact refl node
  · exact update rfl rfl rfl rfl rfl rfl rfl rfl rfl

theorem pushInventory (node : CNode) (inv : CInv) : NodeFrame allowed node (node.pushInventory inv) := by
  unfold CNode.pushInventory
  split <;> (try split_ifs) <;> first | exact refl node | exact update rfl rfl rfl rfl rfl rfl rfl rfl rfl

/-- A request scheduled in the ask-for queue is there with those before. -/
theorem mem_insertByTime {entry other : Int × CInv} :
    ∀ {queue : List (Int × CInv)}, other ∈ CNode.insertByTime entry queue ↔ other = entry ∨ other ∈ queue
  | [] => by simp [CNode.insertByTime]
  | head :: rest => by
      unfold CNode.insertByTime
      split_ifs
      · simp
      · simp only [List.mem_cons, mem_insertByTime]
        tauto

/-- Asking for an object other than a block leaves the frame. -/
theorem askFor (node : CNode) {inv : CInv} (other : inv.type ≠ .block) (nRequestTime : Int) :
    NodeFrame allowed node (node.askFor inv nRequestTime) := by
  unfold CNode.askFor
  split_ifs
  · exact refl node
  · refine ⟨⟨rfl, rfl, rfl, rfl, rfl, rfl, rfl, fun before entry member => ?_⟩, [], by simp, by simp⟩
    rcases mem_insertByTime.mp member with rfl | old
    · exact other
    · exact before entry old

/-- Pushing an allowed message. -/
theorem push (node : CNode) {msg : NetMsg} (within : allowed msg) :
    NodeFrame allowed node (node.pushMessage msg) :=
  ⟨.update rfl rfl rfl rfl rfl rfl rfl rfl, [msg], rfl, by simpa using within⟩

end NodeFrame

/-- A message of a chunk that never outgrows the limit is allowed. -/
theorem chunkPush_frame {α : Type} {allowed : NetMsg → Bool} {limit : Nat} {make : List α → NetMsg}
    {node : CNode} {chunk : List α} {item : α}
    (bounded : ∀ items : List α, items.length ≤ limit → allowed (make items))
    (below : chunk.length < limit) :
    NodeFrame allowed node (chunkPush limit make node chunk item).1 ∧
      (chunkPush limit make node chunk item).2.length < limit := by
  unfold chunkPush
  dsimp only
  split_ifs with full
  · exact ⟨.push node (bounded _ full.le), by simpa using Nat.lt_of_le_of_lt (Nat.zero_le _) below⟩
  · simp only [List.length_append, List.length_singleton] at full ⊢
    exact ⟨.refl node, by omega⟩

/-- The `>=` variant of `chunkPush` from below the limit. -/
theorem chunkPushAtLeast_frame {α : Type} {allowed : NetMsg → Bool} {limit : Nat}
    {make : List α → NetMsg} {node : CNode} {chunk : List α} {item : α}
    (bounded : ∀ items : List α, items.length ≤ limit → allowed (make items))
    (below : chunk.length < limit) :
    NodeFrame allowed node (chunkPushAtLeast limit make node chunk item).1 ∧
      (chunkPushAtLeast limit make node chunk item).2.length < limit := by
  unfold chunkPushAtLeast
  dsimp only
  split_ifs with full
  · simp only [List.length_append, List.length_singleton] at full
    exact ⟨.push node (bounded _ (by simp; omega)), by simpa using Nat.lt_of_le_of_lt (Nat.zero_le _) below⟩
  · simp only [List.length_append, List.length_singleton, not_le] at full ⊢
    exact ⟨.refl node, full⟩

/-- Pushing the rest of a chunk that is allowed. -/
theorem flushChunk_frame {α : Type} {allowed : NetMsg → Bool} {make : List α → NetMsg} {node : CNode}
    {chunk : List α} (within : allowed (make chunk)) : NodeFrame allowed node (flushChunk make node chunk) := by
  unfold flushChunk
  split_ifs
  · exact .refl node
  · exact .push node within

namespace Handling

/-- **What a handler does**, over a relation `step` of primitive changes of the
globals and a test `allowed` on the messages it pushes. -/
structure Runs (step : PeerLogic → PeerLogic → Prop) (allowed : NetMsg → Bool) (h h' : Handling) :
    Prop where
  logic : Relation.ReflTransGen step h.logic h'.logic
  node : NodeFrame allowed h.node h'.node

/-- **What a handler other than a request path may do**: move the globals by
primitive steps and push messages within the limits that ask for no block. -/
abbrev Moves (env : Env) : Handling → Handling → Prop := Runs (LogicStep env) NetMsg.framed

namespace Runs

variable {rel : PeerLogic → PeerLogic → Prop} {allowed : NetMsg → Bool} {h h' h'' : Handling}

@[refl] theorem refl (h : Handling) : Runs rel allowed h h := ⟨.refl, .refl h.node⟩

@[trans] theorem trans (first : Runs rel allowed h h') (second : Runs rel allowed h' h'') :
    Runs rel allowed h h'' :=
  ⟨first.logic.trans second.logic, first.node.trans second.node⟩

/-- One primitive change of the globals, the connection as it is. -/
theorem step {logic : PeerLogic} (primitive : rel h.logic logic) : Runs rel allowed h { h with logic } :=
  ⟨.single primitive, .refl h.node⟩

/-- A change of the connection within the frame, the globals as they are. -/
theorem frame {node : CNode} (frame : NodeFrame allowed h.node node) : Runs rel allowed h { h with node } :=
  ⟨.refl, frame⟩

/-- A change of the connection within the frame and of the queued announcements. -/
theorem keep (logic : h'.logic = h.logic) (frame : NodeFrame allowed h.node h'.node) :
    Runs rel allowed h h' :=
  ⟨logic ▸ .refl, frame⟩

/-- A loop whose every pass runs. -/
theorem foldl {α : Type} {f : Handling → α → Handling} (each : ∀ h item, Runs rel allowed h (f h item)) :
    ∀ (items : List α) (h : Handling), Runs rel allowed h (items.foldl f h)
  | [], h => .refl h
  | item :: rest, h => (each h item).trans (foldl each rest _)

/-- A weaker relation and a weaker test. -/
theorem mono {rel' : PeerLogic → PeerLogic → Prop} {allowed' : NetMsg → Bool}
    (stronger : ∀ {logic logic'}, rel logic logic' → rel' logic logic')
    (weaker : ∀ {msg}, allowed msg → allowed' msg) (runs : Runs rel allowed h h') :
    Runs rel' allowed' h h' :=
  ⟨runs.logic.mono fun _ _ => stronger, runs.node.mono weaker⟩

end Runs

/-- A run of a request path releases no request. -/
theorem fetchSteps_holds {env : Env} {logic logic' : PeerLogic}
    (steps : Relation.ReflTransGen (FetchStep env) logic logic') : logic.Holds logic' := by
  induction steps with
  | refl => exact id
  | tail _ step ih => exact step.2 ∘ ih

/-- **What a request path may do**: move the globals by primitive steps that
release no request, and push messages within the limits whose block requests,
with those left in the chunk being built (`pending'`), are those of the chunk
it started with (`pending`) and then the hashes it requested, in order; these
are pairwise distinct, none was in flight when it started, and all are in
flight when it returns. -/
structure Fetches (env : Env) (pending : List Hash) (h : Handling) (pending' : List Hash)
    (h' : Handling) : Prop where
  runs : Runs (FetchStep env) NetMsg.withinLimits h h'
  fetched : ∃ pushed reqs, h'.node.vSendMsg = h.node.vSendMsg ++ pushed ∧
    h'.logic.inFlightRequests = h.logic.inFlightRequests ++ reqs ∧
    pushed.flatMap NetMsg.blocksRequested ++ pending' = pending ++ reqs.map Prod.fst ∧
    (reqs.map Prod.fst).Nodup ∧
    ∀ hash ∈ reqs.map Prod.fst, h.logic.registry.mapBlocksInFlight.find? hash = none ∧
      (h'.logic.registry.mapBlocksInFlight.find? hash).isSome

namespace Fetches

variable {env : Env} {pending pending' pending'' : List Hash} {h h' h'' : Handling}

theorem refl (pending : List Hash) (h : Handling) : Fetches env pending h pending h :=
  ⟨.refl h, [], [], by simp, by simp, by simp, by simp, by simp⟩

theorem trans (first : Fetches env pending h pending' h')
    (second : Fetches env pending' h' pending'' h'') : Fetches env pending h pending'' h'' := by
  obtain ⟨pushed, reqs, sent, logged, blocks, unique, fresh⟩ := first.fetched
  obtain ⟨pushed', reqs', sent', logged', blocks', unique', fresh'⟩ := second.fetched
  have holds : h.logic.Holds h'.logic := fetchSteps_holds first.runs.logic
  have holds' : h'.logic.Holds h''.logic := fetchSteps_holds second.runs.logic
  refine ⟨first.runs.trans second.runs, pushed ++ pushed', reqs ++ reqs', by simp [sent', sent],
    by simp [logged', logged], ?_, ?_, ?_⟩
  · rw [List.flatMap_append, List.append_assoc, blocks', ← List.append_assoc, blocks]
    simp
  · rw [List.map_append, List.nodup_append]
    refine ⟨unique, unique', fun hash early late => ?_⟩
    have requested := (fresh hash early).2
    rw [(fresh' hash late).1] at requested
    cases requested
  · intro hash member
    rw [List.map_append] at member
    rcases List.mem_append.mp member with early | late
    · exact ⟨(fresh hash early).1, holds' (fresh hash early).2⟩
    · refine ⟨?_, (fresh' hash late).2⟩
      cases before : h.logic.registry.mapBlocksInFlight.find? hash with
      | none => rfl
      | some _ =>
          have still := @holds hash (by rw [before]; rfl)
          rw [(fresh' hash late).1] at still
          cases still

/-- A step of a handler other than a request path, inside a request path: it
releases and requests nothing, and pushes no block request. -/
theorem ofMoves (moves : Runs (FetchStep env) NetMsg.framed h h')
    (quiet : h'.logic.inFlightRequests = h.logic.inFlightRequests) : Fetches env pending h pending h' := by
  obtain ⟨pushed, sent, framed⟩ := moves.node.sent
  refine ⟨moves.mono id NetMsg.withinLimits_of_framed, pushed, [], sent, by simp [quiet], ?_, by simp,
    by simp⟩
  have none : pushed.flatMap NetMsg.blocksRequested = [] := by
    simp only [List.flatMap_eq_nil_iff]
    intro msg member
    have := framed msg member
    simp only [NetMsg.framed, Bool.and_eq_true, List.isEmpty_iff] at this
    exact this.2
  simp [none]

/-- A primitive change other than a request, the connection as it is. -/
theorem step {logic : PeerLogic} (primitive : LogicStep env h.logic logic) (holds : h.logic.Holds logic)
    (quiet : logic.inFlightRequests = h.logic.inFlightRequests) :
    Fetches env pending h pending { h with logic } :=
  ofMoves (.step ⟨primitive, holds⟩) quiet

/-- A change of the connection within the frame, the globals as they are. -/
theorem frame {node : CNode} (frame : NodeFrame NetMsg.framed h.node node) :
    Fetches env pending h pending { h with node } :=
  ofMoves (.frame frame) rfl

/-- A registry update that keeps the block requests. -/
theorem update {registry : Registry} (update : RegistryUpdate h.logic.registry registry)
    (same : registry.mapBlocksInFlight = h.logic.registry.mapBlocksInFlight) :
    Fetches env pending h pending { h with logic := { h.logic with registry } } :=
  step (.registry update) (PeerLogic.Holds.of_eq same) rfl

/-- A misbehavior score inside a request path. -/
theorem misbehaving (nodeid : NodeId) (howmuch : Int) :
    Fetches env pending h pending { h with logic := h.logic.misbehaving env nodeid howmuch } :=
  step (.misbehaving _ _) (PeerLogic.Holds.of_eq (by simp [PeerLogic.misbehaving])) rfl

/-- A request of a block not in flight from a peer with room. -/
theorem request {nodeid : NodeId} {hash : Hash} {pindex : Option Hash} {logic : PeerLogic}
    (fresh : h.logic.registry.mapBlocksInFlight.find? hash = none)
    (room : ∀ {nodeState}, h.logic.registry.state nodeid = some nodeState →
      nodeState.nBlocksInFlight < MAX_BLOCKS_IN_TRANSIT_PER_PEER)
    (marked : h.logic.markBlockAsInFlight env nodeid hash pindex = some logic) :
    Fetches env pending h (pending ++ [hash]) { h with logic } := by
  obtain ⟨registry, marking, rfl⟩ := h.logic.markBlockAsInFlight_eq env marked
  obtain ⟨nodeState, -, rfl⟩ := markBlockAsInFlight_of_fresh fresh marking
  have holds : h.logic.Holds { h.logic with
      registry := h.logic.registry.queueBlock nodeid nodeState hash pindex env.nTimeMicros
      inFlightRequests := h.logic.inFlightRequests ++
        [(hash, h.logic.registry.mapBlocksInFlight.contains hash)] } := fun {other} inFlight => by
    simp only [Registry.queueBlock_find?]
    split_ifs
    · rfl
    · exact inFlight
  refine ⟨.step ⟨.request fresh room marked, holds⟩,
    [], [(hash, _)], by simp, rfl, by simp, by simp, ?_⟩
  simp [fresh]

/-- A request leaves every other hash as it was. -/
theorem find?_of_request {logic logic' : PeerLogic} {nodeid : NodeId} {hash other : Hash}
    {pindex : Option Hash} (fresh : logic.registry.mapBlocksInFlight.find? hash = none)
    (marked : logic.markBlockAsInFlight env nodeid hash pindex = some logic') (differ : other ≠ hash) :
    logic'.registry.mapBlocksInFlight.find? other = logic.registry.mapBlocksInFlight.find? other := by
  obtain ⟨registry, marking, rfl⟩ := logic.markBlockAsInFlight_eq env marked
  obtain ⟨nodeState, -, rfl⟩ := markBlockAsInFlight_of_fresh fresh marking
  simp [differ]

/-- Pushing a `GETDATA` of a chunk whose blocks are the pending requests. -/
theorem flush {chunk : List CInv} (within : chunk.length ≤ MAX_INV_SZ) (blocks : blocksOf chunk = pending) :
    Fetches env pending h [] { h with node := flushChunk .getdata h.node chunk } := by
  unfold flushChunk
  split_ifs with empty
  · have : chunk = [] := by simpa using empty
    subst this
    subst blocks
    exact refl [] h
  · refine ⟨.frame (.push h.node (by simpa [NetMsg.withinLimits] using within)), [.getdata chunk], [],
      rfl, by simp, by simp [NetMsg.blocksRequested, blocks], by simp, by simp⟩

end Fetches

/-- The block requests a handler emits on its connection, as the requesting
paths guarantee them: pairwise distinct, and none in flight when it started. -/
def RequestsFresh (h h' : Handling) : Prop :=
  ∃ pushed, h'.node.vSendMsg = h.node.vSendMsg ++ pushed ∧
    (pushed.flatMap NetMsg.blocksRequested).Nodup ∧
    ∀ hash ∈ pushed.flatMap NetMsg.blocksRequested, h.logic.registry.mapBlocksInFlight.find? hash = none

/-- A request path from an empty chunk emits fresh requests, whatever it left
unsent. -/
theorem Fetches.requestsFresh {env : Env} {h h' : Handling} {pending' : List Hash}
    (fetches : Fetches env [] h pending' h') : RequestsFresh h h' := by
  obtain ⟨pushed, reqs, sent, -, blocks, unique, fresh⟩ := fetches.fetched
  rw [List.nil_append] at blocks
  have sub : (pushed.flatMap NetMsg.blocksRequested).Sublist (reqs.map Prod.fst) :=
    blocks ▸ List.sublist_append_left _ _
  exact ⟨pushed, sent, unique.sublist sub, fun hash member => (fresh hash (sub.subset member)).1⟩

/-- A handler other than a request path emits no block request. -/
theorem Runs.blocksRequested {step : PeerLogic → PeerLogic → Prop} {h h' : Handling}
    (runs : Runs step NetMsg.framed h h') :
    ∃ pushed, h'.node.vSendMsg = h.node.vSendMsg ++ pushed ∧
      pushed.flatMap NetMsg.blocksRequested = [] := by
  obtain ⟨pushed, sent, framed⟩ := runs.node.sent
  refine ⟨pushed, sent, List.flatMap_eq_nil_iff.mpr fun msg member => ?_⟩
  have := framed msg member
  simp only [NetMsg.framed, Bool.and_eq_true, List.isEmpty_iff] at this
  exact this.2

end Handling

end XuezNet
