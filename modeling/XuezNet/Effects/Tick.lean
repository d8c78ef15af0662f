import XuezNet.Effects.Dispatch

/-! # What the outbound tick does

`SendMessages` is a request path. Before its block requests it only moves the
globals by primitive steps and pushes messages within the limits that ask for
no block: the ping, the addresses in `ADDR` messages of at most 1000, the
header sync start, the block announcement by at most `MAX_BLOCKS_TO_ANNOUNCE`
headers, and the inventory in `INV` messages of at most `MAX_INV_SZ`, whose
trickle expires the relay map. Its block requests are the blocks
`FindNextBlocksToDownload` chose: none in flight, pairwise distinct, and no more
than the peer has room for (`getDataBlocks_fetches`). The ask-for queue holds no
block, so the `GETDATA` messages that carry its due requests ask for no block
beyond the requested ones (`sendMessages_fetches`).
-/

namespace XuezNet

/-- A request of a block not in flight adds one to the requesting peer's count. -/
theorem PeerLogic.inFlight_of_request (env : Env) {logic logic' : PeerLogic} {nodeid : NodeId} {hash : Hash}
    {pindex : Option Hash} {nodeState' : CNodeState} (fresh : logic.registry.mapBlocksInFlight.find? hash = none)
    (marked : logic.markBlockAsInFlight env nodeid hash pindex = some logic')
    (found' : logic'.registry.state nodeid = some nodeState') :
    ∃ nodeState, logic.registry.state nodeid = some nodeState ∧
      nodeState'.nBlocksInFlight = nodeState.nBlocksInFlight + 1 := by
  obtain ⟨registry, marking, rfl⟩ := logic.markBlockAsInFlight_eq env marked
  obtain ⟨nodeState, found, rfl⟩ := markBlockAsInFlight_of_fresh fresh marking
  simp only [Registry.queueBlock_state, if_pos] at found'
  cases found'
  exact ⟨nodeState, found, rfl⟩

/-- Leaving only requests of objects other than blocks in the ask-for queue
keeps the frame. -/
theorem NodeFrame.keepAskFor {allowed : NetMsg → Bool} (node : CNode) {queue : List (Int × CInv)}
    (other : ∀ entry ∈ queue, entry.2.type ≠ .block) : NodeFrame allowed node { node with mapAskFor := queue } :=
  ⟨⟨rfl, rfl, rfl, rfl, rfl, rfl, rfl, fun _ => other⟩, [], by simp, by simp⟩

namespace Handling

variable {env : Env} {h h' : Handling}

/-- The ping stays within the frame. -/
theorem sendPing_frame (tick : Tick) (node : CNode) : NodeFrame NetMsg.framed node (sendPing env tick node) := by
  unfold sendPing
  dsimp only
  split_ifs
  · exact (NodeFrame.push node rfl).trans (.update rfl rfl rfl rfl rfl rfl rfl rfl rfl)
  · exact .refl node

/-- An `ADDR` of at most 1000 entries is within the frame. -/
theorem addr_framed {vAddr : List CAddress} (bound : vAddr.length ≤ 1000) : (NetMsg.addr vAddr).framed := by
  simpa [NetMsg.framed, NetMsg.withinLimits, NetMsg.blocksRequested] using bound

theorem addrStep_frame (acc : CNode × List CAddress) (addr : CAddress) (below : acc.2.length < 1000) :
    NodeFrame NetMsg.framed acc.1 (addrStep acc addr).1 ∧ (addrStep acc addr).2.length < 1000 := by
  unfold addrStep
  split_ifs
  · exact ⟨.refl _, below⟩
  · have pushed := @chunkPushAtLeast_frame _ NetMsg.framed 1000 .addr
      { acc.1 with addrKnown := acc.1.addrKnown.insert addr.key () } acc.2 addr (fun _ => addr_framed) below
    have known : NodeFrame NetMsg.framed acc.1 { acc.1 with addrKnown := acc.1.addrKnown.insert addr.key () } :=
      .update rfl rfl rfl rfl rfl rfl rfl rfl rfl
    exact ⟨known.trans pushed.1, pushed.2⟩

/-- The address broadcast stays within the frame. -/
theorem sendAddresses_frame (tick : Tick) (node : CNode) :
    NodeFrame NetMsg.framed node (sendAddresses env tick node) := by
  have broadcast : ∀ node : CNode, NodeFrame NetMsg.framed node (broadcastAddresses env tick node) := by
    intro node
    unfold broadcastAddresses
    split_ifs
    · have timed : NodeFrame NetMsg.framed node { node with nNextAddrSend := tick.nNextAddrSend } :=
        .update rfl rfl rfl rfl rfl rfl rfl rfl rfl
      obtain ⟨sent, below⟩ := foldl_chunk_frame addrStep_frame node.vAddrToSend
        ({ node with nNextAddrSend := tick.nNextAddrSend }, []) (by simp)
      have cleared : NodeFrame NetMsg.framed (node.vAddrToSend.foldl addrStep
            ({ node with nNextAddrSend := tick.nNextAddrSend }, [])).1
          { (node.vAddrToSend.foldl addrStep ({ node with nNextAddrSend := tick.nNextAddrSend }, [])).1 with
            vAddrToSend := [] } :=
        .update rfl rfl rfl rfl rfl rfl rfl rfl rfl
      exact timed.trans (sent.trans (cleared.trans (flushChunk_frame (addr_framed below.le))))
    · exact .refl node
  refine (?_ : NodeFrame _ node _).trans (broadcast _)
  split_ifs
  · have advertised : NodeFrame NetMsg.framed node (node.advertiseLocal env.fListen env.advertisedAddress) := by
      unfold CNode.advertiseLocal
      split
      · split_ifs
        · exact .pushAddress _ _
        · exact .refl _
      · exact .refl _
    exact advertised.trans (.update rfl rfl rfl rfl rfl rfl rfl rfl rfl)
  · exact .refl node

variable {pending : List Hash}

/-- The header sync start asks for headers and marks the peer as syncing. -/
theorem startSync_fetches {state : CNodeState} {fFetch : Bool} (ran : startSync env h state fFetch = some h') :
    Fetches env pending h pending h' := by
  unfold startSync at ran
  dsimp only at ran
  by_cases started : (state.fSyncStarted || h.node.fClient || env.fImporting || env.fReindex) = true
  · rw [if_pos started] at ran
    cases ran
    exact .refl _ h
  rw [if_neg started] at ran
  simp only [Option.pure_def, Option.bind_eq_bind, Option.some_bind] at ran
  obtain ⟨best, -, ran⟩ := Option.bind_eq_some.mp ran
  split_ifs at ran
  · cases ran
    exact .refl _ h
  · obtain ⟨registry, syncing, ran⟩ := Option.bind_eq_some.mp ran
    cases ran
    have same : registry.mapBlocksInFlight = h.logic.registry.mapBlocksInFlight := by
      unfold Registry.startSync at syncing
      obtain ⟨nodeState, -, syncing⟩ := Option.bind_eq_some.mp syncing
      split_ifs at syncing <;> cases syncing <;> rfl
    exact (Fetches.update (.startSync syncing) same).trans (.frame (.push _ rfl))

/-- A `HEADERS` of at most `MAX_HEADERS_RESULTS` headers is within the frame. -/
theorem headers_framed {vHeaders : List CBlockHeader} (bound : vHeaders.length ≤ MAX_HEADERS_RESULTS) :
    (NetMsg.headers vHeaders).framed := by
  simpa [NetMsg.framed, NetMsg.withinLimits, NetMsg.blocksRequested] using bound

/-- The headers loop of the announcement keeps at most one header per hash. -/
theorem headersToAnnounce_length (chain : ChainView) (nodeState : CNodeState) :
    ∀ {hashes : List Hash} {pBestIndex : Option Hash} {fFound : Bool} {vHeaders : List CBlockHeader}
      {result : List CBlockHeader × Option Hash × Bool},
      chain.headersToAnnounce nodeState hashes pBestIndex fFound vHeaders = some result →
      result.1.length ≤ vHeaders.length + hashes.length
  | [], _, _, _, _, ran => by
      cases ran
      simp
  | hash :: rest, pBestIndex, fFound, vHeaders, result, ran => by
      unfold ChainView.headersToAnnounce at ran
      obtain ⟨block, -, ran⟩ := Option.bind_eq_some.mp ran
      simp only [Option.pure_def, Option.bind_eq_bind, Option.some_bind] at ran
      have later : ∀ {pBestIndex fFound} {vHeaders' : List CBlockHeader}, vHeaders'.length ≤ vHeaders.length + 1 →
          chain.headersToAnnounce nodeState rest pBestIndex fFound vHeaders' = some result →
          result.1.length ≤ vHeaders.length + (hash :: rest).length := fun grown ran => by
        have rest := headersToAnnounce_length chain nodeState ran
        simp only [List.length_cons]
        omega
      by_cases off : chain.at? block.nHeight ≠ some hash
      · rw [if_pos off] at ran
        cases ran
        simp
      rw [if_neg off] at ran
      by_cases broken : pBestIndex.isSome ∧ block.pprev ≠ pBestIndex
      · rw [if_pos broken] at ran
        cases ran
        simp
      rw [if_neg broken] at ran
      cases fFound
      · by_cases known : nodeState.peerHasHeader chain hash = true
        · rw [if_neg Bool.false_ne_true, if_pos known] at ran
          exact later (by simp) ran
        by_cases linked : block.pprev.all (nodeState.peerHasHeader chain) = true
        · rw [if_neg Bool.false_ne_true, if_neg known, if_pos linked] at ran
          exact later (by simp) ran
        · rw [if_neg Bool.false_ne_true, if_neg known, if_neg linked] at ran
          cases ran
          simp
      · rw [if_pos rfl] at ran
        exact later (by simp) ran

/-- The headers of the announcement, when there are at most `MAX_HEADERS_RESULTS`. -/
theorem announceHeaders_fetches {state : CNodeState} {vHeaders : List CBlockHeader} {pBestIndex : Option Hash}
    {fRevertToInv : Bool} (found : h.logic.registry.state h.node.id = some state)
    (bound : vHeaders.length ≤ MAX_HEADERS_RESULTS) :
    Fetches env pending h pending (announceHeaders h h.logic.registry state vHeaders pBestIndex fRevertToInv).1 := by
  unfold announceHeaders
  split_ifs
  · refine (Fetches.update (.setFields found ?_) rfl).trans (.frame (.push _ (headers_framed bound)))
    exact ⟨rfl, rfl, rfl, rfl, rfl⟩
  · exact .refl _ h
  · exact .refl _ h

/-- The inventory fallback of the announcement stays within the frame. -/
theorem announceInv_frame {node node' : CNode} {state : CNodeState} {hashes : List Hash} {fRevertToInv : Bool}
    (ran : announceInv env node state hashes fRevertToInv = some node') : NodeFrame NetMsg.framed node node' := by
  unfold announceInv at ran
  by_cases revert : fRevertToInv = true
  · rw [if_pos revert] at ran
    split at ran
    · obtain ⟨_, -, pushed⟩ := Option.bind_eq_some.mp ran
      rw [← Option.some_inj.mp pushed]
      split_ifs
      · exact .refl node
      · exact .pushInventory _ _
    · cases ran
      exact .refl node
  · rw [if_neg revert] at ran
    cases ran
    exact .refl node

/-- **The block announcement** sends at most `MAX_BLOCKS_TO_ANNOUNCE` headers. -/
theorem announceBlocks_fetches (ran : announceBlocks env h = some h') : Fetches env pending h pending h' := by
  unfold announceBlocks at ran
  obtain ⟨registry, updated, ran⟩ := Option.bind_eq_some.mp ran
  dsimp only at ran
  obtain ⟨state, found, ran⟩ := Option.bind_eq_some.mp ran
  obtain ⟨⟨vHeaders, pBestIndex, fRevertToInv⟩, looked, ran⟩ := Option.bind_eq_some.mp ran
  obtain ⟨node, fallback, ran⟩ := Option.bind_eq_some.mp ran
  cases ran
  have bound : vHeaders.length ≤ MAX_HEADERS_RESULTS := by
    have announce := env.params.announce_le
    split at looked
    · cases looked
      simp
    · rename_i few
      have := headersToAnnounce_length env.chain state looked
      simp only [Bool.or_eq_true, Bool.and_eq_true, Bool.not_eq_true', decide_eq_true_eq, not_or,
        not_lt] at few
      simp only [List.length_nil, Nat.zero_add] at this
      omega
  have first : Fetches env pending h pending { h with logic := { h.logic with registry } } :=
    .update (RegistryUpdate.processBlockAvailability updated).1 (RegistryUpdate.processBlockAvailability updated).2
  exact (first.trans (announceHeaders_fetches found bound)).trans
    (.frame ((announceInv_frame fallback).trans (.update rfl rfl rfl rfl rfl rfl rfl rfl rfl)))

theorem blockInvStep_frame (acc : CNode × List CInv) (hash : Hash) (below : acc.2.length < MAX_INV_SZ) :
    NodeFrame NetMsg.framed acc.1 (blockInvStep acc hash).1 ∧ (blockInvStep acc hash).2.length < MAX_INV_SZ :=
  chunkPush_frame (fun _ => inv_framed) below

/-- The transaction trickle expires the relay map and announces in `INV`
messages within the frame. -/
theorem trickleTxs_fetches (nNow : Int) :
    ∀ (hashes : List Hash) (nRelayedTransactions : Nat) (h : Handling) (vInv : List CInv),
      vInv.length < MAX_INV_SZ →
      Fetches env pending h pending (trickleTxs env nNow hashes nRelayedTransactions h vInv).1 ∧
        (trickleTxs env nNow hashes nRelayedTransactions h vInv).2.length < MAX_INV_SZ
  | [], _, h, _, below => ⟨.refl _ h, below⟩
  | hash :: rest, nRelayedTransactions, h, vInv, below => by
      unfold trickleTxs
      dsimp only
      have erased : NodeFrame NetMsg.framed h.node
          { h.node with setInventoryTxToSend := h.node.setInventoryTxToSend.erase hash } :=
        .update rfl rfl rfl rfl rfl rfl rfl rfl rfl
      split_ifs
      · exact ⟨.refl _ h, below⟩
      · exact (trickleTxs_fetches nNow rest nRelayedTransactions _ vInv below).imp_left (Fetches.frame erased).trans
      · have pushed := @chunkPush_frame _ NetMsg.framed MAX_INV_SZ .inv
          { h.node with setInventoryTxToSend := h.node.setInventoryTxToSend.erase hash } vInv ⟨.tx, hash⟩
          (fun _ => inv_framed) below
        have announced := erased.trans (pushed.1.trans (.addInventoryKnown _ ⟨.tx, hash⟩))
        exact (trickleTxs_fetches nNow rest (nRelayedTransactions + 1) _ _ pushed.2).imp_left
          ((Fetches.step (.expireRelay _ _) (PeerLogic.Holds.of_eq rfl) rfl).trans (.frame announced)).trans

/-- The service-transaction announcements stay within the frame. -/
theorem trickleStxs_frame :
    ∀ (hashes : List Hash) (nRelayedTransactions : Nat) (node : CNode) (vInv : List CInv),
      vInv.length < MAX_INV_SZ →
      NodeFrame NetMsg.framed node (trickleStxs env hashes nRelayedTransactions node vInv).1 ∧
        (trickleStxs env hashes nRelayedTransactions node vInv).2.length < MAX_INV_SZ
  | [], _, node, _, below => ⟨.refl node, below⟩
  | hash :: rest, nRelayedTransactions, node, vInv, below => by
      unfold trickleStxs
      dsimp only
      have erased : NodeFrame NetMsg.framed node
          { node with setInventoryStxToSend := node.setInventoryStxToSend.erase hash } :=
        .update rfl rfl rfl rfl rfl rfl rfl rfl rfl
      split_ifs
      · exact ⟨.refl node, below⟩
      · exact (trickleStxs_frame rest nRelayedTransactions _ vInv below).imp_left erased.trans
      · have pushed := @chunkPush_frame _ NetMsg.framed MAX_INV_SZ .inv
          { node with setInventoryStxToSend := node.setInventoryStxToSend.erase hash } vInv ⟨.stx, hash⟩
          (fun _ => inv_framed) below
        exact (trickleStxs_frame rest (nRelayedTransactions + 1) _ _ pushed.2).imp_left
          fun later => erased.trans (pushed.1.trans later)

/-- The trickle timer stays within the frame. -/
theorem trickleTimer_frame (tick : Tick) (node : CNode) :
    NodeFrame NetMsg.framed node (trickleTimer env tick node).2 := by
  unfold trickleTimer
  dsimp only
  split_ifs <;> exact .update rfl rfl rfl rfl rfl rfl rfl rfl rfl

/-- The end of the inventory: the service transactions and the last chunk. -/
theorem inventoryEnd_fetches {trickled : Handling × List CInv}
    (first : Fetches env pending h pending trickled.1 ∧ trickled.2.length < MAX_INV_SZ) (hashes : List Hash) :
    Fetches env pending h pending { trickled.1 with
      node := flushChunk .inv (trickleStxs env hashes 0 trickled.1.node trickled.2).1
        (trickleStxs env hashes 0 trickled.1.node trickled.2).2 } := by
  have stxs := @trickleStxs_frame env hashes 0 trickled.1.node trickled.2 first.2
  exact first.1.trans (.frame (stxs.1.trans (flushChunk_frame (inv_framed stxs.2.le))))

/-- **The inventory** expires the relay map and announces in `INV` messages of
at most `MAX_INV_SZ` entries. -/
theorem sendInventory_fetches (tick : Tick) (h : Handling) :
    Fetches env pending h pending (sendInventory env tick h) := by
  obtain ⟨blocks, below⟩ := foldl_chunk_frame blockInvStep_frame h.node.vInventoryBlockToSend (h.node, [])
    (by simp [MAX_INV_SZ])
  have cleared : NodeFrame NetMsg.framed h.node
      { (h.node.vInventoryBlockToSend.foldl blockInvStep (h.node, [])).1 with vInventoryBlockToSend := [] } :=
    blocks.trans (.update rfl rfl rfl rfl rfl rfl rfl rfl rfl)
  have timer := cleared.trans (@trickleTimer_frame env tick _)
  unfold sendInventory
  refine inventoryEnd_fetches ?_ _
  split_ifs
  · exact (trickleTxs_fetches _ _ _ _ _ below).imp_left (Fetches.frame timer).trans
  · exact ⟨.frame timer, below⟩

/-- **The block requests of the tick**, from a peer whose count of blocks in
flight is not negative: distinct blocks, none in flight, each from a peer with
room, at most `MAX_BLOCKS_IN_TRANSIT_PER_PEER` of them, and the connection as it
was. -/
theorem requestDownloads_fetches :
    ∀ {hashes : List Hash} {h : Handling} {vGetData : List CInv} {logic' : PeerLogic} {vGetData' : List CInv},
      requestDownloads env h.node.id hashes h.logic vGetData = some (logic', vGetData') →
      hashes.Nodup → (∀ x ∈ hashes, h.logic.registry.mapBlocksInFlight.find? x = none) →
      (∀ {nodeState}, h.logic.registry.state h.node.id = some nodeState →
        nodeState.nBlocksInFlight + hashes.length ≤ MAX_BLOCKS_IN_TRANSIT_PER_PEER) →
      Fetches env (blocksOf vGetData) h (blocksOf vGetData') { h with logic := logic' } ∧
        vGetData'.length = vGetData.length + hashes.length
  | [], h, vGetData, logic', vGetData', ran, _, _, _ => by
      cases ran
      exact ⟨.refl _ h, rfl⟩
  | hash :: rest, h, vGetData, logic', vGetData', ran, unique, fresh, room => by
      obtain ⟨logic, marked, ran⟩ := Option.bind_eq_some.mp ran
      have here := fresh hash (List.mem_cons_self _ _)
      obtain ⟨outside, distinct⟩ := List.nodup_cons.mp unique
      have requested : Fetches env (blocksOf vGetData) h (blocksOf (vGetData ++ [⟨.block, hash⟩]))
          { h with logic } := by
        rw [blocksOf_append, blocksOf_singleton_block]
        refine .request here (fun found => ?_) marked
        have := room found
        simp only [List.length_cons] at this
        omega
      have later := @requestDownloads_fetches rest { h with logic } _ _ _ ran distinct
        (fun x member => by
          rw [Fetches.find?_of_request here marked (fun same => outside (same ▸ member))]
          exact fresh x (List.mem_cons_of_mem _ member))
        (fun found' => by
          obtain ⟨nodeState, found, counted⟩ := PeerLogic.inFlight_of_request env here marked found'
          have := room found
          simp only [List.length_cons] at this
          omega)
      exact ⟨requested.trans later.1, by simp [later.2]; omega⟩

/-- What `FindNextBlocksToDownload` does to the registry inside a request
path: write-backs of the peer's other fields, which keep the blocks in flight
and its count of them. -/
theorem findNextBlocksToDownload_fetches {count : Nat} {vBlocks : List Hash} {nodeStaller : NodeId}
    {result : Registry × List Hash × NodeId} (pending : List Hash)
    (found : h.logic.registry.findNextBlocksToDownload env.params env.chain h.node.id count vBlocks nodeStaller =
      some result) :
    Fetches env pending h pending { h with logic := { h.logic with registry := result.1 } } ∧
      result.1.mapBlocksInFlight = h.logic.registry.mapBlocksInFlight ∧
      ∀ {nodeState'}, result.1.state h.node.id = some nodeState' →
        ∃ nodeState, h.logic.registry.state h.node.id = some nodeState ∧
          nodeState'.nBlocksInFlight = nodeState.nBlocksInFlight := by
  rcases Registry.findNextBlocksToDownload_cases found with rfl | ⟨registry', nodeState, updated, known, rest⟩
  · exact ⟨.refl _ h, rfl, fun found' => ⟨_, found', rfl⟩⟩
  obtain ⟨old, oldFound, updated'⟩ := Option.bind_eq_some.mp updated
  cases updated'
  have first : Fetches env pending h pending
      { h with logic := { h.logic with
        registry := h.logic.registry.setState h.node.id (old.processBlockAvailability env.chain) } } :=
    .update (RegistryUpdate.processBlockAvailability updated).1 (RegistryUpdate.processBlockAvailability updated).2
  simp only [Registry.state_setState, if_pos] at known
  cases known
  have counted : ∀ {nodeState'}, (old.processBlockAvailability env.chain).SameQueue nodeState' →
      ∃ nodeState, h.logic.registry.state h.node.id = some nodeState ∧
        nodeState'.nBlocksInFlight = nodeState.nBlocksInFlight := fun same =>
    ⟨old, oldFound, ((old.sameQueue_processBlockAvailability env.chain).trans same).inFlight⟩
  have available : (h.logic.registry.setState h.node.id (old.processBlockAvailability env.chain)).state h.node.id =
      some (old.processBlockAvailability env.chain) := by simp
  rcases rest with rfl | ⟨lastCommon, written, -⟩
  · refine ⟨first, rfl, fun found' => counted ?_⟩
    rw [available] at found'
    cases found'
    exact .refl _
  · rw [written]
    refine ⟨first.trans (.update (.setFields available ⟨rfl, rfl, rfl, rfl, rfl⟩) rfl), rfl, fun found' => ?_⟩
    simp only [Registry.state_setState, if_pos] at found'
    cases found'
    exact counted ⟨rfl, rfl, rfl, rfl, rfl⟩

/-- The stall mark is a write-back of the staller's other fields. -/
theorem markStaller_fetches {nodeid staller : NodeId} {logic : PeerLogic}
    (ran : markStaller env nodeid staller h.logic = some logic) :
    Fetches env pending h pending { h with logic } := by
  unfold markStaller at ran
  obtain ⟨state, -, ran⟩ := Option.bind_eq_some.mp ran
  split_ifs at ran
  · obtain ⟨stallerState, found, ran⟩ := Option.bind_eq_some.mp ran
    cases ran
    split_ifs
    · exact .update (.setFields found ⟨rfl, rfl, rfl, rfl, rfl⟩) rfl
    · exact .refl _ h
  · cases ran
    exact .refl _ h

/-- **The block requests of the tick**, from a peer whose count of blocks in
flight is not negative: distinct blocks, none in flight, each from a peer with
room, at most `MAX_BLOCKS_IN_TRANSIT_PER_PEER` of them, and the connection as it
was. -/
theorem getDataBlocks_fetches {fFetch : Bool} {fetched : Handling × List CInv}
    (counted : ∀ {nodeState}, h.logic.registry.state h.node.id = some nodeState → 0 ≤ nodeState.nBlocksInFlight)
    (ran : getDataBlocks env h fFetch = some fetched) :
    Fetches env [] h (blocksOf fetched.2) fetched.1 ∧ fetched.2.length ≤ MAX_BLOCKS_IN_TRANSIT_PER_PEER ∧
      fetched.1.node = h.node := by
  unfold getDataBlocks at ran
  obtain ⟨state, found, ran⟩ := Option.bind_eq_some.mp ran
  split_ifs at ran with room
  · obtain ⟨chosen, choosing, ran⟩ := Option.bind_eq_some.mp ran
    obtain ⟨requested, requesting, ran⟩ := Option.bind_eq_some.mp ran
    obtain ⟨logic, marking, ran⟩ := Option.bind_eq_some.mp ran
    cases ran
    have below : state.nBlocksInFlight < MAX_BLOCKS_IN_TRANSIT_PER_PEER := by
      simp only [Bool.and_eq_true, decide_eq_true_eq] at room
      exact room.2
    have nonneg := counted found
    obtain ⟨unique, fresh, bound⟩ := Registry.findNextBlocksToDownload_fresh choosing
    obtain ⟨updated, same, kept⟩ := findNextBlocksToDownload_fetches [] choosing
    obtain ⟨fetches, length⟩ := @requestDownloads_fetches env chosen.2.1
      { h with logic := { h.logic with registry := chosen.1 } } [] requested.1 requested.2 requesting unique
      (fun x member => same ▸ fresh x member)
      (fun found' => by
        obtain ⟨nodeState, found'', counted'⟩ := kept found'
        rw [found] at found''
        cases found''
        rw [counted']
        omega)
    refine ⟨(updated.trans fetches).trans (markStaller_fetches marking), ?_, rfl⟩
    rw [length]
    simp only [List.length_nil, Nat.zero_add]
    omega
  · cases ran
    exact ⟨.refl [] h, by simp, rfl⟩

/-- An object other than a block added to a `GETDATA` chunk of fewer than 1000
items: the chunk's blocks stay pending until the chunk is pushed. -/
theorem chunkGetData_fetches {chunk : List CInv} {inv : CInv} (other : inv.type ≠ .block)
    (below : chunk.length < 1000) :
    Fetches env (blocksOf chunk) h (blocksOf (chunkPushAtLeast 1000 .getdata h.node chunk inv).2)
        { h with node := (chunkPushAtLeast 1000 .getdata h.node chunk inv).1 } ∧
      (chunkPushAtLeast 1000 .getdata h.node chunk inv).2.length < 1000 := by
  have blocks : blocksOf (chunk ++ [inv]) = blocksOf chunk := by
    rw [blocksOf_append, blocksOf_singleton_of_ne other, List.append_nil]
  unfold chunkPushAtLeast
  dsimp only
  split_ifs with full
  · have flushed := @Fetches.flush env (blocksOf chunk) h (chunk ++ [inv])
      (by simp only [List.length_append, List.length_singleton, MAX_INV_SZ]; omega) blocks
    rw [flushChunk, if_neg (by simp)] at flushed
    exact ⟨flushed, by simp⟩
  · refine ⟨?_, by simp only [List.length_append, List.length_singleton, not_le] at full ⊢; omega⟩
    rw [blocks]
    exact .refl _ h

/-- One due request of the ask-for queue, for an object other than a block. -/
theorem askForStep_fetches {vGetData : List CInv} {inv : CInv} (other : inv.type ≠ .block)
    (below : vGetData.length < 1000) :
    Fetches env (blocksOf vGetData) h (blocksOf (askForStep env h vGetData inv).2) (askForStep env h vGetData inv).1 ∧
      (askForStep env h vGetData inv).2.length < 1000 := by
  have checked := @alreadyHave_fetches env (blocksOf vGetData) h inv
  unfold askForStep
  dsimp only
  split_ifs
  · exact ⟨checked.trans (.frame (.update rfl rfl rfl rfl rfl rfl rfl rfl rfl)), below⟩
  · exact ⟨checked, below⟩
  · exact (chunkGetData_fetches other below).imp_left checked.trans

/-- **The due requests of the ask-for queue**, none of them for a block, add
no block to the `GETDATA` chunk: its blocks stay those of the block requests. -/
theorem askForDue_fetches (nNow : Int) :
    ∀ (queue : List (Int × CInv)) (h : Handling) (vGetData : List CInv),
      (∀ entry ∈ queue, entry.2.type ≠ .block) → vGetData.length < 1000 →
      Fetches env (blocksOf vGetData) h (blocksOf (askForDue env nNow queue h vGetData).2)
          (askForDue env nNow queue h vGetData).1 ∧
        (askForDue env nNow queue h vGetData).2.length < 1000
  | [], h, _, _, below => ⟨.frame (.keepAskFor _ (by simp)), below⟩
  | (nRequestTime, inv) :: rest, h, vGetData, other, below => by
      unfold askForDue
      split_ifs
      · exact ⟨.frame (.keepAskFor _ other), below⟩
      · have stepped := @askForStep_fetches env h vGetData inv (other _ (List.mem_cons_self _ _)) below
        exact (askForDue_fetches nNow rest _ _ (fun entry member => other entry (List.mem_cons_of_mem _ member))
          stepped.2).imp_left stepped.1.trans

/-- The `GETDATA` messages of the tick ask for the blocks requested, and for no
block beyond them. -/
theorem requestData_fetches {fFetch : Bool}
    (counted : ∀ {nodeState}, h.logic.registry.state h.node.id = some nodeState → 0 ≤ nodeState.nBlocksInFlight)
    (askFor : ∀ entry ∈ h.node.mapAskFor, entry.2.type ≠ .block) (ran : requestData env h fFetch = some h') :
    Fetches env [] h [] h' := by
  unfold requestData at ran
  obtain ⟨fetched, fetching, ran⟩ := Option.bind_eq_some.mp ran
  cases ran
  obtain ⟨blocks, bound, same⟩ := getDataBlocks_fetches counted fetching
  have asked := @askForDue_fetches env env.nTimeMicros fetched.1.node.mapAskFor fetched.1 fetched.2
    (by rw [same]; exact askFor) (by simp only [MAX_BLOCKS_IN_TRANSIT_PER_PEER] at bound; omega)
  exact (blocks.trans asked.1).trans (.flush (by simp only [MAX_INV_SZ]; omega) rfl)

/-- A registry the operations reach counts no peer's blocks in flight below zero. -/
theorem counted_of_sound {args : Args} {logic : PeerLogic} (sound : logic.Sound args) {nodeid : NodeId}
    {nodeState : CNodeState} (found : logic.registry.state nodeid = some nodeState) :
    0 ≤ nodeState.nBlocksInFlight := by
  rw [(sound.registry.consistent.counted found).1]
  exact Int.ofNat_nonneg _

/-- The part of the tick under `cs_main` is a request path, from globals that
keep their invariant and an ask-for queue with no block. -/
theorem sendLocked_fetches {tick : Tick} {args : Args} (fixed : env.args = args) (sound : h.logic.Sound args)
    (askFor : ∀ entry ∈ h.node.mapAskFor, entry.2.type ≠ .block) (ran : sendLocked env tick h = some h') :
    Fetches env [] h [] h' := by
  unfold sendLocked at ran
  dsimp only at ran
  obtain ⟨state, -, ran⟩ := Option.bind_eq_some.mp ran
  obtain ⟨h₁, synced, ran⟩ := Option.bind_eq_some.mp ran
  obtain ⟨h₂, announced, ran⟩ := Option.bind_eq_some.mp ran
  obtain ⟨stalled, -, ran⟩ := Option.bind_eq_some.mp ran
  have before : Fetches env [] h [] (sendInventory env tick h₂) :=
    (((Fetches.frame (sendAddresses_frame tick h.node)).trans (startSync_fetches synced)).trans
      (announceBlocks_fetches announced)).trans (sendInventory_fetches tick h₂)
  split_ifs at ran
  · cases ran
    exact before.trans (.frame (.disconnect _))
  · have sound' := LogicMoves.sound (before.runs.logic.mono fun _ _ step => step.1) fixed sound
    exact before.trans (requestData_fetches (counted_of_sound sound') (before.runs.node.keeps.askFor askFor) ran)

/-- **`SendMessages` is a request path**: from globals that keep their invariant
and an ask-for queue with no block, what it asks for is distinct blocks, none in
flight when it began, each from a peer with room. -/
theorem sendMessages_fetches {tick : Tick} {args : Args} (fixed : env.args = args) (sound : h.logic.Sound args)
    (askFor : ∀ entry ∈ h.node.mapAskFor, entry.2.type ≠ .block) (ran : sendMessages env tick h = some h') :
    Fetches env [] h [] h' := by
  have pinged : Fetches env [] h [] { h with node := sendPing env tick h.node } :=
    .frame (sendPing_frame tick h.node)
  unfold sendMessages at ran
  split_ifs at ran
  · cases ran
    exact .refl [] h
  · cases ran
    exact pinged
  · obtain ⟨⟨h₁, fBanned⟩, banning, ran⟩ := Option.bind_eq_some.mp ran
    obtain ⟨quiet, logged⟩ := sendRejectsAndCheckIfBanned_quiet banning
    have flushed := pinged.trans (Fetches.ofMoves quiet logged)
    split_ifs at ran
    · cases ran
      exact flushed
    · have sound' := LogicMoves.sound (flushed.runs.logic.mono fun _ _ step => step.1) fixed sound
      exact flushed.trans (sendLocked_fetches fixed sound' (flushed.runs.node.keeps.askFor askFor) ran)

end Handling

end XuezNet
