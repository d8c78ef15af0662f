import XuezNet.System.Trace

/-! # What every run of the node guarantees

The invariant of the node (`NetReachable.sound`) and what each event pushes
(`NetStep.sound`) give the node's guarantees over every run, from start-up,
over any peers and any interleaving of their messages, ticks and callbacks:

* every `MarkBlockAsInFlight` of the handlers and of `SendMessages` is for a
  hash not in flight, and what an event pushes asks for distinct blocks none of
  which was in flight before it (`requests_fresh`);
* no registered peer has more than `MAX_BLOCKS_IN_TRANSIT_PER_PEER` blocks in
  flight (`inFlight_bounded`);
* the orphan pool keeps its invariant and its bound (`orphans_invariant`);
* every message pushed to a peer is within the limits the peer's handlers
  enforce (`messages_within_limits`);
* the `GETDATA` items of a connection are served in request order, at most
  one block per pass and last, and no message is taken while items are left
  (`getData_in_order`);
* the filter of recent rejects is only filled and read under the tip it
  records (`rejects_synced`).

The relay map, on the other hand, stays empty: nothing inserts into it, so a
transaction is never served to a `GETDATA` (`serveItem_tx_notFound`).
-/

namespace XuezNet

variable {params : Params} {args : Args} {net net' : Net}

/-- **Block requests are fresh.** After any event from a reachable state, every
`MarkBlockAsInFlight` made so far was for a hash not in flight at the call, and
what the event pushed to each connection asks for pairwise distinct blocks none
of which was in flight before it. -/
theorem requests_fresh (reachable : NetReachable params args net) (step : NetStep params args net net') :
    (∀ request ∈ net'.logic.inFlightRequests, request.2 = false) ∧ net.SendsFresh net' := by
  obtain ⟨sound', fresh⟩ := step.sound reachable.sound
  exact ⟨sound'.logic.requests, fresh⟩

theorem requests_fresh_ticked :
    tickedNet.logic.inFlightRequests = [(2, false), (3, false)] ∧
      (tickedNet.nodes.find? 1).bind (·.vSendMsg.getLast?) = some (.getdata [⟨.block, 2⟩, ⟨.block, 3⟩]) ∧
      (∀ request ∈ tickedNet.logic.inFlightRequests, request.2 = false) ∧ tickingNet.SendsFresh tickedNet :=
  ⟨by decide, by decide, requests_fresh reachable_tickingNet tickingNet_step⟩

/-- **No registered peer has more than `MAX_BLOCKS_IN_TRANSIT_PER_PEER` blocks
in flight**, in every reachable state. -/
theorem inFlight_bounded (reachable : NetReachable params args net) {nodeid : NodeId} {nodeState : CNodeState}
    (found : net.logic.registry.state nodeid = some nodeState) :
    nodeState.nBlocksInFlight ≤ MAX_BLOCKS_IN_TRANSIT_PER_PEER :=
  reachable.sound.logic.room found

theorem inFlight_bounded_ticked :
    ∃ nodeState, tickedNet.logic.registry.state 1 = some nodeState ∧ nodeState.nBlocksInFlight = 2 ∧
      nodeState.nBlocksInFlight ≤ MAX_BLOCKS_IN_TRANSIT_PER_PEER := by
  obtain ⟨nodeState, found, two⟩ := Option.map_eq_some'.mp
    (by decide : (tickedNet.logic.registry.state 1).map (·.nBlocksInFlight) = some 2)
  exact ⟨nodeState, found, two, inFlight_bounded reachable_tickedNet found⟩

/-- **The orphan pool invariant**, in every reachable state: the reverse index
lists exactly the stored orphans spending each parent, under non-empty sets;
every orphan is stored under its own hash, is at most 5000 bytes and came from
a registered peer; the pool holds at most the bound the `TX` branch reads from
`-maxorphantx` (clamped at `0`, cast to `unsigned int`); so every hash the index
lists is found in the pool. -/
theorem orphans_invariant (reachable : NetReachable params args net) :
    net.logic.orphans.Consistent ∧
      (∀ {hash orphan}, net.logic.orphans.mapOrphanTransactions.find? hash = some orphan →
        (net.logic.registry.state orphan.fromPeer).isSome) ∧
      net.logic.orphans.mapOrphanTransactions.size ≤ args.nMaxOrphanTx ∧
      ∀ prev hash, hash ∈ net.logic.orphans.mapOrphanTransactionsByPrev.children prev →
        (net.logic.orphans.mapOrphanTransactions.find? hash).isSome := by
  have sound := reachable.sound.logic
  refine ⟨sound.orphans, sound.fromPeers, sound.bounded, fun prev hash listed => ?_⟩
  obtain ⟨orphan, found, -⟩ := (sound.orphans.indexed prev hash).mp (ByPrev.mem_children.mp listed)
  rw [found]
  rfl

theorem orphans_invariant_download :
    (downloadNet.logic.orphans.mapOrphanTransactions.find? 21).map (·.fromPeer) = some 1 ∧
    downloadNet.logic.orphans.Consistent ∧
      (∀ {hash orphan}, downloadNet.logic.orphans.mapOrphanTransactions.find? hash = some orphan →
        (downloadNet.logic.registry.state orphan.fromPeer).isSome) ∧
      downloadNet.logic.orphans.mapOrphanTransactions.size ≤ Args.sample.nMaxOrphanTx ∧
      ∀ prev hash, hash ∈ downloadNet.logic.orphans.mapOrphanTransactionsByPrev.children prev →
        (downloadNet.logic.orphans.mapOrphanTransactions.find? hash).isSome :=
  ⟨by decide, orphans_invariant reachable_downloadNet⟩

/-- **Every message pushed to a peer is within the limits its own handlers
enforce** (`INV`, `GETDATA` and `NOTFOUND` of at most `MAX_INV_SZ` entries,
`ADDR` of at most 1000, `HEADERS` of at most `MAX_HEADERS_RESULTS`), in every
reachable state; the `GETDATA` queue, whose leftovers make the `NOTFOUND`s,
holds at most one message's worth of items. -/
theorem messages_within_limits (reachable : NetReachable params args net) {id : NodeId} {node : CNode}
    (found : net.nodes.find? id = some node) :
    (∀ msg ∈ node.vSendMsg, msg.withinLimits) ∧ node.vRecvGetData.length ≤ MAX_INV_SZ :=
  ⟨(reachable.sound.nodes found).sent, (reachable.sound.nodes found).queued⟩

theorem messages_within_limits_download :
    ∃ node, downloadNet.nodes.find? 1 = some node ∧
      NetMsg.getdata [⟨.block, 2⟩, ⟨.block, 3⟩] ∈ node.vSendMsg ∧ node.vRecvGetData = [⟨.tx, 7⟩] ∧
      (∀ msg ∈ node.vSendMsg, msg.withinLimits) ∧ node.vRecvGetData.length ≤ MAX_INV_SZ := by
  obtain ⟨node, found, shown⟩ := Option.map_eq_some'.mp (by decide : (downloadNet.nodes.find? 1).map
    (fun node => decide (NetMsg.getdata [⟨.block, 2⟩, ⟨.block, 3⟩] ∈ node.vSendMsg ∧
      node.vRecvGetData = [⟨.tx, 7⟩])) = some true)
  exact ⟨node, found, (of_decide_eq_true shown).1, (of_decide_eq_true shown).2,
    messages_within_limits reachable_downloadNet found⟩

/-- **No block waits in an ask-for queue**, in every reachable state: the `INV`
branch hands `AskFor` only inventory that is not a block, and the `TX` branch
asks for missing parents as transactions. So the tick never asks for a block
through the queue, only through its block requests, which mark it in flight. -/
theorem askFor_no_block (reachable : NetReachable params args net) {id : NodeId} {node : CNode}
    (found : net.nodes.find? id = some node) : ∀ entry ∈ node.mapAskFor, entry.2.type ≠ .block :=
  (reachable.sound.nodes found).askFor

theorem askFor_no_block_download :
    ∃ node, downloadNet.nodes.find? 1 = some node ∧ node.mapAskFor.map (·.2) = [⟨.tx, 6⟩] ∧
      ∀ entry ∈ node.mapAskFor, entry.2.type ≠ .block := by
  obtain ⟨node, found, asked⟩ := Option.map_eq_some'.mp
    (by decide : (downloadNet.nodes.find? 1).map (·.mapAskFor.map (·.2)) = some [⟨.tx, 6⟩])
  exact ⟨node, found, asked, askFor_no_block reachable_downloadNet found⟩

/-- **The `GETDATA` items of a connection are served in request order**, in
every reachable state. The items handled so far are a prefix of those
requested, each handled once, and the queue is what follows some of them. A
pass of `ProcessGetData`, for any pattern of `fPauseSend` and of the interrupt,
handles a prefix of the queue, at most the last of which is a block, and erases
exactly those items from the front, or none when the interrupt stops it. A call
of `ProcessMessages` that leaves items queued ends there, taking no message. -/
theorem getData_in_order (reachable : NetReachable params args net) {id : NodeId} {node : CNode}
    (found : net.nodes.find? id = some node) :
    (node.getDataServed <+: node.getDataRequested ∧
      ∃ e ≤ node.getDataServed.length, node.vRecvGetData = node.getDataRequested.drop e) ∧
    (∀ (env : Env) (paused interrupted : Nat → Bool) (h' : Handling),
      Handling.processGetData env paused interrupted ⟨net.logic, node, []⟩ = some h' →
      ∃ k ≤ node.vRecvGetData.length, h'.node.getDataServed = node.getDataServed ++ node.vRecvGetData.take k ∧
        (∀ inv ∈ (node.vRecvGetData.take k).dropLast, inv.type ≠ .block ∧ inv.type ≠ .filteredBlock) ∧
        (h'.node.vRecvGetData = node.vRecvGetData.drop k ∨ h'.node.vRecvGetData = node.vRecvGetData)) ∧
    (∀ (env : Env) (reads : Reads) (h' : Handling) (fMoreWork : Bool),
      Handling.processMessages env reads ⟨net.logic, node, []⟩ = some (h', fMoreWork) →
      ∃ h₁, Handling.serveQueued env reads ⟨net.logic, node, []⟩ = some h₁ ∧ (h₁.node.vRecvGetData ≠ [] → h' = h₁)) := by
  have sound := reachable.sound.nodes found
  obtain ⟨e, below, queue, -⟩ := sound.pending
  refine ⟨⟨sound.served, e, below, queue⟩, fun env paused interrupted h' ran => ?_,
    fun env reads h' fMoreWork ran => Handling.processMessages_waits ran⟩
  obtain ⟨k, bound, -, served, blocks, ending⟩ := (Handling.processGetData_pass paused interrupted sound.queued ran).handled
  exact ⟨k, bound, served, blocks, ending.imp_right And.left⟩

theorem getData_in_order_download :
    ∃ node, downloadNet.nodes.find? 1 = some node ∧ node.getDataRequested = [⟨.block, 1⟩, ⟨.tx, 7⟩] ∧
      node.getDataServed = [⟨.block, 1⟩] ∧ node.vRecvGetData = [⟨.tx, 7⟩] ∧
    (node.getDataServed <+: node.getDataRequested ∧
      ∃ e ≤ node.getDataServed.length, node.vRecvGetData = node.getDataRequested.drop e) ∧
    (∀ (env : Env) (paused interrupted : Nat → Bool) (h' : Handling),
      Handling.processGetData env paused interrupted ⟨downloadNet.logic, node, []⟩ = some h' →
      ∃ k ≤ node.vRecvGetData.length, h'.node.getDataServed = node.getDataServed ++ node.vRecvGetData.take k ∧
        (∀ inv ∈ (node.vRecvGetData.take k).dropLast, inv.type ≠ .block ∧ inv.type ≠ .filteredBlock) ∧
        (h'.node.vRecvGetData = node.vRecvGetData.drop k ∨ h'.node.vRecvGetData = node.vRecvGetData)) ∧
    (∀ (env : Env) (reads : Reads) (h' : Handling) (fMoreWork : Bool),
      Handling.processMessages env reads ⟨downloadNet.logic, node, []⟩ = some (h', fMoreWork) →
      ∃ h₁, Handling.serveQueued env reads ⟨downloadNet.logic, node, []⟩ = some h₁ ∧
        (h₁.node.vRecvGetData ≠ [] → h' = h₁)) := by
  obtain ⟨node, found, shown⟩ := Option.map_eq_some'.mp (by decide : (downloadNet.nodes.find? 1).map
    (fun node => (node.getDataRequested, node.getDataServed, node.vRecvGetData)) =
      some ([⟨.block, 1⟩, ⟨.tx, 7⟩], [⟨.block, 1⟩], [⟨.tx, 7⟩]))
  obtain ⟨requested, served, queued⟩ := Prod.mk.inj_iff.mp shown |>.imp_right Prod.mk.inj_iff.mp
  exact ⟨node, found, requested, served, queued, getData_in_order reachable_downloadNet found⟩

/-- **The filter of recent rejects is filled and read under the tip it
records**, in every reachable state: every entry was inserted while the
recorded tip was the active one, and is still recorded; every lookup was made
while they agreed; so the lookup of `AlreadyHave(MSG_TX)`, under any active
tip, finds a hash only when it was inserted under that very tip. -/
theorem rejects_synced (reachable : NetReachable params args net) :
    (∀ {hash tips}, net.logic.recentRejects.find? hash = some tips →
      tips.1 = tips.2 ∧ tips.1 = net.logic.hashRecentRejectsChainTip) ∧
    (∀ tips ∈ net.logic.rejectsLookups, tips.1 = tips.2) ∧
    ∀ (env : Env) (hash : Hash), ((net.logic.resetRejects env).rejectsContains env hash).2 = true →
      ∃ tips, net.logic.recentRejects.find? hash = some tips ∧ tips.2 = env.chain.tip := by
  have sound := reachable.sound.logic
  refine ⟨sound.rejects, sound.lookups, fun env hash hit => ?_⟩
  simp only [PeerLogic.resetRejects_eq, PeerLogic.rejectsContains] at hit
  split_ifs at hit with moved
  · simp at hit
  · obtain ⟨tips, found⟩ := Option.isSome_iff_exists.mp hit
    obtain ⟨inserted, recorded⟩ := sound.rejects found
    exact ⟨tips, found, by rw [← inserted, recorded]; exact (not_not.mp moved).symm⟩

theorem rejects_synced_download :
    (downloadNet.logic.recentRejects.find? 21).isSome ∧ downloadNet.logic.rejectsLookups.length = 5 ∧
    (∀ {hash tips}, downloadNet.logic.recentRejects.find? hash = some tips →
      tips.1 = tips.2 ∧ tips.1 = downloadNet.logic.hashRecentRejectsChainTip) ∧
    (∀ tips ∈ downloadNet.logic.rejectsLookups, tips.1 = tips.2) ∧
    ∀ (env : Env) (hash : Hash), ((downloadNet.logic.resetRejects env).rejectsContains env hash).2 = true →
      ∃ tips, downloadNet.logic.recentRejects.find? hash = some tips ∧ tips.2 = env.chain.tip :=
  ⟨by decide, by decide, rejects_synced reachable_downloadNet⟩

/-- **A transaction is never served from the relay map.** Nothing inserts into
`mapRelay`, so in every reachable state a `GETDATA` item for a transaction,
announced or not, goes to `NOTFOUND`. -/
theorem serveItem_tx_notFound (reachable : NetReachable params args net) (env : Env) (node : CNode)
    (relays : List Relay) (vNotFound : List CInv) (hash : Hash) :
    Handling.serveItem env ⟨net.logic, node, relays⟩ vNotFound ⟨.tx, hash⟩ =
      some (⟨net.logic, node, relays⟩, vNotFound ++ [⟨.tx, hash⟩]) := by
  have empty := reachable.sound.logic.relay
  simp [Handling.serveItem, StdMap.find?, empty]

/-- The failing run: `SendMessages` announced the relayed `20` to peer `2`,
which asks for it and is answered `NOTFOUND`. -/
theorem serveItem_tx_notFound_announced :
    announcedNet.logic.mempool.contains 20 = true ∧
    (downloadNet.nodes.find? 2).bind (·.vSendMsg.getLast?) = some (.notfound [⟨.tx, 20⟩]) ∧
    ∃ node, announcedNet.nodes.find? 2 = some node ∧ node.vSendMsg.getLast? = some (.inv [⟨.tx, 20⟩]) ∧
      Handling.serveItem downloadEnv ⟨announcedNet.logic, node, []⟩ [] ⟨.tx, 20⟩ =
        some (⟨announcedNet.logic, node, []⟩, [⟨.tx, 20⟩]) := by
  obtain ⟨node, found, announced⟩ := Option.map_eq_some'.mp
    (by decide : (announcedNet.nodes.find? 2).map (·.vSendMsg.getLast?) = some (some (.inv [⟨.tx, 20⟩])))
  exact ⟨by decide, by decide, node, found, announced,
    serveItem_tx_notFound reachable_announcedNet downloadEnv node [] [] 20⟩

end XuezNet
