import XuezNet.Effects.Tick

/-! # Runs of the node

`Net.Sound params args` is what holds in every state the node reaches from
start-up (`NetReachable.sound`):

* the globals keep their invariant (`PeerLogic.Sound`);
* every open connection is stored under its own id and is registered;
* every open connection keeps the invariant of a connection (`CNode.Sound`) for
  the interrupt flag as it stands.

Each event keeps it, and what an event pushes to the connections asks for
pairwise distinct blocks none of which was in flight before it
(`Net.SendsFresh`, `NetStep.sound`). Most events only change the connections
within the frame and keep the invariant of the globals (`Net.Keeps`); the two
runs of the message thread are handled calls (`Net.Sound.runOn`); a new
connection and a delivered message are the remaining two.

`FinalizeNode` itself, on consistent globals, forgets exactly what belongs to
the peer and nothing else (`PeerLogic.finalizeNode_spec`).
-/

namespace XuezNet

/-- **The invariant of the node** with the process's constants and arguments. -/
structure Net.Sound (params : Params) (args : Args) (net : Net) : Prop where
  logic : net.logic.Sound args
  ids : ∀ {id node}, net.nodes.find? id = some node → node.id = id
  registered : ∀ {id node}, net.nodes.find? id = some node → (net.logic.registry.state id).isSome
  nodes : ∀ {id node}, net.nodes.find? id = some node → node.Sound params net.fInterrupted

/-- What one event pushed to the connections: every connection open after it
only gained messages, and the blocks they ask for are pairwise distinct and none
was in flight before the event. -/
def Net.SendsFresh (net net' : Net) : Prop :=
  ∀ {id node'}, net'.nodes.find? id = some node' →
    ∃ pushed, node'.vSendMsg = ((net.nodes.find? id).map (·.vSendMsg)).getD [] ++ pushed ∧
      (pushed.flatMap NetMsg.blocksRequested).Nodup ∧
      ∀ hash ∈ pushed.flatMap NetMsg.blocksRequested, net.logic.registry.mapBlocksInFlight.find? hash = none

/-- Every connection open after a change was open before it and changed within
the frame. -/
structure NodesFrame (allowed : NetMsg → Bool) (nodes nodes' : StdMap NodeId CNode) : Prop where
  frame : ∀ {id node'}, nodes'.find? id = some node' → ∃ node, nodes.find? id = some node ∧ NodeFrame allowed node node'

namespace NodesFrame

variable {allowed : NetMsg → Bool} {nodes nodes' nodes'' : StdMap NodeId CNode}

theorem refl (nodes : StdMap NodeId CNode) : NodesFrame allowed nodes nodes :=
  ⟨fun found => ⟨_, found, .refl _⟩⟩

theorem trans (first : NodesFrame allowed nodes nodes') (second : NodesFrame allowed nodes' nodes'') :
    NodesFrame allowed nodes nodes'' := ⟨fun found'' => by
  obtain ⟨node', found', late⟩ := second.frame found''
  obtain ⟨node, found, early⟩ := first.frame found'
  exact ⟨node, found, early.trans late⟩⟩

theorem mono {allowed' : NetMsg → Bool} (weaker : ∀ {msg}, allowed msg → allowed' msg)
    (frame : NodesFrame allowed nodes nodes') : NodesFrame allowed' nodes nodes' := ⟨fun found' => by
  obtain ⟨node, found, changed⟩ := frame.frame found'
  exact ⟨node, found, changed.mono weaker⟩⟩

/-- The same change on every connection. -/
theorem map {f : CNode → CNode} (each : ∀ node, NodeFrame allowed node (f node)) (nodes : StdMap NodeId CNode) :
    NodesFrame allowed nodes (nodes.map f) := ⟨fun found' => by
  rw [StdMap.find?_map] at found'
  obtain ⟨node, found, rfl⟩ := Option.map_eq_some'.mp found'
  exact ⟨node, found, each node⟩⟩

/-- A change of one connection. -/
theorem modify {f : CNode → CNode} (each : ∀ node, NodeFrame allowed node (f node))
    (nodes : StdMap NodeId CNode) (id : NodeId) : NodesFrame allowed nodes (nodes.modify id f) :=
  ⟨fun {other node'} found' => by
    rw [StdMap.find?_modify] at found'
    split_ifs at found' with same
    · obtain ⟨node, found, rfl⟩ := Option.map_eq_some'.mp found'
      exact ⟨node, same ▸ found, each node⟩
    · exact ⟨_, found', .refl _⟩⟩

/-- Dropping a connection. -/
theorem erase (nodes : StdMap NodeId CNode) (id : NodeId) : NodesFrame allowed nodes (nodes.erase id) :=
  ⟨fun {other node'} found' => by
    rw [StdMap.find?_erase] at found'
    split_ifs at found'
    exact ⟨_, found', .refl _⟩⟩

/-- Replacing an open connection by one changed within the frame. -/
theorem insert {id : NodeId} {node node' : CNode} (found : nodes.find? id = some node)
    (changed : NodeFrame allowed node node') : NodesFrame allowed nodes (nodes.insert id node') :=
  ⟨fun {other node''} found' => by
    rw [StdMap.find?_insert] at found'
    split_ifs at found' with same
    · cases found'
      exact ⟨node, same ▸ found, changed⟩
    · exact ⟨_, found', .refl _⟩⟩

end NodesFrame

/-- Queueing a block to announce leaves the frame. -/
theorem NodeFrame.pushBlockHash {allowed : NetMsg → Bool} (node : CNode) (hash : Hash) :
    NodeFrame allowed node (node.pushBlockHash hash) :=
  .update rfl rfl rfl rfl rfl rfl rfl rfl rfl

/-- A change made item by item, each within the frame. -/
theorem NodeFrame.foldl {α : Type} {allowed : NetMsg → Bool} {f : CNode → α → CNode}
    (each : ∀ node item, NodeFrame allowed node (f node item)) :
    ∀ (items : List α) (node : CNode), NodeFrame allowed node (items.foldl f node)
  | [], node => .refl node
  | item :: rest, node => (each node item).trans (NodeFrame.foldl each rest _)

/-- A message-free frame leaves the outgoing messages as they were. -/
theorem NodeFrame.vSendMsg_eq {node node' : CNode} (frame : NodeFrame (fun _ => false) node node') :
    node'.vSendMsg = node.vSendMsg := by
  obtain ⟨pushed, sent, none⟩ := frame.sent
  rw [sent, List.eq_nil_iff_forall_not_mem.mpr fun msg member => Bool.false_ne_true (none msg member),
    List.append_nil]

/-- The addresses `RelayAddress` queues at its targets. -/
theorem pushAddresses_frame (addr : CAddress) :
    ∀ (targets : List NodeId) (nodes : StdMap NodeId CNode),
      NodesFrame (fun _ => false) nodes (targets.foldl (fun nodes id => nodes.modify id (·.pushAddress addr)) nodes)
  | [], nodes => .refl nodes
  | id :: rest, nodes =>
      (NodesFrame.modify (fun node => .pushAddress node addr) nodes id).trans (pushAddresses_frame addr rest _)

/-- An announcement reaches the connections without a message: it only queues
an inventory or an address. -/
theorem applyRelay_frame (env : Env) (nodes : StdMap NodeId CNode) :
    ∀ relay, NodesFrame (fun _ => false) nodes (applyRelay env nodes relay)
  | .tx _ => NodesFrame.map (fun node => .pushInventory node _) nodes
  | .stx _ => NodesFrame.map (fun node => .pushInventory node _) nodes
  | .address addr _ => pushAddresses_frame addr _ nodes

/-- The announcements a handler queued reach the connections without a message. -/
theorem applyRelays_frame (env : Env) :
    ∀ (relays : List Relay) (nodes : StdMap NodeId CNode),
      NodesFrame (fun _ => false) nodes (relays.foldl (applyRelay env) nodes)
  | [], nodes => .refl nodes
  | relay :: rest, nodes => (applyRelay_frame env nodes relay).trans (applyRelays_frame env rest _)

/-- A change within the frame pushes no block request. -/
theorem NodeFrame.quiet {node node' : CNode} (frame : NodeFrame NetMsg.framed node node') :
    ∃ pushed, node'.vSendMsg = node.vSendMsg ++ pushed ∧ pushed.flatMap NetMsg.blocksRequested = [] := by
  obtain ⟨pushed, sent, framed⟩ := frame.sent
  refine ⟨pushed, sent, List.flatMap_eq_nil_iff.mpr fun msg member => ?_⟩
  have := framed msg member
  simp only [NetMsg.framed, Bool.and_eq_true, List.isEmpty_iff] at this
  exact this.2

/-- **An event that keeps the globals and changes the connections within the
frame**: it keeps the invariant of the globals and the registration of every
connection still open, and raises the interrupt at most. -/
structure Net.Keeps (args : Args) (net net' : Net) : Prop where
  logic : net.logic.Sound args → net'.logic.Sound args
  registered : ∀ {id node'}, net'.nodes.find? id = some node' → (net.logic.registry.state id).isSome →
    (net'.logic.registry.state id).isSome
  nodes : NodesFrame NetMsg.framed net.nodes net'.nodes
  raised : net.fInterrupted = true → net'.fInterrupted = true

/-- `BlockChecked` moves the globals by primitive steps, then forgets the
block's source. -/
theorem PeerLogic.blockChecked_moves (env : Env) (logic : PeerLogic) (hash : Hash) (state : CValidationState) :
    ∃ logic', LogicMoves env logic logic' ∧
      logic.blockChecked env hash state = { logic' with mapBlockSource := logic'.mapBlockSource.erase hash } := by
  refine ⟨_, ?_, rfl⟩
  split
  · split
    · rename_i found
      split_ifs
      · refine .tail (.single ?_) (LogicStep.misbehaving _ _)
        exact LogicStep.setFields found (by constructor <;> rfl)
      · exact .single (LogicStep.setFields found (by constructor <;> rfl))
      · exact .refl
    · exact .refl
  · exact .refl

/-- **`FinalizeNode(p)`**, on globals whose registry and orphan pool are
consistent, for a registered peer `p`: it succeeds, forgets `p`, drops exactly
`p`'s blocks in flight, block sources and orphans (the reverse index staying
exact), lowers the three counters by exactly `p`'s share, leaves every other
peer, block in flight, block source and orphan as it was, and reports
`fUpdateConnectionTime` exactly when `p` is connected with no misbehavior. -/
theorem PeerLogic.finalizeNode_spec {logic : PeerLogic} (registry : logic.registry.Consistent)
    (orphans : logic.orphans.Consistent) {nodeid : NodeId} {nodeState : CNodeState}
    (found : logic.registry.state nodeid = some nodeState) :
    ∃ logic' fUpdateConnectionTime, logic.finalizeNode nodeid = some (logic', fUpdateConnectionTime) ∧
      (∀ other, logic'.registry.state other = if other = nodeid then none else logic.registry.state other) ∧
      (∀ hash, logic'.registry.mapBlocksInFlight.find? hash =
        (logic.registry.mapBlocksInFlight.find? hash).filter fun entry => entry.1 ≠ nodeid) ∧
      (∀ hash, logic'.mapBlockSource.find? hash = (logic.mapBlockSource.find? hash).filter fun source => source.1 ≠ nodeid) ∧
      (∀ hash orphan, logic'.orphans.mapOrphanTransactions.find? hash = some orphan ↔
        logic.orphans.mapOrphanTransactions.find? hash = some orphan ∧ orphan.fromPeer ≠ nodeid) ∧
      logic'.orphans.Consistent ∧
      logic'.registry.nSyncStarted = logic.registry.nSyncStarted - nodeState.fSyncStarted.toNat ∧
      logic'.registry.nPreferredDownload = logic.registry.nPreferredDownload - nodeState.fPreferredDownload.toNat ∧
      logic'.registry.nPeersWithValidatedDownloads = logic.registry.nPeersWithValidatedDownloads -
        (nodeState.nBlocksInFlightValidHeaders ≠ 0 : Bool).toNat ∧
      fUpdateConnectionTime = (nodeState.nMisbehavior = 0 && nodeState.fCurrentlyConnected) := by
  obtain ⟨⟨forgotten, fUpdateConnectionTime⟩, finalized⟩ :=
    Option.isSome_iff_exists.mp (registry.finalizeNode_isSome (by rw [found]; rfl))
  obtain ⟨nodeState', found', rfl, flag⟩ := Registry.finalizeNode_eq finalized
  rw [found] at found'
  cases found'
  have owned : ∀ hash, (∃ entry ∈ nodeState.vBlocksInFlight, entry.2.hash = hash) ↔
      ∃ node, logic.registry.mapBlocksInFlight.find? hash = some (nodeid, node) := fun hash => by
    refine ⟨fun ⟨⟨node, queued⟩, member, named⟩ => ⟨node, named ▸ registry.indexed found member⟩,
      fun ⟨node, entry⟩ => ?_⟩
    obtain ⟨nodeState', found', queued, member, named⟩ := registry.targets entry
    rw [found] at found'
    cases found'
    exact ⟨_, member, named⟩
  refine ⟨{ logic with
      registry := logic.registry.forgetNode nodeid nodeState
      mapBlockSource := logic.mapBlockSource.filter fun _ source => source.1 ≠ nodeid
      orphans := logic.orphans.eraseOrphansFor nodeid }, fUpdateConnectionTime,
    by unfold PeerLogic.finalizeNode; rw [finalized]; rfl, fun other => Registry.forgetNode_state _ _ _ _,
    fun hash => ?_, fun hash => StdMap.find?_filter _ _ _, orphans.find?_eraseOrphansFor nodeid,
    orphans.eraseOrphansFor nodeid, rfl, rfl, rfl, flag⟩
  rw [Registry.forgetNode_find?]
  split_ifs with mine
  · obtain ⟨node, entry⟩ := (owned hash).mp mine
    simp [entry, Option.filter]
  · cases entry : logic.registry.mapBlocksInFlight.find? hash with
    | none => rfl
    | some target =>
        obtain ⟨owner, node⟩ := target
        have other : owner ≠ nodeid := fun same => mine ((owned hash).mpr ⟨node, same ▸ entry⟩)
        simp [other, Option.filter]

/-- Peers `1` and `2` registered, with block `7` in flight from `1`. -/
def Registry.oneInFlight : Registry :=
  (((Registry.empty.initializeNode 1).initializeNode 2).markBlockAsInFlight 1 7 none 0).get (by decide)

/-- And block `8` in flight from `2`. -/
def Registry.twoInFlight : Registry := (Registry.oneInFlight.markBlockAsInFlight 2 8 none 0).get (by decide)

theorem Registry.consistent_twoInFlight : Registry.twoInFlight.Consistent :=
  (((Registry.consistent_empty.initializeNode 1).initializeNode 2).markBlockAsInFlight
    (Option.some_get _).symm).markBlockAsInFlight (Option.some_get _).symm

/-- Peers `1` and `2`, each with a block in flight, a block source and an orphan. -/
def PeerLogic.twoPeers : PeerLogic :=
  { PeerLogic.initial ∅ with
    registry := Registry.twoInFlight
    mapBlockSource := (StdMap.empty.insert 7 (1, true)).insert 8 (2, true)
    orphans := ((OrphanPool.empty.addOrphanTx Handling.orphanTx 1).1.addOrphanTx Handling.childTx 2).1 }

theorem PeerLogic.finalizeNode_spec_twoPeers :
    (PeerLogic.twoPeers.registry.mapBlocksInFlight.find? 8).map Prod.fst = some 2 ∧
    PeerLogic.twoPeers.mapBlockSource.find? 8 = some (2, true) ∧
    (PeerLogic.twoPeers.orphans.mapOrphanTransactions.find? 30).map (·.fromPeer) = some 2 ∧
    ∃ nodeState, PeerLogic.twoPeers.registry.state 1 = some nodeState ∧ nodeState.nBlocksInFlight = 1 ∧
    ∃ logic' fUpdateConnectionTime, PeerLogic.twoPeers.finalizeNode 1 = some (logic', fUpdateConnectionTime) ∧
      (∀ other, logic'.registry.state other = if other = 1 then none else PeerLogic.twoPeers.registry.state other) ∧
      (∀ hash, logic'.registry.mapBlocksInFlight.find? hash =
        (PeerLogic.twoPeers.registry.mapBlocksInFlight.find? hash).filter fun entry => entry.1 ≠ 1) ∧
      (∀ hash, logic'.mapBlockSource.find? hash =
        (PeerLogic.twoPeers.mapBlockSource.find? hash).filter fun source => source.1 ≠ 1) ∧
      (∀ hash orphan, logic'.orphans.mapOrphanTransactions.find? hash = some orphan ↔
        PeerLogic.twoPeers.orphans.mapOrphanTransactions.find? hash = some orphan ∧ orphan.fromPeer ≠ 1) ∧
      logic'.orphans.Consistent ∧
      logic'.registry.nSyncStarted = PeerLogic.twoPeers.registry.nSyncStarted - nodeState.fSyncStarted.toNat ∧
      logic'.registry.nPreferredDownload =
        PeerLogic.twoPeers.registry.nPreferredDownload - nodeState.fPreferredDownload.toNat ∧
      logic'.registry.nPeersWithValidatedDownloads = PeerLogic.twoPeers.registry.nPeersWithValidatedDownloads -
        (nodeState.nBlocksInFlightValidHeaders ≠ 0 : Bool).toNat ∧
      fUpdateConnectionTime = (nodeState.nMisbehavior = 0 && nodeState.fCurrentlyConnected) := by
  obtain ⟨nodeState, found, one⟩ := Option.map_eq_some'.mp
    (by decide : (PeerLogic.twoPeers.registry.state 1).map (·.nBlocksInFlight) = some 1)
  exact ⟨by decide, by decide, by decide, nodeState, found, one, PeerLogic.finalizeNode_spec
    Registry.consistent_twoInFlight ((OrphanPool.consistent_empty.addOrphanTx _ 1).addOrphanTx _ 2) found⟩

namespace Net

variable {params : Params} {args : Args} {net net' net'' : Net}

theorem Keeps.trans (first : Keeps args net net') (second : Keeps args net' net'') : Keeps args net net'' where
  logic := second.logic ∘ first.logic
  registered found'' registered := by
    obtain ⟨node', found', -⟩ := second.nodes.frame found''
    exact second.registered found'' (first.registered found' registered)
  nodes := first.nodes.trans second.nodes
  raised := second.raised ∘ first.raised

/-- Such an event keeps the invariant of the node and pushes no block request. -/
theorem Keeps.sound (keeps : Keeps args net net') (sound : net.Sound params args) :
    net'.Sound params args ∧ net.SendsFresh net' := by
  refine ⟨⟨keeps.logic sound.logic, fun found' => ?_, fun found' => ?_, fun found' => ?_⟩, fun found' => ?_⟩ <;>
    obtain ⟨node, found, frame⟩ := keeps.nodes.frame found'
  · rw [frame.keeps.id]
    exact sound.ids found
  · exact keeps.registered found' (sound.registered found)
  · exact (frame.sound (fun _ => NetMsg.withinLimits_of_framed) (sound.nodes found)).raise keeps.raised
  · obtain ⟨pushed, sent, none⟩ := frame.quiet
    exact ⟨pushed, by rw [found]; exact sent, by rw [none]; exact List.nodup_nil, by simp [none]⟩

theorem Keeps.refl (net : Net) : Keeps args net net :=
  ⟨id, fun _ registered => registered, .refl _, id⟩

/-- Primitive steps of the globals, in an environment with the process's
arguments, with the connections changed within the frame. -/
theorem Keeps.ofMoves {env : Env} (fixed : env.args = args) (moves : LogicMoves env net.logic net'.logic)
    (nodes : NodesFrame NetMsg.framed net.nodes net'.nodes)
    (raised : net.fInterrupted = true → net'.fInterrupted = true) : Keeps args net net' where
  logic := moves.sound fixed
  registered _ registered := (moves.state_isSome _).trans registered
  nodes := nodes
  raised := raised

/-- **A handled call on an open connection keeps the invariant of the node**,
with the announcements it queued applied, from `net`'s interrupt flag to
`net'`'s; its block requests are those of the call. -/
theorem Sound.runOn {env : Env} {id : NodeId} {node : CNode} {h' : Handling} (sound : net.Sound params args)
    (fixed : env.params = params ∧ env.args = args) (found : net.nodes.find? id = some node)
    (handled : Handling.Handled env net.fInterrupted net'.fInterrupted ⟨net.logic, node, []⟩ h')
    (raised : net.fInterrupted = true → net'.fInterrupted = true) (logic : net'.logic = h'.logic)
    (nodes : net'.nodes = h'.relays.foldl (applyRelay env) (net.nodes.insert id h'.node)) :
    net'.Sound params args ∧ net.SendsFresh net' := by
  obtain ⟨rfl, rfl⟩ := fixed
  have located : ∀ {id' node''}, net'.nodes.find? id' = some node'' → ∃ node',
      NodeFrame (fun _ => false) node' node'' ∧
        (id' = id ∧ node' = h'.node ∨ id' ≠ id ∧ net.nodes.find? id' = some node') := by
    intro id' node'' found''
    rw [nodes] at found''
    obtain ⟨node', found', frame⟩ := (applyRelays_frame env h'.relays _).frame found''
    rw [StdMap.find?_insert] at found'
    split_ifs at found' with same
    · cases found'
      exact ⟨_, frame, .inl ⟨same, rfl⟩⟩
    · exact ⟨_, frame, .inr ⟨same, found'⟩⟩
  refine ⟨⟨logic ▸ LogicMoves.sound handled.logic rfl sound.logic, fun found'' => ?_, fun found'' => ?_,
    fun found'' => ?_⟩, fun found'' => ?_⟩
  · obtain ⟨node', frame, ⟨rfl, rfl⟩ | ⟨-, found'⟩⟩ := located found''
    · rw [frame.keeps.id, handled.id]
      exact sound.ids found
    · rw [frame.keeps.id]
      exact sound.ids found'
  · rw [logic, LogicMoves.state_isSome handled.logic]
    obtain ⟨node', -, ⟨rfl, -⟩ | ⟨-, found'⟩⟩ := located found''
    · exact sound.registered found
    · exact sound.registered found'
  · obtain ⟨node', frame, ⟨rfl, rfl⟩ | ⟨-, found'⟩⟩ := located found''
    · exact frame.sound (fun _ off => absurd off Bool.false_ne_true) (handled.sound (sound.nodes found))
    · exact frame.sound (fun _ off => absurd off Bool.false_ne_true) ((sound.nodes found').raise raised)
  · obtain ⟨node', frame, ⟨rfl, rfl⟩ | ⟨-, found'⟩⟩ := located found''
    · obtain ⟨pushed, sent, unique, before⟩ := handled.fresh
      exact ⟨pushed, by rw [frame.vSendMsg_eq, sent, found]; rfl, unique, before⟩
    · exact ⟨[], by rw [frame.vSendMsg_eq, found', List.append_nil]; rfl, List.nodup_nil, by simp⟩

/-- A run of a handler on an open connection, taken apart. -/
theorem runOn_eq {env : Env} {id : NodeId} {handler : Handling → Option Handling}
    (ran : net.runOn env id handler = some net') :
    ∃ node h', net.nodes.find? id = some node ∧ handler ⟨net.logic, node, []⟩ = some h' ∧
      net' = { net with logic := h'.logic, nodes := h'.relays.foldl (applyRelay env) (net.nodes.insert id h'.node) } := by
  unfold runOn at ran
  obtain ⟨node, found, ran⟩ := Option.bind_eq_some.mp ran
  obtain ⟨h', handled, ran⟩ := Option.bind_eq_some.mp ran
  exact ⟨node, h', found, handled, (Option.some.inj ran).symm⟩

/-- **`ProcessMessages` keeps the invariant of the node**, for every reading of
the interrupt a run allows. -/
theorem Sound.processMessages {env : Env} {id : NodeId} {reads : Reads} (sound : net.Sound params args)
    (fixed : env.params = params ∧ env.args = args) (allowed : reads.Allowed net.fInterrupted net'.fInterrupted)
    (ran : (net.runOn env id fun h => (Handling.processMessages env reads h).map (·.1)) =
      some { net' with fInterrupted := net.fInterrupted }) :
    net'.Sound params args ∧ net.SendsFresh net' := by
  obtain ⟨node, h', found, handled, same⟩ := runOn_eq ran
  obtain ⟨⟨h'', fMoreWork⟩, processed, rfl⟩ := Option.map_eq_some'.mp handled
  have logic := congrArg Net.logic same
  have nodes := congrArg Net.nodes same
  have queued := (sound.nodes found).queued
  have registered := sound.registered found
  rw [← sound.ids found] at registered
  exact sound.runOn fixed found (Handling.processMessages_handled allowed registered queued processed)
    (fun raised => (allowed.1 raised).1) logic nodes

/-- **`SendMessages` keeps the invariant of the node.** -/
theorem Sound.sendMessages {env : Env} {id : NodeId} {tick : Tick} (sound : net.Sound params args)
    (fixed : env.params = params ∧ env.args = args) (ran : net.runOn env id (Handling.sendMessages env tick) = some net') :
    net'.Sound params args ∧ net.SendsFresh net' := by
  obtain ⟨node, h', found, sent, rfl⟩ := runOn_eq ran
  have fetches := Handling.sendMessages_fetches fixed.2 sound.logic (sound.nodes found).askFor sent
  exact sound.runOn fixed found (.ofFetches fetches fun raised => raised) (fun raised => raised) rfl rfl

/-- **A message delivered to an open connection** keeps the invariant and
pushes nothing. -/
theorem Sound.receive {id : NodeId} {node : CNode} (sound : net.Sound params args)
    (found : net.nodes.find? id = some node) (msg : CNetMessage) :
    ({ net with nodes := net.nodes.insert id { node with vProcessMsg := node.vProcessMsg ++ [msg] } } : Net).Sound
        params args ∧
      net.SendsFresh { net with nodes := net.nodes.insert id { node with vProcessMsg := node.vProcessMsg ++ [msg] } } := by
  refine ⟨⟨sound.logic, fun found' => ?_, fun found' => ?_, fun found' => ?_⟩, fun found' => ?_⟩ <;>
    obtain ⟨rfl, rfl⟩ | ⟨-, found'⟩ := StdMap.find?_insert_eq_some found'
  · exact (sound.ids found :)
  · exact sound.ids found'
  · exact sound.registered found
  · exact sound.registered found'
  · exact (sound.nodes found).take _
  · exact sound.nodes found'
  · exact ⟨[], by rw [found, List.append_nil]; rfl, List.nodup_nil, by simp⟩
  · exact ⟨[], by rw [found', List.append_nil]; rfl, List.nodup_nil, by simp⟩

/-- `InitializeNode` on a new connection, taken apart. -/
theorem connect_eq (env : Env) (net : Net) (node : CNode) :
    net.connect env node = { net with
      logic := { net.logic with registry := net.logic.registry.initializeNode node.id }
      nodes := net.nodes.insert node.id
        (if !node.fInbound then Handling.pushNodeVersion env node env.nTime else node) } := by
  unfold connect Handling.initializeNode
  split_ifs <;> rfl

/-- **A new connection keeps the invariant**: the peer is registered, and an
outbound connection opens with our `VERSION`, which asks for no block. -/
theorem Sound.connect {env : Env} {id : NodeId} {fInbound fWhitelisted fOneShot fFeeler fAddnode : Bool}
    {nServicesExpected nLocalServices : Nat} (sound : net.Sound params args) (fresh : net.nodes.find? id = none) :
    (net.connect env (CNode.connect id fInbound fWhitelisted fOneShot fFeeler fAddnode nServicesExpected
        nLocalServices)).Sound params args ∧
      net.SendsFresh (net.connect env (CNode.connect id fInbound fWhitelisted fOneShot fFeeler fAddnode
        nServicesExpected nLocalServices)) := by
  rw [connect_eq]
  set node := CNode.connect id fInbound fWhitelisted fOneShot fFeeler fAddnode nServicesExpected nLocalServices
  have opened : NodeFrame NetMsg.framed node
      (if !node.fInbound then Handling.pushNodeVersion env node env.nTime else node) := by
    split_ifs
    · exact Handling.pushNodeVersion_frame node _
    · exact .refl node
  refine ⟨⟨?_, fun found' => ?_, fun found' => ?_, fun found' => ?_⟩, fun found' => ?_⟩
  · refine { sound.logic with
      registry := .step sound.logic.registry (.initializeNode _ _)
      room := fun found' => ?_
      fromPeers := fun found' => Registry.initializeNode_registers _ _ (.inr (sound.logic.fromPeers found')) }
    rw [Registry.initializeNode_state] at found'
    split_ifs at found'
    · cases found'
      decide
    · exact sound.logic.room found'
  all_goals obtain ⟨rfl, rfl⟩ | ⟨-, found'⟩ := StdMap.find?_insert_eq_some found'
  · exact opened.keeps.id
  · exact sound.ids found'
  · exact Registry.initializeNode_registers _ _ (.inl rfl)
  · exact Registry.initializeNode_registers _ _ (.inr (sound.registered found'))
  · exact opened.sound (fun _ => NetMsg.withinLimits_of_framed) (CNode.sound_connect params _ _ fInbound
      fWhitelisted fOneShot fFeeler fAddnode nServicesExpected nLocalServices)
  · exact sound.nodes found'
  · obtain ⟨pushed, sent, none⟩ := opened.quiet
    exact ⟨pushed, by rw [fresh, sent]; rfl, by rw [none]; exact List.nodup_nil,
      by simp [none]⟩
  · exact ⟨[], by rw [found', List.append_nil]; rfl, List.nodup_nil, by simp⟩

/-- **A disconnection**: `FinalizeNode` forgets the peer, its block sources and
its orphans, and the connection is dropped. -/
theorem Keeps.disconnect {logic : PeerLogic} {fUpdateConnectionTime : Bool} {nodeid : NodeId}
    (finalized : net.logic.finalizeNode nodeid = some (logic, fUpdateConnectionTime)) :
    Keeps args net { net with logic, nodes := net.nodes.erase nodeid } := by
  unfold PeerLogic.finalizeNode at finalized
  obtain ⟨⟨registry, fUpdate⟩, forgotten, finalized⟩ := Option.bind_eq_some.mp finalized
  cases finalized
  have step := RegistryStep.finalizeNode forgotten
  obtain ⟨nodeState, -, rfl, -⟩ := Registry.finalizeNode_eq forgotten
  refine ⟨fun sound => ?_, fun {other _} found' registered => ?_, NodesFrame.erase _ _, fun raised => raised⟩
  · refine { sound with
      registry := .step sound.registry step
      room := fun found' => ?_
      orphans := sound.orphans.eraseOrphansFor nodeid
      fromPeers := fun {hash orphan} found' => ?_
      bounded := (OrphanPool.size_eraseOrphansFor_le _ _).trans sound.bounded }
    · rw [Registry.forgetNode_state] at found'
      split_ifs at found'
      exact sound.room found'
    · obtain ⟨kept, other⟩ := (sound.orphans.find?_eraseOrphansFor nodeid hash orphan).mp found'
      simpa [other] using sound.fromPeers kept
  · rw [StdMap.find?_erase] at found'
    split_ifs at found' with same
    simpa [same] using registered

/-- `BlockConnected` only evicts orphans. -/
theorem Keeps.blockConnected (net : Net) (block : CBlock) :
    Keeps args net { net with logic := net.logic.blockConnected block } :=
  ⟨fun sound => { sound with
      orphans := sound.orphans.blockConnected block
      fromPeers := fun found => by
        simp only [PeerLogic.blockConnected, OrphanPool.blockConnected,
          OrphanPool.find?_foldl_eraseOrphanTx] at found
        split_ifs at found
        exact sound.fromPeers found
      bounded := (OrphanPool.size_blockConnected_le _ _).trans sound.bounded },
    fun _ registered => registered, .refl _, id⟩

theorem Keeps.blockChecked {env : Env} (fixed : env.args = args) (net : Net) (hash : Hash)
    (state : CValidationState) : Keeps args net { net with logic := net.logic.blockChecked env hash state } := by
  obtain ⟨logic', moves, checked⟩ := net.logic.blockChecked_moves env hash state
  refine ⟨fun sound => ?_, fun _ registered => ?_, .refl _, id⟩
  · show (net.logic.blockChecked env hash state).Sound args
    rw [checked]
    exact { moves.sound fixed sound with }
  · show ((net.logic.blockChecked env hash state).registry.state _).isSome
    rw [checked]
    exact (moves.state_isSome _).trans registered

theorem Keeps.mempool (net : Net) (mempool : StdSet Hash) :
    Keeps args net { net with logic := { net.logic with mempool } } :=
  ⟨fun sound => { sound with }, fun _ registered => registered, .refl _, id⟩

theorem Keeps.interrupt (net : Net) : Keeps args net { net with fInterrupted := true } :=
  ⟨id, fun _ registered => registered, .refl _, fun _ => rfl⟩

/-- **What the header announcement to one connection does**: it moves the
globals by primitive steps (the refresh of the peer's availability, then the
header recorded as sent) and changes at most that connection, within the frame. -/
theorem fastAnnounce_moves {env : Env} {pindex : Hash} {nodeid : NodeId}
    (ran : Net.fastAnnounce env pindex (some net) nodeid = some net') :
    LogicMoves env net.logic net'.logic ∧ net'.fInterrupted = net.fInterrupted ∧
      (net'.nodes = net.nodes ∨ ∃ node node', net.nodes.find? nodeid = some node ∧
        NodeFrame NetMsg.framed node node' ∧ net'.nodes = net.nodes.insert nodeid node') := by
  unfold Net.fastAnnounce at ran
  obtain ⟨_, started, ran⟩ := Option.bind_eq_some.mp ran
  cases started
  obtain ⟨node, found, ran⟩ := Option.bind_eq_some.mp ran
  by_cases gone : node.fDisconnect = true
  · rw [if_pos gone] at ran
    cases ran
    exact ⟨.refl, rfl, .inl rfl⟩
  rw [if_neg gone] at ran
  obtain ⟨_, -, ran⟩ := Option.bind_eq_some.mp ran
  obtain ⟨registry, updated, ran⟩ := Option.bind_eq_some.mp ran
  obtain ⟨state, known, ran⟩ := Option.bind_eq_some.mp ran
  have refresh : LogicStep env net.logic { net.logic with registry } :=
    .registry (RegistryUpdate.processBlockAvailability updated).1
  by_cases has : CNodeState.peerHasHeader env.chain state pindex = true
  · rw [if_pos has] at ran
    cases ran
    exact ⟨.single refresh, rfl, .inl rfl⟩
  rw [if_neg has] at ran
  obtain ⟨_, -, ran⟩ := Option.bind_eq_some.mp ran
  obtain ⟨parent, -, ran⟩ := Option.bind_eq_some.mp ran
  split_ifs at ran
  · cases ran
    exact ⟨.single refresh, rfl, .inl rfl⟩
  · cases ran
    exact ⟨.tail (.single refresh) (LogicStep.setFields known (by constructor <;> rfl)), rfl,
      .inr ⟨node, _, found, .push node (Handling.headers_framed (by simp [MAX_HEADERS_RESULTS])), rfl⟩⟩

/-- The header announcement to one connection refreshes the peer's
availability, and at most records and pushes one header. -/
theorem Keeps.fastAnnounce {env : Env} (fixed : env.args = args) {pindex : Hash} {nodeid : NodeId}
    (ran : Net.fastAnnounce env pindex (some net) nodeid = some net') : Keeps args net net' := by
  obtain ⟨moves, interrupted, same | ⟨node, node', found, frame, inserted⟩⟩ := fastAnnounce_moves ran <;>
    refine .ofMoves fixed moves ?_ fun raised => interrupted.trans raised
  · rw [same]
    exact .refl _
  · rw [inserted]
    exact .insert found frame

/-- Once an announcement has failed, the rest of the fold fails too. -/
theorem foldl_fastAnnounce_none (env : Env) (pindex : Hash) :
    ∀ ids : List NodeId, ids.foldl (Net.fastAnnounce env pindex) none = none
  | [] => rfl
  | _ :: rest => foldl_fastAnnounce_none env pindex rest

/-- A relation that composes and that every header announcement keeps holds
across the announcements to a list of connections. -/
theorem foldl_fastAnnounce_rel {env : Env} {pindex : Hash} (R : Net → Net → Prop) (refl : ∀ net, R net net)
    (trans : ∀ {net net' net''}, R net net' → R net' net'' → R net net'')
    (each : ∀ {net net' nodeid}, Net.fastAnnounce env pindex (some net) nodeid = some net' → R net net') :
    ∀ (ids : List NodeId) {net net' : Net}, ids.foldl (Net.fastAnnounce env pindex) (some net) = some net' →
      R net net'
  | [], net, _, ran => by
      cases ran
      exact refl net
  | nodeid :: rest, net, _, ran => by
      rw [List.foldl_cons] at ran
      cases step : Net.fastAnnounce env pindex (some net) nodeid with
      | none =>
          rw [step, foldl_fastAnnounce_none] at ran
          cases ran
      | some mid =>
          rw [step] at ran
          exact trans (each step) (foldl_fastAnnounce_rel R refl trans each rest ran)

theorem Keeps.foldl_fastAnnounce {env : Env} (fixed : env.args = args) (pindex : Hash) :
    ∀ (ids : List NodeId) {net net' : Net}, ids.foldl (Net.fastAnnounce env pindex) (some net) = some net' →
      Keeps args net net' :=
  foldl_fastAnnounce_rel (Keeps args) Keeps.refl Keeps.trans (Keeps.fastAnnounce fixed)

/-- **`NewPoWValidBlock`** announces the block's header within the frame. -/
theorem Keeps.newPoWValidBlock {env : Env} (fixed : env.args = args) {pindex : Hash}
    (ran : net.newPoWValidBlock env pindex = some net') : Keeps args net net' := by
  unfold Net.newPoWValidBlock at ran
  dsimp only at ran
  split_ifs at ran
  · cases ran
    exact .refl net
  · refine Keeps.trans ?_ (Keeps.foldl_fastAnnounce fixed pindex _ ran)
    exact ⟨fun sound => { sound with }, fun _ registered => registered, .refl _, id⟩

/-- **What `UpdatedBlockTip` does**: the same change, within the frame, on every
connection, and nothing else. -/
theorem updatedBlockTip_map {env : Env} {pindexNew : Hash} {pindexFork : Option Hash} {fInitialDownload : Bool}
    (ran : net.updatedBlockTip env pindexNew pindexFork fInitialDownload = some net') :
    ∃ f : CNode → CNode, (∀ node, NodeFrame NetMsg.framed node (f node)) ∧ net'.logic = net.logic ∧
      net'.nodes = net.nodes.map f ∧ net'.fInterrupted = net.fInterrupted := by
  unfold Net.updatedBlockTip at ran
  simp only [Option.bind_eq_bind, Option.some_bind, Option.pure_def] at ran
  split_ifs at ran
  · cases ran
    exact ⟨id, .refl, rfl, StdMap.ext fun _ => by simp, rfl⟩
  obtain ⟨vHashes, -, ran⟩ := Option.bind_eq_some.mp ran
  cases ran
  dsimp only
  refine ⟨_, fun node => ?_, rfl, rfl, rfl⟩
  split_ifs <;> first
    | exact NodeFrame.foldl (fun node hash => .pushBlockHash node hash) _ node
    | exact .refl node

/-- **`UpdatedBlockTip`** only queues blocks to announce. -/
theorem Keeps.updatedBlockTip {env : Env} {pindexNew : Hash} {pindexFork : Option Hash} {fInitialDownload : Bool}
    (ran : net.updatedBlockTip env pindexNew pindexFork fInitialDownload = some net') : Keeps args net net' := by
  obtain ⟨f, each, logic, nodes, interrupted⟩ := updatedBlockTip_map ran
  refine ⟨fun sound => by rwa [logic], fun _ registered => by rwa [logic], ?_, fun raised => interrupted.trans raised⟩
  rw [nodes]
  exact NodesFrame.map each _

end Net

/-- **Every event keeps the invariant of the node**, and what it pushes to the
connections asks for pairwise distinct blocks none of which was in flight. -/
theorem NetStep.sound {params : Params} {args : Args} {net net' : Net} (step : NetStep params args net net')
    (sound : net.Sound params args) : net'.Sound params args ∧ net.SendsFresh net' := by
  cases step with
  | connect env fixed id fInbound fWhitelisted fOneShot fFeeler fAddnode nServicesExpected nLocalServices fresh =>
      exact sound.connect fresh
  | receive id msg node found => exact sound.receive found msg
  | processMessages env fixed id reads fMoreWork allowed ran => exact sound.processMessages fixed allowed ran
  | sendMessages env fixed id tick ran => exact sound.sendMessages fixed ran
  | disconnect id connected finalized => exact (Net.Keeps.disconnect finalized).sound sound
  | blockConnected block => exact (Net.Keeps.blockConnected _ block).sound sound
  | newPoWValidBlock env fixed pindex ran => exact (Net.Keeps.newPoWValidBlock fixed.2 ran).sound sound
  | updatedBlockTip env fixed pindexNew pindexFork fInitialDownload ran =>
      exact (Net.Keeps.updatedBlockTip ran).sound sound
  | blockChecked env fixed hash state => exact (Net.Keeps.blockChecked fixed.2 _ hash state).sound sound
  | mempool mempool => exact (Net.Keeps.mempool _ mempool).sound sound
  | interrupt => exact (Net.Keeps.interrupt _).sound sound

/-- The globals at start-up keep their invariant. -/
theorem PeerLogic.sound_initial (args : Args) (mempool : StdSet Hash) : (PeerLogic.initial mempool).Sound args where
  registry := .empty
  room found := by simp [PeerLogic.initial, Registry.empty, Registry.state] at found
  orphans := OrphanPool.consistent_empty
  fromPeers found := by simp [PeerLogic.initial, OrphanPool.empty] at found
  bounded := Nat.zero_le _
  rejects found := by simp [PeerLogic.initial] at found
  lookups := by simp [PeerLogic.initial]
  requests := by simp [PeerLogic.initial]
  relay := rfl

/-- The node at start-up keeps its invariant. -/
theorem Net.sound_initial (params : Params) (args : Args) (mempool : StdSet Hash) :
    (Net.initial mempool).Sound params args where
  logic := PeerLogic.sound_initial args mempool
  ids found := by simp [Net.initial] at found
  registered found := by simp [Net.initial] at found
  nodes found := by simp [Net.initial] at found

/-- **Every state the node reaches from start-up keeps its invariant.** -/
theorem NetReachable.sound {params : Params} {args : Args} {net : Net} (reachable : NetReachable params args net) :
    net.Sound params args := by
  induction reachable with
  | initial mempool => exact Net.sound_initial params args mempool
  | step _ step ih => exact (step.sound ih).1

end XuezNet
