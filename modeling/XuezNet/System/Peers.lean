import XuezNet.System.Guarantees

/-! # The registry knows exactly the open connections

`InitializeNode` gives a new connection its `CNodeState`, and `FinalizeNode`
takes the state away when the connection closes. No other event of the node
registers or forgets a peer, or opens or closes a connection (`Net.SamePeers`):
the handlers move the globals by primitive steps, which keep the registered
peers, and change the connections in place.

So in every state the node reaches, a peer has a state in `mapNodeState` exactly
when its connection is open (`peers_registered`): the registry never keeps the
state of a peer that is gone, and `State(nodeid)` is never `NULL` for an open
connection. With the invariants of the registry and of the orphan pool, no block
in flight and no orphan is left to a closed connection (`peer_data_connected`).
-/

namespace StdMap

variable {K V : Type} [LinearOrder K] {m : StdMap K V}

theorem isSome_find?_map (f : V → V) (k : K) : ((m.map f).find? k).isSome = (m.find? k).isSome := by
  rw [find?_map, Option.isSome_map']

theorem isSome_find?_modify (k : K) (f : V → V) (k' : K) :
    ((m.modify k f).find? k').isSome = (m.find? k').isSome := by
  rw [find?_modify]
  split_ifs with same
  · rw [Option.isSome_map', same]
  · rfl

/-- Writing at a key that is present keeps the keys. -/
theorem isSome_find?_insert_of_found {k : K} {v v' : V} (found : m.find? k = some v) (k' : K) :
    ((m.insert k v').find? k').isSome = (m.find? k').isSome := by
  rw [find?_insert]
  split_ifs with same
  · rw [same, found]
    rfl
  · rfl

end StdMap

namespace XuezNet

/-- An announcement a handler queued opens and closes no connection. -/
theorem applyRelay_isSome (env : Env) (nodes : StdMap NodeId CNode) (relay : Relay) (id : NodeId) :
    ((applyRelay env nodes relay).find? id).isSome = (nodes.find? id).isSome := by
  cases relay with
  | tx hash => exact StdMap.isSome_find?_map _ id
  | stx hash => exact StdMap.isSome_find?_map _ id
  | address addr fReachable =>
      show ((List.foldl _ nodes _).find? id).isSome = _
      induction relayTargets env addr fReachable (nodes.entries.map Prod.fst) generalizing nodes with
      | nil => rfl
      | cons target rest ih => exact (ih _).trans (StdMap.isSome_find?_modify target _ id)

theorem applyRelays_isSome (env : Env) (id : NodeId) :
    ∀ (relays : List Relay) (nodes : StdMap NodeId CNode),
      ((relays.foldl (applyRelay env) nodes).find? id).isSome = (nodes.find? id).isSome
  | [], _ => rfl
  | relay :: rest, nodes => (applyRelays_isSome env id rest _).trans (applyRelay_isSome env nodes relay id)

/-- Two states of the node with the same open connections and the same
registered peers. -/
structure Net.SamePeers (net net' : Net) : Prop where
  nodes : ∀ id, (net'.nodes.find? id).isSome = (net.nodes.find? id).isSome
  registry : ∀ id, (net'.logic.registry.state id).isSome = (net.logic.registry.state id).isSome

/-- The registry has a state for exactly the open connections. -/
def Net.Tracked (net : Net) : Prop :=
  ∀ id, (net.logic.registry.state id).isSome = (net.nodes.find? id).isSome

namespace Net

variable {params : Params} {args : Args} {net net' net'' : Net}

namespace SamePeers

theorem refl (net : Net) : SamePeers net net := ⟨fun _ => rfl, fun _ => rfl⟩

theorem trans (first : SamePeers net net') (second : SamePeers net' net'') : SamePeers net net'' :=
  ⟨fun id => (second.nodes id).trans (first.nodes id), fun id => (second.registry id).trans (first.registry id)⟩

theorem tracked (same : SamePeers net net') (tracked : net.Tracked) : net'.Tracked := fun id => by
  rw [same.registry, same.nodes, tracked]

/-- The globals moved by primitive steps, the connections as they were. -/
theorem ofMoves {env : Env} (moves : LogicMoves env net.logic net'.logic) (nodes : net'.nodes = net.nodes) :
    SamePeers net net' :=
  ⟨fun id => by rw [nodes], moves.state_isSome⟩

/-- **A handled call on an open connection**, whose globals move by primitive
steps, keeps the peers. -/
theorem runOn {env : Env} {id : NodeId} {handler : Handling → Option Handling}
    (ran : net.runOn env id handler = some net')
    (moves : ∀ {node h'}, net.nodes.find? id = some node → handler ⟨net.logic, node, []⟩ = some h' →
      LogicMoves env net.logic h'.logic) : SamePeers net net' := by
  obtain ⟨node, h', found, handled, rfl⟩ := runOn_eq ran
  exact ⟨fun other => (applyRelays_isSome env other _ _).trans (StdMap.isSome_find?_insert_of_found found other),
    (moves found handled).state_isSome⟩

theorem processMessages {env : Env} {id : NodeId} {reads : Reads} (sound : net.Sound params args)
    (allowed : reads.Allowed net.fInterrupted net'.fInterrupted)
    (ran : (net.runOn env id fun h => (Handling.processMessages env reads h).map (·.1)) =
      some { net' with fInterrupted := net.fInterrupted }) : SamePeers net net' :=
  have same : SamePeers net { net' with fInterrupted := net.fInterrupted } := runOn ran fun found handled => by
    obtain ⟨⟨h', fMoreWork⟩, processed, rfl⟩ := Option.map_eq_some'.mp handled
    have registered := sound.registered found
    rw [← sound.ids found] at registered
    exact (Handling.processMessages_handled allowed registered (sound.nodes found).queued processed).logic
  ⟨same.nodes, same.registry⟩

theorem sendMessages {env : Env} {id : NodeId} {tick : Tick} (sound : net.Sound params args)
    (fixed : env.args = args) (ran : net.runOn env id (Handling.sendMessages env tick) = some net') :
    SamePeers net net' :=
  runOn ran fun found sent =>
    (Handling.sendMessages_fetches fixed sound.logic (sound.nodes found).askFor sent).runs.logic.mono
      fun _ _ step => step.1

theorem receive {id : NodeId} {node : CNode} (found : net.nodes.find? id = some node) (msg : CNetMessage) :
    SamePeers net { net with nodes := net.nodes.insert id { node with vProcessMsg := node.vProcessMsg ++ [msg] } } :=
  ⟨StdMap.isSome_find?_insert_of_found found, fun _ => rfl⟩

theorem fastAnnounce {env : Env} {pindex : Hash} {nodeid : NodeId}
    (ran : Net.fastAnnounce env pindex (some net) nodeid = some net') : SamePeers net net' := by
  obtain ⟨moves, -, same | ⟨node, node', found, -, inserted⟩⟩ := Net.fastAnnounce_moves ran
  · exact ofMoves moves same
  · exact ⟨fun id => by rw [inserted, StdMap.isSome_find?_insert_of_found found], moves.state_isSome⟩

theorem newPoWValidBlock {env : Env} {pindex : Hash} (ran : net.newPoWValidBlock env pindex = some net') :
    SamePeers net net' := by
  unfold Net.newPoWValidBlock at ran
  dsimp only at ran
  split_ifs at ran
  · cases ran
    exact refl net
  · have raised : SamePeers net
        { net with logic := { net.logic with nHighestFastAnnounce := env.chain.nHeight pindex } } :=
      ⟨fun _ => rfl, fun _ => rfl⟩
    exact raised.trans (foldl_fastAnnounce_rel SamePeers SamePeers.refl SamePeers.trans SamePeers.fastAnnounce _ ran)

theorem updatedBlockTip {env : Env} {pindexNew : Hash} {pindexFork : Option Hash} {fInitialDownload : Bool}
    (ran : net.updatedBlockTip env pindexNew pindexFork fInitialDownload = some net') : SamePeers net net' := by
  obtain ⟨f, -, logic, nodes, -⟩ := updatedBlockTip_map ran
  exact ⟨fun id => by rw [nodes, StdMap.isSome_find?_map], fun id => by rw [logic]⟩

end SamePeers

/-- A new connection is registered under its id. -/
theorem Tracked.connect {env : Env} {id : NodeId} {fInbound fWhitelisted fOneShot fFeeler fAddnode : Bool}
    {nServicesExpected nLocalServices : Nat} (tracked : net.Tracked) (fresh : net.nodes.find? id = none) :
    (net.connect env (CNode.connect id fInbound fWhitelisted fOneShot fFeeler fAddnode nServicesExpected
      nLocalServices)).Tracked := fun other => by
  have unregistered : net.logic.registry.mapNodeState.contains id = false :=
    (tracked id).trans (by rw [fresh]; rfl)
  rw [connect_eq]
  show ((net.logic.registry.initializeNode id).state other).isSome = ((net.nodes.insert id _).find? other).isSome
  rw [Registry.initializeNode_state, StdMap.find?_insert]
  by_cases same : other = id
  · simp [same, unregistered]
  · simp only [same, false_and, if_false]
    exact tracked other

/-- A closed connection is forgotten. -/
theorem Tracked.disconnect {logic : PeerLogic} {fUpdateConnectionTime : Bool} {id : NodeId} (tracked : net.Tracked)
    (finalized : net.logic.finalizeNode id = some (logic, fUpdateConnectionTime)) :
    ({ net with logic, nodes := net.nodes.erase id } : Net).Tracked := fun other => by
  obtain ⟨⟨registry, fUpdate⟩, forgotten, finalized⟩ := Option.bind_eq_some.mp finalized
  cases finalized
  obtain ⟨nodeState, -, rfl, -⟩ := Registry.finalizeNode_eq forgotten
  show ((net.logic.registry.forgetNode id nodeState).state other).isSome = ((net.nodes.erase id).find? other).isSome
  rw [Registry.forgetNode_state, StdMap.find?_erase]
  split_ifs
  · rfl
  · exact tracked other

end Net

/-- Every event keeps the registry in step with the open connections. -/
theorem NetStep.tracked {params : Params} {args : Args} {net net' : Net} (reachable : NetReachable params args net)
    (step : NetStep params args net net') (tracked : net.Tracked) : net'.Tracked := by
  have sound := reachable.sound
  cases step with
  | connect env fixed id fInbound fWhitelisted fOneShot fFeeler fAddnode nServicesExpected nLocalServices fresh =>
      exact tracked.connect fresh
  | disconnect id connected finalized => exact tracked.disconnect finalized
  | receive id msg node found => exact (Net.SamePeers.receive found msg).tracked tracked
  | processMessages env fixed id reads fMoreWork allowed ran =>
      exact (Net.SamePeers.processMessages sound allowed ran).tracked tracked
  | sendMessages env fixed id tick ran => exact (Net.SamePeers.sendMessages sound fixed.2 ran).tracked tracked
  | newPoWValidBlock env fixed pindex ran => exact (Net.SamePeers.newPoWValidBlock ran).tracked tracked
  | updatedBlockTip env fixed pindexNew pindexFork fInitialDownload ran =>
      exact (Net.SamePeers.updatedBlockTip ran).tracked tracked
  | blockChecked env fixed hash state =>
      obtain ⟨logic', moves, checked⟩ := net.logic.blockChecked_moves env hash state
      intro id
      show ((net.logic.blockChecked env hash state).registry.state id).isSome = _
      rw [checked]
      exact (moves.state_isSome id).trans (tracked id)
  | blockConnected | mempool | interrupt => exact tracked

/-- Every state the node reaches keeps the registry in step with the open
connections. -/
theorem NetReachable.tracked {params : Params} {args : Args} {net : Net} (reachable : NetReachable params args net) :
    net.Tracked := by
  induction reachable with
  | initial mempool => exact fun _ => rfl
  | step reachable step ih => exact step.tracked reachable ih

/-- **The registry knows exactly the open connections**: in every state the node
reaches, a peer has a `CNodeState` exactly when its connection is open. -/
theorem peers_registered {params : Params} {args : Args} {net : Net} (reachable : NetReachable params args net)
    (id : NodeId) : (net.logic.registry.state id).isSome = (net.nodes.find? id).isSome :=
  reachable.tracked id

theorem peers_registered_disconnected :
    (downloadNet.logic.registry.state 2).isSome = true ∧ (disconnectedNet.nodes.find? 2).isSome = false ∧
      (disconnectedNet.logic.registry.state 2).isSome = (disconnectedNet.nodes.find? 2).isSome ∧
      (disconnectedNet.logic.registry.state 1).isSome = (disconnectedNet.nodes.find? 1).isSome :=
  ⟨by decide, by decide, peers_registered reachable_disconnectedNet 2, peers_registered reachable_disconnectedNet 1⟩

/-- **Nothing the node keeps for a peer outlives its connection**: in every state
the node reaches, each block in flight is requested from an open connection, and
each orphan came from one. -/
theorem peer_data_connected {params : Params} {args : Args} {net : Net} (reachable : NetReachable params args net) :
    (∀ {hash nodeid node}, net.logic.registry.mapBlocksInFlight.find? hash = some (nodeid, node) →
      (net.nodes.find? nodeid).isSome) ∧
    (∀ {hash orphan}, net.logic.orphans.mapOrphanTransactions.find? hash = some orphan →
      (net.nodes.find? orphan.fromPeer).isSome) := by
  have sound := reachable.sound.logic
  refine ⟨fun inFlight => ?_, fun found => ?_⟩
  · obtain ⟨nodeState, registered, -⟩ := sound.registry.consistent.targets inFlight
    rw [← reachable.tracked, registered]
    rfl
  · rw [← reachable.tracked]
    exact sound.fromPeers found

theorem peer_data_connected_disconnected :
    (disconnectedNet.logic.registry.mapBlocksInFlight.find? 3).map Prod.fst = some 1 ∧
    (disconnectedNet.logic.orphans.mapOrphanTransactions.find? 21).map (·.fromPeer) = some 1 ∧
    (∀ {hash nodeid node}, disconnectedNet.logic.registry.mapBlocksInFlight.find? hash = some (nodeid, node) →
      (disconnectedNet.nodes.find? nodeid).isSome) ∧
    (∀ {hash orphan}, disconnectedNet.logic.orphans.mapOrphanTransactions.find? hash = some orphan →
      (disconnectedNet.nodes.find? orphan.fromPeer).isSome) :=
  ⟨by decide, by decide, peer_data_connected reachable_disconnectedNet⟩

end XuezNet
