import XuezNet.Dispatch.SendMessages

/-! # The node: connections, threads and validation callbacks

`Net` is the peer logic with every open connection and the interrupt flag of
the message thread. `NetStep` is one event of the node:

* a connection opens (`InitializeNode`) or closes (`FinalizeNode`, which also
  forgets the peer's block sources and orphans);
* the transport delivers a message to a connection's receive queue;
* the message thread runs `ProcessMessages` or `SendMessages` on a connection,
  after which the announcements the handler queued reach the connections
  (`applyRelay`);
* validation calls back: `BlockConnected`, `NewPoWValidBlock`,
  `UpdatedBlockTip`, `BlockChecked`; or changes the mempool;
* the interrupt is raised; it is never cleared, and every read of it by the
  message thread after a call that saw it raised sees it raised.

Each handler step runs in an environment of its own, so the chain and the
clocks move freely between steps; the constants and the command-line arguments
are those of the process and stay fixed along a run (`NetReachable params
args`). A step exists only when the code returns, so a run never passes through
a `NULL` dereference or a failed `assert`.
-/

namespace XuezNet

/-- The node: the globals, the open connections by id, and whether
`interruptMsgProc` has been raised. -/
structure Net where
  logic : PeerLogic
  nodes : StdMap NodeId CNode
  fInterrupted : Bool

/-- The node at start-up. -/
def Net.initial (mempool : StdSet Hash) : Net := ⟨PeerLogic.initial mempool, ∅, false⟩

/-- The ranking of `RelayAddress`: insert a connection with its key into the
slots, best first, when it beats a slot, shifting the rest down. -/
def rankInsert (entry : Nat × NodeId) : List (Nat × Option NodeId) → List (Nat × Option NodeId)
  | [] => []
  | best :: rest =>
      if best.1 < entry.1 then (entry.1, some entry.2) :: (best :: rest).dropLast
      else best :: rankInsert entry rest

/-- The connections `RelayAddress` pushes an address to: the best one or two by
key, as long as the key is not zero. -/
def relayTargets (env : Env) (addr : CAddress) (fReachable : Bool) (ids : List NodeId) : List NodeId :=
  let nRelayNodes := if fReachable then 2 else 1
  let best := ids.foldl (fun best id => rankInsert (env.relayKey addr id, id) best)
    (List.replicate nRelayNodes (0, none))
  (best.takeWhile (·.1 ≠ 0)).filterMap (·.2)

/-- One announcement a handler queued, applied to the connections:
`RelayTransaction` and `RelayServiceTransaction` push an inventory to every
connection, `RelayAddress` pushes the address to its targets. -/
def applyRelay (env : Env) (nodes : StdMap NodeId CNode) : Relay → StdMap NodeId CNode
  | .tx hash => nodes.map (·.pushInventory ⟨.tx, hash⟩)
  | .stx hash => nodes.map (·.pushInventory ⟨.stx, hash⟩)
  | .address addr fReachable =>
      (relayTargets env addr fReachable (nodes.entries.map Prod.fst)).foldl
        (fun nodes id => nodes.modify id (·.pushAddress addr)) nodes

namespace Net

variable (env : Env) (net : Net)

/-- Run a handler on connection `id`, then apply the announcements it queued. -/
def runOn (id : NodeId) (handler : Handling → Option Handling) : Option Net := do
  let node ← net.nodes.find? id
  let h ← handler ⟨net.logic, node, []⟩
  some { net with
    logic := h.logic
    nodes := h.relays.foldl (applyRelay env) (net.nodes.insert id h.node) }

/-- `InitializeNode` on a new connection. -/
def connect (node : CNode) : Net :=
  let (logic, node) := Handling.initializeNode env net.logic node
  { net with logic, nodes := net.nodes.insert node.id node }

end Net

namespace PeerLogic

variable (logic : PeerLogic)

/-- **`FinalizeNode(nodeid)`**: the registry half, then the peer's block
sources and orphans; the flag is `fUpdateConnectionTime`. -/
def finalizeNode (nodeid : NodeId) : Option (PeerLogic × Bool) := do
  let (registry, fUpdateConnectionTime) ← logic.registry.finalizeNode nodeid
  some ({ logic with
    registry
    mapBlockSource := logic.mapBlockSource.filter fun _ source => source.1 ≠ nodeid
    orphans := logic.orphans.eraseOrphansFor nodeid }, fUpdateConnectionTime)

/-- **`BlockConnected(block)`**: evict the orphans the block's inputs make
obsolete. -/
def blockConnected (block : CBlock) : PeerLogic :=
  { logic with orphans := logic.orphans.blockConnected block }

/-- **`BlockChecked(block, state)`**: for an invalid block with an external
reject code, queue a reject for the peer it came from and score it when asked
to; then forget the block's source. -/
def blockChecked (env : Env) (hash : Hash) (state : CValidationState) : PeerLogic :=
  let source := logic.mapBlockSource.find? hash
  let logic := match source with
    | some (nodeid, fPunish) =>
        match logic.registry.state nodeid with
        | some nodeState =>
            if state.IsInvalid ∧ 0 < state.chRejectCode ∧ state.chRejectCode < env.params.REJECT_INTERNAL then
              let reject : CBlockReject := ⟨state.chRejectCode % 256,
                state.strRejectReason.take env.params.MAX_REJECT_MESSAGE_LENGTH, hash⟩
              let nodeState := { nodeState with rejects := nodeState.rejects ++ [reject] }
              let logic := { logic with registry := logic.registry.setState nodeid nodeState }
              if 0 < state.nDoS ∧ fPunish then logic.misbehaving env nodeid state.nDoS else logic
            else logic
        | none => logic
    | none => logic
  { logic with mapBlockSource := logic.mapBlockSource.erase hash }

end PeerLogic

namespace Net

variable (env : Env)

/-- The header announcement of `NewPoWValidBlock` to one connection: refresh
what the peer has, and send it the block's header when it has the parent but
not the block. -/
def fastAnnounce (pindex : Hash) (step : Option Net) (id : NodeId) : Option Net := do
  let net ← step
  let node ← net.nodes.find? id
  if node.fDisconnect then return net
  let registry ← net.logic.registry.processBlockAvailability env.chain id
  let state ← registry.state id
  let net := { net with logic := { net.logic with registry } }
  if state.peerHasHeader env.chain pindex then return net
  let parent ← env.chain.pprev pindex
  if !state.peerHasHeader env.chain parent then return net
  let state := { state with pindexBestHeaderSent := some pindex }
  some { net with
    logic := { net.logic with registry := registry.setState id state }
    nodes := net.nodes.insert id (node.pushMessage (.headers [env.chain.header pindex])) }

/-- **`NewPoWValidBlock(pindex, pblock)`**: announce a new highest block by its
header to every connection that can connect it. -/
def newPoWValidBlock (net : Net) (pindex : Hash) : Option Net :=
  let nHeight := env.chain.nHeight pindex
  if nHeight ≤ net.logic.nHighestFastAnnounce then some net
  else
    let net := { net with logic := { net.logic with nHighestFastAnnounce := nHeight } }
    (net.nodes.entries.map Prod.fst).foldl (fastAnnounce env pindex) (some net)

/-- The walk of `UpdatedBlockTip` from the new tip back to the fork point,
collecting at most `MAX_BLOCKS_TO_ANNOUNCE` hashes; `none` where it would
dereference `NULL`. -/
def hashesToAnnounce (pindexFork : Option Hash) : Nat → Option Hash → List Hash → Option (List Hash)
  | 0, _, vHashes => some vHashes
  | _ + 1, none, vHashes => if pindexFork = none then some vHashes else none
  | fuel + 1, some pindex, vHashes =>
      if some pindex = pindexFork then some vHashes
      else
        let vHashes := vHashes ++ [pindex]
        if vHashes.length = env.params.MAX_BLOCKS_TO_ANNOUNCE then some vHashes
        else hashesToAnnounce pindexFork fuel (env.chain.pprev pindex) vHashes

/-- **`UpdatedBlockTip(pindexNew, pindexFork, fInitialDownload)`**: out of
initial download, queue the new blocks, oldest first, for announcement to every
connection whose starting height is not far ahead. -/
def updatedBlockTip (net : Net) (pindexNew : Hash) (pindexFork : Option Hash)
    (fInitialDownload : Bool) : Option Net := do
  if fInitialDownload then return net
  let vHashes ← hashesToAnnounce env pindexFork env.params.MAX_BLOCKS_TO_ANNOUNCE (some pindexNew) []
  let nNewHeight : Int := env.chain.nHeight pindexNew
  some { net with nodes := net.nodes.map fun node =>
    if (if node.nStartingHeight ≠ -1 then node.nStartingHeight - 2000 else 0) < nNewHeight then
      vHashes.reverse.foldl CNode.pushBlockHash node
    else node }

end Net

/-- Whether one call of the message thread read `interruptMsgProc` in a way a
run allows: all reads raised once the flag was raised before the call, all
clear if it stays clear after the call. -/
def Reads.Allowed (reads : Reads) (raised raised' : Bool) : Prop :=
  (raised = true → raised' = true ∧ (∀ n, reads.interruptedQueued n = true) ∧
    (∀ n, reads.interruptedHandler n = true) ∧ reads.interruptedAfter = true) ∧
  (raised' = false → (∀ n, reads.interruptedQueued n = false) ∧
    (∀ n, reads.interruptedHandler n = false) ∧ reads.interruptedAfter = false)

/-- **One event of the node**, in an environment with the process's constants
and arguments. -/
inductive NetStep (params : Params) (args : Args) : Net → Net → Prop
  | connect {net : Net} (env : Env) (fixed : env.params = params ∧ env.args = args)
      (id : NodeId) (fInbound fWhitelisted fOneShot fFeeler fAddnode : Bool)
      (nServicesExpected nLocalServices : Nat)
      (fresh : net.nodes.find? id = none) (feeler : fFeeler = true → fInbound = false) :
      NetStep params args net (net.connect env (CNode.connect id fInbound fWhitelisted fOneShot
        fFeeler fAddnode nServicesExpected nLocalServices))
  | receive {net : Net} (id : NodeId) (msg : CNetMessage) (node : CNode)
      (found : net.nodes.find? id = some node) :
      NetStep params args net
        { net with nodes := net.nodes.insert id { node with vProcessMsg := node.vProcessMsg ++ [msg] } }
  | processMessages {net net' : Net} (env : Env) (fixed : env.params = params ∧ env.args = args)
      (id : NodeId) (reads : Reads) (fMoreWork : Bool)
      (allowed : reads.Allowed net.fInterrupted net'.fInterrupted)
      (ran : (net.runOn env id fun h => (Handling.processMessages env reads h).map (·.1)) =
        some { net' with fInterrupted := net.fInterrupted }) :
      NetStep params args net net'
  | sendMessages {net net' : Net} (env : Env) (fixed : env.params = params ∧ env.args = args)
      (id : NodeId) (tick : Tick) (ran : net.runOn env id (Handling.sendMessages env tick) = some net') :
      NetStep params args net net'
  | disconnect {net : Net} {logic : PeerLogic} {fUpdateConnectionTime : Bool} (id : NodeId)
      (connected : (net.nodes.find? id).isSome)
      (finalized : net.logic.finalizeNode id = some (logic, fUpdateConnectionTime)) :
      NetStep params args net { net with logic, nodes := net.nodes.erase id }
  | blockConnected (net : Net) (block : CBlock) :
      NetStep params args net { net with logic := net.logic.blockConnected block }
  | newPoWValidBlock {net net' : Net} (env : Env) (fixed : env.params = params ∧ env.args = args)
      (pindex : Hash) (ran : net.newPoWValidBlock env pindex = some net') :
      NetStep params args net net'
  | updatedBlockTip {net net' : Net} (env : Env) (fixed : env.params = params ∧ env.args = args)
      (pindexNew : Hash) (pindexFork : Option Hash) (fInitialDownload : Bool)
      (ran : net.updatedBlockTip env pindexNew pindexFork fInitialDownload = some net') :
      NetStep params args net net'
  | blockChecked (net : Net) (env : Env) (fixed : env.params = params ∧ env.args = args)
      (hash : Hash) (state : CValidationState) :
      NetStep params args net { net with logic := net.logic.blockChecked env hash state }
  | mempool (net : Net) (mempool : StdSet Hash) :
      NetStep params args net { net with logic := { net.logic with mempool } }
  | interrupt (net : Net) : NetStep params args net { net with fInterrupted := true }

/-- The states of the node reached from start-up by any sequence of events. -/
inductive NetReachable (params : Params) (args : Args) : Net → Prop
  | initial (mempool : StdSet Hash) : NetReachable params args (Net.initial mempool)
  | step {net net' : Net} (reachable : NetReachable params args net)
      (step : NetStep params args net net') : NetReachable params args net'

end XuezNet
