import XuezNet.System.Run

/-! # Runs of the node, replayed

A trace of the message layer lists the messages that arrive, the calls of the
message thread with the interrupt clear, and the calls of `SendMessages`, each
on one connection (`Event`). Replaying it runs the node's own handlers
(`Net.replay`), and every replay from a reachable state with the interrupt clear
is a run of the node (`NetReachable.replay`): what holds of the state a replay
ends in holds of a reachable state.

The run below, from two outbound connections, is the one the guarantees of
`System.Guarantees` and `System.Peers` are shown on. Both peers complete the
handshake; peer `1` announces the header chain `2, 3` and `SendMessages` asks it
for both blocks (`tickedNet`); peer `1` then delivers block `2`, an orphan `21`
twice and the transaction `20`, which `SendMessages` announces to peer `2`
(`announcedNet`); peer `2` asks for `20` and peer `1` for block `1` and the
unknown `7` (`downloadNet`); last, peer `2` disconnects (`disconnectedNet`).
-/

namespace XuezNet

/-- A sample of the process's arguments, for the runs below. -/
def Args.sample : Args := ⟨100, 100, true, false, false, none⟩

/-- An outbound connection to peer `1`, opened at start-up. -/
def Net.connected : Net :=
  (Net.initial ∅).connect Handling.missingInputsEnv (CNode.connect 1 false false false false false 0 0)

theorem Net.reachable_connected : NetReachable Params.sample Args.sample Net.connected :=
  .step (.initial ∅) (.connect Handling.missingInputsEnv ⟨rfl, rfl⟩ 1 false false false false false 0 0 rfl nofun)

/-- The connection to peer `1`, with our `VERSION` queued. -/
def connectedNode : CNode :=
  Handling.pushNodeVersion Handling.missingInputsEnv (CNode.connect 1 false false false false false 0 0) Handling.missingInputsEnv.nTime

theorem Net.find?_connected : Net.connected.nodes.find? 1 = some connectedNode := rfl

/-- An event of a trace: a message from peer `id` arrives, the message thread
runs on connection `id`, or `SendMessages` runs on it. -/
inductive Event
  | deliver (id : NodeId) (msg : CNetMessage)
  | process (env : Env) (id : NodeId)
  | send (env : Env) (id : NodeId) (tick : Tick)

namespace Event

/-- The handlers' run of one event; `none` where the connection is unknown or a
handler fails. -/
def apply : Event → Net → Option Net
  | .deliver id msg, net => (net.nodes.find? id).map fun node =>
      { net with nodes := net.nodes.insert id { node with vProcessMsg := node.vProcessMsg ++ [msg] } }
  | .process env id, net => net.runOn env id fun h => (Handling.processMessages env Reads.quiet h).map (·.1)
  | .send env id tick, net => net.runOn env id (Handling.sendMessages env tick)

/-- The event runs in an environment with the process's constants and arguments. -/
def Fixed (params : Params) (args : Args) : Event → Prop
  | .deliver _ _ => True
  | .process env _ | .send env _ _ => env.params = params ∧ env.args = args

end Event

/-- Replay a trace from a state. -/
def Net.replay : Net → List Event → Option Net
  | net, [] => some net
  | net, event :: rest => (event.apply net).bind (Net.replay · rest)

variable {params : Params} {args : Args} {net net' : Net}

theorem Net.runOn_fInterrupted {env : Env} {id : NodeId} {handler : Handling → Option Handling}
    (ran : net.runOn env id handler = some net') : net'.fInterrupted = net.fInterrupted := by
  obtain ⟨-, -, -, -, rfl⟩ := Net.runOn_eq ran
  rfl

theorem Event.apply_fInterrupted {event : Event} (ran : event.apply net = some net') :
    net'.fInterrupted = net.fInterrupted := by
  cases event with
  | deliver id msg =>
      obtain ⟨node, -, rfl⟩ := Option.map_eq_some'.mp ran
      rfl
  | process env id | send env id tick =>
      dsimp only [apply] at ran
      exact Net.runOn_fInterrupted ran

theorem Net.replay_fInterrupted : ∀ {events : List Event} {net : Net}, net.replay events = some net' →
    net'.fInterrupted = net.fInterrupted
  | [], _, ran => by rw [Option.some.inj ran]
  | _ :: _, _, ran => by
      obtain ⟨mid, stepped, ran⟩ := Option.bind_eq_some.mp ran
      rw [Net.replay_fInterrupted ran, Event.apply_fInterrupted stepped]

/-- **A replayed event is a step of the node**, and it leaves the interrupt clear. -/
theorem Event.step {event : Event} (fixed : event.Fixed params args) (clear : net.fInterrupted = false)
    (ran : event.apply net = some net') : NetStep params args net net' ∧ net'.fInterrupted = false := by
  cases event with
  | deliver id msg =>
      obtain ⟨node, found, rfl⟩ := Option.map_eq_some'.mp ran
      exact ⟨.receive id msg node found, clear⟩
  | process env id =>
      dsimp only [apply] at ran
      have kept := Net.runOn_fInterrupted ran
      refine ⟨.processMessages env fixed id Reads.quiet false ?_ ?_, kept.trans clear⟩
      · simp [Reads.Allowed, Reads.quiet, clear, kept]
      · rw [← kept]
        exact ran
  | send env id tick =>
      dsimp only [apply] at ran
      exact ⟨.sendMessages env fixed id tick ran, (Net.runOn_fInterrupted ran).trans clear⟩

/-- **Every replay from a reachable state with the interrupt clear is a run.** -/
theorem NetReachable.replay : ∀ {events : List Event} {net : Net}, NetReachable params args net →
    net.fInterrupted = false → (∀ event ∈ events, event.Fixed params args) →
      net.replay events = some net' → NetReachable params args net'
  | [], _, reachable, _, _, ran => by
      obtain rfl := Option.some.inj ran
      exact reachable
  | event :: _, _, reachable, clear, fixed, ran => by
      obtain ⟨mid, stepped, ran⟩ := Option.bind_eq_some.mp ran
      obtain ⟨step, clear'⟩ := Event.step (fixed event (List.mem_cons_self _ _)) clear stepped
      exact (reachable.step step).replay clear' (fun event member => fixed event (List.mem_cons_of_mem _ member)) ran

/-- **What a replay shows of a connection**: a property of a connection, decided
of the state a replay ends in, holds of a connection of a reachable state. -/
theorem NetReachable.replay_node {start : Net} {events : List Event} (reachable : NetReachable params args start)
    (clear : start.fInterrupted = false) (fixed : ∀ event ∈ events, event.Fixed params args)
    (id : NodeId) (p : Net → CNode → Bool)
    (holds : ((start.replay events).bind fun net => (net.nodes.find? id).map (p net)) = some true) :
    ∃ net node, start.replay events = some net ∧ NetReachable params args net ∧
      net.nodes.find? id = some node ∧ p net node = true := by
  cases ran : start.replay events with
  | none => simp [ran] at holds
  | some net =>
      cases found : net.nodes.find? id with
      | none => simp [ran, found] at holds
      | some node =>
          exact ⟨net, node, rfl, reachable.replay clear fixed ran, found, by simpa [ran, found] using holds⟩

/-- The `VERSION` peer `1` answers with. -/
def peerVersion : VersionPayload := ⟨70015, 1, 10, ⟨0, 0, 0⟩, some 3, some "", some 0, some true⟩

/-! ## The download run -/

/-- A second outbound connection, to peer `2`. -/
def Net.twoConnected : Net :=
  Net.connected.connect Handling.missingInputsEnv (CNode.connect 2 false false false false false 0 0)

theorem Net.reachable_twoConnected : NetReachable Params.sample Args.sample Net.twoConnected :=
  .step Net.reachable_connected
    (.connect Handling.missingInputsEnv ⟨rfl, rfl⟩ 2 false false false false false 0 0 rfl nofun)

/-- The environment of the run: the chain of `ChainView.stalled`, whose blocks
`2` and `3` are known by their headers only; a validator that accepts a
transaction whose parents are the confirmed `5` or in the mempool; and a disk
from which every block reads back, without transactions. -/
def downloadEnv : Env :=
  { Handling.acceptingEnv with
    chain := ChainView.stalled
    acceptBlockHeader_indexed := nofun
    readBlockFromDisk := fun hash => some ⟨⟨hash, 0⟩, []⟩ }

/-- A well-formed message, arrived in full. -/
def CNetMessage.arrived (msg : NetMsg) : CNetMessage := ⟨true, true, true, .wellFormed msg, 10⟩

/-- The tick of `SendMessages` in the run: it holds `cs_main` and every timer is due. -/
def Tick.due : Tick := ⟨true, 1, by decide, 0, 0, 0⟩

/-- Both peers complete the handshake, and peer `1` announces block `3`. -/
def handshakeEvents : List Event :=
  [.deliver 1 (.arrived (.version peerVersion)), .process downloadEnv 1,
   .deliver 1 (.arrived .verack), .process downloadEnv 1,
   .deliver 2 (.arrived (.version peerVersion)), .process downloadEnv 2,
   .deliver 2 (.arrived .verack), .process downloadEnv 2,
   .deliver 1 (.arrived (.inv [⟨.block, 3⟩])), .process downloadEnv 1]

/-- Peer `1` delivers block `2`, the orphan `21` (whose parent `6` is unknown)
twice, and the transaction `20`; then `SendMessages` runs on peer `2`. -/
def relayEvents : List Event :=
  [.deliver 1 (.arrived (.block ⟨⟨2, 1⟩, []⟩)), .process downloadEnv 1,
   .deliver 1 (.arrived (.tx ⟨21, [⟨6, 0⟩], 1, 100⟩)), .process downloadEnv 1,
   .deliver 1 (.arrived (.tx ⟨21, [⟨6, 0⟩], 1, 100⟩)), .process downloadEnv 1,
   .deliver 1 (.arrived (.tx ⟨20, [⟨5, 0⟩], 1, 100⟩)), .process downloadEnv 1,
   .send downloadEnv 2 Tick.due]

/-- Peer `2` asks for the transaction `20`, and peer `1` for block `1` and the
unknown transaction `7`. -/
def requestEvents : List Event :=
  [.deliver 2 (.arrived (.getdata [⟨.tx, 20⟩])), .process downloadEnv 2,
   .deliver 1 (.arrived (.getdata [⟨.block, 1⟩, ⟨.tx, 7⟩])), .process downloadEnv 1]

/-- After the handshakes and the announcement, before the first `SendMessages`. -/
def tickingNet : Net := (Net.twoConnected.replay handshakeEvents).get (by decide)

/-- After the first `SendMessages` on peer `1`. -/
def tickedNet : Net := ((Event.send downloadEnv 1 Tick.due).apply tickingNet).get (by decide)

/-- After the deliveries of peer `1` and the announcement to peer `2`. -/
def announcedNet : Net := (tickedNet.replay relayEvents).get (by decide)

/-- After the two `GETDATA`s. -/
def downloadNet : Net := (announcedNet.replay requestEvents).get (by decide)

theorem downloadNet_finalizes : (downloadNet.logic.finalizeNode 2).isSome := by decide

/-- After peer `2` disconnects. -/
def disconnectedNet : Net :=
  { downloadNet with
    logic := ((downloadNet.logic.finalizeNode 2).get downloadNet_finalizes).1
    nodes := downloadNet.nodes.erase 2 }

theorem downloadEnv_fixed : downloadEnv.params = Params.sample ∧ downloadEnv.args = Args.sample := ⟨rfl, rfl⟩

theorem reachable_tickingNet : NetReachable Params.sample Args.sample tickingNet :=
  Net.reachable_twoConnected.replay rfl
    (by simp [handshakeEvents, Event.Fixed, downloadEnv_fixed])
    (Option.some_get _).symm

theorem tickingNet_clear : tickingNet.fInterrupted = false :=
  Net.replay_fInterrupted (Option.some_get _).symm

theorem tickedNet_clear : tickedNet.fInterrupted = false :=
  (Event.apply_fInterrupted (Option.some_get _).symm).trans tickingNet_clear

theorem announcedNet_clear : announcedNet.fInterrupted = false :=
  (Net.replay_fInterrupted (Option.some_get _).symm).trans tickedNet_clear

/-- The first `SendMessages` on peer `1` is a step of the node. -/
theorem tickingNet_step : NetStep Params.sample Args.sample tickingNet tickedNet :=
  (Event.step (show Event.Fixed Params.sample Args.sample (.send downloadEnv 1 Tick.due) from downloadEnv_fixed) tickingNet_clear (Option.some_get _).symm).1

theorem reachable_tickedNet : NetReachable Params.sample Args.sample tickedNet :=
  reachable_tickingNet.step tickingNet_step

theorem reachable_announcedNet : NetReachable Params.sample Args.sample announcedNet :=
  reachable_tickedNet.replay tickedNet_clear
    (by simp [relayEvents, Event.Fixed, downloadEnv_fixed])
    (Option.some_get _).symm

theorem reachable_downloadNet : NetReachable Params.sample Args.sample downloadNet :=
  reachable_announcedNet.replay announcedNet_clear
    (by simp [requestEvents, Event.Fixed, downloadEnv_fixed])
    (Option.some_get _).symm

theorem reachable_disconnectedNet : NetReachable Params.sample Args.sample disconnectedNet :=
  reachable_downloadNet.step (.disconnect 2 (by decide) (Option.some_get downloadNet_finalizes).symm)

end XuezNet
