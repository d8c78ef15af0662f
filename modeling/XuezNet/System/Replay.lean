import XuezNet.System.Trace

/-! # Two replayed traces

Replayed, the service-transaction relay announces a service transaction back to
the peer that sent it: the `STX` branch never records that the sender knows the
hash, and `RelayServiceTransaction` queues it on every connection
(`stx_echoed_to_sender`). And in a run with `-dropmessagestest`, the roll may
drop a second `VERSION` before the handshake gate, which then neither answers
nor scores it (`duplicate_version_dropped`).
-/

namespace XuezNet

/-- An environment in which every service transaction checks out. -/
def stxEnv : Env :=
  { Handling.missingInputsEnv with checkServiceTransaction := fun _ => .checked true CValidationState.fresh }

/-- Peer `1` completes the handshake and sends the service transaction `9`,
each message processed as it arrives; then `SendMessages` runs on its
connection. -/
def echoTrace : List Event :=
  [.deliver 1 ⟨true, true, true, .wellFormed (.version peerVersion), 10⟩, .process stxEnv 1,
   .deliver 1 ⟨true, true, true, .wellFormed .verack, 10⟩, .process stxEnv 1,
   .deliver 1 ⟨true, true, true, .wellFormed (.stx 9), 10⟩, .process stxEnv 1,
   .send stxEnv 1 ⟨true, 1, by decide, 0, 0, 0⟩]

/-- **A service transaction is announced back to its sender.** In a run where
peer `1`, which never announced `9`, sends the service transaction `9`, the next
`SendMessages` on its connection pushes `INV(MSG_STX, 9)` to it. -/
theorem stx_echoed_to_sender :
    ∃ net node, Net.connected.replay echoTrace = some net ∧ NetReachable Params.sample Args.sample net ∧
      net.nodes.find? 1 = some node ∧ NetMsg.inv [⟨.stx, 9⟩] ∈ node.vSendMsg := by
  have fixed : ∀ event ∈ echoTrace, event.Fixed Params.sample Args.sample := by
    simp only [echoTrace, List.mem_cons, List.mem_singleton, List.not_mem_nil, or_false]
    rintro _ (rfl | rfl | rfl | rfl | rfl | rfl | rfl) <;> trivial
  obtain ⟨net, node, ran, reachable, found, echoed⟩ := Net.reachable_connected.replay_node rfl fixed 1
    (fun _ node => decide (NetMsg.inv [⟨.stx, 9⟩] ∈ node.vSendMsg)) (by decide)
  exact ⟨net, node, ran, reachable, found, of_decide_eq_true echoed⟩

/-- The arguments of a run with `-dropmessagestest=2`. -/
def Args.dropping : Args := ⟨100, 100, true, false, false, some 2⟩

/-- An environment of such a run, whose roll `GetRand(2)` gives `roll`. -/
def rollEnv (roll : Nat) : Env :=
  { Handling.missingInputsEnv with args := Args.dropping, getRand := fun _ => roll }

/-- An outbound connection to peer `1`, opened at the start of such a run. -/
def Net.droppingConnected : Net :=
  (Net.initial ∅).connect (rollEnv 1) (CNode.connect 1 false false false false false 0 0)

/-- Peer `1` completes the handshake, then sends a second `VERSION`, on which
the roll comes up `0`. -/
def duplicateTrace : List Event :=
  [.deliver 1 ⟨true, true, true, .wellFormed (.version peerVersion), 10⟩, .process (rollEnv 1) 1,
   .deliver 1 ⟨true, true, true, .wellFormed .verack, 10⟩, .process (rollEnv 1) 1,
   .deliver 1 ⟨true, true, true, .wellFormed (.version peerVersion), 10⟩, .process (rollEnv 0) 1]

/-- **A second `VERSION` may go unanswered.** In a run with `-dropmessagestest`,
a second `VERSION` from peer `1`, sent after the handshake, is taken off the
queue and dropped by the roll: no `REJECT` is pushed to the peer and its
misbehavior score stays `0`. -/
theorem duplicate_version_dropped :
    ∃ net node, Net.droppingConnected.replay duplicateTrace = some net ∧
      NetReachable Params.sample Args.dropping net ∧ net.nodes.find? 1 = some node ∧
      node.nVersion = 70015 ∧ node.vProcessMsg = [] ∧ (∀ msg ∈ node.vSendMsg, msg.command ≠ .reject) ∧
      (net.logic.registry.state 1).map (·.nMisbehavior) = some 0 := by
  have fixed : ∀ event ∈ duplicateTrace, event.Fixed Params.sample Args.dropping := by
    simp only [duplicateTrace, List.mem_cons, List.mem_singleton, List.not_mem_nil, or_false]
    rintro _ (rfl | rfl | rfl | rfl | rfl | rfl) <;> trivial
  have connected : NetReachable Params.sample Args.dropping Net.droppingConnected :=
    .step (.initial ∅) (.connect (rollEnv 1) ⟨rfl, rfl⟩ 1 false false false false false 0 0 rfl nofun)
  obtain ⟨net, node, ran, reachable, found, dropped⟩ := connected.replay_node rfl fixed 1
    (fun net node => decide (node.nVersion = 70015 ∧ node.vProcessMsg = [] ∧
      (∀ msg ∈ node.vSendMsg, msg.command ≠ .reject) ∧
      (net.logic.registry.state 1).map (·.nMisbehavior) = some 0)) (by decide)
  exact ⟨net, node, ran, reachable, found, of_decide_eq_true dropped⟩

end XuezNet
