import XuezNet.System.Steps

/-! # The invariant of a connection

`CNode.Sound params fInterrupted` is what holds of every open connection in a
reachable state, with `fInterrupted` whether `interruptMsgProc` was raised:

* every message pushed to the peer is within the limits its own handlers
  enforce, and the `GETDATA` queue holds at most one message's worth of items;
* the items `ProcessGetData` handled are a prefix of those requested, in
  request order, and the queue is what follows some of them: all of them until
  the interrupt, after which the items the interrupted call handled stay queued;
* the ask-for queue holds no block;
* the version is `0` or a supported one, and a connection marked successfully
  connected has a version.

A handler that keeps its connection's frame keeps it (`NodeFrame.sound`).
-/

namespace XuezNet

/-- **The invariant of a connection.** -/
structure CNode.Sound (params : Params) (fInterrupted : Bool) (node : CNode) : Prop where
  sent : ∀ msg ∈ node.vSendMsg, msg.withinLimits
  queued : node.vRecvGetData.length ≤ MAX_INV_SZ
  served : node.getDataServed <+: node.getDataRequested
  pending : ∃ e ≤ node.getDataServed.length, node.vRecvGetData = node.getDataRequested.drop e ∧
    (e = node.getDataServed.length ∨ fInterrupted = true)
  askFor : ∀ entry ∈ node.mapAskFor, entry.2.type ≠ .block
  version : node.nVersion = 0 ∨ params.MIN_PROTO_VERSION ≤ node.nVersion
  connected : node.fSuccessfullyConnected = true → node.nVersion ≠ 0

namespace CNode

variable {params : Params} {fInterrupted fInterrupted' : Bool} {node node' : CNode}

/-- A new connection, before any message. -/
theorem sound_connect (params : Params) (fInterrupted : Bool) (id : NodeId)
    (fInbound fWhitelisted fOneShot fFeeler fAddnode : Bool) (nServicesExpected nLocalServices : Nat) :
    (connect id fInbound fWhitelisted fOneShot fFeeler fAddnode nServicesExpected nLocalServices).Sound
      params fInterrupted where
  sent := by simp [connect]
  queued := by simp [connect]
  served := List.nil_prefix
  pending := ⟨0, le_rfl, rfl, .inl rfl⟩
  askFor := by simp [connect]
  version := .inl rfl
  connected := by simp [connect]

namespace Sound

/-- The invariant survives raising the interrupt. -/
theorem raise (sound : node.Sound params fInterrupted) (raised : fInterrupted = true → fInterrupted' = true) :
    node.Sound params fInterrupted' :=
  { sound with
    pending := by
      obtain ⟨e, below, queue, caught⟩ := sound.pending
      exact ⟨e, below, queue, caught.imp_right raised⟩ }

/-- Before the interrupt, the queue is exactly the items not yet handled. -/
theorem queue_eq (sound : node.Sound params false) :
    node.vRecvGetData = node.getDataRequested.drop node.getDataServed.length := by
  obtain ⟨e, -, queue, caught⟩ := sound.pending
  rcases caught with rfl | caught
  · exact queue
  · cases caught

/-- An empty queue means every item requested was handled. -/
theorem served_eq_of_empty (sound : node.Sound params fInterrupted) (empty : node.vRecvGetData = []) :
    node.getDataServed = node.getDataRequested := by
  obtain ⟨e, below, queue, -⟩ := sound.pending
  have covered : node.getDataRequested.length ≤ e := List.drop_eq_nil_iff.mp (queue ▸ empty)
  exact sound.served.eq_of_length (le_antisymm sound.served.length_le (by omega))

/-- An empty queue is settled: the invariant holds as before any interrupt. -/
theorem settle (sound : node.Sound params fInterrupted) (empty : node.vRecvGetData = []) :
    node.Sound params false :=
  { sound with
    pending := ⟨_, le_rfl, by rw [empty, sound.served_eq_of_empty empty, List.drop_length], .inl rfl⟩ }

/-- Taking a message off the receive queue keeps the invariant. -/
theorem take (sound : node.Sound params fInterrupted) (vProcessMsg : List CNetMessage) :
    { node with vProcessMsg }.Sound params fInterrupted :=
  ⟨sound.sent, sound.queued, sound.served, sound.pending, sound.askFor, sound.version, sound.connected⟩

/-- The items of a `GETDATA` of at most `MAX_INV_SZ` entries, appended to an
empty queue and to the log of requested items. -/
theorem queueGetData (sound : node.Sound params fInterrupted) (empty : node.vRecvGetData = [])
    {vInv : List CInv} (within : vInv.length ≤ MAX_INV_SZ) :
    { node with
      vRecvGetData := node.vRecvGetData ++ vInv
      getDataRequested := node.getDataRequested ++ vInv }.Sound params false := by
  have all := sound.served_eq_of_empty empty
  refine ⟨sound.sent, by simpa [empty] using within, ?_, ⟨node.getDataServed.length, le_rfl, ?_, .inl rfl⟩,
    sound.askFor, sound.version, sound.connected⟩
  · exact all ▸ List.prefix_append _ _
  · dsimp only
    rw [empty, all, List.drop_left, List.nil_append]

end Sound

end CNode

/-- **A handler that keeps its connection's frame keeps its invariant**, as long
as what it may push is within the limits. -/
theorem NodeFrame.sound {allowed : NetMsg → Bool} {params : Params} {fInterrupted : Bool} {node node' : CNode}
    (frame : NodeFrame allowed node node') (within : ∀ msg, allowed msg = true → msg.withinLimits = true)
    (sound : node.Sound params fInterrupted) : node'.Sound params fInterrupted := by
  obtain ⟨keeps, pushed, sent, pass⟩ := frame
  refine ⟨?_, ?_, ?_, ?_, keeps.askFor sound.askFor, ?_, ?_⟩
  · rw [sent]
    exact List.forall_mem_append.mpr ⟨sound.sent, fun msg member => within msg (pass msg member)⟩
  · rw [keeps.recvGetData]
    exact sound.queued
  · rw [keeps.served, keeps.requested]
    exact sound.served
  · rw [keeps.served, keeps.recvGetData, keeps.requested]
    exact sound.pending
  · rw [keeps.version]
    exact sound.version
  · rw [keeps.connected, keeps.version]
    exact sound.connected

end XuezNet
