import XuezNet.System.Invariant
import XuezNet.System.Connection

/-! # What the handshake branches do

The `VERSION` and `VERACK` branches are the only ones that write the handshake
fields of their connection. Each keeps the queues and logs of the connection
and pushes only messages within the limits that ask for no block; `VERSION`
sets the version once, from `0` to a supported one, and `VERACK`, run once the
version is set, marks the connection successfully connected (`NodeHandshake`,
`processVersion_handshake`, `processVerack_handshake`). On the globals they
only score the peer, write its download preference or mark it connected.
-/

namespace XuezNet

/-- **What the handshake branches do to their connection**: what a frame does,
except that the version may go once from `0` to a supported one, and the
connection may be marked connected once it has a version. -/
structure NodeHandshake (params : Params) (node node' : CNode) : Prop where
  id : node'.id = node.id
  recvGetData : node'.vRecvGetData = node.vRecvGetData
  requested : node'.getDataRequested = node.getDataRequested
  served : node'.getDataServed = node.getDataServed
  processMsg : node'.vProcessMsg = node.vProcessMsg
  askFor : (∀ entry ∈ node.mapAskFor, entry.2.type ≠ .block) →
    ∀ entry ∈ node'.mapAskFor, entry.2.type ≠ .block
  version : node'.nVersion = node.nVersion ∨ node.nVersion = 0 ∧ params.MIN_PROTO_VERSION ≤ node'.nVersion
  connected : node'.fSuccessfullyConnected = true → node.fSuccessfullyConnected = true ∨ node'.nVersion ≠ 0
  sent : ∃ pushed, node'.vSendMsg = node.vSendMsg ++ pushed ∧ ∀ msg ∈ pushed, msg.framed

namespace NodeHandshake

variable {params : Params} {node node' node'' : CNode}

/-- A frame writes no handshake field. -/
theorem ofFrame (frame : NodeFrame NetMsg.framed node node') : NodeHandshake params node node' :=
  ⟨frame.keeps.id, frame.keeps.recvGetData, frame.keeps.requested, frame.keeps.served,
    frame.keeps.processMsg, frame.keeps.askFor, .inl frame.keeps.version,
    fun connected => .inl (frame.keeps.connected ▸ connected), frame.sent⟩

/-- A set version stays set. -/
theorem version_ne_zero (step : NodeHandshake params node node') (versioned : node.nVersion ≠ 0) :
    node'.nVersion ≠ 0 := by
  rcases step.version with same | ⟨zero, -⟩
  · rwa [same]
  · exact absurd zero versioned

theorem trans (first : NodeHandshake params node node') (second : NodeHandshake params node' node'') :
    NodeHandshake params node node'' := by
  obtain ⟨pushed, sent, framed⟩ := first.sent
  obtain ⟨pushed', sent', framed'⟩ := second.sent
  refine ⟨second.id.trans first.id, second.recvGetData.trans first.recvGetData,
    second.requested.trans first.requested, second.served.trans first.served,
    second.processMsg.trans first.processMsg, second.askFor ∘ first.askFor, ?_, ?_,
    ⟨pushed ++ pushed', by rw [sent', sent, List.append_assoc], List.forall_mem_append.mpr ⟨framed, framed'⟩⟩⟩
  · rcases second.version with same | ⟨zero, supported⟩
    · rw [same]
      exact first.version
    · rcases first.version with same' | ⟨-, supported'⟩
      · exact .inr ⟨same' ▸ zero, supported⟩
      · have := params.min_proto_pos
        omega
  · intro connected
    rcases second.connected connected with early | versioned
    · exact (first.connected early).imp_right (second.version_ne_zero ·)
    · exact .inr versioned

/-- **The handshake keeps the invariant of the connection.** -/
theorem sound {fInterrupted : Bool} (step : NodeHandshake params node node')
    (sound : node.Sound params fInterrupted) : node'.Sound params fInterrupted := by
  obtain ⟨pushed, sent, framed⟩ := step.sent
  refine ⟨?_, ?_, ?_, ?_, step.askFor sound.askFor, ?_, ?_⟩
  · rw [sent]
    exact List.forall_mem_append.mpr ⟨sound.sent, fun msg member => NetMsg.withinLimits_of_framed (framed msg member)⟩
  · rw [step.recvGetData]
    exact sound.queued
  · rw [step.served, step.requested]
    exact sound.served
  · rw [step.served, step.recvGetData, step.requested]
    exact sound.pending
  · rcases step.version with same | ⟨-, supported⟩
    · rw [same]
      exact sound.version
    · exact .inr supported
  · intro connected
    rcases step.connected connected with early | versioned
    · exact step.version_ne_zero (sound.connected early)
    · exact versioned

end NodeHandshake

/-- **What one message does to the handshake of its connection**: the version
changes only in `VERSION`, from `0` to a supported one, and the connection
becomes successfully connected only in a `VERACK` once the version is set. -/
structure HandshakeStep (params : Params) (command : Command) (node node' : CNode) : Prop where
  version : node'.nVersion ≠ node.nVersion →
    command = .version ∧ node.nVersion = 0 ∧ params.MIN_PROTO_VERSION ≤ node'.nVersion
  connected : node'.fSuccessfullyConnected = true →
    node.fSuccessfullyConnected = true ∨ command = .verack ∧ node.nVersion ≠ 0

theorem HandshakeStep.ofKeeps {params : Params} {command : Command} {node node' : CNode}
    (version : node'.nVersion = node.nVersion) (connected : node'.fSuccessfullyConnected = node.fSuccessfullyConnected) :
    HandshakeStep params command node node' :=
  ⟨fun changed => absurd version changed, fun connected' => .inl (connected ▸ connected')⟩

namespace Handling

variable {env : Env} {h h' : Handling}

/-- Our `VERSION` is a message within the frame. -/
theorem pushNodeVersion_frame (node : CNode) (nTime : Int) :
    NodeFrame NetMsg.framed node (pushNodeVersion env node nTime) :=
  .push node rfl

/-- Recording an accepted version sets it, from `0` to a supported one. -/
theorem recordVersion_handshake {node : CNode} {payload : VersionPayload} (zero : node.nVersion = 0)
    (supported : env.params.MIN_PROTO_VERSION ≤ payload.nVersion) :
    NodeHandshake env.params node (recordVersion env node payload) := by
  have answered : NodeFrame NetMsg.framed node
      ((if node.fInbound = true then pushNodeVersion env node env.nAdjustedTime else node).pushMessage
        .verack) := by
    refine (?_ : NodeFrame _ _ _).trans (.push _ rfl)
    split_ifs
    · exact pushNodeVersion_frame _ _
    · exact .refl _
  exact (NodeHandshake.ofFrame answered).trans ⟨rfl, rfl, rfl, rfl, rfl, fun ok => ok,
    .inr ⟨answered.keeps.version.trans zero, supported⟩, fun connected => .inl connected,
    ⟨[], (List.append_nil _).symm, by simp⟩⟩

/-- Asking for addresses stays within the frame. -/
theorem requestAddresses_frame (node : CNode) : NodeFrame NetMsg.framed node (requestAddresses env node) := by
  have advertised : NodeFrame NetMsg.framed node (if env.fListen && !env.fInitialBlockDownload then
      match env.advertisedAddress with
      | some addr => node.pushAddress addr
      | none => node
    else node) := by
    split_ifs
    · split
      · exact .pushAddress _ _
      · exact .refl _
    · exact .refl _
  have asked : ∀ node : CNode, NodeFrame NetMsg.framed node
      (if node.fOneShot || decide (env.nAddressCount < 1000) then { node.pushMessage .getaddr with fGetAddr := true }
        else node) := fun node => by
    split_ifs
    · exact (NodeFrame.push _ rfl).trans (.update rfl rfl rfl rfl rfl rfl rfl rfl rfl)
    · exact .refl _
  exact advertised.trans (asked _)

/-- The accepting part of `VERSION`, from a connection without a version and for
a supported one: it sets the version and writes the download preference. -/
theorem acceptVersion_handshake {payload : VersionPayload} {fRet : Bool} (zero : h.node.nVersion = 0)
    (supported : env.params.MIN_PROTO_VERSION ≤ payload.nVersion)
    (ran : acceptVersion env h payload = some (h', fRet)) :
    LogicMoves env h.logic h'.logic ∧ NodeHandshake env.params h.node h'.node := by
  unfold acceptVersion at ran
  by_cases selfConnect : (h.node.fInbound && !env.checkIncomingNonce (payload.nNonce.getD 1)) = true
  · rw [if_pos selfConnect] at ran
    cases ran
    exact ⟨.refl, .ofFrame (.update rfl rfl rfl rfl rfl rfl rfl rfl rfl)⟩
  rw [if_neg selfConnect] at ran
  dsimp only [Option.pure_def, Option.bind_eq_bind, Option.some_bind] at ran
  obtain ⟨registry, updated, ran⟩ := Option.bind_eq_some.mp ran
  have asked : NodeFrame NetMsg.framed (recordVersion env h.node payload)
      (if (!(recordVersion env h.node payload).fInbound) = true then
        requestAddresses env (recordVersion env h.node payload) else recordVersion env h.node payload) := by
    split_ifs
    · exact requestAddresses_frame _
    · exact .refl _
  generalize (if (!(recordVersion env h.node payload).fInbound) = true then
    requestAddresses env (recordVersion env h.node payload) else recordVersion env h.node payload) = node at ran asked
  have recorded := recordVersion_handshake zero supported
  split_ifs at ran <;> cases ran <;>
    exact ⟨.single (.registry (.updatePreferredDownload updated)),
      recorded.trans (.ofFrame (asked.trans (.update rfl rfl rfl rfl rfl rfl rfl rfl rfl)))⟩

/-- The answer to a second `VERSION`: a `REJECT` and one point of misbehavior. -/
theorem rejectDuplicateVersion_moves (h : Handling) : Moves env h (rejectDuplicateVersion env h) :=
  ⟨.single (.misbehaving _ _), .push h.node rfl⟩

/-- **The `VERSION` branch**: a second one is refused, one refused for its
services or its version only answers and disconnects, and an accepted one sets
the version. -/
theorem processVersion_handshake {payload : VersionPayload} {fRet : Bool}
    (ran : processVersion env h payload = some (h', fRet)) :
    LogicMoves env h.logic h'.logic ∧ NodeHandshake env.params h.node h'.node := by
  unfold processVersion at ran
  split_ifs at ran with versioned services obsolete
  · cases ran
    exact ⟨(rejectDuplicateVersion_moves h).logic, .ofFrame (rejectDuplicateVersion_moves h).node⟩
  · cases ran
    exact ⟨.refl, .ofFrame ((NodeFrame.push _ rfl).trans (.update rfl rfl rfl rfl rfl rfl rfl rfl rfl))⟩
  · cases ran
    exact ⟨.refl, .ofFrame ((NodeFrame.push _ rfl).trans (.update rfl rfl rfl rfl rfl rfl rfl rfl rfl))⟩
  · exact acceptVersion_handshake (not_not.mp versioned) (not_lt.mp obsolete) ran

/-- The `VERSION` branch never marks the connection successfully connected. -/
theorem processVersion_connected {payload : VersionPayload} {fRet : Bool}
    (ran : processVersion env h payload = some (h', fRet)) :
    h'.node.fSuccessfullyConnected = h.node.fSuccessfullyConnected := by
  unfold processVersion at ran
  by_cases versioned : h.node.nVersion ≠ 0
  · rw [if_pos versioned] at ran
    cases ran
    rfl
  rw [if_neg versioned] at ran
  by_cases services : Nat.land h.node.nServicesExpected (Nat.xor payload.nServices 0xFFFFFFFFFFFFFFFF) ≠ 0
  · rw [if_pos services] at ran
    cases ran
    rfl
  rw [if_neg services] at ran
  by_cases obsolete : payload.nVersion < env.params.MIN_PROTO_VERSION
  · rw [if_pos obsolete] at ran
    cases ran
    rfl
  rw [if_neg obsolete] at ran
  unfold acceptVersion at ran
  by_cases selfConnect : (h.node.fInbound && !env.checkIncomingNonce (payload.nNonce.getD 1)) = true
  · rw [if_pos selfConnect] at ran
    cases ran
    rfl
  rw [if_neg selfConnect] at ran
  dsimp only [Option.pure_def, Option.bind_eq_bind, Option.some_bind] at ran
  obtain ⟨registry, -, ran⟩ := Option.bind_eq_some.mp ran
  have recorded : (recordVersion env h.node payload).fSuccessfullyConnected = h.node.fSuccessfullyConnected := by
    unfold recordVersion
    split_ifs <;> rfl
  have asked : (if (!(recordVersion env h.node payload).fInbound) = true then
      requestAddresses env (recordVersion env h.node payload) else recordVersion env h.node payload).fSuccessfullyConnected =
      h.node.fSuccessfullyConnected := by
    split_ifs
    · exact (requestAddresses_frame _).keeps.connected.trans recorded
    · exact recorded
  generalize (if (!(recordVersion env h.node payload).fInbound) = true then
    requestAddresses env (recordVersion env h.node payload) else recordVersion env h.node payload) = node at ran asked
  split_ifs at ran <;> cases ran <;> exact asked

/-- **The `VERACK` branch**, on a connection with a version, marks it
successfully connected. -/
theorem processVerack_handshake (versioned : h.node.nVersion ≠ 0) (ran : processVerack env h = some h') :
    LogicMoves env h.logic h'.logic ∧ NodeHandshake env.params h.node h'.node := by
  have answered : NodeFrame NetMsg.framed h.node
      (if env.params.SENDHEADERS_VERSION ≤ h.node.nVersion then
        { h.node with nRecvVersion := min h.node.nVersion env.params.PROTOCOL_VERSION }.pushMessage .sendheaders
      else { h.node with nRecvVersion := min h.node.nVersion env.params.PROTOCOL_VERSION }) := by
    refine (NodeFrame.update rfl rfl rfl rfl rfl rfl rfl rfl rfl :
      NodeFrame _ h.node { h.node with nRecvVersion := min h.node.nVersion env.params.PROTOCOL_VERSION }).trans ?_
    split_ifs
    · exact .push _ rfl
    · exact .refl _
  have connected : NodeHandshake env.params h.node { (if env.params.SENDHEADERS_VERSION ≤ h.node.nVersion then
        { h.node with nRecvVersion := min h.node.nVersion env.params.PROTOCOL_VERSION }.pushMessage .sendheaders
      else { h.node with nRecvVersion := min h.node.nVersion env.params.PROTOCOL_VERSION }) with
      fSuccessfullyConnected := true } :=
    (NodeHandshake.ofFrame answered).trans ⟨rfl, rfl, rfl, rfl, rfl, fun ok => ok, .inl rfl,
      fun _ => .inr ((NodeHandshake.ofFrame answered : NodeHandshake env.params _ _).version_ne_zero versioned),
      ⟨[], (List.append_nil _).symm, by simp⟩⟩
  unfold processVerack at ran
  dsimp only [Option.pure_def, Option.bind_eq_bind, Option.some_bind] at ran
  by_cases outbound : (!h.node.fInbound) = true
  · rw [if_pos outbound] at ran
    obtain ⟨nodeState, found, ran⟩ := Option.bind_eq_some.mp ran
    cases ran
    exact ⟨.single (.setFields found ⟨rfl, rfl, rfl, rfl, rfl⟩), connected⟩
  · rw [if_neg outbound] at ran
    cases ran
    exact ⟨.refl, connected⟩

end Handling

end XuezNet
