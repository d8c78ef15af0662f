import XuezNet.Dispatch.SendMessages

/-! # The ping exchange of a connection

Only two places of `messages.cpp` touch a connection's ping fields: the ping
section at the start of `SendMessages`, which sends a `PING` with a fresh
nonzero nonce when one is queued or the keep-alive is due, and the `PONG`
branch of `ProcessMessage`, which finishes the outstanding ping and records its
round trip. The rest of `SendMessages` keeps the ping fields and sends no
`PING` (`PingFrame`, `sendMessages_pingFrame`).

`PingLog` is what the spec says of the pings of a connection so far: whether
the most recent ping is outstanding, its nonce and start time, and the round
trip times recorded. `PingLog.record` reads each event as the spec describes
it: a tick that sent a `PING` makes it the outstanding one; a matching,
zero-nonce or short `PONG` finishes it; a matching one with a positive round
trip records it. Along every interleaving of ticks, `PONG`s and ping requests,
the connection's fields agree with the log (`runPings_tracked`).
-/

namespace XuezNet

/-- The nonce of a `PING`. -/
def NetMsg.pingNonce : NetMsg → Option Nat
  | .ping nonce => some nonce
  | _ => none

/-- The ping fields of a connection. -/
structure PingState where
  fPingQueued : Bool
  nPingNonceSent : Nat
  nPingUsecStart : Int
  nPingUsecTime : Int
  nMinPingUsecTime : Int
  deriving DecidableEq

/-- A connection's ping fields. -/
def CNode.pingState (node : CNode) : PingState :=
  ⟨node.fPingQueued, node.nPingNonceSent, node.nPingUsecStart, node.nPingUsecTime, node.nMinPingUsecTime⟩

/-- The nonces of the `PING`s a connection has queued to send. -/
def CNode.pingsSent (node : CNode) : List Nat := node.vSendMsg.filterMap NetMsg.pingNonce

/-- What the parts of a tick other than its ping section do to the ping: keep
the ping fields, and append only messages other than a `PING`. -/
structure PingFrame (node node' : CNode) : Prop where
  state : node'.pingState = node.pingState
  sent : ∃ pushed, node'.vSendMsg = node.vSendMsg ++ pushed ∧ pushed.filterMap NetMsg.pingNonce = []

namespace PingFrame

variable {node node' node'' : CNode}

theorem refl (node : CNode) : PingFrame node node := ⟨rfl, [], by simp, rfl⟩

theorem trans (first : PingFrame node node') (second : PingFrame node' node'') :
    PingFrame node node'' := by
  obtain ⟨pushed, sent, quiet⟩ := first.sent
  obtain ⟨pushed', sent', quiet'⟩ := second.sent
  exact ⟨second.state.trans first.state, pushed ++ pushed', by rw [sent', sent, List.append_assoc],
    by rw [List.filterMap_append, quiet, quiet', List.nil_append]⟩

/-- A write of fields other than the ping fields and the send queue. -/
theorem write (state : node'.pingState = node.pingState) (queue : node'.vSendMsg = node.vSendMsg) :
    PingFrame node node' :=
  ⟨state, [], by rw [queue, List.append_nil], rfl⟩

/-- The disconnect flag is no ping field. -/
theorem disconnect (node : CNode) : PingFrame node { node with fDisconnect := true } := write rfl rfl

theorem push (node : CNode) {msg : NetMsg} (quiet : msg.pingNonce = none) :
    PingFrame node (node.pushMessage msg) :=
  ⟨rfl, [msg], rfl, by simp [quiet]⟩

theorem pushAddress (node : CNode) (addr : CAddress) : PingFrame node (node.pushAddress addr) := by
  unfold CNode.pushAddress
  split <;> exact write rfl rfl

theorem pushInventory (node : CNode) (inv : CInv) : PingFrame node (node.pushInventory inv) := by
  unfold CNode.pushInventory
  split <;> (try split) <;> exact write rfl rfl

/-- A loop over a list whose every step keeps the frame keeps it. -/
theorem foldl {β γ : Type} {step : CNode × γ → β → CNode × γ}
    (each : ∀ acc item, PingFrame acc.1 (step acc item).1) :
    ∀ (items : List β) (acc : CNode × γ), PingFrame acc.1 (items.foldl step acc).1
  | [], _ => refl _
  | item :: items, acc => (each acc item).trans (foldl each items (step acc item))

theorem foldl_node {β : Type} {step : CNode → β → CNode} (each : ∀ node item, PingFrame node (step node item)) :
    ∀ (items : List β) (node : CNode), PingFrame node (items.foldl step node)
  | [], _ => refl _
  | item :: items, node => (each node item).trans (foldl_node each items (step node item))

end PingFrame

section Chunks

variable {α : Type} (make : List α → NetMsg) (quiet : ∀ chunk, (make chunk).pingNonce = none)
  (node : CNode) (chunk : List α)

include quiet

theorem chunkPush_pingFrame (limit : Nat) (item : α) :
    PingFrame node (chunkPush limit make node chunk item).1 := by
  unfold chunkPush
  dsimp only
  split
  · exact .push node (quiet _)
  · exact .refl node

theorem chunkPushAtLeast_pingFrame (limit : Nat) (item : α) :
    PingFrame node (chunkPushAtLeast limit make node chunk item).1 := by
  unfold chunkPushAtLeast
  dsimp only
  split
  · exact .push node (quiet _)
  · exact .refl node

theorem flushChunk_pingFrame : PingFrame node (flushChunk make node chunk) := by
  unfold flushChunk
  split
  · exact .refl node
  · exact .push node (quiet _)

end Chunks

namespace Handling

variable {env : Env} {h h' : Handling}

/-- The ping section of `SendMessages`: when a ping is queued, or none is
outstanding and `PING_INTERVAL` has passed since the last, it sends the tick's
nonce and restarts the ping clock. -/
theorem sendPing_eq (tick : Tick) (node : CNode) :
    sendPing env tick node =
      if node.fPingQueued || (decide (node.nPingNonceSent = 0) &&
          decide (node.nPingUsecStart + env.params.PING_INTERVAL * 1000000 < env.nTimeMicros)) then
        { node.pushMessage (.ping tick.nonce) with
          fPingQueued := false
          nPingUsecStart := env.nTimeMicros
          nPingNonceSent := tick.nonce }
      else node := rfl

theorem sendRejectsAndCheckIfBanned_pingFrame {fShouldBan : Bool}
    (ran : sendRejectsAndCheckIfBanned h = some (h', fShouldBan)) : PingFrame h.node h'.node := by
  unfold sendRejectsAndCheckIfBanned at ran
  obtain ⟨state, -, ran⟩ := Option.bind_eq_some.mp ran
  simp only [Option.some.injEq, Prod.mk.injEq] at ran
  obtain ⟨rfl, -⟩ := ran
  have rejects : PingFrame h.node (state.rejects.foldl (fun node reject => node.pushMessage
      (.reject .block reject.chRejectCode reject.strRejectReason (some reject.hashBlock))) h.node) :=
    PingFrame.foldl_node (fun node _ => .push node (by rfl)) _ _
  exact rejects.trans (by split <;> exact .write rfl rfl)

theorem sendAddresses_pingFrame (tick : Tick) (node : CNode) :
    PingFrame node (sendAddresses env tick node) := by
  have broadcast : ∀ node : CNode, PingFrame node (broadcastAddresses env tick node) := by
    intro node
    unfold broadcastAddresses
    split
    · have step : ∀ (acc : CNode × List CAddress) addr, PingFrame acc.1 (addrStep acc addr).1 := by
        intro acc addr
        unfold addrStep
        split
        · exact .refl _
        · exact (PingFrame.write (by rfl) (by rfl)).trans
            (chunkPushAtLeast_pingFrame .addr (fun _ => rfl) _ _ _ _)
      have sent := PingFrame.foldl step node.vAddrToSend ({ node with nNextAddrSend := tick.nNextAddrSend }, [])
      exact ((PingFrame.write (by rfl) (by rfl)).trans sent).trans
        ((PingFrame.write (by rfl) (by rfl)).trans (flushChunk_pingFrame .addr (fun _ => rfl) _ _))
    · exact .refl node
  refine (?_ : PingFrame node _).trans (broadcast _)
  split
  · refine (?_ : PingFrame node (node.advertiseLocal env.fListen env.advertisedAddress)).trans
      (.write (by rfl) (by rfl))
    unfold CNode.advertiseLocal
    split
    · split
      · exact .pushAddress _ _
      · exact .refl _
    · exact .refl _
  · exact .refl node

theorem startSync_pingFrame {state : CNodeState} {fFetch : Bool}
    (ran : startSync env h state fFetch = some h') : PingFrame h.node h'.node := by
  unfold startSync at ran
  dsimp only at ran
  split at ran
  · cases ran
    exact .refl _
  simp only [Option.pure_def, Option.bind_eq_bind, Option.some_bind] at ran
  obtain ⟨best, -, ran⟩ := Option.bind_eq_some.mp ran
  split at ran
  · cases ran
    exact .refl _
  · obtain ⟨registry, -, ran⟩ := Option.bind_eq_some.mp ran
    cases ran
    exact .push _ rfl

theorem announceBlocks_pingFrame (ran : announceBlocks env h = some h') : PingFrame h.node h'.node := by
  unfold announceBlocks at ran
  obtain ⟨registry, -, ran⟩ := Option.bind_eq_some.mp ran
  obtain ⟨state, -, ran⟩ := Option.bind_eq_some.mp ran
  obtain ⟨found, -, ran⟩ := Option.bind_eq_some.mp ran
  obtain ⟨node, inv, ran⟩ := Option.bind_eq_some.mp ran
  cases ran
  have headers : ∀ (h : Handling) registry state vHeaders pBestIndex fRevertToInv,
      PingFrame h.node (announceHeaders h registry state vHeaders pBestIndex fRevertToInv).1.node := by
    intro h registry state vHeaders pBestIndex fRevertToInv
    unfold announceHeaders
    split
    · split
      · exact .push _ rfl
      · exact .refl _
    · exact .refl _
  have invs : ∀ {node node' : CNode} {hashes fRevertToInv},
      announceInv env node state hashes fRevertToInv = some node' → PingFrame node node' := by
    intro node node' hashes fRevertToInv announced
    unfold announceInv at announced
    split at announced
    · split at announced
      · obtain ⟨_, -, announced⟩ := Option.bind_eq_some.mp announced
        cases announced
        split
        · exact .refl _
        · exact .pushInventory _ _
      · cases announced
        exact .refl _
    · cases announced
      exact .refl _
  exact (headers { h with logic := { h.logic with registry } } registry state _ _ _).trans
    ((invs inv).trans (.write (by rfl) (by rfl)))

theorem trickleTxs_pingFrame (nNow : Int) :
    ∀ (hashes : List Hash) (nRelayedTransactions : Nat) (h : Handling) (vInv : List CInv),
      PingFrame h.node (trickleTxs env nNow hashes nRelayedTransactions h vInv).1.node
  | [], _, h, _ => .refl h.node
  | hash :: rest, nRelayedTransactions, h, vInv => by
      unfold trickleTxs
      split
      · exact .refl _
      · dsimp only
        split
        · exact (PingFrame.write (by rfl) (by rfl)).trans (trickleTxs_pingFrame nNow rest _ _ _)
        · have pushed := chunkPush_pingFrame .inv (fun _ => rfl)
            { h.node with setInventoryTxToSend := h.node.setInventoryTxToSend.erase hash } vInv MAX_INV_SZ
            ⟨.tx, hash⟩
          exact ((PingFrame.write (by rfl) (by rfl)).trans (pushed.trans (.write (by rfl) (by rfl)))).trans
            (trickleTxs_pingFrame nNow rest _ _ _)

theorem trickleStxs_pingFrame :
    ∀ (hashes : List Hash) (nRelayedTransactions : Nat) (node : CNode) (vInv : List CInv),
      PingFrame node (trickleStxs env hashes nRelayedTransactions node vInv).1
  | [], _, node, _ => .refl node
  | hash :: rest, nRelayedTransactions, node, vInv => by
      unfold trickleStxs
      split
      · exact .refl _
      · dsimp only
        split
        · exact (PingFrame.write (by rfl) (by rfl)).trans (trickleStxs_pingFrame rest _ _ _)
        · have pushed := chunkPush_pingFrame .inv (fun _ => rfl)
            { node with setInventoryStxToSend := node.setInventoryStxToSend.erase hash } vInv MAX_INV_SZ
            ⟨.stx, hash⟩
          exact ((PingFrame.write (by rfl) (by rfl)).trans pushed).trans (trickleStxs_pingFrame rest _ _ _)

theorem sendInventory_pingFrame (tick : Tick) (h : Handling) :
    PingFrame h.node (sendInventory env tick h).node := by
  unfold sendInventory
  dsimp only
  have blocks : ∀ acc hash, PingFrame acc.1 (blockInvStep acc hash).1 := fun acc hash =>
    chunkPush_pingFrame .inv (fun _ => rfl) acc.1 acc.2 MAX_INV_SZ ⟨.block, hash⟩
  have timer : ∀ node : CNode, PingFrame node (trickleTimer env tick node).2 := by
    intro node
    unfold trickleTimer
    dsimp only
    split <;> split <;> exact .write rfl rfl
  have queued := PingFrame.foldl blocks h.node.vInventoryBlockToSend (h.node, [])
  refine ((queued.trans (PingFrame.write (by rfl) (by rfl))).trans
    (timer { (h.node.vInventoryBlockToSend.foldl blockInvStep (h.node, [])).1 with
      vInventoryBlockToSend := [] })).trans ?_
  refine (?_ : PingFrame _ _).trans ((trickleStxs_pingFrame _ _ _ _).trans
    (flushChunk_pingFrame .inv (fun _ => rfl) _ _))
  split
  · exact trickleTxs_pingFrame _ _ _ { h with node := _ } _
  · exact .refl _

theorem askForDue_pingFrame (nNow : Int) :
    ∀ (queue : List (Int × CInv)) (h : Handling) (vGetData : List CInv),
      PingFrame h.node (askForDue env nNow queue h vGetData).1.node
  | [], _, _ => .write rfl rfl
  | (nRequestTime, inv) :: rest, h, vGetData => by
      unfold askForDue
      split
      · exact .write rfl rfl
      · refine (?_ : PingFrame _ _).trans (askForDue_pingFrame nNow rest _ _)
        unfold askForStep
        dsimp only
        split
        · exact .write rfl rfl
        · split
          · exact .refl _
          · exact chunkPushAtLeast_pingFrame .getdata (fun _ => rfl) _ _ _ _

theorem getDataBlocks_node {fFetch : Bool} {fetched : Handling × List CInv}
    (ran : getDataBlocks env h fFetch = some fetched) : fetched.1.node = h.node := by
  unfold getDataBlocks at ran
  obtain ⟨state, -, ran⟩ := Option.bind_eq_some.mp ran
  split at ran
  · obtain ⟨_, -, ran⟩ := Option.bind_eq_some.mp ran
    obtain ⟨_, -, ran⟩ := Option.bind_eq_some.mp ran
    obtain ⟨_, -, ran⟩ := Option.bind_eq_some.mp ran
    cases ran
    rfl
  · cases ran
    rfl

theorem requestData_pingFrame {fFetch : Bool} (ran : requestData env h fFetch = some h') :
    PingFrame h.node h'.node := by
  unfold requestData at ran
  obtain ⟨fetched, blocks, ran⟩ := Option.bind_eq_some.mp ran
  cases ran
  rw [← getDataBlocks_node blocks]
  exact (askForDue_pingFrame _ _ _ _).trans (flushChunk_pingFrame .getdata (fun _ => rfl) _ _)

theorem sendLocked_pingFrame {tick : Tick} (ran : sendLocked env tick h = some h') :
    PingFrame h.node h'.node := by
  unfold sendLocked at ran
  obtain ⟨state, -, ran⟩ := Option.bind_eq_some.mp ran
  obtain ⟨synced, syncing, ran⟩ := Option.bind_eq_some.mp ran
  obtain ⟨announced, announcing, ran⟩ := Option.bind_eq_some.mp ran
  obtain ⟨stalled, -, ran⟩ := Option.bind_eq_some.mp ran
  have before : PingFrame h.node (sendInventory env tick announced).node :=
    (sendAddresses_pingFrame tick h.node).trans ((startSync_pingFrame syncing).trans
    ((announceBlocks_pingFrame announcing).trans (sendInventory_pingFrame tick announced)))
  split at ran
  · cases ran
    exact before.trans (.disconnect _)
  · exact before.trans (requestData_pingFrame ran)

/-- **`SendMessages` sends at most the ping of its ping section**: a tick that
passes the connection gate acts on the ping fields as `sendPing` does, one that
does not leaves them, and the rest of the tick keeps them and sends no `PING`. -/
theorem sendMessages_pingFrame {tick : Tick} (ran : sendMessages env tick h = some h') :
    PingFrame (if h.node.fSuccessfullyConnected && !h.node.fDisconnect then sendPing env tick h.node
      else h.node) h'.node := by
  unfold sendMessages at ran
  by_cases gate : (h.node.fSuccessfullyConnected && !h.node.fDisconnect) = true
  · have open' : (!h.node.fSuccessfullyConnected || h.node.fDisconnect) = false := by
      simpa [Bool.not_and] using gate
    rw [if_pos gate]
    rw [if_neg (by simp [open'])] at ran
    dsimp only at ran
    split at ran
    · cases ran
      exact .refl _
    · obtain ⟨⟨checked, fBanned⟩, banning, ran⟩ := Option.bind_eq_some.mp ran
      have flushed := sendRejectsAndCheckIfBanned_pingFrame banning
      split at ran
      · cases ran
        exact flushed
      · exact flushed.trans (sendLocked_pingFrame ran)
  · have closed : (!h.node.fSuccessfullyConnected || h.node.fDisconnect) = true := by
      revert gate
      cases h.node.fSuccessfullyConnected <;> cases h.node.fDisconnect <;> decide
    rw [if_neg gate]
    rw [if_pos closed] at ran
    cases ran
    exact .refl _

end Handling

/-- An event of a connection's ping exchange. -/
inductive PingEvent
  /-- A call of `SendMessages` in environment `env`. -/
  | tick (env : Env) (tick : Tick)
  /-- A `PONG` received at `nTimeReceived`; `none` is a payload too short for a nonce. -/
  | pong (nTimeReceived : Int) (nonce : Option Nat)
  /-- Modelled from the spec: the user's ping request, which sets `fPingQueued`
  (its code is not under `src/`). -/
  | queue

/-- What the connection does on an event. -/
def PingEvent.apply (h : Handling) : PingEvent → Option Handling
  | .tick env t => Handling.sendMessages env t h
  | .pong nTimeReceived nonce => some (Handling.processPong h nTimeReceived nonce)
  | .queue => some { h with node := { h.node with fPingQueued := true } }

/-- What the spec says of a connection's pings so far. -/
structure PingLog where
  /-- The most recent ping was sent and no `PONG` finished it. -/
  outstanding : Bool
  /-- Its nonce. -/
  nonce : Nat
  /-- Its start time. -/
  start : Int
  /-- The round-trip times recorded, oldest first. -/
  rtts : List Int
  /-- How many of them the most recent ping yielded. -/
  fromLast : Nat
  /-- `nPingUsecTime` and `nMinPingUsecTime` before the first event. -/
  initialTime : Int
  initialMin : Int

namespace PingLog

/-- The log of a connection before the first event: its outstanding ping, if
any, is the one its nonce names. -/
def begin (node : CNode) : PingLog :=
  ⟨node.nPingNonceSent ≠ 0, node.nPingNonceSent, node.nPingUsecStart, [], 0, node.nPingUsecTime,
    node.nMinPingUsecTime⟩

/-- The log after an event, from what the connection sent: a tick that queued a
`PING` makes it the outstanding ping, started at the tick's clock; a `PONG` with
the outstanding nonce, with nonce zero or too short finishes the outstanding
ping, and one with its nonce and a positive round trip records that. -/
def record (log : PingLog) (before after : Handling) : PingEvent → PingLog
  | .tick env _ =>
      match (after.node.pingsSent.drop before.node.pingsSent.length).getLast? with
      | some nonce => { log with outstanding := true, nonce, start := env.nTimeMicros, fromLast := 0 }
      | none => log
  | .pong nTimeReceived nonce =>
      let matching := log.outstanding && decide (nonce = some log.nonce)
      let rtt := nTimeReceived - log.start
      let recorded := matching && decide (0 < rtt)
      { log with
        outstanding := log.outstanding && !decide (nonce = none ∨ nonce = some 0 ∨ nonce = some log.nonce)
        rtts := if recorded then log.rtts ++ [rtt] else log.rtts
        fromLast := if recorded then log.fromLast + 1 else log.fromLast }
  | .queue => log

end PingLog

/-- **The ping invariant**: every `PING` queued carries a nonzero nonce;
`nPingNonceSent` is nonzero exactly while the most recent ping is outstanding,
and then it is that ping's nonce; the ping clock is that ping's start;
`nPingUsecTime` is the last round trip recorded and `nMinPingUsecTime` the
least of all, each starting from its initial value; and the outstanding ping
has yielded no round trip, so no ping yields more than one. -/
structure PingTracked (node : CNode) (log : PingLog) : Prop where
  nonzero : ∀ nonce ∈ node.pingsSent, 0 < nonce
  outstanding : log.outstanding = true ↔ node.nPingNonceSent ≠ 0
  nonce : log.outstanding = true → node.nPingNonceSent = log.nonce
  start : node.nPingUsecStart = log.start
  time : node.nPingUsecTime = log.rtts.getLast?.getD log.initialTime
  minimum : node.nMinPingUsecTime = log.rtts.foldl min log.initialMin
  fresh : log.outstanding = true → log.fromLast = 0
  once : log.fromLast ≤ 1

namespace PingTracked

variable {node node' : CNode} {log : PingLog}

theorem begin (nonzero : ∀ nonce ∈ node.pingsSent, 0 < nonce) : PingTracked node (PingLog.begin node) where
  nonzero := nonzero
  outstanding := by simp [PingLog.begin]
  nonce _ := rfl
  start := rfl
  time := rfl
  minimum := rfl
  fresh _ := rfl
  once := Nat.zero_le 1

/-- A change that queues no `PING` and keeps the fields the invariant reads
keeps it. -/
theorem keep (tracked : PingTracked node log) (sent : node'.pingsSent = node.pingsSent)
    (nonce : node'.nPingNonceSent = node.nPingNonceSent) (start : node'.nPingUsecStart = node.nPingUsecStart)
    (time : node'.nPingUsecTime = node.nPingUsecTime)
    (minimum : node'.nMinPingUsecTime = node.nMinPingUsecTime) : PingTracked node' log where
  nonzero := sent ▸ tracked.nonzero
  outstanding := nonce ▸ tracked.outstanding
  nonce := nonce ▸ tracked.nonce
  start := start ▸ tracked.start
  time := time ▸ tracked.time
  minimum := minimum ▸ tracked.minimum
  fresh := tracked.fresh
  once := tracked.once

theorem frame (tracked : PingTracked node log) (kept : PingFrame node node') : PingTracked node' log := by
  obtain ⟨pushed, sent, quiet⟩ := kept.sent
  have state := kept.state
  simp only [CNode.pingState, PingState.mk.injEq] at state
  exact tracked.keep (by simp [CNode.pingsSent, sent, quiet]) state.2.1 state.2.2.1 state.2.2.2.1
    state.2.2.2.2

/-- The ping section sends a `PING` with a nonzero nonce: it is the new
outstanding ping, started now, and has yielded no round trip. -/
theorem ping (tracked : PingTracked node log) {nonce : Nat} (positive : 0 < nonce) (now : Int) :
    PingTracked { node.pushMessage (.ping nonce) with
        fPingQueued := false, nPingUsecStart := now, nPingNonceSent := nonce }
      { log with outstanding := true, nonce, start := now, fromLast := 0 } where
  nonzero := by
    intro sent member
    simp only [CNode.pingsSent, CNode.pushMessage, List.filterMap_append, List.mem_append] at member
    rcases member with earlier | latest
    · exact tracked.nonzero sent earlier
    · simp only [NetMsg.pingNonce, List.filterMap_cons, List.filterMap_nil,
        List.mem_singleton] at latest
      exact latest ▸ positive
  outstanding := by simpa using positive.ne'
  nonce _ := rfl
  start := rfl
  time := tracked.time
  minimum := tracked.minimum
  fresh _ := rfl
  once := Nat.zero_le 1

/-- A `PONG` that finishes the outstanding ping without a round trip. -/
theorem finish (tracked : PingTracked node log) :
    PingTracked { node with nPingNonceSent := 0 } { log with outstanding := false } where
  nonzero := tracked.nonzero
  outstanding := by simp
  nonce stale := absurd stale Bool.false_ne_true
  start := tracked.start
  time := tracked.time
  minimum := tracked.minimum
  fresh stale := absurd stale Bool.false_ne_true
  once := tracked.once

/-- A `PONG` that matches the outstanding ping: it finishes the ping and records
the round trip, the first the ping yields. -/
theorem measure (tracked : PingTracked node log) (outstanding : log.outstanding = true) (rtt : Int) :
    PingTracked { node with
        nPingUsecTime := rtt, nMinPingUsecTime := min node.nMinPingUsecTime rtt, nPingNonceSent := 0 }
      { log with outstanding := false, rtts := log.rtts ++ [rtt], fromLast := log.fromLast + 1 } where
  nonzero := tracked.nonzero
  outstanding := by simp
  nonce stale := absurd stale Bool.false_ne_true
  start := tracked.start
  time := by simp
  minimum := by simp [tracked.minimum]
  fresh stale := absurd stale Bool.false_ne_true
  once := by simp [tracked.fresh outstanding]

end PingTracked

/-- The `PING`s a frame queues after a prefix are those of the prefix. -/
theorem PingFrame.newPings {node node₁ node' : CNode} (kept : PingFrame node₁ node') (extra : List NetMsg)
    (prefix' : node₁.vSendMsg = node.vSendMsg ++ extra) :
    node'.pingsSent.drop node.pingsSent.length = extra.filterMap NetMsg.pingNonce := by
  obtain ⟨pushed, sent, quiet⟩ := kept.sent
  simp only [CNode.pingsSent, sent, prefix', List.filterMap_append, quiet, List.append_nil,
    List.drop_left]

namespace PingTracked

variable {h h' : Handling} {log : PingLog}

/-- A tick keeps the invariant. -/
theorem sendMessages (tracked : PingTracked h.node log) {env : Env} {tick : Tick}
    (ran : Handling.sendMessages env tick h = some h') :
    PingTracked h'.node (log.record h h' (.tick env tick)) := by
  have kept := Handling.sendMessages_pingFrame ran
  unfold PingLog.record
  split at kept
  · rw [Handling.sendPing_eq] at kept
    split at kept
    · rw [kept.newPings [.ping tick.nonce] rfl]
      exact (tracked.ping tick.nonce_pos env.nTimeMicros).frame kept
    · rw [kept.newPings [] (List.append_nil _).symm]
      exact tracked.frame kept
  · rw [kept.newPings [] (List.append_nil _).symm]
    exact tracked.frame kept

/-- A `PONG` keeps the invariant: a short one, one with nonce zero and a
matching one finish the outstanding ping, the matching one recording its round
trip when positive; any other changes nothing. -/
theorem processPong (tracked : PingTracked h.node log) (nTimeReceived : Int) (nonce : Option Nat) :
    PingTracked (Handling.processPong h nTimeReceived nonce).node
      (log.record h h' (.pong nTimeReceived nonce)) := by
  cases nonce with
  | none =>
      have logged : log.record h h' (.pong nTimeReceived none) = { log with outstanding := false } := by
        simp [PingLog.record]
      rw [logged]
      exact tracked.finish
  | some nonce =>
      simp only [Handling.processPong]
      by_cases idle : h.node.nPingNonceSent = 0
      · have quiet : log.outstanding = false := by simpa [idle] using tracked.outstanding
        have logged : log.record h h' (.pong nTimeReceived (some nonce)) =
            { log with outstanding := false } := by
          simp [PingLog.record, quiet]
        rw [if_pos idle, logged, ← quiet]
        exact tracked
      have outstanding := tracked.outstanding.mpr idle
      have named := tracked.nonce outstanding
      rw [if_neg idle]
      by_cases matching : nonce = h.node.nPingNonceSent
      · rw [if_pos matching]
        dsimp only
        split
        · next positive =>
          have logged : log.record h h' (.pong nTimeReceived (some nonce)) = { log with
              outstanding := false, rtts := log.rtts ++ [nTimeReceived - h.node.nPingUsecStart],
              fromLast := log.fromLast + 1 } := by
            simp [PingLog.record, outstanding, matching, named, ← tracked.start, positive]
          rw [logged]
          exact tracked.measure outstanding _
        · next positive =>
          have logged : log.record h h' (.pong nTimeReceived (some nonce)) =
              { log with outstanding := false } := by
            simp [PingLog.record, outstanding, matching, named, ← tracked.start, positive]
          rw [logged]
          exact tracked.finish
      · rw [if_neg matching]
        have other : nonce ≠ log.nonce := named ▸ matching
        split
        · next zero =>
          subst zero
          have logged : log.record h h' (.pong nTimeReceived (some 0)) =
              { log with outstanding := false } := by
            simp [PingLog.record, outstanding, other]
          rw [logged]
          exact tracked.finish
        · next nonzero =>
          have logged : log.record h h' (.pong nTimeReceived (some nonce)) =
              { log with outstanding := true } := by
            simp [PingLog.record, outstanding, nonzero, other]
          rw [logged, ← outstanding]
          exact tracked

/-- The user's ping request keeps the invariant. -/
theorem queue (tracked : PingTracked h.node log) :
    PingTracked { h.node with fPingQueued := true } log :=
  tracked.keep rfl rfl rfl rfl rfl

/-- **Each event keeps the invariant.** -/
theorem step (tracked : PingTracked h.node log) {event : PingEvent} (applied : event.apply h = some h') :
    PingTracked h'.node (log.record h h' event) := by
  cases event with
  | tick env t => exact tracked.sendMessages applied
  | pong nTimeReceived nonce =>
      cases applied
      exact tracked.processPong nTimeReceived nonce
  | queue =>
      cases applied
      exact tracked.queue

end PingTracked

/-- The connection after the events, with the log of its pings. -/
def runPings : Handling → PingLog → List PingEvent → Option (Handling × PingLog)
  | h, log, [] => some (h, log)
  | h, log, event :: events => do
      let h' ← event.apply h
      runPings h' (log.record h h' event) events

theorem runPings_tracked {events : List PingEvent} :
    ∀ {h h' : Handling} {log log' : PingLog}, PingTracked h.node log →
      runPings h log events = some (h', log') → PingTracked h'.node log' := by
  induction events with
  | nil =>
      intro _ _ _ _ tracked ran
      cases ran
      exact tracked
  | cons event events ih =>
      intro _ _ _ _ tracked ran
      obtain ⟨next, applied, ran⟩ := Option.bind_eq_some.mp ran
      exact ih (tracked.step applied) ran

/-- **The ping exchange**: along every interleaving of ticks, `PONG`s and ping
requests on a connection whose queued `PING`s carry nonzero nonces, the
connection's ping fields agree with the log of its pings. -/
theorem ping_exchange_tracked {h : Handling} (nonzero : ∀ nonce ∈ h.node.pingsSent, 0 < nonce)
    {events : List PingEvent} {h' : Handling} {log : PingLog}
    (ran : runPings h (PingLog.begin h.node) events = some (h', log)) : PingTracked h'.node log :=
  runPings_tracked (PingTracked.begin nonzero) ran

/-- A peer that completed the handshake: the ping is queued by the user, a tick
sends it with nonce 5 at clock 10000000, and the `PONG` comes back 50 later. -/
def pingEvents : List PingEvent :=
  [.queue, .tick Handling.missingInputsEnv ⟨false, 5, by decide, 0, 0, 0⟩, .pong 10000050 (some 5)]

def pingPeer : Handling :=
  { Handling.connectedPeer with node := { Handling.connectedPeer.node with fSuccessfullyConnected := true } }

def pingRun : Option (Handling × PingLog) := runPings pingPeer (PingLog.begin pingPeer.node) pingEvents

/-- The connection and the log after `pingRun`. -/
def pingAfter : Handling := (pingRun.map Prod.fst).getD pingPeer

def pingLog : PingLog := (pingRun.map Prod.snd).getD (PingLog.begin pingPeer.node)

/-- The round trip of 50 is recorded and the ping is no longer outstanding. -/
example : (pingLog.rtts, pingLog.outstanding, pingAfter.node.nPingUsecTime, pingAfter.node.nPingNonceSent) =
    ([50], false, 50, 0) := by
  decide

theorem ping_exchange_tracked_pingEvents :
    (∀ nonce ∈ pingPeer.node.pingsSent, 0 < nonce) ∧
      runPings pingPeer (PingLog.begin pingPeer.node) pingEvents = some (pingAfter, pingLog) ∧
      PingTracked pingAfter.node pingLog :=
  have empty : pingPeer.node.pingsSent = [] := rfl
  have nonzero : ∀ nonce ∈ pingPeer.node.pingsSent, 0 < nonce := fun nonce member =>
    absurd (empty ▸ member) (List.not_mem_nil nonce)
  have ran : runPings pingPeer (PingLog.begin pingPeer.node) pingEvents = some (pingAfter, pingLog) := rfl
  ⟨nonzero, ran, ping_exchange_tracked nonzero ran⟩

end XuezNet
