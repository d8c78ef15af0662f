import XuezNet.Handlers.Transaction
import XuezNet.Handlers.Handshake
import XuezNet.Handlers.Inventory
import XuezNet.Handlers.Headers
import XuezNet.Handlers.Control

/-! # The message thread: `ProcessMessage` and `ProcessMessages`

`processMessage` is the dispatcher: the `-dropmessagestest` roll, the
`NODE_BLOOM` gate, the handshake gate (`missing-version`), then one branch per
command. A payload that throws on its first read ends the message with
`Outcome.threw`; the commands whose branch reads nothing, or stops before
reading, run as the code runs them.

`processMessages` is one call of the message thread on a connection: serve the
queued `GETDATA` items first, take no message while any is left, then check the
transport's verdicts on one message, dispatch it, answer a parse failure with
`REJECT(malformed)`, and flush the block rejects and the ban flag
(`sendRejectsAndCheckIfBanned`).

The reads of `fPauseSend` and `interruptMsgProc` are inputs (`Reads`), one
sequence for each loop that reads them, so that every pattern is covered.
-/

namespace XuezNet

/-- The values one call of `ProcessMessages` reads from the flags other threads
set: `fPauseSend` and `interruptMsgProc` at each item of the `ProcessGetData`
that serves the queue, `fPauseSend` before a message is taken, both flags in the
handler (the `INV` loop and the `GETDATA` branch's `ProcessGetData`), and
`interruptMsgProc` once the handler returns. -/
structure Reads where
  pausedQueued : Nat → Bool
  interruptedQueued : Nat → Bool
  fPauseSend : Bool
  pausedHandler : Nat → Bool
  interruptedHandler : Nat → Bool
  interruptedAfter : Bool

/-- How `ProcessMessage` ended: it returned its flag, or reading the payload
threw. -/
inductive Outcome
  | returned (fRet : Bool)
  | threw
  deriving DecidableEq, Repr

/-- The three commands the `NODE_BLOOM` gate guards. -/
def Command.isFilter : Command → Bool
  | .filterload | .filteradd | .filterclear => true
  | _ => false

namespace Handling

variable (env : Env)

/-- The `-dropmessagestest` roll: drop the message when `GetRand` of the
argument is `0`. The argument, read by `atoi`, is converted to the `uint64_t`
that `GetRand` takes. -/
def dropped : Bool :=
  match env.args.dropmessagestest with
  | some n => env.getRand (n % 18446744073709551616).toNat = 0
  | none => false

/-- The branch of a well-formed message, the handshake gate passed. -/
def handleMessage (reads : Reads) (h : Handling) (nTimeReceived : Int) :
    NetMsg → Option (Handling × Outcome)
  | .version payload => (processVersion env h payload).map fun r => (r.1, .returned r.2)
  | .verack => (processVerack env h).map (·, .returned true)
  | .addr vAddr => let r := processAddr env h vAddr; some (r.1, .returned r.2)
  | .sendheaders => (processSendHeaders h).map (·, .returned true)
  | .inv vInv => (processInv env reads.interruptedHandler h vInv).map fun r => (r.1, .returned r.2)
  | .getdata vInv => (processGetDataMessage env reads.pausedHandler reads.interruptedHandler h vInv).map
      fun r => (r.1, .returned r.2)
  | .getblocks locator hashStop => some (processGetBlocks env h locator hashStop, .returned true)
  | .getheaders locator hashStop =>
      (processGetHeaders env h locator hashStop).map fun r => (r.1, .returned r.2)
  | .headers headers => (processHeaders env h headers).map fun r => (r.1, .returned r.2)
  | .tx tx => (processTx env h tx).map (·, .returned true)
  | .stx hash => let r := processStx env h hash; some (r.1, .returned r.2)
  | .block block => (processBlock env h block).map fun r => (r.1, .returned r.2)
  | .getaddr => some (if h.node.fInbound then processGetAddr env h else h, .returned true)
  | .mempool => some (processMempool env h, .returned true)
  | .ping nonce => some ({ h with node := h.node.pushMessage (.pong (some nonce)) }, .returned true)
  | .pong nonce => some (processPong h nTimeReceived nonce, .returned true)
  | .filterload withinSizeConstraints =>
      some (processFilterLoad env h withinSizeConstraints, .returned true)
  | .filteradd size => some (processFilterAdd env h size, .returned true)
  | .filterclear => some (processFilterClear h, .returned true)
  | .notfound _ | .merkleblock _ | .reject _ _ _ _ => some (h, .returned true)

/-- The branch of a message whose payload throws on its first read: the checks
made before that read still act, and a branch that reads nothing runs. -/
def handleMalformed (reads : Reads) (h : Handling) (nTimeReceived : Int) :
    Command → Option (Handling × Outcome)
  | .version => if h.node.nVersion ≠ 0 then some (rejectDuplicateVersion env h, .returned false)
      else some (h, .threw)
  | .verack => handleMessage env reads h nTimeReceived .verack
  | .sendheaders => handleMessage env reads h nTimeReceived .sendheaders
  | .getaddr => handleMessage env reads h nTimeReceived .getaddr
  | .mempool => handleMessage env reads h nTimeReceived .mempool
  | .filterclear => handleMessage env reads h nTimeReceived .filterclear
  | .pong => handleMessage env reads h nTimeReceived (.pong none)
  | .tx => if !env.fRelayTxes && (!h.node.fWhitelisted || !env.args.whitelistrelay) then
        some (h, .returned true)
      else some (h, .threw)
  | .headers | .block => if env.fImporting || env.fReindex then some (h, .returned true)
      else some (h, .threw)
  | .notfound | .merkleblock | .reject | .unknown => some (h, .returned true)
  | .addr | .inv | .getdata | .getblocks | .getheaders | .stx | .ping | .filterload
  | .filteradd => some (h, .threw)

/-- **`ProcessMessage(pfrom, strCommand, vRecv, nTimeReceived)`.** -/
def processMessage (reads : Reads) (h : Handling) (msg : CNetMessage) :
    Option (Handling × Outcome) :=
  let command := msg.body.command
  if dropped env then some (h, .returned true)
  else if Nat.land h.node.nLocalServices env.params.NODE_BLOOM = 0 ∧ command.isFilter ∧
      env.params.NO_BLOOM_VERSION ≤ h.node.nVersion then
    some ({ h with logic := h.logic.misbehaving env h.node.id 100 }, .returned false)
  else if Nat.land h.node.nLocalServices env.params.NODE_BLOOM = 0 ∧ command.isFilter ∧
      env.args.enforcenodebloom then
    some ({ h with node := { h.node with fDisconnect := true } }, .returned false)
  else if command ≠ .version ∧ h.node.nVersion = 0 then
    some ({ h with logic := h.logic.misbehaving env h.node.id 1 }, .returned false)
  else match msg.body with
    | .wellFormed m => handleMessage env reads h msg.nTime m
    | .malformed command => handleMalformed env reads h msg.nTime command

/-- `SendRejectsAndCheckIfBanned(pnode)`: push the peer's block rejects, then act
on its ban flag, sparing whitelisted and `addnode` peers; the flag says whether
the peer was to be banned. The ban list is not modelled. -/
def sendRejectsAndCheckIfBanned (h : Handling) : Option (Handling × Bool) := do
  let state ← h.logic.registry.state h.node.id
  let node := state.rejects.foldl (fun node reject => node.pushMessage
    (.reject .block reject.chRejectCode reject.strRejectReason (some reject.hashBlock))) h.node
  let state := { state with rejects := [] }
  let fShouldBan := state.fShouldBan
  let state := { state with fShouldBan := false }
  let node := if fShouldBan && !node.fWhitelisted && !node.fAddnode then
      { node with fDisconnect := true }
    else node
  let logic := { h.logic with registry := h.logic.registry.setState h.node.id state }
  some ({ h with logic, node }, fShouldBan)

/-- The part of `ProcessMessages` after the message is taken: the transport's
verdicts, the dispatch, and the flush. -/
def processTaken (reads : Reads) (h : Handling) (msg : CNetMessage) (fMoreWork : Bool) :
    Option (Handling × Bool) := do
  if !msg.fMessageStartOk then return ({ h with node := { h.node with fDisconnect := true } }, false)
  if !msg.fHeaderValid || !msg.fChecksumOk then return (h, fMoreWork)
  let (h, outcome) ← processMessage env reads h msg
  match outcome with
  | .returned _ =>
      if reads.interruptedAfter then return (h, false)
      let (h, _) ← sendRejectsAndCheckIfBanned h
      some (h, fMoreWork || !h.node.vRecvGetData.isEmpty)
  | .threw =>
      let node := h.node.pushMessage
        (.reject msg.body.command REJECT_MALFORMED "error parsing message" none)
      let (h, _) ← sendRejectsAndCheckIfBanned { h with node }
      some (h, fMoreWork)

/-- The start of `ProcessMessages`: serve the queued `GETDATA` items, if any. -/
def serveQueued (reads : Reads) (h : Handling) : Option Handling :=
  if h.node.vRecvGetData.isEmpty then some h
  else processGetData env reads.pausedQueued reads.interruptedQueued h

/-- **`ProcessMessages(pfrom)`**: one call of the message thread on a connection;
the flag is `fMoreWork`. -/
def processMessages (reads : Reads) (h : Handling) : Option (Handling × Bool) := do
  let h ← serveQueued env reads h
  if h.node.fDisconnect then return (h, false)
  if !h.node.vRecvGetData.isEmpty then return (h, true)
  if reads.fPauseSend then return (h, false)
  match h.node.vProcessMsg with
  | [] => some (h, false)
  | msg :: rest =>
      processTaken env reads { h with node := { h.node with vProcessMsg := rest } } msg !rest.isEmpty

end Handling

end XuezNet
