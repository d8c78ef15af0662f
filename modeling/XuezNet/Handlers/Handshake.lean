import XuezNet.Node.PeerLogic

/-! # The version handshake

`PushNodeVersion`, `InitializeNode`, and the `VERSION` and `VERACK` branches of
`ProcessMessage`. Each branch returns the `bool` that `ProcessMessage` returns,
and `none` where the code dereferences a `NULL` state or fails an `assert`.

A `VERSION` is refused as a duplicate once `nVersion` is set, refused with a
disconnect for missing services or an obsolete version, and dropped with a
disconnect on a self-connection; otherwise it sets the send version, the peer's
services and flags, and only then `nVersion`. A `VERACK` marks the connection
successfully connected.
-/

namespace XuezNet

/-- The reason text of the services check: `Expected to offer services %08x`. -/
def servicesReason (nServicesExpected : Nat) : String :=
  let digits := Nat.toDigits 16 nServicesExpected
  "Expected to offer services " ++ String.mk (List.replicate (8 - digits.length) '0' ++ digits)

/-- The reason text of the version check: `Version must be %d or greater`. -/
def obsoleteReason (minProtoVersion : Int) : String :=
  "Version must be " ++ toString minProtoVersion ++ " or greater"

namespace Handling

variable (env : Env)

/-- `PushNodeVersion(pnode, nTime)`: our `VERSION`, with the local services,
nonce, starting height and relay flag. The address fields are not modelled. -/
def pushNodeVersion (node : CNode) (nTime : Int) : CNode :=
  node.pushMessage (.version ⟨env.params.PROTOCOL_VERSION, node.nLocalServices, nTime,
    ⟨0, node.nLocalServices, 0⟩, some env.localNonce, some env.strSubVersion,
    some env.nNodeStartingHeight, some env.fRelayTxes⟩)

/-- `InitializeNode(pnode)`: register the peer, and open the handshake on an
outbound connection. -/
def initializeNode (logic : PeerLogic) (node : CNode) : PeerLogic × CNode :=
  ({ logic with registry := logic.registry.initializeNode node.id },
    if !node.fInbound then pushNodeVersion env node env.nTime else node)

/-- The answer to an accepted `VERSION` and the announcement it records: our own
`VERSION` to an inbound peer, the `VERACK`, then the peer's services, sub-version,
starting height and flags, the send version, and last the version. -/
def recordVersion (node : CNode) (payload : VersionPayload) : CNode :=
  let node := if node.fInbound then pushNodeVersion env node env.nAdjustedTime else node
  let node := node.pushMessage .verack
  { node with
    nServices := payload.nServices
    strSubVer := payload.strSubVer.getD ""
    nStartingHeight := payload.nStartingHeight.getD (-1)
    fClient := Nat.land payload.nServices env.params.NODE_NETWORK = 0
    fRelayTxes := payload.fRelay.getD true
    nSendVersion := min payload.nVersion env.params.PROTOCOL_VERSION
    nVersion := payload.nVersion }

/-- The outbound part of an accepted `VERSION`: advertise our address when we
listen and are out of initial download, and ask for addresses when the
connection is one-shot or the address manager is short of them. -/
def requestAddresses (node : CNode) : CNode :=
  let node := if env.fListen && !env.fInitialBlockDownload then
      match env.advertisedAddress with
      | some addr => node.pushAddress addr
      | none => node
    else node
  if node.fOneShot || decide (env.nAddressCount < 1000) then
    { node.pushMessage .getaddr with fGetAddr := true }
  else node

/-- The part of the `VERSION` branch after the duplicate check, for a message
that passed the services and version checks: answer, record the peer's
announcement, set the version, and update the download preference. -/
def acceptVersion (h : Handling) (payload : VersionPayload) : Option (Handling × Bool) := do
  let nNonce := payload.nNonce.getD 1
  if h.node.fInbound && !env.checkIncomingNonce nNonce then
    return ({ h with node := { h.node with fDisconnect := true } }, true)
  let node := recordVersion env h.node payload
  let registry ← h.logic.registry.updatePreferredDownload node.id node.fInbound node.fWhitelisted
    node.fOneShot node.fClient
  let logic := { h.logic with registry }
  let node := if !node.fInbound then requestAddresses env node else node
  let node := { node with nTimeOffset := payload.nTime - env.nTime }
  if node.fFeeler then
    if node.fInbound then none
    else some ({ h with logic, node := { node with fDisconnect := true } }, true)
  else some ({ h with logic, node }, true)

/-- The answer to a second `VERSION`, given before its payload is read. -/
def rejectDuplicateVersion (h : Handling) : Handling :=
  { h with
    node := h.node.pushMessage (.reject .version REJECT_DUPLICATE "Duplicate version message" none)
    logic := h.logic.misbehaving env h.node.id 1 }

/-- **The `VERSION` branch.** -/
def processVersion (h : Handling) (payload : VersionPayload) : Option (Handling × Bool) :=
  if h.node.nVersion ≠ 0 then some (rejectDuplicateVersion env h, false)
  else if Nat.land h.node.nServicesExpected (Nat.xor payload.nServices 0xFFFFFFFFFFFFFFFF) ≠ 0 then
    some ({ h with node := { h.node.pushMessage (.reject .version REJECT_NONSTANDARD
      (servicesReason h.node.nServicesExpected) none) with fDisconnect := true } }, false)
  else if payload.nVersion < env.params.MIN_PROTO_VERSION then
    some ({ h with node := { h.node.pushMessage (.reject .version REJECT_OBSOLETE
      (obsoleteReason env.params.MIN_PROTO_VERSION) none) with fDisconnect := true } }, false)
  else acceptVersion env h payload

/-- **The `VERACK` branch**, reached once `nVersion` is set: fix the receive
version, mark an outbound peer as currently connected, ask for header
announcements, and mark the handshake complete. -/
def processVerack (h : Handling) : Option Handling := do
  let node := { h.node with nRecvVersion := min h.node.nVersion env.params.PROTOCOL_VERSION }
  let logic ← if !node.fInbound then do
      let nodeState ← h.logic.registry.state node.id
      let nodeState := { nodeState with fCurrentlyConnected := true }
      some { h.logic with registry := h.logic.registry.setState node.id nodeState }
    else some h.logic
  let node := if env.params.SENDHEADERS_VERSION ≤ node.nVersion then node.pushMessage .sendheaders
    else node
  some { h with logic, node := { node with fSuccessfullyConnected := true } }

end Handling

end XuezNet
