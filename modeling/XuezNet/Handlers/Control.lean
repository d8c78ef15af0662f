import XuezNet.Node.PeerLogic

/-! # Addresses, pings, filters and service transactions

The smaller branches of `ProcessMessage`: `ADDR`, `SENDHEADERS`, `GETADDR`,
`PING`, `PONG`, `FILTERLOAD`, `FILTERADD`, `FILTERCLEAR` and `STX`. The address
manager is not modelled: the addresses `ADDR` would store are dropped, and the
relays it queues are applied by the caller.
-/

namespace XuezNet

/-- `MAX_SCRIPT_ELEMENT_SIZE`: the largest data item `FILTERADD` accepts. -/
def MAX_SCRIPT_ELEMENT_SIZE : Nat := 520

namespace Handling

variable (env : Env)

/-- One address of the `ADDR` loop: skip it without the required services, clamp
its time, remember that the peer knows it, and queue a relay for a fresh
routable one from a short message. -/
def receiveAddress (fRelayCandidate : Bool) (h : Handling) (addr : CAddress) : Handling :=
  if Nat.land addr.nServices env.params.REQUIRED_SERVICES ≠ env.params.REQUIRED_SERVICES then h
  else
    let nNow := env.nAdjustedTime
    let addr := if addr.nTime ≤ 100000000 ∨ nNow + 10 * 60 < addr.nTime then
        { addr with nTime := nNow - 5 * 24 * 60 * 60 }
      else addr
    let node := { h.node with addrKnown := h.node.addrKnown.insert addr.key () }
    let relay := decide (nNow - 10 * 60 < addr.nTime) && !h.node.fGetAddr && fRelayCandidate &&
      env.isRoutable addr
    { h with node, relays := if relay then h.relays ++ [.address addr (env.isReachable addr)] else h.relays }

/-- **The `ADDR` branch.** -/
def processAddr (h : Handling) (vAddr : List CAddress) : Handling × Bool :=
  if 1000 < env.nAddressCount then (h, true)
  else if 1000 < vAddr.length then ({ h with logic := h.logic.misbehaving env h.node.id 20 }, false)
  else
    let h := vAddr.foldl (receiveAddress env (decide (vAddr.length ≤ 10))) h
    let node := if vAddr.length < 1000 then { h.node with fGetAddr := false } else h.node
    ({ h with node := if node.fOneShot then { node with fDisconnect := true } else node }, true)

/-- **The `SENDHEADERS` branch.** -/
def processSendHeaders (h : Handling) : Option Handling := do
  let nodeState ← h.logic.registry.state h.node.id
  some { h with logic := { h.logic with
    registry := h.logic.registry.setState h.node.id { nodeState with fPreferHeaders := true } } }

/-- **The `GETADDR` branch**, taken for an inbound peer only: answer once per
connection with the address manager's sample. -/
def processGetAddr (h : Handling) : Handling :=
  if h.node.fSentAddr then h
  else
    let node := { h.node with fSentAddr := true, vAddrToSend := [] }
    { h with node := env.addresses.foldl CNode.pushAddress node }

/-- **The `PONG` branch**, received at `pingUsecEnd`; `none` is a payload too
short for a nonce. -/
def processPong (h : Handling) (pingUsecEnd : Int) : Option Nat → Handling
  | none => { h with node := { h.node with nPingNonceSent := 0 } }
  | some nonce =>
      if h.node.nPingNonceSent = 0 then h
      else if nonce = h.node.nPingNonceSent then
        let pingUsecTime := pingUsecEnd - h.node.nPingUsecStart
        let node := if 0 < pingUsecTime then
            { h.node with
              nPingUsecTime := pingUsecTime
              nMinPingUsecTime := min h.node.nMinPingUsecTime pingUsecTime }
          else h.node
        { h with node := { node with nPingNonceSent := 0 } }
      else if nonce = 0 then { h with node := { h.node with nPingNonceSent := 0 } }
      else h

/-- **The `FILTERLOAD` branch.** -/
def processFilterLoad (h : Handling) (withinSizeConstraints : Bool) : Handling :=
  let h := if withinSizeConstraints then { h with node := { h.node with fHasFilter := true } }
    else { h with logic := h.logic.misbehaving env h.node.id 100 }
  { h with node := { h.node with fRelayTxes := true } }

/-- **The `FILTERADD` branch**: an item over `MAX_SCRIPT_ELEMENT_SIZE` bytes, or
one sent without a filter, costs 100. -/
def processFilterAdd (h : Handling) (size : Nat) : Handling :=
  if MAX_SCRIPT_ELEMENT_SIZE < size || !h.node.fHasFilter then
    { h with logic := h.logic.misbehaving env h.node.id 100 }
  else h

/-- **The `FILTERCLEAR` branch**: the filter is replaced by an empty one. -/
def processFilterClear (h : Handling) : Handling :=
  { h with node := { h.node with fHasFilter := true, fRelayTxes := true } }

/-- **The `STX` branch**: relay a service transaction that checks out; answer an
invalid one with a `REJECT` and its DoS score. -/
def processStx (h : Handling) (hash : Hash) : Handling × Bool :=
  match env.checkServiceTransaction hash with
  | .nullReference => (h, false)
  | .noPayment => (h, true)
  | .checked true _ => ({ h with relays := h.relays ++ [.stx hash] }, true)
  | .checked false state =>
      if state.IsInvalid then
        let node := if 0 < state.chRejectCode ∧ state.chRejectCode < env.params.REJECT_INTERNAL then
            h.node.pushMessage (.reject .stx (state.chRejectCode % 256)
              (state.strRejectReason.take env.params.MAX_REJECT_MESSAGE_LENGTH) (some hash))
          else h.node
        let logic := if 0 < state.nDoS then h.logic.misbehaving env h.node.id state.nDoS
          else h.logic
        ({ h with logic, node }, true)
      else (h, true)

end Handling

end XuezNet
