import XuezNet.Dispatch.ProcessMessages
import XuezNet.Download.FindNextBlocks

/-! # The outbound tick: `SendMessages`

`sendMessages` is one call of `SendMessages(pto)`, cut into the steps the code
takes in order: the handshake gate, the ping, the chain lock and the ban check,
the address broadcast (`sendAddresses`), the header sync start (`startSync`),
the block announcement (`announceBlocks`, with `headersToAnnounce` for the
headers it can send), the inventory (`sendInventory`, whose transaction trickle
`trickleTxs` also expires the relay map), the stall and timeout checks
(`stalling`), the block requests (`getDataBlocks`, `requestDownloads`) and the due requests of
the ask-for queue (`askForDue`).

The values the call draws or reads from elsewhere are inputs (`Tick`).
-/

namespace XuezNet

/-- The values one `SendMessages` call draws or reads: whether `TRY_LOCK(cs_main)`
succeeds, the ping nonce (the draw loop ends only on a nonzero one), and the
next send times `PoissonNextSend` returns. -/
structure Tick where
  fLockMain : Bool
  nonce : Nat
  nonce_pos : 0 < nonce
  nNextLocalAddrSend : Int
  nNextAddrSend : Int
  nNextInvSend : Int

namespace ChainView

variable (chain : ChainView)

/-- The loop of the headers announcement over `vBlockHashesToAnnounce`: the
headers to send, the last block looked at (`pBestIndex`), and whether to fall
back to an inventory; `none` where `assert` finds a hash missing from the index. -/
def headersToAnnounce (nodeState : CNodeState) :
    List Hash → Option Hash → Bool → List CBlockHeader →
      Option (List CBlockHeader × Option Hash × Bool)
  | [], pBestIndex, _, vHeaders => some (vHeaders, pBestIndex, false)
  | hash :: rest, pBestIndex, fFoundStartingHeader, vHeaders => do
      let block ← chain.mapBlockIndex hash
      if chain.at? block.nHeight ≠ some hash then return (vHeaders, pBestIndex, true)
      if pBestIndex.isSome ∧ block.pprev ≠ pBestIndex then return (vHeaders, pBestIndex, true)
      if fFoundStartingHeader then
        headersToAnnounce nodeState rest (some hash) true (vHeaders ++ [chain.header hash])
      else if nodeState.peerHasHeader chain hash then
        headersToAnnounce nodeState rest (some hash) false vHeaders
      else if block.pprev.all (nodeState.peerHasHeader chain) then
        headersToAnnounce nodeState rest (some hash) true (vHeaders ++ [chain.header hash])
      else return (vHeaders, some hash, true)

end ChainView

/-- Modelled from the spec: `AdvertiseLocal(pnode)` offers our address to a
connected peer when we listen. -/
def CNode.advertiseLocal (node : CNode) (fListen : Bool) (advertisedAddress : Option CAddress) :
    CNode :=
  match advertisedAddress with
  | some addr => if fListen then node.pushAddress addr else node
  | none => node

/-- The expiry loop of the relay map: drop the entries whose window ended
before `nNow`, from the front of the time-ordered queue. -/
def expireRelay (nNow : Int) :
    List (Int × Hash) → StdMap Hash CTransaction → List (Int × Hash) × StdMap Hash CTransaction
  | [], mapRelay => ([], mapRelay)
  | (nTime, hash) :: rest, mapRelay =>
      if nTime < nNow then expireRelay nNow rest (mapRelay.erase hash)
      else ((nTime, hash) :: rest, mapRelay)

namespace Handling

variable (env : Env)

/-- The ping: one queued by the user, or a keep-alive once `PING_INTERVAL` has
passed with no ping outstanding. -/
def sendPing (tick : Tick) (node : CNode) : CNode :=
  let pingSend := node.fPingQueued || (decide (node.nPingNonceSent = 0) &&
    decide (node.nPingUsecStart + env.params.PING_INTERVAL * 1000000 < env.nTimeMicros))
  if pingSend then
    { node.pushMessage (.ping tick.nonce) with
      fPingQueued := false
      nPingUsecStart := env.nTimeMicros
      nPingNonceSent := tick.nonce }
  else node

/-- One queued address of the broadcast: skip it when the peer knows it, else
mark it known and add it to the `ADDR` chunk. -/
def addrStep (acc : CNode × List CAddress) (addr : CAddress) : CNode × List CAddress :=
  if acc.1.addrKnown.contains addr.key then acc
  else chunkPushAtLeast 1000 .addr { acc.1 with addrKnown := acc.1.addrKnown.insert addr.key () } acc.2 addr

/-- The queued addresses the peer is not known to have, when the broadcast is
due, in `ADDR` messages of at most 1000. -/
def broadcastAddresses (tick : Tick) (node : CNode) : CNode :=
  if node.nNextAddrSend < env.nTimeMicros then
    let node := { node with nNextAddrSend := tick.nNextAddrSend }
    let sent := node.vAddrToSend.foldl addrStep (node, [])
    flushChunk .addr { sent.1 with vAddrToSend := [] } sent.2
  else node

/-- The address broadcast: the local address when due, then the queued
addresses. -/
def sendAddresses (tick : Tick) (node : CNode) : CNode :=
  broadcastAddresses env tick
    (if !env.fInitialBlockDownload && decide (node.nNextLocalAddrSend < env.nTimeMicros) then
      { node.advertiseLocal env.fListen env.advertisedAddress with
        nNextLocalAddrSend := tick.nNextLocalAddrSend }
    else node)

/-- The header sync start: ask one peer, or every peer once the best header is
within a day, for headers from the block before the best header. -/
def startSync (h : Handling) (state : CNodeState) (fFetch : Bool) : Option Handling := do
  let bestHeader := env.chain.pindexBestHeader.getD env.chain.tip
  if state.fSyncStarted || h.node.fClient || env.fImporting || env.fReindex then return h
  let best ← env.chain.mapBlockIndex bestHeader
  if !((decide (h.logic.registry.nSyncStarted = 0) && fFetch) ||
      decide (env.nAdjustedTime - 24 * 60 * 60 < best.nTime)) then return h
  let registry ← h.logic.registry.startSync h.node.id
  some { h with
    logic := { h.logic with registry }
    node := h.node.pushMessage (.getheaders (env.chain.getLocator (best.pprev.getD bestHeader)) 0) }

/-- The headers of the block announcement, when the peer prefers headers: send
them and record the last one as sent. The flag says whether to fall back to an
inventory. -/
def announceHeaders (h : Handling) (registry : Registry) (state : CNodeState) (vHeaders : List CBlockHeader)
    (pBestIndex : Option Hash) (fRevertToInv : Bool) : Handling × Bool :=
  if !fRevertToInv && !vHeaders.isEmpty then
    if state.fPreferHeaders then
      ({ h with
        node := h.node.pushMessage (.headers vHeaders)
        logic := { h.logic with
          registry := registry.setState h.node.id { state with pindexBestHeaderSent := pBestIndex } } },
        false)
    else (h, true)
  else (h, fRevertToInv)

/-- The inventory fallback of the block announcement: queue the last block to
announce, unless the peer has its header. -/
def announceInv (node : CNode) (state : CNodeState) (hashes : List Hash) (fRevertToInv : Bool) :
    Option CNode :=
  if fRevertToInv then
    match hashes.getLast? with
    | some hashToAnnounce => do
        let _ ← env.chain.mapBlockIndex hashToAnnounce
        some (if state.peerHasHeader env.chain hashToAnnounce then node
          else node.pushInventory ⟨.block, hashToAnnounce⟩)
    | none => some node
  else some node

/-- The block announcement: the headers the peer can connect when it prefers
headers, else an inventory of the last block to announce if the peer lacks it. -/
def announceBlocks (h : Handling) : Option Handling := do
  let registry ← h.logic.registry.processBlockAvailability env.chain h.node.id
  let h := { h with logic := { h.logic with registry } }
  let state ← registry.state h.node.id
  let hashes := h.node.vBlockHashesToAnnounce
  let fRevertToInv := (!state.fPreferHeaders && decide (1 < hashes.length)) ||
    decide (env.params.MAX_BLOCKS_TO_ANNOUNCE < hashes.length)
  let found ← (if fRevertToInv then some ([], none, true)
    else env.chain.headersToAnnounce state hashes none false [])
  let announced := announceHeaders h registry state found.1 found.2.1 found.2.2
  let node ← announceInv env announced.1.node state hashes announced.2
  some { announced.1 with node := { node with vBlockHashesToAnnounce := [] } }

/-- The transaction trickle over the candidates, largest hash first: skip those
the peer knows or the mempool lost, announce at most `INVENTORY_BROADCAST_MAX`,
expiring the relay map at each. -/
def trickleTxs (nNow : Int) : List Hash → Nat → Handling → List CInv → Handling × List CInv
  | [], _, h, vInv => (h, vInv)
  | hash :: rest, nRelayedTransactions, h, vInv =>
      if env.params.INVENTORY_BROADCAST_MAX ≤ nRelayedTransactions then (h, vInv)
      else
        let node := { h.node with setInventoryTxToSend := h.node.setInventoryTxToSend.erase hash }
        if node.filterInventoryKnown.contains hash || !h.logic.mempool.contains hash then
          trickleTxs nNow rest nRelayedTransactions { h with node } vInv
        else
          let expired := expireRelay nNow h.logic.vRelayExpiration h.logic.mapRelay
          let pushed := chunkPush MAX_INV_SZ .inv node vInv ⟨.tx, hash⟩
          trickleTxs nNow rest (nRelayedTransactions + 1)
            { h with
              logic := { h.logic with vRelayExpiration := expired.1, mapRelay := expired.2 }
              node := { pushed.1 with filterInventoryKnown := pushed.1.filterInventoryKnown.insert hash () } }
            pushed.2

/-- The service-transaction announcements, largest hash first: skip those the
peer knows, announce at most `INVENTORY_BROADCAST_MAX`. -/
def trickleStxs : List Hash → Nat → CNode → List CInv → CNode × List CInv
  | [], _, node, vInv => (node, vInv)
  | hash :: rest, nRelayedTransactions, node, vInv =>
      if env.params.INVENTORY_BROADCAST_MAX ≤ nRelayedTransactions then (node, vInv)
      else
        let node := { node with setInventoryStxToSend := node.setInventoryStxToSend.erase hash }
        if node.filterServiceDataKnown.contains hash then trickleStxs rest nRelayedTransactions node vInv
        else
          let pushed := chunkPush MAX_INV_SZ .inv node vInv ⟨.stx, hash⟩
          trickleStxs rest (nRelayedTransactions + 1) pushed.1 pushed.2

/-- One queued block of the inventory, added to the `INV` chunk. -/
def blockInvStep (acc : CNode × List CInv) (hash : Hash) : CNode × List CInv :=
  chunkPush MAX_INV_SZ .inv acc.1 acc.2 ⟨.block, hash⟩

/-- The trickle timer: whether transactions are announced now, with the timer
rescheduled once due and, for a peer that relays no transaction, the queue
dropped. -/
def trickleTimer (tick : Tick) (node : CNode) : Bool × CNode :=
  let fSendTrickle := node.fWhitelisted || decide (node.nNextInvSend < env.nTimeMicros)
  let node := if node.nNextInvSend < env.nTimeMicros then { node with nNextInvSend := tick.nNextInvSend }
    else node
  (fSendTrickle, if fSendTrickle && !node.fRelayTxes then { node with setInventoryTxToSend := ∅ } else node)

/-- The inventory: the queued blocks, the transaction trickle when due or for a
whitelisted peer, and the service transactions, in `INV` messages of at most
`MAX_INV_SZ`. -/
def sendInventory (tick : Tick) (h : Handling) : Handling :=
  let nNow := env.nTimeMicros
  let blocks := h.node.vInventoryBlockToSend.foldl blockInvStep (h.node, [])
  let timer := trickleTimer env tick { blocks.1 with vInventoryBlockToSend := [] }
  let node := timer.2
  let trickled := if timer.1 then
      trickleTxs env nNow (node.setInventoryTxToSend.entries.map Prod.fst).reverse 0 { h with node } blocks.2
    else ({ h with node }, blocks.2)
  let stxs := trickleStxs env (trickled.1.node.setInventoryStxToSend.entries.map Prod.fst).reverse 0
    trickled.1.node trickled.2
  { trickled.1 with node := flushChunk .inv stxs.1 stxs.2 }

/-- The stall and timeout checks: the peer has held the download window too
long, or its oldest block in flight is overdue. -/
def stalling (h : Handling) : Option Bool := do
  let nNow := env.nTimeMicros
  let state ← h.logic.registry.state h.node.id
  if state.nStallingSince ≠ 0 ∧
      state.nStallingSince < nNow - 1000000 * env.params.BLOCK_STALLING_TIMEOUT then return true
  if state.vBlocksInFlight.isEmpty then return false
  let tip ← env.chain.mapBlockIndex env.chain.tip
  let targetSpacing := if env.SERVICE_UPGRADE_HARDFORK < tip.nMedianTimePast then 150
    else env.nTargetSpacing
  let nOtherPeersWithValidatedDownloads := h.logic.registry.nPeersWithValidatedDownloads -
    if 0 < state.nBlocksInFlightValidHeaders then 1 else 0
  some (decide (state.nDownloadingSince + targetSpacing * (env.params.BLOCK_DOWNLOAD_TIMEOUT_BASE +
    env.params.BLOCK_DOWNLOAD_TIMEOUT_PER_PEER * nOtherPeersWithValidatedDownloads) < nNow))

/-- The requests for the blocks `FindNextBlocksToDownload` chose. -/
def requestDownloads (nodeid : NodeId) :
    List Hash → PeerLogic → List CInv → Option (PeerLogic × List CInv)
  | [], logic, vGetData => some (logic, vGetData)
  | hash :: rest, logic, vGetData => do
      let logic ← logic.markBlockAsInFlight env nodeid hash (some hash)
      requestDownloads nodeid rest logic (vGetData ++ [⟨.block, hash⟩])

/-- The stall mark of the block requests: when the peer has nothing in flight
after them, the peer the scan waited for is marked as stalling since now, unless
it already is. -/
def markStaller (nodeid staller : NodeId) (logic : PeerLogic) : Option PeerLogic := do
  let state ← logic.registry.state nodeid
  if state.nBlocksInFlight = 0 ∧ staller ≠ -1 then do
    let stallerState ← logic.registry.state staller
    some (if stallerState.nStallingSince = 0 then
        { logic with
          registry := logic.registry.setState staller { stallerState with nStallingSince := env.nTimeMicros } }
      else logic)
  else some logic

/-- The block requests: up to the peer's room, from `FindNextBlocksToDownload`;
with nothing in flight, mark the staller it reports. -/
def getDataBlocks (h : Handling) (fFetch : Bool) : Option (Handling × List CInv) := do
  let state ← h.logic.registry.state h.node.id
  if !h.node.fClient && (fFetch || !env.fInitialBlockDownload) &&
      decide (state.nBlocksInFlight < MAX_BLOCKS_IN_TRANSIT_PER_PEER) then do
    let found ← h.logic.registry.findNextBlocksToDownload env.params env.chain h.node.id
      (MAX_BLOCKS_IN_TRANSIT_PER_PEER - state.nBlocksInFlight).toNat [] (-1)
    let requested ← requestDownloads env h.node.id found.2.1 { h.logic with registry := found.1 } []
    let logic ← markStaller env h.node.id found.2.2 requested.1
    some ({ h with logic }, requested.2)
  else some (h, [])

/-- One due request of the ask-for queue: forget an object that is already
here, skip one the peer sent as a service transaction, and add the rest to the
`GETDATA` chunk, pushed once it holds 1000 items. -/
def askForStep (h : Handling) (vGetData : List CInv) (inv : CInv) : Handling × List CInv :=
  let checked := h.logic.alreadyHave env inv
  let h := { h with logic := checked.1 }
  if checked.2 then ({ h with node := { h.node with setAskFor := h.node.setAskFor.erase inv.hash } }, vGetData)
  else if h.node.filterServiceDataKnown.contains inv.hash then (h, vGetData)
  else
    let pushed := chunkPushAtLeast 1000 .getdata h.node vGetData inv
    ({ h with node := pushed.1 }, pushed.2)

/-- The ask-for queue: each request due by `nNow`, in time order, is sent unless
the object is already here or the peer sent it as a service transaction, in
`GETDATA` messages of at most 1000 after the block requests. -/
def askForDue (nNow : Int) : List (Int × CInv) → Handling → List CInv → Handling × List CInv
  | [], h, vGetData => ({ h with node := { h.node with mapAskFor := [] } }, vGetData)
  | (nRequestTime, inv) :: rest, h, vGetData =>
      if nNow < nRequestTime then
        ({ h with node := { h.node with mapAskFor := (nRequestTime, inv) :: rest } }, vGetData)
      else
        let stepped := askForStep env h vGetData inv
        askForDue nNow rest stepped.1 stepped.2

/-- The `GETDATA` messages of the tick: the block requests, then the due
entries of the ask-for queue, in messages of 1000 items and the rest. -/
def requestData (h : Handling) (fFetch : Bool) : Option Handling := do
  let fetched ← getDataBlocks env h fFetch
  let asked := askForDue env env.nTimeMicros fetched.1.node.mapAskFor fetched.1 fetched.2
  some { asked.1 with node := flushChunk .getdata asked.1.node asked.2 }

/-- The part of `SendMessages` under `cs_main` for a peer not banned: the
addresses, the sync start, the block announcement, the inventory, the stall
check and the `GETDATA` messages. -/
def sendLocked (tick : Tick) (h : Handling) : Option Handling := do
  let h := { h with node := sendAddresses env tick h.node }
  let state ← h.logic.registry.state h.node.id
  let fFetch := state.fPreferredDownload ||
    (decide (h.logic.registry.nPreferredDownload = 0) && !h.node.fClient && !h.node.fOneShot)
  let h ← startSync env h state fFetch
  let h ← announceBlocks env h
  let h := sendInventory env tick h
  let stalled ← stalling env h
  if stalled then some { h with node := { h.node with fDisconnect := true } }
  else requestData env h fFetch

/-- **`SendMessages(pto)`**. -/
def sendMessages (tick : Tick) (h : Handling) : Option Handling :=
  if !h.node.fSuccessfullyConnected || h.node.fDisconnect then some h
  else
    let h := { h with node := sendPing env tick h.node }
    if !tick.fLockMain then some h
    else do
      let checked ← sendRejectsAndCheckIfBanned h
      if checked.2 then some checked.1 else sendLocked env tick checked.1

end Handling

end XuezNet
