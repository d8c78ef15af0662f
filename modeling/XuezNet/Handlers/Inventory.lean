import XuezNet.Download.Availability

/-! # Inventory: announcements and requests

The `INV`, `GETDATA`, `MEMPOOL` and `GETBLOCKS` branches of `ProcessMessage`,
and `ProcessGetData`, which serves the queued `GETDATA` items.

`ProcessGetData` reads `fPauseSend` and `interruptMsgProc` once per item; the
model takes the value of each read as an input (`paused n`, `interrupted n` at
the `n`-th item), so that every pattern of a full send buffer and of the
interrupt is covered. It serves items in queue order, stops after a block, and
erases the items it handled from the front of the queue, unless the interrupt
made it return first.
-/

namespace XuezNet

/-- Thirty days, in seconds. -/
def nOneMonth : Int := 30 * 24 * 60 * 60

/-- Seven days, in seconds. -/
def nOneWeek : Int := 7 * 24 * 60 * 60

namespace Handling

variable (env : Env)

/-- The decision of `ProcessGetData` to send a block: one on the active chain,
or a valid one within a month of the best header in time and in work. -/
def blockServable (hash : Hash) (block : CBlockIndex) : Bool :=
  env.chain.contains hash ||
    (block.fValidScripts &&
      match env.chain.pindexBestHeader.bind env.chain.mapBlockIndex, env.chain.pindexBestHeader with
      | some best, some bestHash =>
          decide (best.nTime - block.nTime < nOneMonth) &&
            decide (env.blockProofEquivalentTime bestHash hash < nOneMonth)
      | _, _ => false)

/-- The answer to a block item once it is read from disk: the block, or, for a
filtered block and a peer with a filter, the merkle block and the transactions
the filter matches. -/
def pushBlockData (node : CNode) (inv : CInv) (data : CBlock) : CNode :=
  if inv.type = .block then node.pushMessage (.block data)
  else if node.fHasFilter then
    (env.merkleMatches node.id data).foldl (fun node tx => node.pushMessage (.tx tx))
      (node.pushMessage (.merkleblock inv.hash))
  else node

/-- The trigger for the peer's next `GETBLOCKS` batch: after the block at
`hashContinue`, an inventory of the tip, and `hashContinue` cleared. -/
def continueBatch (node : CNode) (hash : Hash) : CNode :=
  if hash = node.hashContinue then
    { node.pushMessage (.inv [⟨.block, env.chain.tip⟩]) with hashContinue := 0 }
  else node

/-- One `MSG_BLOCK` or `MSG_FILTERED_BLOCK` item of `ProcessGetData`. -/
def serveBlock (h : Handling) (inv : CInv) : Option Handling :=
  match env.chain.mapBlockIndex inv.hash with
  | none => some h
  | some block =>
      let send := blockServable env inv.hash block
      let historical := match env.chain.pindexBestHeader.bind env.chain.mapBlockIndex with
        | some best => decide (nOneWeek < best.nTime - block.nTime)
        | none => false
      let limited := send && env.outboundTargetReached &&
        (historical || decide (inv.type = .filteredBlock)) && !h.node.fWhitelisted
      let node := if limited then { h.node with fDisconnect := true } else h.node
      if send && !limited && block.fHaveData then
        (env.readBlockFromDisk inv.hash).map fun data =>
          { h with node := continueBatch env (pushBlockData env node inv data) inv.hash }
      else some { h with node }

/-- One item of `ProcessGetData`; a transaction or service transaction not found
is added to `vNotFound`. -/
def serveItem (h : Handling) (vNotFound : List CInv) (inv : CInv) :
    Option (Handling × List CInv) :=
  match inv.type with
  | .block | .filteredBlock => (serveBlock env h inv).map (·, vNotFound)
  | .tx =>
      match h.logic.mapRelay.find? inv.hash with
      | some tx => some ({ h with node := h.node.pushMessage (.tx tx) }, vNotFound)
      | none => some (h, vNotFound ++ [inv])
  | .stx =>
      if env.stxExists inv.hash then
        some ({ h with node := { h.node.pushMessage (.stx inv.hash) with
          filterServiceDataKnown := h.node.filterServiceDataKnown.insert inv.hash () } }, vNotFound)
      else some (h, vNotFound ++ [inv])
  | .other => some (h, vNotFound)

/-- How a pass of `ProcessGetData`'s loop ended: after handling the first
`handled` items, with the items not found; or by the interrupt, returning at
once. -/
inductive GetDataExit
  | done (handled : Nat) (vNotFound : List CInv)
  | interrupted
  deriving DecidableEq, Repr

/-- The loop of `ProcessGetData` from the item at index `n`. -/
def serveLoop (paused interrupted : Nat → Bool) :
    Nat → List CInv → Handling → List CInv → Option (Handling × GetDataExit)
  | n, [], h, vNotFound => some (h, .done n vNotFound)
  | n, inv :: rest, h, vNotFound =>
      if paused n then some (h, .done n vNotFound)
      else if interrupted n then some (h, .interrupted)
      else do
        let h := { h with node := { h.node with getDataServed := h.node.getDataServed ++ [inv] } }
        let (h, vNotFound) ← serveItem env h vNotFound inv
        if inv.type = .block ∨ inv.type = .filteredBlock then some (h, .done (n + 1) vNotFound)
        else serveLoop paused interrupted (n + 1) rest h vNotFound

/-- **`ProcessGetData(pfrom)`**: serve the queued requests, then erase the ones
handled and report those not found. -/
def processGetData (paused interrupted : Nat → Bool) (h : Handling) : Option Handling := do
  let (h', exit) ← serveLoop env paused interrupted 0 h.node.vRecvGetData h []
  match exit with
  | .interrupted => some h'
  | .done handled vNotFound =>
      let node := { h'.node with vRecvGetData := h'.node.vRecvGetData.drop handled }
      some { h' with node := flushChunk .notfound node vNotFound }

/-- **The `GETDATA` branch**: refuse more than `MAX_INV_SZ` items, else queue
them and serve. -/
def processGetDataMessage (paused interrupted : Nat → Bool) (h : Handling) (vInv : List CInv) :
    Option (Handling × Bool) :=
  if MAX_INV_SZ < vInv.length then some ({ h with logic := h.logic.misbehaving env h.node.id 20 }, false)
  else
    let h := { h with node := { h.node with
      vRecvGetData := h.node.vRecvGetData ++ vInv
      getDataRequested := h.node.getDataRequested ++ vInv } }
    (processGetData env paused interrupted h).map (·, true)

/-- One block announcement of the `INV` loop: update the peer's availability,
and for a block that is new, not in flight and not being imported, ask for
headers and, when direct fetch is possible and the peer has room, request it at
once. The list is `vToFetch`. -/
def announceBlock (h : Handling) (vToFetch : List CInv) (inv : CInv) (fAlreadyHave : Bool) :
    Option (Handling × List CInv) := do
  let registry ← h.logic.registry.updateBlockAvailability env.chain h.node.id inv.hash
  let h := { h with logic := { h.logic with registry } }
  if !(!fAlreadyHave && !env.fImporting && !env.fReindex &&
      registry.mapBlocksInFlight.find? inv.hash = none) then return (h, vToFetch)
  let node := h.node.pushMessage
    (.getheaders (env.chain.getLocator (env.chain.pindexBestHeader.getD env.chain.tip)) inv.hash)
  let nodestate ← registry.state node.id
  let (logic, vToFetch) ←
    if env.canDirectFetch && decide (nodestate.nBlocksInFlight < MAX_BLOCKS_IN_TRANSIT_PER_PEER) then do
      let logic ← h.logic.markBlockAsInFlight env node.id inv.hash none
      some (logic, vToFetch ++ [inv])
    else some (h.logic, vToFetch)
  let _ ← env.chain.pindexBestHeader
  some ({ h with node, logic }, vToFetch)

/-- The loop of the `INV` branch from the entry at index `n`; the flag is the
value `ProcessMessage` returns. -/
def invLoop (fBlocksOnly : Bool) (interrupted : Nat → Bool) :
    Nat → List CInv → Handling → List CInv → Option (Handling × Bool)
  | _, [], h, vToFetch =>
      some ({ h with node := flushChunk .getdata h.node vToFetch }, true)
  | n, inv :: rest, h, vToFetch =>
      if interrupted n then some (h, true)
      else do
        let (logic, fAlreadyHave) := h.logic.alreadyHave env inv
        let h := { h with logic }
        if inv.type = .block then
          let (h, vToFetch) ← announceBlock env h vToFetch inv fAlreadyHave
          invLoop fBlocksOnly interrupted (n + 1) rest h vToFetch
        else
          let node := h.node.addInventoryKnown inv
          let node := if !fBlocksOnly && !fAlreadyHave && !env.fImporting && !env.fReindex &&
              !env.fInitialBlockDownload then node.askFor inv env.nTimeMicros else node
          invLoop fBlocksOnly interrupted (n + 1) rest { h with node } vToFetch

/-- **The `INV` branch.** -/
def processInv (interrupted : Nat → Bool) (h : Handling) (vInv : List CInv) :
    Option (Handling × Bool) :=
  if MAX_INV_SZ < vInv.length then some ({ h with logic := h.logic.misbehaving env h.node.id 20 }, false)
  else
    let fBlocksOnly := !env.fRelayTxes && !(h.node.fWhitelisted && env.args.whitelistrelay)
    invLoop env fBlocksOnly interrupted 0 vInv h []

/-- One transaction of the `MEMPOOL` answer: skipped when the peer has a filter
it does not match, else added to the chunk being built. -/
def mempoolInv (h : Handling) (acc : CNode × List CInv) (hash : Hash) : CNode × List CInv :=
  if acc.1.fHasFilter && !(h.logic.mempool.contains hash && env.relevantTx acc.1.id hash) then acc
  else chunkPush MAX_INV_SZ .inv acc.1 acc.2 ⟨.tx, hash⟩

/-- **The `MEMPOOL` branch**: announce the mempool's transactions, those the
peer's filter finds relevant when it has one, in `INV`s of at most `MAX_INV_SZ`
entries. -/
def processMempool (h : Handling) : Handling :=
  let vtxid := h.logic.mempool.entries.map Prod.fst
  let chunked := vtxid.foldl (mempoolInv env h) (h.node, [])
  { h with node := flushChunk .inv chunked.1 chunked.2 }

/-- The loop of the `GETBLOCKS` branch: announce the active chain from `pindex`
on, stopping at `hashStop` or after `nLimit` blocks, where the next batch is to
be asked for. -/
def getBlocksLoop (hashStop : Hash) : Nat → Option Hash → CNode → CNode
  | 0, _, node => node
  | _, none, node => node
  | nLimit + 1, some hash, node =>
      if hash = hashStop then node
      else
        let node := node.pushInventory ⟨.block, hash⟩
        if nLimit = 0 then { node with hashContinue := hash }
        else getBlocksLoop hashStop nLimit (env.chain.next hash) node

/-- **The `GETBLOCKS` branch**: from the block after the fork point of the
locator, announce up to 500 blocks. -/
def processGetBlocks (h : Handling) (locator : List Hash) (hashStop : Hash) : Handling :=
  let fork := env.chain.findForkInGlobalIndex locator
  { h with node := getBlocksLoop env hashStop 500 (env.chain.next fork) h.node }

end Handling

end XuezNet
