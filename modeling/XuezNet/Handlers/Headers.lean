import XuezNet.Download.Availability

/-! # Headers and blocks

The `GETHEADERS`, `HEADERS` and `BLOCK` branches of `ProcessMessage`.

`GETHEADERS` answers with at most `MAX_HEADERS_RESULTS` headers from the block
after the fork point (`headersReply`). `HEADERS` accepts the headers in order,
pipelines the next `GETHEADERS` after a full message, and, when the headers end
in a valid chain with at least our tip's work, fetches the missing blocks
directly: `directFetchWalk` collects the blocks back to the active chain that
are neither stored nor in flight, and `requestBlocks` requests them oldest
first while the peer has room. `BLOCK` releases the block's request, records
its source and hands it to validation.

Each returns the `bool` of `ProcessMessage`, and `none` where the code
dereferences `NULL` or fails an `assert`.
-/

namespace XuezNet

namespace ChainView

variable (chain : ChainView)

/-- `pindex->GetBlockHeader()`: the header as the index knows it. -/
def header (hash : Hash) : CBlockHeader := ⟨hash, (chain.pprev hash).getD 0⟩

/-- The loop of `GETHEADERS`: headers along the active chain from `pindex`, until
`hashStop` or `nLimit` headers; with the block it stopped at, `NULL` when it ran
off the tip. -/
def headersReply (hashStop : Hash) : Nat → Option Hash → List CBlockHeader →
    List CBlockHeader × Option Hash
  | 0, pindex, vHeaders => (vHeaders, pindex)
  | _ + 1, none, vHeaders => (vHeaders, none)
  | nLimit + 1, some hash, vHeaders =>
      let vHeaders := vHeaders ++ [chain.header hash]
      if nLimit = 0 ∨ hash = hashStop then (vHeaders, some hash)
      else headersReply hashStop nLimit (chain.next hash) vHeaders

/-- The `while` walk of the direct fetch, from `pindexWalk` back along `pprev`
while off the active chain and while `vToFetch` holds at most
`MAX_BLOCKS_IN_TRANSIT_PER_PEER` blocks, collecting those neither stored nor in
flight; with the block it stopped at. `fuel` bounds the steps. -/
def directFetchWalk (inFlight : StdMap Hash (NodeId × Nat)) :
    Nat → Option Hash → List Hash → Option (Option Hash × List Hash)
  | 0, _, _ => none
  | _ + 1, none, vToFetch => some (none, vToFetch)
  | fuel + 1, some walk, vToFetch =>
      if chain.contains walk ∨ MAX_BLOCKS_IN_TRANSIT_PER_PEER < vToFetch.length then
        some (some walk, vToFetch)
      else do
        let block ← chain.mapBlockIndex walk
        let vToFetch := if !block.fHaveData && inFlight.find? walk = none then vToFetch ++ [walk]
          else vToFetch
        directFetchWalk inFlight fuel block.pprev vToFetch

end ChainView

namespace Handling

variable (env : Env)

/-- **The `GETHEADERS` branch.** -/
def processGetHeaders (h : Handling) (locator : List Hash) (hashStop : Hash) :
    Option (Handling × Bool) :=
  if env.fInitialBlockDownload && !h.node.fWhitelisted then some (h, true)
  else if locator.isEmpty && (env.chain.mapBlockIndex hashStop).isNone then some (h, true)
  else do
    let pindex := if locator.isEmpty then some hashStop
      else env.chain.next (env.chain.findForkInGlobalIndex locator)
    let (vHeaders, last) := env.chain.headersReply hashStop MAX_HEADERS_RESULTS pindex []
    let nodestate ← h.logic.registry.state h.node.id
    let registry := h.logic.registry.setState h.node.id
      { nodestate with pindexBestHeaderSent := some (last.getD env.chain.tip) }
    some ({ h with
      logic := { h.logic with registry }
      node := h.node.pushMessage (.headers vHeaders) }, true)

/-- The loop over the received headers: check that each continues the last one
and submit it; the flag is `false` when the message is refused. -/
def acceptHeaders (logic : PeerLogic) (nodeid : NodeId) :
    Option Hash → List CBlockHeader → PeerLogic × Option Hash × Bool
  | pindexLast, [] => (logic, pindexLast, true)
  | pindexLast, header :: rest =>
      if pindexLast.isSome ∧ pindexLast ≠ some header.hashPrevBlock then
        (logic.misbehaving env nodeid 20, pindexLast, false)
      else
        let verdict := env.acceptBlockHeader header
        let pindexLast := verdict.pindex.orElse fun _ => pindexLast
        if !verdict.accepted && verdict.state.IsInvalid then
          (if 0 < verdict.state.nDoS then logic.misbehaving env nodeid verdict.state.nDoS else logic,
            pindexLast, false)
        else acceptHeaders logic nodeid pindexLast rest

/-- The request loop of the direct fetch, over the collected blocks oldest
first: stop once the peer has `MAX_BLOCKS_IN_TRANSIT_PER_PEER` blocks in flight,
else request the block. -/
def requestBlocks (nodeid : NodeId) :
    List Hash → PeerLogic → List CInv → Option (PeerLogic × List CInv)
  | [], logic, vGetData => some (logic, vGetData)
  | hash :: rest, logic, vGetData => do
      let nodestate ← logic.registry.state nodeid
      if MAX_BLOCKS_IN_TRANSIT_PER_PEER ≤ nodestate.nBlocksInFlight then return (logic, vGetData)
      let logic ← logic.markBlockAsInFlight env nodeid hash (some hash)
      requestBlocks nodeid rest logic (vGetData ++ [⟨.block, hash⟩])

/-- The direct fetch after a `HEADERS` message that ends at `last`. -/
def directFetch (h : Handling) (last : Hash) : Option Handling := do
  let block ← env.chain.mapBlockIndex last
  if !(block.fValidTree && decide (env.chain.nChainWork env.chain.tip ≤ block.nChainWork)) then
    return h
  let (pindexWalk, vToFetch) ← env.chain.directFetchWalk h.logic.registry.mapBlocksInFlight
    (block.nHeight + 2) (some last) []
  let walk ← pindexWalk
  if !env.chain.contains walk then return h
  let (logic, vGetData) ← requestBlocks env h.node.id vToFetch.reverse h.logic []
  some { h with logic, node := flushChunk .getdata h.node vGetData }

/-- **The `HEADERS` branch**, ignored while importing or reindexing. -/
def processHeaders (h : Handling) (headers : List CBlockHeader) : Option (Handling × Bool) :=
  if env.fImporting || env.fReindex then some (h, true)
  else if MAX_HEADERS_RESULTS < headers.length then
    some ({ h with logic := h.logic.misbehaving env h.node.id 20 }, false)
  else if headers.isEmpty then some (h, true)
  else do
    let (logic, pindexLast, fOk) := acceptHeaders env h.logic h.node.id none headers
    let h := { h with logic }
    if !fOk then return (h, false)
    let registry ← match pindexLast with
      | some last => h.logic.registry.updateBlockAvailability env.chain h.node.id last
      | none => some h.logic.registry
    let h := { h with logic := { h.logic with registry } }
    let node := match pindexLast with
      | some last =>
          if headers.length = MAX_HEADERS_RESULTS then
            h.node.pushMessage (.getheaders (env.chain.getLocator last) 0)
          else h.node
      | none => h.node
    let h := { h with node }
    if !env.canDirectFetch then return (h, true)
    let last ← pindexLast
    let h ← directFetch env h last
    some (h, true)

/-- **The `BLOCK` branch**, ignored while importing or reindexing: release the
block's request, record its source, and submit it. -/
def processBlock (h : Handling) (block : CBlock) : Option (Handling × Bool) :=
  if env.fImporting || env.fReindex then some (h, true)
  else do
    let hash := block.header.hash
    let (registry, fRequested) ← h.logic.registry.markBlockAsReceived hash env.nTimeMicros
    let forceProcessing := (h.node.fWhitelisted && !env.fInitialBlockDownload) || fRequested
    let logic := { h.logic with
      registry
      mapBlockSource := h.logic.mapBlockSource.emplace hash (h.node.id, true) }
    let state := env.processNewBlock block forceProcessing
    if !state.IsInvalid then return ({ h with logic }, true)
    if env.params.REJECT_INTERNAL ≤ state.chRejectCode then none
    let node := h.node.pushMessage (.reject .block (state.chRejectCode % 256)
      (state.strRejectReason.take env.params.MAX_REJECT_MESSAGE_LENGTH) (some hash))
    let logic := if 0 < state.nDoS then logic.misbehaving env h.node.id state.nDoS else logic
    some ({ h with logic, node }, true)

end Handling

end XuezNet
