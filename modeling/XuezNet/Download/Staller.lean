import XuezNet.Download.Walk

/-! # The staller `FindNextBlocksToDownload` reports

Besides the blocks to request, `FindNextBlocksToDownload` reports the peer that
holds the download back: while it walks the window it remembers, in
`waitingfor`, the holder of the first block it finds in flight, and when it
reaches the window's end with nothing collected it names that peer in
`nodeStaller` (the block past the end would be requested if the window were one
larger). `SendMessages` then marks the peer as stalling, and disconnects it if
the mark grows old.

Over the plain walk, which meets the ancestors of the best known block one
height at a time, `waitingfor` is `-1` while the walk has met no block it waits
for, and then the holder of the lowest one (`DownloadScan.Waiting`, kept block
by block by `Waiting.scanBlock`). The staller changes only at the window's end.
So the staller reported is the one given, or, with no block collected, `-1` or
another peer than the one scanned for: the holder of the lowest block of the
window in flight (`findNextBlocksToDownload_staller`). The function never names
the peer itself, nor a peer with nothing in flight.
-/

namespace XuezNet

namespace DownloadScan

variable (chain : ChainView) (inFlight : StdMap Hash (NodeId × Nat))

/-- A peer the scan may name as the staller: `-1`, for none, or a peer with a
block in flight. -/
def Holder (id : NodeId) : Prop :=
  id = -1 ∨ ∃ hash node, inFlight.find? hash = some (id, node)

/-- A block the scan waits for: indexed with a valid tree, neither downloaded
nor on the active chain, and in flight from the peer `owner` (not `-1`, which
stands for no peer). -/
def Waits (owner : NodeId) (hash : Hash) : Prop :=
  owner ≠ -1 ∧ ∃ block, chain.mapBlockIndex hash = some block ∧ block.fValidTree = true ∧
    (block.fHaveData = false ∧ chain.contains hash = false) ∧ ∃ node, inFlight.find? hash = some (owner, node)

/-- No ancestor of `bestKnown` at the heights from `low + 1` to `high` is a block
the scan waits for. -/
def Unwaited (bestKnown : Hash) (low high : Nat) : Prop :=
  ∀ height hash owner, low < height → height ≤ high → chain.getAncestor bestKnown height = some hash →
    ¬Waits chain inFlight owner hash

/-- The peer waited for once the walk has met the ancestors of `bestKnown` at
the heights from `low + 1` to `high`: `-1` when it waits for none of them, else
the holder of the lowest one it waits for. -/
def Waiting (bestKnown : Hash) (low high : Nat) (waitingfor : NodeId) : Prop :=
  waitingfor = -1 ∧ Unwaited chain inFlight bestKnown low high ∨
    ∃ height hash, low < height ∧ height ≤ high ∧ chain.getAncestor bestKnown height = some hash ∧
      Waits chain inFlight waitingfor hash ∧ Unwaited chain inFlight bestKnown low (height - 1)

variable {chain inFlight} {nodeid : NodeId} {count nWindowEnd : Nat} {bestKnown hash : Hash} {low high : Nat}

theorem Unwaited.succ (unwaited : Unwaited chain inFlight bestKnown low high)
    (top : chain.getAncestor bestKnown (high + 1) = some hash) (idle : ∀ owner, ¬Waits chain inFlight owner hash) :
    Unwaited chain inFlight bestKnown low (high + 1) := fun height hash' owner above below found => by
  rcases Nat.lt_or_ge height (high + 1) with lower | top'
  · exact unwaited height hash' owner above (by omega) found
  · obtain rfl : height = high + 1 := by omega
    rw [top] at found
    cases found
    exact idle owner

/-- The peer waited for stays so when the walk meets one more block, unless it
was none and the block is one the scan waits for. -/
theorem Waiting.succ {waitingfor : NodeId} (waiting : Waiting chain inFlight bestKnown low high waitingfor)
    (top : chain.getAncestor bestKnown (high + 1) = some hash)
    (idle : waitingfor = -1 → ∀ owner, ¬Waits chain inFlight owner hash) :
    Waiting chain inFlight bestKnown low (high + 1) waitingfor := by
  rcases waiting with ⟨none, unwaited⟩ | ⟨height, held, above, below, found, waits, unwaited⟩
  · exact .inl ⟨none, unwaited.succ top (idle none)⟩
  · exact .inr ⟨height, held, above, by omega, found, waits, unwaited⟩

/-- Waiting for none, the walk met no block it waits for. -/
theorem Waiting.unwaited (waiting : Waiting chain inFlight bestKnown low high (-1)) :
    Unwaited chain inFlight bestKnown low high := by
  rcases waiting with ⟨-, unwaited⟩ | ⟨-, -, -, -, -, ⟨real, -⟩, -⟩
  exacts [unwaited, absurd rfl real]

theorem Waiting.holder {waitingfor : NodeId} (waiting : Waiting chain inFlight bestKnown low high waitingfor) :
    Holder inFlight waitingfor := by
  rcases waiting with ⟨none, -⟩ | ⟨-, held, -, -, -, ⟨-, -, -, -, -, node, found⟩, -⟩
  exacts [.inl none, .inr ⟨held, node, found⟩]

/-- **One block of the walk and the peer waited for**: met at the height above
`high`, it leaves the peer waited for as `Waiting` says, and the scan names a
new staller only past the window's end, with nothing collected: the peer waited
for, if it is not `nodeid`. -/
theorem Waiting.scanBlock {scan scan' : DownloadScan} {stop : Bool}
    (top : chain.getAncestor bestKnown (high + 1) = some hash)
    (ran : scanBlock chain inFlight nodeid count nWindowEnd scan hash = some (scan', stop))
    (waiting : Waiting chain inFlight bestKnown low high scan.waitingfor) (above : low ≤ high) :
    Waiting chain inFlight bestKnown low (high + 1) scan'.waitingfor ∧
      (scan'.nodeStaller = scan.nodeStaller ∨ nWindowEnd < high + 1 ∧ stop = true ∧ scan'.vBlocks = [] ∧
        scan'.nodeStaller ≠ nodeid ∧ scan'.nodeStaller = scan.waitingfor) := by
  have height := chain.getAncestor_height top
  have waits : ∀ {owner}, Waits chain inFlight owner hash → ∃ block, chain.mapBlockIndex hash = some block ∧
      block.fValidTree = true ∧ (block.fHaveData = false ∧ chain.contains hash = false) ∧
      ∃ node, inFlight.find? hash = some (owner, node) := fun waits => waits.2
  cases scanBlock_eq_some_iff.mp ran with
  | invalid found invalid =>
      refine ⟨waiting.succ top fun _ owner held => ?_, .inl rfl⟩
      obtain ⟨block, found', valid, -⟩ := waits held
      cases found.symm.trans found'
      exact Bool.false_ne_true (invalid.symm.trans valid)
  | stored found valid stored =>
      refine ⟨waiting.succ top fun _ owner held => ?_, .inl rfl⟩
      obtain ⟨block', found', -, ⟨data, contained⟩, -⟩ := waits held
      cases found.symm.trans found'
      rcases stored with stored | stored
      exacts [Bool.false_ne_true (data.symm.trans stored), Bool.false_ne_true (contained.symm.trans stored)]
  | beyond found valid missing idle beyond =>
      refine ⟨waiting.succ top fun _ owner held => ?_, ?_⟩
      · obtain ⟨-, -, -, -, node, held⟩ := waits held
        cases idle.symm.trans held
      · dsimp only
        split_ifs with reported
        · rw [chain.nHeight_of_found found] at height
          exact .inr ⟨by omega, rfl, reported.1, reported.2, rfl⟩
        · exact .inl rfl
  | collected found valid missing idle within =>
      refine ⟨waiting.succ top fun _ owner held => ?_, .inl rfl⟩
      obtain ⟨-, -, -, -, node, held⟩ := waits held
      cases idle.symm.trans held
  | @waiting block owner node found valid missing held =>
      refine ⟨?_, .inl rfl⟩
      dsimp only
      split_ifs with none
      · rw [none] at waiting
        by_cases real : owner = -1
        · rw [real]
          refine waiting.succ top fun _ owner' waits' => waits'.1 ?_
          obtain ⟨-, -, -, -, node', held'⟩ := waits waits'
          rw [held] at held'
          cases held'
          exact real
        · exact .inr ⟨high + 1, hash, by omega, le_rfl, top, ⟨real, block, found, valid, missing, node, held⟩,
            waiting.unwaited⟩
      · exact waiting.succ top fun none' => absurd none' none

/-- **The plain walk and the staller**: from a walk height at or above `low`
and up to the window's end, with the peer waited for as `Waiting` says, the walk
keeps the staller, or names, with nothing collected, a staller other than
`nodeid`: the peer waited for over the whole window. -/
theorem walkBlocks_staller :
    ∀ {n : Nat} {scan scan' : DownloadScan} {walkHeight : Nat} {stop : Bool},
      walkBlocks chain inFlight nodeid count nWindowEnd bestKnown n scan walkHeight = some (scan', stop) →
      low ≤ walkHeight → walkHeight + n ≤ nWindowEnd + 1 →
      Waiting chain inFlight bestKnown low walkHeight scan.waitingfor →
      scan'.nodeStaller = scan.nodeStaller ∨ scan'.vBlocks = [] ∧ scan'.nodeStaller ≠ nodeid ∧
        Waiting chain inFlight bestKnown low nWindowEnd scan'.nodeStaller
  | 0, _, _, _, _, ran, _, _, _ => by
      cases ran
      exact .inl rfl
  | n + 1, scan, scan', walkHeight, stop, ran, above, within, waiting => by
      unfold walkBlocks at ran
      obtain ⟨hash, top, ran⟩ := Option.bind_eq_some.mp ran
      obtain ⟨⟨mid, stopped⟩, step, ran⟩ := Option.bind_eq_some.mp ran
      dsimp only at ran
      obtain ⟨midWaiting, kept | ⟨beyond, rfl, empty, reported, named⟩⟩ := waiting.scanBlock top step above
      · cases stopped
        · rw [if_neg Bool.false_ne_true] at ran
          rw [← kept]
          exact walkBlocks_staller ran (by omega) (by omega) midWaiting
        · rw [if_pos rfl] at ran
          cases ran
          exact .inl kept
      · rw [if_pos rfl] at ran
        cases ran
        obtain rfl : walkHeight = nWindowEnd := by omega
        exact .inr ⟨empty, reported, named ▸ waiting⟩

end DownloadScan

namespace Registry

variable {params : Params} {chain : ChainView} {registry : Registry} {nodeid : NodeId} {count : Nat}
  {vBlocks : List Hash} {nodeStaller : NodeId} {result : Registry × List Hash × NodeId}

/-- `FindNextBlocksToDownload` writes the state of `nodeid` only, and neither
its list of blocks in flight nor the index of blocks in flight. -/
theorem findNextBlocksToDownload_frame
    (found : registry.findNextBlocksToDownload params chain nodeid count vBlocks nodeStaller = some result) :
    result.1.mapBlocksInFlight = registry.mapBlocksInFlight ∧
      (∀ other, other ≠ nodeid → result.1.state other = registry.state other) ∧
      ∀ {nodeState}, registry.state nodeid = some nodeState →
        ∃ nodeState', result.1.state nodeid = some nodeState' ∧
          nodeState'.vBlocksInFlight = nodeState.vBlocksInFlight := by
  rcases findNextBlocksToDownload_cases found with
    rfl | ⟨registry', nodeState, updated, known, rest⟩
  · exact ⟨rfl, fun _ _ => rfl, fun found => ⟨_, found, rfl⟩⟩
  obtain ⟨old, oldFound, updated⟩ := Option.bind_eq_some.mp updated
  cases updated
  rw [state_setState, if_pos rfl] at known
  cases known
  have others : ∀ other, other ≠ nodeid →
      (registry.setState nodeid (old.processBlockAvailability chain)).state other = registry.state other :=
    fun other ne => by rw [state_setState, if_neg ne]
  have queue : ∀ {nodeState}, registry.state nodeid = some nodeState →
      (old.processBlockAvailability chain).vBlocksInFlight = nodeState.vBlocksInFlight := fun found => by
    rw [oldFound] at found
    cases found
    exact (CNodeState.processBlockAvailability_queue chain old).1
  rcases rest with rfl | ⟨lastCommon, written, -⟩
  · exact ⟨rfl, others, fun found => ⟨_, by rw [state_setState, if_pos rfl], queue found⟩⟩
  · rw [written]
    exact ⟨rfl, fun other ne => by rw [state_setState, if_neg ne, others other ne],
      fun found => ⟨{ old.processBlockAvailability chain with pindexLastCommonBlock := some lastCommon },
        by rw [state_setState, if_pos rfl], queue found⟩⟩

/-- The staller `FindNextBlocksToDownload` returns: the one given, or, with
no block collected, a peer other than `nodeid`, the one waited for over the
window the plain walk scans from the last common block. -/
theorem findNextBlocksToDownload_waiting
    (found : registry.findNextBlocksToDownload params chain nodeid count vBlocks nodeStaller = some result) :
    result.2.2 = nodeStaller ∨
      result.2.1 = [] ∧ result.2.2 ≠ nodeid ∧ DownloadScan.Holder registry.mapBlocksInFlight result.2.2 ∧
      ∃ nodeState bestKnown lastCommon,
        (registry.processBlockAvailability chain nodeid).bind (·.state nodeid) = some nodeState ∧
        nodeState.pindexBestKnownBlock = some bestKnown ∧
        ((nodeState.pindexLastCommonBlock <|> chain.at? (min (chain.nHeight bestKnown) chain.height)).bind
          fun guess => (chain.lastCommonAncestor guess bestKnown).join) = some lastCommon ∧
        DownloadScan.Waiting chain registry.mapBlocksInFlight bestKnown (chain.nHeight lastCommon)
          (chain.nHeight lastCommon + params.BLOCK_DOWNLOAD_WINDOW) result.2.2 := by
  rw [findNextBlocksToDownload_eq_plain] at found
  rcases findNextBlocksPlain_cases found with given | ⟨nodeState, bestKnown, lastCommon, scan, stop, known, best,
    -, common, ran, returned⟩
  · exact .inl (congrArg Prod.snd given)
  have none : DownloadScan.Waiting chain registry.mapBlocksInFlight bestKnown (chain.nHeight lastCommon)
      (chain.nHeight lastCommon) (-1) := .inl ⟨rfl, fun _ _ _ above below => absurd below (Nat.not_le.mpr above)⟩
  rw [returned]
  rcases DownloadScan.walkBlocks_staller ran le_rfl (by omega) none with kept | ⟨empty, reported, waiting⟩
  · exact .inl kept
  exact .inr ⟨empty, reported, waiting.holder, nodeState, bestKnown, lastCommon, known, best, common, waiting⟩

/-- **The staller `FindNextBlocksToDownload` reports** is the one it was given,
or, when it returns no block, `-1` or a peer other than `nodeid` with a block in
flight: `-1` when the walk over the window, from the last common block along
the ancestors of the peer's best known block, met no block in flight from a
peer that it could not take as downloaded, else the holder of the lowest such
block. -/
theorem findNextBlocksToDownload_staller
    (found : registry.findNextBlocksToDownload params chain nodeid count vBlocks nodeStaller = some result) :
    result.2.2 = nodeStaller ∨
      result.2.1 = [] ∧ result.2.2 ≠ nodeid ∧ DownloadScan.Holder registry.mapBlocksInFlight result.2.2 ∧
      ∃ nodeState bestKnown lastCommon,
        (registry.processBlockAvailability chain nodeid).bind (·.state nodeid) = some nodeState ∧
        nodeState.pindexBestKnownBlock = some bestKnown ∧
        ((nodeState.pindexLastCommonBlock <|> chain.at? (min (chain.nHeight bestKnown) chain.height)).bind
          fun guess => (chain.lastCommonAncestor guess bestKnown).join) = some lastCommon ∧
        DownloadScan.Waiting chain registry.mapBlocksInFlight bestKnown (chain.nHeight lastCommon)
          (chain.nHeight lastCommon + params.BLOCK_DOWNLOAD_WINDOW) result.2.2 :=
  findNextBlocksToDownload_waiting found

end Registry

/-- The parameters with a download window of one block. -/
def Params.shortWindow : Params := { Params.sample with BLOCK_DOWNLOAD_WINDOW := 1 }

/-- A genesis `1` on the active chain, and the headers of its child `2` and
grandchild `3`, whose blocks have not arrived. -/
def ChainView.stalled : ChainView where
  mapBlockIndex hash :=
    if hash = 1 then some ⟨0, none, 1, 1, true, true, true, 0, 0⟩
    else if hash = 2 then some ⟨1, some 1, 2, 0, false, true, false, 0, 0⟩
    else if hash = 3 then some ⟨2, some 2, 3, 0, false, true, false, 0, 0⟩ else none
  vChain := [1]
  pindexBestHeader := some 3
  getLocator _ := [1]
  prev_height {hash block parent} found linked := by
    dsimp only at found
    split_ifs at found <;> cases found <;> cases linked
    · exact ⟨_, rfl, rfl⟩
    · exact ⟨_, rfl, rfl⟩
  root_height {hash block} found unlinked := by
    dsimp only at found
    split_ifs at found <;> cases found
    · rfl
    · cases unlinked
    · cases unlinked
  chain_nonempty := List.cons_ne_nil _ _
  chain_height {height hash} found := by
    cases height with
    | zero =>
        cases found
        exact ⟨_, rfl, rfl⟩
    | succ height => cases found
  chain_linked {height hash} found := by cases found

/-- Peer `1` has announced the header `3`, and peer `2` has the block `2` in
flight. -/
def Registry.stalling : Registry :=
  (((Registry.empty.initializeNode 1).initializeNode 2).setState 1
    { CNodeState.initial with pindexBestKnownBlock := some 3 }).queueBlock 2 CNodeState.initial 2 (some 2) 0

/-- With the window one block long, block `3` lies past its end, and the walk
names peer `2`, which holds block `2`, as the staller. -/
theorem Registry.findNextBlocksToDownload_staller_stalled :
    ∃ result, Registry.stalling.findNextBlocksToDownload Params.shortWindow ChainView.stalled 1 16 [] (-1) =
        some result ∧ result.2 = ([], 2) ∧
      (result.2.2 = -1 ∨ result.2.1 = [] ∧ result.2.2 ≠ 1 ∧
        DownloadScan.Holder Registry.stalling.mapBlocksInFlight result.2.2 ∧
        ∃ nodeState bestKnown lastCommon,
          (Registry.stalling.processBlockAvailability ChainView.stalled 1).bind (·.state 1) = some nodeState ∧
          nodeState.pindexBestKnownBlock = some bestKnown ∧
          ((nodeState.pindexLastCommonBlock <|>
              ChainView.stalled.at? (min (ChainView.stalled.nHeight bestKnown) ChainView.stalled.height)).bind
            fun guess => (ChainView.stalled.lastCommonAncestor guess bestKnown).join) = some lastCommon ∧
          DownloadScan.Waiting ChainView.stalled Registry.stalling.mapBlocksInFlight bestKnown
            (ChainView.stalled.nHeight lastCommon)
            (ChainView.stalled.nHeight lastCommon + Params.shortWindow.BLOCK_DOWNLOAD_WINDOW) result.2.2) := by
  obtain ⟨result, found, shown⟩ := Option.map_eq_some'.mp (by decide :
    (Registry.stalling.findNextBlocksToDownload Params.shortWindow ChainView.stalled 1 16 [] (-1)).map (·.2) =
      some ([], 2))
  exact ⟨result, found, shown, Registry.findNextBlocksToDownload_staller found⟩

end XuezNet
