import XuezNet.Download.Availability
import XuezNet.Chain.Ancestry

/-! # Choosing the blocks to download from a peer

`FindNextBlocksToDownload(nodeid, count, vBlocks, nodeStaller)` moves the peer's
last common block up to the last block of its chain that we have, then walks
that chain forward in batches and collects blocks that are neither downloaded
nor in flight, up to `count` of them and no further than the download window.

The model keeps the code's two loops: `walkBatches` is the `while` over
batches, with a step bound that the strictly rising walk height never reaches,
and `scanBatch` the `for` over one batch. Each returns `none` where the code
dereferences `NULL` or fails an `assert`.

The collected blocks are never in flight when the function is called, there are
at most `count` of them, and they rise strictly in height, so they are distinct
(`findNextBlocksToDownload_fresh`).
-/

namespace XuezNet

/-- The state of the scan: the blocks collected, the last common block, the
first peer found to have a block of the window in flight, and the staller
reported to the caller. -/
structure DownloadScan where
  vBlocks : List Hash
  pindexLastCommonBlock : Hash
  waitingfor : NodeId
  nodeStaller : NodeId
  deriving DecidableEq, Repr

namespace ChainView

variable (chain : ChainView)

/-- The `n` blocks of a batch, ending at `hash`, in forward order: `vToFetch`,
filled from its end by following `pprev`. -/
def fetchWindow : Nat → Hash → Option (List Hash)
  | 0, _ => some []
  | 1, hash => some [hash]
  | n + 2, hash => do
      let parent ← chain.pprev hash
      let earlier ← fetchWindow (n + 1) parent
      some (earlier ++ [hash])

/-- A batch rises strictly in height and ends at its last block, fewer than `n`
heights below it. -/
theorem fetchWindow_heights :
    ∀ {n : Nat} {hash : Hash} {window : List Hash}, chain.fetchWindow n hash = some window →
      window.Pairwise (fun a b => chain.nHeight a < chain.nHeight b) ∧
        ∀ x ∈ window, chain.nHeight x ≤ chain.nHeight hash ∧ chain.nHeight hash < chain.nHeight x + n
  | 0, _, _, fetched => by
      cases fetched
      simp
  | 1, hash, _, fetched => by
      cases fetched
      simp
  | n + 2, hash, window, fetched => by
      obtain ⟨parent, linked, fetched⟩ := Option.bind_eq_some.mp fetched
      obtain ⟨earlier, fetchedEarlier, fetched⟩ := Option.bind_eq_some.mp fetched
      cases fetched
      have step := chain.pprev_height linked
      obtain ⟨rising, within⟩ := fetchWindow_heights fetchedEarlier
      refine ⟨List.pairwise_append.mpr ⟨rising, List.pairwise_singleton _ _, fun x member y last => ?_⟩,
        fun x member => ?_⟩
      · rw [List.mem_singleton.mp last]
        have := within x member
        omega
      · rcases List.mem_append.mp member with early | last
        · have := within x early
          omega
        · rw [List.mem_singleton.mp last]
          omega

end ChainView

namespace DownloadScan

variable (chain : ChainView) (inFlight : StdMap Hash (NodeId × Nat)) (nodeid : NodeId)
  (count nWindowEnd : Nat)

/-- One block of a batch. The flag says whether the function returns here. -/
def scanBlock (scan : DownloadScan) (hash : Hash) : Option (DownloadScan × Bool) := do
  let block ← chain.mapBlockIndex hash
  if !block.fValidTree then some (scan, true)
  else if block.fHaveData || chain.contains hash then
    some ({ scan with pindexLastCommonBlock :=
      if block.nChainTx ≠ 0 then hash else scan.pindexLastCommonBlock }, false)
  else match inFlight.find? hash with
    | none =>
        if nWindowEnd < block.nHeight then
          some ({ scan with nodeStaller :=
            if scan.vBlocks = [] ∧ scan.waitingfor ≠ nodeid then scan.waitingfor
            else scan.nodeStaller }, true)
        else
          let vBlocks := scan.vBlocks ++ [hash]
          some ({ scan with vBlocks }, decide (vBlocks.length = count))
    | some (owner, _) =>
        some ({ scan with waitingfor := if scan.waitingfor = -1 then owner else scan.waitingfor }, false)

/-- The `for` loop over one batch. -/
def scanBatch (scan : DownloadScan) : List Hash → Option (DownloadScan × Bool)
  | [] => some (scan, false)
  | hash :: rest => do
      let (scan, stop) ← scanBlock chain inFlight nodeid count nWindowEnd scan hash
      if stop then some (scan, true) else scanBatch scan rest

/-- The `while` loop over batches, from the walk height `walkHeight` up to
`nMaxHeight`, with at most `fuel` batches. -/
def walkBatches (bestKnown : Hash) (nMaxHeight : Nat) :
    Nat → DownloadScan → Nat → Option DownloadScan
  | 0, _, _ => none
  | fuel + 1, scan, walkHeight =>
      if walkHeight < nMaxHeight then do
        let nToFetch := min (nMaxHeight - walkHeight) (max (count - scan.vBlocks.length) 128)
        let walk ← chain.getAncestor bestKnown (walkHeight + nToFetch)
        let window ← chain.fetchWindow nToFetch walk
        let (scan, stop) ← scanBatch chain inFlight nodeid count nWindowEnd scan window
        if stop then some scan
        else walkBatches bestKnown nMaxHeight fuel scan (walkHeight + nToFetch)
      else some scan

/-- A block the scan may pick: not in flight, indexed with a valid tree, neither
downloaded nor on the active chain, and no higher than the window's end. -/
def Pickable (hash : Hash) : Prop :=
  inFlight.find? hash = none ∧ ∃ block, chain.mapBlockIndex hash = some block ∧ block.fValidTree = true ∧
    block.fHaveData = false ∧ chain.contains hash = false ∧ block.nHeight ≤ nWindowEnd

/-- **One block of a batch** adds at most that block, one the scan may pick, and
the scan goes on after adding it only below `count` blocks. -/
theorem scanBlock_picks {scan scan' : DownloadScan} {hash : Hash} {stop : Bool}
    (ran : scanBlock chain inFlight nodeid count nWindowEnd scan hash = some (scan', stop)) :
    scan'.vBlocks = scan.vBlocks ∨
      scan'.vBlocks = scan.vBlocks ++ [hash] ∧ Pickable chain inFlight nWindowEnd hash ∧
        (stop = false → scan'.vBlocks.length ≠ count) := by
  unfold scanBlock at ran
  obtain ⟨block, indexed, ran⟩ := Option.bind_eq_some.mp ran
  by_cases invalid : (!block.fValidTree) = true
  · rw [if_pos invalid] at ran
    cases ran
    exact .inl rfl
  rw [if_neg invalid] at ran
  by_cases stored : (block.fHaveData || chain.contains hash) = true
  · rw [if_pos stored] at ran
    cases ran
    exact .inl rfl
  rw [if_neg stored] at ran
  split at ran
  · rename_i free
    by_cases beyond : nWindowEnd < block.nHeight
    · rw [if_pos beyond] at ran
      cases ran
      exact .inl rfl
    · rw [if_neg beyond] at ran
      cases ran
      simp only [Bool.not_eq_true', Bool.not_eq_false, Bool.or_eq_true, not_or, Bool.not_eq_true] at invalid stored
      exact .inr ⟨rfl, ⟨free, block, indexed, invalid, stored.1, stored.2, by omega⟩, by simp⟩
  · cases ran
    exact .inl rfl

/-- One block of a batch adds at most that block, when it is not in flight, and
the scan goes on after adding it only below `count` blocks. -/
theorem scanBlock_spec {scan scan' : DownloadScan} {hash : Hash} {stop : Bool}
    (ran : scanBlock chain inFlight nodeid count nWindowEnd scan hash = some (scan', stop)) :
    scan'.vBlocks = scan.vBlocks ∨
      scan'.vBlocks = scan.vBlocks ++ [hash] ∧ inFlight.find? hash = none ∧
        (stop = false → scan'.vBlocks.length ≠ count) :=
  (scanBlock_picks chain inFlight nodeid count nWindowEnd ran).imp_right
    fun ⟨appended, picked, going⟩ => ⟨appended, picked.1, going⟩

/-- **The loop over one batch** appends some of the batch's blocks, none in
flight, and no more than `count` in all; it goes on only below `count`. -/
theorem scanBatch_spec :
    ∀ {window : List Hash} {scan scan' : DownloadScan} {stop : Bool},
      scanBatch chain inFlight nodeid count nWindowEnd scan window = some (scan', stop) →
      scan.vBlocks.length < count →
      ∃ added, added.Sublist window ∧ scan'.vBlocks = scan.vBlocks ++ added ∧
        (∀ x ∈ added, inFlight.find? x = none) ∧ scan'.vBlocks.length ≤ count ∧
        (stop = false → scan'.vBlocks.length < count)
  | [], scan, scan', stop, ran, below => by
      cases ran
      exact ⟨[], .slnil, by simp, by simp, below.le, fun _ => below⟩
  | hash :: rest, scan, scan', stop, ran, below => by
      unfold scanBatch at ran
      obtain ⟨⟨mid, stopped⟩, step, ran⟩ := Option.bind_eq_some.mp ran
      dsimp only at ran
      have grown : ∃ added, added.Sublist [hash] ∧ mid.vBlocks = scan.vBlocks ++ added ∧
          (∀ x ∈ added, inFlight.find? x = none) ∧ mid.vBlocks.length ≤ count ∧
          (stopped = false → mid.vBlocks.length < count) := by
        rcases scanBlock_spec chain inFlight nodeid count nWindowEnd step with same | ⟨appended, free, going⟩
        · rw [same]
          exact ⟨[], List.nil_sublist _, by simp, by simp, below.le, fun _ => below⟩
        · rw [appended, List.length_append, List.length_singleton] at going ⊢
          refine ⟨[hash], .refl _, rfl, by simpa using free, by omega, fun going' => ?_⟩
          have := going going'
          omega
      obtain ⟨added, sub, grew, free, bound, going⟩ := grown
      split_ifs at ran with stopping
      · cases ran
        exact ⟨added, sub.trans (List.sublist_append_left _ _), grew, free, bound, nofun⟩
      · obtain ⟨added', sub', grew', free', bound', going'⟩ :=
          scanBatch_spec ran (going (Bool.eq_false_iff.mpr stopping))
        refine ⟨added ++ added', ?_, by rw [grew', grew, List.append_assoc], ?_, bound', going'⟩
        · exact (sub.append sub').trans (by simp)
        · intro x member
          rcases List.mem_append.mp member with early | late
          · exact free x early
          · exact free' x late

/-- **The loop over batches** collects blocks of strictly rising height, none in
flight, and no more than `count`: each batch lies above the walk height, which
bounds the blocks collected before it. -/
theorem walkBatches_spec (bestKnown : Hash) (nMaxHeight : Nat) :
    ∀ {fuel : Nat} {scan scan' : DownloadScan} {walkHeight : Nat},
      walkBatches chain inFlight nodeid count nWindowEnd bestKnown nMaxHeight fuel scan walkHeight = some scan' →
      scan.vBlocks.length < count → (∀ x ∈ scan.vBlocks, chain.nHeight x ≤ walkHeight) →
      scan.vBlocks.Pairwise (fun a b => chain.nHeight a < chain.nHeight b) →
      (∀ x ∈ scan.vBlocks, inFlight.find? x = none) →
      scan'.vBlocks.Pairwise (fun a b => chain.nHeight a < chain.nHeight b) ∧
        (∀ x ∈ scan'.vBlocks, inFlight.find? x = none) ∧ scan'.vBlocks.length ≤ count
  | 0, _, _, _, ran, _, _, _, _ => by cases ran
  | fuel + 1, scan, scan', walkHeight, ran, below, lower, rising, free => by
      unfold walkBatches at ran
      split_ifs at ran with more
      · dsimp only at ran
        obtain ⟨walk, ancestor, ran⟩ := Option.bind_eq_some.mp ran
        obtain ⟨window, fetched, ran⟩ := Option.bind_eq_some.mp ran
        obtain ⟨⟨mid, stop⟩, scanned, ran⟩ := Option.bind_eq_some.mp ran
        dsimp only at ran
        have top := chain.getAncestor_height ancestor
        obtain ⟨windowRising, windowWithin⟩ := chain.fetchWindow_heights fetched
        obtain ⟨added, sub, grew, addedFree, bound, going⟩ := scanBatch_spec chain inFlight nodeid count nWindowEnd scanned below
        have midRising : mid.vBlocks.Pairwise (fun a b => chain.nHeight a < chain.nHeight b) := by
          rw [grew]
          refine List.pairwise_append.mpr ⟨rising, windowRising.sublist sub, fun x old y new => ?_⟩
          have := lower x old
          have := windowWithin y (sub.subset new)
          omega
        have midFree : ∀ x ∈ mid.vBlocks, inFlight.find? x = none := by
          rw [grew]
          intro x member
          rcases List.mem_append.mp member with old | new
          · exact free x old
          · exact addedFree x new
        split_ifs at ran with stopping
        · cases ran
          exact ⟨midRising, midFree, bound⟩
        · refine walkBatches_spec bestKnown nMaxHeight ran (going (Bool.eq_false_iff.mpr stopping))
            (fun x member => ?_) midRising midFree
          rw [grew] at member
          rcases List.mem_append.mp member with old | new
          · have := lower x old
            omega
          · have := windowWithin x (sub.subset new)
            omega
      · cases ran
        exact ⟨rising, free, below.le⟩

end DownloadScan

namespace Registry

variable (params : Params) (chain : ChainView) (registry : Registry)

/-- **`FindNextBlocksToDownload(nodeid, count, vBlocks, nodeStaller)`**: the
registry with the peer's updated availability and last common block, the blocks
to request, and the staller. -/
def findNextBlocksToDownload (nodeid : NodeId) (count : Nat) (vBlocks : List Hash)
    (nodeStaller : NodeId) : Option (Registry × List Hash × NodeId) :=
  if count = 0 then some (registry, vBlocks, nodeStaller)
  else do
    let registry ← registry.processBlockAvailability chain nodeid
    let nodeState ← registry.state nodeid
    match nodeState.pindexBestKnownBlock with
    | none => some (registry, vBlocks, nodeStaller)
    | some bestKnown =>
        if chain.nChainWork bestKnown < chain.nChainWork chain.tip then some (registry, vBlocks, nodeStaller)
        else do
          let guess ← (match nodeState.pindexLastCommonBlock with
            | some lastCommon => some lastCommon
            | none => chain.at? (min (chain.nHeight bestKnown) chain.height))
          let lastCommon ← (chain.lastCommonAncestor guess bestKnown).join
          let nodeState := { nodeState with pindexLastCommonBlock := some lastCommon }
          if lastCommon = bestKnown then some (registry.setState nodeid nodeState, vBlocks, nodeStaller)
          else do
            let nWindowEnd := chain.nHeight lastCommon + params.BLOCK_DOWNLOAD_WINDOW
            let nMaxHeight := min (chain.nHeight bestKnown) (nWindowEnd + 1)
            let scan ← DownloadScan.walkBatches chain registry.mapBlocksInFlight nodeid count nWindowEnd
              bestKnown nMaxHeight (nMaxHeight + 1) ⟨vBlocks, lastCommon, -1, nodeStaller⟩
              (chain.nHeight lastCommon)
            some (registry.setState nodeid
                { nodeState with pindexLastCommonBlock := some scan.pindexLastCommonBlock },
              scan.vBlocks, scan.nodeStaller)

variable {params chain registry} {nodeid : NodeId} {count : Nat} {vBlocks : List Hash} {nodeStaller : NodeId}
  {result : Registry × List Hash × NodeId}

/-- **What `FindNextBlocksToDownload` can return**: the registry as it was, or
after the peer's availability update, possibly with its last common block
written back; and the blocks given, or those the walk over batches collected
from them. -/
theorem findNextBlocksToDownload_cases
    (found : registry.findNextBlocksToDownload params chain nodeid count vBlocks nodeStaller = some result) :
    result = (registry, vBlocks, nodeStaller) ∨
      ∃ registry' nodeState, registry.processBlockAvailability chain nodeid = some registry' ∧
        registry'.state nodeid = some nodeState ∧
        (result = (registry', vBlocks, nodeStaller) ∨
          ∃ lastCommon, result.1 = registry'.setState nodeid
              { nodeState with pindexLastCommonBlock := some lastCommon } ∧
            (result.2.1 = vBlocks ∨
              ∃ nWindowEnd bestKnown nMaxHeight fuel start walkHeight scan, count ≠ 0 ∧
                DownloadScan.walkBatches chain registry'.mapBlocksInFlight nodeid count nWindowEnd bestKnown
                  nMaxHeight fuel ⟨vBlocks, start, -1, nodeStaller⟩ walkHeight = some scan ∧
                result.2.1 = scan.vBlocks)) := by
  unfold findNextBlocksToDownload at found
  split_ifs at found with zero
  · cases found
    exact .inl rfl
  obtain ⟨registry', updated, found⟩ := Option.bind_eq_some.mp found
  obtain ⟨nodeState, known, found⟩ := Option.bind_eq_some.mp found
  refine .inr ⟨registry', nodeState, updated, known, ?_⟩
  split at found
  · cases found
    exact .inl rfl
  split_ifs at found
  · cases found
    exact .inl rfl
  obtain ⟨guess, -, found⟩ := Option.bind_eq_some.mp found
  obtain ⟨lastCommon, -, found⟩ := Option.bind_eq_some.mp found
  dsimp only at found
  split_ifs at found
  · cases found
    exact .inr ⟨lastCommon, rfl, .inl rfl⟩
  obtain ⟨scan, walked, found⟩ := Option.bind_eq_some.mp found
  cases found
  exact .inr ⟨scan.pindexLastCommonBlock, rfl, .inr ⟨_, _, _, _, _, _, scan, zero, walked, rfl⟩⟩

/-- **The blocks to download**, chosen from none, are distinct, none is in
flight, and there are at most `count` of them. -/
theorem findNextBlocksToDownload_fresh
    (found : registry.findNextBlocksToDownload params chain nodeid count [] nodeStaller = some result) :
    result.2.1.Nodup ∧ (∀ hash ∈ result.2.1, registry.mapBlocksInFlight.find? hash = none) ∧
      result.2.1.length ≤ count := by
  rcases findNextBlocksToDownload_cases found with rfl | ⟨registry', nodeState, updated, -, rfl | ⟨-, -, none | walk⟩⟩
  · simp
  · simp
  · simp [none]
  obtain ⟨nWindowEnd, bestKnown, nMaxHeight, fuel, start, walkHeight, scan, zero, walked, blocks⟩ := walk
  have same : registry'.mapBlocksInFlight = registry.mapBlocksInFlight := by
    obtain ⟨old, -, updated⟩ := Option.bind_eq_some.mp updated
    cases updated
    simp
  rw [blocks, ← same]
  obtain ⟨rising, free, bound⟩ := DownloadScan.walkBatches_spec chain registry'.mapBlocksInFlight nodeid count
    nWindowEnd bestKnown nMaxHeight walked (by simp; omega) (by simp) List.Pairwise.nil (by simp)
  exact ⟨rising.imp fun lt same => by subst same; exact lt_irrefl _ lt, free, bound⟩

end Registry

end XuezNet
