import XuezNet.Download.FindNextBlocks

/-! # The batched download walk against the plain one

`FindNextBlocksToDownload` reads the ancestors of the peer's best known block in
batches of up to 128 blocks (more when `count` needs more): one `GetAncestor`
jump to the top of a batch, `pprev` links down to fill it, then a forward scan.
The download window is specified by the plain walk, which visits the same
ancestors one height at a time (`DownloadScan.walkBlocks`, and
`Registry.findNextBlocksPlain` for the whole function), each block by the rules
of the scan (`DownloadScan.Rule`, which `scanBlock` follows:
`scanBlock_eq_some_iff`).

The two agree on every input, failures included
(`findNextBlocksToDownload_eq_plain`). A batch holds exactly the ancestors at its
heights, so scanning it is the plain walk over them (`fetchWindow_scans`), and
the batches cover the heights from the last common block up to `nMaxHeight` in
order (`walkBatches_plain`). All this needs is that the last common block is an
ancestor of the best known block, which `LastCommonAncestor` guarantees
(`lastCommonAncestor_ancestor`). For a registered peer whose pointers are in an
index with a common genesis, both return (`findNextBlocksToDownload_refines`).
-/

namespace XuezNet

namespace DownloadScan

variable (chain : ChainView) (inFlight : StdMap Hash (NodeId × Nat)) (nodeid : NodeId)
  (count nWindowEnd : Nat)

/-- The plain walk: the ancestors of `bestKnown` at heights `walkHeight + 1`,
`walkHeight + 2`, …, `n` of them, each scanned as `FindNextBlocksToDownload`
scans a block. The flag says whether the scan stopped. -/
def walkBlocks (bestKnown : Hash) : Nat → DownloadScan → Nat → Option (DownloadScan × Bool)
  | 0, scan, _ => some (scan, false)
  | n + 1, scan, walkHeight => do
      let hash ← chain.getAncestor bestKnown (walkHeight + 1)
      let (scan, stop) ← scanBlock chain inFlight nodeid count nWindowEnd scan hash
      if stop then some (scan, true) else walkBlocks bestKnown n scan (walkHeight + 1)

/-- **The rules of the scan for one block**, as the download window is
specified: a block without a valid tree ends the scan; a block downloaded or on
the active chain is passed, and becomes the last common block when its
transactions are counted; a block not in flight past the window's end ends the
scan, naming the peer waited for as the staller when nothing was collected and
that peer is not the one scanned for; a block not in flight within the window is
collected, and ends the scan once `count` blocks are; a block in flight is
passed, its holder waited for unless one already is. -/
inductive Rule (scan : DownloadScan) (hash : Hash) : DownloadScan → Bool → Prop
  | invalid {block : CBlockIndex} (found : chain.mapBlockIndex hash = some block)
      (invalid : block.fValidTree = false) : Rule scan hash scan true
  | stored {block : CBlockIndex} (found : chain.mapBlockIndex hash = some block) (valid : block.fValidTree = true)
      (stored : block.fHaveData = true ∨ chain.contains hash = true) :
      Rule scan hash { scan with pindexLastCommonBlock :=
        if block.nChainTx ≠ 0 then hash else scan.pindexLastCommonBlock } false
  | beyond {block : CBlockIndex} (found : chain.mapBlockIndex hash = some block) (valid : block.fValidTree = true)
      (missing : block.fHaveData = false ∧ chain.contains hash = false) (idle : inFlight.find? hash = none)
      (beyond : nWindowEnd < block.nHeight) :
      Rule scan hash { scan with nodeStaller :=
        if scan.vBlocks = [] ∧ scan.waitingfor ≠ nodeid then scan.waitingfor else scan.nodeStaller } true
  | collected {block : CBlockIndex} (found : chain.mapBlockIndex hash = some block) (valid : block.fValidTree = true)
      (missing : block.fHaveData = false ∧ chain.contains hash = false) (idle : inFlight.find? hash = none)
      (within : block.nHeight ≤ nWindowEnd) :
      Rule scan hash { scan with vBlocks := scan.vBlocks ++ [hash] } (decide ((scan.vBlocks ++ [hash]).length = count))
  | waiting {block : CBlockIndex} {owner : NodeId} {node : Nat} (found : chain.mapBlockIndex hash = some block)
      (valid : block.fValidTree = true) (missing : block.fHaveData = false ∧ chain.contains hash = false)
      (held : inFlight.find? hash = some (owner, node)) :
      Rule scan hash { scan with waitingfor := if scan.waitingfor = -1 then owner else scan.waitingfor } false

variable {chain inFlight nodeid count nWindowEnd}

/-- **`scanBlock` follows the rules**, and every outcome of the rules is its. -/
theorem scanBlock_eq_some_iff {scan scan' : DownloadScan} {hash : Hash} {stop : Bool} :
    scanBlock chain inFlight nodeid count nWindowEnd scan hash = some (scan', stop) ↔
      Rule chain inFlight nodeid count nWindowEnd scan hash scan' stop := by
  constructor
  · intro ran
    unfold scanBlock at ran
    obtain ⟨block, found, ran⟩ := Option.bind_eq_some.mp ran
    cases valid : block.fValidTree
    · simp only [valid, Bool.not_false, if_true, Option.some.injEq, Prod.mk.injEq] at ran
      obtain ⟨rfl, rfl⟩ := ran
      exact .invalid found valid
    simp only [valid, Bool.not_true, Bool.false_eq_true, if_false] at ran
    by_cases stored : (block.fHaveData || chain.contains hash) = true
    · rw [if_pos stored, Option.some.injEq, Prod.mk.injEq] at ran
      obtain ⟨rfl, rfl⟩ := ran
      exact .stored found valid (Bool.or_eq_true _ _ ▸ stored)
    rw [if_neg stored] at ran
    have missing : block.fHaveData = false ∧ chain.contains hash = false := by simpa using stored
    cases held : inFlight.find? hash with
    | none =>
        simp only [held] at ran
        by_cases beyond : nWindowEnd < block.nHeight
        · rw [if_pos beyond] at ran
          cases ran
          exact .beyond found valid missing held beyond
        · rw [if_neg beyond] at ran
          cases ran
          exact .collected found valid missing held (not_lt.mp beyond)
    | some entry =>
        simp only [held] at ran
        cases ran
        exact .waiting found valid missing held
  · intro rule
    cases rule with
    | invalid found invalid => simp [scanBlock, found, invalid]
    | stored found valid stored => simp [scanBlock, found, valid, stored]
    | beyond found valid missing idle beyond => simp [scanBlock, found, valid, missing, idle, beyond]
    | collected found valid missing idle within => simp [scanBlock, found, valid, missing, idle, not_lt.mpr within]
    | waiting found valid missing held => simp [scanBlock, found, valid, missing, held]


/-- Scanning a list in two parts: the second is scanned unless the first stopped. -/
theorem scanBatch_append : ∀ (first second : List Hash) (scan : DownloadScan),
    scanBatch chain inFlight nodeid count nWindowEnd scan (first ++ second) =
      (scanBatch chain inFlight nodeid count nWindowEnd scan first).bind fun r =>
        if r.2 then some (r.1, true) else scanBatch chain inFlight nodeid count nWindowEnd r.1 second
  | [], second, scan => by simp [scanBatch]
  | hash :: rest, second, scan => by
      cases step : scanBlock chain inFlight nodeid count nWindowEnd scan hash with
      | none => simp [scanBatch, step]
      | some r =>
          obtain ⟨mid, stop⟩ := r
          cases stop <;> simp [scanBatch, step, scanBatch_append rest second mid]

/-- The plain walk over `m + n` heights: over `m`, then over `n` unless it stopped. -/
theorem walkBlocks_add (bestKnown : Hash) : ∀ (m n : Nat) (scan : DownloadScan) (walkHeight : Nat),
    walkBlocks chain inFlight nodeid count nWindowEnd bestKnown (m + n) scan walkHeight =
      (walkBlocks chain inFlight nodeid count nWindowEnd bestKnown m scan walkHeight).bind fun r =>
        if r.2 then some (r.1, true)
        else walkBlocks chain inFlight nodeid count nWindowEnd bestKnown n r.1 (walkHeight + m)
  | 0, n, scan, walkHeight => by simp [walkBlocks]
  | m + 1, n, scan, walkHeight => by
      rw [Nat.add_right_comm]
      cases top : chain.getAncestor bestKnown (walkHeight + 1) with
      | none => simp [walkBlocks, top]
      | some hash =>
          cases step : scanBlock chain inFlight nodeid count nWindowEnd scan hash with
          | none => simp [walkBlocks, top, step]
          | some r =>
              obtain ⟨mid, stop⟩ := r
              cases stop <;> simp [walkBlocks, top, step, walkBlocks_add bestKnown m n mid (walkHeight + 1),
                Nat.add_right_comm walkHeight 1 m, Nat.add_assoc]

/-- A block of the index is scanned without failing. -/
theorem scanBlock_isSome {hash : Hash} (known : (chain.mapBlockIndex hash).isSome) (scan : DownloadScan) :
    (scanBlock chain inFlight nodeid count nWindowEnd scan hash).isSome := by
  obtain ⟨block, found⟩ := Option.isSome_iff_exists.mp known
  unfold scanBlock
  cases inFlight.find? hash <;> simp [found, apply_ite Option.isSome]

section Batches

variable {bestKnown last : Hash} (known : (chain.mapBlockIndex bestKnown).isSome)
  (base : chain.AncestorOrSelf last bestKnown)
include known base

omit known in
/-- **A batch is the plain walk over its heights.** The batch that ends at the
ancestor at height `walkHeight + n` is filled, through `pprev`, with the
ancestors at heights `walkHeight + 1` to `walkHeight + n`, and scanning it is the
plain walk over those heights. -/
theorem fetchWindow_scans : ∀ {n walkHeight : Nat} {walk : Hash}, chain.nHeight last ≤ walkHeight →
    chain.getAncestor bestKnown (walkHeight + n) = some walk →
    ∃ window, chain.fetchWindow n walk = some window ∧ ∀ scan,
      scanBatch chain inFlight nodeid count nWindowEnd scan window =
        walkBlocks chain inFlight nodeid count nWindowEnd bestKnown n scan walkHeight
  | 0, _, _, _, _ => ⟨[], rfl, fun _ => rfl⟩
  | 1, _, walk, _, top => ⟨[walk], rfl, fun scan => by simp [scanBatch, walkBlocks, top]⟩
  | n + 2, walkHeight, walk, above, top => by
      have height := chain.getAncestor_height top
      have lastWalk := base.of_lower (.of_getAncestor top) (by omega)
      obtain ⟨parent, linked, -⟩ := lastWalk.of_ne (by rintro rfl; omega)
      have step := chain.pprev_height linked
      have parentTop : chain.getAncestor bestKnown (walkHeight + (n + 1)) = some parent := by
        rw [show walkHeight + (n + 1) = chain.nHeight parent by omega]
        exact ChainView.getAncestor_pprev top linked
      obtain ⟨earlier, fetched, scans⟩ := fetchWindow_scans above parentTop
      refine ⟨earlier ++ [walk], by simp [ChainView.fetchWindow, linked, fetched], fun scan => ?_⟩
      rw [scanBatch_append, scans, walkBlocks_add bestKnown (n + 1) 1]
      congr 1
      funext r
      split_ifs
      · rfl
      · simp [scanBatch, walkBlocks, show walkHeight + (n + 1) + 1 = walkHeight + (n + 2) by omega, top]

/-- **The batches are the plain walk.** From a walk height at or above the last
common block, with enough batches, the loop over batches returns what the plain
walk up to `nMaxHeight` returns. -/
theorem walkBatches_plain {nMaxHeight : Nat} (reach : nMaxHeight ≤ chain.nHeight bestKnown) (fuel : Nat) :
    ∀ (scan : DownloadScan) (walkHeight : Nat), chain.nHeight last ≤ walkHeight →
      nMaxHeight - walkHeight < fuel →
      walkBatches chain inFlight nodeid count nWindowEnd bestKnown nMaxHeight fuel scan walkHeight =
        (walkBlocks chain inFlight nodeid count nWindowEnd bestKnown (nMaxHeight - walkHeight) scan
          walkHeight).map Prod.fst := by
  induction fuel with
  | zero => exact fun _ _ _ enough => absurd enough (Nat.not_lt_zero _)
  | succ fuel more =>
      intro scan walkHeight above enough
      unfold walkBatches
      split
      · generalize sized : min (nMaxHeight - walkHeight) (max (count - scan.vBlocks.length) 128) = size
        obtain ⟨positive, within⟩ : 0 < size ∧ size ≤ nMaxHeight - walkHeight := by omega
        clear sized
        obtain ⟨walk, top, -⟩ : ∃ walk, chain.getAncestor bestKnown (walkHeight + size) = some walk ∧
            chain.AncestorOrSelf last walk := ChainView.getAncestor_exists known base (by omega) (by omega)
        obtain ⟨window, fetched, scans⟩ := fetchWindow_scans base above top
        simp only [Option.bind_eq_bind]
        rw [top, Option.some_bind, fetched, Option.some_bind, scans,
          show nMaxHeight - walkHeight = size + (nMaxHeight - (walkHeight + size)) by omega, walkBlocks_add]
        cases walkBlocks chain inFlight nodeid count nWindowEnd bestKnown size scan walkHeight with
        | none => rfl
        | some r =>
            obtain ⟨mid, stop⟩ := r
            cases stop
            · simp [more mid (walkHeight + size) (by omega) (by omega)]
            · rfl
      · rw [show nMaxHeight - walkHeight = 0 by omega]
        rfl

/-- The plain walk over heights within the best known block's ancestry returns. -/
theorem walkBlocks_isSome : ∀ {n : Nat} {scan : DownloadScan} {walkHeight : Nat},
    chain.nHeight last ≤ walkHeight → walkHeight + n ≤ chain.nHeight bestKnown →
    (walkBlocks chain inFlight nodeid count nWindowEnd bestKnown n scan walkHeight).isSome
  | 0, _, _, _, _ => rfl
  | n + 1, scan, walkHeight, above, within => by
      obtain ⟨hash, top, lastHash⟩ : ∃ hash, chain.getAncestor bestKnown (walkHeight + 1) = some hash ∧
          chain.AncestorOrSelf last hash := ChainView.getAncestor_exists known base (by omega) (by omega)
      have height := chain.getAncestor_height top
      obtain ⟨parent, linked, -⟩ := lastHash.of_ne (by rintro rfl; omega)
      obtain ⟨⟨mid, stop⟩, step⟩ := Option.isSome_iff_exists.mp
        (scanBlock_isSome (ChainView.known_of_pprev linked) scan :
          (scanBlock chain inFlight nodeid count nWindowEnd scan hash).isSome)
      simp only [walkBlocks, top, step, Option.bind_eq_bind, Option.some_bind]
      cases stop
      · exact walkBlocks_isSome (by omega) (by omega)
      · rfl

end Batches

/-- **Every block the plain walk adds** is an ancestor of `bestKnown` above the
walk height that the scan may pick. -/
theorem walkBlocks_picks (bestKnown : Hash) :
    ∀ {n : Nat} {scan scan' : DownloadScan} {walkHeight : Nat} {stop : Bool},
      walkBlocks chain inFlight nodeid count nWindowEnd bestKnown n scan walkHeight = some (scan', stop) →
      ∀ hash ∈ scan'.vBlocks, hash ∈ scan.vBlocks ∨ walkHeight < chain.nHeight hash ∧
        chain.AncestorOrSelf hash bestKnown ∧ Pickable chain inFlight nWindowEnd hash
  | 0, _, _, _, _, ran => by
      cases ran
      exact fun hash member => .inl member
  | n + 1, scan, scan', walkHeight, stop, ran => by
      unfold walkBlocks at ran
      obtain ⟨top, found, ran⟩ := Option.bind_eq_some.mp ran
      obtain ⟨⟨mid, stopped⟩, step, ran⟩ := Option.bind_eq_some.mp ran
      dsimp only at ran
      have height := chain.getAncestor_height found
      have grown : ∀ hash ∈ mid.vBlocks, hash ∈ scan.vBlocks ∨ walkHeight < chain.nHeight hash ∧
          chain.AncestorOrSelf hash bestKnown ∧ Pickable chain inFlight nWindowEnd hash := by
        rcases scanBlock_picks chain inFlight nodeid count nWindowEnd step with same | ⟨appended, picked, -⟩
        · rw [same]
          exact fun hash member => .inl member
        · rw [appended]
          intro hash member
          rcases List.mem_append.mp member with old | new
          · exact .inl old
          · rw [List.mem_singleton.mp new]
            exact .inr ⟨by omega, .of_getAncestor found, picked⟩
      cases stopped
      · rw [if_neg Bool.false_ne_true] at ran
        intro hash member
        rcases walkBlocks_picks bestKnown ran hash member with earlier | ⟨above, ancestor, picked⟩
        · exact grown hash earlier
        · exact .inr ⟨by omega, ancestor, picked⟩
      · rw [if_pos rfl] at ran
        cases ran
        exact grown

end DownloadScan

/-- A genesis `1` on the active chain, and the header of a child `2` whose block
has not arrived. -/
def ChainView.announced : ChainView where
  mapBlockIndex hash :=
    if hash = 1 then some ⟨0, none, 1, 1, true, true, true, 0, 0⟩
    else if hash = 2 then some ⟨1, some 1, 2, 0, false, true, false, 0, 0⟩ else none
  vChain := [1]
  pindexBestHeader := some 2
  getLocator _ := [1]
  prev_height {hash block parent} found linked := by
    dsimp only at found
    split_ifs at found <;> cases found <;> cases linked
    exact ⟨_, if_pos rfl, rfl⟩
  root_height {hash block} found unlinked := by
    dsimp only at found
    split_ifs at found <;> cases found
    · rfl
    · cases unlinked
  chain_nonempty := List.cons_ne_nil _ _
  chain_height {height hash} found := by
    cases height with
    | zero =>
        cases found
        exact ⟨_, if_pos rfl, rfl⟩
    | succ height => cases found
  chain_linked {height hash} found := by cases found

theorem ChainView.announced_rooted (hash : Hash) (known : (announced.mapBlockIndex hash).isSome) :
    announced.AncestorOrSelf 1 hash := by
  by_cases genesis : hash = 1
  · subst genesis
    exact .refl 1
  by_cases child : hash = 2
  · subst child
    exact ⟨1, rfl⟩
  simp [announced, genesis, child] at known

/-- A registry whose peer `1` has announced the header `2`. -/
def Registry.announcing : Registry :=
  (Registry.empty.initializeNode 1).setState 1 { CNodeState.initial with pindexBestKnownBlock := some 2 }

namespace Registry

variable (params : Params) (chain : ChainView) (registry : Registry)

/-- **`FindNextBlocksToDownload` as the download window is specified**: the same
refresh, last common block and window, with the plain walk over the ancestors of
the best known block in place of the batches. -/
def findNextBlocksPlain (nodeid : NodeId) (count : Nat) (vBlocks : List Hash) (nodeStaller : NodeId) :
    Option (Registry × List Hash × NodeId) :=
  if count = 0 then some (registry, vBlocks, nodeStaller)
  else do
    let registry ← registry.processBlockAvailability chain nodeid
    let nodeState ← registry.state nodeid
    match nodeState.pindexBestKnownBlock with
    | none => some (registry, vBlocks, nodeStaller)
    | some bestKnown =>
        if chain.nChainWork bestKnown < chain.nChainWork chain.tip then some (registry, vBlocks, nodeStaller)
        else do
          let guess ← (match nodeState.pindexLastCommonBlock with
            | some lastCommon => some lastCommon
            | none => chain.at? (min (chain.nHeight bestKnown) chain.height))
          let lastCommon ← (chain.lastCommonAncestor guess bestKnown).join
          let nodeState := { nodeState with pindexLastCommonBlock := some lastCommon }
          if lastCommon = bestKnown then some (registry.setState nodeid nodeState, vBlocks, nodeStaller)
          else do
            let nWindowEnd := chain.nHeight lastCommon + params.BLOCK_DOWNLOAD_WINDOW
            let nMaxHeight := min (chain.nHeight bestKnown) (nWindowEnd + 1)
            let scan ← (DownloadScan.walkBlocks chain registry.mapBlocksInFlight nodeid count nWindowEnd
              bestKnown (nMaxHeight - chain.nHeight lastCommon) ⟨vBlocks, lastCommon, -1, nodeStaller⟩
              (chain.nHeight lastCommon)).map Prod.fst
            some (registry.setState nodeid
                { nodeState with pindexLastCommonBlock := some scan.pindexLastCommonBlock },
              scan.vBlocks, scan.nodeStaller)

/-- **The batched walk is the plain walk**: on every input, failures included,
`FindNextBlocksToDownload` returns what its specification returns. -/
theorem findNextBlocksToDownload_eq_plain (nodeid : NodeId) (count : Nat) (vBlocks : List Hash)
    (nodeStaller : NodeId) :
    registry.findNextBlocksToDownload params chain nodeid count vBlocks nodeStaller =
      registry.findNextBlocksPlain params chain nodeid count vBlocks nodeStaller := by
  unfold findNextBlocksToDownload findNextBlocksPlain
  by_cases idle : count = 0
  · rw [if_pos idle, if_pos idle]
  rw [if_neg idle, if_neg idle]
  refine Option.bind_congr fun registry' _ => Option.bind_congr fun nodeState _ => ?_
  cases nodeState.pindexBestKnownBlock with
  | none => rfl
  | some bestKnown =>
      dsimp only
      by_cases behind : chain.nChainWork bestKnown < chain.nChainWork chain.tip
      · rw [if_pos behind, if_pos behind]
      rw [if_neg behind, if_neg behind]
      refine Option.bind_congr fun guess _ => Option.bind_congr fun lastCommon found => ?_
      split_ifs with same
      · rfl
      have base := chain.lastCommonAncestor_ancestor (Option.join_eq_some.mp found)
      obtain ⟨parent, linked, -⟩ := base.of_ne same
      rw [DownloadScan.walkBatches_plain (ChainView.known_of_pprev linked) base (min_le_left _ _) _ _ _ le_rfl ?_]
      omega

/-- A bind returns when its first part returns a value of which the rest returns. -/
theorem isSome_bind_of {α β : Type} {x : Option α} {f : α → Option β} (p : α → Prop)
    (first : ∃ a, x = some a ∧ p a) (rest : ∀ a, p a → (f a).isSome) : (x.bind f).isSome := by
  obtain ⟨a, rfl, holds⟩ := first
  exact rest a holds

variable {params chain registry} {nodeid : NodeId} {nodeState : CNodeState}

/-- **The plain walk returns** for a registered peer whose best known and last
common blocks are blocks of an index with a common genesis. -/
theorem findNextBlocksPlain_isSome
    (rooted : ∃ genesis, ∀ hash, (chain.mapBlockIndex hash).isSome → chain.AncestorOrSelf genesis hash)
    (found : registry.state nodeid = some nodeState)
    (bestKnown : ∀ best, nodeState.pindexBestKnownBlock = some best → (chain.mapBlockIndex best).isSome)
    (lastCommon : ∀ last, nodeState.pindexLastCommonBlock = some last → (chain.mapBlockIndex last).isSome)
    (count : Nat) (vBlocks : List Hash) (nodeStaller : NodeId) :
    (registry.findNextBlocksPlain params chain nodeid count vBlocks nodeStaller).isSome := by
  obtain ⟨genesis, rooted⟩ := rooted
  unfold findNextBlocksPlain
  by_cases zero : count = 0
  · rw [if_pos zero]
    rfl
  rw [if_neg zero]
  simp only [processBlockAvailability, found, state_setState, if_true, Option.bind_eq_bind, Option.some_bind,
    CNodeState.processBlockAvailability_lastCommon]
  cases refreshed : (nodeState.processBlockAvailability chain).pindexBestKnownBlock with
  | none => rfl
  | some best =>
      have bestIndexed := (CNodeState.processBlockAvailability_best chain refreshed).elim (bestKnown best) id
      dsimp only
      by_cases behind : chain.nChainWork best < chain.nChainWork chain.tip
      · rw [if_pos behind]
        rfl
      rw [if_neg behind]
      refine isSome_bind_of (fun guess => (chain.mapBlockIndex guess).isSome) ?_ fun guess guessIndexed => ?_
      · split
        · exact ⟨_, rfl, lastCommon _ ‹_›⟩
        · exact chain.at_known (min_le_right _ _)
      obtain ⟨c, lca, -, cBest, -⟩ :=
        chain.lastCommonAncestor_meets ⟨genesis, rooted guess guessIndexed, rooted best bestIndexed⟩
      simp only [lca, Option.join, Option.some_bind, id]
      split_ifs
      · rfl
      refine isSome_bind_of (fun _ => True) ?_ fun _ _ => rfl
      simp only [and_true, ← Option.isSome_iff_exists, Option.isSome_map']
      have below := cBest.height_le
      exact DownloadScan.walkBlocks_isSome bestIndexed cBest le_rfl (by omega)

/-- **`FindNextBlocksToDownload` refines the plain walk.** For a registered peer
whose best known and last common blocks are blocks of an index with a common
genesis, and for every count, list of blocks and staller, both return, and
return the same registry (with the same last common block), blocks to request
and staller. -/
theorem findNextBlocksToDownload_refines
    (rooted : ∃ genesis, ∀ hash, (chain.mapBlockIndex hash).isSome → chain.AncestorOrSelf genesis hash)
    (found : registry.state nodeid = some nodeState)
    (bestKnown : ∀ best, nodeState.pindexBestKnownBlock = some best → (chain.mapBlockIndex best).isSome)
    (lastCommon : ∀ last, nodeState.pindexLastCommonBlock = some last → (chain.mapBlockIndex last).isSome)
    (count : Nat) (vBlocks : List Hash) (nodeStaller : NodeId) :
    ∃ result, registry.findNextBlocksToDownload params chain nodeid count vBlocks nodeStaller = some result ∧
      registry.findNextBlocksPlain params chain nodeid count vBlocks nodeStaller = some result := by
  have returns : (registry.findNextBlocksPlain params chain nodeid count vBlocks nodeStaller).isSome :=
    findNextBlocksPlain_isSome rooted found bestKnown lastCommon count vBlocks nodeStaller
  obtain ⟨result, plain⟩ := Option.isSome_iff_exists.mp returns
  exact ⟨result, (findNextBlocksToDownload_eq_plain params chain registry nodeid count vBlocks nodeStaller).trans plain,
    plain⟩

/-- Peer `1` announced the header `2` of a block that has not arrived: both walks
return. -/
theorem findNextBlocksToDownload_announced :
    ∃ result, announcing.findNextBlocksToDownload Params.sample ChainView.announced 1 16 [] (-1) = some result ∧
      announcing.findNextBlocksPlain Params.sample ChainView.announced 1 16 [] (-1) = some result :=
  findNextBlocksToDownload_refines ⟨1, ChainView.announced_rooted⟩
    (by rfl : _ = some { CNodeState.initial with pindexBestKnownBlock := some 2 })
    (fun _ announced => by cases announced; rfl) (fun _ unset => by cases unset) 16 [] (-1)

/-- and the walk asks for `2`. -/
example :
    (announcing.findNextBlocksToDownload Params.sample ChainView.announced 1 16 [] (-1)).map (·.2) =
      some ([2], -1) := by
  decide

variable {count : Nat} {nodeStaller : NodeId} {result : Registry × List Hash × NodeId}

/-- **What the plain walk returns**: the blocks and staller it was given, or
those the walk over the window collected and named, from the last common block
along the ancestors of the peer's refreshed best known block, which has at least
the work of our tip. -/
theorem findNextBlocksPlain_cases
    (found : registry.findNextBlocksPlain params chain nodeid count vBlocks nodeStaller = some result) :
    result.2 = (vBlocks, nodeStaller) ∨
      ∃ nodeState bestKnown lastCommon scan stop,
        (registry.processBlockAvailability chain nodeid).bind (·.state nodeid) = some nodeState ∧
        nodeState.pindexBestKnownBlock = some bestKnown ∧ chain.nChainWork chain.tip ≤ chain.nChainWork bestKnown ∧
        ((nodeState.pindexLastCommonBlock <|> chain.at? (min (chain.nHeight bestKnown) chain.height)).bind
          fun guess => (chain.lastCommonAncestor guess bestKnown).join) = some lastCommon ∧
        DownloadScan.walkBlocks chain registry.mapBlocksInFlight nodeid count
          (chain.nHeight lastCommon + params.BLOCK_DOWNLOAD_WINDOW) bestKnown
          (min (chain.nHeight bestKnown) (chain.nHeight lastCommon + params.BLOCK_DOWNLOAD_WINDOW + 1) -
            chain.nHeight lastCommon) ⟨vBlocks, lastCommon, -1, nodeStaller⟩ (chain.nHeight lastCommon) =
          some (scan, stop) ∧
        result.2 = (scan.vBlocks, scan.nodeStaller) := by
  unfold findNextBlocksPlain at found
  by_cases zero : count = 0
  · rw [if_pos zero] at found
    cases found
    exact .inl rfl
  rw [if_neg zero] at found
  obtain ⟨registry', updated, found⟩ := Option.bind_eq_some.mp found
  obtain ⟨nodeState, known, found⟩ := Option.bind_eq_some.mp found
  have same : registry'.mapBlocksInFlight = registry.mapBlocksInFlight := by
    obtain ⟨old, -, updated⟩ := Option.bind_eq_some.mp updated
    cases updated
    rfl
  split at found
  · cases found
    exact .inl rfl
  rename_i bestKnown best
  by_cases behind : chain.nChainWork bestKnown < chain.nChainWork chain.tip
  · rw [if_pos behind] at found
    cases found
    exact .inl rfl
  rw [if_neg behind] at found
  obtain ⟨guess, guessed, found⟩ := Option.bind_eq_some.mp found
  obtain ⟨lastCommon, common, found⟩ := Option.bind_eq_some.mp found
  dsimp only at found
  split_ifs at found
  · cases found
    exact .inl rfl
  obtain ⟨scan, walked, found⟩ := Option.bind_eq_some.mp found
  cases found
  obtain ⟨⟨scan', stop⟩, ran, rfl⟩ := Option.map_eq_some'.mp walked
  have guessedEq : (nodeState.pindexLastCommonBlock <|> chain.at? (min (chain.nHeight bestKnown) chain.height)) =
      some guess := by
    revert guessed
    cases nodeState.pindexLastCommonBlock <;> exact id
  exact .inr ⟨nodeState, bestKnown, lastCommon, scan', stop, by rw [updated]; exact known, best, not_lt.mp behind,
    by rw [guessedEq, Option.some_bind]; exact common, same ▸ ran, rfl⟩

/-- **The blocks `FindNextBlocksToDownload` picks for a peer**, from none: each is
an ancestor of the peer's best known block, which has at least the work of our
tip; it lies above the last common block, itself an ancestor of the best known
block, and at most `BLOCK_DOWNLOAD_WINDOW` above it; it has a valid tree, and is
neither downloaded, nor on the active chain, nor in flight. -/
theorem findNextBlocksToDownload_window
    (found : registry.findNextBlocksToDownload params chain nodeid count [] nodeStaller = some result)
    {hash : Hash} (picked : hash ∈ result.2.1) :
    ∃ nodeState bestKnown lastCommon,
      (registry.processBlockAvailability chain nodeid).bind (·.state nodeid) = some nodeState ∧
      nodeState.pindexBestKnownBlock = some bestKnown ∧ chain.nChainWork chain.tip ≤ chain.nChainWork bestKnown ∧
      chain.AncestorOrSelf lastCommon bestKnown ∧ chain.AncestorOrSelf hash bestKnown ∧
      chain.nHeight lastCommon < chain.nHeight hash ∧
      DownloadScan.Pickable chain registry.mapBlocksInFlight
        (chain.nHeight lastCommon + params.BLOCK_DOWNLOAD_WINDOW) hash := by
  rw [findNextBlocksToDownload_eq_plain] at found
  rcases findNextBlocksPlain_cases found with given | ⟨nodeState, bestKnown, lastCommon, scan, stop, known, best,
    ahead, common, ran, returned⟩
  · rw [given] at picked
    cases picked
  obtain ⟨guess, -, common⟩ := Option.bind_eq_some.mp common
  rw [returned] at picked
  rcases DownloadScan.walkBlocks_picks bestKnown ran hash picked with none | ⟨above, ancestor, pick⟩
  · cases none
  exact ⟨nodeState, bestKnown, lastCommon, known, best, ahead,
    chain.lastCommonAncestor_ancestor (Option.join_eq_some.mp common), ancestor, above, pick⟩

theorem findNextBlocksToDownload_window_announced :
    ∃ result, announcing.findNextBlocksToDownload Params.sample ChainView.announced 1 16 [] (-1) = some result ∧
      2 ∈ result.2.1 ∧ ∃ nodeState bestKnown lastCommon,
        (announcing.processBlockAvailability ChainView.announced 1).bind (·.state 1) = some nodeState ∧
        nodeState.pindexBestKnownBlock = some bestKnown ∧
        ChainView.announced.nChainWork ChainView.announced.tip ≤ ChainView.announced.nChainWork bestKnown ∧
        ChainView.announced.AncestorOrSelf lastCommon bestKnown ∧ ChainView.announced.AncestorOrSelf 2 bestKnown ∧
        ChainView.announced.nHeight lastCommon < ChainView.announced.nHeight 2 ∧
        DownloadScan.Pickable ChainView.announced announcing.mapBlocksInFlight
          (ChainView.announced.nHeight lastCommon + Params.sample.BLOCK_DOWNLOAD_WINDOW) 2 := by
  obtain ⟨result, found⟩ := Option.isSome_iff_exists.mp
    (by decide : (announcing.findNextBlocksToDownload Params.sample ChainView.announced 1 16 [] (-1)).isSome)
  have blocks : (announcing.findNextBlocksToDownload Params.sample ChainView.announced 1 16 [] (-1)).map (·.2.1) =
      some [2] := by
    decide
  rw [found, Option.map_some'] at blocks
  have picked : 2 ∈ result.2.1 := by
    rw [Option.some.inj blocks]
    exact List.mem_singleton_self 2
  exact ⟨result, found, picked, findNextBlocksToDownload_window found picked⟩

end Registry

end XuezNet
