import XuezNet.Protocol.Primitives
import Mathlib.Order.Basic

/-! # The block index and the active chain

The peer logic reads the validation layer's block tree (`mapBlockIndex`), the
active chain (`chainActive`) and the best known header (`pindexBestHeader`). A
`CBlockIndex*` is named by the hash it is stored under, so following `pprev`
is a lookup. `ChainView` carries the shape the validation layer maintains as
fields: a parent sits one height below its child, roots are at height `0`, and
the active chain lists one linked block per height from the genesis up.

`GetAncestor` and `LastCommonAncestor` walk `pprev` links a bounded number of
steps; with the heights above, the bound is never reached.
-/

namespace XuezNet

/-- `CBlockIndex`, as the peer logic reads it. `fHaveData` is
`nStatus & BLOCK_HAVE_DATA`; `fValidTree` and `fValidScripts` are
`IsValid(BLOCK_VALID_TREE)` and `IsValid(BLOCK_VALID_SCRIPTS)`; `nTime` and
`nMedianTimePast` are `GetBlockTime()` and `GetMedianTimePast()`. -/
structure CBlockIndex where
  nHeight : Nat
  pprev : Option Hash
  nChainWork : Nat
  nChainTx : Nat
  fHaveData : Bool
  fValidTree : Bool
  fValidScripts : Bool
  nTime : Int
  nMedianTimePast : Int
  deriving DecidableEq, Repr

/-- **The chain state the peer logic reads**, with the well-formedness the
validation layer keeps. `getLocator` is `chainActive.GetLocator`, whose code is
not under `src/`. -/
structure ChainView where
  mapBlockIndex : Hash → Option CBlockIndex
  vChain : List Hash
  pindexBestHeader : Option Hash
  getLocator : Hash → List Hash
  prev_height : ∀ {hash block parent}, mapBlockIndex hash = some block →
    block.pprev = some parent →
      ∃ above, mapBlockIndex parent = some above ∧ above.nHeight + 1 = block.nHeight
  root_height : ∀ {hash block}, mapBlockIndex hash = some block → block.pprev = none →
    block.nHeight = 0
  chain_nonempty : vChain ≠ []
  chain_height : ∀ {height hash}, vChain[height]? = some hash →
    ∃ block, mapBlockIndex hash = some block ∧ block.nHeight = height
  chain_linked : ∀ {height hash}, vChain[height + 1]? = some hash →
    ∃ block, mapBlockIndex hash = some block ∧ block.pprev = vChain[height]?

namespace ChainView

/-- The chain of a single genesis block, stored under `genesis`. -/
def single (genesis : Hash) : ChainView where
  mapBlockIndex hash := if hash = genesis then some ⟨0, none, 0, 1, true, true, true, 0, 0⟩ else none
  vChain := [genesis]
  pindexBestHeader := some genesis
  getLocator _ := [genesis]
  prev_height {hash block parent} found linked := by
    dsimp only at found
    split_ifs at found
    cases found
    cases linked
  root_height {hash block} found _ := by
    dsimp only at found
    split_ifs at found
    cases found
    rfl
  chain_nonempty := List.cons_ne_nil _ _
  chain_height {height hash} found := by
    cases height with
    | zero =>
        cases found
        exact ⟨_, if_pos rfl, rfl⟩
    | succ height => cases found
  chain_linked {height hash} found := by cases found

/-- The active chain of the blocks `1` to `n + 1`, the block at height `k` stored
under `k + 1`. -/
def line (n : Nat) : ChainView where
  mapBlockIndex (hash : Nat) :=
    if 1 ≤ hash ∧ hash ≤ n + 1 then
      some ⟨hash - 1, if hash = 1 then none else some (hash - 1), hash, hash, true, true, true, 0, 0⟩
    else none
  vChain := (List.range (n + 1)).map (· + 1)
  pindexBestHeader := some (n + 1)
  getLocator _ := [n + 1]
  prev_height {hash block parent} found linked := by
    dsimp only at found
    split_ifs at found with range genesis <;> cases found <;> cases linked
    exact ⟨_, if_pos ⟨by omega, by omega⟩, by dsimp only; omega⟩
  root_height {hash block} found unlinked := by
    dsimp only at found
    split_ifs at found with range genesis <;> cases found
    · dsimp only
      omega
    · cases unlinked
  chain_nonempty := by simp
  chain_height {height hash} found := by
    obtain ⟨inside, rfl⟩ := List.getElem?_eq_some_iff.mp found
    simp only [List.length_map, List.length_range] at inside
    exact ⟨_, if_pos ⟨by simp, by simp; omega⟩, by simp⟩
  chain_linked {height hash} found := by
    obtain ⟨inside, rfl⟩ := List.getElem?_eq_some_iff.mp found
    simp only [List.length_map, List.length_range] at inside
    refine ⟨_, if_pos ⟨by simp, by simp; omega⟩, ?_⟩
    simp [List.getElem?_range (show height < n + 1 by omega)]
variable (chain : ChainView)

/-- `chainActive.Tip()`. -/
def tip : Hash := chain.vChain.getLast chain.chain_nonempty

/-- `chainActive.Height()`. -/
def height : Nat := chain.vChain.length - 1

/-- `chainActive[height]`. -/
def at? (height : Nat) : Option Hash := chain.vChain[height]?

/-- `chainActive.Contains(pindex)`. -/
def contains (hash : Hash) : Bool :=
  match chain.mapBlockIndex hash with
  | some block => chain.vChain[block.nHeight]? = some hash
  | none => false

/-- `chainActive.Next(pindex)`: the successor on the active chain, if any. -/
def next (hash : Hash) : Option Hash :=
  match chain.mapBlockIndex hash with
  | some block => if chain.contains hash then chain.vChain[block.nHeight + 1]? else none
  | none => none

/-- `pindex->nHeight` for a block known to the index; `0` for an unknown hash,
which no caller passes. -/
def nHeight (hash : Hash) : Nat := ((chain.mapBlockIndex hash).map (·.nHeight)).getD 0

/-- `pindex->nChainWork` for a block known to the index. -/
def nChainWork (hash : Hash) : Nat := ((chain.mapBlockIndex hash).map (·.nChainWork)).getD 0

/-- `pindex->pprev`. -/
def pprev (hash : Hash) : Option Hash := (chain.mapBlockIndex hash).bind (·.pprev)

/-- Follow `pprev` a given number of times. -/
def walkBack : Nat → Hash → Option Hash
  | 0, hash => some hash
  | steps + 1, hash => (chain.pprev hash).bind (walkBack steps)

/-- `pindex->GetAncestor(height)`: the ancestor at a height, `NULL` above the
block's own height. -/
def getAncestor (hash : Hash) (target : Nat) : Option Hash :=
  match chain.mapBlockIndex hash with
  | some block => if block.nHeight < target then none else chain.walkBack (block.nHeight - target) hash
  | none => none

/-- The `while (pa != pb && pa && pb)` loop of `LastCommonAncestor`, given as many
steps as the first block's height allows. -/
def meetLoop : Nat → Option Hash → Option Hash → Option Hash × Option Hash
  | 0, pa, pb => (pa, pb)
  | fuel + 1, some a, some b =>
      if a = b then (some a, some b)
      else meetLoop fuel (chain.pprev a) (chain.pprev b)
  | _ + 1, pa, pb => (pa, pb)

/-- `LastCommonAncestor(pa, pb)`: `none` when `assert(pa == pb)` fails. -/
def lastCommonAncestor (pa pb : Hash) : Option (Option Hash) :=
  let ha := chain.nHeight pa
  let hb := chain.nHeight pb
  let a := if hb < ha then chain.getAncestor pa hb else some pa
  let b := if ha < hb then chain.getAncestor pb ha else some pb
  let met := chain.meetLoop (min ha hb + 1) a b
  if met.1 = met.2 then some met.1 else none

/-- `FindForkInGlobalIndex(chainActive, locator)`, whose code is not under
`src/`: the first locator block on the active chain, or the tip for a locator
block whose ancestor at the tip's height is the tip; else the genesis block. -/
def findForkInGlobalIndex (locator : List Hash) : Hash :=
  match locator.find? (fun hash => chain.contains hash ||
      (chain.mapBlockIndex hash).isSome && chain.getAncestor hash chain.height = some chain.tip) with
  | some hash => if chain.contains hash then hash else chain.tip
  | none => chain.vChain.head chain.chain_nonempty

end ChainView

end XuezNet
