import XuezNet.Foundation.StdMap
import XuezNet.Protocol.Primitives

/-! # The orphan pool

`mapOrphanTransactions` keeps each transaction whose parents are unknown, with
the peer that sent it; `mapOrphanTransactionsByPrev` is its reverse index, from
the hash of a spent parent to the set of orphans spending it. This module holds
the pool's operations as `messages.cpp` writes them: `AddOrphanTx`,
`EraseOrphanTx`, `EraseOrphansFor`, `LimitOrphanTxSize` and the eviction of
`PeerLogicValidation::BlockConnected`.

`GetRandHash()` is an input: `LimitOrphanTxSize` reads the `n`-th random hash
for its `n`-th eviction.
-/

namespace XuezNet

/-- `COrphanTx`: an orphan and the peer it came from. -/
structure COrphanTx where
  tx : CTransaction
  fromPeer : NodeId
  deriving DecidableEq, Repr

/-- The reverse index: the orphans spending each parent hash. -/
abbrev ByPrev := StdMap Hash (StdSet Hash)

/-- **The orphan pool.** -/
structure OrphanPool where
  mapOrphanTransactions : StdMap Hash COrphanTx
  mapOrphanTransactionsByPrev : ByPrev

namespace ByPrev

/-- Whether the index lists `hash` under the parent `prev`. -/
def lists (byPrev : ByPrev) (prev hash : Hash) : Bool :=
  ((byPrev.find? prev).map (·.contains hash)).getD false

/-- `mapOrphanTransactionsByPrev[prev].insert(hash)`. -/
def indexPrev (byPrev : ByPrev) (prev hash : Hash) : ByPrev :=
  byPrev.insert prev (((byPrev.find? prev).getD ∅).insert hash ())

/-- One pass of `EraseOrphanTx`'s loop: drop `hash` from the set of `prev`, and the
set itself once it is empty. -/
def unindexPrev (byPrev : ByPrev) (prev hash : Hash) : ByPrev :=
  match byPrev.find? prev with
  | none => byPrev
  | some set =>
      let set' := set.erase hash
      if set'.entries = [] then byPrev.erase prev else byPrev.insert prev set'

/-- `mapOrphanTransactionsByPrev.find(prev)`, read as the orphan hashes it lists,
in set order. -/
def children (byPrev : ByPrev) (prev : Hash) : List Hash :=
  ((byPrev.find? prev).map (fun set => set.entries.map Prod.fst)).getD []

end ByPrev

namespace OrphanPool

/-- The pool at start-up. -/
def empty : OrphanPool := ⟨∅, ∅⟩

/-- `AddOrphanTx(tx, peer)`: store a new orphan of at most 5000 bytes and index
it under each parent it spends; the flag says whether it was stored. -/
def addOrphanTx (pool : OrphanPool) (tx : CTransaction) (peer : NodeId) : OrphanPool × Bool :=
  let hash := tx.hash
  if pool.mapOrphanTransactions.contains hash then (pool, false)
  else if 5000 < tx.size then (pool, false)
  else
    ({ mapOrphanTransactions := pool.mapOrphanTransactions.insert hash ⟨tx, peer⟩
       mapOrphanTransactionsByPrev := tx.vin.foldl
         (fun byPrev txin => byPrev.indexPrev txin.hash hash) pool.mapOrphanTransactionsByPrev },
      true)

/-- `EraseOrphanTx(hash)`: unindex the orphan stored at `hash` under each parent
its stored transaction spends, then drop it. -/
def eraseOrphanTx (pool : OrphanPool) (hash : Hash) : OrphanPool :=
  match pool.mapOrphanTransactions.find? hash with
  | none => pool
  | some orphan =>
      { mapOrphanTransactionsByPrev := orphan.tx.vin.foldl
          (fun byPrev txin => byPrev.unindexPrev txin.hash hash) pool.mapOrphanTransactionsByPrev
        mapOrphanTransactions := pool.mapOrphanTransactions.erase hash }

/-- `EraseOrphansFor(peer)`: walk the pool in key order and erase, by its
transaction's hash, every orphan still present that came from `peer`. -/
def eraseOrphansFor (pool : OrphanPool) (peer : NodeId) : OrphanPool :=
  pool.mapOrphanTransactions.entries.foldl
    (fun pool entry =>
      match pool.mapOrphanTransactions.find? entry.1 with
      | some orphan => if orphan.fromPeer = peer then pool.eraseOrphanTx orphan.tx.hash else pool
      | none => pool)
    pool

/-- The loop of `LimitOrphanTxSize`: while the pool is over the limit, erase the
orphan at `lower_bound` of the next random hash, or at `begin()` past the end.
`fuel` bounds the number of evictions. -/
def evictLoop (nMaxOrphans : Nat) (randomHash : Nat → Hash) :
    Nat → OrphanPool → Nat → OrphanPool × Nat
  | 0, pool, nEvicted => (pool, nEvicted)
  | fuel + 1, pool, nEvicted =>
      if nMaxOrphans < pool.mapOrphanTransactions.size then
        match (pool.mapOrphanTransactions.lowerBound (randomHash nEvicted)).orElse
            (fun _ => pool.mapOrphanTransactions.firstKey?) with
        | some key => evictLoop nMaxOrphans randomHash fuel (pool.eraseOrphanTx key) (nEvicted + 1)
        | none => (pool, nEvicted)
      else (pool, nEvicted)

/-- `LimitOrphanTxSize(nMaxOrphans)`: evict random orphans down to the limit and
return how many were evicted. Each eviction removes an entry, so as many steps
as the pool has entries suffice. -/
def limitOrphanTxSize (pool : OrphanPool) (nMaxOrphans : Nat) (randomHash : Nat → Hash) :
    OrphanPool × Nat :=
  evictLoop nMaxOrphans randomHash pool.mapOrphanTransactions.size pool 0

/-- The eviction of `PeerLogicValidation::BlockConnected`: collect every orphan
listed under a parent that an input of the block spends, then erase them. -/
def blockConnected (pool : OrphanPool) (block : CBlock) : OrphanPool :=
  let vOrphanErase := block.vtx.flatMap fun tx =>
    tx.vin.flatMap fun txin => pool.mapOrphanTransactionsByPrev.children txin.hash
  vOrphanErase.foldl eraseOrphanTx pool

end OrphanPool

end XuezNet
