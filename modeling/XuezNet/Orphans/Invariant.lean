import XuezNet.Orphans.Pool

/-! # Consistency of the orphan pool

`OrphanPool.Consistent` says that the reverse index is exact (a parent lists an
orphan exactly when a stored orphan spends it), that it holds no empty set,
that each orphan is stored under its own transaction hash, and that each is at
most 5000 bytes. Every operation of the pool keeps it, and `LimitOrphanTxSize`
leaves at most the requested number of orphans.
-/

namespace XuezNet

namespace ByPrev

/-- Every set of the index is non-empty. -/
def NonemptySets (byPrev : ByPrev) : Prop :=
  ∀ (prev : Hash) (set : StdSet Hash), byPrev.find? prev = some set → set.entries ≠ []

@[simp] theorem lists_emptyc (prev hash : Hash) : (∅ : ByPrev).lists prev hash = false := rfl

theorem lists_iff {byPrev : ByPrev} {prev hash : Hash} :
    byPrev.lists prev hash = true ↔ ∃ set, byPrev.find? prev = some set ∧ set.contains hash = true := by
  unfold lists
  cases byPrev.find? prev <;> simp

theorem lists_indexPrev (byPrev : ByPrev) (prev hash p o : Hash) :
    (byPrev.indexPrev prev hash).lists p o = true ↔ byPrev.lists p o = true ∨ (p = prev ∧ o = hash) := by
  by_cases same : p = prev
  · subst same
    cases found : byPrev.find? p <;> by_cases hit : o = hash <;> simp [lists, indexPrev, found, hit]
  · simp [lists, indexPrev, same]

theorem lists_unindexPrev (byPrev : ByPrev) (prev hash p o : Hash) :
    (byPrev.unindexPrev prev hash).lists p o = true ↔
      byPrev.lists p o = true ∧ ¬(p = prev ∧ o = hash) := by
  cases found : byPrev.find? prev with
  | none =>
      by_cases same : p = prev
      · subst same
        simp [unindexPrev, lists, found]
      · simp [unindexPrev, found, same]
  | some set =>
      by_cases same : p = prev
      · subst same
        by_cases emptied : (set.erase hash).entries = []
        · have gone : (set.erase hash).find? o = none := by simp [StdMap.find?, emptied]
          by_cases hit : o = hash <;> simp_all [unindexPrev, lists, StdMap.contains]
        · by_cases hit : o = hash <;> simp [unindexPrev, lists, found, emptied, hit, StdMap.contains]
      · by_cases emptied : (set.erase hash).entries = [] <;>
          simp [unindexPrev, lists, found, emptied, same]

theorem NonemptySets.indexPrev {byPrev : ByPrev} (nonempty : byPrev.NonemptySets) (prev hash : Hash) :
    (byPrev.indexPrev prev hash).NonemptySets := by
  intro p set found
  simp only [ByPrev.indexPrev, StdMap.find?_insert] at found
  split_ifs at found
  · cases found
    intro emptied
    have listed : (((byPrev.find? prev).getD ∅).insert hash ()).find? hash = some () := by simp
    have vacant : ∀ set : StdSet Hash, set.entries = [] → set.find? hash = none :=
      fun set emptied => by simp [StdMap.find?, emptied]
    rw [vacant _ emptied] at listed
    cases listed
  · exact nonempty _ _ found

theorem NonemptySets.unindexPrev {byPrev : ByPrev} (nonempty : byPrev.NonemptySets)
    (prev hash : Hash) : (byPrev.unindexPrev prev hash).NonemptySets := by
  intro p set' found'
  unfold ByPrev.unindexPrev at found'
  split at found'
  · exact nonempty _ _ found'
  · dsimp only at found'
    split_ifs at found' with emptied
    · simp only [StdMap.find?_erase] at found'
      split_ifs at found'
      exact nonempty _ _ found'
    · simp only [StdMap.find?_insert] at found'
      split_ifs at found'
      · cases found'
        exact emptied
      · exact nonempty _ _ found'

theorem lists_foldl_indexPrev (vin : List COutPoint) (byPrev : ByPrev) (hash p o : Hash) :
    (vin.foldl (fun byPrev txin => byPrev.indexPrev txin.hash hash) byPrev).lists p o = true ↔
      byPrev.lists p o = true ∨ (o = hash ∧ ∃ txin ∈ vin, txin.hash = p) := by
  induction vin generalizing byPrev with
  | nil => simp
  | cons txin rest ih =>
      rw [List.foldl_cons, ih, lists_indexPrev]
      constructor
      · rintro ((listed | ⟨rfl, rfl⟩) | ⟨rfl, later, inside, spent⟩)
        · exact .inl listed
        · exact .inr ⟨rfl, txin, List.mem_cons_self _ _, rfl⟩
        · exact .inr ⟨rfl, later, List.mem_cons_of_mem _ inside, spent⟩
      · rintro (listed | ⟨rfl, spender, member, rfl⟩)
        · exact .inl (.inl listed)
        · rcases List.mem_cons.mp member with rfl | later
          · exact .inl (.inr ⟨rfl, rfl⟩)
          · exact .inr ⟨rfl, spender, later, rfl⟩

theorem lists_foldl_unindexPrev (vin : List COutPoint) (byPrev : ByPrev) (hash p o : Hash) :
    (vin.foldl (fun byPrev txin => byPrev.unindexPrev txin.hash hash) byPrev).lists p o = true ↔
      byPrev.lists p o = true ∧ ¬(o = hash ∧ ∃ txin ∈ vin, txin.hash = p) := by
  induction vin generalizing byPrev with
  | nil => simp
  | cons txin rest ih =>
      rw [List.foldl_cons, ih, lists_unindexPrev]
      constructor
      · rintro ⟨⟨listed, notHere⟩, notLater⟩
        refine ⟨listed, ?_⟩
        rintro ⟨rfl, spender, member, rfl⟩
        rcases List.mem_cons.mp member with rfl | later
        · exact notHere ⟨rfl, rfl⟩
        · exact notLater ⟨rfl, spender, later, rfl⟩
      · rintro ⟨listed, notSpent⟩
        refine ⟨⟨listed, ?_⟩, ?_⟩
        · rintro ⟨rfl, rfl⟩
          exact notSpent ⟨rfl, txin, List.mem_cons_self _ _, rfl⟩
        · rintro ⟨rfl, spender, member, rfl⟩
          exact notSpent ⟨rfl, spender, List.mem_cons_of_mem _ member, rfl⟩

theorem NonemptySets.foldl_indexPrev {byPrev : ByPrev} (nonempty : byPrev.NonemptySets)
    (vin : List COutPoint) (hash : Hash) :
    (vin.foldl (fun byPrev txin => byPrev.indexPrev txin.hash hash) byPrev).NonemptySets := by
  induction vin generalizing byPrev with
  | nil => exact nonempty
  | cons txin rest ih => exact ih (nonempty.indexPrev txin.hash hash)

theorem NonemptySets.foldl_unindexPrev {byPrev : ByPrev} (nonempty : byPrev.NonemptySets)
    (vin : List COutPoint) (hash : Hash) :
    (vin.foldl (fun byPrev txin => byPrev.unindexPrev txin.hash hash) byPrev).NonemptySets := by
  induction vin generalizing byPrev with
  | nil => exact nonempty
  | cons txin rest ih => exact ih (nonempty.unindexPrev txin.hash hash)

theorem mem_children {byPrev : ByPrev} {prev hash : Hash} :
    hash ∈ byPrev.children prev ↔ byPrev.lists prev hash = true := by
  rw [lists_iff]
  unfold children
  cases found : byPrev.find? prev with
  | none => simp
  | some set =>
      simp only [Option.map_some', Option.getD_some, List.mem_map, Option.some.injEq,
        exists_eq_left', StdMap.contains, Option.isSome_iff_exists]
      constructor
      · rintro ⟨⟨key, ⟨⟩⟩, member, rfl⟩
        exact ⟨(), (StdMap.mem_entries_iff set key ()).mp member⟩
      · rintro ⟨⟨⟩, found⟩
        exact ⟨(hash, ()), (StdMap.mem_entries_iff set hash ()).mpr found, rfl⟩

/-- A set of the index with a member. -/
theorem lists_of_nonempty {byPrev : ByPrev} (nonempty : byPrev.NonemptySets) {prev : Hash} {set : StdSet Hash}
    (found : byPrev.find? prev = some set) : ∃ hash, byPrev.lists prev hash = true := by
  obtain ⟨⟨hash, ⟨⟩⟩, member⟩ := List.exists_mem_of_ne_nil _ (nonempty prev set found)
  exact ⟨hash, lists_iff.mpr ⟨set, found, by simp [StdMap.contains, (StdMap.mem_entries_iff set hash ()).mp member]⟩⟩

/-- **Indexes without empty sets are equal when they list the same orphans under
the same parents.** -/
theorem ext_of_lists {byPrev byPrev' : ByPrev} (nonempty : byPrev.NonemptySets) (nonempty' : byPrev'.NonemptySets)
    (same : ∀ prev hash, byPrev.lists prev hash = byPrev'.lists prev hash) : byPrev = byPrev' := by
  refine StdMap.ext fun prev => ?_
  cases found : byPrev.find? prev with
  | none =>
      cases found' : byPrev'.find? prev with
      | none => rfl
      | some set' =>
          obtain ⟨hash, listed⟩ := lists_of_nonempty nonempty' found'
          rw [← same, lists, found] at listed
          cases listed
  | some set =>
      cases found' : byPrev'.find? prev with
      | none =>
          obtain ⟨hash, listed⟩ := lists_of_nonempty nonempty found
          rw [same, lists, found'] at listed
          cases listed
      | some set' =>
          refine congrArg some (StdMap.ext fun hash => ?_)
          have members := same prev hash
          simp only [lists, found, found', Option.map_some', Option.getD_some, StdMap.contains] at members
          cases inSet : set.find? hash <;> cases inSet' : set'.find? hash <;> simp_all

end ByPrev

namespace OrphanPool

/-- A stored orphan at `hash` spends an output of `prev`. -/
def Spends (pool : OrphanPool) (prev hash : Hash) : Prop :=
  ∃ orphan, pool.mapOrphanTransactions.find? hash = some orphan ∧
    ∃ txin ∈ orphan.tx.vin, txin.hash = prev

/-- **The orphan pool invariant.** -/
structure Consistent (pool : OrphanPool) : Prop where
  indexed : ∀ prev hash, pool.mapOrphanTransactionsByPrev.lists prev hash = true ↔
    pool.Spends prev hash
  nonempty : pool.mapOrphanTransactionsByPrev.NonemptySets
  ownHash : ∀ {hash orphan}, pool.mapOrphanTransactions.find? hash = some orphan →
    orphan.tx.hash = hash
  small : ∀ {hash orphan}, pool.mapOrphanTransactions.find? hash = some orphan →
    orphan.tx.size ≤ 5000

theorem consistent_empty : empty.Consistent where
  indexed prev hash := by simp [empty, Spends]
  nonempty _ _ found := by simp [empty] at found
  ownHash found := by simp [empty] at found
  small found := by simp [empty] at found

@[simp] theorem find?_eraseOrphanTx (pool : OrphanPool) (hash key : Hash) :
    (pool.eraseOrphanTx hash).mapOrphanTransactions.find? key =
      if key = hash then none else pool.mapOrphanTransactions.find? key := by
  unfold eraseOrphanTx
  cases found : pool.mapOrphanTransactions.find? hash with
  | none =>
      split_ifs with same
      · rw [same, found]
      · rfl
  | some orphan => simp

theorem size_eraseOrphanTx (pool : OrphanPool) (hash : Hash) :
    (pool.eraseOrphanTx hash).mapOrphanTransactions.size +
      (pool.mapOrphanTransactions.contains hash).toNat = pool.mapOrphanTransactions.size := by
  unfold eraseOrphanTx
  cases found : pool.mapOrphanTransactions.find? hash with
  | none => simp [StdMap.contains, found]
  | some orphan => exact StdMap.size_erase _ hash

theorem size_eraseOrphanTx_le (pool : OrphanPool) (hash : Hash) :
    (pool.eraseOrphanTx hash).mapOrphanTransactions.size ≤ pool.mapOrphanTransactions.size := by
  have := size_eraseOrphanTx pool hash
  omega

/-- Erasing orphans one after another never grows the pool. -/
theorem size_foldl_le {α : Type} (erase : OrphanPool → α → OrphanPool)
    (shrinks : ∀ pool item, (erase pool item).mapOrphanTransactions.size ≤ pool.mapOrphanTransactions.size) :
    ∀ (items : List α) (pool : OrphanPool),
      (items.foldl erase pool).mapOrphanTransactions.size ≤ pool.mapOrphanTransactions.size
  | [], _ => le_rfl
  | item :: rest, pool => (size_foldl_le erase shrinks rest _).trans (shrinks pool item)

/-- Erasing a list of hashes drops exactly the orphans stored under them. -/
theorem find?_foldl_eraseOrphanTx (hashes : List Hash) (pool : OrphanPool) (key : Hash) :
    (hashes.foldl eraseOrphanTx pool).mapOrphanTransactions.find? key =
      if key ∈ hashes then none else pool.mapOrphanTransactions.find? key := by
  induction hashes generalizing pool with
  | nil => simp
  | cons hash rest ih =>
      rw [List.foldl_cons, ih, find?_eraseOrphanTx]
      by_cases later : key ∈ rest <;> by_cases here : key = hash <;> simp [later, here]

theorem size_blockConnected_le (pool : OrphanPool) (block : CBlock) :
    (pool.blockConnected block).mapOrphanTransactions.size ≤ pool.mapOrphanTransactions.size :=
  size_foldl_le _ size_eraseOrphanTx_le _ _

theorem Consistent.addOrphanTx {pool : OrphanPool} (consistent : pool.Consistent)
    (tx : CTransaction) (peer : NodeId) : (pool.addOrphanTx tx peer).1.Consistent := by
  unfold OrphanPool.addOrphanTx
  dsimp only
  split_ifs with present large
  · exact consistent
  · exact consistent
  have absent : pool.mapOrphanTransactions.find? tx.hash = none := by simpa using present
  refine ⟨fun prev hash => ?_, consistent.nonempty.foldl_indexPrev _ _, fun {hash orphan} found => ?_,
    fun {hash orphan} found => ?_⟩
  · rw [ByPrev.lists_foldl_indexPrev, consistent.indexed]
    by_cases new : hash = tx.hash
    · subst new
      simp [Spends, absent]
    · simp [Spends, new]
  · simp only [StdMap.find?_insert] at found
    split_ifs at found with new
    · cases found
      exact new.symm
    · exact consistent.ownHash found
  · simp only [StdMap.find?_insert] at found
    split_ifs at found
    · cases found
      exact Nat.le_of_not_lt large
    · exact consistent.small found

theorem Consistent.eraseOrphanTx {pool : OrphanPool} (consistent : pool.Consistent) (hash : Hash) :
    (pool.eraseOrphanTx hash).Consistent := by
  cases found : pool.mapOrphanTransactions.find? hash with
  | none =>
      unfold OrphanPool.eraseOrphanTx
      rw [found]
      exact consistent
  | some orphan =>
  have after : ∀ key, (pool.eraseOrphanTx hash).mapOrphanTransactions.find? key =
      if key = hash then none else pool.mapOrphanTransactions.find? key :=
    find?_eraseOrphanTx pool hash
  refine ⟨fun prev key => ?_, ?_, fun {key _} found' => ?_, fun {key _} found' => ?_⟩
  · have byPrev : (pool.eraseOrphanTx hash).mapOrphanTransactionsByPrev = orphan.tx.vin.foldl
        (fun byPrev txin => byPrev.unindexPrev txin.hash hash) pool.mapOrphanTransactionsByPrev := by
      simp [OrphanPool.eraseOrphanTx, found]
    rw [byPrev, ByPrev.lists_foldl_unindexPrev, consistent.indexed]
    by_cases same : key = hash
    · subst same
      simp [Spends, after, found]
    · simp [Spends, after, same]
  · simpa [OrphanPool.eraseOrphanTx, found] using consistent.nonempty.foldl_unindexPrev orphan.tx.vin hash
  · rw [after] at found'
    split_ifs at found'
    exact consistent.ownHash found'
  · rw [after] at found'
    split_ifs at found'
    exact consistent.small found'

theorem Consistent.foldl_eraseOrphanTx {pool : OrphanPool} (consistent : pool.Consistent)
    (hashes : List Hash) : (hashes.foldl OrphanPool.eraseOrphanTx pool).Consistent := by
  induction hashes generalizing pool with
  | nil => exact consistent
  | cons hash rest ih => exact ih (consistent.eraseOrphanTx hash)

theorem Consistent.blockConnected {pool : OrphanPool} (consistent : pool.Consistent)
    (block : CBlock) : (pool.blockConnected block).Consistent :=
  consistent.foldl_eraseOrphanTx _

/-- One pass of `EraseOrphansFor`'s loop. -/
def eraseIfFrom (peer : NodeId) (pool : OrphanPool) (key : Hash) : OrphanPool :=
  match pool.mapOrphanTransactions.find? key with
  | some orphan => if orphan.fromPeer = peer then pool.eraseOrphanTx orphan.tx.hash else pool
  | none => pool

theorem eraseOrphansFor_eq (pool : OrphanPool) (peer : NodeId) :
    pool.eraseOrphansFor peer =
      (pool.mapOrphanTransactions.entries.map Prod.fst).foldl (eraseIfFrom peer) pool := by
  rw [eraseOrphansFor, List.foldl_map]
  rfl

theorem size_eraseOrphansFor_le (pool : OrphanPool) (peer : NodeId) :
    (pool.eraseOrphansFor peer).mapOrphanTransactions.size ≤ pool.mapOrphanTransactions.size := by
  rw [eraseOrphansFor_eq]
  refine size_foldl_le _ (fun pool key => ?_) _ _
  unfold eraseIfFrom
  split
  · split_ifs
    · exact size_eraseOrphanTx_le _ _
    · exact le_rfl
  · exact le_rfl

theorem Consistent.eraseIfFrom {pool : OrphanPool} (consistent : pool.Consistent) (peer : NodeId)
    (key : Hash) : (OrphanPool.eraseIfFrom peer pool key).Consistent := by
  unfold OrphanPool.eraseIfFrom
  split
  · split_ifs
    · exact consistent.eraseOrphanTx _
    · exact consistent
  · exact consistent

/-- In a consistent pool, one pass of `EraseOrphansFor` at `key` erases exactly
the orphan stored there when it came from `peer`. -/
theorem Consistent.find?_eraseIfFrom {pool : OrphanPool} (consistent : pool.Consistent)
    (peer : NodeId) (key other : Hash) (orphan : COrphanTx) :
    (OrphanPool.eraseIfFrom peer pool key).mapOrphanTransactions.find? other = some orphan ↔
      pool.mapOrphanTransactions.find? other = some orphan ∧
        ¬(other = key ∧ orphan.fromPeer = peer) := by
  unfold OrphanPool.eraseIfFrom
  cases found : pool.mapOrphanTransactions.find? key with
  | none =>
      by_cases same : other = key
      · subst same
        simp [found]
      · simp [same]
  | some stored =>
      have own := consistent.ownHash found
      by_cases same : other = key
      · subst same
        by_cases from_ : stored.fromPeer = peer
        · simp only [from_, ↓reduceIte, own, find?_eraseOrphanTx, found, true_and]
          constructor
          · intro none
            cases none
          · rintro ⟨same, differ⟩
            cases same
            exact absurd from_ differ
        · simp only [from_, ↓reduceIte, found, Option.some.injEq, true_and]
          constructor
          · rintro rfl
            exact ⟨rfl, from_⟩
          · exact fun ⟨equal, _⟩ => equal
      · by_cases from_ : stored.fromPeer = peer <;> simp [from_, own, same]

/-- Erasing the orphans from `peer` at a list of keys keeps exactly the orphans
not stored at one of them or not from `peer`. -/
theorem Consistent.find?_foldl_eraseIfFrom {pool : OrphanPool} (consistent : pool.Consistent)
    (peer : NodeId) (keys : List Hash) (hash : Hash) (orphan : COrphanTx) :
    (keys.foldl (OrphanPool.eraseIfFrom peer) pool).mapOrphanTransactions.find? hash = some orphan ↔
      pool.mapOrphanTransactions.find? hash = some orphan ∧
        ¬(hash ∈ keys ∧ orphan.fromPeer = peer) := by
  induction keys generalizing pool with
  | nil => simp
  | cons key rest ih =>
      rw [List.foldl_cons, ih (consistent.eraseIfFrom peer key),
        consistent.find?_eraseIfFrom peer key hash orphan, List.mem_cons]
      tauto

theorem Consistent.eraseOrphansFor {pool : OrphanPool} (consistent : pool.Consistent)
    (peer : NodeId) : (pool.eraseOrphansFor peer).Consistent := by
  rw [eraseOrphansFor_eq]
  generalize pool.mapOrphanTransactions.entries.map Prod.fst = keys
  induction keys generalizing pool with
  | nil => exact consistent
  | cons key rest ih => exact ih (consistent.eraseIfFrom peer key)

/-- `EraseOrphansFor(peer)` keeps exactly the orphans that did not come from `peer`. -/
theorem Consistent.find?_eraseOrphansFor {pool : OrphanPool} (consistent : pool.Consistent)
    (peer : NodeId) (hash : Hash) (orphan : COrphanTx) :
    (pool.eraseOrphansFor peer).mapOrphanTransactions.find? hash = some orphan ↔
      pool.mapOrphanTransactions.find? hash = some orphan ∧ orphan.fromPeer ≠ peer := by
  rw [eraseOrphansFor_eq, consistent.find?_foldl_eraseIfFrom]
  constructor
  · rintro ⟨found, notBoth⟩
    exact ⟨found, fun from_ => notBoth
      ⟨List.mem_map.mpr ⟨(hash, orphan), (StdMap.mem_entries_iff _ _ _).mpr found, rfl⟩, from_⟩⟩
  · exact fun ⟨found, notFrom⟩ => ⟨found, fun ⟨_, from_⟩ => notFrom from_⟩

theorem evictLoop_consistent (nMaxOrphans : Nat) (randomHash : Nat → Hash) :
    ∀ (fuel : Nat) {pool : OrphanPool} (nEvicted : Nat), pool.Consistent →
      (evictLoop nMaxOrphans randomHash fuel pool nEvicted).1.Consistent
  | 0, _, _, consistent => consistent
  | fuel + 1, pool, nEvicted, consistent => by
      unfold evictLoop
      split_ifs
      · split
        · exact evictLoop_consistent nMaxOrphans randomHash fuel _ (consistent.eraseOrphanTx _)
        · exact consistent
      · exact consistent

theorem Consistent.limitOrphanTxSize {pool : OrphanPool} (consistent : pool.Consistent)
    (nMaxOrphans : Nat) (randomHash : Nat → Hash) :
    (pool.limitOrphanTxSize nMaxOrphans randomHash).1.Consistent :=
  evictLoop_consistent nMaxOrphans randomHash _ 0 consistent

/-- Eviction only removes orphans. -/
theorem find?_evictLoop (nMaxOrphans : Nat) (randomHash : Nat → Hash) :
    ∀ (fuel : Nat) {pool : OrphanPool} (nEvicted : Nat) {hash : Hash} {orphan : COrphanTx},
      (evictLoop nMaxOrphans randomHash fuel pool nEvicted).1.mapOrphanTransactions.find? hash =
        some orphan → pool.mapOrphanTransactions.find? hash = some orphan
  | 0, _, _, _, _, found => found
  | fuel + 1, pool, nEvicted, hash, orphan, found => by
      unfold evictLoop at found
      split_ifs at found
      · split at found
        · rename_i key _
          have kept := find?_evictLoop nMaxOrphans randomHash fuel _ found
          rw [find?_eraseOrphanTx] at kept
          split_ifs at kept
          exact kept
        · exact found
      · exact found

theorem find?_limitOrphanTxSize {pool : OrphanPool} {nMaxOrphans : Nat} {randomHash : Nat → Hash}
    {hash : Hash} {orphan : COrphanTx}
    (found : (pool.limitOrphanTxSize nMaxOrphans randomHash).1.mapOrphanTransactions.find? hash =
      some orphan) : pool.mapOrphanTransactions.find? hash = some orphan :=
  find?_evictLoop nMaxOrphans randomHash _ 0 found

/-- Storing an orphan adds at most that orphan. -/
theorem find?_addOrphanTx {pool : OrphanPool} {tx : CTransaction} {peer : NodeId} {hash : Hash}
    {orphan : COrphanTx} (found : (pool.addOrphanTx tx peer).1.mapOrphanTransactions.find? hash =
      some orphan) : pool.mapOrphanTransactions.find? hash = some orphan ∨ orphan = ⟨tx, peer⟩ := by
  unfold addOrphanTx at found
  dsimp only at found
  split_ifs at found
  · exact .inl found
  · exact .inl found
  · simp only [StdMap.find?_insert] at found
    split_ifs at found
    · exact .inr (Option.some.inj found).symm
    · exact .inl found

/-- **Adding an orphan and erasing it gives back the pool**: on a consistent
pool, `EraseOrphanTx` of a transaction `AddOrphanTx` has just stored restores the
pool and its reverse index. -/
theorem eraseOrphanTx_addOrphanTx {pool : OrphanPool} (consistent : pool.Consistent) {tx : CTransaction}
    {peer : NodeId} (stored : (pool.addOrphanTx tx peer).2 = true) :
    (pool.addOrphanTx tx peer).1.eraseOrphanTx tx.hash = pool := by
  unfold addOrphanTx at stored ⊢
  dsimp only at stored ⊢
  split_ifs at stored ⊢ with present large
  have absent : pool.mapOrphanTransactions.find? tx.hash = none := by simpa using present
  unfold eraseOrphanTx
  simp only [StdMap.find?_insert, if_true]
  obtain ⟨orphans, byPrev⟩ := pool
  congr 1
  · refine StdMap.ext fun hash => ?_
    rw [StdMap.find?_erase, StdMap.find?_insert]
    split_ifs with new
    · rw [new]
      exact absent.symm
    · rfl
  · refine ByPrev.ext_of_lists ((consistent.nonempty.foldl_indexPrev _ _).foldl_unindexPrev _ _)
      consistent.nonempty fun prev hash => ?_
    have unlisted : byPrev.lists prev tx.hash = false := by
      cases listed : byPrev.lists prev tx.hash
      · rfl
      obtain ⟨orphan, found, -⟩ := (consistent.indexed prev tx.hash).mp listed
      simp_all
    apply Bool.eq_iff_iff.mpr
    rw [ByPrev.lists_foldl_unindexPrev, ByPrev.lists_foldl_indexPrev]
    by_cases new : hash = tx.hash
    · subst new
      simp [unlisted]
    · simp [new]

theorem eraseOrphanTx_addOrphanTx_sibling :
    (empty.addOrphanTx ⟨50, [⟨40, 0⟩], 1, 100⟩ 1).1.Consistent ∧
      ((empty.addOrphanTx ⟨50, [⟨40, 0⟩], 1, 100⟩ 1).1.addOrphanTx ⟨51, [⟨40, 1⟩], 1, 100⟩ 2).2 = true ∧
      ((empty.addOrphanTx ⟨50, [⟨40, 0⟩], 1, 100⟩ 1).1.addOrphanTx ⟨51, [⟨40, 1⟩], 1, 100⟩ 2).1.eraseOrphanTx 51 =
        (empty.addOrphanTx ⟨50, [⟨40, 0⟩], 1, 100⟩ 1).1 :=
  have consistent := consistent_empty.addOrphanTx ⟨50, [⟨40, 0⟩], 1, 100⟩ 1
  ⟨consistent, by decide, eraseOrphanTx_addOrphanTx consistent (by decide)⟩

/-- The key an eviction picks, `lower_bound` of the random hash or else
`begin()`, exists in a non-empty pool and is stored there. -/
theorem evictKey_contains (pool : OrphanPool) (hash : Hash) (nonempty : pool.mapOrphanTransactions.entries ≠ []) :
    ∃ key, ((pool.mapOrphanTransactions.lowerBound hash).orElse fun _ => pool.mapOrphanTransactions.firstKey?) =
      some key ∧ pool.mapOrphanTransactions.contains key = true := by
  cases bound : pool.mapOrphanTransactions.lowerBound hash with
  | none =>
      obtain ⟨key, first⟩ := Option.isSome_iff_exists.mp (StdMap.firstKey?_isSome nonempty)
      exact ⟨key, by simp [Option.orElse, first], StdMap.contains_firstKey? first⟩
  | some key => exact ⟨key, rfl, StdMap.contains_lowerBound bound⟩

/-- **The eviction loop**, given as many steps as the pool has entries, evicts
exactly down to the limit: one orphan per step while the pool is over it. -/
theorem evictLoop_spec (nMaxOrphans : Nat) (randomHash : Nat → Hash) :
    ∀ (fuel : Nat) (pool : OrphanPool) (nEvicted : Nat), pool.mapOrphanTransactions.size ≤ fuel →
      (evictLoop nMaxOrphans randomHash fuel pool nEvicted).1.mapOrphanTransactions.size =
          min pool.mapOrphanTransactions.size nMaxOrphans ∧
        (evictLoop nMaxOrphans randomHash fuel pool nEvicted).2 =
          nEvicted + (pool.mapOrphanTransactions.size - nMaxOrphans)
  | 0, pool, nEvicted, empty => by
      simp only [evictLoop]
      omega
  | fuel + 1, pool, nEvicted, enough => by
      unfold evictLoop
      split_ifs with over
      · have nonempty : pool.mapOrphanTransactions.entries ≠ [] := by
          intro none
          simp [StdMap.size, none] at over
        obtain ⟨key, chosen, present⟩ := evictKey_contains pool (randomHash nEvicted) nonempty
        have shrunk := size_eraseOrphanTx pool key
        rw [present, Bool.toNat_true] at shrunk
        rw [chosen]
        obtain ⟨size, count⟩ := evictLoop_spec nMaxOrphans randomHash fuel (pool.eraseOrphanTx key) (nEvicted + 1)
          (by omega)
        exact ⟨by rw [size]; omega, by rw [count]; omega⟩
      · dsimp only
        exact ⟨by omega, by omega⟩

theorem size_evictLoop (nMaxOrphans : Nat) (randomHash : Nat → Hash) (fuel : Nat) (pool : OrphanPool)
    (nEvicted : Nat) (enough : pool.mapOrphanTransactions.size ≤ fuel) :
    (evictLoop nMaxOrphans randomHash fuel pool nEvicted).1.mapOrphanTransactions.size ≤ nMaxOrphans := by
  rw [(evictLoop_spec nMaxOrphans randomHash fuel pool nEvicted enough).1]
  exact min_le_right _ _

/-- `LimitOrphanTxSize(nMaxOrphans)` leaves at most `nMaxOrphans` orphans. -/
theorem size_limitOrphanTxSize (pool : OrphanPool) (nMaxOrphans : Nat) (randomHash : Nat → Hash) :
    (pool.limitOrphanTxSize nMaxOrphans randomHash).1.mapOrphanTransactions.size ≤ nMaxOrphans :=
  size_evictLoop nMaxOrphans randomHash _ pool 0 le_rfl

/-- **`LimitOrphanTxSize(nMaxOrphans)`** on a consistent pool, for every bound
and every sequence of random hashes: it returns `max(0, size - nMaxOrphans)`
evictions, leaves exactly `min(size, nMaxOrphans)` orphans, each stored before
with the same entry, and keeps the pool consistent. -/
theorem limitOrphanTxSize_spec {pool : OrphanPool} (consistent : pool.Consistent) (nMaxOrphans : Nat)
    (randomHash : Nat → Hash) :
    (pool.limitOrphanTxSize nMaxOrphans randomHash).2 = pool.mapOrphanTransactions.size - nMaxOrphans ∧
      (pool.limitOrphanTxSize nMaxOrphans randomHash).1.mapOrphanTransactions.size =
        min pool.mapOrphanTransactions.size nMaxOrphans ∧
      (∀ {hash orphan}, (pool.limitOrphanTxSize nMaxOrphans randomHash).1.mapOrphanTransactions.find? hash =
        some orphan → pool.mapOrphanTransactions.find? hash = some orphan) ∧
      (pool.limitOrphanTxSize nMaxOrphans randomHash).1.Consistent := by
  obtain ⟨size, count⟩ := evictLoop_spec nMaxOrphans randomHash _ pool 0 le_rfl
  exact ⟨count.trans (Nat.zero_add _), size, find?_limitOrphanTxSize, consistent.limitOrphanTxSize _ _⟩

/-- Three orphans, from peers `1` and `2`. -/
def threeOrphans : OrphanPool :=
  (((empty.addOrphanTx ⟨50, [⟨40, 0⟩], 1, 100⟩ 1).1.addOrphanTx ⟨51, [⟨40, 1⟩], 1, 100⟩ 1).1.addOrphanTx
    ⟨52, [⟨41, 0⟩], 1, 100⟩ 2).1

/-- Cut down to one orphan, the pool loses two. -/
theorem limitOrphanTxSize_spec_three :
    threeOrphans.mapOrphanTransactions.size = 3 ∧
    (threeOrphans.limitOrphanTxSize 1 fun n => 51 + n).2 = threeOrphans.mapOrphanTransactions.size - 1 ∧
      (threeOrphans.limitOrphanTxSize 1 fun n => 51 + n).1.mapOrphanTransactions.size =
        min threeOrphans.mapOrphanTransactions.size 1 ∧
      (∀ {hash orphan}, (threeOrphans.limitOrphanTxSize 1 fun n => 51 + n).1.mapOrphanTransactions.find? hash =
        some orphan → threeOrphans.mapOrphanTransactions.find? hash = some orphan) ∧
      (threeOrphans.limitOrphanTxSize 1 fun n => 51 + n).1.Consistent :=
  ⟨by decide, limitOrphanTxSize_spec (((consistent_empty.addOrphanTx _ 1).addOrphanTx _ 1).addOrphanTx _ 2) 1
    fun n => 51 + n⟩

/-- **`BlockConnected` evicts exactly the orphans spending a parent that an
input of the block spends**, however many of the block's inputs lead to one
orphan; it leaves every other orphan as it was and keeps the pool consistent. -/
theorem blockConnected_evicts {pool : OrphanPool} (consistent : pool.Consistent) (block : CBlock) :
    (∀ hash, (∃ tx ∈ block.vtx, ∃ txin ∈ tx.vin, pool.Spends txin.hash hash) →
      (pool.blockConnected block).mapOrphanTransactions.find? hash = none) ∧
    (∀ hash, ¬(∃ tx ∈ block.vtx, ∃ txin ∈ tx.vin, pool.Spends txin.hash hash) →
      (pool.blockConnected block).mapOrphanTransactions.find? hash = pool.mapOrphanTransactions.find? hash) ∧
    (pool.blockConnected block).Consistent := by
  have listed : ∀ hash, hash ∈ (block.vtx.flatMap fun tx =>
      tx.vin.flatMap fun txin => pool.mapOrphanTransactionsByPrev.children txin.hash) ↔
      ∃ tx ∈ block.vtx, ∃ txin ∈ tx.vin, pool.Spends txin.hash hash := fun hash => by
    simp only [List.mem_flatMap, ByPrev.mem_children, consistent.indexed]
  refine ⟨fun hash evicted => ?_, fun hash kept => ?_, consistent.blockConnected block⟩ <;>
    rw [blockConnected, find?_foldl_eraseOrphanTx]
  · rw [if_pos ((listed hash).mpr evicted)]
  · rw [if_neg (mt (listed hash).mp kept)]

/-- A pool holding the orphan `50`, which spends output `0` of `40`. -/
def oneOrphan : OrphanPool := (empty.addOrphanTx ⟨50, [⟨40, 0⟩], 1, 100⟩ 1).1

/-- A block whose transaction `41` spends output `1` of `40`. -/
def spendingBlock : CBlock := ⟨⟨6, 5⟩, [⟨41, [⟨40, 1⟩], 1, 100⟩]⟩

theorem blockConnected_evicts_spender :
    (∀ hash, (∃ tx ∈ spendingBlock.vtx, ∃ txin ∈ tx.vin, oneOrphan.Spends txin.hash hash) →
      (oneOrphan.blockConnected spendingBlock).mapOrphanTransactions.find? hash = none) ∧
    (∀ hash, ¬(∃ tx ∈ spendingBlock.vtx, ∃ txin ∈ tx.vin, oneOrphan.Spends txin.hash hash) →
      (oneOrphan.blockConnected spendingBlock).mapOrphanTransactions.find? hash =
        oneOrphan.mapOrphanTransactions.find? hash) ∧
    (oneOrphan.blockConnected spendingBlock).Consistent :=
  blockConnected_evicts (consistent_empty.addOrphanTx _ 1) spendingBlock

end OrphanPool

end XuezNet
