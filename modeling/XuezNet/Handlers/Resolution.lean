import XuezNet.Handlers.Transaction
import XuezNet.Orphans.Invariant

/-! # The orphan-resolution loop terminates

The accepted branch of `ProcessMessage(TX)` walks a work queue of outpoints: it
pops the front one and submits each orphan the reverse index lists under its
hash, and each orphan `AcceptToMemoryPool` accepts queues its own outputs. The
queue grows while it is consumed, and the orphans may spend each other in a
cycle of prevout hashes.

One orphan of the loop (`OrphanStep`, `resolveOrphan_step`) leaves the pool as
it is, the erasures waiting in `vEraseQueue`, and changes the work queue, the
relays and the mempool only when the orphan is accepted. `AcceptToMemoryPool`
never accepts a transaction already in the mempool (`Env.atmp_pooled`), and an
accepted orphan enters it. So the length of the work queue plus the outputs of
the orphans not yet in the mempool (`potential`) stays the same over an orphan
and falls by one with each outpoint popped; `resolutionFuel` exceeds it at the
start, and the loop returns with an empty queue, having accepted each orphan at
most once (`Resolved`, `resolveOrphans_terminates`).

This rests on the pool's invariant, which every reachable state keeps
(`PeerLogic.Sound.orphans`): an orphan the index lists is stored, under its own
hash. Where it is not stored, `mapOrphanTransactions[orphanHash]` would insert a
default entry, and the model returns `none`.
-/

namespace XuezNet

namespace Resolution

/-- The outputs of the orphans among `entries` that are not in `mempool`: those
the loop may still queue, once each. -/
def pendingOutputs (mempool : StdSet Hash) (entries : List (Hash × COrphanTx)) : Nat :=
  entries.foldr (fun e total => if mempool.contains e.1 then total else e.2.tx.voutCount + total) 0

/-- **The measure of the loop**: the outpoints queued, and those still to come. -/
def potential (res : Resolution) : Nat :=
  res.vWorkQueue.length + pendingOutputs res.logic.mempool res.logic.orphans.mapOrphanTransactions.entries

theorem pendingOutputs_cons (mempool : StdSet Hash) (e : Hash × COrphanTx) (rest : List (Hash × COrphanTx)) :
    pendingOutputs mempool (e :: rest) =
      if mempool.contains e.1 then pendingOutputs mempool rest else e.2.tx.voutCount + pendingOutputs mempool rest :=
  rfl

/-- What is still to come is at most all the orphans' outputs. -/
theorem pendingOutputs_le (mempool : StdSet Hash) (entries : List (Hash × COrphanTx)) :
    pendingOutputs mempool entries ≤ entries.foldr (fun e total => e.2.tx.voutCount + total) 0 := by
  induction entries with
  | nil => exact le_rfl
  | cons e rest ih =>
      rw [pendingOutputs_cons, List.foldr_cons]
      split_ifs <;> omega

theorem contains_insert_of_ne {mempool : StdSet Hash} {hash key : Hash} (other : key ≠ hash) :
    (mempool.insert hash ()).contains key = mempool.contains key := by
  simp [StdMap.contains, other]

theorem contains_insert_self (mempool : StdSet Hash) (hash : Hash) : (mempool.insert hash ()).contains hash = true := by
  simp [StdMap.contains]

theorem pendingOutputs_insert_of_absent {mempool : StdSet Hash} {hash : Hash} :
    ∀ {entries : List (Hash × COrphanTx)}, (∀ e ∈ entries, e.1 ≠ hash) →
      pendingOutputs (mempool.insert hash ()) entries = pendingOutputs mempool entries
  | [], _ => rfl
  | e :: rest, absent => by
      rw [pendingOutputs_cons, pendingOutputs_cons, contains_insert_of_ne (absent e (List.mem_cons_self _ _)),
        pendingOutputs_insert_of_absent fun e' later => absent e' (List.mem_cons_of_mem _ later)]

/-- Putting an orphan of the pool into the mempool takes its outputs off what is
still to come: the keys of the pool are unique. -/
theorem pendingOutputs_insert {mempool : StdSet Hash} {hash : Hash} {orphan : COrphanTx}
    (fresh : mempool.contains hash = false) :
    ∀ {entries : List (Hash × COrphanTx)}, entries.Pairwise (fun a b => a.1 < b.1) → (hash, orphan) ∈ entries →
      pendingOutputs (mempool.insert hash ()) entries + orphan.tx.voutCount = pendingOutputs mempool entries
  | [], _, listed => absurd listed (List.not_mem_nil _)
  | (key, stored) :: rest, sorted, listed => by
      rw [List.pairwise_cons] at sorted
      rw [pendingOutputs_cons, pendingOutputs_cons]
      rcases List.mem_cons.mp listed with here | later
      · obtain ⟨rfl, rfl⟩ := Prod.mk.inj here
        have absent : ∀ e ∈ rest, e.1 ≠ hash := fun e later => (sorted.1 e later).ne'
        simp only [contains_insert_self, fresh, ↓reduceIte, Bool.false_eq_true, pendingOutputs_insert_of_absent absent]
        omega
      · have other : key ≠ hash := (sorted.1 _ later).ne
        rw [contains_insert_of_ne other, ← pendingOutputs_insert fresh sorted.2 later]
        split_ifs <;> omega

/-- **What one orphan of the loop does.** It leaves the pool as it is; and either
it leaves the mempool, the relays and the work queue as they are, or
`AcceptToMemoryPool` accepts the orphan, which was not in the mempool: it enters
the mempool, is relayed, and its outputs join the work queue. -/
inductive OrphanStep (env : Env) (orphan : COrphanTx) (res : Resolution) : Resolution → Prop
  | kept {res' : Resolution} : res'.logic.orphans = res.logic.orphans →
      res'.logic.mempool = res.logic.mempool → res'.relays = res.relays → res'.vWorkQueue = res.vWorkQueue →
      OrphanStep env orphan res res'
  | accepted {res' : Resolution} : (env.atmp res.logic.mempool orphan.tx).accepted = true →
      res.logic.mempool.contains orphan.tx.hash = false → res'.logic.orphans = res.logic.orphans →
      res'.logic.mempool = res.logic.mempool.insert orphan.tx.hash () →
      res'.relays = res.relays ++ [.tx orphan.tx.hash] →
      res'.vWorkQueue = res.vWorkQueue ++ outputs orphan.tx.hash orphan.tx.voutCount →
      OrphanStep env orphan res res'

/-- What the loop keeps from one of its states to a later one: the pool as it
was, a mempool that only grew, and relays extended by transactions of the pool
accepted once each, none in the mempool before and each in it after. -/
structure Resolved (res res' : Resolution) : Prop where
  orphans : res'.logic.orphans = res.logic.orphans
  grown : ∀ {hash}, res.logic.mempool.contains hash = true → res'.logic.mempool.contains hash = true
  relayed : ∃ hashes : List Hash, res'.relays = res.relays ++ hashes.map Relay.tx ∧ hashes.Nodup ∧
    ∀ hash ∈ hashes, res.logic.orphans.mapOrphanTransactions.contains hash = true ∧
      res.logic.mempool.contains hash = false ∧ res'.logic.mempool.contains hash = true

variable {env : Env} {res res₁ res₂ : Resolution}

namespace Resolved

theorem of_kept (orphans : res'.logic.orphans = res.logic.orphans) (mempool : res'.logic.mempool = res.logic.mempool)
    (relays : res'.relays = res.relays) : Resolved res res' :=
  ⟨orphans, fun pooled => mempool ▸ pooled, [], by rw [relays, List.map_nil, List.append_nil], List.nodup_nil, nofun⟩

/-- What is out of the mempool at the later state was out of it before. -/
theorem fresh (resolved : Resolved res res') {hash : Hash} (absent : res'.logic.mempool.contains hash = false) :
    res.logic.mempool.contains hash = false :=
  Bool.eq_false_iff.mpr fun pooled => by rw [resolved.grown pooled] at absent; cases absent

theorem trans (first : Resolved res res₁) (second : Resolved res₁ res₂) : Resolved res res₂ := by
  obtain ⟨hashes, relays, distinct, accepted⟩ := first.relayed
  obtain ⟨hashes', relays', distinct', accepted'⟩ := second.relayed
  refine ⟨second.orphans.trans first.orphans, fun pooled => second.grown (first.grown pooled), hashes ++ hashes',
    by rw [relays', relays, List.map_append, List.append_assoc], List.nodup_append.mpr ⟨distinct, distinct', ?_⟩,
    fun hash listed => ?_⟩
  · intro hash old new
    have absent := (accepted' hash new).2.1
    rw [(accepted hash old).2.2] at absent
    cases absent
  · rcases List.mem_append.mp listed with old | new
    · obtain ⟨stored, absent, pooled⟩ := accepted hash old
      exact ⟨stored, absent, second.grown pooled⟩
    · obtain ⟨stored, absent, pooled⟩ := accepted' hash new
      exact ⟨first.orphans ▸ stored, first.fresh absent, pooled⟩

end Resolved

variable (env) in
/-- **One orphan of the loop** does what `OrphanStep` says. -/
theorem resolveOrphan_step (res : Resolution) (orphan : COrphanTx) :
    OrphanStep env orphan res (res.resolveOrphan env orphan) := by
  unfold resolveOrphan
  dsimp only
  by_cases skipped : res.setMisbehaving.contains orphan.fromPeer = true
  · rw [if_pos skipped]
    exact .kept rfl rfl rfl rfl
  rw [if_neg skipped]
  by_cases accepted : (env.atmp res.logic.mempool orphan.tx).accepted = true
  · rw [if_pos accepted]
    exact .accepted accepted (Bool.eq_false_iff.mpr fun pooled => by rw [env.atmp_pooled pooled] at accepted; cases accepted)
      rfl rfl rfl rfl
  rw [if_neg accepted]
  by_cases rejected : (!(env.atmp res.logic.mempool orphan.tx).fMissingInputs) = true
  · rw [if_pos rejected]
    refine .kept ?_ ?_ rfl rfl <;> split_ifs <;> rfl
  · rw [if_neg rejected]
    exact .kept rfl rfl rfl rfl

/-- An orphan stored under its own hash keeps `Resolved` and the measure. -/
theorem OrphanStep.resolved {orphan : COrphanTx} (step : OrphanStep env orphan res res')
    (stored : res.logic.orphans.mapOrphanTransactions.find? orphan.tx.hash = some orphan) :
    Resolved res res' ∧ res'.potential = res.potential := by
  cases step with
  | kept orphans mempool relays queue =>
      exact ⟨.of_kept orphans mempool relays, by rw [potential, potential, orphans, mempool, queue]⟩
  | accepted _ fresh orphans mempool relays queue =>
      refine ⟨⟨orphans, fun pooled => ?_, [orphan.tx.hash], by rw [relays]; rfl, List.nodup_singleton _, ?_⟩, ?_⟩
      · rw [mempool, StdMap.contains_iff, StdMap.find?_insert]
        split_ifs
        · exact Option.some_ne_none _
        · exact (StdMap.contains_iff _ _).mp pooled
      · intro hash listed
        rw [List.mem_singleton.mp listed, mempool]
        exact ⟨by simp [StdMap.contains, stored], fresh, by simp [StdMap.contains]⟩
      · have taken := pendingOutputs_insert fresh res.logic.orphans.mapOrphanTransactions.sorted
          ((StdMap.mem_entries_iff _ _ _).mpr stored)
        simp only [potential, orphans, mempool, queue, List.length_append, outputs, List.length_map,
          List.length_range]
        omega

variable (env)

/-- **The inner loop** over orphans stored under their own hashes returns,
keeping `Resolved` and the measure. -/
theorem resolveChildren_resolves :
    ∀ (hashes : List Hash) (res : Resolution),
      (∀ hash ∈ hashes, ∃ orphan, res.logic.orphans.mapOrphanTransactions.find? hash = some orphan ∧
        orphan.tx.hash = hash) →
      ∃ res', resolveChildren env res hashes = some res' ∧ Resolved res res' ∧ res'.potential = res.potential
  | [], res, _ => ⟨res, rfl, .of_kept rfl rfl rfl, rfl⟩
  | hash :: rest, res, stored => by
      obtain ⟨orphan, found, own⟩ := stored hash (List.mem_cons_self _ _)
      obtain ⟨first, same⟩ := (resolveOrphan_step env res orphan).resolved (own ▸ found)
      obtain ⟨res', ran, later, same'⟩ := resolveChildren_resolves rest (res.resolveOrphan env orphan)
        fun hash' listed => by rw [first.orphans]; exact stored hash' (List.mem_cons_of_mem _ listed)
      refine ⟨res', ?_, first.trans later, same'.trans same⟩
      simp only [resolveChildren, found, Option.bind_eq_bind, Option.some_bind, ran]

/-- **The outer loop returns.** From any state over a consistent pool, with more
fuel than the measure, it empties the work queue, keeping `Resolved`. -/
theorem resolveOrphans_terminates :
    ∀ (fuel : Nat) (res : Resolution), res.logic.orphans.Consistent → res.potential < fuel →
      ∃ res', resolveOrphans env fuel res = some res' ∧ res'.vWorkQueue = [] ∧ Resolved res res'
  | 0, _, _, bound => absurd bound (Nat.not_lt_zero _)
  | fuel + 1, res, consistent, bound => by
      rw [resolveOrphans]
      cases queue : res.vWorkQueue with
      | nil => exact ⟨res, rfl, queue, .of_kept rfl rfl rfl⟩
      | cons out rest =>
          have stored : ∀ hash ∈ res.logic.orphans.mapOrphanTransactionsByPrev.children out.hash,
              ∃ orphan, res.logic.orphans.mapOrphanTransactions.find? hash = some orphan ∧ orphan.tx.hash = hash :=
            fun hash listed => by
              obtain ⟨orphan, found, -⟩ := (consistent.indexed _ _).mp (ByPrev.mem_children.mp listed)
              exact ⟨orphan, found, consistent.ownHash found⟩
          obtain ⟨res₁, ran, first, same⟩ := resolveChildren_resolves env _ { res with vWorkQueue := rest } stored
          have lower : res₁.potential < fuel := by
            rw [same]
            simp only [potential, queue, List.length_cons] at bound ⊢
            omega
          obtain ⟨res', ran', emptied, later⟩ := resolveOrphans_terminates fuel res₁ (first.orphans ▸ consistent) lower
          have popped : Resolved res { res with vWorkQueue := rest } := .of_kept rfl rfl rfl
          refine ⟨res', ?_, emptied, popped.trans (first.trans later)⟩
          simp only [ran, Option.some_bind, ran']

/-- `resolutionFuel` exceeds the measure of the state the accepted branch of
`ProcessMessage(TX)` starts the loop in. -/
theorem potential_lt_resolutionFuel (logic : PeerLogic) (tx : CTransaction) (relays : List Relay) :
    (⟨logic, relays, outputs tx.hash tx.voutCount, ∅, []⟩ : Resolution).potential < Handling.resolutionFuel logic tx := by
  have bound := pendingOutputs_le logic.mempool logic.orphans.mapOrphanTransactions.entries
  simp only [potential, Handling.resolutionFuel, outputs, List.length_map, List.length_range]
  omega

end Resolution

/-- The accepted branch of `ProcessMessage(TX)` returns over a consistent pool. -/
theorem Handling.accepted_isSome (env : Env) (h : Handling) (tx : CTransaction)
    (consistent : h.logic.orphans.Consistent) : (Handling.accepted env h tx).isSome := by
  obtain ⟨res, ran, -⟩ := Resolution.resolveOrphans_terminates env _ _ (by exact consistent)
    (Resolution.potential_lt_resolutionFuel { h.logic with mempool := h.logic.mempool.insert tx.hash () } tx _)
  exact Option.isSome_iff_exists.mpr ⟨_, Option.bind_eq_some.mpr ⟨res, ran, rfl⟩⟩

open Resolution in
/-- **The orphan-resolution loop terminates.** One orphan of the loop leaves the
pool as it is and adds work to the queue only when `AcceptToMemoryPool` accepts
it, which it does only for a transaction not yet in the mempool
(`Env.atmp_pooled`). From the state the accepted branch of `ProcessMessage(TX)`
starts it in, over a consistent pool, the loop returns within `resolutionFuel`
rounds with an empty work queue and the pool as it was, having relayed, after
the transaction itself, orphans of the pool none of which was in the mempool,
each once. -/
theorem orphanResolution_terminates (env : Env) :
    (∀ (res : Resolution) (orphan : COrphanTx), OrphanStep env orphan res (res.resolveOrphan env orphan)) ∧
      ∀ (h : Handling) (tx : CTransaction), h.logic.orphans.Consistent →
        ∃ res, resolveOrphans env
            (Handling.resolutionFuel { h.logic with mempool := h.logic.mempool.insert tx.hash () } tx)
            ⟨{ h.logic with mempool := h.logic.mempool.insert tx.hash () }, h.relays ++ [.tx tx.hash],
              outputs tx.hash tx.voutCount, ∅, []⟩ = some res ∧
          res.vWorkQueue = [] ∧ res.logic.orphans = h.logic.orphans ∧
          ∃ hashes : List Hash, res.relays = h.relays ++ (tx.hash :: hashes).map Relay.tx ∧ (tx.hash :: hashes).Nodup ∧
            ∀ hash ∈ hashes, h.logic.orphans.mapOrphanTransactions.contains hash = true ∧
              h.logic.mempool.contains hash = false ∧ res.logic.mempool.contains hash = true := by
  refine ⟨resolveOrphan_step env, fun h tx consistent => ?_⟩
  obtain ⟨res, ran, emptied, resolved⟩ := resolveOrphans_terminates env _ _ (by exact consistent)
    (potential_lt_resolutionFuel { h.logic with mempool := h.logic.mempool.insert tx.hash () } tx _)
  obtain ⟨hashes, relays, distinct, accepted⟩ := resolved.relayed
  refine ⟨res, ran, emptied, resolved.orphans, hashes, by rw [relays, List.map_cons, List.append_assoc]; rfl,
    List.nodup_cons.mpr ⟨fun listed => ?_, distinct⟩, fun hash listed => ?_⟩
  · have absent := (accepted _ listed).2.1
    rw [contains_insert_self] at absent
    cases absent
  · obtain ⟨stored, absent, pooled⟩ := accepted hash listed
    refine ⟨stored, ?_, pooled⟩
    by_cases same : hash = tx.hash
    · rw [same, contains_insert_self] at absent
      cases absent
    · rwa [contains_insert_of_ne same] at absent

/-- Peer `1`, connected, with the orphan `50` of `OrphanPool.oneOrphan` in the pool. -/
def Handling.orphanHolder : Handling :=
  { Handling.connectedPeer with logic := { Handling.connectedPeer.logic with orphans := OrphanPool.oneOrphan } }

/-- Accepting `parentTx`, whose first output `50` spends, resolves the orphan
pool of `Handling.orphanHolder`. -/
theorem orphanResolution_terminates_parent :
    Handling.orphanHolder.logic.orphans.Consistent ∧
      ∃ res, Resolution.resolveOrphans Handling.acceptingEnv
          (Handling.resolutionFuel { Handling.orphanHolder.logic with
            mempool := Handling.orphanHolder.logic.mempool.insert Handling.parentTx.hash () } Handling.parentTx)
          ⟨{ Handling.orphanHolder.logic with
              mempool := Handling.orphanHolder.logic.mempool.insert Handling.parentTx.hash () },
            Handling.orphanHolder.relays ++ [.tx Handling.parentTx.hash],
            Resolution.outputs Handling.parentTx.hash Handling.parentTx.voutCount, ∅, []⟩ = some res ∧
        res.vWorkQueue = [] ∧ res.logic.orphans = Handling.orphanHolder.logic.orphans ∧
        ∃ hashes : List Hash, res.relays = Handling.orphanHolder.relays ++ (Handling.parentTx.hash :: hashes).map Relay.tx ∧
          (Handling.parentTx.hash :: hashes).Nodup ∧
          ∀ hash ∈ hashes, Handling.orphanHolder.logic.orphans.mapOrphanTransactions.contains hash = true ∧
            Handling.orphanHolder.logic.mempool.contains hash = false ∧ res.logic.mempool.contains hash = true :=
  have consistent : Handling.orphanHolder.logic.orphans.Consistent := OrphanPool.consistent_empty.addOrphanTx _ 1
  ⟨consistent, (orphanResolution_terminates Handling.acceptingEnv).2 _ _ consistent⟩

end XuezNet
