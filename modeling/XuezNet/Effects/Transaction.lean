import XuezNet.System.Invariant
import XuezNet.Handlers.Resolution

/-! # What the transaction handler does

`TX` moves the globals by primitive steps only: the `AlreadyHave` of the
transaction, which brings `recentRejects` in step with the active tip, then
mempool insertions, misbehavior scores, insertions into and lookups of
`recentRejects` (all while it stays in step), orphans stored from the peer
itself and orphans erased (`processTx_moves`). Keeping `recentRejects` in step
along the way is what the inner lemmas carry beside the moves.

The branch caches a transaction `AlreadyHave` reports in `recentRejects`,
though `AcceptToMemoryPool` never ran on it (`processTx_caches_known`); an
orphan sent twice is then a rejected parent, and its children are cached and
dropped instead of stored (`processTx_rejected_parent`,
`processTx_orphan_twice_discards_child`).
-/

namespace XuezNet

variable {env : Env}

namespace Resolution

/-- One orphan of the resolution loop moves the globals and keeps them in step. -/
theorem resolveOrphan_moves (res : Resolution) (orphan : COrphanTx)
    (synced : res.logic.hashRecentRejectsChainTip = env.chain.tip) :
    LogicMoves env res.logic (res.resolveOrphan env orphan).logic ∧
      (res.resolveOrphan env orphan).logic.hashRecentRejectsChainTip = env.chain.tip := by
  unfold resolveOrphan
  dsimp only
  by_cases skipped : res.setMisbehaving.contains orphan.fromPeer = true
  · rw [if_pos skipped]
    exact ⟨.refl, synced⟩
  rw [if_neg skipped]
  by_cases accepted : (env.atmp res.logic.mempool orphan.tx).accepted = true
  · rw [if_pos accepted]
    exact ⟨.single (.acceptToMempool _ _), synced⟩
  rw [if_neg accepted]
  by_cases rejected : (!(env.atmp res.logic.mempool orphan.tx).fMissingInputs) = true
  · rw [if_pos rejected]
    split_ifs <;> first
      | exact ⟨.refl, synced⟩
      | exact ⟨.single (.misbehaving _ _), synced⟩
      | exact ⟨.single (.rejectsInsert synced _), synced⟩
      | exact ⟨.tail (.single (.misbehaving _ _)) (.rejectsInsert
          (show (res.logic.misbehaving env _ _).hashRecentRejectsChainTip = _ from synced) _), synced⟩
  · rw [if_neg rejected]
    exact ⟨.refl, synced⟩

/-- The inner loop over the orphans of one parent. -/
theorem resolveChildren_moves :
    ∀ {hashes : List Hash} {res res' : Resolution}, resolveChildren env res hashes = some res' →
      res.logic.hashRecentRejectsChainTip = env.chain.tip →
      LogicMoves env res.logic res'.logic ∧ res'.logic.hashRecentRejectsChainTip = env.chain.tip
  | [], res, res', ran, synced => by
      cases ran
      exact ⟨.refl, synced⟩
  | orphanHash :: rest, res, res', ran, synced => by
      unfold resolveChildren at ran
      cases found : res.logic.orphans.mapOrphanTransactions.find? orphanHash with
      | none => simp [found] at ran
      | some orphan =>
          simp only [found, Option.bind_eq_bind, Option.some_bind] at ran
          have first := res.resolveOrphan_moves orphan synced
          have rest := resolveChildren_moves ran first.2
          exact ⟨first.1.trans rest.1, rest.2⟩

/-- The outer loop over the queued outpoints. -/
theorem resolveOrphans_moves :
    ∀ {fuel : Nat} {res res' : Resolution}, resolveOrphans env fuel res = some res' →
      res.logic.hashRecentRejectsChainTip = env.chain.tip →
      LogicMoves env res.logic res'.logic ∧ res'.logic.hashRecentRejectsChainTip = env.chain.tip
  | 0, _, _, ran, _ => by cases ran
  | fuel + 1, res, res', ran, synced => by
      unfold resolveOrphans at ran
      split at ran
      · cases ran
        exact ⟨.refl, synced⟩
      · obtain ⟨mid, children, ran⟩ := Option.bind_eq_some.mp ran
        have first := resolveChildren_moves children synced
        have rest := resolveOrphans_moves ran first.2
        exact ⟨first.1.trans rest.1, rest.2⟩

end Resolution

/-- Erasing a list of orphans is a sequence of erasures. -/
theorem foldl_eraseOrphan_moves :
    ∀ (hashes : List Hash) (logic : PeerLogic),
      LogicMoves env logic { logic with orphans := hashes.foldl OrphanPool.eraseOrphanTx logic.orphans }
  | [], _ => .refl
  | hash :: rest, logic =>
      (Relation.ReflTransGen.single (.eraseOrphan logic hash)).trans
        (foldl_eraseOrphan_moves rest { logic with orphans := logic.orphans.eraseOrphanTx hash })

namespace Handling

variable {h h' : Handling} {tx : CTransaction}

/-- The accepted branch moves, in step. -/
theorem accepted_moves (synced : h.logic.hashRecentRejectsChainTip = env.chain.tip)
    (ran : accepted env h tx = some h') :
    Moves env h h' ∧ h'.logic.hashRecentRejectsChainTip = env.chain.tip := by
  unfold accepted at ran
  obtain ⟨res, resolved, ran⟩ := Option.bind_eq_some.mp ran
  simp only [Option.some.injEq] at ran
  subst ran
  have loop := Resolution.resolveOrphans_moves resolved synced
  exact ⟨⟨(Relation.ReflTransGen.single (.acceptToMempool _ _)).trans
      (loop.1.trans (foldl_eraseOrphan_moves _ _)), .update rfl rfl rfl rfl rfl rfl rfl rfl rfl⟩,
    loop.2⟩

/-- The rejected-parents test only looks `recentRejects` up, in step. -/
theorem rejectedParents_moves :
    ∀ (vin : List COutPoint) {logic logic' : PeerLogic} {hit : Bool},
      rejectedParents env logic vin = (logic', hit) → logic.hashRecentRejectsChainTip = env.chain.tip →
      LogicMoves env logic logic' ∧ logic'.hashRecentRejectsChainTip = env.chain.tip
  | [], _, _, _, ran, synced => by
      cases ran
      exact ⟨.refl, synced⟩
  | txin :: rest, logic, logic', hit, ran, synced => by
      unfold rejectedParents at ran
      dsimp only at ran
      split_ifs at ran
      · cases ran
        exact ⟨.single (.rejectsContains synced _), synced⟩
      · have later := rejectedParents_moves rest ran synced
        exact ⟨(Relation.ReflTransGen.single (.rejectsContains synced _)).trans later.1, later.2⟩

/-- Asking for the parents moves, and keeps `recentRejects` in step. -/
theorem askForParents_moves :
    ∀ (vin : List COutPoint) (h : Handling), h.logic.hashRecentRejectsChainTip = env.chain.tip →
      Moves env h (askForParents env h vin) ∧
        (askForParents env h vin).logic.hashRecentRejectsChainTip = env.chain.tip
  | [], h, synced => ⟨.refl h, synced⟩
  | txin :: rest, h, _ => by
      unfold askForParents
      dsimp only
      cases found : h.logic.alreadyHave env ⟨.tx, txin.hash⟩ with
      | mk logic fAlreadyHave =>
          have synced : logic.hashRecentRejectsChainTip = env.chain.tip := by
            simpa [found] using h.logic.alreadyHave_tx_synced env txin.hash
          have known : NodeFrame NetMsg.framed h.node (h.node.addInventoryKnown ⟨.tx, txin.hash⟩) :=
            .update rfl rfl rfl rfl rfl rfl rfl rfl rfl
          have first : Moves env h { h with
              logic
              node := if fAlreadyHave then h.node.addInventoryKnown ⟨.tx, txin.hash⟩
                else (h.node.addInventoryKnown ⟨.tx, txin.hash⟩).askFor ⟨.tx, txin.hash⟩ env.nTimeMicros } := by
            refine ⟨.single (by simpa [found] using (LogicStep.alreadyHave h.logic ⟨.tx, txin.hash⟩ :
              LogicStep env _ _)), ?_⟩
            split_ifs
            · exact known
            · exact known.trans (.askFor _ (by simp) _)
          have later := askForParents_moves rest { h with
            logic
            node := if fAlreadyHave then h.node.addInventoryKnown ⟨.tx, txin.hash⟩
              else (h.node.addInventoryKnown ⟨.tx, txin.hash⟩).askFor ⟨.tx, txin.hash⟩ env.nTimeMicros } synced
          exact ⟨first.trans later.1, later.2⟩

/-- The missing-inputs branch moves, for a registered peer. -/
theorem missingInputs_moves (registered : (h.logic.registry.state h.node.id).isSome)
    (synced : h.logic.hashRecentRejectsChainTip = env.chain.tip) :
    Moves env h (missingInputs env h tx) := by
  unfold missingInputs
  cases found : rejectedParents env h.logic tx.vin with
  | mk logic hit =>
      have parents := rejectedParents_moves tx.vin found synced
      dsimp only
      split_ifs
      · have asked := askForParents_moves tx.vin { h with logic } parents.2
        have still : ((askForParents env { h with logic } tx.vin).logic.registry.state
            (askForParents env { h with logic } tx.vin).node.id).isSome := by
          rw [LogicMoves.state_isSome asked.1.logic, asked.1.node.keeps.id]
          simpa [LogicMoves.state_isSome parents.1] using registered
        exact (((⟨parents.1, .refl h.node⟩ : Moves env h { h with logic }).trans asked.1).trans
          (.step (.addOrphan _ _ still)))
      · exact ⟨parents.1.tail (.rejectsInsert parents.2 _), .refl h.node⟩

/-- The branch for any other outcome moves, in step. -/
theorem otherFailure_moves (synced : h.logic.hashRecentRejectsChainTip = env.chain.tip)
    (state : CValidationState) : Moves env h (otherFailure env h tx state) := by
  unfold otherFailure
  split_ifs
  · exact ⟨.single (.rejectsInsert synced _), .refl h.node⟩
  · exact ⟨.refl, .refl h.node⟩

/-- The closing reply moves. -/
theorem rejectInvalid_moves (h : Handling) (tx : CTransaction) (state : CValidationState) :
    Moves env h (rejectInvalid env h tx state) := by
  unfold rejectInvalid
  split_ifs <;> first
    | exact .refl h
    | exact ⟨.single (.misbehaving _ _), .push h.node rfl⟩
    | exact ⟨.refl, .push h.node rfl⟩
    | exact ⟨.single (.misbehaving _ _), .refl h.node⟩

/-- **The transaction handler moves the globals by primitive steps**, for a
registered peer. -/
theorem processTx_moves (registered : (h.logic.registry.state h.node.id).isSome)
    (ran : processTx env h tx = some h') : Moves env h h' := by
  unfold processTx at ran
  by_cases quiet : (!env.fRelayTxes && (!h.node.fWhitelisted || !env.args.whitelistrelay)) = true
  · rw [if_pos quiet] at ran
    cases ran
    exact .refl h
  · rw [if_neg quiet] at ran
    cases found : h.logic.alreadyHave env ⟨.tx, tx.hash⟩ with
    | mk logic fAlreadyHave =>
        have synced : logic.hashRecentRejectsChainTip = env.chain.tip := by
          simpa [found] using h.logic.alreadyHave_tx_synced env tx.hash
        have start : Moves env h { h with
            logic
            node := { h.node.addInventoryKnown ⟨.tx, tx.hash⟩ with
              setAskFor := (h.node.addInventoryKnown ⟨.tx, tx.hash⟩).setAskFor.erase tx.hash } } :=
          ⟨.single (by simpa [found] using (LogicStep.alreadyHave h.logic ⟨.tx, tx.hash⟩ : LogicStep env _ _)),
            .update rfl rfl rfl rfl rfl rfl rfl rfl rfl⟩
        have registered' : (logic.registry.state h.node.id).isSome := by
          simpa [LogicMoves.state_isSome start.logic] using registered
        simp only [found] at ran
        by_cases known : fAlreadyHave = true
        · rw [if_pos known] at ran
          cases ran
          exact start.trans ((otherFailure_moves synced _).trans (rejectInvalid_moves _ _ _))
        rw [if_neg known] at ran
        by_cases accepted : (env.atmp logic.mempool tx).accepted = true
        · rw [if_pos accepted] at ran
          obtain ⟨mid, accepting, rfl⟩ := Option.map_eq_some'.mp ran
          exact start.trans ((accepted_moves synced accepting).1.trans (rejectInvalid_moves _ _ _))
        rw [if_neg accepted] at ran
        by_cases missing : (env.atmp logic.mempool tx).fMissingInputs = true
        · rw [if_pos missing] at ran
          cases ran
          exact start.trans ((missingInputs_moves registered' synced).trans (rejectInvalid_moves _ _ _))
        · rw [if_neg missing] at ran
          cases ran
          exact start.trans ((otherFailure_moves synced _).trans (rejectInvalid_moves _ _ _))

/-- **`ProcessMessage(TX)` returns** over a consistent orphan pool, which every
reachable state has (`PeerLogic.Sound.orphans`): the `none` the model gives
where `mapOrphanTransactions[orphanHash]` would insert a default entry is never
met. -/
theorem processTx_isSome (h : Handling) (tx : CTransaction) (consistent : h.logic.orphans.Consistent) :
    (processTx env h tx).isSome := by
  unfold processTx
  by_cases quiet : (!env.fRelayTxes && (!h.node.fWhitelisted || !env.args.whitelistrelay)) = true
  · rw [if_pos quiet]
    rfl
  rw [if_neg quiet]
  cases found : h.logic.alreadyHave env ⟨.tx, tx.hash⟩ with
  | mk logic fAlreadyHave =>
      have kept : logic.orphans = h.logic.orphans := by
        simpa [found] using h.logic.alreadyHave_orphans env ⟨.tx, tx.hash⟩
      simp only [found]
      by_cases known : fAlreadyHave = true
      · rw [if_pos known]
        rfl
      rw [if_neg known]
      by_cases accepted : (env.atmp logic.mempool tx).accepted = true
      · rw [if_pos accepted, Option.isSome_map']
        exact accepted_isSome env _ tx (kept ▸ consistent)
      rw [if_neg accepted]
      by_cases missing : (env.atmp logic.mempool tx).fMissingInputs = true
      · rw [if_pos missing]
        rfl
      · rw [if_neg missing]
        rfl

end Handling

/-! ## What the accepted branch leaves in the orphan pool

The orphan loop pushes to `vEraseQueue` each orphan it accepts and relays, and
each one it rejects with its inputs present; the branch erases the queue once the
loop is done. So no orphan the branch relays stays in the pool, and the pool
gains none (`accepted_erases`).
-/

namespace Resolution

/-- What the loop does from one of its states to a later one: the pool stays as
it was, and the transactions it relays are queued for erasure, in the order
relayed, among the other orphans it resolves. -/
structure Erases (res res' : Resolution) : Prop where
  orphans : res'.logic.orphans = res.logic.orphans
  queued : ∃ hashes erased : List Hash, res'.relays = res.relays ++ hashes.map Relay.tx ∧
    res'.vEraseQueue = res.vEraseQueue ++ erased ∧ hashes.Sublist erased

namespace Erases

theorem of_eq {res res' : Resolution} (orphans : res'.logic.orphans = res.logic.orphans)
    (relays : res'.relays = res.relays) (queue : res'.vEraseQueue = res.vEraseQueue) : Erases res res' :=
  ⟨orphans, [], [], by rw [relays, List.map_nil, List.append_nil], by rw [queue, List.append_nil],
    List.Sublist.slnil⟩

theorem trans {res res₁ res₂ : Resolution} (first : Erases res res₁) (second : Erases res₁ res₂) :
    Erases res res₂ := by
  obtain ⟨hashes, erased, relays, queue, sub⟩ := first.queued
  obtain ⟨hashes', erased', relays', queue', sub'⟩ := second.queued
  exact ⟨second.orphans.trans first.orphans, hashes ++ hashes', erased ++ erased',
    by rw [relays', relays, List.map_append, List.append_assoc],
    by rw [queue', queue, List.append_assoc], sub.append sub'⟩

end Erases

variable (env) in
/-- One orphan of the loop queues for erasure the orphan it accepts and relays,
and the one it rejects with its inputs present. -/
theorem resolveOrphan_erases (res : Resolution) (orphan : COrphanTx) :
    Erases res (res.resolveOrphan env orphan) := by
  unfold resolveOrphan
  dsimp only
  by_cases skipped : res.setMisbehaving.contains orphan.fromPeer = true
  · rw [if_pos skipped]
    exact .of_eq rfl rfl rfl
  rw [if_neg skipped]
  by_cases accepted : (env.atmp res.logic.mempool orphan.tx).accepted = true
  · rw [if_pos accepted]
    exact ⟨rfl, [orphan.tx.hash], [orphan.tx.hash], rfl, rfl, .refl _⟩
  rw [if_neg accepted]
  by_cases rejected : (!(env.atmp res.logic.mempool orphan.tx).fMissingInputs) = true
  · rw [if_pos rejected]
    refine ⟨?_, [], [orphan.tx.hash], (List.append_nil _).symm, rfl, List.nil_sublist _⟩
    split_ifs <;> rfl
  · rw [if_neg rejected]
    exact .of_eq rfl rfl rfl

/-- The inner loop over the orphans of one parent. -/
theorem resolveChildren_erases :
    ∀ {hashes : List Hash} {res res' : Resolution}, resolveChildren env res hashes = some res' → Erases res res'
  | [], res, res', ran => by
      cases ran
      exact .of_eq rfl rfl rfl
  | orphanHash :: rest, res, res', ran => by
      unfold resolveChildren at ran
      obtain ⟨orphan, -, ran⟩ := Option.bind_eq_some.mp ran
      exact (resolveOrphan_erases env res orphan).trans (resolveChildren_erases ran)

/-- The outer loop over the queued outpoints. -/
theorem resolveOrphans_erases :
    ∀ {fuel : Nat} {res res' : Resolution}, resolveOrphans env fuel res = some res' → Erases res res'
  | 0, _, _, ran => by cases ran
  | fuel + 1, res, res', ran => by
      unfold resolveOrphans at ran
      split at ran
      · cases ran
        exact .of_eq rfl rfl rfl
      · obtain ⟨mid, children, ran⟩ := Option.bind_eq_some.mp ran
        refine Erases.trans ?_ ((resolveChildren_erases children).trans (resolveOrphans_erases ran))
        exact .of_eq rfl rfl rfl

end Resolution

namespace Handling

variable {h h' : Handling} {tx : CTransaction}

/-- **The accepted branch of `TX` leaves no relayed orphan in the pool.** It
relays the transaction and then the orphans the loop accepts; none of those
orphans is in the pool afterwards, and the pool holds no orphan it did not hold
before. -/
theorem accepted_erases (ran : accepted env h tx = some h') :
    ∃ hashes : List Hash, h'.relays = h.relays ++ (tx.hash :: hashes).map Relay.tx ∧
      (∀ hash ∈ hashes, h'.logic.orphans.mapOrphanTransactions.find? hash = none) ∧
      ∀ {hash orphan}, h'.logic.orphans.mapOrphanTransactions.find? hash = some orphan →
        h.logic.orphans.mapOrphanTransactions.find? hash = some orphan := by
  unfold accepted at ran
  obtain ⟨res, resolved, ran⟩ := Option.bind_eq_some.mp ran
  cases ran
  obtain ⟨kept, hashes, erased, relays, queue, sub⟩ := Resolution.resolveOrphans_erases resolved
  rw [List.nil_append] at queue
  refine ⟨hashes, by rw [relays, List.map_cons, List.append_assoc]; rfl, fun hash relayed => ?_, fun found => ?_⟩
  · rw [OrphanPool.find?_foldl_eraseOrphanTx, if_pos (queue ▸ sub.subset relayed)]
  · rw [OrphanPool.find?_foldl_eraseOrphanTx, kept] at found
    split_ifs at found
    exact found

/-- Accepting `parentTx` relays the orphan `50` of `Handling.orphanHolder` and
erases it from the pool. -/
theorem accepted_erases_parent :
    ∃ h', accepted acceptingEnv orphanHolder parentTx = some h' ∧
      ∃ hashes : List Hash, h'.relays = orphanHolder.relays ++ (parentTx.hash :: hashes).map Relay.tx ∧
        (∀ hash ∈ hashes, h'.logic.orphans.mapOrphanTransactions.find? hash = none) ∧
        ∀ {hash orphan}, h'.logic.orphans.mapOrphanTransactions.find? hash = some orphan →
          orphanHolder.logic.orphans.mapOrphanTransactions.find? hash = some orphan := by
  obtain ⟨h', ran⟩ := Option.isSome_iff_exists.mp (by decide : (accepted acceptingEnv orphanHolder parentTx).isSome)
  exact ⟨h', ran, accepted_erases ran⟩

example : (accepted acceptingEnv orphanHolder parentTx).map
    (fun h' => (h'.relays, h'.logic.orphans.mapOrphanTransactions.find? 50)) = some ([.tx 40, .tx 50], none) := by
  decide

/-! ## The cache slip of `TX` -/

section Slip

/-- The rejected-parents test only records lookups. -/
theorem rejectedParents_orphans : ∀ (logic : PeerLogic) (vin : List COutPoint),
    (rejectedParents env logic vin).1.orphans = logic.orphans
  | _, [] => rfl
  | logic, txin :: rest => by
      unfold rejectedParents
      dsimp only
      split
      · rfl
      · exact rejectedParents_orphans _ rest

/-- The closing reply adds no rejection and touches no orphan. -/
@[simp] theorem rejectInvalid_orphans (h : Handling) (tx : CTransaction) (state : CValidationState) :
    (rejectInvalid env h tx state).logic.orphans = h.logic.orphans := by
  unfold rejectInvalid
  split_ifs <;> simp [PeerLogic.misbehaving]

@[simp] theorem rejectInvalid_recentRejects (h : Handling) (tx : CTransaction) (state : CValidationState) :
    (rejectInvalid env h tx state).logic.recentRejects = h.logic.recentRejects := by
  unfold rejectInvalid
  split_ifs <;> simp [PeerLogic.misbehaving]

variable (env)

/-- A transaction that `AlreadyHave` reports, from a peer allowed to relay, is
cached in `recentRejects`: the short-circuit of `!AlreadyHave(inv) && ...` falls
into the final `else`, which inserts it, although `AcceptToMemoryPool` never ran
on it. The orphan pool is left alone. -/
theorem processTx_caches_known {h : Handling} {tx : CTransaction}
    (relaying : (!env.fRelayTxes && (!h.node.fWhitelisted || !env.args.whitelistrelay)) = false)
    (known : (h.logic.alreadyHave env ⟨.tx, tx.hash⟩).2 = true) :
    ∃ h', processTx env h tx = some h' ∧ h'.logic.recentRejects.contains tx.hash = true ∧
      h'.logic.orphans = h.logic.orphans := by
  cases found : h.logic.alreadyHave env ⟨.tx, tx.hash⟩ with
  | mk logic fAlreadyHave =>
      have orphans : logic.orphans = h.logic.orphans := by
        rw [← PeerLogic.alreadyHave_orphans env h.logic ⟨.tx, tx.hash⟩, found]
      rw [found] at known
      subst known
      simp [processTx, relaying, found, otherFailure, CValidationState.fresh, PeerLogic.rejectsInsert, orphans]

/-- A transaction that misses inputs, one of whose parents the rejected-parents
test finds in `recentRejects`, is cached there in turn and never stored as an
orphan: the orphan pool is left alone. -/
theorem processTx_rejected_parent {h : Handling} {tx : CTransaction}
    (relaying : (!env.fRelayTxes && (!h.node.fWhitelisted || !env.args.whitelistrelay)) = false)
    (fresh : (h.logic.alreadyHave env ⟨.tx, tx.hash⟩).2 = false)
    (missing : (env.atmp h.logic.mempool tx).accepted = false ∧ (env.atmp h.logic.mempool tx).fMissingInputs = true)
    (rejected : (rejectedParents env (h.logic.alreadyHave env ⟨.tx, tx.hash⟩).1 tx.vin).2 = true) :
    ∃ h', processTx env h tx = some h' ∧ h'.logic.recentRejects.contains tx.hash = true ∧
      h'.logic.orphans = h.logic.orphans := by
  cases found : h.logic.alreadyHave env ⟨.tx, tx.hash⟩ with
  | mk logic fAlreadyHave =>
      have orphans : logic.orphans = h.logic.orphans := by
        rw [← PeerLogic.alreadyHave_orphans env h.logic ⟨.tx, tx.hash⟩, found]
      have mempool : logic.mempool = h.logic.mempool := by
        rw [← PeerLogic.alreadyHave_mempool env h.logic ⟨.tx, tx.hash⟩, found]
      rw [found] at fresh rejected
      subst fresh
      cases parents : rejectedParents env logic tx.vin with
      | mk logic' hit =>
          have kept : logic'.orphans = h.logic.orphans := by
            rw [← orphans, ← rejectedParents_orphans logic tx.vin, parents]
          rw [parents] at rejected
          subst rejected
          simp [processTx, relaying, found, mempool, missing, missingInputs, parents, PeerLogic.rejectsInsert, kept]

/-- Peer `1` after sending `orphanTx` once, kept as an orphan. -/
def orphanKept : Handling := (processTx missingInputsEnv connectedPeer orphanTx).get (by decide)

/-- And after sending it a second time. -/
def orphanResent : Handling := (processTx missingInputsEnv orphanKept orphanTx).get (by decide)

/-- The orphan `20` received twice: the second copy is cached in `recentRejects`
while it sits in the orphan pool, and its child `30` is then discarded as having
a rejected parent instead of being kept as an orphan. -/
theorem processTx_orphan_twice_discards_child :
    ((processTx missingInputsEnv connectedPeer orphanTx).bind fun first =>
      (processTx missingInputsEnv first orphanTx).bind fun second =>
        (processTx missingInputsEnv second childTx).map fun third =>
          (first.logic.orphans.mapOrphanTransactions.contains 20,
            first.logic.recentRejects.contains 20,
            second.logic.recentRejects.contains 20,
            second.logic.orphans.mapOrphanTransactions.contains 20,
            third.logic.recentRejects.contains 30,
            third.logic.orphans.mapOrphanTransactions.contains 30)) =
      some (true, false, true, true, true, false) := by
  have kept : processTx missingInputsEnv connectedPeer orphanTx = some orphanKept := (Option.some_get _).symm
  obtain ⟨second, resent, cached, stillOrphan⟩ :=
    @processTx_caches_known missingInputsEnv orphanKept orphanTx rfl (by decide)
  have resentEq : processTx missingInputsEnv orphanKept orphanTx = some orphanResent := (Option.some_get _).symm
  obtain rfl : second = orphanResent := Option.some.inj (resent.symm.trans resentEq)
  obtain ⟨third, discarded, childCached, noChild⟩ :=
    @processTx_rejected_parent missingInputsEnv orphanResent childTx rfl (by decide) ⟨rfl, rfl⟩ (by decide)
  rw [kept, Option.some_bind, resentEq, Option.some_bind, discarded, Option.map_some', noChild, stillOrphan]
  simp only [show orphanTx.hash = 20 from rfl] at cached
  simp only [show childTx.hash = 30 from rfl] at childCached
  rw [cached, childCached]
  decide

end Slip

end Handling

end XuezNet
