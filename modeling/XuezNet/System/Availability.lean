import XuezNet.Download.Walk
import XuezNet.System.Run
import XuezNet.Effects.Announce

/-! # What a peer is known to have, over runs

`pindexBestKnownBlock` is the best block a peer announced that the index knows.
Only `ProcessBlockAvailability` and `UpdateBlockAvailability` move it, and each
moves it only to a block with at least as much chain work
(`processBlockAvailability_bestGrows`, `updateBlockAvailability_bestGrows`);
every other write of a peer's state keeps it. The block index only grows, and a
block keeps its chain work (`ChainView.Grows`).

`Registry.BestKept` says that every registered peer stays registered and that
its best known block, once set, stays set with at least as much work. It holds
across each registry operation, across each of the `INV` and `HEADERS`
branches, the `SendMessages` tick and the `NewPoWValidBlock` callback, and so
across every run of them over a growing index (`AvailabilityRun.bestKept`).
-/

namespace XuezNet

/-- The block index grew from `chain` to `chain'`: every block it knew is still
known, with the same chain work. The code holds `CBlockIndex` pointers, which
`mapBlockIndex` never frees and whose `nChainWork` is set once; the model holds
hashes and reads the work from the index, so this is what the pointers give. -/
def ChainView.Grows (chain chain' : ChainView) : Prop :=
  ∀ hash block, chain.mapBlockIndex hash = some block →
    ∃ block', chain'.mapBlockIndex hash = some block' ∧ block'.nChainWork = block.nChainWork

theorem ChainView.Grows.refl (chain : ChainView) : chain.Grows chain :=
  fun _ block found => ⟨block, found, rfl⟩

theorem ChainView.Grows.nChainWork_le {chain chain' : ChainView} (grows : chain.Grows chain')
    (hash : Hash) : chain.nChainWork hash ≤ chain'.nChainWork hash := by
  unfold ChainView.nChainWork
  cases found : chain.mapBlockIndex hash with
  | none => exact Nat.zero_le _
  | some block =>
      obtain ⟨block', found', same⟩ := grows hash block found
      simp [found', same]

theorem ChainView.nChainWork_of_found {chain : ChainView} {hash : Hash} {block : CBlockIndex}
    (found : chain.mapBlockIndex hash = some block) : chain.nChainWork hash = block.nChainWork := by
  simp [ChainView.nChainWork, found]

namespace CNodeState

/-- The best known block stays set, with at least as much chain work: measured
in `chain` before and in `chain'` after. -/
def BestGrows (chain chain' : ChainView) (old new : CNodeState) : Prop :=
  ∀ best, old.pindexBestKnownBlock = some best →
    ∃ best', new.pindexBestKnownBlock = some best' ∧ chain.nChainWork best ≤ chain'.nChainWork best'

namespace BestGrows

variable {chain chain' chain'' : ChainView} {old mid new : CNodeState}

theorem of_eq (same : new.pindexBestKnownBlock = old.pindexBestKnownBlock) :
    old.BestGrows chain chain new :=
  fun best found => ⟨best, same.trans found, le_refl _⟩

theorem trans (first : old.BestGrows chain chain' mid) (second : mid.BestGrows chain' chain'' new) :
    old.BestGrows chain chain'' new := fun best found =>
  let ⟨best', found', le⟩ := first best found
  let ⟨best'', found'', le'⟩ := second best' found'
  ⟨best'', found'', le.trans le'⟩

theorem of_grows (grows : chain.Grows chain') (nodeState : CNodeState) :
    nodeState.BestGrows chain chain' nodeState :=
  fun best found => ⟨best, found, grows.nChainWork_le best⟩

end BestGrows

variable (chain : ChainView)

/-- The refresh replaces the best known block only by the parked block, when
that has at least as much work. -/
theorem processBlockAvailability_bestGrows (nodeState : CNodeState) :
    nodeState.BestGrows chain chain (nodeState.processBlockAvailability chain) := by
  intro best current
  unfold processBlockAvailability
  split_ifs with parked
  · cases known : chain.mapBlockIndex nodeState.hashLastUnknownBlock with
    | none => exact ⟨best, current, le_refl _⟩
    | some old =>
        by_cases positive : 0 < old.nChainWork
        · by_cases better : chain.nChainWork best ≤ old.nChainWork
          · exact ⟨_, by simp [positive, current, better], (ChainView.nChainWork_of_found known).ge.trans' better⟩
          · exact ⟨best, by simp [positive, current, better], le_refl _⟩
        · exact ⟨best, by simp [positive, current], le_refl _⟩
  · exact ⟨best, current, le_refl _⟩

/-- **`ProcessBlockAvailability` clears the parked hash exactly when it has
become known with positive work.** -/
theorem processBlockAvailability_clears (nodeState : CNodeState) (parked : nodeState.hashLastUnknownBlock ≠ 0) :
    (nodeState.processBlockAvailability chain).hashLastUnknownBlock = 0 ↔
      ∃ block, chain.mapBlockIndex nodeState.hashLastUnknownBlock = some block ∧ 0 < block.nChainWork := by
  unfold processBlockAvailability
  rw [if_pos parked]
  cases known : chain.mapBlockIndex nodeState.hashLastUnknownBlock with
  | none => simpa using parked
  | some block =>
      by_cases positive : 0 < block.nChainWork
      · simp [positive]
      · simpa [positive] using parked

/-- Once the parked hash is known with positive work, the refresh leaves a best
known block with at least its work. -/
theorem processBlockAvailability_lifts (nodeState : CNodeState) {block : CBlockIndex}
    (parked : nodeState.hashLastUnknownBlock ≠ 0)
    (known : chain.mapBlockIndex nodeState.hashLastUnknownBlock = some block)
    (positive : 0 < block.nChainWork) :
    ∃ best, (nodeState.processBlockAvailability chain).pindexBestKnownBlock = some best ∧
      block.nChainWork ≤ chain.nChainWork best := by
  unfold processBlockAvailability
  simp only [if_pos parked, known, if_pos positive]
  cases current : nodeState.pindexBestKnownBlock with
  | none => exact ⟨_, by simp [current], (ChainView.nChainWork_of_found known).ge⟩
  | some best =>
      by_cases better : chain.nChainWork best ≤ block.nChainWork
      · exact ⟨_, by simp [current, better], (ChainView.nChainWork_of_found known).ge⟩
      · exact ⟨best, by simp [current, better], by omega⟩

/-- **`UpdateBlockAvailability` with a known block of positive work** leaves a
best known block with at least its work. -/
theorem updateBlockAvailability_best (nodeState : CNodeState) {hash : Hash} {block : CBlockIndex}
    (known : chain.mapBlockIndex hash = some block) (positive : 0 < block.nChainWork) :
    ∃ best, (nodeState.updateBlockAvailability chain hash).pindexBestKnownBlock = some best ∧
      block.nChainWork ≤ chain.nChainWork best := by
  unfold updateBlockAvailability
  simp only [known, if_pos positive]
  split
  · exact ⟨hash, rfl, (ChainView.nChainWork_of_found known).ge⟩
  · next best _ =>
    split
    · exact ⟨hash, rfl, (ChainView.nChainWork_of_found known).ge⟩
    · exact ⟨best, ‹_›, by omega⟩

theorem updateBlockAvailability_bestGrows (nodeState : CNodeState) (hash : Hash) :
    nodeState.BestGrows chain chain (nodeState.updateBlockAvailability chain hash) := by
  refine (processBlockAvailability_bestGrows chain nodeState).trans fun best current => ?_
  unfold updateBlockAvailability
  cases known : chain.mapBlockIndex hash with
  | none => exact ⟨best, current, le_refl _⟩
  | some block =>
      by_cases positive : 0 < block.nChainWork
      · by_cases better : chain.nChainWork best ≤ block.nChainWork
        · exact ⟨hash, by simp [positive, current, better], (ChainView.nChainWork_of_found known).ge.trans' better⟩
        · exact ⟨best, by simp [positive, current, better], le_refl _⟩
      · exact ⟨best, by simp [positive, current], le_refl _⟩

end CNodeState

namespace Registry

open CNodeState

/-- Every registered peer stays registered, and its best known block, once
set, stays set with at least as much chain work. -/
def BestKept (chain chain' : ChainView) (registry registry' : Registry) : Prop :=
  ∀ nodeid nodeState, registry.state nodeid = some nodeState →
    ∃ nodeState', registry'.state nodeid = some nodeState' ∧ nodeState.BestGrows chain chain' nodeState'

namespace BestKept

variable {chain chain' chain'' : ChainView} {registry registry' registry'' : Registry}

theorem refl (chain : ChainView) (registry : Registry) : BestKept chain chain registry registry :=
  fun _ nodeState found => ⟨nodeState, found, .of_eq rfl⟩

theorem trans (first : BestKept chain chain' registry registry')
    (second : BestKept chain' chain'' registry' registry'') : BestKept chain chain'' registry registry'' :=
  fun nodeid nodeState found =>
    let ⟨mid, found', grows⟩ := first nodeid nodeState found
    let ⟨last, found'', grows'⟩ := second nodeid mid found'
    ⟨last, found'', grows.trans grows'⟩

theorem of_grows (grows : chain.Grows chain') (registry : Registry) : BestKept chain chain' registry registry :=
  fun _ nodeState found => ⟨nodeState, found, .of_grows grows nodeState⟩

/-- Writing back a registered peer's state whose best known block grows. -/
theorem setState {nodeid : NodeId} {old new : CNodeState} (found : registry.state nodeid = some old)
    (grows : old.BestGrows chain chain new) : BestKept chain chain registry (registry.setState nodeid new) := by
  intro other nodeState known
  by_cases same : other = nodeid
  · subst same
    rw [found] at known
    cases known
    exact ⟨new, by simp, grows⟩
  · exact ⟨nodeState, by simp [same, known], .of_eq rfl⟩

theorem misbehaving (registry : Registry) (nodeid : NodeId) (howmuch banscore : Int) :
    BestKept chain chain registry (registry.misbehaving nodeid howmuch banscore) := by
  unfold Registry.misbehaving
  split
  · exact .refl chain registry
  · split
    · exact .refl chain registry
    · next found => exact setState found (.of_eq rfl)

theorem markBlockAsReceived {hash : Hash} {now : Int} {received : Bool}
    (marked : registry.markBlockAsReceived hash now = some (registry', received)) :
    BestKept chain chain registry registry' := by
  unfold Registry.markBlockAsReceived at marked
  split at marked
  · cases marked
    exact .refl chain registry
  · obtain ⟨nodeState, found, marked⟩ := Option.bind_eq_some.mp marked
    obtain ⟨queued, -, marked⟩ := Option.bind_eq_some.mp marked
    cases marked
    exact setState found (.of_eq rfl)

theorem markBlockAsInFlight {nodeid : NodeId} {hash : Hash} {pindex : Option Hash} {now : Int}
    (marked : registry.markBlockAsInFlight nodeid hash pindex now = some registry') :
    BestKept chain chain registry registry' := by
  obtain ⟨_, -, marked⟩ := Option.bind_eq_some.mp marked
  obtain ⟨⟨released, received⟩, receivedEq, marked⟩ := Option.bind_eq_some.mp marked
  obtain ⟨nodeState, present, marked⟩ := Option.bind_eq_some.mp marked
  cases marked
  exact (markBlockAsReceived receivedEq).trans (setState present (.of_eq rfl))

theorem startSync {nodeid : NodeId} (started : registry.startSync nodeid = some registry') :
    BestKept chain chain registry registry' := by
  unfold Registry.startSync at started
  obtain ⟨nodeState, found, started⟩ := Option.bind_eq_some.mp started
  split at started <;> cases started
  · exact .refl chain registry
  · exact setState found (.of_eq rfl)

theorem processBlockAvailability {nodeid : NodeId}
    (updated : registry.processBlockAvailability chain nodeid = some registry') :
    BestKept chain chain registry registry' := by
  obtain ⟨nodeState, found, updated⟩ := Option.bind_eq_some.mp updated
  cases updated
  exact setState found (nodeState.processBlockAvailability_bestGrows chain)

theorem updateBlockAvailability {nodeid : NodeId} {hash : Hash}
    (updated : registry.updateBlockAvailability chain nodeid hash = some registry') :
    BestKept chain chain registry registry' := by
  obtain ⟨nodeState, found, updated⟩ := Option.bind_eq_some.mp updated
  cases updated
  exact setState found (nodeState.updateBlockAvailability_bestGrows chain hash)

end BestKept

end Registry

open Registry

theorem PeerLogic.markBlockAsInFlight_bestKept (env : Env) {chain : ChainView} {logic logic' : PeerLogic}
    {nodeid : NodeId} {hash : Hash} {pindex : Option Hash}
    (marked : logic.markBlockAsInFlight env nodeid hash pindex = some logic') :
    BestKept chain chain logic.registry logic'.registry := by
  obtain ⟨registry, marking, rfl⟩ := logic.markBlockAsInFlight_eq env marked
  exact BestKept.markBlockAsInFlight marking

namespace Handling

variable {env : Env} {h h' : Handling}

theorem announceBlock_bestKept {vToFetch vToFetch' : List CInv} {inv : CInv} {fAlreadyHave : Bool}
    (ran : announceBlock env h vToFetch inv fAlreadyHave = some (h', vToFetch')) :
    BestKept env.chain env.chain h.logic.registry h'.logic.registry := by
  unfold announceBlock at ran
  obtain ⟨registry, updated, ran⟩ := Option.bind_eq_some.mp ran
  have first := BestKept.updateBlockAvailability updated
  split at ran
  · simp only [Option.pure_def, Option.some.injEq, Prod.mk.injEq] at ran
    obtain ⟨rfl, -⟩ := ran
    exact first
  · simp only [Option.pure_def, Option.bind_eq_bind, Option.some_bind] at ran
    obtain ⟨nodestate, -, ran⟩ := Option.bind_eq_some.mp ran
    split at ran
    · obtain ⟨logic, marked, ran⟩ := Option.bind_eq_some.mp ran
      obtain ⟨-, -, ran⟩ := Option.bind_eq_some.mp ran
      cases ran
      exact first.trans (PeerLogic.markBlockAsInFlight_bestKept env marked)
    · obtain ⟨-, -, ran⟩ := Option.bind_eq_some.mp ran
      cases ran
      exact first

theorem invLoop_bestKept {fBlocksOnly : Bool} {interrupted : Nat → Bool} :
    ∀ {vInv : List CInv} {n : Nat} {h h' : Handling} {vToFetch : List CInv} {fRet : Bool},
      invLoop env fBlocksOnly interrupted n vInv h vToFetch = some (h', fRet) →
      BestKept env.chain env.chain h.logic.registry h'.logic.registry
  | [], n, h, h', vToFetch, fRet, ran => by
      unfold invLoop at ran
      cases ran
      exact .refl _ _
  | inv :: rest, n, h, h', vToFetch, fRet, ran => by
      unfold invLoop at ran
      split at ran
      · cases ran
        exact .refl _ _
      · have checked := PeerLogic.alreadyHave_registry env h.logic inv
        cases found : h.logic.alreadyHave env inv with
        | mk logic fAlreadyHave =>
            rw [found] at checked
            simp only [found] at ran
            split at ran
            · obtain ⟨⟨h₁, vToFetch₁⟩, announced, ran⟩ := Option.bind_eq_some.mp ran
              have first := announceBlock_bestKept announced
              rw [checked] at first
              exact first.trans (invLoop_bestKept ran)
            · have later := invLoop_bestKept ran
              rwa [checked] at later

theorem processInv_bestKept {interrupted : Nat → Bool} {vInv : List CInv} {fRet : Bool}
    (ran : processInv env interrupted h vInv = some (h', fRet)) :
    BestKept env.chain env.chain h.logic.registry h'.logic.registry := by
  unfold processInv at ran
  split at ran
  · cases ran
    exact BestKept.misbehaving _ _ _ _
  · exact invLoop_bestKept ran

theorem acceptHeaders_bestKept (logic : PeerLogic) (nodeid : NodeId) :
    ∀ (pindexLast : Option Hash) (headers : List CBlockHeader),
      BestKept env.chain env.chain logic.registry (acceptHeaders env logic nodeid pindexLast headers).1.registry
  | _, [] => .refl _ _
  | pindexLast, header :: rest => by
      unfold acceptHeaders
      dsimp only
      split
      · exact BestKept.misbehaving _ _ _ _
      · split
        · split
          · exact BestKept.misbehaving _ _ _ _
          · exact .refl _ _
        · exact acceptHeaders_bestKept logic nodeid _ rest

theorem requestBlocks_bestKept {nodeid : NodeId} :
    ∀ {hashes : List Hash} {logic logic' : PeerLogic} {vGetData vGetData' : List CInv},
      requestBlocks env nodeid hashes logic vGetData = some (logic', vGetData') →
      BestKept env.chain env.chain logic.registry logic'.registry
  | [], logic, logic', vGetData, vGetData', ran => by
      unfold requestBlocks at ran
      cases ran
      exact .refl _ _
  | hash :: rest, logic, logic', vGetData, vGetData', ran => by
      unfold requestBlocks at ran
      obtain ⟨nodestate, -, ran⟩ := Option.bind_eq_some.mp ran
      split at ran
      · simp only [Option.pure_def, Option.some.injEq, Prod.mk.injEq] at ran
        obtain ⟨rfl, -⟩ := ran
        exact .refl _ _
      · simp only [Option.pure_def, Option.bind_eq_bind, Option.some_bind] at ran
        obtain ⟨mid, marked, ran⟩ := Option.bind_eq_some.mp ran
        exact (PeerLogic.markBlockAsInFlight_bestKept env marked).trans (requestBlocks_bestKept ran)

theorem directFetch_bestKept {last : Hash} (ran : directFetch env h last = some h') :
    BestKept env.chain env.chain h.logic.registry h'.logic.registry := by
  unfold directFetch at ran
  obtain ⟨block, -, ran⟩ := Option.bind_eq_some.mp ran
  split at ran
  · cases ran
    exact .refl _ _
  simp only [Option.pure_def, Option.bind_eq_bind, Option.some_bind] at ran
  obtain ⟨⟨pindexWalk, vToFetch⟩, -, ran⟩ := Option.bind_eq_some.mp ran
  obtain ⟨walk, -, ran⟩ := Option.bind_eq_some.mp ran
  split at ran
  · cases ran
    exact .refl _ _
  simp only [Option.pure_def, Option.bind_eq_bind, Option.some_bind] at ran
  obtain ⟨⟨logic, vGetData⟩, requested, ran⟩ := Option.bind_eq_some.mp ran
  cases ran
  exact requestBlocks_bestKept requested

theorem processHeaders_bestKept {headers : List CBlockHeader} {fRet : Bool}
    (ran : processHeaders env h headers = some (h', fRet)) :
    BestKept env.chain env.chain h.logic.registry h'.logic.registry := by
  unfold processHeaders at ran
  by_cases importing : (env.fImporting || env.fReindex) = true
  · rw [if_pos importing] at ran
    cases ran
    exact .refl _ _
  rw [if_neg importing] at ran
  by_cases tooMany : MAX_HEADERS_RESULTS < headers.length
  · rw [if_pos tooMany] at ran
    cases ran
    exact BestKept.misbehaving _ _ _ _
  rw [if_neg tooMany] at ran
  by_cases empty : headers.isEmpty = true
  · rw [if_pos empty] at ran
    cases ran
    exact .refl _ _
  rw [if_neg empty] at ran
  have accepted : BestKept env.chain env.chain h.logic.registry
      (acceptHeaders env h.logic h.node.id none headers).1.registry :=
    acceptHeaders_bestKept h.logic h.node.id none headers
  cases found : acceptHeaders env h.logic h.node.id none headers with
  | mk logic rest =>
      obtain ⟨pindexLast, fOk⟩ := rest
      rw [found] at accepted
      simp only [found] at ran
      cases fOk
      · cases ran
        exact accepted
      simp only [Bool.not_true, Bool.false_eq_true, ↓reduceIte, Option.pure_def, Option.bind_eq_bind,
        Option.some_bind] at ran
      cases pindexLast with
      | none =>
          by_cases direct : (!env.canDirectFetch) = true
          · rw [if_pos direct] at ran
            cases ran
            exact accepted
          · rw [if_neg direct] at ran
            cases ran
      | some last =>
          obtain ⟨registry, updated, ran⟩ := Option.bind_eq_some.mp ran
          have available := accepted.trans (BestKept.updateBlockAvailability updated)
          by_cases direct : (!env.canDirectFetch) = true
          · rw [if_pos direct] at ran
            cases ran
            exact available
          · rw [if_neg direct, Option.some_bind] at ran
            obtain ⟨h₁, fetched, ran⟩ := Option.bind_eq_some.mp ran
            cases ran
            exact available.trans (directFetch_bestKept fetched)

theorem sendRejectsAndCheckIfBanned_bestKept (chain : ChainView) {fShouldBan : Bool}
    (ran : sendRejectsAndCheckIfBanned h = some (h', fShouldBan)) :
    BestKept chain chain h.logic.registry h'.logic.registry := by
  unfold sendRejectsAndCheckIfBanned at ran
  obtain ⟨state, found, ran⟩ := Option.bind_eq_some.mp ran
  simp only [Option.some.injEq, Prod.mk.injEq] at ran
  obtain ⟨rfl, -⟩ := ran
  exact BestKept.setState found (.of_eq rfl)

theorem startSync_bestKept {state : CNodeState} {fFetch : Bool} (ran : startSync env h state fFetch = some h') :
    BestKept env.chain env.chain h.logic.registry h'.logic.registry := by
  unfold startSync at ran
  dsimp only at ran
  split at ran
  · cases ran
    exact .refl _ _
  simp only [Option.pure_def, Option.bind_eq_bind, Option.some_bind] at ran
  obtain ⟨best, -, ran⟩ := Option.bind_eq_some.mp ran
  split at ran
  · cases ran
    exact .refl _ _
  · obtain ⟨registry, syncing, ran⟩ := Option.bind_eq_some.mp ran
    cases ran
    exact BestKept.startSync syncing

theorem announceBlocks_bestKept (ran : announceBlocks env h = some h') :
    BestKept env.chain env.chain h.logic.registry h'.logic.registry := by
  unfold announceBlocks at ran
  obtain ⟨registry, updated, ran⟩ := Option.bind_eq_some.mp ran
  obtain ⟨state, found, ran⟩ := Option.bind_eq_some.mp ran
  obtain ⟨found', -, ran⟩ := Option.bind_eq_some.mp ran
  obtain ⟨node, -, ran⟩ := Option.bind_eq_some.mp ran
  cases ran
  refine (BestKept.processBlockAvailability updated).trans ?_
  unfold announceHeaders
  split
  · split
    · exact BestKept.setState found (.of_eq rfl)
    · exact .refl _ _
  · exact .refl _ _

theorem trickleTxs_registry (nNow : Int) :
    ∀ (hashes : List Hash) (nRelayedTransactions : Nat) (h : Handling) (vInv : List CInv),
      (trickleTxs env nNow hashes nRelayedTransactions h vInv).1.logic.registry = h.logic.registry
  | [], _, _, _ => rfl
  | hash :: rest, nRelayedTransactions, h, vInv => by
      unfold trickleTxs
      split
      · rfl
      · dsimp only
        split
        · exact trickleTxs_registry nNow rest _ _ _
        · exact trickleTxs_registry nNow rest _ _ _

theorem sendInventory_registry (tick : Tick) (h : Handling) :
    (sendInventory env tick h).logic.registry = h.logic.registry := by
  unfold sendInventory
  dsimp only
  split
  · exact trickleTxs_registry _ _ _ _ _
  · rfl

theorem requestDownloads_bestKept {nodeid : NodeId} :
    ∀ {hashes : List Hash} {logic logic' : PeerLogic} {vGetData vGetData' : List CInv},
      requestDownloads env nodeid hashes logic vGetData = some (logic', vGetData') →
      BestKept env.chain env.chain logic.registry logic'.registry
  | [], logic, logic', vGetData, vGetData', ran => by
      cases ran
      exact .refl _ _
  | hash :: rest, logic, logic', vGetData, vGetData', ran => by
      obtain ⟨mid, marked, ran⟩ := Option.bind_eq_some.mp ran
      exact (PeerLogic.markBlockAsInFlight_bestKept env marked).trans (requestDownloads_bestKept ran)

theorem markStaller_bestKept {nodeid staller : NodeId} {logic logic' : PeerLogic}
    (ran : markStaller env nodeid staller logic = some logic') :
    BestKept env.chain env.chain logic.registry logic'.registry := by
  unfold markStaller at ran
  obtain ⟨state, -, ran⟩ := Option.bind_eq_some.mp ran
  split at ran
  · obtain ⟨stallerState, found, ran⟩ := Option.bind_eq_some.mp ran
    cases ran
    split
    · exact BestKept.setState found (.of_eq rfl)
    · exact .refl _ _
  · cases ran
    exact .refl _ _

theorem findNextBlocksToDownload_bestKept {registry : Registry} {nodeid : NodeId} {count : Nat}
    {vBlocks : List Hash} {nodeStaller : NodeId} {result : Registry × List Hash × NodeId}
    (found : registry.findNextBlocksToDownload env.params env.chain nodeid count vBlocks nodeStaller =
      some result) :
    BestKept env.chain env.chain registry result.1 := by
  rcases Registry.findNextBlocksToDownload_cases found with rfl | ⟨registry', nodeState, updated, known, rest⟩
  · exact .refl _ _
  have refreshed := BestKept.processBlockAvailability updated
  rcases rest with rfl | ⟨lastCommon, written, -⟩
  · exact refreshed
  · rw [written]
    exact refreshed.trans (BestKept.setState known (.of_eq rfl))

theorem requestData_bestKept {fFetch : Bool} (ran : requestData env h fFetch = some h') :
    BestKept env.chain env.chain h.logic.registry h'.logic.registry := by
  unfold requestData at ran
  obtain ⟨fetched, blocks, ran⟩ := Option.bind_eq_some.mp ran
  cases ran
  have asked : ∀ (queue : List (Int × CInv)) (h : Handling) (vGetData : List CInv),
      (askForDue env env.nTimeMicros queue h vGetData).1.logic.registry = h.logic.registry := by
    intro queue
    induction queue with
    | nil => intro _ _; rfl
    | cons entry rest ih =>
        intro h vGetData
        unfold askForDue
        split
        · rfl
        · rw [ih]
          unfold askForStep
          dsimp only
          split
          · exact PeerLogic.alreadyHave_registry env h.logic _
          · split <;> exact PeerLogic.alreadyHave_registry env h.logic _
  show BestKept _ _ _ (askForDue env env.nTimeMicros fetched.1.node.mapAskFor fetched.1 fetched.2).1.logic.registry
  rw [asked]
  unfold getDataBlocks at blocks
  obtain ⟨state, -, blocks⟩ := Option.bind_eq_some.mp blocks
  split at blocks
  · obtain ⟨found, searched, blocks⟩ := Option.bind_eq_some.mp blocks
    obtain ⟨requested, downloads, blocks⟩ := Option.bind_eq_some.mp blocks
    obtain ⟨logic, staller, blocks⟩ := Option.bind_eq_some.mp blocks
    cases blocks
    exact (findNextBlocksToDownload_bestKept searched).trans
      ((requestDownloads_bestKept downloads).trans (markStaller_bestKept staller))
  · cases blocks
    exact .refl _ _

theorem sendLocked_bestKept {tick : Tick} (ran : sendLocked env tick h = some h') :
    BestKept env.chain env.chain h.logic.registry h'.logic.registry := by
  unfold sendLocked at ran
  obtain ⟨state, -, ran⟩ := Option.bind_eq_some.mp ran
  obtain ⟨synced, syncing, ran⟩ := Option.bind_eq_some.mp ran
  obtain ⟨announced, announcing, ran⟩ := Option.bind_eq_some.mp ran
  obtain ⟨stalled, -, ran⟩ := Option.bind_eq_some.mp ran
  have before : BestKept env.chain env.chain h.logic.registry (sendInventory env tick announced).logic.registry := by
    rw [sendInventory_registry]
    exact (startSync_bestKept syncing).trans (announceBlocks_bestKept announcing)
  split at ran
  · cases ran
    exact before
  · exact before.trans (requestData_bestKept ran)

theorem sendMessages_bestKept {tick : Tick} (ran : sendMessages env tick h = some h') :
    BestKept env.chain env.chain h.logic.registry h'.logic.registry := by
  unfold sendMessages at ran
  split at ran
  · cases ran
    exact .refl _ _
  · dsimp only at ran
    split at ran
    · cases ran
      exact .refl _ _
    · obtain ⟨⟨checked, fBanned⟩, banning, ran⟩ := Option.bind_eq_some.mp ran
      have flushed := sendRejectsAndCheckIfBanned_bestKept env.chain banning
      split at ran
      · cases ran
        exact flushed
      · exact flushed.trans (sendLocked_bestKept ran)

end Handling

namespace Net

variable {env : Env} {net net' : Net}

theorem fastAnnounce_bestKept {pindex : Hash} {nodeid : NodeId}
    (ran : fastAnnounce env pindex (some net) nodeid = some net') :
    BestKept env.chain env.chain net.logic.registry net'.logic.registry := by
  unfold fastAnnounce at ran
  obtain ⟨_, started, ran⟩ := Option.bind_eq_some.mp ran
  cases started
  obtain ⟨node, -, ran⟩ := Option.bind_eq_some.mp ran
  by_cases gone : node.fDisconnect = true
  · rw [if_pos gone] at ran
    cases ran
    exact .refl _ _
  rw [if_neg gone] at ran
  obtain ⟨_, -, ran⟩ := Option.bind_eq_some.mp ran
  obtain ⟨registry, updated, ran⟩ := Option.bind_eq_some.mp ran
  obtain ⟨state, known, ran⟩ := Option.bind_eq_some.mp ran
  have refreshed := BestKept.processBlockAvailability updated
  by_cases has : state.peerHasHeader env.chain pindex = true
  · rw [if_pos has] at ran
    cases ran
    exact refreshed
  rw [if_neg has] at ran
  obtain ⟨_, -, ran⟩ := Option.bind_eq_some.mp ran
  obtain ⟨parent, -, ran⟩ := Option.bind_eq_some.mp ran
  split_ifs at ran <;> cases ran
  · exact refreshed
  · exact refreshed.trans (BestKept.setState known (.of_eq rfl))

theorem foldl_fastAnnounce_bestKept (pindex : Hash) :
    ∀ (ids : List NodeId) {net net' : Net}, ids.foldl (fastAnnounce env pindex) (some net) = some net' →
      BestKept env.chain env.chain net.logic.registry net'.logic.registry
  | [], net, _, ran => by
      cases ran
      exact .refl _ _
  | nodeid :: rest, net, _, ran => by
      rw [List.foldl_cons] at ran
      cases step : fastAnnounce env pindex (some net) nodeid with
      | none =>
          rw [step, foldl_fastAnnounce_none] at ran
          cases ran
      | some mid =>
          rw [step] at ran
          exact (fastAnnounce_bestKept step).trans (foldl_fastAnnounce_bestKept pindex rest ran)

theorem newPoWValidBlock_bestKept {pindex : Hash} (ran : net.newPoWValidBlock env pindex = some net') :
    BestKept env.chain env.chain net.logic.registry net'.logic.registry := by
  unfold newPoWValidBlock at ran
  dsimp only at ran
  split at ran
  · cases ran
    exact .refl _ _
  · exact (foldl_fastAnnounce_bestKept pindex _ ran :)

theorem runOn_bestKept {id : NodeId} {handler : Handling → Option Handling}
    (kept : ∀ {h h'}, handler h = some h' → BestKept env.chain env.chain h.logic.registry h'.logic.registry)
    (ran : net.runOn env id handler = some net') :
    BestKept env.chain env.chain net.logic.registry net'.logic.registry := by
  obtain ⟨node, h', -, handled, rfl⟩ := runOn_eq ran
  exact kept handled

end Net

/-- An event that can move what a peer is known to have: an `INV` or a
`HEADERS` message from a connection, a `SendMessages` tick of a connection, or
the `NewPoWValidBlock` callback. Each carries the environment it runs in, whose
block index is the one of that moment. -/
inductive AvailabilityEvent
  | inv (env : Env) (id : NodeId) (interrupted : Nat → Bool) (vInv : List CInv)
  | headers (env : Env) (id : NodeId) (headers : List CBlockHeader)
  | tick (env : Env) (id : NodeId) (t : Tick)
  | newPoWValidBlock (env : Env) (pindex : Hash)

namespace AvailabilityEvent

/-- What the node does on an event. -/
def apply (net : Net) : AvailabilityEvent → Option Net
  | inv env id interrupted vInv =>
      net.runOn env id fun h => (Handling.processInv env interrupted h vInv).map Prod.fst
  | headers env id vHeaders => net.runOn env id fun h => (Handling.processHeaders env h vHeaders).map Prod.fst
  | tick env id t => net.runOn env id (Handling.sendMessages env t)
  | newPoWValidBlock env pindex => net.newPoWValidBlock env pindex

/-- The environment an event runs in. -/
def env : AvailabilityEvent → Env
  | inv e .. | headers e .. | tick e .. | newPoWValidBlock e _ => e

/-- **Each event keeps what every peer is known to have**, in its block index. -/
theorem bestKept {net net' : Net} {event : AvailabilityEvent} (applied : event.apply net = some net') :
    BestKept event.env.chain event.env.chain net.logic.registry net'.logic.registry := by
  cases event <;> simp only [apply] at applied
  case inv env id interrupted vInv =>
      refine Net.runOn_bestKept (fun {h h'} handled => ?_) applied
      obtain ⟨⟨h', fRet⟩, ran, rfl⟩ := Option.map_eq_some'.mp handled
      exact Handling.processInv_bestKept ran
  case headers env id vHeaders =>
      refine Net.runOn_bestKept (fun {h h'} handled => ?_) applied
      obtain ⟨⟨h', fRet⟩, ran, rfl⟩ := Option.map_eq_some'.mp handled
      exact Handling.processHeaders_bestKept ran
  case tick env id t => exact Net.runOn_bestKept Handling.sendMessages_bestKept applied
  case newPoWValidBlock env pindex => exact Net.newPoWValidBlock_bestKept applied

end AvailabilityEvent

/-- The runs of the four events from a node in block index `chain₀` to one in
`chain`: each event runs in an index grown from the one before. -/
inductive AvailabilityRun : ChainView → Net → ChainView → Net → Prop
  | refl (chain : ChainView) (net : Net) : AvailabilityRun chain net chain net
  | step {chain₀ chain : ChainView} {net₀ net net' : Net} {event : AvailabilityEvent}
      (run : AvailabilityRun chain₀ net₀ chain net) (grows : chain.Grows event.env.chain)
      (applied : event.apply net = some net') : AvailabilityRun chain₀ net₀ event.env.chain net'

theorem AvailabilityRun.bestKept {chain₀ chain : ChainView} {net₀ net : Net}
    (run : AvailabilityRun chain₀ net₀ chain net) : BestKept chain₀ chain net₀.logic.registry net.logic.registry := by
  induction run with
  | refl => exact .refl _ _
  | step _ grows applied ih => exact ih.trans ((BestKept.of_grows grows _).trans (AvailabilityEvent.bestKept applied))

/-- **What a peer is known to have only grows.** Over every run of `INV` and
`HEADERS` messages, `SendMessages` ticks and `NewPoWValidBlock` callbacks on a
growing block index, a best known block, once set, stays set with at least as
much chain work. `UpdateBlockAvailability` with a known block of positive work
leaves a best known block with at least its work; `ProcessBlockAvailability`
clears a parked hash exactly when it has become known with positive work, and
then leaves a best known block with at least that block's work. -/
theorem bestKnownBlock_grows :
    (∀ {chain₀ chain : ChainView} {net₀ net : Net}, AvailabilityRun chain₀ net₀ chain net →
      BestKept chain₀ chain net₀.logic.registry net.logic.registry) ∧
    (∀ (chain : ChainView) (registry registry' : Registry) (nodeid : NodeId) (hash : Hash) (block : CBlockIndex),
      chain.mapBlockIndex hash = some block → 0 < block.nChainWork →
      registry.updateBlockAvailability chain nodeid hash = some registry' →
      ∃ nodeState best, registry'.state nodeid = some nodeState ∧ nodeState.pindexBestKnownBlock = some best ∧
        block.nChainWork ≤ chain.nChainWork best) ∧
    (∀ (chain : ChainView) (registry registry' : Registry) (nodeid : NodeId) (nodeState : CNodeState),
      registry.state nodeid = some nodeState → nodeState.hashLastUnknownBlock ≠ 0 →
      registry.processBlockAvailability chain nodeid = some registry' →
      ∃ nodeState', registry'.state nodeid = some nodeState' ∧
        (nodeState'.hashLastUnknownBlock = 0 ↔
          ∃ block, chain.mapBlockIndex nodeState.hashLastUnknownBlock = some block ∧ 0 < block.nChainWork) ∧
        ∀ block, chain.mapBlockIndex nodeState.hashLastUnknownBlock = some block → 0 < block.nChainWork →
          ∃ best, nodeState'.pindexBestKnownBlock = some best ∧ block.nChainWork ≤ chain.nChainWork best) := by
  refine ⟨fun run => run.bestKept, fun chain registry registry' nodeid hash block known positive updated => ?_,
    fun chain registry registry' nodeid nodeState found parked updated => ?_⟩
  · obtain ⟨nodeState, -, updated⟩ := Option.bind_eq_some.mp updated
    cases updated
    obtain ⟨best, current, le⟩ := nodeState.updateBlockAvailability_best chain known positive
    exact ⟨_, best, by simp, current, le⟩
  · obtain ⟨nodeState', found', updated⟩ := Option.bind_eq_some.mp updated
    rw [found] at found'
    cases found'
    cases updated
    exact ⟨_, by simp, nodeState.processBlockAvailability_clears chain parked,
      fun _ known positive => nodeState.processBlockAvailability_lifts chain parked known positive⟩

/-- A fresh outbound connection to peer `1`. -/
def Net.announcing : Net :=
  (Net.initial ∅).connect announcedEnv (CNode.connect 1 false false false false false 0 0)

/-- Peer `1` announces the block `2` by an `INV`. -/
def announceTwo : AvailabilityEvent := .inv announcedEnv 1 (fun _ => false) [⟨.block, 2⟩]

def Net.announced : Net := (announceTwo.apply Net.announcing).getD Net.announcing

/-- After the `INV`, the best known block of peer `1` is `2`. -/
example : (Net.announced.logic.registry.state 1).bind (·.pindexBestKnownBlock) = some 2 := by
  decide

/-- A peer `1` that parked the hash `2` before it was known. -/
def Registry.parking : Registry :=
  (Registry.empty.initializeNode 1).setState 1 { CNodeState.initial with hashLastUnknownBlock := 2 }

/-- `UpdateBlockAvailability(1, 2)` on a fresh peer `1`. -/
def Registry.availableTwo : Registry :=
  ((Registry.empty.initializeNode 1).updateBlockAvailability ChainView.announced 1 2).getD Registry.empty

/-- `ProcessBlockAvailability(1)` once the parked `2` is known. -/
def Registry.lifted : Registry := (Registry.parking.processBlockAvailability ChainView.announced 1).getD Registry.empty

theorem bestKnownBlock_grows_announced :
    AvailabilityRun ChainView.announced Net.announcing ChainView.announced Net.announced ∧
      BestKept ChainView.announced ChainView.announced Net.announcing.logic.registry Net.announced.logic.registry ∧
      (∃ nodeState best, Registry.availableTwo.state 1 = some nodeState ∧
        nodeState.pindexBestKnownBlock = some best ∧ 2 ≤ ChainView.announced.nChainWork best) ∧
      (∃ nodeState', Registry.lifted.state 1 = some nodeState' ∧
        (nodeState'.hashLastUnknownBlock = 0 ↔
          ∃ block, ChainView.announced.mapBlockIndex 2 = some block ∧ 0 < block.nChainWork) ∧
        ∀ block, ChainView.announced.mapBlockIndex 2 = some block → 0 < block.nChainWork →
          ∃ best, nodeState'.pindexBestKnownBlock = some best ∧ block.nChainWork ≤ ChainView.announced.nChainWork best) :=
  have ran : announceTwo.apply Net.announcing = some Net.announced := rfl
  have run : AvailabilityRun ChainView.announced Net.announcing ChainView.announced Net.announced :=
    .step (.refl _ _) (ChainView.Grows.refl _) ran
  ⟨run, bestKnownBlock_grows.1 run,
    bestKnownBlock_grows.2.1 ChainView.announced (Registry.empty.initializeNode 1) _ 1 2 ⟨1, some 1, 2, 0, false, true, false, 0, 0⟩ rfl
      (by decide) rfl,
    bestKnownBlock_grows.2.2 ChainView.announced Registry.parking _ 1 { CNodeState.initial with hashLastUnknownBlock := 2 }
      rfl (by decide) rfl⟩

end XuezNet
