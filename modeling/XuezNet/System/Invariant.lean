import XuezNet.System.Steps
import XuezNet.Orphans.Invariant

/-! # The invariant of the globals

`PeerLogic.Sound args` is what holds of the globals in every reachable state of
a node running with arguments `args`:

* the registry is one the registry operations reach (so it is consistent), and
  no registered peer has more than `MAX_BLOCKS_IN_TRANSIT_PER_PEER` blocks in
  flight;
* the orphan pool is consistent, every orphan came from a registered peer, and
  the pool holds at most the `-maxorphantx` bound;
* every entry of `recentRejects` was inserted, and every lookup made, while
  `hashRecentRejectsChainTip` was the active tip, the one still recorded;
* every block request of the handlers was for a hash not in flight;
* the relay map is empty: nothing is ever inserted into it.

Each primitive step keeps it (`LogicStep.sound`), and so does every sequence of
them (`LogicMoves.sound`).
-/

namespace XuezNet

/-- **The invariant of the globals** of a node run with arguments `args`. -/
structure PeerLogic.Sound (args : Args) (logic : PeerLogic) : Prop where
  registry : RegistryReachable logic.registry
  room : ∀ {nodeid nodeState}, logic.registry.state nodeid = some nodeState →
    nodeState.nBlocksInFlight ≤ MAX_BLOCKS_IN_TRANSIT_PER_PEER
  orphans : logic.orphans.Consistent
  fromPeers : ∀ {hash orphan}, logic.orphans.mapOrphanTransactions.find? hash = some orphan →
    (logic.registry.state orphan.fromPeer).isSome
  bounded : logic.orphans.mapOrphanTransactions.size ≤ args.nMaxOrphanTx
  rejects : ∀ {hash tips}, logic.recentRejects.find? hash = some tips →
    tips.1 = tips.2 ∧ tips.1 = logic.hashRecentRejectsChainTip
  lookups : ∀ tips ∈ logic.rejectsLookups, tips.1 = tips.2
  requests : ∀ request ∈ logic.inFlightRequests, request.2 = false
  relay : logic.mapRelay.entries = []

namespace PeerLogic

variable (env : Env) (logic : PeerLogic)

/-- The reset of `AlreadyHave` as one write: the recorded tip becomes the active
one, and the filter empties when they differed. -/
theorem resetRejects_eq : logic.resetRejects env = { logic with
    hashRecentRejectsChainTip := env.chain.tip
    recentRejects := if env.chain.tip ≠ logic.hashRecentRejectsChainTip then ∅
      else logic.recentRejects } := by
  unfold resetRejects
  split_ifs with moved
  · rfl
  · cases logic
    simp only [not_not] at moved
    simp [moved]

/-- `AlreadyHave` changes the globals only for a transaction: it resets the
filter and records a lookup. -/
theorem alreadyHave_cases (inv : CInv) :
    (logic.alreadyHave env inv).1 = logic ∨
      (logic.alreadyHave env inv).1 = ((logic.resetRejects env).rejectsContains env inv.hash).1 := by
  unfold alreadyHave
  cases inv.type <;> simp

/-- `AlreadyHave` moves neither the registry nor the ghost log of requests. -/
@[simp] theorem alreadyHave_registry (inv : CInv) : (logic.alreadyHave env inv).1.registry = logic.registry := by
  rcases logic.alreadyHave_cases env inv with same | reset <;> simp [*, resetRejects_eq, rejectsContains]

@[simp] theorem alreadyHave_inFlightRequests (inv : CInv) :
    (logic.alreadyHave env inv).1.inFlightRequests = logic.inFlightRequests := by
  rcases logic.alreadyHave_cases env inv with same | reset <;> simp [*, resetRejects_eq, rejectsContains]

@[simp] theorem alreadyHave_orphans (inv : CInv) : (logic.alreadyHave env inv).1.orphans = logic.orphans := by
  rcases logic.alreadyHave_cases env inv with same | reset <;> simp [*, resetRejects_eq, rejectsContains]

@[simp] theorem alreadyHave_mempool (inv : CInv) : (logic.alreadyHave env inv).1.mempool = logic.mempool := by
  rcases logic.alreadyHave_cases env inv with same | reset <;> simp [*, resetRejects_eq, rejectsContains]

/-- `AlreadyHave` of a transaction leaves `recentRejects` in step with the active tip. -/
theorem alreadyHave_tx_synced (hash : Hash) :
    (logic.alreadyHave env ⟨.tx, hash⟩).1.hashRecentRejectsChainTip = env.chain.tip := by
  simp [alreadyHave, resetRejects_eq, rejectsContains]

end PeerLogic

/-- The expiry of the relay map only erases. -/
theorem expireRelay_empty (nNow : Int) :
    ∀ (queue : List (Int × Hash)) {mapRelay : StdMap Hash CTransaction}, mapRelay.entries = [] →
      (expireRelay nNow queue mapRelay).2.entries = []
  | [], _, empty => empty
  | (nTime, hash) :: rest, mapRelay, empty => by
      unfold expireRelay
      split_ifs
      · exact expireRelay_empty nNow rest (by simp [StdMap.erase, empty])
      · exact empty

namespace LogicStep

variable {env : Env} {logic logic' : PeerLogic}

/-- A primitive step registers and forgets no peer. -/
theorem state_isSome (step : LogicStep env logic logic') (nodeid : NodeId) :
    (logic'.registry.state nodeid).isSome = (logic.registry.state nodeid).isSome := by
  cases step with
  | registry update => exact update.state_isSome nodeid
  | request fresh _ marked =>
      obtain ⟨registry, marking, rfl⟩ := logic.markBlockAsInFlight_eq env marked
      obtain ⟨nodeState, found, rfl⟩ := markBlockAsInFlight_of_fresh fresh marking
      simp only [Registry.queueBlock_state]
      split_ifs with same
      · simp [same, found]
      · rfl
  | alreadyHave inv =>
      rcases logic.alreadyHave_cases env inv with same | reset <;> simp [*, PeerLogic.resetRejects_eq,
        PeerLogic.rejectsContains]
  | _ => rfl

/-- **Every primitive step keeps the invariant**, in an environment with the
process's arguments. -/
theorem sound {args : Args} (step : LogicStep env logic logic') (fixed : env.args = args)
    (sound : logic.Sound args) : logic'.Sound args := by
  cases step with
  | registry update =>
      exact { sound with
        registry := .step sound.registry update.toStep
        room := fun found' => by
          obtain ⟨nodeState, found, lower⟩ := update.inFlight_le found'
          exact lower.trans (sound.room found)
        fromPeers := fun found => by
          rw [update.state_isSome]
          exact sound.fromPeers found }
  | request fresh room marked =>
      rename_i nodeid hash pindex
      obtain ⟨registry, marking, rfl⟩ := logic.markBlockAsInFlight_eq env marked
      obtain ⟨nodeState, found, rfl⟩ := markBlockAsInFlight_of_fresh fresh marking
      refine { sound with
        registry := .step sound.registry (.markBlockAsInFlight marking)
        room := fun {other nodeState'} found' => ?_
        fromPeers := fun {hash' orphan} found' => ?_
        requests := fun request member => ?_ }
      · simp only [Registry.queueBlock_state] at found'
        split_ifs at found' with same
        · cases found'
          have below := room found
          simp only [CNodeState.enqueue_queue]
          omega
        · exact sound.room found'
      · have registered := sound.fromPeers found'
        simp only [Registry.queueBlock_state]
        split_ifs with same
        · rfl
        · exact registered
      · rcases List.mem_append.mp member with old | new
        · exact sound.requests request old
        · simp only [List.mem_singleton] at new
          subst new
          simp [StdMap.contains, fresh]
  | alreadyHave inv =>
      rcases logic.alreadyHave_cases env inv with same | reset
      · rw [same]
        exact sound
      · rw [reset, PeerLogic.resetRejects_eq]
        refine { sound with
          rejects := fun {hash tips} found => ?_
          lookups := fun tips member => ?_ }
        · simp only [PeerLogic.rejectsContains] at found ⊢
          split_ifs at found with moved
          · simp at found
          · simp only [not_not] at moved
            have recorded := sound.rejects found
            exact ⟨recorded.1, recorded.2.trans moved.symm⟩
        · simp only [PeerLogic.rejectsContains, List.mem_append, List.mem_singleton] at member
          rcases member with old | rfl
          · exact sound.lookups tips old
          · rfl
  | rejectsInsert synced hash =>
      refine { sound with rejects := fun {hash' tips} found => ?_ }
      simp only [PeerLogic.rejectsInsert, StdMap.find?_insert] at found
      split_ifs at found
      · cases found
        exact ⟨synced, rfl⟩
      · exact sound.rejects found
  | rejectsContains synced hash =>
      refine { sound with lookups := fun tips member => ?_ }
      simp only [PeerLogic.rejectsContains, List.mem_append, List.mem_singleton] at member
      rcases member with old | rfl
      · exact sound.lookups tips old
      · exact synced
  | acceptToMempool => exact { sound with }
  | addOrphan tx fromPeer registered =>
      refine { sound with
        orphans := (sound.orphans.addOrphanTx tx fromPeer).limitOrphanTxSize _ _
        fromPeers := fun found => ?_
        bounded := fixed ▸ OrphanPool.size_limitOrphanTxSize _ _ _ }
      rcases OrphanPool.find?_addOrphanTx (OrphanPool.find?_limitOrphanTxSize found) with old | rfl
      · exact sound.fromPeers old
      · exact registered
  | eraseOrphan hash =>
      refine { sound with
        orphans := sound.orphans.eraseOrphanTx hash
        fromPeers := fun found => ?_
        bounded := ?_ }
      · simp only [OrphanPool.find?_eraseOrphanTx] at found
        split_ifs at found
        exact sound.fromPeers found
      · have shrunk := OrphanPool.size_eraseOrphanTx logic.orphans hash
        have := sound.bounded
        simp only at shrunk ⊢
        omega
  | expireRelay nNow =>
      exact { sound with relay := expireRelay_empty nNow _ sound.relay }
  | blockSource => exact { sound with }

end LogicStep

/-- Every sequence of primitive steps keeps the invariant. -/
theorem LogicMoves.sound {env : Env} {args : Args} {logic logic' : PeerLogic}
    (moves : LogicMoves env logic logic') (fixed : env.args = args) (sound : logic.Sound args) :
    logic'.Sound args := by
  induction moves with
  | refl => exact sound
  | tail _ step ih => exact step.sound fixed ih

/-- Every sequence of primitive steps registers and forgets no peer. -/
theorem LogicMoves.state_isSome {env : Env} {logic logic' : PeerLogic}
    (moves : LogicMoves env logic logic') (nodeid : NodeId) :
    (logic'.registry.state nodeid).isSome = (logic.registry.state nodeid).isSome := by
  induction moves with
  | refl => rfl
  | tail _ step ih => exact (step.state_isSome nodeid).trans ih

end XuezNet
