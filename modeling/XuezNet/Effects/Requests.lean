import XuezNet.Effects.Trickle
import XuezNet.System.Invariant
import XuezNet.Download.Staller

/-! # What the `GETDATA` requests of the tick ask for

The last part of `SendMessages` pushes `GETDATA` messages: the block requests
chosen by `FindNextBlocksToDownload`, then the requests of the ask-for queue
whose time has come. The queue is ordered by request time, so the due requests
are its front (`dueRequests`); each is asked for unless the object is already
here or the peer sent it as service data (`askedFor`), and is forgotten from
`setAskFor` when already here. The loop stops at the first request not yet due,
which stays queued with everything after it (`requestData_requests`).

`AlreadyHave` records lookups and may reset the rejects filter, but its answers
never depend on earlier calls, so the loop asks exactly for the filter of the
due requests by the answers at the start of the tick.

Before them, the block requests may mark another peer as stalling: the staller
`FindNextBlocksToDownload` reports, when the ticking peer has nothing in flight.
The mark falls only on a peer with a block in flight, never overwrites an
earlier mark, and no other peer's state changes (`getDataBlocks_marks`).
-/

namespace XuezNet

namespace PeerLogic

variable (env : Env) (logic : PeerLogic)

/-- `AlreadyHave` answers the same after an earlier `AlreadyHave`: the reset it
may make is idempotent, and the lookup it records is never read. -/
@[simp] theorem alreadyHave_snd_alreadyHave (inv inv' : CInv) :
    ((logic.alreadyHave env inv).1.alreadyHave env inv').2 = (logic.alreadyHave env inv').2 := by
  rcases logic.alreadyHave_cases env inv with same | reset
  · rw [same]
  · rw [reset]
    unfold alreadyHave
    cases inv'.type <;> simp [resetRejects_eq, rejectsContains]

/-- `AlreadyHave` reads neither the registry nor the log of block requests. -/
@[simp] theorem alreadyHave_snd_registry (registry : Registry) (inFlightRequests : List (Hash × Bool)) (inv : CInv) :
    ({ logic with registry, inFlightRequests }.alreadyHave env inv).2 = (logic.alreadyHave env inv).2 := by
  unfold alreadyHave
  cases inv.type <;> simp [resetRejects_eq, rejectsContains]

end PeerLogic

namespace Handling

variable (env : Env)

/-- The requests of the ask-for queue due by `nNow`: its front, up to the first
one scheduled later. -/
def dueRequests (nNow : Int) (queue : List (Int × CInv)) : List (Int × CInv) :=
  queue.takeWhile (fun entry => decide (entry.1 ≤ nNow))

/-- What the tick asks for among the due requests: the objects not already
here that the peer did not send as service data. -/
def askedFor (logic : PeerLogic) (node : CNode) (due : List (Int × CInv)) : List CInv :=
  (due.map Prod.snd).filter fun inv => !(logic.alreadyHave env inv).2 && !node.filterServiceDataKnown.contains inv.hash

/-- The hashes `setAskFor` keeps after the due requests: those of no due request
already here. -/
def KeepsAsked (logic : PeerLogic) (due : List (Int × CInv)) (setAskFor setAskFor' : StdSet Hash) : Prop :=
  ∀ hash, setAskFor'.contains hash = true ↔
    setAskFor.contains hash = true ∧ ∀ inv ∈ due.map Prod.snd, (logic.alreadyHave env inv).2 = true → inv.hash ≠ hash

@[simp] theorem askedFor_alreadyHave (logic : PeerLogic) (node : CNode) (due : List (Int × CInv)) (inv : CInv) :
    askedFor env (logic.alreadyHave env inv).1 node due = askedFor env logic node due := by
  simp [askedFor]

@[simp] theorem keepsAsked_alreadyHave (logic : PeerLogic) (due : List (Int × CInv)) (setAskFor setAskFor' : StdSet Hash)
    (inv : CInv) :
    KeepsAsked env (logic.alreadyHave env inv).1 due setAskFor setAskFor' ↔ KeepsAsked env logic due setAskFor setAskFor' := by
  simp only [KeepsAsked, PeerLogic.alreadyHave_snd_alreadyHave]

namespace KeepsAsked

variable {env} {logic : PeerLogic} {due : List (Int × CInv)} {setAskFor setAskFor' : StdSet Hash}
  {nRequestTime : Int} {inv : CInv}

theorem nil (logic : PeerLogic) (setAskFor : StdSet Hash) : KeepsAsked env logic [] setAskFor setAskFor := by
  simp [KeepsAsked]

/-- A due request already here is forgotten. -/
theorem forget (had : (logic.alreadyHave env inv).2 = true)
    (rest : KeepsAsked env logic due (setAskFor.erase inv.hash) setAskFor') :
    KeepsAsked env logic ((nRequestTime, inv) :: due) setAskFor setAskFor' := by
  intro hash
  rw [rest hash, StdMap.contains_erase]
  simp only [Bool.and_eq_true, Bool.not_eq_true', decide_eq_false_iff_not, List.map_cons, List.mem_cons,
    forall_eq_or_imp, had, forall_const]
  constructor
  · rintro ⟨⟨other, kept⟩, later⟩
    exact ⟨kept, Ne.symm other, later⟩
  · rintro ⟨kept, other, later⟩
    exact ⟨⟨Ne.symm other, kept⟩, later⟩

/-- A due request not already here stays asked for. -/
theorem keep (missing : (logic.alreadyHave env inv).2 = false) (rest : KeepsAsked env logic due setAskFor setAskFor') :
    KeepsAsked env logic ((nRequestTime, inv) :: due) setAskFor setAskFor' := by
  intro hash
  simp only [rest hash, List.map_cons, List.mem_cons, forall_eq_or_imp, missing, Bool.false_eq_true, false_implies,
    true_and]

end KeepsAsked

/-- What one due request does: `AlreadyHave` is consulted; an object already
here is forgotten, one sent as service data is skipped, and any other is added
to the `GETDATA` chunk. -/
theorem askForStep_cases (h : Handling) (vGetData : List CInv) (inv : CInv) :
    (askForStep env h vGetData inv).1.logic = (h.logic.alreadyHave env inv).1 ∧
    (askForStep env h vGetData inv).1.relays = h.relays ∧
    ((h.logic.alreadyHave env inv).2 = true ∧
        (askForStep env h vGetData inv).1.node = { h.node with setAskFor := h.node.setAskFor.erase inv.hash } ∧
        (askForStep env h vGetData inv).2 = vGetData ∨
      (h.logic.alreadyHave env inv).2 = false ∧ h.node.filterServiceDataKnown.contains inv.hash = true ∧
        (askForStep env h vGetData inv).1.node = h.node ∧ (askForStep env h vGetData inv).2 = vGetData ∨
      (h.logic.alreadyHave env inv).2 = false ∧ h.node.filterServiceDataKnown.contains inv.hash = false ∧
        (askForStep env h vGetData inv).1.node = (chunkPushAtLeast 1000 .getdata h.node vGetData inv).1 ∧
        (askForStep env h vGetData inv).2 = (chunkPushAtLeast 1000 .getdata h.node vGetData inv).2) := by
  unfold askForStep
  dsimp only
  split_ifs with had known
  · exact ⟨rfl, rfl, .inl ⟨had, rfl, rfl⟩⟩
  · exact ⟨rfl, rfl, .inr (.inl ⟨Bool.eq_false_iff.mpr had, known, rfl, rfl⟩)⟩
  · exact ⟨rfl, rfl, .inr (.inr ⟨Bool.eq_false_iff.mpr had, Bool.eq_false_iff.mpr known, rfl, rfl⟩)⟩

/-- **The ask-for loop**: from any queue, it asks for the due requests that are
not already here and not known to the peer as service data, in queue order, in
`GETDATA` chunks after those already built; it forgets the due requests already
here and leaves the requests not yet due queued. -/
theorem askForDue_requests (nNow : Int) :
    ∀ (queue : List (Int × CInv)) (h : Handling) (vGetData : List CInv),
      ∃ setAskFor : StdSet Hash,
        (askForDue env nNow queue h vGetData).1.node = { h.node with
          vSendMsg := (askForDue env nNow queue h vGetData).1.node.vSendMsg
          setAskFor
          mapAskFor := queue.dropWhile (fun entry => decide (entry.1 ≤ nNow)) } ∧
        ChunkSends NetMsg.getdata h.node.vSendMsg vGetData (askedFor env h.logic h.node (dueRequests nNow queue))
          (askForDue env nNow queue h vGetData).1.node.vSendMsg (askForDue env nNow queue h vGetData).2 ∧
        KeepsAsked env h.logic (dueRequests nNow queue) h.node.setAskFor setAskFor
  | [], h, vGetData => ⟨h.node.setAskFor, rfl, .refl _ _, .nil _ _⟩
  | (nRequestTime, inv) :: rest, h, vGetData => by
      rw [askForDue]
      by_cases later : nNow < nRequestTime
      · rw [if_pos later]
        have none : dueRequests nNow ((nRequestTime, inv) :: rest) = [] := by
          simp [dueRequests, List.takeWhile_cons, not_le.mpr later]
        refine ⟨h.node.setAskFor, ?_, by rw [none]; exact .refl _ _, by rw [none]; exact .nil _ _⟩
        simp [List.dropWhile_cons, not_le.mpr later]
      rw [if_neg later]
      have due : dueRequests nNow ((nRequestTime, inv) :: rest) = (nRequestTime, inv) :: dueRequests nNow rest := by
        simp [dueRequests, List.takeWhile_cons, not_lt.mp later]
      have dropped : ((nRequestTime, inv) :: rest).dropWhile (fun entry => decide (entry.1 ≤ nNow)) =
          rest.dropWhile (fun entry => decide (entry.1 ≤ nNow)) := by
        simp [List.dropWhile_cons, not_lt.mp later]
      rw [due, dropped]
      obtain ⟨setAskFor, shape, sends, keeps⟩ :=
        askForDue_requests nNow rest (askForStep env h vGetData inv).1 (askForStep env h vGetData inv).2
      obtain ⟨logic, relays, step⟩ := askForStep_cases env h vGetData inv
      generalize askForStep env h vGetData inv = stepped at shape sends keeps logic relays step
      obtain ⟨⟨logic₁, node₁, relays₁⟩, chunk₁⟩ := stepped
      dsimp only at logic relays shape sends keeps step ⊢
      subst logic relays
      simp only [askedFor_alreadyHave, keepsAsked_alreadyHave] at sends keeps
      rcases step with ⟨had, rfl, rfl⟩ | ⟨missing, known, rfl, rfl⟩ | ⟨missing, known, node, rfl⟩
      · exact ⟨setAskFor, shape, by simpa [askedFor, had] using sends, .forget had keeps⟩
      · exact ⟨setAskFor, shape, by simpa [askedFor, missing, known] using sends, .keep missing keeps⟩
      · rw [chunkPushAtLeast_fst] at node
        subst node
        refine ⟨setAskFor, shape, ?_, .keep missing keeps⟩
        simpa [askedFor, missing, known] using (ChunkSends.pushAtLeast 1000 h.node vGetData inv).trans sends

@[simp] theorem askedFor_registry (logic : PeerLogic) (registry : Registry) (inFlightRequests : List (Hash × Bool))
    (node : CNode) (due : List (Int × CInv)) :
    askedFor env { logic with registry, inFlightRequests } node due = askedFor env logic node due := by
  simp [askedFor]

@[simp] theorem keepsAsked_registry (logic : PeerLogic) (registry : Registry)
    (inFlightRequests : List (Hash × Bool)) (due : List (Int × CInv)) (setAskFor setAskFor' : StdSet Hash) :
    KeepsAsked env { logic with registry, inFlightRequests } due setAskFor setAskFor' ↔
      KeepsAsked env logic due setAskFor setAskFor' := by
  simp only [KeepsAsked, PeerLogic.alreadyHave_snd_registry]

/-- The block requests write the registry and the request log only, and request
the blocks in the order given. -/
theorem requestDownloads_shape {nodeid : NodeId} :
    ∀ {hashes : List Hash} {logic logic' : PeerLogic} {vGetData vGetData' : List CInv},
      requestDownloads env nodeid hashes logic vGetData = some (logic', vGetData') →
      ∃ registry inFlightRequests, logic' = { logic with registry, inFlightRequests } ∧
        vGetData' = vGetData ++ hashes.map (⟨.block, ·⟩)
  | [], logic, logic', vGetData, vGetData', ran => by
      cases ran
      exact ⟨_, _, rfl, by simp⟩
  | hash :: rest, logic, logic', vGetData, vGetData', ran => by
      obtain ⟨mid, marked, ran⟩ := Option.bind_eq_some.mp ran
      obtain ⟨registry, -, rfl⟩ := PeerLogic.markBlockAsInFlight_eq env logic marked
      obtain ⟨registry', inFlightRequests', rfl, rfl⟩ := requestDownloads_shape ran
      exact ⟨registry', inFlightRequests', rfl, by simp⟩

/-- What the stall mark does: nothing, or, when the peer has no block in flight
and a staller is named, mark the staller as stalling since now if it was not. -/
theorem markStaller_cases {nodeid staller : NodeId} {logic logic' : PeerLogic}
    (ran : markStaller env nodeid staller logic = some logic') :
    logic' = logic ∨ staller ≠ -1 ∧ (logic.registry.state nodeid).map (·.nBlocksInFlight) = some 0 ∧
      ∃ stallerState, logic.registry.state staller = some stallerState ∧ stallerState.nStallingSince = 0 ∧
        logic' = { logic with
          registry := logic.registry.setState staller { stallerState with nStallingSince := env.nTimeMicros } } := by
  unfold markStaller at ran
  obtain ⟨state, selfFound, ran⟩ := Option.bind_eq_some.mp ran
  by_cases idle : state.nBlocksInFlight = 0 ∧ staller ≠ -1
  · rw [if_pos idle] at ran
    obtain ⟨stallerState, stallerFound, ran⟩ := Option.bind_eq_some.mp ran
    cases ran
    by_cases clear : stallerState.nStallingSince = 0
    · rw [if_pos clear]
      exact .inr ⟨idle.2, by rw [selfFound, Option.map_some', idle.1], stallerState, stallerFound, clear, rfl⟩
    · exact .inl (if_neg clear)
  · rw [if_neg idle] at ran
    cases ran
    exact .inl rfl

/-- The stall mark writes the registry only. -/
theorem markStaller_shape {nodeid staller : NodeId} {logic logic' : PeerLogic}
    (ran : markStaller env nodeid staller logic = some logic') : ∃ registry, logic' = { logic with registry } := by
  rcases markStaller_cases env ran with rfl | ⟨-, -, -, -, -, rfl⟩ <;> exact ⟨_, rfl⟩

/-- **What the block requests of the tick do**: nothing, or request the blocks
`FindNextBlocksToDownload` chose (called with an empty list and no staller),
and then apply the stall mark to the staller it reported. -/
theorem getDataBlocks_cases {h h' : Handling} {fFetch : Bool} {vGetData : List CInv}
    (ran : getDataBlocks env h fFetch = some (h', vGetData)) :
    h' = h ∧ vGetData = [] ∨
      ∃ (count : Nat) (found : Registry × List Hash × NodeId) (requested : PeerLogic × List CInv)
        (logic : PeerLogic),
        h.logic.registry.findNextBlocksToDownload env.params env.chain h.node.id count [] (-1) = some found ∧
        requestDownloads env h.node.id found.2.1 { h.logic with registry := found.1 } [] = some requested ∧
        markStaller env h.node.id found.2.2 requested.1 = some logic ∧ h' = { h with logic } ∧
        vGetData = requested.2 := by
  unfold getDataBlocks at ran
  obtain ⟨state, -, ran⟩ := Option.bind_eq_some.mp ran
  split at ran
  · obtain ⟨found, finding, ran⟩ := Option.bind_eq_some.mp ran
    obtain ⟨requested, requesting, ran⟩ := Option.bind_eq_some.mp ran
    obtain ⟨logic, marking, ran⟩ := Option.bind_eq_some.mp ran
    cases ran
    exact .inr ⟨_, found, requested, logic, finding, requesting, marking, rfl, rfl⟩
  · cases ran
    exact .inl ⟨rfl, rfl⟩

/-- The block requests of the tick write the registry and the request log only,
and their items are blocks. -/
theorem getDataBlocks_shape {h h' : Handling} {fFetch : Bool} {vGetData : List CInv}
    (ran : getDataBlocks env h fFetch = some (h', vGetData)) :
    ∃ (blocks : List Hash) (registry : Registry) (inFlightRequests : List (Hash × Bool)),
      h' = { h with logic := { h.logic with registry, inFlightRequests } } ∧ vGetData = blocks.map (⟨.block, ·⟩) := by
  rcases getDataBlocks_cases env ran with ⟨rfl, rfl⟩ | ⟨-, found, requested, logic, -, downloads, staller, rfl, rfl⟩
  · exact ⟨[], _, _, rfl, rfl⟩
  obtain ⟨registry, inFlightRequests, requestedEq, vGetDataEq⟩ := requestDownloads_shape env downloads
  obtain ⟨registry', rfl⟩ := markStaller_shape env staller
  rw [requestedEq]
  exact ⟨found.2.1, registry', inFlightRequests, rfl, by simpa using vGetDataEq⟩

/-- **The block requests**, for distinct blocks none of which is in flight: each
is then in flight from the peer, at the end of the peer's list in the order
asked; the index changes at no other hash, and no other peer's state changes. -/
theorem requestDownloads_records {nodeid : NodeId} :
    ∀ {hashes : List Hash} {logic logic' : PeerLogic} {vGetData vGetData' : List CInv},
      requestDownloads env nodeid hashes logic vGetData = some (logic', vGetData') →
      hashes.Nodup → (∀ x ∈ hashes, logic.registry.mapBlocksInFlight.find? x = none) →
      (∀ x ∈ hashes, (logic'.registry.mapBlocksInFlight.find? x).map Prod.fst = some nodeid) ∧
      (∀ x, x ∉ hashes → logic'.registry.mapBlocksInFlight.find? x = logic.registry.mapBlocksInFlight.find? x) ∧
      (∀ {nodeState}, logic.registry.state nodeid = some nodeState →
        ∃ nodeState', logic'.registry.state nodeid = some nodeState' ∧
          nodeState'.vBlocksInFlight.map (·.2.hash) = nodeState.vBlocksInFlight.map (·.2.hash) ++ hashes) ∧
      ∀ other, other ≠ nodeid → logic'.registry.state other = logic.registry.state other
  | [], _, _, _, _, ran, _, _ => by
      cases ran
      exact ⟨fun _ absent => absurd absent (List.not_mem_nil _), fun _ _ => rfl,
        fun found => ⟨_, found, (List.append_nil _).symm⟩, fun _ _ => rfl⟩
  | hash :: rest, logic, logic', vGetData, vGetData', ran, unique, fresh => by
      obtain ⟨mid, marked, ran⟩ := Option.bind_eq_some.mp ran
      obtain ⟨registry, markedRegistry, rfl⟩ := PeerLogic.markBlockAsInFlight_eq env logic marked
      obtain ⟨nodeState, found, rfl⟩ :=
        markBlockAsInFlight_of_fresh (fresh hash (List.mem_cons_self _ _)) markedRegistry
      obtain ⟨outside, distinct⟩ := List.nodup_cons.mp unique
      obtain ⟨recorded, unchanged, queued, others⟩ := requestDownloads_records ran distinct fun x member => by
        dsimp only
        rw [Registry.queueBlock_find?, if_neg (ne_of_mem_of_not_mem member outside)]
        exact fresh x (List.mem_cons_of_mem _ member)
      dsimp only at recorded unchanged queued others
      refine ⟨fun x member => ?_, fun x absent => ?_, fun found' => ?_, fun other ne => ?_⟩
      · rcases List.mem_cons.mp member with rfl | later
        · rw [unchanged x outside, Registry.queueBlock_find?, if_pos rfl]
          rfl
        · exact recorded x later
      · rw [unchanged x (List.not_mem_of_not_mem_cons absent), Registry.queueBlock_find?,
          if_neg (List.ne_of_not_mem_cons absent)]
      · rw [found] at found'
        cases found'
        obtain ⟨nodeState', final, hashes⟩ := queued (by rw [Registry.queueBlock_state, if_pos rfl])
        refine ⟨nodeState', final, ?_⟩
        rw [hashes]
        simp [CNodeState.enqueue]
      · rw [others other ne, Registry.queueBlock_state, if_neg ne]

/-- The stall mark after `FindNextBlocksToDownload`: nothing, or, with no block
chosen, the mark of a peer other than the ticking one that has a block in
flight, when the ticking peer has none and the staller's mark was clear. -/
theorem markStaller_found {registry : Registry} {nodeid : NodeId} {count : Nat}
    {found : Registry × List Hash × NodeId} {logic logic' : PeerLogic}
    (finding : registry.findNextBlocksToDownload env.params env.chain nodeid count [] (-1) = some found)
    (marking : markStaller env nodeid found.2.2 logic = some logic') :
    logic' = logic ∨ found.2.1 = [] ∧ found.2.2 ≠ nodeid ∧
      (∃ hash node, registry.mapBlocksInFlight.find? hash = some (found.2.2, node)) ∧
      (logic.registry.state nodeid).map (·.nBlocksInFlight) = some 0 ∧
      ∃ stallerState, logic.registry.state found.2.2 = some stallerState ∧ stallerState.nStallingSince = 0 ∧
        logic' = { logic with
          registry := logic.registry.setState found.2.2 { stallerState with nStallingSince := env.nTimeMicros } } := by
  rcases markStaller_cases env marking with rfl | ⟨named, idle, stallerState, stallerFound, clear, rfl⟩
  · exact .inl rfl
  rcases Registry.findNextBlocksToDownload_waiting finding with initial | ⟨none, reported, holder, -⟩
  · exact absurd initial named
  · exact .inr ⟨none, reported, holder.resolve_left named, idle, stallerState, stallerFound, clear, rfl⟩

/-- **The stall mark of the tick.** The block requests leave the state of every
other peer as it was, but may mark a single one as stalling since now: a peer
with a block in flight and not marked yet, and only when the ticking peer asks
for no block and has none in flight. -/
theorem getDataBlocks_marks {h h' : Handling} {fFetch : Bool} {vGetData : List CInv}
    (ran : getDataBlocks env h fFetch = some (h', vGetData)) :
    (∀ other, other ≠ h.node.id → h'.logic.registry.state other = h.logic.registry.state other) ∨
    ∃ staller, staller ≠ h.node.id ∧ vGetData = [] ∧
      (h'.logic.registry.state h.node.id).map (·.nBlocksInFlight) = some 0 ∧
      (∃ hash node, h.logic.registry.mapBlocksInFlight.find? hash = some (staller, node)) ∧
      (∃ stallerState, h.logic.registry.state staller = some stallerState ∧ stallerState.nStallingSince = 0 ∧
        h'.logic.registry.state staller = some { stallerState with nStallingSince := env.nTimeMicros }) ∧
      ∀ other, other ≠ h.node.id → other ≠ staller → h'.logic.registry.state other = h.logic.registry.state other := by
  rcases getDataBlocks_cases env ran with
    ⟨rfl, rfl⟩ | ⟨_, found, requested, logic, finding, requesting, marking, rfl, rfl⟩
  · exact .inl fun _ _ => rfl
  obtain ⟨unique, fresh, -⟩ := Registry.findNextBlocksToDownload_fresh finding
  obtain ⟨same, others, -⟩ := Registry.findNextBlocksToDownload_frame finding
  have kept : ∀ other, other ≠ h.node.id → requested.1.registry.state other = h.logic.registry.state other :=
    fun other notSelf => ((requestDownloads_records env requesting unique fun x member => same ▸ fresh x member).2.2.2
      other notSelf).trans (others other notSelf)
  rcases markStaller_found env finding marking with
    rfl | ⟨none, reported, holder, idle, stallerState, stallerFound, clear, rfl⟩
  · exact .inl kept
  rw [none] at requesting
  cases requesting
  refine .inr ⟨found.2.2, reported, rfl, ?_, holder,
    ⟨stallerState, (kept _ reported).symm.trans stallerFound, clear, ?_⟩, fun other notSelf notStaller => ?_⟩
  · rw [Registry.state_setState, if_neg (Ne.symm reported)]
    exact idle
  · rw [Registry.state_setState, if_pos rfl]
  · rw [Registry.state_setState, if_neg notStaller]
    exact kept other notSelf

/-- An environment with a download window of one block over the chain
`ChainView.stalled`. -/
def stallEnv : Env :=
  { missingInputsEnv with
    params := Params.shortWindow, chain := ChainView.stalled, acceptBlockHeader_indexed := nofun }

/-- Peer `1`, connected, with the registry `Registry.stalling`: it announced
block `3`, and peer `2` has block `2` in flight. -/
def stallingPeer : Handling :=
  ⟨{ PeerLogic.initial ∅ with registry := Registry.stalling }, CNode.connect 1 false false false false false 0 0, []⟩

theorem getDataBlocks_marks_stalling :
    ∃ h' vGetData, getDataBlocks stallEnv stallingPeer false = some (h', vGetData) ∧
      (h'.logic.registry.state 2).map (·.nStallingSince) = some stallEnv.nTimeMicros ∧
      ((∀ other, other ≠ stallingPeer.node.id →
          h'.logic.registry.state other = stallingPeer.logic.registry.state other) ∨
        ∃ staller, staller ≠ stallingPeer.node.id ∧ vGetData = [] ∧
          (h'.logic.registry.state stallingPeer.node.id).map (·.nBlocksInFlight) = some 0 ∧
          (∃ hash node, stallingPeer.logic.registry.mapBlocksInFlight.find? hash = some (staller, node)) ∧
          (∃ stallerState, stallingPeer.logic.registry.state staller = some stallerState ∧
            stallerState.nStallingSince = 0 ∧
            h'.logic.registry.state staller = some { stallerState with nStallingSince := stallEnv.nTimeMicros }) ∧
          ∀ other, other ≠ stallingPeer.node.id → other ≠ staller →
            h'.logic.registry.state other = stallingPeer.logic.registry.state other) := by
  obtain ⟨⟨h', vGetData⟩, ran, marked⟩ := Option.map_eq_some'.mp (by decide :
    (getDataBlocks stallEnv stallingPeer false).map (fun fetched => (fetched.1.logic.registry.state 2).map
      (·.nStallingSince)) = some (some stallEnv.nTimeMicros))
  exact ⟨h', vGetData, ran, marked, getDataBlocks_marks stallEnv ran⟩

/-- Peer `1` asks for nothing, and peer `2`, which holds block `2`, is marked as
stalling since now. -/
example : (getDataBlocks stallEnv stallingPeer false).map
    (fun fetched => (fetched.2, (fetched.1.logic.registry.state 2).map (·.nStallingSince))) =
    some ([], some 10000000) := by
  decide

/-- **The tick records its block requests.** Each block the tick asks for, none
of which was in flight, is then in flight from the ticking peer, at the end of
its list of blocks in flight in the order asked; the index of blocks in flight
changes at no other hash. -/
theorem getDataBlocks_records {h h' : Handling} {fFetch : Bool} {vGetData : List CInv}
    (ran : getDataBlocks env h fFetch = some (h', vGetData)) :
    ∃ blocks : List Hash, vGetData = blocks.map (⟨.block, ·⟩) ∧
      (∀ hash ∈ blocks, h.logic.registry.mapBlocksInFlight.find? hash = none ∧
        (h'.logic.registry.mapBlocksInFlight.find? hash).map Prod.fst = some h.node.id) ∧
      (∀ hash, hash ∉ blocks →
        h'.logic.registry.mapBlocksInFlight.find? hash = h.logic.registry.mapBlocksInFlight.find? hash) ∧
      ∀ {nodeState}, h.logic.registry.state h.node.id = some nodeState →
        ∃ nodeState', h'.logic.registry.state h.node.id = some nodeState' ∧
          nodeState'.vBlocksInFlight.map (·.2.hash) = nodeState.vBlocksInFlight.map (·.2.hash) ++ blocks := by
  rcases getDataBlocks_cases env ran with
    ⟨rfl, rfl⟩ | ⟨_, found, requested, logic, finding, requesting, marking, rfl, rfl⟩
  · exact ⟨[], rfl, fun _ absent => absurd absent (List.not_mem_nil _), fun _ _ => rfl,
      fun found => ⟨_, found, (List.append_nil _).symm⟩⟩
  obtain ⟨unique, fresh, -⟩ := Registry.findNextBlocksToDownload_fresh finding
  obtain ⟨same, -, kept⟩ := Registry.findNextBlocksToDownload_frame finding
  obtain ⟨recorded, unchanged, queued, -⟩ :=
    requestDownloads_records env requesting unique fun x member => same ▸ fresh x member
  obtain ⟨-, -, -, sent⟩ := requestDownloads_shape env requesting
  have marked : logic.registry.mapBlocksInFlight = requested.1.registry.mapBlocksInFlight ∧
      logic.registry.state h.node.id = requested.1.registry.state h.node.id := by
    rcases markStaller_found env finding marking with rfl | ⟨-, reported, -, -, -, -, -, rfl⟩
    · exact ⟨rfl, rfl⟩
    · exact ⟨rfl, by rw [Registry.state_setState, if_neg (Ne.symm reported)]⟩
  refine ⟨found.2.1, by simpa using sent, fun hash member => ⟨fresh hash member, ?_⟩, fun hash absent => ?_,
    fun found' => ?_⟩
  · rw [marked.1]
    exact recorded hash member
  · rw [marked.1, unchanged hash absent]
    exact congrArg (·.find? hash) same
  · obtain ⟨nodeState', chosen, queue⟩ := kept found'
    obtain ⟨nodeState'', final, hashes⟩ := queued chosen
    refine ⟨nodeState'', marked.2.trans final, ?_⟩
    rw [hashes, queue]

/-- Peer `1` has announced block `3`, and no block is in flight. -/
def fetchingPeer : Handling :=
  ⟨{ PeerLogic.initial ∅ with
      registry := (Registry.empty.initializeNode 1).setState 1
        { CNodeState.initial with pindexBestKnownBlock := some 3 } },
    CNode.connect 1 false false false false false 0 0, []⟩

theorem getDataBlocks_records_fetching :
    ∃ h' vGetData, getDataBlocks stallEnv fetchingPeer false = some (h', vGetData) ∧
      ∃ blocks : List Hash, vGetData = blocks.map (⟨.block, ·⟩) ∧
        (∀ hash ∈ blocks, fetchingPeer.logic.registry.mapBlocksInFlight.find? hash = none ∧
          (h'.logic.registry.mapBlocksInFlight.find? hash).map Prod.fst = some fetchingPeer.node.id) ∧
        (∀ hash, hash ∉ blocks →
          h'.logic.registry.mapBlocksInFlight.find? hash = fetchingPeer.logic.registry.mapBlocksInFlight.find? hash) ∧
        ∀ {nodeState}, fetchingPeer.logic.registry.state fetchingPeer.node.id = some nodeState →
          ∃ nodeState', h'.logic.registry.state fetchingPeer.node.id = some nodeState' ∧
            nodeState'.vBlocksInFlight.map (·.2.hash) = nodeState.vBlocksInFlight.map (·.2.hash) ++ blocks := by
  obtain ⟨⟨h', vGetData⟩, ran⟩ :=
    Option.isSome_iff_exists.mp (by decide : (getDataBlocks stallEnv fetchingPeer false).isSome)
  exact ⟨h', vGetData, ran, getDataBlocks_records stallEnv ran⟩

/-- Block `2`, the one in the window, is asked for and is then in flight from
peer `1`; block `3` lies past the window. -/
example : (getDataBlocks stallEnv fetchingPeer false).map
    (fun fetched => (fetched.2, (fetched.1.logic.registry.mapBlocksInFlight.find? 2).map Prod.fst)) =
    some ([⟨.block, 2⟩], some 1) := by
  decide

/-- **The `GETDATA` requests of the tick**: the messages pushed carry the block
requests, then the due requests of the ask-for queue that are neither already
here nor known to the peer as service data, in queue order; the due requests
already here are forgotten, the requests not yet due stay queued, and nothing
else of the connection changes. -/
theorem requestData_requests {h h' : Handling} {fFetch : Bool} (ran : requestData env h fFetch = some h') :
    ∃ (blocks : List Hash) (chunks : List (List CInv)) (setAskFor : StdSet Hash),
      h'.node = { h.node with
        vSendMsg := h.node.vSendMsg ++ chunks.map NetMsg.getdata
        setAskFor
        mapAskFor := h.node.mapAskFor.dropWhile (fun entry => decide (entry.1 ≤ env.nTimeMicros)) } ∧
      chunks.flatten = blocks.map (⟨.block, ·⟩) ++
        askedFor env h.logic h.node (dueRequests env.nTimeMicros h.node.mapAskFor) ∧
      KeepsAsked env h.logic (dueRequests env.nTimeMicros h.node.mapAskFor) h.node.setAskFor setAskFor := by
  unfold requestData at ran
  obtain ⟨⟨fetched, vBlocks⟩, got, ran⟩ := Option.bind_eq_some.mp ran
  cases ran
  obtain ⟨blocks, registry, inFlightRequests, rfl, rfl⟩ := getDataBlocks_shape env got
  obtain ⟨setAskFor, shape, sends, keeps⟩ :=
    askForDue_requests env env.nTimeMicros h.node.mapAskFor
      { h with logic := { h.logic with registry, inFlightRequests } } (blocks.map (⟨.block, ·⟩))
  simp only [askedFor_registry, keepsAsked_registry] at sends keeps
  obtain ⟨chunks, pushed, carried⟩ := sends.flush _
  refine ⟨blocks, chunks, setAskFor, ?_, by simpa using carried, keeps⟩
  dsimp only
  rw [flushChunk_eq, pushed, shape]

/-- A connection with a request for transaction `40` due and one for `41`
scheduled later. -/
def askingPeer : Handling :=
  { connectedPeer with node := { connectedPeer.node with
      setAskFor := ((∅ : StdSet Hash).insert 40 ()).insert 41 ()
      mapAskFor := [(5, ⟨.tx, 40⟩), (20000000, ⟨.tx, 41⟩)] } }

theorem requestData_requests_asking :
    ∃ h', requestData missingInputsEnv askingPeer false = some h' ∧
      ∃ (blocks : List Hash) (chunks : List (List CInv)) (setAskFor : StdSet Hash),
        h'.node = { askingPeer.node with
          vSendMsg := askingPeer.node.vSendMsg ++ chunks.map NetMsg.getdata
          setAskFor
          mapAskFor := askingPeer.node.mapAskFor.dropWhile
            (fun entry => decide (entry.1 ≤ missingInputsEnv.nTimeMicros)) } ∧
        chunks.flatten = blocks.map (⟨.block, ·⟩) ++ askedFor missingInputsEnv askingPeer.logic askingPeer.node
          (dueRequests missingInputsEnv.nTimeMicros askingPeer.node.mapAskFor) ∧
        KeepsAsked missingInputsEnv askingPeer.logic (dueRequests missingInputsEnv.nTimeMicros askingPeer.node.mapAskFor)
          askingPeer.node.setAskFor setAskFor := by
  obtain ⟨h', ran⟩ := Option.isSome_iff_exists.mp (by decide : (requestData missingInputsEnv askingPeer false).isSome)
  exact ⟨h', ran, requestData_requests missingInputsEnv ran⟩

/-- The request due is sent, the later one stays queued. -/
example : (requestData missingInputsEnv askingPeer false).map (fun h => (h.node.vSendMsg, h.node.mapAskFor)) =
    some ([.getdata [⟨.tx, 40⟩]], [(20000000, ⟨.tx, 41⟩)]) := by
  decide

end Handling

end XuezNet
