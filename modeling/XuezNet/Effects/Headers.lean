import XuezNet.Effects.Inventory
import XuezNet.Download.Staller

/-! # What the headers branches do

`HEADERS` is a request path. Its direct fetch walks back from the last header
along `pprev`, where each parent sits one height below its child, so the blocks
it collects have strictly falling heights and are pairwise distinct; each was
checked not in flight against the index the requests start from
(`directFetchWalk_fresh`). The requests then go out oldest first while the peer
has room (`requestBlocks_fetches`), each for a hash still not in flight, and the
`GETDATA` asks for exactly them (`processHeaders_fetches`). What it downloads is
the branch to the last header: ancestors of it off the active chain whose data
is missing, oldest first, each then in flight from the peer, and only once the
walk has met the active chain (`directFetch_branch`). `GETHEADERS` answers
with at most `MAX_HEADERS_RESULTS` headers, and `BLOCK` releases the block's
request, records its source and answers an invalid block with a `REJECT` that
carries the validator's code, whatever it is below `REJECT_INTERNAL`
(`processBlock_rejects_verdict`).
-/

namespace XuezNet

namespace ChainView

variable (chain : ChainView)

/-- The loop of `GETHEADERS` adds at most `nLimit` headers. -/
theorem headersReply_length (hashStop : Hash) :
    ∀ (nLimit : Nat) (pindex : Option Hash) (vHeaders : List CBlockHeader),
      (chain.headersReply hashStop nLimit pindex vHeaders).1.length ≤ vHeaders.length + nLimit
  | 0, _, _ => by simp [headersReply]
  | _ + 1, none, _ => by simp [headersReply]
  | nLimit + 1, some hash, vHeaders => by
      unfold headersReply
      dsimp only
      split_ifs
      · simp
      · have := headersReply_length hashStop nLimit (chain.next hash) (vHeaders ++ [chain.header hash])
        simp only [List.length_append, List.length_singleton] at this
        omega

/-- **The walk of the direct fetch** collects blocks of strictly falling height,
none in flight, and stops once it holds more than
`MAX_BLOCKS_IN_TRANSIT_PER_PEER`. -/
theorem directFetchWalk_fresh (inFlight : StdMap Hash (NodeId × Nat)) :
    ∀ {fuel : Nat} {walk : Option Hash} {vToFetch : List Hash} {result : Option Hash × List Hash},
      chain.directFetchWalk inFlight fuel walk vToFetch = some result →
      (∀ x ∈ vToFetch, ∀ w ∈ walk, chain.nHeight w < chain.nHeight x) →
      vToFetch.Pairwise (fun a b => chain.nHeight b < chain.nHeight a) →
      (∀ x ∈ vToFetch, inFlight.find? x = none) →
      vToFetch.length ≤ MAX_BLOCKS_IN_TRANSIT_PER_PEER + 1 →
      result.2.Pairwise (fun a b => chain.nHeight b < chain.nHeight a) ∧
        (∀ x ∈ result.2, inFlight.find? x = none) ∧ result.2.length ≤ MAX_BLOCKS_IN_TRANSIT_PER_PEER + 1
  | 0, _, _, _, ran, _, _, _, _ => by cases ran
  | _ + 1, none, vToFetch, result, ran, _, falling, fresh, bound => by
      unfold directFetchWalk at ran
      cases ran
      exact ⟨falling, fresh, bound⟩
  | fuel + 1, some walk, vToFetch, result, ran, below, falling, fresh, bound => by
      unfold directFetchWalk at ran
      split_ifs at ran with stop
      · cases ran
        exact ⟨falling, fresh, bound⟩
      · obtain ⟨block, found, ran⟩ := Option.bind_eq_some.mp ran
        have height := chain.nHeight_of_found found
        have parentBelow : ∀ w ∈ block.pprev, chain.nHeight w < block.nHeight := by
          intro parent linked
          obtain ⟨above, foundAbove, step⟩ := chain.prev_height found linked
          rw [chain.nHeight_of_found foundAbove]
          omega
        have room : vToFetch.length ≤ MAX_BLOCKS_IN_TRANSIT_PER_PEER := by
          simp only [not_or, not_lt] at stop
          exact stop.2
        refine directFetchWalk_fresh inFlight ran ?_ ?_ ?_ ?_
        · intro x member parent linked
          have lower := parentBelow parent linked
          split_ifs at member
          · rcases List.mem_append.mp member with old | new
            · have := below x old walk rfl
              omega
            · rw [List.mem_singleton.mp new, height]
              exact lower
          · have := below x member walk rfl
            omega
        · split_ifs
          · exact List.pairwise_append.mpr ⟨falling, List.pairwise_singleton _ _,
              fun x member _ new => by rw [List.mem_singleton.mp new]; exact below x member walk rfl⟩
          · exact falling
        · split_ifs with fetch
          · intro x member
            rcases List.mem_append.mp member with old | new
            · exact fresh x old
            · rw [List.mem_singleton.mp new]
              simp only [Bool.and_eq_true, Bool.not_eq_true', decide_eq_true_eq] at fetch
              exact fetch.2
          · exact fresh
        · split_ifs
          · simp only [List.length_append, List.length_singleton]
            omega
          · exact bound

/-- A block the direct fetch toward `last` may ask for: an ancestor of `last`
off the active chain, indexed without its data, and not in flight. -/
def DirectFetchable (inFlight : StdMap Hash (NodeId × Nat)) (last hash : Hash) : Prop :=
  chain.AncestorOrSelf hash last ∧ chain.contains hash = false ∧
    (∃ block, chain.mapBlockIndex hash = some block ∧ block.fHaveData = false) ∧ inFlight.find? hash = none

/-- **What the walk of the direct fetch collects**: going down from `last`, it
keeps blocks the direct fetch may ask for, and ends, if at a block, at an
ancestor of `last` below all of them. -/
theorem directFetchWalk_branch (inFlight : StdMap Hash (NodeId × Nat)) (last : Hash) :
    ∀ {fuel : Nat} {walk : Option Hash} {vToFetch : List Hash} {result : Option Hash × List Hash},
      chain.directFetchWalk inFlight fuel walk vToFetch = some result →
      (∀ w ∈ walk, chain.AncestorOrSelf w last ∧ ∀ x ∈ vToFetch, chain.nHeight w < chain.nHeight x) →
      (∀ x ∈ vToFetch, chain.DirectFetchable inFlight last x) →
      (∀ w ∈ result.1, chain.AncestorOrSelf w last ∧ ∀ x ∈ result.2, chain.nHeight w < chain.nHeight x) ∧
        ∀ x ∈ result.2, chain.DirectFetchable inFlight last x
  | 0, _, _, _, ran, _, _ => by cases ran
  | _ + 1, none, vToFetch, result, ran, _, fetchable => by
      unfold directFetchWalk at ran
      cases ran
      exact ⟨fun _ absent => absurd absent (Option.not_mem_none _), fetchable⟩
  | fuel + 1, some walk, vToFetch, result, ran, above, fetchable => by
      unfold directFetchWalk at ran
      by_cases stop : chain.contains walk = true ∨ MAX_BLOCKS_IN_TRANSIT_PER_PEER < vToFetch.length
      · rw [if_pos stop] at ran
        cases ran
        exact ⟨above, fetchable⟩
      rw [if_neg stop] at ran
      obtain ⟨block, found, ran⟩ := Option.bind_eq_some.mp ran
      obtain ⟨ancestor, below⟩ := above walk rfl
      have linked : ∀ {parent}, parent ∈ block.pprev → chain.pprev walk = some parent := fun member => by
        simp only [pprev, found, Option.some_bind]
        exact member
      refine directFetchWalk_branch inFlight last ran (fun parent member => ⟨?_, fun x kept => ?_⟩) fun x kept => ?_
      · exact (AncestorOrSelf.of_parent (linked member) ⟨0, rfl⟩).trans ancestor
      · have lower := chain.pprev_height (linked member)
        split_ifs at kept
        · rcases List.mem_append.mp kept with old | new
          · have := below x old
            omega
          · rw [List.mem_singleton.mp new]
            omega
        · have := below x kept
          omega
      · split_ifs at kept with missing
        · rcases List.mem_append.mp kept with old | new
          · exact fetchable x old
          · rw [List.mem_singleton.mp new]
            simp only [Bool.and_eq_true, Bool.not_eq_true', decide_eq_true_eq] at missing
            exact ⟨ancestor, Bool.eq_false_iff.mpr fun onChain => stop (.inl onChain), ⟨block, found, missing.1⟩, missing.2⟩
        · exact fetchable x kept

/-- The blocks of a run up to and including the first `hashStop`. -/
def takeThrough (hashStop : Hash) : List Hash → List Hash
  | [] => []
  | hash :: rest => hash :: if hash = hashStop then [] else takeThrough hashStop rest

/-- The blocks a `GETHEADERS` reply carries, as the protocol describes them: the
`hashStop` block alone for an empty locator; else the active chain after the fork
point through `hashStop`, at most `MAX_HEADERS_RESULTS` blocks. -/
def headersWanted (locator : List Hash) (hashStop : Hash) : List Hash :=
  if locator.isEmpty then [hashStop]
  else (takeThrough hashStop (chain.vChain.drop (chain.nHeight (chain.findForkInGlobalIndex locator) + 1))).take
    MAX_HEADERS_RESULTS

/-- **The loop of `GETHEADERS` along the active chain** sends the headers of the
blocks from `start` through `hashStop`, at most `nLimit + 1` of them. -/
theorem headersReply_fst (hashStop : Hash) (nLimit : Nat) :
    ∀ (start : Nat) (vHeaders : List CBlockHeader),
      (chain.headersReply hashStop (nLimit + 1) chain.vChain[start]? vHeaders).1 =
        vHeaders ++ ((takeThrough hashStop (chain.vChain.drop start)).take (nLimit + 1)).map chain.header := by
  induction nLimit with
  | zero =>
    intro start vHeaders
    cases found : chain.vChain[start]? with
    | none => simp [headersReply, List.drop_eq_nil_of_le (List.getElem?_eq_none_iff.mp found), takeThrough]
    | some hash => simp [headersReply, chain.drop_of_at found, takeThrough]
  | succ nLimit ih =>
    intro start vHeaders
    cases found : chain.vChain[start]? with
    | none => simp [headersReply, List.drop_eq_nil_of_le (List.getElem?_eq_none_iff.mp found), takeThrough]
    | some hash =>
      by_cases stop : hash = hashStop
      · simp [headersReply, chain.drop_of_at found, takeThrough, stop]
      · simp [headersReply, chain.drop_of_at found, takeThrough, stop, chain.next_of_at found, ih]

/-- The block the loop of `GETHEADERS` stops at, or the tip once it runs off the
active chain, is the last block it sent, or the tip when it sent none. -/
theorem headersReply_snd (hashStop : Hash) (nLimit : Nat) :
    ∀ (start : Nat) (vHeaders : List CBlockHeader),
      (chain.headersReply hashStop (nLimit + 1) chain.vChain[start]? vHeaders).2.getD chain.tip =
        (((takeThrough hashStop (chain.vChain.drop start)).take (nLimit + 1)).getLast?).getD chain.tip := by
  induction nLimit with
  | zero =>
    intro start vHeaders
    cases found : chain.vChain[start]? with
    | none => simp [headersReply, List.drop_eq_nil_of_le (List.getElem?_eq_none_iff.mp found), takeThrough]
    | some hash => simp [headersReply, chain.drop_of_at found, takeThrough]
  | succ nLimit ih =>
    intro start vHeaders
    cases found : chain.vChain[start]? with
    | none => simp [headersReply, List.drop_eq_nil_of_le (List.getElem?_eq_none_iff.mp found), takeThrough]
    | some hash =>
      by_cases stop : hash = hashStop
      · simp [headersReply, chain.drop_of_at found, takeThrough, stop]
      · have step : chain.headersReply hashStop (nLimit + 1 + 1) (some hash) vHeaders =
            chain.headersReply hashStop (nLimit + 1) chain.vChain[start + 1]? (vHeaders ++ [chain.header hash]) := by
          simp [headersReply, stop, chain.next_of_at found]
        rw [step, ih, chain.drop_of_at found]
        cases above : chain.vChain[start + 1]? with
        | none =>
          simp [List.drop_eq_nil_of_le (List.getElem?_eq_none_iff.mp above), takeThrough, stop,
            chain.eq_tip_of_last found above]
        | some next => simp [chain.drop_of_at above, takeThrough, stop]

end ChainView

namespace Handling

variable {env : Env} {h h' : Handling}

/-- The header loop only scores the peer. -/
theorem acceptHeaders_fetches (pending : List Hash) (h : Handling) :
    ∀ (pindexLast : Option Hash) (headers : List CBlockHeader),
      Fetches env pending h pending { h with logic := (acceptHeaders env h.logic h.node.id pindexLast headers).1 }
  | _, [] => .refl pending h
  | pindexLast, header :: rest => by
      unfold acceptHeaders
      dsimp only
      split_ifs
      · exact .misbehaving _ _
      · exact .misbehaving _ _
      · exact .refl pending h
      · exact acceptHeaders_fetches pending h _ rest

/-- **The requests of the direct fetch**, for distinct hashes none in flight:
each is a fresh request from a peer with room, added to the chunk. -/
theorem requestBlocks_fetches :
    ∀ {hashes : List Hash} {h : Handling} {vGetData : List CInv} {logic' : PeerLogic} {vGetData' : List CInv},
      requestBlocks env h.node.id hashes h.logic vGetData = some (logic', vGetData') →
      hashes.Nodup → (∀ x ∈ hashes, h.logic.registry.mapBlocksInFlight.find? x = none) →
      Fetches env (blocksOf vGetData) h (blocksOf vGetData') { h with logic := logic' } ∧
        vGetData'.length ≤ vGetData.length + hashes.length
  | [], h, vGetData, logic', vGetData', ran, _, _ => by
      unfold requestBlocks at ran
      cases ran
      exact ⟨.refl _ h, by simp⟩
  | hash :: rest, h, vGetData, logic', vGetData', ran, unique, fresh => by
      unfold requestBlocks at ran
      obtain ⟨nodestate, found, ran⟩ := Option.bind_eq_some.mp ran
      split_ifs at ran with full
      · simp only [Option.pure_def, Option.some.injEq, Prod.mk.injEq] at ran
        obtain ⟨rfl, rfl⟩ := ran
        exact ⟨.refl _ h, by simp⟩
      · simp only [Option.pure_def, Option.bind_eq_bind, Option.some_bind] at ran
        obtain ⟨logic, marked, ran⟩ := Option.bind_eq_some.mp ran
        have here := fresh hash (List.mem_cons_self _ _)
        obtain ⟨outside, distinct⟩ := List.nodup_cons.mp unique
        have requested : Fetches env (blocksOf vGetData) h (blocksOf (vGetData ++ [⟨.block, hash⟩]))
            { h with logic } := by
          rw [blocksOf_append, blocksOf_singleton_block]
          exact .request here (fun found' => by
            rw [found] at found'
            cases found'
            omega) marked
        have later := requestBlocks_fetches (h := { h with logic }) ran distinct (fun x member => by
          rw [Fetches.find?_of_request here marked (fun same => outside (same ▸ member))]
          exact fresh x (List.mem_cons_of_mem _ member))
        exact ⟨requested.trans later.1, by simp at later ⊢; omega⟩

/-- The requests of the direct fetch, for distinct blocks none of which is in
flight, ask for the first ones while the peer has room; each asked for is then
in flight from the peer, and the index changes at no other hash. -/
theorem requestBlocks_records {nodeid : NodeId} :
    ∀ {hashes : List Hash} {logic logic' : PeerLogic} {vGetData vGetData' : List CInv},
      requestBlocks env nodeid hashes logic vGetData = some (logic', vGetData') →
      hashes.Nodup → (∀ x ∈ hashes, logic.registry.mapBlocksInFlight.find? x = none) →
      ∃ requested, requested <+: hashes ∧ vGetData' = vGetData ++ requested.map (⟨.block, ·⟩) ∧
        (∀ x ∈ requested, (logic'.registry.mapBlocksInFlight.find? x).map Prod.fst = some nodeid) ∧
        ∀ x, x ∉ hashes → logic'.registry.mapBlocksInFlight.find? x = logic.registry.mapBlocksInFlight.find? x
  | [], _, _, _, _, ran, _, _ => by
      cases ran
      exact ⟨[], List.nil_prefix, by simp, fun _ absent => absurd absent (List.not_mem_nil _), fun _ _ => rfl⟩
  | hash :: rest, logic, logic', vGetData, vGetData', ran, unique, fresh => by
      unfold requestBlocks at ran
      obtain ⟨nodestate, -, ran⟩ := Option.bind_eq_some.mp ran
      by_cases full : MAX_BLOCKS_IN_TRANSIT_PER_PEER ≤ nodestate.nBlocksInFlight
      · rw [if_pos full] at ran
        simp only [Option.pure_def, Option.some.injEq, Prod.mk.injEq] at ran
        obtain ⟨rfl, rfl⟩ := ran
        exact ⟨[], List.nil_prefix, by simp, fun _ absent => absurd absent (List.not_mem_nil _), fun _ _ => rfl⟩
      rw [if_neg full] at ran
      simp only [Option.pure_def, Option.bind_eq_bind, Option.some_bind] at ran
      obtain ⟨mid, marked, ran⟩ := Option.bind_eq_some.mp ran
      obtain ⟨registry, markedRegistry, rfl⟩ := PeerLogic.markBlockAsInFlight_eq env logic marked
      obtain ⟨nodeState, -, rfl⟩ :=
        markBlockAsInFlight_of_fresh (fresh hash (List.mem_cons_self _ _)) markedRegistry
      obtain ⟨outside, distinct⟩ := List.nodup_cons.mp unique
      obtain ⟨requested, ⟨tail, split⟩, sent, recorded, unchanged⟩ := requestBlocks_records ran distinct
        fun x member => by
          dsimp only
          rw [Registry.queueBlock_find?, if_neg (ne_of_mem_of_not_mem member outside)]
          exact fresh x (List.mem_cons_of_mem _ member)
      dsimp only at recorded unchanged
      refine ⟨hash :: requested, ⟨tail, by rw [List.cons_append, split]⟩, ?_, fun x member => ?_, fun x absent => ?_⟩
      · rw [sent, List.map_cons, List.append_assoc, List.singleton_append]
      · rcases List.mem_cons.mp member with rfl | later
        · rw [unchanged x outside, Registry.queueBlock_find?, if_pos rfl]
          rfl
        · exact recorded x later
      · rw [unchanged x (List.not_mem_of_not_mem_cons absent), Registry.queueBlock_find?,
          if_neg (List.ne_of_not_mem_cons absent)]

/-- What the direct fetch does: nothing, or request, oldest first, the blocks
its walk from `last` collected before meeting the active chain, and push them
in one `GETDATA`. -/
theorem directFetch_cases {last : Hash} (ran : directFetch env h last = some h') :
    h' = h ∨ ∃ (fuel : Nat) (walk : Hash) (vToFetch : List Hash) (logic : PeerLogic) (vGetData : List CInv),
      env.chain.directFetchWalk h.logic.registry.mapBlocksInFlight fuel (some last) [] = some (some walk, vToFetch) ∧
      env.chain.contains walk = true ∧ requestBlocks env h.node.id vToFetch.reverse h.logic [] = some (logic, vGetData) ∧
      h' = { h with logic, node := flushChunk .getdata h.node vGetData } := by
  unfold directFetch at ran
  obtain ⟨block, -, ran⟩ := Option.bind_eq_some.mp ran
  split_ifs at ran
  · cases ran
    exact .inl rfl
  simp only [Option.pure_def, Option.bind_eq_bind, Option.some_bind] at ran
  obtain ⟨⟨pindexWalk, vToFetch⟩, walked, ran⟩ := Option.bind_eq_some.mp ran
  obtain ⟨walk, rfl, ran⟩ := Option.bind_eq_some.mp ran
  split_ifs at ran with offChain
  · cases ran
    exact .inl rfl
  simp only [Option.pure_def, Option.bind_eq_bind, Option.some_bind] at ran
  obtain ⟨⟨logic, vGetData⟩, requested, ran⟩ := Option.bind_eq_some.mp ran
  cases ran
  exact .inr ⟨_, walk, vToFetch, logic, vGetData, walked, by simpa using offChain, requested, rfl⟩

/-- **The direct fetch** asks for blocks it requested, none in flight before. -/
theorem directFetch_fetches {last : Hash} (ran : directFetch env h last = some h') : Fetches env [] h [] h' := by
  rcases directFetch_cases ran with rfl | ⟨fuel, walk, vToFetch, logic, vGetData, walked, -, requested, rfl⟩
  · exact .refl [] _
  obtain ⟨falling, fresh, bound⟩ := env.chain.directFetchWalk_fresh _ walked (by simp) (by simp) (by simp) (by simp)
  dsimp only at bound
  have distinct : vToFetch.reverse.Nodup :=
    List.nodup_reverse.mpr (falling.imp fun lower same => by rw [same] at lower; exact lt_irrefl _ lower)
  obtain ⟨fetched, grew⟩ := requestBlocks_fetches requested distinct (fun x member => fresh x (List.mem_reverse.mp member))
  have within : vGetData.length ≤ MAX_INV_SZ := by
    simp only [List.length_nil, List.length_reverse, Nat.zero_add] at grew
    have : MAX_BLOCKS_IN_TRANSIT_PER_PEER + 1 ≤ MAX_INV_SZ := by decide
    omega
  exact fetched.trans (.flush within rfl)

/-- **What the direct fetch downloads.** The blocks the direct fetch after
`HEADERS` asks for lie on the branch to the last header: each is an ancestor of
it off the active chain, indexed without its data and not in flight, and is then
in flight from the peer. They are asked for oldest first in one `GETDATA`, and
only when the walk down from the last header met the active chain below them. -/
theorem directFetch_branch {last : Hash} (ran : directFetch env h last = some h') :
    ∃ blocks : List Hash, h'.node = flushChunk .getdata h.node (blocks.map (⟨.block, ·⟩)) ∧
      blocks.Pairwise (fun a b => env.chain.nHeight a < env.chain.nHeight b) ∧
      (∀ hash ∈ blocks, env.chain.DirectFetchable h.logic.registry.mapBlocksInFlight last hash ∧
        (h'.logic.registry.mapBlocksInFlight.find? hash).map Prod.fst = some h.node.id) ∧
      (blocks ≠ [] → ∃ fork, env.chain.contains fork = true ∧ env.chain.AncestorOrSelf fork last ∧
        ∀ hash ∈ blocks, env.chain.nHeight fork < env.chain.nHeight hash) := by
  rcases directFetch_cases ran with rfl | ⟨fuel, walk, vToFetch, logic, vGetData, walked, onChain, requested, rfl⟩
  · exact ⟨[], rfl, List.Pairwise.nil, fun _ absent => absurd absent (List.not_mem_nil _), fun empty => absurd rfl empty⟩
  obtain ⟨falling, fresh, -⟩ := env.chain.directFetchWalk_fresh _ walked (by simp) (by simp) (by simp) (by simp)
  obtain ⟨ended, fetchable⟩ := env.chain.directFetchWalk_branch _ last walked
    (fun w member => ⟨by rw [Option.mem_some_iff.mp member]; exact ⟨0, rfl⟩,
      fun _ absent => absurd absent (List.not_mem_nil _)⟩)
    fun _ absent => absurd absent (List.not_mem_nil _)
  have distinct : vToFetch.reverse.Nodup :=
    List.nodup_reverse.mpr (falling.imp fun lower same => by rw [same] at lower; exact lt_irrefl _ lower)
  obtain ⟨blocks, leading, sent, recorded, -⟩ :=
    requestBlocks_records requested distinct fun x member => fresh x (List.mem_reverse.mp member)
  have within : ∀ x ∈ blocks, x ∈ vToFetch := fun x member => List.mem_reverse.mp (leading.subset member)
  obtain ⟨ancestor, below⟩ := ended walk rfl
  refine ⟨blocks, by rw [sent, List.nil_append], (List.pairwise_reverse.mpr falling).sublist leading.sublist,
    fun hash member => ⟨fetchable hash (within hash member), recorded hash member⟩,
    fun _ => ⟨walk, onChain, ancestor, fun hash member => below hash (within hash member)⟩⟩

/-- An environment over the chain `ChainView.stalled`, whose blocks `2` and `3`
are known by their headers only. -/
def stalledChainEnv : Env :=
  { missingInputsEnv with chain := ChainView.stalled, acceptBlockHeader_indexed := nofun }

theorem directFetch_branch_stalled :
    ∃ h', directFetch stalledChainEnv connectedPeer 3 = some h' ∧
      ∃ blocks : List Hash, h'.node = flushChunk .getdata connectedPeer.node (blocks.map (⟨.block, ·⟩)) ∧
        blocks.Pairwise (fun a b => stalledChainEnv.chain.nHeight a < stalledChainEnv.chain.nHeight b) ∧
        (∀ hash ∈ blocks,
          stalledChainEnv.chain.DirectFetchable connectedPeer.logic.registry.mapBlocksInFlight 3 hash ∧
            (h'.logic.registry.mapBlocksInFlight.find? hash).map Prod.fst = some connectedPeer.node.id) ∧
        (blocks ≠ [] → ∃ fork, stalledChainEnv.chain.contains fork = true ∧
          stalledChainEnv.chain.AncestorOrSelf fork 3 ∧
          ∀ hash ∈ blocks, stalledChainEnv.chain.nHeight fork < stalledChainEnv.chain.nHeight hash) := by
  obtain ⟨h', ran⟩ := Option.isSome_iff_exists.mp (by decide : (directFetch stalledChainEnv connectedPeer 3).isSome)
  exact ⟨h', ran, directFetch_branch ran⟩

/-- Headers up to `3` fetch the branch `2`, `3` above the genesis, oldest first. -/
example : (directFetch stalledChainEnv connectedPeer 3).map (·.node.vSendMsg) =
    some [.getdata [⟨.block, 2⟩, ⟨.block, 3⟩]] := by
  decide

/-- **The `HEADERS` branch is a request path**, and pushes every `GETDATA` it asks for. -/
theorem processHeaders_fetches {headers : List CBlockHeader} {fRet : Bool}
    (ran : processHeaders env h headers = some (h', fRet)) : Fetches env [] h [] h' := by
  unfold processHeaders at ran
  by_cases importing : (env.fImporting || env.fReindex) = true
  · rw [if_pos importing] at ran
    cases ran
    exact .refl [] h
  rw [if_neg importing] at ran
  by_cases tooMany : MAX_HEADERS_RESULTS < headers.length
  · rw [if_pos tooMany] at ran
    cases ran
    exact .misbehaving _ _
  rw [if_neg tooMany] at ran
  by_cases empty : headers.isEmpty = true
  · rw [if_pos empty] at ran
    cases ran
    exact .refl [] h
  rw [if_neg empty] at ran
  cases found : acceptHeaders env h.logic h.node.id none headers with
  | mk logic rest =>
      obtain ⟨pindexLast, fOk⟩ := rest
      have accepted := (acceptHeaders_fetches [] h none headers : Fetches env _ _ _ _)
      rw [found] at accepted
      simp only [found] at ran
      cases fOk
      · cases ran
        exact accepted
      simp only [Bool.not_true, Bool.false_eq_true, ↓reduceIte, Option.pure_def, Option.bind_eq_bind,
        Option.some_bind] at ran
      cases pindexLast with
      | none =>
          by_cases direct : (!env.canDirectFetch) = true
          · rw [if_pos direct] at ran
            cases ran
            exact accepted
          · rw [if_neg direct] at ran
            cases ran
      | some last =>
          obtain ⟨registry, updated, ran⟩ := Option.bind_eq_some.mp ran
          obtain ⟨update, same⟩ := RegistryUpdate.updateBlockAvailability updated
          have available : Fetches env [] h [] { h with
              logic := { logic with registry }
              node := if headers.length = MAX_HEADERS_RESULTS then
                h.node.pushMessage (.getheaders (env.chain.getLocator last) 0) else h.node } := by
            refine accepted.trans ((Fetches.update update same).trans (.frame ?_))
            split_ifs
            · exact .push _ rfl
            · exact .refl _
          by_cases direct : (!env.canDirectFetch) = true
          · rw [if_pos direct] at ran
            cases ran
            exact available
          · rw [if_neg direct, Option.some_bind] at ran
            obtain ⟨h₁, fetched, ran⟩ := Option.bind_eq_some.mp ran
            cases ran
            exact available.trans (directFetch_fetches fetched)

/-- While every header is refused without an invalid verdict and stores no index
entry, the loop keeps `pindexLast` null and lets the message through. -/
theorem acceptHeaders_unset (logic : PeerLogic) (nodeid : NodeId) :
    ∀ {headers : List CBlockHeader}, (∀ header ∈ headers,
      (env.acceptBlockHeader header).pindex = none ∧
        (env.acceptBlockHeader header).state.IsInvalid = false) →
      acceptHeaders env logic nodeid none headers = (logic, none, true)
  | [], _ => rfl
  | header :: rest, unset => by
    obtain ⟨unindexed, valid⟩ := unset header (.head _)
    simp [acceptHeaders, unindexed, valid,
      acceptHeaders_unset logic nodeid fun other member => unset other (.tail _ member)]

/-- **`HEADERS` dereferences a null `pindexLast`.** When no header of the message
stores an index entry and none is refused as invalid, `pindexLast` stays null;
the availability update and the pipelined `GETHEADERS` are guarded, but a node
that can fetch directly reads `pindexLast->IsValid` unguarded. -/
theorem processHeaders_derefs_null {headers : List CBlockHeader}
    (running : (env.fImporting || env.fReindex) = false)
    (sized : headers.length ≤ MAX_HEADERS_RESULTS) (nonempty : headers ≠ [])
    (unset : ∀ header ∈ headers, (env.acceptBlockHeader header).pindex = none ∧
      (env.acceptBlockHeader header).state.IsInvalid = false)
    (direct : env.canDirectFetch = true) :
    processHeaders env h headers = none := by
  simp [processHeaders, running, Nat.not_lt.mpr sized, nonempty,
    acceptHeaders_unset h.logic h.node.id unset, direct]

theorem processHeaders_unindexed_header :
    processHeaders missingInputsEnv connectedPeer [⟨2, 1⟩] = none :=
  processHeaders_derefs_null rfl (by decide) (List.cons_ne_nil _ _) (fun _ _ => ⟨rfl, rfl⟩)
    (by decide)

/-- **The `GETHEADERS` branch** records the last header sent and answers with at
most `MAX_HEADERS_RESULTS` headers. -/
theorem processGetHeaders_moves {locator : List Hash} {hashStop : Hash} {fRet : Bool}
    (ran : processGetHeaders env h locator hashStop = some (h', fRet)) : Moves env h h' := by
  unfold processGetHeaders at ran
  split at ran
  · cases ran
    exact .refl h
  split at ran
  · cases ran
    exact .refl h
  cases reply : env.chain.headersReply hashStop MAX_HEADERS_RESULTS
      (if locator.isEmpty = true then some hashStop else env.chain.next (env.chain.findForkInGlobalIndex locator)) []
    with
  | mk vHeaders last =>
      have bound := env.chain.headersReply_length hashStop MAX_HEADERS_RESULTS
        (if locator.isEmpty = true then some hashStop else env.chain.next (env.chain.findForkInGlobalIndex locator)) []
      rw [reply] at bound
      simp only [reply] at ran
      obtain ⟨nodestate, found, ran⟩ := Option.bind_eq_some.mp ran
      cases ran
      exact ⟨.single (.setFields found ⟨rfl, rfl, rfl, rfl, rfl⟩),
        .push h.node (by simpa [NetMsg.framed, NetMsg.withinLimits, NetMsg.blocksRequested] using bound)⟩

/-- **The `GETHEADERS` reply.** Outside initial block download, or for a
whitelisted peer, a request with a locator, or with a known `hashStop`, is
answered with the headers `headersWanted` lists, and `pindexBestHeaderSent`
becomes the last of them, or the tip when there is none. -/
theorem processGetHeaders_answers {nodestate : CNodeState} {locator : List Hash} {hashStop : Hash}
    (registered : h.logic.registry.state h.node.id = some nodestate)
    (serving : (env.fInitialBlockDownload && !h.node.fWhitelisted) = false)
    (requested : locator.isEmpty = false ∨ (env.chain.mapBlockIndex hashStop).isSome) :
    processGetHeaders env h locator hashStop = some ({ h with
      logic := { h.logic with
        registry := h.logic.registry.setState h.node.id { nodestate with
          pindexBestHeaderSent := some ((env.chain.headersWanted locator hashStop).getLast?.getD env.chain.tip) } }
      node := h.node.pushMessage (.headers ((env.chain.headersWanted locator hashStop).map env.chain.header)) },
      true) := by
  have limit : MAX_HEADERS_RESULTS = 1999 + 1 := rfl
  by_cases empty : locator.isEmpty
  · obtain ⟨block, known⟩ := Option.isSome_iff_exists.mp (by simpa [empty] using requested)
    simp [processGetHeaders, serving, empty, known, registered, limit, ChainView.headersReply,
      ChainView.headersWanted]
  · have fork := env.chain.findForkInGlobalIndex_at locator
    simp only [Bool.not_eq_true] at empty
    simp only [processGetHeaders, serving, empty, registered, Bool.false_eq_true, Bool.false_and, if_false,
      env.chain.next_of_at fork, limit, env.chain.headersReply_fst, env.chain.headersReply_snd]
    simp [ChainView.headersWanted, empty, limit]

/-- On the chain `1` to `5`, a locator at `2` is answered up to `hashStop`
`4`, or up to the tip for a `hashStop` off the chain. -/
theorem processGetHeaders_answers_line :
    lineEnv.chain.headersWanted [2] 4 = [3, 4] ∧ lineEnv.chain.headersWanted [2] 9 = [3, 4, 5] ∧
    processGetHeaders lineEnv connectedPeer [2] 4 = some ({ connectedPeer with
      logic := { connectedPeer.logic with
        registry := connectedPeer.logic.registry.setState 1 { CNodeState.initial with
          pindexBestHeaderSent := some ((lineEnv.chain.headersWanted [2] 4).getLast?.getD lineEnv.chain.tip) } }
      node := connectedPeer.node.pushMessage (.headers ((lineEnv.chain.headersWanted [2] 4).map lineEnv.chain.header)) },
      true) ∧
    processGetHeaders lineEnv connectedPeer [2] 9 = some ({ connectedPeer with
      logic := { connectedPeer.logic with
        registry := connectedPeer.logic.registry.setState 1 { CNodeState.initial with
          pindexBestHeaderSent := some ((lineEnv.chain.headersWanted [2] 9).getLast?.getD lineEnv.chain.tip) } }
      node := connectedPeer.node.pushMessage (.headers ((lineEnv.chain.headersWanted [2] 9).map lineEnv.chain.header)) },
      true) :=
  ⟨by decide, by decide, processGetHeaders_answers rfl rfl (.inl rfl), processGetHeaders_answers rfl rfl (.inl rfl)⟩

/-- **The `BLOCK` branch** releases the block's request, records its source, and
answers an invalid block with a `REJECT`. -/
theorem processBlock_moves {block : CBlock} {fRet : Bool} (ran : processBlock env h block = some (h', fRet)) :
    Moves env h h' := by
  unfold processBlock at ran
  by_cases importing : (env.fImporting || env.fReindex) = true
  · rw [if_pos importing] at ran
    cases ran
    exact .refl h
  rw [if_neg importing] at ran
  obtain ⟨⟨registry, fRequested⟩, marked, ran⟩ := Option.bind_eq_some.mp ran
  have received : LogicMoves env h.logic { h.logic with
      registry
      mapBlockSource := h.logic.mapBlockSource.emplace block.header.hash (h.node.id, true) } :=
    .tail (.single (.registry (.markBlockAsReceived marked))) (.blockSource _ _ _)
  simp only [Option.pure_def, Option.bind_eq_bind, Option.some_bind] at ran
  generalize env.processNewBlock block ((h.node.fWhitelisted && !env.fInitialBlockDownload) || fRequested) = state
    at ran
  by_cases valid : (!state.IsInvalid) = true
  · rw [if_pos valid] at ran
    cases ran
    exact ⟨received, .refl h.node⟩
  rw [if_neg valid] at ran
  by_cases internal : env.params.REJECT_INTERNAL ≤ state.chRejectCode
  · rw [if_pos internal] at ran
    cases ran
  rw [if_neg internal] at ran
  by_cases punished : 0 < state.nDoS
  · rw [if_pos punished] at ran
    cases ran
    exact ⟨received.tail (.misbehaving _ _), .push h.node rfl⟩
  · rw [if_neg punished] at ran
    cases ran
    exact ⟨received, .push h.node rfl⟩

/-- **The `BLOCK` branch answers with the validator's code as it is.** Its only
check on the code is the `assert` that it is below `REJECT_INTERNAL`, so every
invalid verdict below that, code `0` included, is answered by a `REJECT`
carrying it. -/
theorem processBlock_rejects_verdict {block : CBlock} {state : CValidationState}
    (consistent : h.logic.registry.Consistent) (running : (env.fImporting || env.fReindex) = false)
    (verdict : ∀ forceProcessing, env.processNewBlock block forceProcessing = state)
    (invalid : state.IsInvalid) (belowInternal : state.chRejectCode < env.params.REJECT_INTERNAL) :
    ∃ h', processBlock env h block = some (h', true) ∧
      h'.node.vSendMsg = h.node.vSendMsg ++ [.reject .block state.chRejectCode
        (state.strRejectReason.take env.params.MAX_REJECT_MESSAGE_LENGTH) (some block.header.hash)] := by
  obtain ⟨⟨registry, fRequested⟩, marked⟩ :=
    Option.isSome_iff_exists.mp (consistent.markBlockAsReceived_isSome block.header.hash env.nTimeMicros)
  unfold processBlock
  simp [running, marked, verdict, invalid, Nat.not_le.mpr belowInternal, CNode.pushMessage,
    Nat.mod_eq_of_lt (belowInternal.trans_le env.params.reject_internal_le)]

/-- An environment whose validator finds every block invalid with code `0`. -/
def invalidBlockEnv : Env :=
  { missingInputsEnv with processNewBlock := fun _ _ => ⟨.invalid, 0, 0, "bad-blk", false⟩ }

theorem processBlock_rejects_code_zero :
    ∃ h', processBlock invalidBlockEnv connectedPeer ⟨⟨5, 0⟩, []⟩ = some (h', true) ∧
      h'.node.vSendMsg = connectedPeer.node.vSendMsg ++ [.reject .block 0
        ("bad-blk".take invalidBlockEnv.params.MAX_REJECT_MESSAGE_LENGTH) (some 5)] :=
  @processBlock_rejects_verdict invalidBlockEnv connectedPeer ⟨⟨5, 0⟩, []⟩ ⟨.invalid, 0, 0, "bad-blk", false⟩
    (Registry.consistent_empty.initializeNode 1) rfl (fun _ => rfl) rfl (by decide)

end Handling

end XuezNet
