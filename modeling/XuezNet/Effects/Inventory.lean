import XuezNet.Effects.GetData
import XuezNet.Effects.Trickle

/-! # What the inventory branches do

`INV` is a request path: the blocks its `GETDATA` asks for are exactly the
blocks it marked in flight, each checked not in flight and asked of a peer with
room just before (`processInv_fetches`); an interrupt may leave some marked but
not yet asked for (`processInv_interrupted_strands_block`). `MEMPOOL` and
`GETBLOCKS` only answer within the frame.
-/

namespace XuezNet

/-- A loop that builds chunks of at most `limit` items, each pass within the frame. -/
theorem foldl_chunk_frame {α β : Type} {allowed : NetMsg → Bool} {limit : Nat}
    {step : CNode × List α → β → CNode × List α}
    (each : ∀ acc item, acc.2.length < limit →
      NodeFrame allowed acc.1 (step acc item).1 ∧ (step acc item).2.length < limit) :
    ∀ (items : List β) (acc : CNode × List α), acc.2.length < limit →
      NodeFrame allowed acc.1 (items.foldl step acc).1 ∧ (items.foldl step acc).2.length < limit
  | [], _, below => ⟨.refl _, below⟩
  | item :: rest, acc, below =>
      let first := each acc item below
      let later := foldl_chunk_frame each rest (step acc item) first.2
      ⟨first.1.trans later.1, later.2⟩

namespace Handling

variable {env : Env} {h h' : Handling}

open Fetches in
/-- **One block announcement of `INV`** requests at most the announced block,
fresh and from a peer with room, and adds it to the chunk. -/
theorem announceBlock_fetches {vToFetch vToFetch' : List CInv} {inv : CInv} {fAlreadyHave : Bool}
    (isBlock : inv.type = .block) (ran : announceBlock env h vToFetch inv fAlreadyHave = some (h', vToFetch')) :
    Fetches env (blocksOf vToFetch) h (blocksOf vToFetch') h' ∧ vToFetch'.length ≤ vToFetch.length + 1 := by
  unfold announceBlock at ran
  obtain ⟨registry, updated, ran⟩ := Option.bind_eq_some.mp ran
  obtain ⟨update, same⟩ := RegistryUpdate.updateBlockAvailability updated
  have first : Fetches env (blocksOf vToFetch) h (blocksOf vToFetch)
      { h with logic := { h.logic with registry } } := Fetches.update update same
  split_ifs at ran with stop
  · simp only [Option.pure_def, Option.some.injEq, Prod.mk.injEq] at ran
    obtain ⟨rfl, rfl⟩ := ran
    exact ⟨first, by omega⟩
  · simp only [Option.pure_def, Option.bind_eq_bind, Option.some_bind] at ran
    have fresh : registry.mapBlocksInFlight.find? inv.hash = none := by
      simp at stop
      exact stop.2
    have asked : Fetches env (blocksOf vToFetch) h (blocksOf vToFetch) { h with
        logic := { h.logic with registry }
        node := h.node.pushMessage (.getheaders (env.chain.getLocator
          (env.chain.pindexBestHeader.getD env.chain.tip)) inv.hash) } :=
      first.trans (.frame (.push _ rfl))
    obtain ⟨nodestate, found, ran⟩ := Option.bind_eq_some.mp ran
    split_ifs at ran with direct
    · obtain ⟨logic, marked, ran⟩ := Option.bind_eq_some.mp ran
      obtain ⟨-, -, ran⟩ := Option.bind_eq_some.mp ran
      cases ran
      simp only [Bool.and_eq_true, decide_eq_true_eq] at direct
      refine ⟨asked.trans ?_, by simp⟩
      rw [blocksOf_append, blocksOf_singleton_of_block isBlock]
      exact .request fresh (fun found' => by rw [found] at found'; cases found'; exact direct.2) marked
    · obtain ⟨-, -, ran⟩ := Option.bind_eq_some.mp ran
      cases ran
      exact ⟨asked, by omega⟩

/-- `AlreadyHave` inside a request path. -/
theorem alreadyHave_fetches (pending : List Hash) (h : Handling) (inv : CInv) :
    Fetches env pending h pending { h with logic := (h.logic.alreadyHave env inv).1 } :=
  .step (.alreadyHave _ _) (PeerLogic.Holds.of_eq (by simp)) (PeerLogic.alreadyHave_inFlightRequests _ _ _)

/-- **The loop of `INV`** from a chunk `vToFetch`: what it asks for is the chunk's
blocks, then those it requests, unless an interrupt ends it before the chunk is
pushed. -/
theorem invLoop_fetches {fBlocksOnly : Bool} {interrupted : Nat → Bool} :
    ∀ {vInv : List CInv} {n : Nat} {h h' : Handling} {vToFetch : List CInv} {fRet : Bool},
      invLoop env fBlocksOnly interrupted n vInv h vToFetch = some (h', fRet) →
      vToFetch.length + vInv.length ≤ MAX_INV_SZ →
      ∃ pending', Fetches env (blocksOf vToFetch) h pending' h'
  | [], n, h, h', vToFetch, fRet, ran, bound => by
      unfold invLoop at ran
      cases ran
      exact ⟨[], .flush (by simpa using bound) rfl⟩
  | inv :: rest, n, h, h', vToFetch, fRet, ran, bound => by
      unfold invLoop at ran
      by_cases stop : interrupted n = true
      · rw [if_pos stop] at ran
        cases ran
        exact ⟨_, .refl _ _⟩
      · rw [if_neg stop] at ran
        have bound' : vToFetch.length + 1 + rest.length ≤ MAX_INV_SZ := by
          simp only [List.length_cons] at bound
          omega
        cases found : h.logic.alreadyHave env inv with
        | mk logic fAlreadyHave =>
            have checked : Fetches env (blocksOf vToFetch) h (blocksOf vToFetch) { h with logic } := by
              have := (alreadyHave_fetches (blocksOf vToFetch) h inv : Fetches env _ _ _ _)
              rw [found] at this
              exact this
            simp only [found] at ran
            by_cases isBlock : inv.type = .block
            · rw [if_pos isBlock] at ran
              obtain ⟨⟨h₁, vToFetch₁⟩, announced, ran⟩ := Option.bind_eq_some.mp ran
              obtain ⟨fetched, grew⟩ := announceBlock_fetches isBlock announced
              dsimp only at ran
              obtain ⟨pending', later⟩ := invLoop_fetches ran (by omega)
              exact ⟨pending', checked.trans (fetched.trans later)⟩
            · rw [if_neg isBlock] at ran
              obtain ⟨pending', later⟩ := invLoop_fetches ran (by omega)
              refine ⟨pending', checked.trans ((Fetches.frame ?_).trans later)⟩
              refine (NodeFrame.addInventoryKnown _ inv).trans ?_
              split_ifs
              · exact .askFor _ isBlock _
              · exact .refl _

/-- **The `INV` branch is a request path**: the blocks its `GETDATA` asks for are
blocks it requested, pairwise distinct and none in flight before. -/
theorem processInv_fetches {interrupted : Nat → Bool} {vInv : List CInv} {fRet : Bool}
    (ran : processInv env interrupted h vInv = some (h', fRet)) : ∃ pending', Fetches env [] h pending' h' := by
  unfold processInv at ran
  split_ifs at ran with tooMany
  · cases ran
    exact ⟨[], .misbehaving _ _⟩
  · exact invLoop_fetches ran (by simp; omega)

/-- **An interrupted `INV` strands its requests.** The interrupt is read before
each entry, and the `GETDATA` for `vToFetch` is pushed only after the last one,
so a block marked in flight before the interrupt is never asked for: on an `INV`
of blocks `9` and `10` from peer `1`, interrupted at the second entry, block `9`
stays in flight from peer `1` and nothing pushed asks for a block. -/
theorem processInv_interrupted_strands_block :
    (processInv missingInputsEnv (fun n => decide (n = 1)) connectedPeer [⟨.block, 9⟩, ⟨.block, 10⟩]).map
      (fun r => ((r.1.logic.registry.mapBlocksInFlight.find? 9).map Prod.fst,
        r.1.node.vSendMsg.flatMap NetMsg.blocksRequested)) = some (some 1, []) := by
  decide

/-- An inventory of at most `MAX_INV_SZ` entries is a message a handler may push. -/
theorem inv_framed {vInv : List CInv} (bound : vInv.length ≤ MAX_INV_SZ) : (NetMsg.inv vInv).framed := by
  simpa [NetMsg.framed, NetMsg.withinLimits, NetMsg.blocksRequested] using bound

/-- **The `MEMPOOL` branch** answers within the frame. -/
theorem processMempool_moves (h : Handling) : Moves env h (processMempool env h) := by
  have each : ∀ (acc : CNode × List CInv) (hash : Hash), acc.2.length < MAX_INV_SZ →
      NodeFrame NetMsg.framed acc.1 (mempoolInv env h acc hash).1 ∧
        (mempoolInv env h acc hash).2.length < MAX_INV_SZ := fun acc hash below => by
    unfold mempoolInv
    split_ifs
    · exact ⟨.refl _, below⟩
    · exact chunkPush_frame (fun _ bound => inv_framed bound) below
  have loop := foldl_chunk_frame each (h.logic.mempool.entries.map Prod.fst) (h.node, []) (by simp [MAX_INV_SZ])
  exact .frame (loop.1.trans (flushChunk_frame (inv_framed loop.2.le)))

variable (env) in
/-- The mempool's transactions, each added to the `INV` chunk unless the peer
has a filter that finds it irrelevant, change nothing else of the connection. -/
theorem foldl_mempoolInv (h : Handling) (hashes : List Hash)
    (pooled : ∀ hash ∈ hashes, h.logic.mempool.contains hash = true) :
    ∀ acc : CNode × List CInv, ∃ sent, (hashes.foldl (mempoolInv env h) acc).1 = { acc.1 with vSendMsg := sent } ∧
      ChunkSends NetMsg.inv acc.1.vSendMsg acc.2
        ((hashes.filter fun hash => !acc.1.fHasFilter || env.relevantTx acc.1.id hash).map (⟨.tx, ·⟩)) sent
        (hashes.foldl (mempoolInv env h) acc).2 := by
  induction hashes with
  | nil => exact fun acc => ⟨acc.1.vSendMsg, rfl, .refl _ _⟩
  | cons hash rest ih =>
      intro acc
      have inPool := pooled hash (List.mem_cons_self _ _)
      have later := ih fun other listed => pooled other (List.mem_cons_of_mem _ listed)
      rw [List.foldl_cons]
      have filtered : (acc.1.fHasFilter && !env.relevantTx acc.1.id hash) =
          !(!acc.1.fHasFilter || env.relevantTx acc.1.id hash) := by
        cases acc.1.fHasFilter <;> rfl
      let relevant := fun hash => !acc.1.fHasFilter || env.relevantTx acc.1.id hash
      by_cases pass : (!acc.1.fHasFilter || env.relevantTx acc.1.id hash) = true
      · have pushed : mempoolInv env h acc hash = chunkPush MAX_INV_SZ .inv acc.1 acc.2 ⟨.tx, hash⟩ := by
          rw [mempoolInv, inPool, Bool.true_and, filtered, pass]
          rfl
        rw [pushed, List.filter_cons_of_pos (p := relevant) pass, List.map_cons]
        obtain ⟨sent, shape, sends⟩ := later (chunkPush MAX_INV_SZ .inv acc.1 acc.2 ⟨.tx, hash⟩)
        rw [chunkPush_fst] at shape sends
        exact ⟨sent, shape, (ChunkSends.push MAX_INV_SZ acc.1 acc.2 _).trans sends⟩
      · have same : mempoolInv env h acc hash = acc := by
          rw [mempoolInv, inPool, Bool.true_and, filtered, Bool.eq_false_iff.mpr pass]
          rfl
        rw [same, List.filter_cons_of_neg (p := relevant) pass]
        exact later acc

/-- **The `MEMPOOL` answer**: `INV` messages that carry, in the mempool's order
and each once, exactly its transactions, or, to a peer with a filter, those the
filter finds relevant; nothing else of the connection changes. -/
theorem processMempool_announces (h : Handling) :
    ∃ chunks : List (List CInv),
      (processMempool env h).node = { h.node with vSendMsg := h.node.vSendMsg ++ chunks.map NetMsg.inv } ∧
      chunks.flatten = ((h.logic.mempool.entries.map Prod.fst).filter
        fun hash => !h.node.fHasFilter || env.relevantTx h.node.id hash).map (⟨.tx, ·⟩) ∧
      chunks.flatten.Nodup := by
  have pooled : ∀ hash ∈ h.logic.mempool.entries.map Prod.fst, h.logic.mempool.contains hash = true :=
    fun hash listed => StdMap.contains_of_mem_keys (List.mem_reverse.mpr listed)
  obtain ⟨sent, shape, sends⟩ := foldl_mempoolInv env h _ pooled (h.node, [])
  obtain ⟨chunks, pushed, carried⟩ :=
    ChunkSends.flush ((h.logic.mempool.entries.map Prod.fst).foldl (mempoolInv env h) (h.node, [])).1
      (by rw [shape]; exact sends)
  have items := carried
  rw [List.append_nil, List.nil_append] at items
  refine ⟨chunks, ?_, items, ?_⟩
  · rw [processMempool, flushChunk_eq, pushed, shape]
  · rw [items]
    exact ((List.nodup_reverse.mp (StdMap.nodup_keys_reverse _)).filter _).map
      fun a b same => congrArg CInv.hash same

/-- Peer `1` of `Handling.connectedPeer`, with transactions `7` and `3` in the mempool. -/
def mempoolPeer : Handling :=
  { connectedPeer with logic := { connectedPeer.logic with
      mempool := ((∅ : StdSet Hash).insert 7 ()).insert 3 () } }

/-- The answer lists the mempool in order, in one `INV`. -/
example : (processMempool missingInputsEnv mempoolPeer).node.vSendMsg =
    mempoolPeer.node.vSendMsg ++ [.inv [⟨.tx, 3⟩, ⟨.tx, 7⟩]] := by
  decide

/-- The loop of `GETBLOCKS` only queues announcements. -/
theorem getBlocksLoop_frame (hashStop : Hash) :
    ∀ (nLimit : Nat) (pindex : Option Hash) (node : CNode),
      NodeFrame NetMsg.framed node (getBlocksLoop env hashStop nLimit pindex node)
  | 0, none, node => .refl node
  | 0, some _, node => .refl node
  | _ + 1, none, node => .refl node
  | nLimit + 1, some hash, node => by
      unfold getBlocksLoop
      split_ifs
      · exact .refl node
      · exact (NodeFrame.pushInventory node _).trans (.update rfl rfl rfl rfl rfl rfl rfl rfl rfl)
      · exact (NodeFrame.pushInventory node _).trans (getBlocksLoop_frame hashStop nLimit _ _)

/-- **The `GETBLOCKS` branch** only queues announcements. -/
theorem processGetBlocks_moves (h : Handling) (locator : List Hash) (hashStop : Hash) :
    Moves env h (processGetBlocks env h locator hashStop) :=
  .frame (getBlocksLoop_frame hashStop 500 _ _)

/-- **The loop of `GETBLOCKS` along the active chain** announces the blocks from
`start` on that come before `hashStop`, at most `nLimit + 1` of them, and sets
`hashContinue` to the last one exactly when it announced `nLimit + 1`. -/
theorem getBlocksLoop_run (hashStop : Hash) (nLimit : Nat) :
    ∀ (start : Nat) (node : CNode),
      getBlocksLoop env hashStop (nLimit + 1) env.chain.vChain[start]? node =
        { node with
          vInventoryBlockToSend := node.vInventoryBlockToSend ++
            ((env.chain.vChain.drop start).takeWhile (· != hashStop)).take (nLimit + 1)
          hashContinue :=
            (((env.chain.vChain.drop start).takeWhile (· != hashStop)).take (nLimit + 1))[nLimit]?.getD
              node.hashContinue } := by
  induction nLimit with
  | zero =>
    intro start node
    cases found : env.chain.vChain[start]? with
    | none => simp [getBlocksLoop, List.drop_eq_nil_of_le (List.getElem?_eq_none_iff.mp found)]
    | some hash =>
      by_cases stop : hash = hashStop
      · simp [getBlocksLoop, env.chain.drop_of_at found, stop]
      · simp [getBlocksLoop, env.chain.drop_of_at found, stop, CNode.pushInventory]
  | succ nLimit ih =>
    intro start node
    cases found : env.chain.vChain[start]? with
    | none => simp [getBlocksLoop, List.drop_eq_nil_of_le (List.getElem?_eq_none_iff.mp found)]
    | some hash =>
      by_cases stop : hash = hashStop
      · simp [getBlocksLoop, env.chain.drop_of_at found, stop]
      · simp [getBlocksLoop, env.chain.drop_of_at found, stop, CNode.pushInventory, env.chain.next_of_at found, ih]

/-- A block item leaves the peer's messages and `hashContinue` as they were, up to
the answer it may push after reading the block from disk. -/
theorem serveBlock_node {inv : CInv} (served : serveBlock env h inv = some h') :
    ∃ node : CNode, node.vSendMsg = h.node.vSendMsg ∧ node.hashContinue = h.node.hashContinue ∧
      (h'.node = node ∨ ∃ data, h'.node = continueBatch env (pushBlockData env node inv data) inv.hash) := by
  unfold serveBlock at served
  split at served
  · cases served
    exact ⟨h.node, rfl, rfl, .inl rfl⟩
  · dsimp only at served
    split at served
    · obtain ⟨data, -, rfl⟩ := Option.map_eq_some'.mp served
      exact ⟨_, by split <;> rfl, by split <;> rfl, .inr ⟨data, rfl⟩⟩
    · cases served
      exact ⟨_, by split <;> rfl, by split <;> rfl, .inl rfl⟩

/-- **A block served at `hashContinue` is followed by an inventory of the tip.**
A `MSG_BLOCK` item for the peer's `hashContinue` is either not answered, with
the messages and `hashContinue` left as they were, or answered by the block and,
right after it, an `INV` of the active tip, with `hashContinue` cleared. -/
theorem serveBlock_continues {inv : CInv} (kind : inv.type = .block)
    (continuing : inv.hash = h.node.hashContinue) (served : serveBlock env h inv = some h') :
    (h'.node.vSendMsg = h.node.vSendMsg ∧ h'.node.hashContinue = h.node.hashContinue) ∨
      ∃ data, h'.node.vSendMsg = h.node.vSendMsg ++ [.block data, .inv [⟨.block, env.chain.tip⟩]] ∧
        h'.node.hashContinue = 0 := by
  obtain ⟨node, sent, kept, unanswered | ⟨data, answered⟩⟩ := serveBlock_node served
  · exact .inl ⟨unanswered ▸ sent, unanswered ▸ kept⟩
  · refine .inr ⟨data, ?_, ?_⟩ <;>
      simp [answered, continueBatch, pushBlockData, kind, continuing, kept, sent, CNode.pushMessage]

end Handling

namespace ChainView

variable (chain : ChainView)

/-- The blocks a `GETBLOCKS` reply announces, as the protocol describes them:
the active chain after the fork point, before `hashStop`, at most 500 blocks. -/
def blocksWanted (locator : List Hash) (hashStop : Hash) : List Hash :=
  ((chain.vChain.drop (chain.nHeight (chain.findForkInGlobalIndex locator) + 1)).takeWhile
    (· != hashStop)).take 500

end ChainView

namespace Handling

variable {env : Env}

/-- **`GETBLOCKS` pages through the active chain.** It announces the blocks
`blocksWanted` lists and sets `hashContinue` to the 500th of them exactly when
there is one; serving that block later is followed by an `INV` of the tip, and
clears `hashContinue`. -/
theorem processGetBlocks_paginates (h : Handling) (locator : List Hash) (hashStop : Hash) :
    processGetBlocks env h locator hashStop = { h with
      node := { h.node with
        vInventoryBlockToSend := h.node.vInventoryBlockToSend ++ env.chain.blocksWanted locator hashStop
        hashContinue := (env.chain.blocksWanted locator hashStop)[499]?.getD h.node.hashContinue } } ∧
    ∀ (h₁ h₂ : Handling) (inv : CInv), inv.type = .block → inv.hash = h₁.node.hashContinue →
      serveBlock env h₁ inv = some h₂ →
        (h₂.node.vSendMsg = h₁.node.vSendMsg ∧ h₂.node.hashContinue = h₁.node.hashContinue) ∨
          ∃ data, h₂.node.vSendMsg = h₁.node.vSendMsg ++ [.block data, .inv [⟨.block, env.chain.tip⟩]] ∧
            h₂.node.hashContinue = 0 := by
  refine ⟨?_, fun _ _ _ kind continuing served => serveBlock_continues kind continuing served⟩
  rw [processGetBlocks, env.chain.next_of_at (env.chain.findForkInGlobalIndex_at locator),
    show (500 : Nat) = 499 + 1 from rfl, getBlocksLoop_run]
  rfl

end Handling

end XuezNet
