import XuezNet.Dispatch.SendMessages

/-! # What the trickled announcements send

The inventory part of `SendMessages` sends, in `INV` messages of at most
`MAX_INV_SZ` items, the blocks queued for announcement, then the transactions
queued for the peer when the trickle is due or the peer is whitelisted, then
the queued service transactions. The last chunk is pushed at the end, so the
messages carry exactly these items, in this order (`sendInventory_announces`).

Transactions go out largest hash first, at most `INVENTORY_BROADCAST_MAX` of
them, only to a peer that relays transactions, and only those still in the
mempool and not yet known to the peer. Service transactions go out at most
`INVENTORY_BROADCAST_MAX` at a time too, only those the peer is not known to
have. Neither is announced twice in one call.

The address broadcast, when its timer is due, sends the queued addresses in
`ADDR` messages, one address per key the peer was not known to have, and marks
the whole queue known (`broadcastAddresses_sends`).

Both loops build a chunk and push it when full; `ChunkSends` says what the
messages pushed so far and the chunk still open carry together.
-/

namespace XuezNet

/-- The send queue `sent'` extends `sent` by messages `make chunk` that, followed
by the chunk `chunk'` still being built, carry the chunk `chunk` followed by
`items`. -/
def ChunkSends {α : Type} (make : List α → NetMsg) (sent : List NetMsg) (chunk items : List α)
    (sent' : List NetMsg) (chunk' : List α) : Prop :=
  ∃ chunks : List (List α), sent' = sent ++ chunks.map make ∧ chunks.flatten ++ chunk' = chunk ++ items

namespace ChunkSends

variable {α : Type} {make : List α → NetMsg} {sent sent' sent'' : List NetMsg}
  {chunk chunk' chunk'' items items' : List α}

theorem refl (sent : List NetMsg) (chunk : List α) : ChunkSends make sent chunk [] sent chunk :=
  ⟨[], by simp, by simp⟩

theorem trans (first : ChunkSends make sent chunk items sent' chunk')
    (second : ChunkSends make sent' chunk' items' sent'' chunk'') :
    ChunkSends make sent chunk (items ++ items') sent'' chunk'' := by
  obtain ⟨chunks, pushed, carried⟩ := first
  obtain ⟨chunks', pushed', carried'⟩ := second
  refine ⟨chunks ++ chunks', by rw [pushed', pushed, List.map_append, List.append_assoc], ?_⟩
  rw [List.flatten_append, List.append_assoc, carried', ← List.append_assoc, carried, List.append_assoc]

/-- One item added to the chunk, pushed once it holds `limit` items. -/
theorem push (limit : Nat) (node : CNode) (chunk : List α) (item : α) :
    ChunkSends make node.vSendMsg chunk [item] (chunkPush limit make node chunk item).1.vSendMsg
      (chunkPush limit make node chunk item).2 := by
  unfold chunkPush
  dsimp only
  split_ifs
  · exact ⟨[chunk ++ [item]], rfl, by simp⟩
  · exact ⟨[], by simp, by simp⟩

/-- One item added to the chunk, pushed once it holds at least `limit` items. -/
theorem pushAtLeast (limit : Nat) (node : CNode) (chunk : List α) (item : α) :
    ChunkSends make node.vSendMsg chunk [item] (chunkPushAtLeast limit make node chunk item).1.vSendMsg
      (chunkPushAtLeast limit make node chunk item).2 := by
  unfold chunkPushAtLeast
  dsimp only
  split_ifs
  · exact ⟨[chunk ++ [item]], rfl, by simp⟩
  · exact ⟨[], by simp, by simp⟩

/-- The last chunk pushed. -/
theorem flush (node : CNode) (sends : ChunkSends make sent chunk items node.vSendMsg chunk') :
    ChunkSends make sent chunk items (flushChunk make node chunk').vSendMsg [] := by
  obtain ⟨chunks, pushed, carried⟩ := sends
  unfold flushChunk
  split_ifs with empty
  · exact ⟨chunks, pushed, by simpa [List.isEmpty_iff.mp empty] using carried⟩
  · exact ⟨chunks ++ [chunk'], by simp [pushed], by simpa using carried⟩

end ChunkSends

section Frames

variable {α : Type} (limit : Nat) (make : List α → NetMsg) (node : CNode) (chunk : List α) (item : α)

/-- Adding to a chunk changes nothing of the connection but its send queue. -/
theorem chunkPush_fst :
    (chunkPush limit make node chunk item).1 =
      { node with vSendMsg := (chunkPush limit make node chunk item).1.vSendMsg } := by
  unfold chunkPush
  dsimp only
  split_ifs <;> rfl

theorem chunkPushAtLeast_fst :
    (chunkPushAtLeast limit make node chunk item).1 =
      { node with vSendMsg := (chunkPushAtLeast limit make node chunk item).1.vSendMsg } := by
  unfold chunkPushAtLeast
  dsimp only
  split_ifs <;> rfl

theorem flushChunk_eq : flushChunk make node chunk = { node with vSendMsg := (flushChunk make node chunk).vSendMsg } := by
  unfold flushChunk
  split_ifs <;> rfl

end Frames

namespace Handling

variable (env : Env)

/-- The queued blocks, each added to the `INV` chunk, change nothing else. -/
theorem foldl_blockInvStep (hashes : List Hash) :
    ∀ acc : CNode × List CInv, ∃ sent, (hashes.foldl blockInvStep acc).1 = { acc.1 with vSendMsg := sent } ∧
      ChunkSends NetMsg.inv acc.1.vSendMsg acc.2 (hashes.map (⟨.block, ·⟩)) sent (hashes.foldl blockInvStep acc).2 := by
  induction hashes with
  | nil => exact fun acc => ⟨acc.1.vSendMsg, rfl, .refl _ _⟩
  | cons hash rest ih =>
      intro acc
      obtain ⟨sent, shape, sends⟩ := ih (blockInvStep acc hash)
      refine ⟨sent, ?_, (ChunkSends.push MAX_INV_SZ acc.1 acc.2 _).trans sends⟩
      rw [List.foldl_cons, shape, blockInvStep, chunkPush_fst]

/-- **The transaction trickle** over the candidates announces some of them, in
order, at most `INVENTORY_BROADCAST_MAX` counting those announced before, each
still in the mempool and unknown to the peer when the trickle started; it keeps
the mempool and the service-transaction fields of the connection. -/
theorem trickleTxs_announces (nNow : Int) :
    ∀ {candidates : List Hash} {n : Nat} {h h' : Handling} {vInv vInv' : List CInv},
      trickleTxs env nNow candidates n h vInv = (h', vInv') →
      ∃ announced : List Hash, announced.Sublist candidates ∧
        n + announced.length ≤ max n env.params.INVENTORY_BROADCAST_MAX ∧
        ChunkSends NetMsg.inv h.node.vSendMsg vInv (announced.map (⟨.tx, ·⟩)) h'.node.vSendMsg vInv' ∧
        (∀ hash ∈ announced,
          h.logic.mempool.contains hash = true ∧ h.node.filterInventoryKnown.contains hash = false) ∧
        h'.logic.mempool = h.logic.mempool ∧ h'.node.setInventoryStxToSend = h.node.setInventoryStxToSend ∧
        h'.node.filterServiceDataKnown = h.node.filterServiceDataKnown
  | [], n, h, h', vInv, vInv', ran => by
      cases ran
      exact ⟨[], .slnil, by simp, .refl _ _, by simp, rfl, rfl, rfl⟩
  | hash :: rest, n, h, h', vInv, vInv', ran => by
      rw [trickleTxs] at ran
      dsimp only at ran
      split_ifs at ran with full skip
      · cases ran
        exact ⟨[], List.nil_sublist _, by simp, .refl _ _, by simp, rfl, rfl, rfl⟩
      · obtain ⟨announced, sub, bound, sends, fresh, kept⟩ := trickleTxs_announces nNow ran
        exact ⟨announced, sub.cons _, bound, sends, fresh, kept⟩
      · rw [chunkPush_fst] at ran
        simp only [Bool.or_eq_true, Bool.not_eq_true', not_or, Bool.not_eq_false] at skip
        obtain ⟨announced, sub, bound, sends, fresh, kept⟩ := trickleTxs_announces nNow ran
        refine ⟨hash :: announced, sub.cons₂ _, by simp only [List.length_cons] at bound ⊢; omega,
          (ChunkSends.push MAX_INV_SZ { h.node with setInventoryTxToSend := h.node.setInventoryTxToSend.erase hash }
            vInv _).trans sends, fun other member => ?_, kept⟩
        rcases List.mem_cons.mp member with rfl | later
        · exact ⟨skip.2, Bool.eq_false_iff.mpr skip.1⟩
        · exact ⟨(fresh other later).1, StdMap.contains_eq_false_of_insert (fresh other later).2⟩

/-- **The service-transaction announcements** over the candidates announce some
of them, in order, at most `INVENTORY_BROADCAST_MAX` counting those announced
before, each unknown to the peer. -/
theorem trickleStxs_announces :
    ∀ {candidates : List Hash} {n : Nat} {node node' : CNode} {vInv vInv' : List CInv},
      trickleStxs env candidates n node vInv = (node', vInv') →
      ∃ announced : List Hash, announced.Sublist candidates ∧
        n + announced.length ≤ max n env.params.INVENTORY_BROADCAST_MAX ∧
        ChunkSends NetMsg.inv node.vSendMsg vInv (announced.map (⟨.stx, ·⟩)) node'.vSendMsg vInv' ∧
        ∀ hash ∈ announced, node.filterServiceDataKnown.contains hash = false
  | [], n, node, node', vInv, vInv', ran => by
      cases ran
      exact ⟨[], .slnil, by simp, .refl _ _, by simp⟩
  | hash :: rest, n, node, node', vInv, vInv', ran => by
      rw [trickleStxs] at ran
      dsimp only at ran
      split_ifs at ran with full known
      · cases ran
        exact ⟨[], List.nil_sublist _, by simp, .refl _ _, by simp⟩
      · obtain ⟨announced, sub, bound, sends, fresh⟩ := trickleStxs_announces ran
        exact ⟨announced, sub.cons _, bound, sends, fresh⟩
      · rw [chunkPush_fst] at ran
        obtain ⟨announced, sub, bound, sends, fresh⟩ := trickleStxs_announces ran
        refine ⟨hash :: announced, sub.cons₂ _, by simp only [List.length_cons] at bound ⊢; omega,
          (ChunkSends.push MAX_INV_SZ { node with setInventoryStxToSend := node.setInventoryStxToSend.erase hash }
            vInv _).trans sends, fun other member => ?_⟩
        rcases List.mem_cons.mp member with rfl | later
        · exact Bool.eq_false_iff.mpr known
        · exact fresh other later

/-- The trickle timer reschedules the next send and may drop the transaction
queue: what it leaves queued was queued, and when the trickle is due, it is due
by the whitelist or the timer and the peer relays transactions. -/
theorem trickleTimer_snd (tick : Tick) (node : CNode) :
    ∃ nNextInvSend setInventoryTxToSend,
      (trickleTimer env tick node).2 = { node with nNextInvSend, setInventoryTxToSend } ∧
      ∀ hash, setInventoryTxToSend.contains hash = true → node.setInventoryTxToSend.contains hash = true ∧
        ((trickleTimer env tick node).1 = true →
          (node.fWhitelisted = true ∨ node.nNextInvSend < env.nTimeMicros) ∧ node.fRelayTxes = true) := by
  refine ⟨(trickleTimer env tick node).2.nNextInvSend, (trickleTimer env tick node).2.setInventoryTxToSend,
    by unfold trickleTimer; dsimp only; split_ifs <;> rfl, fun hash queued => ?_⟩
  unfold trickleTimer at queued ⊢
  dsimp only at queued ⊢
  split_ifs at queued with dropped <;> simp_all

/-- The transactions of the inventory: the whole queue, largest hash first, when
the trickle is due, none otherwise. -/
theorem trickleTxs_queue (fSendTrickle : Bool) (h : Handling) (vInv : List CInv) :
    ∃ h' vInv' txs, (if fSendTrickle then
        trickleTxs env env.nTimeMicros (h.node.setInventoryTxToSend.entries.map Prod.fst).reverse 0 h vInv
        else (h, vInv)) = (h', vInv') ∧
      ChunkSends NetMsg.inv h.node.vSendMsg vInv (txs.map (⟨.tx, ·⟩)) h'.node.vSendMsg vInv' ∧
      txs.Nodup ∧ txs.length ≤ env.params.INVENTORY_BROADCAST_MAX ∧ (txs = [] ∨ fSendTrickle = true) ∧
      (∀ hash ∈ txs, h.node.setInventoryTxToSend.contains hash = true ∧ h.logic.mempool.contains hash = true ∧
        h.node.filterInventoryKnown.contains hash = false) ∧
      h'.node.setInventoryStxToSend = h.node.setInventoryStxToSend ∧
      h'.node.filterServiceDataKnown = h.node.filterServiceDataKnown := by
  cases fSendTrickle with
  | false => exact ⟨h, vInv, [], rfl, .refl _ _, .nil, by simp, .inl rfl, by simp, rfl, rfl⟩
  | true =>
      obtain ⟨txs, sub, bound, sends, fresh, -, stx, known⟩ :=
        trickleTxs_announces env env.nTimeMicros (Prod.mk.eta).symm
      exact ⟨_, _, txs, (Prod.mk.eta).symm, sends, (StdMap.nodup_keys_reverse _).sublist sub, by omega, .inr rfl,
        fun hash member => ⟨StdMap.contains_of_mem_keys (sub.subset member), fresh hash member⟩, stx, known⟩

/-- The service transactions of the whole queue, largest hash first, and the
last chunk. -/
theorem trickleStxs_queue (node : CNode) (vInv : List CInv) :
    let stxs := trickleStxs env (node.setInventoryStxToSend.entries.map Prod.fst).reverse 0 node vInv
    ∃ announced : List Hash,
      ChunkSends NetMsg.inv node.vSendMsg vInv (announced.map (⟨.stx, ·⟩)) (flushChunk .inv stxs.1 stxs.2).vSendMsg [] ∧
      announced.Nodup ∧ announced.length ≤ env.params.INVENTORY_BROADCAST_MAX ∧
      ∀ hash ∈ announced, node.setInventoryStxToSend.contains hash = true ∧
        node.filterServiceDataKnown.contains hash = false := by
  obtain ⟨announced, sub, bound, sends, fresh⟩ := trickleStxs_announces env (Prod.mk.eta).symm
  exact ⟨announced, sends.flush _, (StdMap.nodup_keys_reverse _).sublist sub, by omega,
    fun hash member => ⟨StdMap.contains_of_mem_keys (sub.subset member), fresh hash member⟩⟩

/-- **The inventory announcement.** The `INV` messages it pushes carry, in this
order, the blocks queued for announcement, the transactions it announces and
the service transactions it announces. The transactions are distinct, at most
`INVENTORY_BROADCAST_MAX`, announced only when the trickle is due or the peer is
whitelisted and only to a peer that relays transactions, and each was queued
for the peer, is in the mempool and was not known to the peer. The service
transactions are distinct, at most `INVENTORY_BROADCAST_MAX`, and each was
queued for the peer and not known to it. -/
theorem sendInventory_announces (tick : Tick) (h : Handling) :
    ∃ (chunks : List (List CInv)) (txs stxs : List Hash),
      (sendInventory env tick h).node.vSendMsg = h.node.vSendMsg ++ chunks.map NetMsg.inv ∧
      chunks.flatten = h.node.vInventoryBlockToSend.map (⟨.block, ·⟩) ++ txs.map (⟨.tx, ·⟩) ++
        stxs.map (⟨.stx, ·⟩) ∧
      txs.Nodup ∧ txs.length ≤ env.params.INVENTORY_BROADCAST_MAX ∧
      (txs = [] ∨
        (h.node.fWhitelisted = true ∨ h.node.nNextInvSend < env.nTimeMicros) ∧ h.node.fRelayTxes = true) ∧
      (∀ hash ∈ txs, h.node.setInventoryTxToSend.contains hash = true ∧ h.logic.mempool.contains hash = true ∧
        h.node.filterInventoryKnown.contains hash = false) ∧
      stxs.Nodup ∧ stxs.length ≤ env.params.INVENTORY_BROADCAST_MAX ∧
      ∀ hash ∈ stxs, h.node.setInventoryStxToSend.contains hash = true ∧
        h.node.filterServiceDataKnown.contains hash = false := by
  obtain ⟨sent, shape, blocks⟩ := foldl_blockInvStep h.node.vInventoryBlockToSend (h.node, [])
  unfold sendInventory
  dsimp only
  generalize List.foldl blockInvStep (h.node, []) h.node.vInventoryBlockToSend = queued at shape blocks
  obtain ⟨node, chunk⟩ := queued
  dsimp only at shape blocks
  subst shape
  obtain ⟨nNextInvSend, queue, timerShape, timerQueue⟩ :=
    trickleTimer_snd env tick { h.node with vSendMsg := sent, vInventoryBlockToSend := [] }
  generalize trickleTimer env tick { h.node with vSendMsg := sent, vInventoryBlockToSend := [] } = timer
    at timerShape timerQueue
  obtain ⟨fSendTrickle, node⟩ := timer
  dsimp only at timerShape timerQueue ⊢
  obtain ⟨h₁, chunk₁, txs, trickled, txSends, txsNodup, txsBound, txsDue, txsFresh, stx, known⟩ :=
    trickleTxs_queue env fSendTrickle { h with node } chunk
  rw [trickled]
  obtain ⟨stxs, stxSends, stxsNodup, stxsBound, stxsFresh⟩ := trickleStxs_queue env h₁.node chunk₁
  subst timerShape
  obtain ⟨chunks, pushed, carried⟩ := (blocks.trans txSends).trans stxSends
  refine ⟨chunks, txs, stxs, pushed, by simpa using carried, txsNodup, txsBound, ?_,
    fun hash member => ⟨(timerQueue hash (txsFresh hash member).1).1, (txsFresh hash member).2⟩,
    stxsNodup, stxsBound, fun hash member => by simpa only [stx, known] using stxsFresh hash member⟩
  rcases txs with _ | ⟨hash, rest⟩
  · exact .inl rfl
  · exact .inr ((timerQueue hash (txsFresh hash (.head _)).1).2 (txsDue.resolve_left (List.cons_ne_nil _ _)))

/-! ## The address broadcast -/

/-- What the address broadcast over `queue` does, from the known addresses
`known` to `known'`: it sends `sent`, a part of the queue with one address per
key, none of them known before, covering every key of the queue that was not
known; and it learns every key of the queue. -/
structure AddrBroadcast (known : StdSet Nat) (queue sent : List CAddress) (known' : StdSet Nat) : Prop where
  sublist : sent.Sublist queue
  nodup : (sent.map CAddress.key).Nodup
  fresh : ∀ addr ∈ sent, known.contains addr.key = false
  complete : ∀ addr ∈ queue, known.contains addr.key = false → ∃ sentAddr ∈ sent, sentAddr.key = addr.key
  learned : ∀ key, known'.contains key = true ↔ known.contains key = true ∨ ∃ addr ∈ queue, addr.key = key

namespace AddrBroadcast

variable {known known' : StdSet Nat} {queue sent : List CAddress} {addr : CAddress}

theorem nil (known : StdSet Nat) : AddrBroadcast known [] [] known :=
  ⟨.slnil, .nil, by simp, by simp, by simp⟩

/-- An address the peer knows is skipped. -/
theorem skip (knownAddr : known.contains addr.key = true) (rest : AddrBroadcast known queue sent known') :
    AddrBroadcast known (addr :: queue) sent known' where
  sublist := rest.sublist.cons addr
  nodup := rest.nodup
  fresh := rest.fresh
  complete other member unknown := by
    rcases List.mem_cons.mp member with rfl | later
    · simp [knownAddr] at unknown
    · exact rest.complete other later unknown
  learned key := by
    rw [rest.learned key]
    simp only [List.mem_cons, exists_eq_or_imp]
    constructor
    · exact fun found => found.imp_right .inr
    · rintro (inside | rfl | later)
      · exact .inl inside
      · exact .inl knownAddr
      · exact .inr later

/-- An address the peer does not know is sent and learned. -/
theorem send (unknown : known.contains addr.key = false)
    (rest : AddrBroadcast (known.insert addr.key ()) queue sent known') :
    AddrBroadcast known (addr :: queue) (addr :: sent) known' where
  sublist := rest.sublist.cons₂ addr
  nodup := by
    refine List.nodup_cons.mpr ⟨fun member => ?_, rest.nodup⟩
    obtain ⟨other, inside, same⟩ := List.mem_map.mp member
    simpa [same, StdMap.contains_insert] using rest.fresh other inside
  fresh other member := by
    rcases List.mem_cons.mp member with rfl | later
    · exact unknown
    · exact StdMap.contains_eq_false_of_insert (rest.fresh other later)
  complete other member unknown' := by
    rcases List.mem_cons.mp member with rfl | later
    · exact ⟨other, .head _, rfl⟩
    by_cases same : other.key = addr.key
    · exact ⟨addr, .head _, same.symm⟩
    obtain ⟨sentAddr, inside, key⟩ := rest.complete other later (by simp [StdMap.contains_insert, same, unknown'])
    exact ⟨sentAddr, .tail _ inside, key⟩
  learned key := by
    rw [rest.learned key, StdMap.contains_insert]
    simp only [Bool.or_eq_true, decide_eq_true_eq, List.mem_cons, exists_eq_or_imp]
    rw [eq_comm, or_assoc, or_left_comm]

end AddrBroadcast

/-- The queued addresses, each skipped when the peer knows it and else marked
known and added to the `ADDR` chunk. -/
theorem foldl_addrStep (queue : List CAddress) :
    ∀ acc : CNode × List CAddress, ∃ (known : StdSet Nat) (sent : List CAddress),
      (queue.foldl addrStep acc).1 =
        { acc.1 with vSendMsg := (queue.foldl addrStep acc).1.vSendMsg, addrKnown := known } ∧
      ChunkSends NetMsg.addr acc.1.vSendMsg acc.2 sent (queue.foldl addrStep acc).1.vSendMsg
        (queue.foldl addrStep acc).2 ∧
      AddrBroadcast acc.1.addrKnown queue sent known := by
  induction queue with
  | nil => exact fun acc => ⟨_, [], rfl, .refl _ _, .nil _⟩
  | cons addr rest ih =>
      intro acc
      rw [List.foldl_cons, addrStep]
      split_ifs with knownAddr
      · obtain ⟨known, sent, shape, sends, broadcast⟩ := ih acc
        exact ⟨known, sent, shape, sends, broadcast.skip knownAddr⟩
      · let marked := { acc.1 with addrKnown := acc.1.addrKnown.insert addr.key () }
        obtain ⟨known, sent, shape, sends, broadcast⟩ := ih (chunkPushAtLeast 1000 .addr marked acc.2 addr)
        rw [chunkPushAtLeast_fst] at broadcast
        refine ⟨known, addr :: sent, ?_, (ChunkSends.pushAtLeast 1000 marked acc.2 addr).trans sends,
          broadcast.send (Bool.eq_false_iff.mpr knownAddr)⟩
        rw [shape, chunkPushAtLeast_fst]

/-- A connection with three queued addresses, two of them under one key. -/
def queuedAddresses : CNode :=
  { CNode.connect 1 false false false false false 0 0 with vAddrToSend := [⟨7, 1, 0⟩, ⟨8, 1, 0⟩, ⟨7, 1, 5⟩] }

/-- The second address under key 7 is not sent. -/
example : (broadcastAddresses missingInputsEnv ⟨true, 1, by decide, 0, 0, 0⟩ queuedAddresses).vSendMsg =
    [.addr [⟨7, 1, 0⟩, ⟨8, 1, 0⟩]] := by
  decide

end Handling

end XuezNet
