import XuezNet.System.Net
import XuezNet.Download.Walk
import Mathlib.Data.List.Chain

/-! # Block announcements connect

Two code paths announce blocks to a peer by their headers: the announcement step
of `SendMessages`, over the peer's `vBlockHashesToAnnounce`, and the callback of
`NewPoWValidBlock`, for one new block. Either pushes `HEADERS` only with headers
the peer can connect (`ConnectingHeaders`): a run of blocks, each the parent of
the next, at most `MAX_BLOCKS_TO_ANNOUNCE` of them, whose first block's parent
is null or one `PeerHasHeader` says the peer has; and it sets
`pindexBestHeaderSent` to the last of them.

The scan of `SendMessages` keeps such a run while it looks at the hashes
(`HeaderRun`, `headersToAnnounce_run`): every block it adds is on the active
chain and has the block looked at before it as parent, and it starts only at a
block whose parent the peer has. Its three bail-outs, a block off the active
chain, a block not on top of the last one, and a block the peer cannot connect,
leave it to the inventory fallback, which queues the last hash only, and only
when the peer lacks its header (`announceBlocks_announces`).

The hashes to announce come from `UpdatedBlockTip`, which walks `pprev` from the
new tip down to the fork point, newest first, at most `MAX_BLOCKS_TO_ANNOUNCE`
of them, and queues them reversed. From a fork point that is null or a proper
ancestor of the new tip the walk never reaches a null parent it would
dereference (`hashesToAnnounce_walk`), so every qualifying connection gets the
last `min(MAX_BLOCKS_TO_ANNOUNCE, nHeight(pindexNew) - nHeight(pindexFork))`
blocks of the new branch, oldest first, each the parent of the next: the
connected order the scan of `SendMessages` looks for
(`updatedBlockTip_announces`).
-/

namespace XuezNet

namespace ChainView

variable (chain : ChainView)

/-- **A headers announcement the peer can connect**: the headers of a nonempty
run of blocks, each the parent of the next, at most `MAX_BLOCKS_TO_ANNOUNCE` of
them, whose first block's parent is null or one the peer has. -/
structure ConnectingHeaders (params : Params) (state : CNodeState) (sent : List Hash) : Prop where
  nonempty : sent ≠ []
  linked : sent.Chain' fun a b => chain.pprev b = some a
  bounded : sent.length ≤ params.MAX_BLOCKS_TO_ANNOUNCE
  connects : ∀ first ∈ sent.head?, (chain.pprev first).all (state.peerHasHeader chain) = true

/-- What the scan of `SendMessages` keeps: the blocks whose headers it has
collected are on the active chain, each the parent of the next, and the first
one's parent is null or known to the peer; once it has found the starting
header, `pBestIndex` is the last of them, and before, it has none. -/
structure HeaderRun (state : CNodeState) (pBestIndex : Option Hash) (fFoundStartingHeader : Bool)
    (sent : List Hash) : Prop where
  linked : sent.Chain' fun a b => chain.pprev b = some a
  active : ∀ hash ∈ sent, chain.contains hash = true
  connects : ∀ first ∈ sent.head?, (chain.pprev first).all (state.peerHasHeader chain) = true
  last : fFoundStartingHeader = true → sent ≠ [] ∧ sent.getLast? = pBestIndex
  started : fFoundStartingHeader = false → sent = []

variable {chain} {state : CNodeState} {pBestIndex : Option Hash} {sent : List Hash}

theorem HeaderRun.initial : chain.HeaderRun state none false [] :=
  ⟨List.chain'_nil, nofun, nofun, nofun, fun _ => rfl⟩

theorem pprev_of_found {hash : Hash} {block : CBlockIndex} (found : chain.mapBlockIndex hash = some block) :
    chain.pprev hash = block.pprev := by
  simp [pprev, found]

/-- A block on top of the last one collected extends the run. -/
theorem HeaderRun.extend {hash : Hash} (run : chain.HeaderRun state pBestIndex true sent)
    (active : chain.contains hash = true) (linked : chain.pprev hash = pBestIndex) :
    chain.HeaderRun state (some hash) true (sent ++ [hash]) := by
  obtain ⟨nonempty, last⟩ := run.last rfl
  refine ⟨run.linked.append (List.chain'_singleton _) ?_, ?_, ?_, fun _ => ⟨by simp, by simp⟩, nofun⟩
  · intro x lastX y firstY
    rw [List.head?_singleton, Option.mem_some_iff] at firstY
    rw [← firstY, linked, ← last, lastX]
  · intro x member
    rcases List.mem_append.mp member with old | new
    · exact run.active x old
    · rw [List.mem_singleton.mp new]
      exact active
  · intro first isFirst
    exact run.connects first (by rwa [List.head?_append_of_ne_nil _ nonempty] at isFirst)

/-- A block the peer has, before the start, is skipped. -/
theorem HeaderRun.skip (run : chain.HeaderRun state pBestIndex false sent) (hash : Hash) :
    chain.HeaderRun state (some hash) false sent :=
  ⟨run.linked, run.active, run.connects, nofun, run.started⟩

/-- The first block the peer lacks and can connect starts the run. -/
theorem HeaderRun.start {hash : Hash} (active : chain.contains hash = true)
    (connects : (chain.pprev hash).all (state.peerHasHeader chain) = true) :
    chain.HeaderRun state (some hash) true [hash] :=
  ⟨List.chain'_singleton _, by simpa using active, by simpa using connects, fun _ => ⟨by simp, rfl⟩, nofun⟩

variable (chain)

/-- **The scan of `SendMessages`**, when it does not fall back to an inventory,
collects the headers of a `HeaderRun`, at most one per hash it looks at. -/
theorem headersToAnnounce_run (state : CNodeState) :
    ∀ {hashes : List Hash} {pBestIndex : Option Hash} {fFound : Bool} {sent : List Hash}
      {result : List CBlockHeader × Option Hash × Bool},
      chain.HeaderRun state pBestIndex fFound sent →
      chain.headersToAnnounce state hashes pBestIndex fFound (sent.map chain.header) = some result →
      result.2.2 = false →
      ∃ sent' fFound', result.1 = sent'.map chain.header ∧ sent'.length ≤ sent.length + hashes.length ∧
        chain.HeaderRun state result.2.1 fFound' sent'
  | [], _, fFound, sent, _, run, ran, _ => by
      cases ran
      exact ⟨sent, fFound, rfl, by simp, run⟩
  | hash :: rest, pBestIndex, fFound, sent, result, run, ran, kept => by
      unfold headersToAnnounce at ran
      obtain ⟨block, found, ran⟩ := Option.bind_eq_some.mp ran
      simp only [Option.pure_def, Option.bind_eq_bind, Option.some_bind] at ran
      have later : ∀ {fFound' sent'}, chain.HeaderRun state (some hash) fFound' sent' →
          sent'.length ≤ sent.length + 1 →
          chain.headersToAnnounce state rest (some hash) fFound' (sent'.map chain.header) = some result →
          ∃ sent'' fFound'', result.1 = sent''.map chain.header ∧
            sent''.length ≤ sent.length + (hash :: rest).length ∧ chain.HeaderRun state result.2.1 fFound'' sent'' :=
        fun run' grown ran' => by
          obtain ⟨sent'', fFound'', collected, bound, run''⟩ := headersToAnnounce_run state run' ran' kept
          exact ⟨sent'', fFound'', collected, by simp only [List.length_cons]; omega, run''⟩
      by_cases offChain : chain.at? block.nHeight ≠ some hash
      · rw [if_pos offChain] at ran
        cases ran
        cases kept
      rw [if_neg offChain] at ran
      have active : chain.contains hash = true := chain.contains_of_at (of_not_not offChain)
      by_cases disconnected : pBestIndex.isSome ∧ block.pprev ≠ pBestIndex
      · rw [if_pos disconnected] at ran
        cases ran
        cases kept
      rw [if_neg disconnected] at ran
      cases fFound
      · obtain rfl := run.started rfl
        by_cases known : state.peerHasHeader chain hash = true
        · rw [if_neg Bool.false_ne_true, if_pos known] at ran
          exact later (run.skip hash) (by simp) ran
        by_cases connects : block.pprev.all (state.peerHasHeader chain) = true
        · rw [if_neg Bool.false_ne_true, if_neg known, if_pos connects] at ran
          exact later (.start active (by rwa [pprev_of_found found])) (by simp) ran
        · rw [if_neg Bool.false_ne_true, if_neg known, if_neg connects] at ran
          cases ran
          cases kept
      · rw [if_pos rfl] at ran
        have linked : chain.pprev hash = pBestIndex := by
          obtain ⟨nonempty, last⟩ := run.last rfl
          have : pBestIndex.isSome := by
            rw [← last, List.getLast?_eq_getLast _ nonempty]
            rfl
          rw [pprev_of_found found]
          simpa [this] using disconnected
        exact later (run.extend active linked) (by simp) (by rwa [List.map_append])

end ChainView

namespace Handling

variable (env : Env)

/-- **What the announcement step of `SendMessages` does.** With `registry` and
`state` the registry and the peer's state after `ProcessBlockAvailability`, it
either pushes `HEADERS` with connecting headers of active-chain blocks and sets
`pindexBestHeaderSent` to the last of them, or pushes no message, leaves the
registry as it is, and queues at most the last hash to announce, only when the
peer lacks its header; either way it empties `vBlockHashesToAnnounce`. -/
def AnnouncedBlocks (h h' : Handling) : Prop :=
  ∃ registry state, h.logic.registry.processBlockAvailability env.chain h.node.id = some registry ∧
    registry.state h.node.id = some state ∧ h'.node.vBlockHashesToAnnounce = [] ∧
    ((∃ sent, env.chain.ConnectingHeaders env.params state sent ∧
        (∀ hash ∈ sent, env.chain.contains hash = true) ∧
        h'.node.vSendMsg = h.node.vSendMsg ++ [.headers (sent.map env.chain.header)] ∧
        h'.node.vInventoryBlockToSend = h.node.vInventoryBlockToSend ∧
        h'.logic = { h.logic with
          registry := registry.setState h.node.id { state with pindexBestHeaderSent := sent.getLast? } }) ∨
      (h'.node.vSendMsg = h.node.vSendMsg ∧ h'.logic = { h.logic with registry } ∧
        (h'.node.vInventoryBlockToSend = h.node.vInventoryBlockToSend ∨
          ∃ last, h.node.vBlockHashesToAnnounce.getLast? = some last ∧
            state.peerHasHeader env.chain last = false ∧
            h'.node.vInventoryBlockToSend = h.node.vInventoryBlockToSend ++ [last])))

variable {env}

/-- The inventory fallback pushes no message, and queues at most the last hash,
only when the peer lacks its header. -/
theorem announceInv_queues {node node' : CNode} {state : CNodeState} {hashes : List Hash}
    {fRevertToInv : Bool} (ran : announceInv env node state hashes fRevertToInv = some node') :
    node'.vSendMsg = node.vSendMsg ∧
      (node'.vInventoryBlockToSend = node.vInventoryBlockToSend ∨
        ∃ last, hashes.getLast? = some last ∧ state.peerHasHeader env.chain last = false ∧
          node'.vInventoryBlockToSend = node.vInventoryBlockToSend ++ [last]) := by
  unfold announceInv at ran
  split at ran
  · split at ran
    · rename_i last queued
      obtain ⟨_, -, pushed⟩ := Option.bind_eq_some.mp ran
      cases pushed
      by_cases known : state.peerHasHeader env.chain last = true
      · simp [known]
      · simp only [known, Bool.false_eq_true, if_false]
        exact ⟨rfl, .inr ⟨last, queued, by simpa using known, rfl⟩⟩
    · cases ran
      exact ⟨rfl, .inl rfl⟩
  · cases ran
    exact ⟨rfl, .inl rfl⟩

/-- **The announcement step of `SendMessages`** does what `AnnouncedBlocks` says. -/
theorem announceBlocks_announces {h h' : Handling} (ran : announceBlocks env h = some h') :
    AnnouncedBlocks env h h' := by
  unfold announceBlocks at ran
  obtain ⟨registry, updated, ran⟩ := Option.bind_eq_some.mp ran
  dsimp only at ran
  obtain ⟨state, found, ran⟩ := Option.bind_eq_some.mp ran
  obtain ⟨⟨vHeaders, pBestIndex, fRevertToInv⟩, looked, ran⟩ := Option.bind_eq_some.mp ran
  obtain ⟨node, fallback, ran⟩ := Option.bind_eq_some.mp ran
  cases ran
  refine ⟨registry, state, updated, found, rfl, ?_⟩
  by_cases send : (!fRevertToInv && !vHeaders.isEmpty) = true
  · by_cases prefer : state.fPreferHeaders = true
    · simp only [announceHeaders, send, prefer, if_true] at fallback ⊢
      simp only [announceInv, Bool.false_eq_true, if_false, Option.some.injEq] at fallback
      subst fallback
      simp only [Bool.and_eq_true, Bool.not_eq_true', List.isEmpty_eq_false] at send
      split at looked
      · cases looked
        cases send.1
      rename_i few
      simp only [Bool.or_eq_true, Bool.and_eq_true, Bool.not_eq_true', decide_eq_true_eq, not_or,
        not_lt] at few
      obtain ⟨sent, fFound, rfl, bound, run⟩ := env.chain.headersToAnnounce_run state .initial looked send.1
      have nonempty : sent ≠ [] := by simpa using send.2
      have last : sent.getLast? = pBestIndex := by
        cases fFound
        · exact absurd (run.started rfl) nonempty
        · exact (run.last rfl).2
      refine .inl ⟨sent, ⟨nonempty, run.linked, by simp at bound; omega, run.connects⟩, run.active,
        rfl, rfl, by rw [last]⟩
    · simp only [announceHeaders, send, prefer, if_true, Bool.false_eq_true, if_false] at fallback ⊢
      obtain ⟨sent, queued⟩ := announceInv_queues fallback
      exact .inr ⟨sent, trivial, queued⟩
  · simp only [announceHeaders, send, Bool.false_eq_true, if_false] at fallback ⊢
    obtain ⟨sent, queued⟩ := announceInv_queues fallback
    exact .inr ⟨sent, trivial, queued⟩

end Handling

namespace Net

variable (env : Env)

/-- **What `NewPoWValidBlock` does on one connection.** Nothing, on a connection
being dropped; else it refreshes the peer's availability and then either stops,
or pushes `HEADERS` with the new block alone, which the peer lacks and whose
parent it has, and records the block as the best header sent. -/
def FastAnnounced (pindex : Hash) (id : NodeId) (net net' : Net) : Prop :=
  net' = net ∨ ∃ node registry state, net.nodes.find? id = some node ∧ node.fDisconnect = false ∧
    net.logic.registry.processBlockAvailability env.chain id = some registry ∧ registry.state id = some state ∧
    (net' = { net with logic := { net.logic with registry } } ∨
      env.chain.ConnectingHeaders env.params state [pindex] ∧ state.peerHasHeader env.chain pindex = false ∧
        net' = { net with
          logic := { net.logic with
            registry := registry.setState id { state with pindexBestHeaderSent := some pindex } }
          nodes := net.nodes.insert id (node.pushMessage (.headers [env.chain.header pindex])) })

variable {env}

/-- **The callback of `NewPoWValidBlock` on one connection** does what
`FastAnnounced` says. -/
theorem fastAnnounce_announces {pindex : Hash} {id : NodeId} {net net' : Net}
    (ran : fastAnnounce env pindex (some net) id = some net') : FastAnnounced env pindex id net net' := by
  unfold fastAnnounce at ran
  obtain ⟨_, ⟨⟩, ran⟩ := Option.bind_eq_some.mp ran
  obtain ⟨node, found, ran⟩ := Option.bind_eq_some.mp ran
  cases live : node.fDisconnect
  all_goals simp only [live, if_true, if_false, Bool.false_eq_true, Option.pure_def, Option.bind_eq_bind,
    Option.some_bind, Option.some.injEq] at ran
  case true => exact .inl ran.symm
  obtain ⟨registry, updated, ran⟩ := Option.bind_eq_some.mp ran
  obtain ⟨state, stated, ran⟩ := Option.bind_eq_some.mp ran
  refine .inr ⟨node, registry, state, found, live, updated, stated, ?_⟩
  cases lacking : state.peerHasHeader env.chain pindex
  all_goals simp only [lacking, if_true, if_false, Bool.false_eq_true, Option.pure_def, Option.bind_eq_bind,
    Option.some_bind, Option.some.injEq] at ran
  case true => exact .inl ran.symm
  obtain ⟨parent, linked, ran⟩ := Option.bind_eq_some.mp ran
  cases has : state.peerHasHeader env.chain parent
  all_goals simp only [has, Bool.not_true, Bool.not_false, if_true, if_false, Bool.false_eq_true,
    Option.pure_def, Option.bind_eq_bind, Option.some_bind, Option.some.injEq] at ran
  case false => exact .inl ran.symm
  refine .inr ⟨⟨List.cons_ne_nil _ _, List.chain'_singleton _, by simpa using env.params.announce_pos, ?_⟩,
    rfl, ran.symm⟩
  simpa [linked] using has

end Net

/-- **Block announcements connect.** Whenever the announcement step of
`SendMessages` or the callback of `NewPoWValidBlock` pushes `HEADERS`, the
headers are ones the peer can connect, `pindexBestHeaderSent` becomes the last
of them, and those of `SendMessages` are on the active chain; its inventory
fallback queues at most the last hash to announce, only when the peer lacks its
header; and `vBlockHashesToAnnounce` is empty after the step. -/
theorem announcements_connect (env : Env) :
    (∀ h h', Handling.announceBlocks env h = some h' → Handling.AnnouncedBlocks env h h') ∧
      ∀ pindex id net net', Net.fastAnnounce env pindex (some net) id = some net' →
        Net.FastAnnounced env pindex id net net' :=
  ⟨fun _ _ => Handling.announceBlocks_announces, fun _ _ _ _ => Net.fastAnnounce_announces⟩

/-! ## The blocks `UpdatedBlockTip` queues -/

namespace ChainView

variable (chain : ChainView)

/-- `pindexFork->nHeight`, with `-1` for a null fork point. -/
def forkHeight : Option Hash → Int
  | none => -1
  | some fork => chain.nHeight fork

variable {chain}

/-- A block without a parent is at height `0`: a root of the index, or a hash it
does not hold. -/
theorem nHeight_of_pprev_none {hash : Hash} (unlinked : chain.pprev hash = none) : chain.nHeight hash = 0 := by
  cases found : chain.mapBlockIndex hash with
  | none => simp [nHeight, found]
  | some block =>
      rw [chain.nHeight_of_found found]
      exact chain.root_height found (by simpa [pprev, found] using unlinked)

theorem AncestorOrSelf.height_lt {a b : Hash} (ab : chain.AncestorOrSelf a b) (other : a ≠ b) :
    chain.nHeight a < chain.nHeight b :=
  lt_of_le_of_ne ab.height_le fun same => other (ab.eq_of_height same)

/-- A fork point that is null or a proper ancestor of a block is below it. -/
theorem forkHeight_lt {pindexFork : Option Hash} {hash : Hash}
    (below : ∀ fork ∈ pindexFork, chain.AncestorOrSelf fork hash ∧ fork ≠ hash) :
    chain.forkHeight pindexFork < chain.nHeight hash := by
  cases pindexFork with
  | none =>
      show (-1 : Int) < chain.nHeight hash
      omega
  | some fork =>
      obtain ⟨ancestor, other⟩ := below fork rfl
      exact Int.ofNat_lt.mpr (ancestor.height_lt other)

end ChainView

theorem CNode.foldl_pushBlockHash (hashes : List Hash) (node : CNode) :
    hashes.foldl CNode.pushBlockHash node =
      { node with vBlockHashesToAnnounce := node.vBlockHashesToAnnounce ++ hashes } := by
  induction hashes generalizing node with
  | nil => simp
  | cons hash rest ih => simp [ih, CNode.pushBlockHash]

namespace Net

variable {env : Env}

/-- **The walk of `UpdatedBlockTip`.** From a block above the fork point, with
`fuel` hashes left before `MAX_BLOCKS_TO_ANNOUNCE`, it appends the blocks from
that block down to just above the fork point, newest first, each the child of
the next, and at most `fuel` of them. -/
theorem hashesToAnnounce_walk {pindexFork : Option Hash} :
    ∀ (fuel : Nat) (pindex : Hash) (vHashes : List Hash), 0 < fuel →
      vHashes.length + fuel = env.params.MAX_BLOCKS_TO_ANNOUNCE →
      (∀ fork ∈ pindexFork, env.chain.AncestorOrSelf fork pindex ∧ fork ≠ pindex) →
      ∃ walked, hashesToAnnounce env pindexFork fuel (some pindex) vHashes = some (vHashes ++ walked) ∧
        (walked.length : Int) = min (fuel : Int) (env.chain.nHeight pindex - env.chain.forkHeight pindexFork) ∧
        walked.head? = some pindex ∧ walked.Chain' fun a b => env.chain.pprev a = some b
  | 0, _, _, empty, _, _ => absurd empty (Nat.lt_irrefl 0)
  | fuel + 1, pindex, vHashes, _, left, below => by
      have fresh : some pindex ≠ pindexFork := fun atFork => (below pindex atFork.symm).2 rfl
      have lower := env.chain.forkHeight_lt below
      simp only [hashesToAnnounce, if_neg fresh, List.length_append, List.length_singleton]
      by_cases full : vHashes.length + 1 = env.params.MAX_BLOCKS_TO_ANNOUNCE
      · rw [if_pos full]
        exact ⟨[pindex], rfl, by simp only [List.length_singleton]; omega, rfl, List.chain'_singleton _⟩
      rw [if_neg full]
      have more : fuel ≠ 0 := by omega
      cases linked : env.chain.pprev pindex with
      | none =>
          obtain ⟨rest, rfl⟩ := Nat.exists_eq_succ_of_ne_zero more
          obtain rfl : pindexFork = none := by
            cases pindexFork with
            | none => rfl
            | some fork =>
                obtain ⟨parent, linked', -⟩ := (below fork rfl).1.of_ne (below fork rfl).2
                cases linked.symm.trans linked'
          refine ⟨[pindex], if_pos rfl, ?_, rfl, List.chain'_singleton _⟩
          simp only [List.length_singleton, ChainView.forkHeight, ChainView.nHeight_of_pprev_none linked]
          omega
      | some parent =>
          have step := env.chain.pprev_height linked
          by_cases atFork : pindexFork = some parent
          · subst atFork
            obtain ⟨rest, rfl⟩ := Nat.exists_eq_succ_of_ne_zero more
            refine ⟨[pindex], if_pos rfl, ?_, rfl, List.chain'_singleton _⟩
            simp only [List.length_singleton, ChainView.forkHeight]
            omega
          have below' : ∀ fork ∈ pindexFork, env.chain.AncestorOrSelf fork parent ∧ fork ≠ parent := by
            intro fork isFork
            obtain ⟨parent', linked', ancestor⟩ := (below fork isFork).1.of_ne (below fork isFork).2
            cases linked.symm.trans linked'
            exact ⟨ancestor, fun same => atFork (same ▸ isFork)⟩
          obtain ⟨walked, ran, length, first, chained⟩ :=
            hashesToAnnounce_walk fuel parent (vHashes ++ [pindex]) (Nat.pos_of_ne_zero more)
              (by simp only [List.length_append, List.length_singleton]; omega) below'
          refine ⟨pindex :: walked, by rw [ran, List.append_assoc]; rfl, ?_, rfl,
            chained.cons' fun next isFirst => ?_⟩
          · simp only [List.length_cons]
            omega
          · rw [first, Option.mem_some_iff] at isFirst
            rw [← isFirst, linked]

/-- **The blocks `UpdatedBlockTip` queues.** Out of initial download, from a
fork point that is null or a proper ancestor of the new tip, `UpdatedBlockTip`
returns, and appends, by `PushBlockHash` of each in turn, to the blocks to
announce of every connection whose starting height is not far ahead the last
`min(MAX_BLOCKS_TO_ANNOUNCE, nHeight(pindexNew) - nHeight(pindexFork))` blocks of
the branch ending at the new tip, oldest first, each the parent of the next. -/
theorem updatedBlockTip_announces (env : Env) (net : Net) (pindexNew : Hash) (pindexFork : Option Hash)
    (below : ∀ fork ∈ pindexFork, env.chain.AncestorOrSelf fork pindexNew ∧ fork ≠ pindexNew) :
    ∃ announced : List Hash,
      (announced.length : Int) = min (env.params.MAX_BLOCKS_TO_ANNOUNCE : Int)
        (env.chain.nHeight pindexNew - env.chain.forkHeight pindexFork) ∧
      announced.getLast? = some pindexNew ∧
      announced.Chain' (fun a b => env.chain.pprev b = some a) ∧
      announced.Chain' (fun a b => env.chain.nHeight a < env.chain.nHeight b) ∧
      net.updatedBlockTip env pindexNew pindexFork false = some { net with
        nodes := net.nodes.map fun node =>
          if (if node.nStartingHeight ≠ -1 then node.nStartingHeight - 2000 else 0) <
              (env.chain.nHeight pindexNew : Int)
          then { node with vBlockHashesToAnnounce := node.vBlockHashesToAnnounce ++ announced } else node } := by
  obtain ⟨walked, ran, length, first, chained⟩ :=
    hashesToAnnounce_walk env.params.MAX_BLOCKS_TO_ANNOUNCE pindexNew [] env.params.announce_pos
      (Nat.zero_add _) below
  have linked : walked.reverse.Chain' fun a b => env.chain.pprev b = some a := List.chain'_reverse.mpr chained
  refine ⟨walked.reverse, by rw [List.length_reverse, length], by rw [List.getLast?_reverse, first], linked,
    linked.imp fun a b parent => Nat.lt_of_succ_le (env.chain.pprev_height parent).le, ?_⟩
  simp only [updatedBlockTip, Bool.false_eq_true, if_false, ran, List.nil_append, Option.bind_eq_bind,
    Option.some_bind, Option.pure_def, CNode.foldl_pushBlockHash]

end Net

/-- The index of `ChainView.announced`: a genesis `1` of work `1` and a header
`2` of work `2`. -/
def announcedEnv : Env :=
  { Handling.missingInputsEnv with chain := ChainView.announced, acceptBlockHeader_indexed := nofun }

/-- Two connections: peer `1`, whose `VERSION` gave no starting height, and
peer `2`, which claimed a starting height of `3000`. -/
def Net.twoStarting : Net :=
  { Net.initial ∅ with
    nodes := (StdMap.empty.insert 1 (CNode.connect 1 false false false false false 0 0)).insert 2
      { CNode.connect 2 false false false false false 0 0 with nStartingHeight := 3000 } }

/-- On the chain `1` to `5`, a new tip `5` over the fork point `2` queues `3, 4, 5`
for peer `1`, and nothing for peer `2`, which claimed to be far ahead. -/
theorem updatedBlockTip_announces_branch :
    ((Net.twoStarting.updatedBlockTip Handling.lineEnv 5 (some 2) false).bind (·.nodes.find? 1)).map
      (·.vBlockHashesToAnnounce) = some [3, 4, 5] ∧
    ((Net.twoStarting.updatedBlockTip Handling.lineEnv 5 (some 2) false).bind (·.nodes.find? 2)).map
      (·.vBlockHashesToAnnounce) = some [] ∧
    (∀ fork ∈ some (2 : Hash), Handling.lineEnv.chain.AncestorOrSelf fork 5 ∧ fork ≠ 5) ∧
      ∃ announced : List Hash,
        (announced.length : Int) = min (Handling.lineEnv.params.MAX_BLOCKS_TO_ANNOUNCE : Int)
          (Handling.lineEnv.chain.nHeight 5 - Handling.lineEnv.chain.forkHeight (some 2)) ∧
        announced.getLast? = some 5 ∧
        announced.Chain' (fun a b => Handling.lineEnv.chain.pprev b = some a) ∧
        announced.Chain' (fun a b => Handling.lineEnv.chain.nHeight a < Handling.lineEnv.chain.nHeight b) ∧
        Net.twoStarting.updatedBlockTip Handling.lineEnv 5 (some 2) false = some { Net.twoStarting with
          nodes := Net.twoStarting.nodes.map fun node =>
            if (if node.nStartingHeight ≠ -1 then node.nStartingHeight - 2000 else 0) <
                (Handling.lineEnv.chain.nHeight 5 : Int)
            then { node with vBlockHashesToAnnounce := node.vBlockHashesToAnnounce ++ announced } else node } :=
  have below : ∀ fork ∈ some (2 : Hash), Handling.lineEnv.chain.AncestorOrSelf fork 5 ∧ fork ≠ 5 := by
    rintro fork ⟨⟩
    exact ⟨⟨3, rfl⟩, by decide⟩
  ⟨by decide, by decide, below, Net.updatedBlockTip_announces Handling.lineEnv Net.twoStarting 5 (some 2) below⟩

end XuezNet
