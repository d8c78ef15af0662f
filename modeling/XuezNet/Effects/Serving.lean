import XuezNet.Handlers.Inventory
import XuezNet.Handlers.Transaction

/-! # Which blocks `ProcessGetData` sends

`ProcessGetData` answers a block item with the block only when the block is on
the active chain, or is valid and no more than a month older than the best
header, in time and in proof-equivalent time, so that a peer cannot probe which
stale blocks we hold. It holds such a block back, and flags the peer for
disconnection instead, when the outbound target is reached and the block is
historical or asked for filtered, unless the peer is whitelisted. It sends only
blocks whose data is stored.

Every `block` and `merkleblock` message a pass pushes answers a queued item that
passes these tests (`processGetData_answers`); whatever else a pass pushes is a
transaction, an inventory or a `NOTFOUND`.
-/

namespace XuezNet

namespace Handling

variable (env : Env)

/-- The test of `ProcessGetData` that holds a servable block back: the outbound
target reached, the block more than a week older than the best header or asked
for filtered, and the peer not whitelisted. -/
def blockLimited (fWhitelisted : Bool) (inv : CInv) (block : CBlockIndex) : Bool :=
  env.outboundTargetReached &&
    ((match env.chain.pindexBestHeader.bind env.chain.mapBlockIndex with
      | some best => decide (nOneWeek < best.nTime - block.nTime)
      | none => false) || decide (inv.type = .filteredBlock)) && !fWhitelisted

/-- A block item `ProcessGetData` may answer with the block: indexed, servable,
not held back, and with its data stored. -/
def BlockAnswerable (fWhitelisted : Bool) (inv : CInv) : Prop :=
  ∃ block, env.chain.mapBlockIndex inv.hash = some block ∧ blockServable env inv.hash block = true ∧
    blockLimited env fWhitelisted inv block = false ∧ block.fHaveData = true

/-- A message `ProcessGetData` may push while serving `items` to a peer: a
`block` read from disk for a `MSG_BLOCK` item it may answer, a `merkleblock` for
a `MSG_FILTERED_BLOCK` item it may answer, or any other message. -/
def Answers (fWhitelisted : Bool) (items : List CInv) : NetMsg → Prop
  | .block data => ∃ inv ∈ items, inv.type = .block ∧ env.readBlockFromDisk inv.hash = some data ∧
      BlockAnswerable env fWhitelisted inv
  | .merkleblock hash => ∃ inv ∈ items, inv.type = .filteredBlock ∧ inv.hash = hash ∧
      BlockAnswerable env fWhitelisted inv
  | _ => True

variable {env}

theorem Answers.mono {fWhitelisted : Bool} {items items' : List CInv} (sub : ∀ inv ∈ items, inv ∈ items')
    {msg : NetMsg} (answers : Answers env fWhitelisted items msg) : Answers env fWhitelisted items' msg := by
  cases msg
  case block => exact answers.imp fun inv ⟨member, rest⟩ => ⟨sub inv member, rest⟩
  case merkleblock => exact answers.imp fun inv ⟨member, rest⟩ => ⟨sub inv member, rest⟩
  all_goals trivial

/-- What serving `items` does to a connection's outgoing messages: it appends
only what `Answers` allows, and keeps whether the peer is whitelisted. -/
structure AnswersOnly (env : Env) (items : List CInv) (node node' : CNode) : Prop where
  whitelisted : node'.fWhitelisted = node.fWhitelisted
  sent : ∃ pushed, node'.vSendMsg = node.vSendMsg ++ pushed ∧
    ∀ msg ∈ pushed, Answers env node.fWhitelisted items msg

namespace AnswersOnly

variable {items : List CInv} {node node' node'' : CNode}

theorem refl (node : CNode) : AnswersOnly env items node node := ⟨rfl, [], by simp, by simp⟩

theorem trans (first : AnswersOnly env items node node') (second : AnswersOnly env items node' node'') :
    AnswersOnly env items node node'' := by
  obtain ⟨pushed, sent, answers⟩ := first.sent
  obtain ⟨pushed', sent', answers'⟩ := second.sent
  refine ⟨second.whitelisted.trans first.whitelisted, pushed ++ pushed', by rw [sent', sent, List.append_assoc],
    fun msg member => ?_⟩
  rcases List.mem_append.mp member with early | late
  · exact answers msg early
  · rw [← first.whitelisted]
    exact answers' msg late

theorem mono {items' : List CInv} (sub : ∀ inv ∈ items, inv ∈ items') (answers : AnswersOnly env items node node') :
    AnswersOnly env items' node node' := by
  obtain ⟨pushed, sent, allowed⟩ := answers.sent
  exact ⟨answers.whitelisted, pushed, sent, fun msg member => (allowed msg member).mono sub⟩

/-- A write that pushes nothing and keeps whitelisting. -/
theorem quiet (whitelisted : node'.fWhitelisted = node.fWhitelisted) (sent : node'.vSendMsg = node.vSendMsg) :
    AnswersOnly env items node node' :=
  ⟨whitelisted, [], by simp [sent], by simp⟩

theorem push (node : CNode) (msg : NetMsg) (answers : Answers env node.fWhitelisted items msg) :
    AnswersOnly env items node (node.pushMessage msg) :=
  ⟨rfl, [msg], rfl, by simpa using answers⟩

theorem pushTxs (txs : List CTransaction) (node : CNode) :
    AnswersOnly env items node (txs.foldl (fun node tx => node.pushMessage (.tx tx)) node) := by
  induction txs generalizing node with
  | nil => exact .refl node
  | cons tx rest ih => exact (AnswersOnly.push node (.tx tx) trivial).trans (ih _)

end AnswersOnly

variable {items : List CInv}

/-- The answer to a block item read from disk. -/
theorem pushBlockData_answers {node : CNode} {inv : CInv} {data : CBlock}
    (kind : inv.type = .block ∨ inv.type = .filteredBlock) (member : inv ∈ items)
    (read : env.readBlockFromDisk inv.hash = some data) (answerable : BlockAnswerable env node.fWhitelisted inv) :
    AnswersOnly env items node (pushBlockData env node inv data) := by
  unfold pushBlockData
  split_ifs with isBlock
  · exact .push node (.block data) ⟨inv, member, isBlock, read, answerable⟩
  · exact (AnswersOnly.push node (.merkleblock inv.hash) ⟨inv, member, kind.resolve_left isBlock, rfl, answerable⟩).trans
      (.pushTxs _ _)
  · exact .refl node

theorem continueBatch_answers (node : CNode) (hash : Hash) : AnswersOnly env items node (continueBatch env node hash) := by
  unfold continueBatch
  split_ifs
  · exact (AnswersOnly.push node (.inv _) trivial).trans (.quiet rfl rfl)
  · exact .refl node

/-- **One block item** is answered with the block only when it may be. -/
theorem serveBlock_answers {h h' : Handling} {inv : CInv} (kind : inv.type = .block ∨ inv.type = .filteredBlock)
    (member : inv ∈ items) (ran : serveBlock env h inv = some h') : AnswersOnly env items h.node h'.node := by
  unfold serveBlock at ran
  split at ran
  · cases ran
    exact .refl _
  rename_i block found
  dsimp only at ran
  split_ifs at ran with serving limited limited
  · simp [limited] at serving
  · obtain ⟨data, read, rfl⟩ := Option.map_eq_some'.mp ran
    simp only [Bool.and_eq_true, Bool.not_eq_true'] at serving
    have answerable : BlockAnswerable env h.node.fWhitelisted inv :=
      ⟨block, found, serving.1.1, by simpa [blockLimited, serving.1.1] using serving.1.2, serving.2⟩
    exact (pushBlockData_answers kind member read answerable).trans (continueBatch_answers _ _)
  · cases ran
    exact .quiet rfl rfl
  · cases ran
    exact .refl _

/-- One item of the loop. -/
theorem serveItem_answers {h h' : Handling} {vNotFound vNotFound' : List CInv} {inv : CInv} (member : inv ∈ items)
    (ran : serveItem env h vNotFound inv = some (h', vNotFound')) : AnswersOnly env items h.node h'.node := by
  unfold serveItem at ran
  split at ran
  · rename_i isBlock
    obtain ⟨h'', served, same⟩ := Option.map_eq_some'.mp ran
    cases same
    exact serveBlock_answers (.inl isBlock) member served
  · rename_i isFiltered
    obtain ⟨h'', served, same⟩ := Option.map_eq_some'.mp ran
    cases same
    exact serveBlock_answers (.inr isFiltered) member served
  · split at ran
    · cases ran
      exact .push _ (.tx _) trivial
    · cases ran
      exact .refl _
  · split_ifs at ran
    · cases ran
      exact (AnswersOnly.push h.node (.stx inv.hash) trivial).trans (.quiet rfl rfl)
    · cases ran
      exact .refl _
  · cases ran
    exact .refl _

/-- The loop of `ProcessGetData` over the queue from any index. -/
theorem serveLoop_answers (paused interrupted : Nat → Bool) :
    ∀ {queue : List CInv} {n : Nat} {h h' : Handling} {vNotFound : List CInv} {exit : GetDataExit},
      serveLoop env paused interrupted n queue h vNotFound = some (h', exit) → AnswersOnly env queue h.node h'.node
  | [], _, _, _, _, _, ran => by
      cases ran
      exact .refl _
  | inv :: rest, n, h, h', vNotFound, exit, ran => by
      unfold serveLoop at ran
      by_cases pausedHere : paused n = true
      · rw [if_pos pausedHere] at ran
        cases ran
        exact .refl _
      rw [if_neg pausedHere] at ran
      by_cases interruptedHere : interrupted n = true
      · rw [if_pos interruptedHere] at ran
        cases ran
        exact .refl _
      rw [if_neg interruptedHere] at ran
      dsimp only at ran
      obtain ⟨⟨h₂, vNotFound₂⟩, item, ran⟩ := Option.bind_eq_some.mp ran
      have logged : AnswersOnly env (inv :: rest) h.node
          { h.node with getDataServed := h.node.getDataServed ++ [inv] } := .quiet rfl rfl
      have first := logged.trans (serveItem_answers (List.mem_cons_self _ _) item)
      dsimp only at ran
      by_cases isBlock : inv.type = .block ∨ inv.type = .filteredBlock
      · rw [if_pos isBlock] at ran
        cases ran
        exact first
      · rw [if_neg isBlock] at ran
        exact first.trans ((serveLoop_answers paused interrupted ran).mono fun _ => List.mem_cons_of_mem _)

/-- **`ProcessGetData` sends only the blocks it may.** Every `block` message a
pass pushes is read from disk for a queued `MSG_BLOCK` item, every `merkleblock`
answers a queued `MSG_FILTERED_BLOCK` item, and the block of each is in the
index with its data stored; it is on the active chain, or valid and within a
month of the best header in time and in proof-equivalent time; and it is not
held back by the outbound limit (target reached, block over a week older than
the best header or asked for filtered, peer not whitelisted). -/
theorem processGetData_answers {paused interrupted : Nat → Bool} {h h' : Handling}
    (ran : processGetData env paused interrupted h = some h') :
    ∃ pushed, h'.node.vSendMsg = h.node.vSendMsg ++ pushed ∧
      ∀ msg ∈ pushed, Answers env h.node.fWhitelisted h.node.vRecvGetData msg := by
  unfold processGetData at ran
  obtain ⟨⟨h₁, exit⟩, looped, ran⟩ := Option.bind_eq_some.mp ran
  have served := serveLoop_answers paused interrupted looped
  cases exit with
  | interrupted =>
      cases ran
      exact served.sent
  | done handled vNotFound =>
      cases ran
      have flushed : ∀ node : CNode, AnswersOnly env h.node.vRecvGetData node (flushChunk .notfound node vNotFound) :=
        fun node => by
          unfold flushChunk
          split_ifs
          · exact .refl node
          · exact .push node (.notfound vNotFound) trivial
      have dropped : AnswersOnly env h.node.vRecvGetData h₁.node
          { h₁.node with vRecvGetData := h₁.node.vRecvGetData.drop handled } := .quiet rfl rfl
      exact (served.trans (dropped.trans (flushed _))).sent

/-- The genesis block of `ChainView.single 1`. -/
def genesisBlock : CBlock := ⟨⟨1, 0⟩, []⟩

/-- An environment whose disk holds the genesis block. -/
def storingEnv : Env :=
  { missingInputsEnv with readBlockFromDisk := fun hash => if hash = 1 then some genesisBlock else none }

/-- Peer `1` asking for the genesis block. -/
def askingGenesis : Handling :=
  { connectedPeer with node := { connectedPeer.node with vRecvGetData := [⟨.block, 1⟩] } }

theorem processGetData_answers_genesis :
    ∃ h', processGetData storingEnv (fun _ => false) (fun _ => false) askingGenesis = some h' ∧
      ∃ pushed, h'.node.vSendMsg = askingGenesis.node.vSendMsg ++ pushed ∧
        ∀ msg ∈ pushed, Answers storingEnv askingGenesis.node.fWhitelisted askingGenesis.node.vRecvGetData msg := by
  obtain ⟨h', ran⟩ := Option.isSome_iff_exists.mp
    (by decide : (processGetData storingEnv (fun _ => false) (fun _ => false) askingGenesis).isSome)
  exact ⟨h', ran, processGetData_answers ran⟩

/-- and the pass answers with the block. -/
example : (processGetData storingEnv (fun _ => false) (fun _ => false) askingGenesis).map (·.node.vSendMsg) =
    some [.block genesisBlock] := by
  decide

end Handling

end XuezNet
