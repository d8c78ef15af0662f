import XuezNet.System.Invariant
import XuezNet.System.Connection

/-! # What serving `GETDATA` does

`ProcessGetData` changes no global and queues no announcement. On its
connection it handles a prefix of the queued items in order, logging each as
served before answering it, stops after the first block, erases the handled
items from the front of the queue unless the interrupt made it return first,
and pushes only answers and a `NOTFOUND` no longer than the queue
(`processGetData_pass`). The `GETDATA` branch appends the items to the queue and
to the log of requested items, then serves (`processGetDataMessage_pass`).

A pass keeps the invariant of the connection when its reads of the interrupt
agree with the flag (`GetDataPass.sound`): before the interrupt it extends the
served prefix by the items it handled and drops exactly those from the queue;
once the flag is raised it handles nothing.
-/

namespace XuezNet

/-- **What serving items does to the connection**: log them as served, keep the
rest of what `NodeKeeps` keeps and the `GETDATA` queue, and push messages within
the limits that ask for no block. -/
structure Serves (items : List CInv) (node node' : CNode) : Prop where
  id : node'.id = node.id
  recvGetData : node'.vRecvGetData = node.vRecvGetData
  requested : node'.getDataRequested = node.getDataRequested
  processMsg : node'.vProcessMsg = node.vProcessMsg
  version : node'.nVersion = node.nVersion
  connected : node'.fSuccessfullyConnected = node.fSuccessfullyConnected
  askFor : (∀ entry ∈ node.mapAskFor, entry.2.type ≠ .block) →
    ∀ entry ∈ node'.mapAskFor, entry.2.type ≠ .block
  served : node'.getDataServed = node.getDataServed ++ items
  sent : ∃ pushed, node'.vSendMsg = node.vSendMsg ++ pushed ∧ ∀ msg ∈ pushed, msg.framed

namespace Serves

variable {items items' : List CInv} {node node' node'' : CNode}

theorem trans (first : Serves items node node') (second : Serves items' node' node'') :
    Serves (items ++ items') node node'' := by
  obtain ⟨pushed, sent, framed⟩ := first.sent
  obtain ⟨pushed', sent', framed'⟩ := second.sent
  refine ⟨second.id.trans first.id, second.recvGetData.trans first.recvGetData,
    second.requested.trans first.requested, second.processMsg.trans first.processMsg,
    second.version.trans first.version, second.connected.trans first.connected,
    second.askFor ∘ first.askFor, by rw [second.served, first.served, List.append_assoc],
    pushed ++ pushed', by rw [sent', sent, List.append_assoc], fun msg member => ?_⟩
  rcases List.mem_append.mp member with early | late
  · exact framed msg early
  · exact framed' msg late

/-- A change within the frame serves nothing. -/
theorem ofFrame (frame : NodeFrame NetMsg.framed node node') : Serves [] node node' := by
  obtain ⟨pushed, sent, framed⟩ := frame.sent
  exact ⟨frame.keeps.id, frame.keeps.recvGetData, frame.keeps.requested, frame.keeps.processMsg,
    frame.keeps.version, frame.keeps.connected, frame.keeps.askFor, by simp [frame.keeps.served],
    pushed, sent, framed⟩

/-- Logging an item as served. -/
theorem log (node : CNode) (inv : CInv) :
    Serves [inv] node { node with getDataServed := node.getDataServed ++ [inv] } :=
  ⟨rfl, rfl, rfl, rfl, rfl, rfl, fun ok => ok, rfl, [], by simp, by simp⟩

end Serves

/-- Pushing the transactions a filter matched. -/
theorem NodeFrame.pushTxs (txs : List CTransaction) (node : CNode) :
    NodeFrame NetMsg.framed node (txs.foldl (fun node tx => node.pushMessage (.tx tx)) node) := by
  induction txs generalizing node with
  | nil => exact .refl node
  | cons tx rest ih => exact (NodeFrame.push node rfl).trans (ih _)

namespace Handling

variable {env : Env} {h h' : Handling}

/-- The answer to a block read from disk is within the frame. -/
theorem pushBlockData_frame (node : CNode) (inv : CInv) (data : CBlock) :
    NodeFrame NetMsg.framed node (pushBlockData env node inv data) := by
  unfold pushBlockData
  split_ifs
  · exact .push node rfl
  · exact (NodeFrame.push node rfl).trans (NodeFrame.pushTxs _ _)
  · exact .refl node

theorem continueBatch_frame (node : CNode) (hash : Hash) :
    NodeFrame NetMsg.framed node (continueBatch env node hash) := by
  unfold continueBatch
  split_ifs
  · exact (NodeFrame.push node rfl).trans (.update rfl rfl rfl rfl rfl rfl rfl rfl rfl)
  · exact .refl node

/-- Serving a block changes only the connection, within the frame. -/
theorem serveBlock_frame {inv : CInv} (ran : serveBlock env h inv = some h') :
    h'.logic = h.logic ∧ h'.relays = h.relays ∧ NodeFrame NetMsg.framed h.node h'.node := by
  unfold serveBlock at ran
  split at ran
  · cases ran
    exact ⟨rfl, rfl, .refl _⟩
  · dsimp only at ran
    have answer : ∀ (node : CNode) (data : CBlock), NodeFrame NetMsg.framed node
        (continueBatch env (pushBlockData env node inv data) inv.hash) := fun node data =>
      (pushBlockData_frame node inv data).trans (continueBatch_frame _ _)
    split_ifs at ran <;> first
      | (cases ran; exact ⟨rfl, rfl, .refl _⟩)
      | (cases ran; exact ⟨rfl, rfl, .disconnect _⟩)
      | (obtain ⟨data, -, rfl⟩ := Option.map_eq_some'.mp ran
         exact ⟨rfl, rfl, (NodeFrame.disconnect _).trans (answer _ _)⟩)
      | (obtain ⟨data, -, rfl⟩ := Option.map_eq_some'.mp ran
         exact ⟨rfl, rfl, answer _ _⟩)

/-- Serving one item changes only the connection, within the frame; an item not
found is added to `vNotFound`. -/
theorem serveItem_frame {vNotFound vNotFound' : List CInv} {inv : CInv}
    (ran : serveItem env h vNotFound inv = some (h', vNotFound')) :
    h'.logic = h.logic ∧ h'.relays = h.relays ∧ NodeFrame NetMsg.framed h.node h'.node ∧
      (vNotFound' = vNotFound ∨ vNotFound' = vNotFound ++ [inv]) := by
  unfold serveItem at ran
  split at ran
  · obtain ⟨h'', served, same⟩ := Option.map_eq_some'.mp ran
    cases same
    exact ⟨(serveBlock_frame served).1, (serveBlock_frame served).2.1, (serveBlock_frame served).2.2, .inl rfl⟩
  · obtain ⟨h'', served, same⟩ := Option.map_eq_some'.mp ran
    cases same
    exact ⟨(serveBlock_frame served).1, (serveBlock_frame served).2.1, (serveBlock_frame served).2.2, .inl rfl⟩
  · split at ran
    · cases ran
      exact ⟨rfl, rfl, .push _ rfl, .inl rfl⟩
    · cases ran
      exact ⟨rfl, rfl, .refl _, .inr rfl⟩
  · split_ifs at ran
    · cases ran
      exact ⟨rfl, rfl, (NodeFrame.push h.node (show NetMsg.framed (.stx inv.hash) from rfl)).trans
        (.update rfl rfl rfl rfl rfl rfl rfl rfl rfl), .inl rfl⟩
    · cases ran
      exact ⟨rfl, rfl, .refl _, .inr rfl⟩
  · cases ran
    exact ⟨rfl, rfl, .refl _, .inl rfl⟩

/-- **The loop of `ProcessGetData`**, from the item at index `n`: it handles the
first `k` items of the queue in order, of which at most the last is a block,
having read the interrupt clear at each; it ends done after them, with at most
`k` more items not found, or by an interrupt read raised at the next item. -/
theorem serveLoop_pass (paused interrupted : Nat → Bool) :
    ∀ {queue : List CInv} {n : Nat} {h h' : Handling} {vNotFound : List CInv} {exit : GetDataExit},
      serveLoop env paused interrupted n queue h vNotFound = some (h', exit) →
      ∃ k ≤ queue.length, h'.logic = h.logic ∧ h'.relays = h.relays ∧
        Serves (queue.take k) h.node h'.node ∧
        (∀ inv ∈ (queue.take k).dropLast, inv.type ≠ .block ∧ inv.type ≠ .filteredBlock) ∧
        (∀ j < k, interrupted (n + j) = false) ∧
        match exit with
        | .done handled vNotFound' => handled = n + k ∧ vNotFound'.length ≤ vNotFound.length + k
        | .interrupted => interrupted (n + k) = true
  | [], n, h, h', vNotFound, exit, ran => by
      cases ran
      exact ⟨0, le_rfl, rfl, rfl, .ofFrame (.refl _), by simp, by simp, by simp⟩
  | inv :: rest, n, h, h', vNotFound, exit, ran => by
      unfold serveLoop at ran
      by_cases pausedHere : paused n = true
      · rw [if_pos pausedHere] at ran
        cases ran
        exact ⟨0, by simp, rfl, rfl, .ofFrame (.refl _), by simp, by simp, by simp⟩
      rw [if_neg pausedHere] at ran
      by_cases interruptedHere : interrupted n = true
      · rw [if_pos interruptedHere] at ran
        cases ran
        exact ⟨0, by simp, rfl, rfl, .ofFrame (.refl _), by simp, by simp, by simpa using interruptedHere⟩
      · rw [if_neg interruptedHere] at ran
        dsimp only at ran
        obtain ⟨⟨h₂, vNotFound₂⟩, item, ran⟩ := Option.bind_eq_some.mp ran
        obtain ⟨logic, relays, frame, notFound⟩ := serveItem_frame item
        have first : Serves [inv] h.node h₂.node := (Serves.log h.node inv).trans (.ofFrame frame)
        have grew : vNotFound₂.length ≤ vNotFound.length + 1 := by
          rcases notFound with rfl | rfl <;> simp
        dsimp only at ran
        by_cases isBlock : inv.type = .block ∨ inv.type = .filteredBlock
        · rw [if_pos isBlock] at ran
          cases ran
          refine ⟨1, by simp, logic, relays, by simpa using first, by simp, ?_, rfl, grew⟩
          intro j below
          obtain rfl : j = 0 := by omega
          simpa using interruptedHere
        · rw [if_neg isBlock] at ran
          obtain ⟨k, bound, logic', relays', serves, blocks, clear, ending⟩ := serveLoop_pass paused interrupted ran
          refine ⟨k + 1, by simpa using bound, logic'.trans logic, relays'.trans relays,
            by simpa using first.trans serves, ?_, ?_, ?_⟩
          · intro other member
            rw [List.take_succ_cons] at member
            cases taken : rest.take k with
            | nil => simp [taken] at member
            | cons head tail =>
                rw [taken, List.dropLast_cons₂] at member
                rcases List.mem_cons.mp member with rfl | later
                · exact not_or.mp isBlock
                · exact blocks other (by rw [taken]; exact later)
          · intro j below
            cases j with
            | zero => simpa using interruptedHere
            | succ j =>
                have := clear j (by omega)
                rwa [show n + 1 + j = n + (j + 1) by omega] at this
          · cases exit with
            | done handled vNotFound' =>
                obtain ⟨handledAt, fewer⟩ := ending
                exact ⟨by omega, by omega⟩
            | interrupted =>
                rwa [show n + 1 + k = n + (k + 1) by omega] at ending

/-- **What a pass of `ProcessGetData` does.** It changes neither the globals
nor the announcements, keeps what `NodeKeeps` keeps outside the `GETDATA` queue
and its log of served items, and pushes messages within the limits that ask for
no block. It handles the first `k` queued items, having read the interrupt
clear at each, logs them as served, of which at most the last is a block, and
then either erases them from the queue or, the interrupt read raised at the
next item, returns leaving the queue as it was. -/
structure GetDataPass (interrupted : Nat → Bool) (h h' : Handling) : Prop where
  logic : h'.logic = h.logic
  relays : h'.relays = h.relays
  id : h'.node.id = h.node.id
  requested : h'.node.getDataRequested = h.node.getDataRequested
  processMsg : h'.node.vProcessMsg = h.node.vProcessMsg
  version : h'.node.nVersion = h.node.nVersion
  connected : h'.node.fSuccessfullyConnected = h.node.fSuccessfullyConnected
  askFor : (∀ entry ∈ h.node.mapAskFor, entry.2.type ≠ .block) →
    ∀ entry ∈ h'.node.mapAskFor, entry.2.type ≠ .block
  sent : ∃ pushed, h'.node.vSendMsg = h.node.vSendMsg ++ pushed ∧ ∀ msg ∈ pushed, msg.framed
  handled : ∃ k ≤ h.node.vRecvGetData.length, (∀ j < k, interrupted j = false) ∧
    h'.node.getDataServed = h.node.getDataServed ++ h.node.vRecvGetData.take k ∧
    (∀ inv ∈ (h.node.vRecvGetData.take k).dropLast, inv.type ≠ .block ∧ inv.type ≠ .filteredBlock) ∧
    (h'.node.vRecvGetData = h.node.vRecvGetData.drop k ∨
      h'.node.vRecvGetData = h.node.vRecvGetData ∧ interrupted k = true)

/-- Not serving is a pass that handles nothing. -/
theorem GetDataPass.refl (interrupted : Nat → Bool) (h : Handling) : GetDataPass interrupted h h :=
  ⟨rfl, rfl, rfl, rfl, rfl, rfl, rfl, fun ok => ok, ⟨[], by simp, by simp⟩,
    0, Nat.zero_le _, by simp, by simp, by simp, by simp⟩

/-- **`ProcessGetData` is a pass**, on a queue of at most `MAX_INV_SZ` items. -/
theorem processGetData_pass (paused interrupted : Nat → Bool)
    (queued : h.node.vRecvGetData.length ≤ MAX_INV_SZ) (ran : processGetData env paused interrupted h = some h') :
    GetDataPass interrupted h h' := by
  unfold processGetData at ran
  obtain ⟨⟨h₁, exit⟩, looped, ran⟩ := Option.bind_eq_some.mp ran
  obtain ⟨k, bound, logic, relays, serves, blocks, clear, ending⟩ := serveLoop_pass paused interrupted looped
  obtain ⟨pushed, sent, framed⟩ := serves.sent
  simp only [Nat.zero_add] at clear
  cases exit with
  | interrupted =>
      cases ran
      exact ⟨logic, relays, serves.id, serves.requested, serves.processMsg, serves.version, serves.connected,
        serves.askFor, ⟨pushed, sent, framed⟩, k, bound, clear, serves.served, blocks,
        .inr ⟨serves.recvGetData, by simpa using ending⟩⟩
  | done handled vNotFound =>
      cases ran
      obtain ⟨rfl, fewer⟩ := ending
      rw [List.length_nil, Nat.zero_add] at fewer
      have flush : NodeFrame NetMsg.framed { h₁.node with vRecvGetData := h₁.node.vRecvGetData.drop (0 + k) }
          (flushChunk .notfound { h₁.node with vRecvGetData := h₁.node.vRecvGetData.drop (0 + k) } vNotFound) :=
        flushChunk_frame (by simp [NetMsg.framed, NetMsg.withinLimits, NetMsg.blocksRequested]; omega)
      obtain ⟨pushed', sent', framed'⟩ := flush.sent
      refine ⟨logic, relays, flush.keeps.id.trans serves.id, flush.keeps.requested.trans serves.requested,
        flush.keeps.processMsg.trans serves.processMsg, flush.keeps.version.trans serves.version,
        flush.keeps.connected.trans serves.connected, flush.keeps.askFor ∘ serves.askFor,
        ⟨pushed ++ pushed', by rw [sent', ← List.append_assoc, ← sent], fun msg member => ?_⟩,
        k, bound, clear, by rw [flush.keeps.served]; exact serves.served, blocks,
        .inl (by rw [flush.keeps.recvGetData]; simp [serves.recvGetData])⟩
      rcases List.mem_append.mp member with early | late
      · exact framed msg early
      · exact framed' msg late

/-- **The `GETDATA` branch**: a message of more than `MAX_INV_SZ` items scores the
peer; otherwise its items are appended to the queue and to the log of
requested items, and `ProcessGetData` makes a pass. -/
theorem processGetDataMessage_pass {paused interrupted : Nat → Bool} {vInv : List CInv} {fRet : Bool}
    (queued : h.node.vRecvGetData = [])
    (ran : processGetDataMessage env paused interrupted h vInv = some (h', fRet)) :
    Moves env h h' ∨ vInv.length ≤ MAX_INV_SZ ∧ GetDataPass interrupted { h with node := { h.node with
      vRecvGetData := h.node.vRecvGetData ++ vInv
      getDataRequested := h.node.getDataRequested ++ vInv } } h' := by
  unfold processGetDataMessage at ran
  split_ifs at ran with tooMany
  · cases ran
    exact .inl (.step (.misbehaving _ _))
  · obtain ⟨h'', passed, same⟩ := Option.map_eq_some'.mp ran
    cases same
    exact .inr ⟨by omega, processGetData_pass paused interrupted (by simp [queued]; omega) passed⟩

/-- **A pass keeps the invariant of the connection** when its reads of the
interrupt agree with the flag: all raised once it was raised, all clear if it
stays clear. -/
theorem GetDataPass.sound {params : Params} {interrupted : Nat → Bool} {fInterrupted fInterrupted' : Bool}
    (pass : GetDataPass interrupted h h') (sound : h.node.Sound params fInterrupted)
    (early : fInterrupted = true → fInterrupted' = true ∧ ∀ n, interrupted n = true)
    (late : fInterrupted' = false → ∀ n, interrupted n = false) : h'.node.Sound params fInterrupted' := by
  obtain ⟨k, bound, clear, served, -, queue⟩ := pass.handled
  obtain ⟨pushed, sent, framed⟩ := pass.sent
  have logs : h'.node.getDataServed <+: h'.node.getDataRequested ∧
      ∃ e ≤ h'.node.getDataServed.length, h'.node.vRecvGetData = h'.node.getDataRequested.drop e ∧
        (e = h'.node.getDataServed.length ∨ fInterrupted' = true) := by
    rw [pass.requested, served]
    cases fInterrupted with
    | true =>
        obtain ⟨raised, all⟩ := early rfl
        have nothing : k = 0 := by
          by_contra handled
          have := clear 0 (Nat.pos_of_ne_zero handled)
          rw [all 0] at this
          cases this
        subst nothing
        have same : h'.node.vRecvGetData = h.node.vRecvGetData := by
          rcases queue with queue | ⟨queue, -⟩ <;> simpa using queue
        rw [List.take_zero, List.append_nil, same]
        exact ⟨sound.served, (sound.raise fun _ => raised).pending⟩
    | false =>
        have follows := sound.queue_eq
        have taken : h.node.getDataServed = h.node.getDataRequested.take h.node.getDataServed.length :=
          List.prefix_iff_eq_take.mp sound.served
        have grown : h.node.getDataServed ++ h.node.vRecvGetData.take k =
            h.node.getDataRequested.take (h.node.getDataServed.length + k) := by
          rw [List.take_add, ← taken, ← follows]
        have longer : (h.node.getDataServed ++ h.node.vRecvGetData.take k).length =
            h.node.getDataServed.length + k := by
          simp only [List.length_append, List.length_take]
          omega
        refine ⟨grown ▸ List.take_prefix _ _, ?_⟩
        rw [longer]
        rcases queue with queue | ⟨queue, caught⟩
        · exact ⟨_, le_rfl, by rw [queue, follows, List.drop_drop], .inl rfl⟩
        · refine ⟨h.node.getDataServed.length, by omega, queue.trans follows, .inr ?_⟩
          cases still : fInterrupted'
          · rw [late still k] at caught
            cases caught
          · rfl
  refine ⟨?_, ?_, logs.1, logs.2, pass.askFor sound.askFor, ?_, ?_⟩
  · rw [sent]
    exact List.forall_mem_append.mpr
      ⟨sound.sent, fun msg member => NetMsg.withinLimits_of_framed (framed msg member)⟩
  · rcases queue with queue | ⟨queue, -⟩ <;> rw [queue]
    · exact (List.length_drop _ _ ▸ Nat.sub_le _ _).trans sound.queued
    · exact sound.queued
  · rw [pass.version]
    exact sound.version
  · rw [pass.connected, pass.version]
    exact sound.connected

end Handling

end XuezNet
