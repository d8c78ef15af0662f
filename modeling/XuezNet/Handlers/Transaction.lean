import XuezNet.Node.PeerLogic

/-! # The transaction handler

`ProcessMessage` on `TX`, split at the three outcomes of its central test
`!AlreadyHave(inv) && AcceptToMemoryPool(...)`:

* accepted: relay the transaction, then walk the orphans that spend its
  outputs (`resolveOrphans`), accepting, punishing or dropping each, and erase
  the resolved ones at the end;
* missing inputs: unless a parent was recently rejected, ask for the parents
  and keep the transaction as an orphan, then trim the pool;
* anything else, including a transaction `AlreadyHave` reported: cache it in
  `recentRejects` and possibly force-relay it;

and the closing reply to an invalid transaction. Where the resolution loop's
`mapOrphanTransactions[orphanHash]` would insert a default entry, the model
returns `none`.
-/

namespace XuezNet

/-- The state of the orphan-resolution loop. -/
structure Resolution where
  logic : PeerLogic
  relays : List Relay
  vWorkQueue : List COutPoint
  setMisbehaving : StdSet NodeId
  vEraseQueue : List Hash

namespace Resolution

/-- The outputs of a transaction, as queued work. -/
def outputs (hash : Hash) (voutCount : Nat) : List COutPoint :=
  (List.range voutCount).map fun i => ⟨hash, i⟩

variable (env : Env)

/-- One orphan of the inner loop, once found: skip it if its peer already
misbehaved in this loop, else submit it and act on the verdict. -/
def resolveOrphan (res : Resolution) (orphan : COrphanTx) : Resolution :=
  if res.setMisbehaving.contains orphan.fromPeer then res
  else
    let verdict := env.atmp res.logic.mempool orphan.tx
    let orphanId := orphan.tx.hash
    if verdict.accepted then
      { res with
        logic := { res.logic with mempool := res.logic.mempool.insert orphanId () }
        relays := res.relays ++ [.tx orphanId]
        vWorkQueue := res.vWorkQueue ++ outputs orphanId orphan.tx.voutCount
        vEraseQueue := res.vEraseQueue ++ [orphanId] }
    else if !verdict.fMissingInputs then
      let punish := verdict.state.IsInvalid && decide (0 < verdict.state.nDoS)
      let logic := if punish then res.logic.misbehaving env orphan.fromPeer verdict.state.nDoS
        else res.logic
      { res with
        logic := if !verdict.state.corruptionPossible then logic.rejectsInsert env orphanId else logic
        setMisbehaving := if punish then res.setMisbehaving.insert orphan.fromPeer ()
          else res.setMisbehaving
        vEraseQueue := res.vEraseQueue ++ [orphanId] }
    else res

/-- The inner loop over the orphans listed under one parent. -/
def resolveChildren (res : Resolution) : List Hash → Option Resolution
  | [] => some res
  | orphanHash :: rest => do
      let orphan ← res.logic.orphans.mapOrphanTransactions.find? orphanHash
      resolveChildren (res.resolveOrphan env orphan) rest

/-- The outer loop: pop the front outpoint and walk the orphans listed under its
hash. `fuel` bounds the number of outpoints popped. -/
def resolveOrphans : Nat → Resolution → Option Resolution
  | 0, _ => none
  | fuel + 1, res =>
      match res.vWorkQueue with
      | [] => some res
      | out :: rest =>
          let res := { res with vWorkQueue := rest }
          (resolveChildren env res (res.logic.orphans.mapOrphanTransactionsByPrev.children out.hash)).bind
            (resolveOrphans fuel)

end Resolution

namespace Handling

variable (env : Env)

/-- Enough outpoints for the resolution loop: those of the transaction and of
every orphan, each of which can be accepted once. -/
def resolutionFuel (logic : PeerLogic) (tx : CTransaction) : Nat :=
  tx.voutCount + logic.orphans.mapOrphanTransactions.entries.foldr (fun e total => e.2.tx.voutCount + total) 0 + 1

/-- The accepted branch: relay, resolve the orphans spending the transaction's
outputs, then erase the resolved orphans. -/
def accepted (h : Handling) (tx : CTransaction) : Option Handling := do
  let logic := { h.logic with mempool := h.logic.mempool.insert tx.hash () }
  let res ← Resolution.resolveOrphans env (resolutionFuel logic tx)
    ⟨logic, h.relays ++ [.tx tx.hash], Resolution.outputs tx.hash tx.voutCount, ∅, []⟩
  some { logic := { res.logic with
           orphans := res.vEraseQueue.foldl OrphanPool.eraseOrphanTx res.logic.orphans }
         node := { h.node with nLastTXTime := env.nTime }
         relays := res.relays }

/-- The rejected-parents test: look each parent up until one is found. -/
def rejectedParents (logic : PeerLogic) : List COutPoint → PeerLogic × Bool
  | [] => (logic, false)
  | txin :: rest =>
      let (logic, hit) := logic.rejectsContains env txin.hash
      if hit then (logic, true) else rejectedParents logic rest

/-- Ask for each parent the node does not have, after noting that the peer
knows it. -/
def askForParents (h : Handling) : List COutPoint → Handling
  | [] => h
  | txin :: rest =>
      let inv : CInv := ⟨.tx, txin.hash⟩
      let node := h.node.addInventoryKnown inv
      let (logic, fAlreadyHave) := h.logic.alreadyHave env inv
      let node := if fAlreadyHave then node else node.askFor inv env.nTimeMicros
      askForParents { h with logic, node } rest

/-- The missing-inputs branch. -/
def missingInputs (h : Handling) (tx : CTransaction) : Handling :=
  let (logic, fRejectedParents) := rejectedParents env h.logic tx.vin
  if !fRejectedParents then
    let h := askForParents env { h with logic } tx.vin
    let orphans := (h.logic.orphans.addOrphanTx tx h.node.id).1
    let nMaxOrphanTx := env.args.nMaxOrphanTx
    { h with logic := { h.logic with
        orphans := (orphans.limitOrphanTxSize nMaxOrphanTx env.randomHash).1 } }
  else { h with logic := logic.rejectsInsert env tx.hash }

/-- The branch for any other outcome: cache the rejection unless the transaction
may have been malleated, and force-relay for a whitelisted peer when asked to. -/
def otherFailure (h : Handling) (tx : CTransaction) (state : CValidationState) : Handling :=
  let logic := if !state.corruptionPossible then h.logic.rejectsInsert env tx.hash else h.logic
  let forceRelay := h.node.fWhitelisted && env.args.whitelistforcerelay &&
    (!state.IsInvalid || decide (state.nDoS = 0))
  { h with logic, relays := if forceRelay then h.relays ++ [.tx tx.hash] else h.relays }

/-- The closing reply: an invalid transaction gets a `REJECT` with an external
code, and its peer the DoS score. -/
def rejectInvalid (h : Handling) (tx : CTransaction) (state : CValidationState) : Handling :=
  if state.IsInvalid then
    let node := if 0 < state.chRejectCode ∧ state.chRejectCode < env.params.REJECT_INTERNAL then
        h.node.pushMessage (.reject .tx (state.chRejectCode % 256)
          (state.strRejectReason.take env.params.MAX_REJECT_MESSAGE_LENGTH) (some tx.hash))
      else h.node
    let logic := if 0 < state.nDoS then h.logic.misbehaving env h.node.id state.nDoS else h.logic
    { h with logic, node }
  else h

/-- **`ProcessMessage(TX)`.** -/
def processTx (h : Handling) (tx : CTransaction) : Option Handling :=
  if !env.fRelayTxes && (!h.node.fWhitelisted || !env.args.whitelistrelay) then some h
  else
    let inv : CInv := ⟨.tx, tx.hash⟩
    let node := h.node.addInventoryKnown inv
    let node := { node with setAskFor := node.setAskFor.erase inv.hash }
    let (logic, fAlreadyHave) := h.logic.alreadyHave env inv
    let h := { h with logic, node }
    if fAlreadyHave then
      some (rejectInvalid env (otherFailure env h tx CValidationState.fresh) tx CValidationState.fresh)
    else
      let verdict := env.atmp logic.mempool tx
      if verdict.accepted then
        (accepted env h tx).map fun h => rejectInvalid env h tx verdict.state
      else if verdict.fMissingInputs then
        some (rejectInvalid env (missingInputs env h tx) tx verdict.state)
      else some (rejectInvalid env (otherFailure env h tx verdict.state) tx verdict.state)

/-- An environment in which every transaction misses inputs. -/
def missingInputsEnv : Env where
  params := Params.sample
  chain := ChainView.single 1
  args := ⟨100, 100, true, false, false, none⟩
  nTime := 10
  nTimeMicros := 10000000
  nAdjustedTime := 10
  nTargetSpacing := 150
  SERVICE_UPGRADE_HARDFORK := 0
  fImporting := false
  fReindex := false
  fInitialBlockDownload := false
  fRelayTxes := true
  atmp _ _ := ⟨false, true, CValidationState.fresh⟩
  atmp_pooled _ := rfl
  haveCoinInCache _ := false
  stxExists _ := false
  randomHash _ := 0
  checkIncomingNonce _ := true
  nAddressCount := 0
  fListen := false
  advertisedAddress := none
  localNonce := 7
  nNodeStartingHeight := 0
  strSubVersion := ""
  outboundTargetReached := false
  blockProofEquivalentTime _ _ := 0
  readBlockFromDisk _ := none
  merkleMatches _ _ := []
  relevantTx _ _ := true
  acceptBlockHeader _ := ⟨false, none, CValidationState.fresh⟩
  acceptBlockHeader_indexed := nofun
  processNewBlock _ _ := CValidationState.fresh
  getRand _ := 1
  isReachable _ := true
  isRoutable _ := true
  addresses := []
  relayKey _ _ := 0
  checkServiceTransaction _ := .noPayment

/-- A peer `1` that has just connected, before any transaction. -/
def connectedPeer : Handling :=
  ⟨{ PeerLogic.initial ∅ with registry := Registry.empty.initializeNode 1 },
    CNode.connect 1 false false false false false 0 0, []⟩

/-- An orphan `20` spending the unknown parent `5`, and a child `30` spending it. -/
def orphanTx : CTransaction := ⟨20, [⟨5, 0⟩], 1, 100⟩

def childTx : CTransaction := ⟨30, [⟨20, 0⟩], 1, 100⟩

/-- An environment whose validator accepts a transaction once each parent is the
confirmed `5` or in the mempool, and answers one already in the mempool as
already known. -/
def acceptingEnv : Env :=
  { missingInputsEnv with
    atmp := fun mempool tx =>
      if mempool.contains tx.hash then ⟨false, false, ⟨.invalid, 0, 0x101, "txn-already-in-mempool", false⟩⟩
      else if tx.vin.all fun txin => txin.hash = 5 || mempool.contains txin.hash then
        ⟨true, false, CValidationState.fresh⟩
      else ⟨false, true, CValidationState.fresh⟩
    atmp_pooled := fun pooled => by simp only [pooled, if_true] }

/-- An environment over the active chain of the blocks `1` to `5`. -/
def lineEnv : Env := { missingInputsEnv with chain := ChainView.line 4, acceptBlockHeader_indexed := nofun }

/-- A transaction `40` with two outputs, spending the confirmed `5`, and an
orphan `50` spending its first output only. -/
def parentTx : CTransaction := ⟨40, [⟨5, 0⟩], 2, 100⟩

def spenderTx : CTransaction := ⟨50, [⟨40, 0⟩], 1, 100⟩

/-- The orphan `50` is submitted once per output of its parent `40`: the work
queue holds both outpoints of `40`, and each lists `50` under the parent's hash,
since the resolved orphans are erased only after the loop. The first submission
accepts it; the second finds it in the mempool, is answered as already known,
and puts it into `recentRejects` while it sits in the mempool. -/
theorem processTx_resubmits_orphan :
    ((processTx acceptingEnv connectedPeer spenderTx).bind fun first =>
      (processTx acceptingEnv first parentTx).map fun second =>
        (first.logic.orphans.mapOrphanTransactions.contains 50,
          second.logic.mempool.contains 50,
          second.logic.recentRejects.contains 50)) =
      some (true, true, true) := by
  decide

end Handling

end XuezNet
