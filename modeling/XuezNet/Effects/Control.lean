import XuezNet.System.Invariant

/-! # What the smaller branches do

`ADDR`, `SENDHEADERS`, `GETADDR`, `PONG`, the filter messages and `STX` move
the globals only by misbehavior scores and a write-back of the peer's
`fPreferHeaders`, and on their connection only remember addresses, set flags
and push a `REJECT`.
-/

namespace XuezNet

namespace Handling

variable {env : Env} {h h' : Handling}

theorem receiveAddress_moves (fRelayCandidate : Bool) (h : Handling) (addr : CAddress) :
    Moves env h (receiveAddress env fRelayCandidate h addr) := by
  unfold receiveAddress
  split_ifs
  · exact .refl h
  · exact .keep rfl (.update rfl rfl rfl rfl rfl rfl rfl rfl rfl)

theorem processAddr_moves (h : Handling) (vAddr : List CAddress) :
    Moves env h (processAddr env h vAddr).1 := by
  unfold processAddr
  by_cases flooded : 1000 < env.nAddressCount
  · rw [if_pos flooded]
  rw [if_neg flooded]
  by_cases oversized : 1000 < vAddr.length
  · rw [if_pos oversized]
    exact .step (.misbehaving _ _)
  rw [if_neg oversized]
  refine (Runs.foldl (receiveAddress_moves _) vAddr h).trans (.keep rfl ?_)
  dsimp only
  split_ifs <;> exact .update rfl rfl rfl rfl rfl rfl rfl rfl rfl

theorem processSendHeaders_moves (ran : processSendHeaders h = some h') : Moves env h h' := by
  unfold processSendHeaders at ran
  cases found : h.logic.registry.state h.node.id with
  | none => simp [found] at ran
  | some nodeState =>
      simp only [found, Option.bind_eq_bind, Option.some_bind, Option.some.injEq] at ran
      subst ran
      exact .step (.setFields found ⟨rfl, rfl, rfl, rfl, rfl⟩)

theorem processGetAddr_moves (h : Handling) : Moves env h (processGetAddr env h) := by
  unfold processGetAddr
  split_ifs
  · exact .refl h
  · refine .frame ?_
    have each : ∀ (addrs : List CAddress) (node : CNode),
        NodeFrame NetMsg.framed node (addrs.foldl CNode.pushAddress node) := by
      intro addrs
      induction addrs with
      | nil => exact fun node => .refl node
      | cons addr rest ih => exact fun node => (NodeFrame.pushAddress node addr).trans (ih _)
    have cleared : NodeFrame NetMsg.framed h.node { h.node with fSentAddr := true, vAddrToSend := [] } :=
      .update rfl rfl rfl rfl rfl rfl rfl rfl rfl
    exact cleared.trans (each _ _)

theorem processPong_moves (h : Handling) (pingUsecEnd : Int) (nonce : Option Nat) :
    Moves env h (processPong h pingUsecEnd nonce) := by
  unfold processPong
  split
  · exact .frame (.update rfl rfl rfl rfl rfl rfl rfl rfl rfl)
  · dsimp only
    split_ifs <;> first | exact .refl h | exact .frame (.update rfl rfl rfl rfl rfl rfl rfl rfl rfl)

theorem processFilterLoad_moves (h : Handling) (withinSizeConstraints : Bool) :
    Moves env h (processFilterLoad env h withinSizeConstraints) := by
  unfold processFilterLoad
  split_ifs
  · exact .frame (.update rfl rfl rfl rfl rfl rfl rfl rfl rfl)
  · exact (Runs.step (.misbehaving _ _)).trans (.frame (.update rfl rfl rfl rfl rfl rfl rfl rfl rfl))

theorem processFilterAdd_moves (h : Handling) (size : Nat) :
    Moves env h (processFilterAdd env h size) := by
  unfold processFilterAdd
  split_ifs
  · exact .step (.misbehaving _ _)
  · exact .refl h

theorem processFilterClear_moves (h : Handling) : Moves env h (processFilterClear h) :=
  .frame (.update rfl rfl rfl rfl rfl rfl rfl rfl rfl)

theorem processStx_moves (h : Handling) (hash : Hash) : Moves env h (processStx env h hash).1 := by
  unfold processStx
  split
  · exact .refl h
  · exact .refl h
  · exact .keep rfl (.refl h.node)
  · dsimp only
    split_ifs <;> first
      | exact .refl h
      | exact ⟨.single (.misbehaving _ _), .push h.node rfl⟩
      | exact ⟨.refl, .push h.node rfl⟩
      | exact ⟨.single (.misbehaving _ _), .refl h.node⟩

/-! ## What `ADDR` relays -/

section Addr

variable (env)

/-- An address the `ADDR` branch may relay: it has the required services, a
time the branch did not have to correct, within ten minutes of now, and it is
routable. -/
def Relayable (addr : CAddress) : Prop :=
  Nat.land addr.nServices env.params.REQUIRED_SERVICES = env.params.REQUIRED_SERVICES ∧
    100000000 < addr.nTime ∧ env.nAdjustedTime - 10 * 60 < addr.nTime ∧ addr.nTime ≤ env.nAdjustedTime + 10 * 60 ∧
    env.isRoutable addr = true

/-- One address of the `ADDR` loop relays at most itself, only when it is
relayable, the message is short and the peer was not asked for addresses; the
peer then knows its key when it has the required services. -/
theorem receiveAddress_relays (fRelayCandidate : Bool) (h : Handling) (addr : CAddress) :
    ∃ relayed : List CAddress,
      (receiveAddress env fRelayCandidate h addr).relays =
        h.relays ++ relayed.map (fun addr => .address addr (env.isReachable addr)) ∧
      relayed.Sublist [addr] ∧ (relayed = [] ∨ fRelayCandidate = true ∧ h.node.fGetAddr = false) ∧
      (∀ addr ∈ relayed, Relayable env addr) ∧
      (receiveAddress env fRelayCandidate h addr).node =
        if Nat.land addr.nServices env.params.REQUIRED_SERVICES = env.params.REQUIRED_SERVICES then
          { h.node with addrKnown := h.node.addrKnown.insert addr.key () }
        else h.node := by
  unfold receiveAddress
  by_cases required : Nat.land addr.nServices env.params.REQUIRED_SERVICES = env.params.REQUIRED_SERVICES
  swap
  · rw [if_pos required, if_neg required]
    exact ⟨[], by simp, List.nil_sublist _, .inl rfl, by simp, rfl⟩
  rw [if_neg (not_not.mpr required), if_pos required]
  dsimp only
  split_ifs with clamp relay relay
  · have stale : ¬env.nAdjustedTime - 10 * 60 < env.nAdjustedTime - 5 * 24 * 60 * 60 := by omega
    simp [stale] at relay
  · exact ⟨[], by simp, List.nil_sublist _, .inl rfl, by simp, rfl⟩
  · simp only [Bool.and_eq_true, decide_eq_true_eq, Bool.not_eq_true'] at relay
    obtain ⟨⟨⟨fresh, unasked⟩, candidate⟩, routable⟩ := relay
    refine ⟨[addr], rfl, .refl _, .inr ⟨candidate, unasked⟩, fun other member => ?_, rfl⟩
    obtain rfl := List.mem_singleton.mp member
    exact ⟨required, by omega, fresh, by omega, routable⟩
  · exact ⟨[], by simp, List.nil_sublist _, .inl rfl, by simp, rfl⟩

/-- The `ADDR` loop relays a part of the message, only relayable addresses and
only from a short message to a peer not asked for addresses; the peer then
knows exactly its earlier keys and those of the addresses with the required
services, and nothing else of the connection changes. -/
theorem foldl_receiveAddress (fRelayCandidate : Bool) :
    ∀ (vAddr : List CAddress) (h : Handling), ∃ relayed : List CAddress,
      (vAddr.foldl (receiveAddress env fRelayCandidate) h).relays =
        h.relays ++ relayed.map (fun addr => .address addr (env.isReachable addr)) ∧
      relayed.Sublist vAddr ∧ (relayed = [] ∨ fRelayCandidate = true ∧ h.node.fGetAddr = false) ∧
      (∀ addr ∈ relayed, Relayable env addr) ∧
      (vAddr.foldl (receiveAddress env fRelayCandidate) h).node =
        { h.node with addrKnown := (vAddr.foldl (receiveAddress env fRelayCandidate) h).node.addrKnown } ∧
      ∀ key, (vAddr.foldl (receiveAddress env fRelayCandidate) h).node.addrKnown.contains key = true ↔
        h.node.addrKnown.contains key = true ∨
          ∃ addr ∈ vAddr, Nat.land addr.nServices env.params.REQUIRED_SERVICES = env.params.REQUIRED_SERVICES ∧
            addr.key = key
  | [], h => ⟨[], by simp, .slnil, .inl rfl, by simp, rfl, by simp⟩
  | addr :: rest, h => by
      obtain ⟨first, relays, sub, cond, relayable, node⟩ := receiveAddress_relays env fRelayCandidate h addr
      obtain ⟨later, relays', sub', cond', relayable', node', known⟩ :=
        foldl_receiveAddress fRelayCandidate rest (receiveAddress env fRelayCandidate h addr)
      have kept : (receiveAddress env fRelayCandidate h addr).node =
          { h.node with addrKnown := (receiveAddress env fRelayCandidate h addr).node.addrKnown } := by
        rw [node]
        split_ifs <;> rfl
      rw [kept] at cond'
      refine ⟨first ++ later, ?_, sub.append sub', ?_, ?_, ?_, fun key => ?_⟩
      · rw [List.foldl_cons, relays', relays, List.map_append, List.append_assoc]
      · rcases cond with rfl | asked
        · exact cond'
        · exact .inr asked
      · simpa only [List.mem_append] using fun addr member => member.elim (relayable addr) (relayable' addr)
      · rw [List.foldl_cons, node', kept]
      · rw [List.foldl_cons, known key, node]
        split_ifs with required
        · simp only [StdMap.contains_insert, Bool.or_eq_true, decide_eq_true_eq, List.mem_cons,
            exists_eq_or_imp, required, true_and]
          rw [eq_comm, or_assoc, or_left_comm]
        · simp only [List.mem_cons, exists_eq_or_imp, required, false_and, false_or]

end Addr

end Handling

end XuezNet
