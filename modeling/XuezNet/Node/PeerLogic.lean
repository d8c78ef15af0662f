import XuezNet.Chain.BlockIndex
import XuezNet.Registry.Operations
import XuezNet.Orphans.Pool
import XuezNet.Node.Connection

/-! # The global state of the peer logic and its environment

`PeerLogic` gathers the globals of `messages.cpp` that the handlers share under
`cs_main`: the peer registry, the orphan pool, the recent-rejects filter and the
chain tip it was last reset under, `mapBlockSource`, and the relay map with its
expiry queue. The mempool's contents are kept beside them, since the
transaction handler both reads and grows them.

`Env` is what a handler reads from outside the peer logic: the chain, the
clocks, the command-line arguments, and the validation functions as oracles.

`recentRejects` is modelled as an exact set. Each entry and each lookup also
records the pair (`hashRecentRejectsChainTip`, active tip) at the time of the
access: ghost data that no code reads, kept to state when the filter is used.
-/

namespace XuezNet

/-- The outcome of `AcceptToMemoryPool`: accepted, rejected for missing inputs,
or rejected with a validation state. -/
structure AtmpResult where
  accepted : Bool
  fMissingInputs : Bool
  state : CValidationState
  deriving DecidableEq, Repr

/-- The outcome of `AcceptBlockHeader`: whether it succeeded, the index entry it
stored through its `ppindex` argument, if any, and the validation state. -/
structure HeaderVerdict where
  accepted : Bool
  pindex : Option Hash
  state : CValidationState
  deriving DecidableEq, Repr

/-- What `STX` finds for a service transaction: a null payment reference, no
payment transaction, or the verdict of `CheckServiceTransaction`. -/
inductive StxVerdict
  | nullReference
  | noPayment
  | checked (valid : Bool) (state : CValidationState)
  deriving DecidableEq, Repr

/-- The command-line arguments the peer logic reads. `dropmessagestest` is `none`
when the argument is not set. -/
structure Args where
  banscore : Int
  maxorphantx : Int
  whitelistrelay : Bool
  whitelistforcerelay : Bool
  enforcenodebloom : Bool
  dropmessagestest : Option Int
  deriving DecidableEq, Repr

/-- The orphan pool's bound as the `TX` branch reads `-maxorphantx`: clamped at
`0` as an `int64_t`, then cast to `unsigned int`. -/
def Args.nMaxOrphanTx (args : Args) : Nat := (max 0 args.maxorphantx).toNat % 4294967296

/-- **The environment of a handler.** `atmp` is `AcceptToMemoryPool` on the
current mempool: it never accepts a transaction the mempool already holds.
`randomHash n` is the `n`-th value of `GetRandHash()`. The connection manager's
answers are `checkIncomingNonce` (the nonce is not one of ours),
`nAddressCount` (`GetAddressCount()`) and `advertisedAddress` (the local address
the handshake advertises, if any); `localNonce`, `nNodeStartingHeight` and
`strSubVersion` fill our own `VERSION`. Serving blocks reads
`outboundTargetReached` (`OutboundTargetReached(true)`), `blockProofEquivalentTime`
(`GetBlockProofEquivalentTime` against the best header), `readBlockFromDisk`,
and `merkleMatches`, the transactions a peer's filter matches in a block;
`relevantTx` is the filter's `IsRelevantAndUpdate` for a mempool transaction.
The validation layer answers `acceptBlockHeader` and `processNewBlock`, whose
state changes to the chain are those of `chain` itself: the index already holds
every header `AcceptBlockHeader` returns (`acceptBlockHeader_indexed`).
`getRand n` is `GetRand(n)`; `isReachable` and `isRoutable` classify an address,
`addresses` is `GetAddresses()`, `relayKey addr id` the keyed hash `RelayAddress`
ranks connection `id` by for `addr`, and `checkServiceTransaction` is what `STX`
finds for a service transaction. -/
structure Env where
  params : Params
  chain : ChainView
  args : Args
  nTime : Int
  nTimeMicros : Int
  nAdjustedTime : Int
  nTargetSpacing : Int
  SERVICE_UPGRADE_HARDFORK : Int
  fImporting : Bool
  fReindex : Bool
  fInitialBlockDownload : Bool
  fRelayTxes : Bool
  atmp : StdSet Hash → CTransaction → AtmpResult
  atmp_pooled : ∀ {mempool tx}, mempool.contains tx.hash = true → (atmp mempool tx).accepted = false
  haveCoinInCache : COutPoint → Bool
  stxExists : Hash → Bool
  randomHash : Nat → Hash
  checkIncomingNonce : Nat → Bool
  nAddressCount : Nat
  fListen : Bool
  advertisedAddress : Option CAddress
  localNonce : Nat
  nNodeStartingHeight : Int
  strSubVersion : String
  outboundTargetReached : Bool
  blockProofEquivalentTime : Hash → Hash → Int
  readBlockFromDisk : Hash → Option CBlock
  merkleMatches : NodeId → CBlock → List CTransaction
  relevantTx : NodeId → Hash → Bool
  acceptBlockHeader : CBlockHeader → HeaderVerdict
  acceptBlockHeader_indexed : ∀ {header hash}, (acceptBlockHeader header).pindex = some hash →
    (chain.mapBlockIndex hash).isSome
  processNewBlock : CBlock → Bool → CValidationState
  getRand : Nat → Nat
  isReachable : CAddress → Bool
  isRoutable : CAddress → Bool
  addresses : List CAddress
  relayKey : CAddress → NodeId → Nat
  checkServiceTransaction : Hash → StxVerdict

/-- **The globals of the peer logic.** Each entry of `recentRejects` keeps the
ghost pair (`hashRecentRejectsChainTip`, active tip) it was inserted under;
`rejectsLookups` lists the same pair for every lookup, and the ghost log
`inFlightRequests` lists, for every `MarkBlockAsInFlight` of the message
handlers and of `SendMessages`, the hash and whether it was in flight at the
call. `nHighestFastAnnounce` is the function-static of `NewPoWValidBlock`. -/
structure PeerLogic where
  registry : Registry
  orphans : OrphanPool
  recentRejects : StdMap Hash (Hash × Hash)
  hashRecentRejectsChainTip : Hash
  rejectsLookups : List (Hash × Hash)
  mapBlockSource : StdMap Hash (NodeId × Bool)
  mapRelay : StdMap Hash CTransaction
  vRelayExpiration : List (Int × Hash)
  mempool : StdSet Hash
  inFlightRequests : List (Hash × Bool)
  nHighestFastAnnounce : Nat

/-- An announcement `RelayTransaction`, `RelayServiceTransaction` or
`RelayAddress` pushes to the other connections. -/
inductive Relay
  | tx (hash : Hash)
  | stx (hash : Hash)
  | address (addr : CAddress) (fReachable : Bool)
  deriving DecidableEq, Repr

/-- What a handler works on: the globals, the connection of the peer it serves,
and the announcements it queued for the connections. A relay reaches the other
connections' send queues only; the handler reads none of them, so the relays are
applied once it returns. -/
structure Handling where
  logic : PeerLogic
  node : CNode
  relays : List Relay

namespace PeerLogic

/-- The globals at start-up, before any peer connects. -/
def initial (mempool : StdSet Hash) : PeerLogic :=
  ⟨Registry.empty, OrphanPool.empty, ∅, 0, [], ∅, ∅, [], mempool, [], 0⟩

variable (env : Env) (logic : PeerLogic)

/-- `recentRejects->insert(hash)`. -/
def rejectsInsert (hash : Hash) : PeerLogic :=
  { logic with recentRejects :=
      logic.recentRejects.insert hash (logic.hashRecentRejectsChainTip, env.chain.tip) }

/-- `recentRejects->contains(hash)`. -/
def rejectsContains (hash : Hash) : PeerLogic × Bool :=
  ({ logic with rejectsLookups :=
      logic.rejectsLookups ++ [(logic.hashRecentRejectsChainTip, env.chain.tip)] },
    logic.recentRejects.contains hash)

/-- The reset at the head of `AlreadyHave(MSG_TX)`: when the tip moved, empty the
filter and remember the new tip. -/
def resetRejects : PeerLogic :=
  if env.chain.tip ≠ logic.hashRecentRejectsChainTip then
    { logic with hashRecentRejectsChainTip := env.chain.tip, recentRejects := ∅ }
  else logic

/-- `AlreadyHave(inv)`: whether the object is known. An unknown inventory type
counts as known. -/
def alreadyHave (inv : CInv) : PeerLogic × Bool :=
  match inv.type with
  | .tx =>
      let (logic, rejected) := (logic.resetRejects env).rejectsContains env inv.hash
      (logic, rejected || logic.mempool.contains inv.hash ||
        logic.orphans.mapOrphanTransactions.contains inv.hash ||
        env.haveCoinInCache ⟨inv.hash, 0⟩ || env.haveCoinInCache ⟨inv.hash, 1⟩)
  | .block => (logic, (env.chain.mapBlockIndex inv.hash).isSome)
  | .stx => (logic, env.stxExists inv.hash)
  | _ => (logic, true)

/-- `Misbehaving(nodeid, howmuch)` at the configured ban score, which it reads into
an `int`. -/
def misbehaving (nodeid : NodeId) (howmuch : Int) : PeerLogic :=
  { logic with registry := logic.registry.misbehaving nodeid howmuch (toInt32 env.args.banscore) }

/-- `MarkBlockAsInFlight(nodeid, hash, pindex)` at the environment's clock, with
its entry in the ghost log. -/
def markBlockAsInFlight (nodeid : NodeId) (hash : Hash) (pindex : Option Hash) :
    Option PeerLogic := do
  let registry ← logic.registry.markBlockAsInFlight nodeid hash pindex env.nTimeMicros
  some { logic with
    registry
    inFlightRequests := logic.inFlightRequests ++
      [(hash, logic.registry.mapBlocksInFlight.contains hash)] }

@[simp] theorem rejectsInsert_registry (hash : Hash) :
    (logic.rejectsInsert env hash).registry = logic.registry := rfl

@[simp] theorem rejectsContains_registry (hash : Hash) :
    (logic.rejectsContains env hash).1.registry = logic.registry := rfl

end PeerLogic

end XuezNet
