import Mathlib.Data.List.Basic

/-! # Wire values of the peer logic

The values that `messages.cpp` reads from and writes to the network: hashes,
inventory entries, transactions, block headers, validation outcomes and the
messages pushed to a peer. Serialization is out of scope, so every value is
kept at the level of detail the message handlers inspect.

A `uint256` is an opaque blob compared with `memcmp`; it is modelled as a
natural number, a totally ordered key whose null value (`IsNull`) is `0`.
-/

namespace XuezNet

/-- `uint256`: a 256-bit opaque blob, ordered as `std::map` orders it; `0` is the
null blob. -/
abbrev Hash := Nat

/-- `NodeId`: the connection manager's peer number; `-1` stands for no peer. -/
abbrev NodeId := Int

/-- The inventory kinds the handlers distinguish (`MSG_TX`, `MSG_BLOCK`,
`MSG_FILTERED_BLOCK`, `MSG_STX`); `other` is any type code none of them equals. -/
inductive InvType
  | tx
  | block
  | filteredBlock
  | stx
  | other
  deriving DecidableEq, Repr

/-- `CInv`: an announced or requested object. -/
structure CInv where
  type : InvType
  hash : Hash
  deriving DecidableEq, Repr

/-- `COutPoint`: the output a transaction input spends. -/
structure COutPoint where
  hash : Hash
  n : Nat
  deriving DecidableEq, Repr

/-- `CTransaction`, as the handlers see it: its hash (`GetHash() = GetId()`), the
outpoints its inputs spend, its number of outputs and its serialized size. -/
structure CTransaction where
  hash : Hash
  vin : List COutPoint
  voutCount : Nat
  size : Nat
  deriving DecidableEq, Repr

/-- `CAddress`: a peer address with its key (`GetKey`), services and timestamp. -/
structure CAddress where
  key : Nat
  nServices : Nat
  nTime : Int
  deriving DecidableEq, Repr

/-- `CBlockHeader`: the hash of the header and of its parent. -/
structure CBlockHeader where
  hash : Hash
  hashPrevBlock : Hash
  deriving DecidableEq, Repr

/-- `CBlock`: a header with its transactions. -/
structure CBlock where
  header : CBlockHeader
  vtx : List CTransaction
  deriving DecidableEq, Repr

/-- The three modes of a `CValidationState`. -/
inductive ValidationMode
  | valid
  | invalid
  | error
  deriving DecidableEq, Repr

/-- `CValidationState`: a validator's verdict with its DoS score and reject code. -/
structure CValidationState where
  mode : ValidationMode
  nDoS : Int
  chRejectCode : Nat
  strRejectReason : String
  corruptionPossible : Bool
  deriving DecidableEq, Repr

namespace CValidationState

/-- A default-constructed state: valid, code `0`, no corruption flag. -/
def fresh : CValidationState := ⟨.valid, 0, 0, "", false⟩

/-- `IsInvalid(nDoS)`: whether the verdict is invalid; `nDoS` receives the score. -/
def IsInvalid (state : CValidationState) : Bool := state.mode = .invalid

end CValidationState

/-- Reject code for a message that fails to parse. -/
def REJECT_MALFORMED : Nat := 0x01

/-- Reject code for a duplicate message. -/
def REJECT_DUPLICATE : Nat := 0x12

/-- Reject code for an obsolete protocol version. -/
def REJECT_OBSOLETE : Nat := 0x11

/-- Reject code for a non-standard message. -/
def REJECT_NONSTANDARD : Nat := 0x40

/-- Modelled from the spec: `MAX_INV_SZ`, the largest inventory a peer accepts. -/
def MAX_INV_SZ : Nat := 50000

/-- Modelled from the spec: `MAX_HEADERS_RESULTS`, the largest headers message. -/
def MAX_HEADERS_RESULTS : Nat := 2000

/-- Modelled from the spec: `MAX_BLOCKS_IN_TRANSIT_PER_PEER`. -/
def MAX_BLOCKS_IN_TRANSIT_PER_PEER : Nat := 16

/-- The constants the peer logic reads from headers that are not under `src/`,
with the relations between them that it relies on: versions are positive, a
headers announcement is not empty and fits in a `HEADERS` message, and the codes
below `REJECT_INTERNAL` fit in the byte a `REJECT` carries. -/
structure Params where
  MIN_PROTO_VERSION : Int
  PROTOCOL_VERSION : Int
  NO_BLOOM_VERSION : Int
  SENDHEADERS_VERSION : Int
  NODE_NETWORK : Nat
  NODE_BLOOM : Nat
  REQUIRED_SERVICES : Nat
  MAX_BLOCKS_TO_ANNOUNCE : Nat
  INVENTORY_BROADCAST_MAX : Nat
  BLOCK_DOWNLOAD_WINDOW : Nat
  REJECT_INTERNAL : Nat
  MAX_REJECT_MESSAGE_LENGTH : Nat
  PING_INTERVAL : Int
  BLOCK_STALLING_TIMEOUT : Int
  BLOCK_DOWNLOAD_TIMEOUT_BASE : Int
  BLOCK_DOWNLOAD_TIMEOUT_PER_PEER : Int
  min_proto_pos : 0 < MIN_PROTO_VERSION
  no_bloom_pos : 0 < NO_BLOOM_VERSION
  announce_le : MAX_BLOCKS_TO_ANNOUNCE ≤ MAX_HEADERS_RESULTS
  announce_pos : 0 < MAX_BLOCKS_TO_ANNOUNCE
  reject_internal_le : REJECT_INTERNAL ≤ 256

/-- A choice of the header constants that satisfies their relations; the
concrete runs of this development use it. -/
def Params.sample : Params where
  MIN_PROTO_VERSION := 70000
  PROTOCOL_VERSION := 70015
  NO_BLOOM_VERSION := 70011
  SENDHEADERS_VERSION := 70012
  NODE_NETWORK := 1
  NODE_BLOOM := 4
  REQUIRED_SERVICES := 1
  MAX_BLOCKS_TO_ANNOUNCE := 8
  INVENTORY_BROADCAST_MAX := 35
  BLOCK_DOWNLOAD_WINDOW := 1024
  REJECT_INTERNAL := 256
  MAX_REJECT_MESSAGE_LENGTH := 111
  PING_INTERVAL := 2 * 60
  BLOCK_STALLING_TIMEOUT := 2
  BLOCK_DOWNLOAD_TIMEOUT_BASE := 1000000
  BLOCK_DOWNLOAD_TIMEOUT_PER_PEER := 500000
  min_proto_pos := by decide
  no_bloom_pos := by decide
  announce_le := by decide
  announce_pos := by decide
  reject_internal_le := by decide

/-- The commands the dispatcher compares `strCommand` with. -/
inductive Command
  | version
  | verack
  | addr
  | sendheaders
  | inv
  | getdata
  | notfound
  | getblocks
  | getheaders
  | headers
  | tx
  | stx
  | block
  | merkleblock
  | getaddr
  | mempool
  | ping
  | pong
  | filterload
  | filteradd
  | filterclear
  | reject
  | unknown
  deriving DecidableEq, Repr

/-- The fields of a `VERSION` message; the trailing ones are read only while the
stream has data left. -/
structure VersionPayload where
  nVersion : Int
  nServices : Nat
  nTime : Int
  addrMe : CAddress
  nNonce : Option Nat
  strSubVer : Option String
  nStartingHeight : Option Int
  fRelay : Option Bool
  deriving DecidableEq, Repr

/-- A message on the wire, in either direction, with the payload the handlers
read. A locator is the list of block hashes it carries. -/
inductive NetMsg
  | version (payload : VersionPayload)
  | verack
  | addr (vAddr : List CAddress)
  | sendheaders
  | inv (vInv : List CInv)
  | getdata (vInv : List CInv)
  | notfound (vInv : List CInv)
  | getblocks (locator : List Hash) (hashStop : Hash)
  | getheaders (locator : List Hash) (hashStop : Hash)
  | headers (vHeaders : List CBlockHeader)
  | tx (tx : CTransaction)
  | stx (hash : Hash)
  | block (block : CBlock)
  | merkleblock (hash : Hash)
  | getaddr
  | mempool
  | ping (nonce : Nat)
  | pong (nonce : Option Nat)
  | filterload (withinSizeConstraints : Bool)
  | filteradd (size : Nat)
  | filterclear
  | reject (command : Command) (code : Nat) (reason : String) (hash : Option Hash)
  deriving DecidableEq, Repr

/-- The command a message is sent under. -/
def NetMsg.command : NetMsg → Command
  | .version _ => .version
  | .verack => .verack
  | .addr _ => .addr
  | .sendheaders => .sendheaders
  | .inv _ => .inv
  | .getdata _ => .getdata
  | .notfound _ => .notfound
  | .getblocks _ _ => .getblocks
  | .getheaders _ _ => .getheaders
  | .headers _ => .headers
  | .tx _ => .tx
  | .stx _ => .stx
  | .block _ => .block
  | .merkleblock _ => .merkleblock
  | .getaddr => .getaddr
  | .mempool => .mempool
  | .ping _ => .ping
  | .pong _ => .pong
  | .filterload _ => .filterload
  | .filteradd _ => .filteradd
  | .filterclear => .filterclear
  | .reject _ _ _ _ => .reject

end XuezNet
