import XuezNet.Foundation.StdMap
import XuezNet.Protocol.Primitives

/-! # The connection side of a peer

`CNode` is the connection manager's record of one peer: the handshake fields,
the queues of received and outgoing messages, and the inventory, address and
request queues that `SendMessages` drains. The members of `CNode` that the peer
logic calls (`PushMessage`, `PushInventory`, `AddInventoryKnown`, `AskFor`,
`PushAddress`) live in `net.h`, which is not under `src/`; they are modelled
from the spec. The rolling filters `filterInventoryKnown`, `addrKnown` and
`filterServiceDataKnown` are modelled as exact sets.

Messages built from a queue flush in chunks (`chunkPush`): an item is added and
the message is pushed once the chunk reaches its size.
-/

namespace XuezNet

/-- The body of a received message: a payload that parses, or the command of one
whose payload throws on the first read. -/
inductive Received
  | wellFormed (msg : NetMsg)
  | malformed (command : Command)
  deriving DecidableEq, Repr

/-- The command a received message carries. -/
def Received.command : Received → Command
  | .wellFormed msg => msg.command
  | .malformed command => command

/-- `CNetMessage`: a received message with the outcome of the transport's header
checks (message start, header validity, checksum) and its arrival time. -/
structure CNetMessage where
  fMessageStartOk : Bool
  fHeaderValid : Bool
  fChecksumOk : Bool
  body : Received
  nTime : Int
  deriving DecidableEq, Repr

/-- **`CNode`**, as the peer logic reads and writes it. `vSendMsg` is the list of
messages pushed to the peer, oldest first; `fHasFilter` is `pfilter != NULL`.
The ghost logs `getDataRequested` and `getDataServed` list every item a
`GETDATA` queued and every item `ProcessGetData` handled, in order; no code reads
them. -/
structure CNode where
  id : NodeId
  fInbound : Bool
  fWhitelisted : Bool
  fOneShot : Bool
  fFeeler : Bool
  fAddnode : Bool
  nServicesExpected : Nat
  nLocalServices : Nat
  nVersion : Int
  nSendVersion : Int
  nRecvVersion : Int
  nServices : Nat
  strSubVer : String
  nStartingHeight : Int
  fClient : Bool
  fRelayTxes : Bool
  fGetAddr : Bool
  fSentAddr : Bool
  fSuccessfullyConnected : Bool
  fDisconnect : Bool
  nTimeOffset : Int
  hashContinue : Hash
  fHasFilter : Bool
  vRecvGetData : List CInv
  vProcessMsg : List CNetMessage
  vSendMsg : List NetMsg
  filterInventoryKnown : StdSet Hash
  filterServiceDataKnown : StdSet Hash
  setInventoryTxToSend : StdSet Hash
  setInventoryStxToSend : StdSet Hash
  vInventoryBlockToSend : List Hash
  vBlockHashesToAnnounce : List Hash
  vAddrToSend : List CAddress
  addrKnown : StdSet Nat
  setAskFor : StdSet Hash
  mapAskFor : List (Int × CInv)
  nNextAddrSend : Int
  nNextInvSend : Int
  nNextLocalAddrSend : Int
  fPingQueued : Bool
  nPingNonceSent : Nat
  nPingUsecStart : Int
  nPingUsecTime : Int
  nMinPingUsecTime : Int
  nLastTXTime : Int
  getDataRequested : List CInv
  getDataServed : List CInv

namespace CNode

/-- Modelled from the spec: a new connection, before any message. -/
def connect (id : NodeId) (fInbound fWhitelisted fOneShot fFeeler fAddnode : Bool)
    (nServicesExpected nLocalServices : Nat) : CNode where
  id := id
  fInbound := fInbound
  fWhitelisted := fWhitelisted
  fOneShot := fOneShot
  fFeeler := fFeeler
  fAddnode := fAddnode
  nServicesExpected := nServicesExpected
  nLocalServices := nLocalServices
  nVersion := 0
  nSendVersion := 0
  nRecvVersion := 0
  nServices := 0
  strSubVer := ""
  nStartingHeight := -1
  fClient := false
  fRelayTxes := false
  fGetAddr := false
  fSentAddr := false
  fSuccessfullyConnected := false
  fDisconnect := false
  nTimeOffset := 0
  hashContinue := 0
  fHasFilter := false
  vRecvGetData := []
  vProcessMsg := []
  vSendMsg := []
  filterInventoryKnown := ∅
  filterServiceDataKnown := ∅
  setInventoryTxToSend := ∅
  setInventoryStxToSend := ∅
  vInventoryBlockToSend := []
  vBlockHashesToAnnounce := []
  vAddrToSend := []
  addrKnown := ∅
  setAskFor := ∅
  mapAskFor := []
  nNextAddrSend := 0
  nNextInvSend := 0
  nNextLocalAddrSend := 0
  fPingQueued := false
  nPingNonceSent := 0
  nPingUsecStart := 0
  nPingUsecTime := 0
  nMinPingUsecTime := 0
  nLastTXTime := 0
  getDataRequested := []
  getDataServed := []

variable (node : CNode)

/-- Modelled from the spec: `connman.PushMessage(pnode, msg)` queues the message
for the peer. -/
def pushMessage (msg : NetMsg) : CNode := { node with vSendMsg := node.vSendMsg ++ [msg] }

/-- Modelled from the spec: `AddInventoryKnown(inv)` records that the peer knows
the object. -/
def addInventoryKnown (inv : CInv) : CNode :=
  { node with filterInventoryKnown := node.filterInventoryKnown.insert inv.hash () }

/-- Modelled from the spec: `PushInventory(inv)` queues an announcement: a
transaction or service transaction the peer is not known to have, or a block. -/
def pushInventory (inv : CInv) : CNode :=
  match inv.type with
  | .tx =>
      if node.filterInventoryKnown.contains inv.hash then node
      else { node with setInventoryTxToSend := node.setInventoryTxToSend.insert inv.hash () }
  | .stx =>
      if node.filterInventoryKnown.contains inv.hash then node
      else { node with setInventoryStxToSend := node.setInventoryStxToSend.insert inv.hash () }
  | .block => { node with vInventoryBlockToSend := node.vInventoryBlockToSend ++ [inv.hash] }
  | _ => node

/-- Insert a request into a time-ordered multimap, after the requests of the same
time. -/
def insertByTime (entry : Int × CInv) : List (Int × CInv) → List (Int × CInv)
  | [] => [entry]
  | head :: rest => if entry.1 < head.1 then entry :: head :: rest else head :: insertByTime entry rest

/-- Modelled from the spec: `AskFor(inv)` schedules one request for an object at
the earliest request time `nRequestTime`; a second request for the same hash is
ignored. -/
def askFor (inv : CInv) (nRequestTime : Int) : CNode :=
  if node.setAskFor.contains inv.hash then node
  else { node with
    setAskFor := node.setAskFor.insert inv.hash ()
    mapAskFor := insertByTime (nRequestTime, inv) node.mapAskFor }

/-- Modelled from the spec: `PushAddress(addr)` queues an address the peer is not
known to have. -/
def pushAddress (addr : CAddress) : CNode :=
  if node.addrKnown.contains addr.key then node
  else { node with vAddrToSend := node.vAddrToSend ++ [addr] }

/-- Modelled from the spec: `PushBlockHash(hash)` queues a block to announce. -/
def pushBlockHash (hash : Hash) : CNode :=
  { node with vBlockHashesToAnnounce := node.vBlockHashesToAnnounce ++ [hash] }

@[simp] theorem pushMessage_vSendMsg (msg : NetMsg) :
    (node.pushMessage msg).vSendMsg = node.vSendMsg ++ [msg] := rfl

end CNode

/-- Add an item to the chunk being built, and push the chunk as a message once
it holds `limit` items. -/
def chunkPush {α : Type} (limit : Nat) (make : List α → NetMsg) (node : CNode) (chunk : List α)
    (item : α) : CNode × List α :=
  let chunk := chunk ++ [item]
  if chunk.length = limit then (node.pushMessage (make chunk), []) else (node, chunk)

/-- The variant of `chunkPush` that pushes once the chunk holds at least `limit`
items, as the `ADDR` and `GETDATA` loops of `SendMessages` test. -/
def chunkPushAtLeast {α : Type} (limit : Nat) (make : List α → NetMsg) (node : CNode)
    (chunk : List α) (item : α) : CNode × List α :=
  let chunk := chunk ++ [item]
  if limit ≤ chunk.length then (node.pushMessage (make chunk), []) else (node, chunk)

/-- Push what is left of a chunk, if anything. -/
def flushChunk {α : Type} (make : List α → NetMsg) (node : CNode) (chunk : List α) : CNode :=
  if chunk.isEmpty then node else node.pushMessage (make chunk)

end XuezNet
