import XuezNet.Effects.Transaction
import XuezNet.Effects.Control
import XuezNet.Effects.Headers
import XuezNet.Effects.Handshake

/-! # What one call of the message thread does

`Handled` collects what the invariants of the node need from one call on a
connection: the globals move by primitive steps, the `GETDATA` messages it
pushes ask for pairwise distinct blocks none of which was in flight when the
call began, and the connection keeps its id and its invariant while the
interrupt goes from one reading to the next.

Every branch of `ProcessMessage` is `Handled` from a connection with an empty
`GETDATA` queue (`handleMessage_handled`), and so is the dispatcher with its
gates (`processMessage_handled`). `ProcessMessages` serves the queue first and
takes a message only once the queue is empty, which is what lets the branch of
`GETDATA` append to it (`processMessages_handled`).
-/

namespace XuezNet

/-- The reads of a message-thread call while the interrupt stays clear and no
send buffer is full. -/
def Reads.quiet : Reads := ⟨fun _ => false, fun _ => false, false, fun _ => false, fun _ => false, false⟩

namespace Handling

variable {env : Env} {h h' h'' : Handling}

/-- A part of a call that pushes no block request. -/
def Quiet (h h' : Handling) : Prop :=
  ∃ pushed, h'.node.vSendMsg = h.node.vSendMsg ++ pushed ∧ pushed.flatMap NetMsg.blocksRequested = []

theorem Quiet.ofFramed (sent : ∃ pushed, h'.node.vSendMsg = h.node.vSendMsg ++ pushed ∧ ∀ msg ∈ pushed, msg.framed) :
    Quiet h h' := by
  obtain ⟨pushed, sent, framed⟩ := sent
  refine ⟨pushed, sent, List.flatMap_eq_nil_iff.mpr fun msg member => ?_⟩
  have := framed msg member
  simp only [NetMsg.framed, Bool.and_eq_true, List.isEmpty_iff] at this
  exact this.2

theorem RequestsFresh.ofQuiet (quiet : Quiet h h') : RequestsFresh h h' := by
  obtain ⟨pushed, sent, none⟩ := quiet
  exact ⟨pushed, sent, by simp [none], by simp [none]⟩

/-- Messages asking for no block, pushed after a request path, keep its requests fresh. -/
theorem RequestsFresh.append_quiet (fresh : RequestsFresh h h') (quiet : Quiet h' h'') : RequestsFresh h h'' := by
  obtain ⟨pushed, sent, unique, before⟩ := fresh
  obtain ⟨pushed', sent', none⟩ := quiet
  refine ⟨pushed ++ pushed', by rw [sent', sent, List.append_assoc], ?_, ?_⟩ <;>
    simpa only [List.flatMap_append, none, List.append_nil]

/-- Messages asking for no block, pushed before a request path that releases no
request in between, keep its requests fresh. -/
theorem RequestsFresh.prepend_quiet (quiet : Quiet h h') (holds : h.logic.Holds h'.logic)
    (fresh : RequestsFresh h' h'') : RequestsFresh h h'' := by
  obtain ⟨pushed, sent, none⟩ := quiet
  obtain ⟨pushed', sent', unique, before⟩ := fresh
  refine ⟨pushed ++ pushed', by rw [sent', sent, List.append_assoc], ?_, fun hash member => ?_⟩
  · simpa only [List.flatMap_append, none, List.nil_append]
  · rw [List.flatMap_append, none, List.nil_append] at member
    cases found : h.logic.registry.mapBlocksInFlight.find? hash with
    | none => rfl
    | some entry =>
        have := @holds hash (by rw [found]; rfl)
        rw [before hash member] at this
        cases this

/-- **What one call on a connection does**, as the invariants of the node need
it, the interrupt read `fInterrupted` before the call and `fInterrupted'` after. -/
structure Handled (env : Env) (fInterrupted fInterrupted' : Bool) (h h' : Handling) : Prop where
  logic : LogicMoves env h.logic h'.logic
  fresh : RequestsFresh h h'
  id : h'.node.id = h.node.id
  sound : h.node.Sound env.params fInterrupted → h'.node.Sound env.params fInterrupted'

namespace Handled

variable {fInterrupted fInterrupted' fInterrupted'' : Bool}

/-- A handler other than a request path. -/
theorem ofMoves (moves : Moves env h h') (raised : fInterrupted = true → fInterrupted' = true) :
    Handled env fInterrupted fInterrupted' h h' :=
  ⟨moves.logic, .ofQuiet (moves.blocksRequested), moves.node.keeps.id,
    fun sound => (moves.node.sound (fun _ => NetMsg.withinLimits_of_framed) sound).raise raised⟩

/-- A request path. -/
theorem ofFetches {pending' : List Hash} (fetches : Fetches env [] h pending' h')
    (raised : fInterrupted = true → fInterrupted' = true) : Handled env fInterrupted fInterrupted' h h' :=
  ⟨fetches.runs.logic.mono fun _ _ step => step.1, fetches.requestsFresh, fetches.runs.node.keeps.id,
    fun sound => (fetches.runs.node.sound (fun _ within => within) sound).raise raised⟩

/-- A handshake branch. -/
theorem ofHandshake (logic : LogicMoves env h.logic h'.logic) (node : NodeHandshake env.params h.node h'.node)
    (raised : fInterrupted = true → fInterrupted' = true) : Handled env fInterrupted fInterrupted' h h' :=
  ⟨logic, .ofQuiet (.ofFramed node.sent), node.id, fun sound => (node.sound sound).raise raised⟩

/-- A part that only pushes messages within the frame after a call. -/
theorem append (first : Handled env fInterrupted fInterrupted' h h') (second : Moves env h' h'') :
    Handled env fInterrupted fInterrupted' h h'' :=
  ⟨first.logic.trans second.logic, first.fresh.append_quiet second.blocksRequested,
    second.node.keeps.id.trans first.id,
    fun sound => second.node.sound (fun _ => NetMsg.withinLimits_of_framed) (first.sound sound)⟩

/-- A quiet part that releases no request, then a call. -/
theorem trans (first : Handled env fInterrupted fInterrupted' h h') (quiet : Quiet h h')
    (holds : h.logic.Holds h'.logic) (second : Handled env fInterrupted' fInterrupted'' h' h'') :
    Handled env fInterrupted fInterrupted'' h h'' :=
  ⟨first.logic.trans second.logic, .prepend_quiet quiet holds second.fresh, second.id.trans first.id,
    second.sound ∘ first.sound⟩

end Handled

/-- **The shapes of a branch of `ProcessMessage`**, by the command it serves:
`VERSION`, `VERACK`, a request path, the pass of `GETDATA` over the items it
queued, or a handler that only moves the globals and pushes within the frame. -/
inductive Branch (env : Env) (interrupted : Nat → Bool) (h h' : Handling) : Command → Prop
  | version {payload : VersionPayload} {fRet : Bool} (ran : processVersion env h payload = some (h', fRet)) :
      Branch env interrupted h h' .version
  | verack (ran : processVerack env h = some h') : Branch env interrupted h h' .verack
  | fetches {command : Command} {pending' : List Hash} (fetches : Fetches env [] h pending' h') :
      Branch env interrupted h h' command
  | pass {command : Command} {vInv : List CInv} (within : vInv.length ≤ MAX_INV_SZ)
      (pass : GetDataPass interrupted { h with node := { h.node with
        vRecvGetData := h.node.vRecvGetData ++ vInv
        getDataRequested := h.node.getDataRequested ++ vInv } } h') :
      Branch env interrupted h h' command
  | moves {command : Command} (moves : Moves env h h') : Branch env interrupted h h' command

/-- Every branch of `ProcessMessage` has one of the shapes of `Branch`, from a
registered peer with an empty queue. -/
theorem handleMessage_cases {reads : Reads} {nTimeReceived : Int} {outcome : Outcome} {msg : NetMsg}
    (registered : (h.logic.registry.state h.node.id).isSome) (empty : h.node.vRecvGetData = [])
    (ran : handleMessage env reads h nTimeReceived msg = some (h', outcome)) :
    Branch env reads.interruptedHandler h h' msg.command := by
  cases msg <;> dsimp only [handleMessage] at ran
  case version payload =>
    obtain ⟨⟨h₁, fRet⟩, branch, same⟩ := Option.map_eq_some'.mp ran
    cases same
    exact .version branch
  case verack =>
    obtain ⟨h₁, branch, same⟩ := Option.map_eq_some'.mp ran
    cases same
    exact .verack branch
  case inv vInv =>
    obtain ⟨⟨h₁, fRet⟩, branch, same⟩ := Option.map_eq_some'.mp ran
    cases same
    exact .fetches (processInv_fetches branch).choose_spec
  case getdata vInv =>
    obtain ⟨⟨h₁, fRet⟩, branch, same⟩ := Option.map_eq_some'.mp ran
    cases same
    rcases processGetDataMessage_pass empty branch with scored | ⟨within, pass⟩
    exacts [.moves scored, .pass within pass]
  case headers headers =>
    obtain ⟨⟨h₁, fRet⟩, branch, same⟩ := Option.map_eq_some'.mp ran
    cases same
    exact .fetches (processHeaders_fetches branch)
  case tx tx =>
    obtain ⟨h₁, branch, same⟩ := Option.map_eq_some'.mp ran
    cases same
    exact .moves (processTx_moves registered branch)
  case sendheaders =>
    obtain ⟨h₁, branch, same⟩ := Option.map_eq_some'.mp ran
    cases same
    exact .moves (processSendHeaders_moves branch)
  case getheaders locator hashStop =>
    obtain ⟨⟨h₁, fRet⟩, branch, same⟩ := Option.map_eq_some'.mp ran
    cases same
    exact .moves (processGetHeaders_moves branch)
  case block block =>
    obtain ⟨⟨h₁, fRet⟩, branch, same⟩ := Option.map_eq_some'.mp ran
    cases same
    exact .moves (processBlock_moves branch)
  case getaddr =>
    cases ran
    split_ifs
    exacts [.moves (processGetAddr_moves h), .moves (.refl h)]
  case addr vAddr => cases ran; exact .moves (processAddr_moves h vAddr)
  case getblocks locator hashStop => cases ran; exact .moves (processGetBlocks_moves h locator hashStop)
  case stx hash => cases ran; exact .moves (processStx_moves h hash)
  case mempool => cases ran; exact .moves (processMempool_moves h)
  case ping nonce => cases ran; exact .moves ⟨.refl, .push h.node rfl⟩
  case pong nonce => cases ran; exact .moves (processPong_moves h _ _)
  case filterload withinSizeConstraints => cases ran; exact .moves (processFilterLoad_moves h withinSizeConstraints)
  case filteradd size => cases ran; exact .moves (processFilterAdd_moves h size)
  case filterclear => cases ran; exact .moves (processFilterClear_moves h)
  case notfound | merkleblock | reject => cases ran; exact .moves (.refl h)

/-- A branch other than `VERSION` and `VERACK` keeps the handshake state. -/
theorem Branch.keeps {interrupted : Nat → Bool} {command : Command} (branch : Branch env interrupted h h' command)
    (other : command ≠ .version) (notVerack : command ≠ .verack) :
    h'.node.nVersion = h.node.nVersion ∧ h'.node.fSuccessfullyConnected = h.node.fSuccessfullyConnected := by
  cases branch with
  | version => exact absurd rfl other
  | verack => exact absurd rfl notVerack
  | fetches fetches => exact ⟨fetches.runs.node.keeps.version, fetches.runs.node.keeps.connected⟩
  | pass _ pass => exact ⟨pass.version, pass.connected⟩
  | moves moves => exact ⟨moves.node.keeps.version, moves.node.keeps.connected⟩

/-- The branch of a message whose payload throws leaves the connection as it
was, answers a second `VERSION`, or runs the branch of a message of its command. -/
theorem handleMalformed_cases {reads : Reads} {nTimeReceived : Int} {outcome : Outcome} {command : Command}
    (ran : handleMalformed env reads h nTimeReceived command = some (h', outcome)) :
    h' = h ∨ (command = .version ∧ h' = rejectDuplicateVersion env h) ∨
      ∃ msg : NetMsg, msg.command = command ∧ handleMessage env reads h nTimeReceived msg = some (h', outcome) := by
  cases command <;> simp only [handleMalformed] at ran
  case version => split_ifs at ran <;> cases ran <;> simp
  case verack | sendheaders | getaddr | mempool | filterclear | pong => exact .inr (.inr ⟨_, by rfl, ran⟩)
  case tx | headers | block => split_ifs at ran <;> cases ran <;> exact .inl rfl
  all_goals cases ran; exact .inl rfl

/-- **The gates of `ProcessMessage`**: the `-dropmessagestest` roll drops the
message, the `NODE_BLOOM` gate scores or refuses a filter message, the handshake
gate scores a message before the version is set, or the message reaches its
branch. -/
inductive Gate (env : Env) (reads : Reads) (h : Handling) (msg : CNetMessage) : Handling → Outcome → Prop
  | dropped (drop : dropped env = true) : Gate env reads h msg h (.returned true)
  | scored (scored : Nat.land h.node.nLocalServices env.params.NODE_BLOOM = 0 ∧ msg.body.command.isFilter = true ∧
        env.params.NO_BLOOM_VERSION ≤ h.node.nVersion) :
      Gate env reads h msg { h with logic := h.logic.misbehaving env h.node.id 100 } (.returned false)
  | refused (refused : Nat.land h.node.nLocalServices env.params.NODE_BLOOM = 0 ∧ msg.body.command.isFilter = true ∧
        env.args.enforcenodebloom = true) :
      Gate env reads h msg { h with node := { h.node with fDisconnect := true } } (.returned false)
  | unversioned (unversioned : msg.body.command ≠ .version ∧ h.node.nVersion = 0) :
      Gate env reads h msg { h with logic := h.logic.misbehaving env h.node.id 1 } (.returned false)
  | wellFormed {m : NetMsg} {h' : Handling} {outcome : Outcome}
      (versioned : msg.body.command ≠ .version → h.node.nVersion ≠ 0) (body : msg.body = .wellFormed m)
      (ran : handleMessage env reads h msg.nTime m = some (h', outcome)) : Gate env reads h msg h' outcome
  | malformed {command : Command} {h' : Handling} {outcome : Outcome}
      (versioned : msg.body.command ≠ .version → h.node.nVersion ≠ 0) (body : msg.body = .malformed command)
      (ran : handleMalformed env reads h msg.nTime command = some (h', outcome)) : Gate env reads h msg h' outcome

/-- Every call of `ProcessMessage` goes through one of its `Gate`s. -/
theorem processMessage_gates {reads : Reads} {outcome : Outcome} {msg : CNetMessage}
    (ran : processMessage env reads h msg = some (h', outcome)) : Gate env reads h msg h' outcome := by
  unfold processMessage at ran
  by_cases drop : dropped env = true
  · rw [if_pos drop] at ran
    cases ran
    exact .dropped drop
  rw [if_neg drop] at ran
  by_cases scored : Nat.land h.node.nLocalServices env.params.NODE_BLOOM = 0 ∧ msg.body.command.isFilter = true ∧
      env.params.NO_BLOOM_VERSION ≤ h.node.nVersion
  · rw [if_pos scored] at ran
    cases ran
    exact .scored scored
  rw [if_neg scored] at ran
  by_cases refused : Nat.land h.node.nLocalServices env.params.NODE_BLOOM = 0 ∧ msg.body.command.isFilter = true ∧
      env.args.enforcenodebloom = true
  · rw [if_pos refused] at ran
    cases ran
    exact .refused refused
  rw [if_neg refused] at ran
  by_cases unversioned : msg.body.command ≠ .version ∧ h.node.nVersion = 0
  · rw [if_pos unversioned] at ran
    cases ran
    exact .unversioned unversioned
  rw [if_neg unversioned] at ran
  have versioned : msg.body.command ≠ .version → h.node.nVersion ≠ 0 := fun other zero =>
    unversioned ⟨other, zero⟩
  split at ran
  · exact .wellFormed versioned ‹_› ran
  · exact .malformed versioned ‹_› ran

section Branches

variable {reads : Reads} {nTimeReceived : Int} {fInterrupted : Bool} {outcome : Outcome}
  (late : fInterrupted = false → ∀ n, reads.interruptedHandler n = false)
  (registered : (h.logic.registry.state h.node.id).isSome) (empty : h.node.vRecvGetData = [])
include late registered empty

/-- **Every branch of `ProcessMessage` is handled**, from a registered peer with
an empty queue whose version is set unless the branch is `VERSION`. -/
theorem handleMessage_handled {msg : NetMsg} (ran : handleMessage env reads h nTimeReceived msg = some (h', outcome))
    (versioned : msg.command ≠ .version → h.node.nVersion ≠ 0) : Handled env false fInterrupted h h' := by
  have branch := handleMessage_cases registered empty ran
  generalize msg.command = command at branch versioned
  cases branch with
  | version branch =>
      obtain ⟨logic, node⟩ := processVersion_handshake branch
      exact .ofHandshake logic node nofun
  | verack branch =>
      obtain ⟨logic, node⟩ := processVerack_handshake (versioned nofun) branch
      exact .ofHandshake logic node nofun
  | fetches fetches => exact .ofFetches fetches nofun
  | pass within pass =>
      exact ⟨by rw [pass.logic], .ofQuiet (.ofFramed pass.sent), pass.id,
        fun sound => pass.sound (sound.queueGetData empty within) nofun late⟩
  | moves moves => exact .ofMoves moves nofun

/-- The branch of a message whose payload throws is handled. -/
theorem handleMalformed_handled {command : Command}
    (ran : handleMalformed env reads h nTimeReceived command = some (h', outcome))
    (versioned : command ≠ .version → h.node.nVersion ≠ 0) :
    Handled env false fInterrupted h h' := by
  rcases handleMalformed_cases ran with rfl | ⟨-, rfl⟩ | ⟨msg, rfl, delegated⟩
  · exact .ofMoves (.refl _) nofun
  · exact .ofMoves (rejectDuplicateVersion_moves h) nofun
  · exact handleMessage_handled late registered empty delegated versioned

/-- **The dispatcher is handled**: its gates only score or disconnect the peer. -/
theorem processMessage_handled {msg : CNetMessage} (ran : processMessage env reads h msg = some (h', outcome)) :
    Handled env false fInterrupted h h' := by
  cases processMessage_gates ran with
  | dropped => exact .ofMoves (.refl h) nofun
  | scored | unversioned => exact .ofMoves ⟨.single (.misbehaving _ _), .refl h.node⟩ nofun
  | refused => exact .ofMoves (.frame (.update rfl rfl rfl rfl rfl rfl rfl rfl rfl)) nofun
  | wellFormed versioned body ran =>
      exact handleMessage_handled late registered empty ran (by simpa [Received.command, body] using versioned)
  | malformed versioned body ran =>
      exact handleMalformed_handled late registered empty ran (by simpa [Received.command, body] using versioned)

end Branches

/-- A branch past the handshake gate moves the handshake by a `HandshakeStep`. -/
theorem handleMessage_handshake {reads : Reads} {nTimeReceived : Int} {outcome : Outcome} {msg : NetMsg}
    (registered : (h.logic.registry.state h.node.id).isSome)
    (empty : h.node.vRecvGetData = []) (versioned : msg.command ≠ .version → h.node.nVersion ≠ 0)
    (ran : handleMessage env reads h nTimeReceived msg = some (h', outcome)) :
    HandshakeStep env.params msg.command h.node h'.node := by
  have branch := handleMessage_cases registered empty ran
  generalize msg.command = command at branch versioned
  cases branch with
  | version branch =>
      obtain ⟨-, node⟩ := processVersion_handshake branch
      refine ⟨fun changed => ?_, fun connected => .inl (processVersion_connected branch ▸ connected)⟩
      rcases node.version with same | ⟨zero, supported⟩
      exacts [absurd same changed, ⟨rfl, zero, supported⟩]
  | verack branch =>
      obtain ⟨-, node⟩ := processVerack_handshake (versioned nofun) branch
      exact ⟨fun changed => absurd (node.version.resolve_right fun ⟨zero, _⟩ => versioned nofun zero) changed,
        fun _ => .inr ⟨rfl, versioned nofun⟩⟩
  | fetches fetches => exact .ofKeeps fetches.runs.node.keeps.version fetches.runs.node.keeps.connected
  | pass _ pass => exact .ofKeeps pass.version pass.connected
  | moves moves => exact .ofKeeps moves.node.keeps.version moves.node.keeps.connected

/-- So does the branch of a message whose payload throws. -/
theorem handleMalformed_handshake {reads : Reads} {nTimeReceived : Int} {outcome : Outcome} {command : Command}
    (registered : (h.logic.registry.state h.node.id).isSome)
    (empty : h.node.vRecvGetData = []) (versioned : command ≠ .version → h.node.nVersion ≠ 0)
    (ran : handleMalformed env reads h nTimeReceived command = some (h', outcome)) :
    HandshakeStep env.params command h.node h'.node := by
  rcases handleMalformed_cases ran with rfl | ⟨-, rfl⟩ | ⟨msg, rfl, delegated⟩
  · exact .ofKeeps rfl rfl
  · exact .ofKeeps rfl rfl
  · exact handleMessage_handshake registered empty versioned delegated

/-- **The handshake gate of `ProcessMessage`**, for a message from a registered
peer with an empty queue: the message moves the handshake by a `HandshakeStep`.
A message the `-dropmessagestest` roll drops is not answered, not scored and
changes nothing. For a message it lets through, a `VERSION` once the version is
set is answered by `REJECT(duplicate)` and one point of misbehavior and nothing
else; any other message before the version is set only costs one point, or is
refused with a disconnect by the `NODE_BLOOM` gate. And `SendMessages` leaves a
connection that is not successfully connected alone. -/
theorem processMessage_handshake {reads : Reads} {outcome : Outcome} {msg : CNetMessage}
    (registered : (h.logic.registry.state h.node.id).isSome) (empty : h.node.vRecvGetData = [])
    (ran : processMessage env reads h msg = some (h', outcome)) :
    HandshakeStep env.params msg.body.command h.node h'.node ∧
    (dropped env = true → h' = h ∧ outcome = .returned true) ∧
    (dropped env = false → msg.body.command = .version → h.node.nVersion ≠ 0 →
      h' = rejectDuplicateVersion env h ∧ outcome = .returned false) ∧
    (dropped env = false → msg.body.command ≠ .version → h.node.nVersion = 0 →
      (h' = { h with logic := h.logic.misbehaving env h.node.id 1 } ∨
        h' = { h with node := { h.node with fDisconnect := true } }) ∧ outcome = .returned false) ∧
    (∀ tick, h.node.fSuccessfullyConnected = false → sendMessages env tick h = some h) := by
  have idle : ∀ tick, h.node.fSuccessfullyConnected = false → sendMessages env tick h = some h :=
    fun tick unconnected => by simp [sendMessages, unconnected]
  by_cases drop : dropped env = true
  · simp only [processMessage, drop, if_true, Option.some.injEq, Prod.mk.injEq] at ran
    obtain ⟨rfl, rfl⟩ := ran
    have kept : dropped env ≠ false := by simp [drop]
    exact ⟨.ofKeeps rfl rfl, fun _ => ⟨rfl, rfl⟩, (absurd · kept), (absurd · kept), idle⟩
  have passed : dropped env = true → h' = h ∧ outcome = .returned true := (absurd · drop)
  cases processMessage_gates ran with
  | dropped drop' => exact absurd drop' drop
  | scored scored =>
      refine ⟨.ofKeeps rfl rfl, passed, fun _ isVersion => ?_, fun _ _ zero => ?_, idle⟩
      · simp [isVersion, Command.isFilter] at scored
      · have bloomed := env.params.no_bloom_pos
        rw [zero] at scored
        omega
  | refused refused =>
      refine ⟨.ofKeeps rfl rfl, passed, fun _ isVersion => ?_, fun _ _ _ => ⟨.inr rfl, rfl⟩, idle⟩
      simp [isVersion, Command.isFilter] at refused
  | unversioned unversioned =>
      exact ⟨.ofKeeps rfl rfl, passed, fun _ isVersion => absurd isVersion unversioned.1,
        fun _ _ _ => ⟨.inl rfl, rfl⟩, idle⟩
  | @wellFormed m _ _ versioned body ran =>
      rw [body] at versioned ⊢
      refine ⟨handleMessage_handshake registered empty versioned ran, passed, fun _ isVersion set => ?_,
        fun _ other zero => absurd zero (versioned other), idle⟩
      cases m <;> simp only [Received.command, NetMsg.command, reduceCtorEq] at isVersion
      simp only [handleMessage, processVersion, set, ne_eq, not_false_eq_true, if_true, Option.map_some'] at ran
      cases ran
      exact ⟨rfl, rfl⟩
  | @malformed command _ _ versioned body ran =>
      rw [body] at versioned ⊢
      refine ⟨handleMalformed_handshake registered empty versioned ran, passed, fun _ isVersion set => ?_,
        fun _ other zero => absurd zero (versioned other), idle⟩
      cases isVersion
      simp only [handleMalformed, set, ne_eq, not_false_eq_true, if_true] at ran
      cases ran
      exact ⟨rfl, rfl⟩

/-- A run that drops every message, for `-dropmessagestest=2`. -/
def droppingEnv : Env :=
  { missingInputsEnv with args := ⟨100, 100, true, false, false, some 2⟩, getRand := fun _ => 0 }

/-- A `VERACK` before the version: let through, it costs a point; dropped, it
changes nothing. -/
theorem processMessage_handshake_unversioned :
    (∃ h' outcome, processMessage missingInputsEnv Reads.quiet connectedPeer
        ⟨true, true, true, .wellFormed .verack, 0⟩ = some (h', outcome) ∧
      HandshakeStep missingInputsEnv.params .verack connectedPeer.node h'.node ∧
      (dropped missingInputsEnv = true → h' = connectedPeer ∧ outcome = .returned true) ∧
      (dropped missingInputsEnv = false → Command.verack = .version → connectedPeer.node.nVersion ≠ 0 →
        h' = rejectDuplicateVersion missingInputsEnv connectedPeer ∧ outcome = .returned false) ∧
      (dropped missingInputsEnv = false → Command.verack ≠ .version → connectedPeer.node.nVersion = 0 →
        (h' = { connectedPeer with logic := connectedPeer.logic.misbehaving missingInputsEnv 1 1 } ∨
          h' = { connectedPeer with node := { connectedPeer.node with fDisconnect := true } }) ∧
          outcome = .returned false) ∧
      (∀ tick, connectedPeer.node.fSuccessfullyConnected = false →
        sendMessages missingInputsEnv tick connectedPeer = some connectedPeer)) ∧
    (∃ h' outcome, processMessage droppingEnv Reads.quiet connectedPeer
        ⟨true, true, true, .wellFormed .verack, 0⟩ = some (h', outcome) ∧ dropped droppingEnv = true ∧
      HandshakeStep droppingEnv.params .verack connectedPeer.node h'.node ∧
      (dropped droppingEnv = true → h' = connectedPeer ∧ outcome = .returned true)) :=
  ⟨⟨_, _, rfl, @processMessage_handshake missingInputsEnv connectedPeer _ Reads.quiet _
    ⟨true, true, true, .wellFormed .verack, 0⟩ rfl rfl rfl⟩,
   have dropping := @processMessage_handshake droppingEnv connectedPeer _ Reads.quiet _
    ⟨true, true, true, .wellFormed .verack, 0⟩ rfl rfl rfl
   ⟨_, _, rfl, rfl, dropping.1, dropping.2.1⟩⟩

/-- Pushing a peer's block rejects stays within the frame. -/
theorem pushRejects_frame : ∀ (rejects : List CBlockReject) (node : CNode), NodeFrame NetMsg.framed node
    (rejects.foldl (fun node reject => node.pushMessage
      (.reject .block reject.chRejectCode reject.strRejectReason (some reject.hashBlock))) node)
  | [], node => .refl node
  | _ :: rest, node => (NodeFrame.push node rfl).trans (pushRejects_frame rest _)

/-- Flushing the block rejects and acting on the ban flag writes back the peer's
other fields, releases and requests no block, and stays within the frame. -/
theorem sendRejectsAndCheckIfBanned_quiet {fBanned : Bool}
    (ran : sendRejectsAndCheckIfBanned h = some (h', fBanned)) :
    Runs (FetchStep env) NetMsg.framed h h' ∧ h'.logic.inFlightRequests = h.logic.inFlightRequests := by
  unfold sendRejectsAndCheckIfBanned at ran
  obtain ⟨state, found, ran⟩ := Option.bind_eq_some.mp ran
  cases ran
  refine ⟨⟨.single ⟨.setFields found ⟨rfl, rfl, rfl, rfl, rfl⟩, PeerLogic.Holds.of_eq rfl⟩, ?_⟩, rfl⟩
  split_ifs
  · exact (pushRejects_frame _ _).trans (.update rfl rfl rfl rfl rfl rfl rfl rfl rfl)
  · exact pushRejects_frame _ _

/-- The part of `ProcessMessages` after the message is taken is handled. -/
theorem processTaken_handled {reads : Reads} {fInterrupted : Bool} {msg : CNetMessage} {fMoreWork fMoreWork' : Bool}
    (late : fInterrupted = false → ∀ n, reads.interruptedHandler n = false)
    (registered : (h.logic.registry.state h.node.id).isSome) (empty : h.node.vRecvGetData = [])
    (ran : processTaken env reads h msg fMoreWork = some (h', fMoreWork')) : Handled env false fInterrupted h h' := by
  unfold processTaken at ran
  by_cases start : (!msg.fMessageStartOk) = true
  · rw [if_pos start] at ran
    cases ran
    exact .ofMoves (.frame (.update rfl rfl rfl rfl rfl rfl rfl rfl rfl)) nofun
  rw [if_neg start] at ran
  dsimp only [Option.pure_def, Option.bind_eq_bind, Option.some_bind] at ran
  by_cases corrupt : (!msg.fHeaderValid || !msg.fChecksumOk) = true
  · rw [if_pos corrupt] at ran
    cases ran
    exact .ofMoves (.refl h) nofun
  rw [if_neg corrupt] at ran
  obtain ⟨⟨h₁, outcome⟩, dispatched, ran⟩ := Option.bind_eq_some.mp ran
  have handled := processMessage_handled late registered empty dispatched
  cases outcome with
  | returned fRet =>
      by_cases stop : reads.interruptedAfter = true
      · rw [if_pos stop] at ran
        cases ran
        exact handled
      · rw [if_neg stop] at ran
        obtain ⟨⟨h₂, fBanned⟩, flushed, ran⟩ := Option.bind_eq_some.mp ran
        cases ran
        exact handled.append ((sendRejectsAndCheckIfBanned_quiet flushed).1.mono And.left id)
  | threw =>
      obtain ⟨⟨h₂, fBanned⟩, flushed, ran⟩ := Option.bind_eq_some.mp ran
      cases ran
      have rejected : Moves env h₁ { h₁ with
          node := h₁.node.pushMessage (.reject msg.body.command REJECT_MALFORMED "error parsing message" none) } :=
        .frame (.push _ rfl)
      exact (handled.append rejected).append ((sendRejectsAndCheckIfBanned_quiet flushed).1.mono And.left id)

/-- **`ProcessMessages` takes no new message while `GETDATA` items are queued**:
once the queue is served, a call that leaves items in it ends there. -/
theorem processMessages_waits {reads : Reads} {fMoreWork : Bool}
    (ran : processMessages env reads h = some (h', fMoreWork)) :
    ∃ h₁, serveQueued env reads h = some h₁ ∧ (h₁.node.vRecvGetData ≠ [] → h' = h₁) := by
  unfold processMessages at ran
  obtain ⟨h₁, served, ran⟩ := Option.bind_eq_some.mp ran
  refine ⟨h₁, served, fun pending => ?_⟩
  dsimp only [Option.pure_def, Option.bind_eq_bind, Option.some_bind] at ran
  by_cases disconnect : h₁.node.fDisconnect = true
  · rw [if_pos disconnect] at ran
    cases ran
    rfl
  rw [if_neg disconnect, if_pos (by simpa using pending)] at ran
  cases ran
  rfl

/-- **One call of the message thread on a connection is handled**, for a
registered peer whose queue is within its bound, the reads of the interrupt
agreeing with the flag before and after the call. -/
theorem processMessages_handled {reads : Reads} {fInterrupted fInterrupted' fMoreWork : Bool}
    (allowed : reads.Allowed fInterrupted fInterrupted') (registered : (h.logic.registry.state h.node.id).isSome)
    (queued : h.node.vRecvGetData.length ≤ MAX_INV_SZ) (ran : processMessages env reads h = some (h', fMoreWork)) :
    Handled env fInterrupted fInterrupted' h h' := by
  obtain ⟨early, late⟩ := allowed
  unfold processMessages at ran
  obtain ⟨h₁, served, ran⟩ := Option.bind_eq_some.mp ran
  dsimp only [Option.pure_def, Option.bind_eq_bind, Option.some_bind] at ran
  have pass : GetDataPass reads.interruptedQueued h h₁ := by
    unfold serveQueued at served
    split at served
    · cases served
      exact .refl _ _
    · exact processGetData_pass _ _ queued served
  have first : Handled env fInterrupted fInterrupted' h h₁ :=
    ⟨by rw [pass.logic], .ofQuiet (.ofFramed pass.sent), pass.id,
      fun sound => pass.sound sound (fun raised => ⟨(early raised).1, (early raised).2.1⟩)
        (fun clear => (late clear).1)⟩
  have quiet : Quiet h h₁ := .ofFramed pass.sent
  have holds : h.logic.Holds h₁.logic := PeerLogic.Holds.of_eq (by rw [pass.logic])
  by_cases disconnect : h₁.node.fDisconnect = true
  · rw [if_pos disconnect] at ran
    cases ran
    exact first
  rw [if_neg disconnect] at ran
  by_cases pending : (!h₁.node.vRecvGetData.isEmpty) = true
  · rw [if_pos pending] at ran
    cases ran
    exact first
  rw [if_neg pending] at ran
  have empty : h₁.node.vRecvGetData = [] := by simpa using pending
  by_cases paused : reads.fPauseSend = true
  · rw [if_pos paused] at ran
    cases ran
    exact first
  rw [if_neg paused] at ran
  split at ran
  · cases ran
    exact first
  · rename_i msg rest taken
    have took : Handled env fInterrupted' false h₁ { h₁ with node := { h₁.node with vProcessMsg := rest } } :=
      ⟨.refl, .ofQuiet ⟨[], by simp, rfl⟩, rfl, fun sound => (sound.settle empty).take rest⟩
    have registered₁ : (h₁.logic.registry.state h₁.node.id).isSome := by rwa [pass.logic, pass.id]
    exact first.trans quiet holds (took.trans ⟨[], by simp, rfl⟩ (PeerLogic.Holds.of_eq rfl)
      (processTaken_handled (fun clear => (late clear).2.1) registered₁ empty ran))

end Handling

end XuezNet
