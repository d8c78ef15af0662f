import XuezNet.Registry.Updates
import XuezNet.Dispatch.SendMessages

/-! # The block download timer

The download timeout of `SendMessages` measures from a peer's
`nDownloadingSince`. `MarkBlockAsInFlight` starts it when a block is queued
into an empty list, and `MarkBlockAsReceived` moves it to `max(old, now)` when
the block at the head of the list arrives.

The ghost clock `since` of a run records, for each peer, the clock reading of
the last call at which the head list node of its queue changed: the head was
inserted into an empty list, or the one before it was removed. Both calls move
a peer's timer only as `TimerKept` allows (`DownloadCall.timersKept`), so along
every run of them, in any order, over any peers and with any clock readings,
the timer of a peer with blocks in flight is never earlier than the ghost
(`runDownloads_headTimed`). The timeout therefore fires only when it also fires
for a timer started when the head became the head (`stalling_of_earlier`).
-/

namespace XuezNet

namespace CNodeState

/-- The list node at the head of the peer's queue. -/
def headNode (nodeState : CNodeState) : Option Nat :=
  nodeState.vBlocksInFlight.head?.map Prod.fst

theorem headNode_eq_none {nodeState : CNodeState} :
    nodeState.headNode = none ↔ nodeState.vBlocksInFlight = [] := by
  simp [headNode]

/-- How one call at clock reading `now` may move a peer's timer: while the head
stays it keeps or raises the timer, and when the head changes it sets the timer
to `now` or later. -/
structure TimerKept (old new : CNodeState) (now : Int) : Prop where
  kept : new.headNode = old.headNode → old.nDownloadingSince ≤ new.nDownloadingSince
  restarted : new.headNode ≠ old.headNode → now ≤ new.nDownloadingSince

theorem TimerKept.refl (nodeState : CNodeState) (now : Int) : nodeState.TimerKept nodeState now :=
  ⟨fun _ => le_refl _, fun differ => absurd rfl differ⟩

/-- Two moves compose when the middle state's head is not one the first move
replaced and the second brought back. -/
theorem TimerKept.trans {first second third : CNodeState} {now : Int}
    (early : first.TimerKept second now) (late : second.TimerKept third now)
    (back : third.headNode = first.headNode → second.headNode = first.headNode) :
    first.TimerKept third now := by
  constructor
  · intro same
    have middle := back same
    exact (early.kept middle).trans (late.kept (same.trans middle.symm))
  · intro differ
    by_cases same : third.headNode = second.headNode
    · exact (early.restarted fun middle => differ (same.trans middle)).trans (late.kept same)
    · exact late.restarted same

/-- `MarkBlockAsReceived` on the peer: removing the head restarts the timer at
`max(old, now)`; removing another node keeps both the head and the timer. -/
theorem dequeue_timerKept (nodeState : CNodeState) (node : Nat) (queued : QueuedBlock) (now : Int) :
    nodeState.TimerKept (nodeState.dequeue node queued now) now := by
  by_cases head : nodeState.headNode = some node
  · have raised : (nodeState.dequeue node queued now).nDownloadingSince =
        max nodeState.nDownloadingSince now := if_pos head
    exact ⟨fun _ => raised ▸ le_max_left _ _, fun _ => raised ▸ le_max_right _ _⟩
  · have same : (nodeState.dequeue node queued now).nDownloadingSince =
        nodeState.nDownloadingSince := if_neg head
    have stays : (nodeState.dequeue node queued now).headNode = nodeState.headNode := by
      unfold headNode at head ⊢
      rw [(dequeue_queue _ _ _ _).1, eraseNode]
      cases queue : nodeState.vBlocksInFlight with
      | nil => rfl
      | cons entry rest =>
          have other : entry.1 ≠ node := fun same => head (by rw [queue, ← same]; rfl)
          simp [List.eraseP_cons, other]
    exact ⟨fun _ => same.ge, fun differ => absurd stays differ⟩

/-- `MarkBlockAsInFlight` on the peer: a block queued into an empty list starts
the timer now; one queued behind others keeps the head and the timer. -/
theorem enqueue_timerKept {nodeState : CNodeState}
    (counted : nodeState.nBlocksInFlight = nodeState.vBlocksInFlight.length)
    (node : Nat) (queued : QueuedBlock) (now : Int) :
    nodeState.TimerKept (nodeState.enqueue node queued now) now := by
  cases queue : nodeState.vBlocksInFlight with
  | nil =>
      have started : (nodeState.enqueue node queued now).nDownloadingSince = now :=
        if_pos (by rw [counted, queue]; rfl)
      refine ⟨fun same => ?_, fun _ => started.ge⟩
      simp [headNode, (enqueue_queue _ _ _ _).1, queue] at same
  | cons entry rest =>
      have same : (nodeState.enqueue node queued now).nDownloadingSince =
          nodeState.nDownloadingSince := if_neg (by rw [counted, queue, List.length_cons]; omega)
      have stays : (nodeState.enqueue node queued now).headNode = nodeState.headNode := by
        simp [headNode, (enqueue_queue _ _ _ _).1, queue]
      exact ⟨fun _ => same.ge, fun differ => absurd stays differ⟩

end CNodeState

namespace Registry

open CNodeState

/-- The list node at the head of a registered peer's queue. -/
def headNode (registry : Registry) (nodeid : NodeId) : Option Nat :=
  (registry.state nodeid).bind CNodeState.headNode

/-- Every peer of the new registry was registered before, and its timer moved as
`TimerKept` allows. -/
def TimersKept (registry registry' : Registry) (now : Int) : Prop :=
  ∀ nodeid nodeState', registry'.state nodeid = some nodeState' →
    ∃ nodeState, registry.state nodeid = some nodeState ∧ nodeState.TimerKept nodeState' now

/-- The ghost update of a call at clock reading `now`: a peer whose head list
node changed got its current head at `now`. -/
def headSince (since : NodeId → Int) (registry registry' : Registry) (now : Int) : NodeId → Int :=
  fun nodeid => if registry'.headNode nodeid = registry.headNode nodeid then since nodeid else now

/-- **The timer invariant**: every peer with blocks in flight started its
download timer no earlier than its head block became the head. -/
def HeadTimed (registry : Registry) (since : NodeId → Int) : Prop :=
  ∀ nodeid nodeState, registry.state nodeid = some nodeState →
    nodeState.vBlocksInFlight ≠ [] → since nodeid ≤ nodeState.nDownloadingSince

/-- A registry with nothing in flight satisfies the invariant for any ghost. -/
theorem headTimed_of_idle {registry : Registry}
    (idle : ∀ nodeid nodeState, registry.state nodeid = some nodeState →
      nodeState.vBlocksInFlight = [])
    (since : NodeId → Int) : registry.HeadTimed since :=
  fun nodeid nodeState found busy => absurd (idle nodeid nodeState found) busy

theorem HeadTimed.step {registry registry' : Registry} {since : NodeId → Int} {now : Int}
    (timed : registry.HeadTimed since) (kept : TimersKept registry registry' now) :
    registry'.HeadTimed (headSince since registry registry' now) := by
  intro nodeid nodeState' found' busy
  obtain ⟨nodeState, found, moved⟩ := kept nodeid nodeState' found'
  unfold headSince headNode
  rw [found, found', Option.some_bind, Option.some_bind]
  split
  · next same =>
    have busy' : nodeState.vBlocksInFlight ≠ [] := fun idle =>
      busy (headNode_eq_none.mp (same.trans (headNode_eq_none.mpr idle)))
    exact (timed nodeid nodeState found busy').trans (moved.kept same)
  · next differ => exact moved.restarted differ

theorem markBlockAsReceived_nextQueuedNode {registry registry' : Registry} {hash : Hash}
    {now : Int} {received : Bool}
    (marked : registry.markBlockAsReceived hash now = some (registry', received)) :
    registry'.nextQueuedNode = registry.nextQueuedNode := by
  unfold markBlockAsReceived at marked
  split at marked
  · cases marked
    rfl
  · obtain ⟨_, -, marked⟩ := Option.bind_eq_some.mp marked
    obtain ⟨_, -, marked⟩ := Option.bind_eq_some.mp marked
    cases marked
    rfl

theorem markBlockAsReceived_timersKept {registry registry' : Registry} {hash : Hash} {now : Int}
    {received : Bool} (marked : registry.markBlockAsReceived hash now = some (registry', received)) :
    TimersKept registry registry' now := by
  unfold markBlockAsReceived at marked
  split at marked
  · cases marked
    exact fun _ _ found => ⟨_, found, TimerKept.refl _ now⟩
  · next nodeid node _ =>
    obtain ⟨nodeState, found, marked⟩ := Option.bind_eq_some.mp marked
    obtain ⟨queued, -, marked⟩ := Option.bind_eq_some.mp marked
    cases marked
    intro other nodeState' found'
    change (registry.setState nodeid _).state other = _ at found'
    rw [state_setState] at found'
    split at found'
    · next same =>
      cases found'
      exact ⟨nodeState, same ▸ found, dequeue_timerKept nodeState node queued now⟩
    · exact ⟨nodeState', found', TimerKept.refl _ now⟩

/-- `MarkBlockAsInFlight` moves every timer as `TimerKept` allows, also when it
takes the block from another peer or from the head of this one: the new list
node is fresh, so it is never the head the release replaced. -/
theorem markBlockAsInFlight_timersKept {registry registry' : Registry} (consistent : registry.Consistent)
    {nodeid : NodeId} {hash : Hash} {pindex : Option Hash} {now : Int}
    (marked : registry.markBlockAsInFlight nodeid hash pindex now = some registry') :
    TimersKept registry registry' now := by
  obtain ⟨_, -, marked⟩ := Option.bind_eq_some.mp marked
  obtain ⟨⟨released, received⟩, receivedEq, marked⟩ := Option.bind_eq_some.mp marked
  obtain ⟨nodeState, present, marked⟩ := Option.bind_eq_some.mp marked
  cases marked
  have kept : TimersKept registry released now := markBlockAsReceived_timersKept receivedEq
  intro other nodeState' found'
  rw [queueBlock_state] at found'
  split at found'
  · next same =>
    subst same
    cases found'
    obtain ⟨old, found, early⟩ := kept _ _ present
    have counted := ((consistent.markBlockAsReceived receivedEq).counted present).1
    refine ⟨old, found, early.trans (enqueue_timerKept counted _ _ now) fun back => ?_⟩
    cases queue : nodeState.vBlocksInFlight with
    | nil =>
        have fresh := consistent.allocated found
        simp only [CNodeState.headNode, (enqueue_queue _ _ _ _).1, queue, List.nil_append,
          List.head?_cons, Option.map_some'] at back
        rw [markBlockAsReceived_nextQueuedNode receivedEq] at back
        cases first : old.vBlocksInFlight with
        | nil => simp [first] at back
        | cons entry rest =>
            simp only [first, List.head?_cons, Option.map_some', Option.some.injEq] at back
            exact absurd (fresh entry (first ▸ List.mem_cons_self _ _)) (by omega)
    | cons entry rest => simpa [CNodeState.headNode, (enqueue_queue _ _ _ _).1, queue] using back
  · exact kept other nodeState' found'

end Registry

open Registry

/-- A call of `MarkBlockAsInFlight` or `MarkBlockAsReceived`, with the clock
reading `GetTimeMicros()` gives it. -/
inductive DownloadCall
  | markBlockAsInFlight (nodeid : NodeId) (hash : Hash) (pindex : Option Hash) (now : Int)
  | markBlockAsReceived (hash : Hash) (now : Int)

namespace DownloadCall

/-- The clock reading of a call. -/
def now : DownloadCall → Int
  | markBlockAsInFlight _ _ _ now | markBlockAsReceived _ now => now

/-- Make the call; `none` where a `State()` lookup or an assertion fails. -/
def apply (registry : Registry) : DownloadCall → Option Registry
  | markBlockAsInFlight nodeid hash pindex now => registry.markBlockAsInFlight nodeid hash pindex now
  | markBlockAsReceived hash now => (registry.markBlockAsReceived hash now).map Prod.fst

/-- Each call keeps the registry consistent and moves the timers as allowed. -/
theorem timersKept {registry registry' : Registry} (consistent : registry.Consistent)
    {call : DownloadCall} (applied : call.apply registry = some registry') :
    registry'.Consistent ∧ TimersKept registry registry' call.now := by
  cases call with
  | markBlockAsInFlight nodeid hash pindex now =>
      exact ⟨consistent.markBlockAsInFlight applied, markBlockAsInFlight_timersKept consistent applied⟩
  | markBlockAsReceived hash now =>
      obtain ⟨⟨_, received⟩, marked, rfl⟩ := Option.map_eq_some'.mp applied
      exact ⟨consistent.markBlockAsReceived marked, markBlockAsReceived_timersKept marked⟩

end DownloadCall

/-- Make the calls in order, carrying for each peer the clock reading at which
the head list node of its queue last changed. -/
def runDownloads : Registry → (NodeId → Int) → List DownloadCall → Option (Registry × (NodeId → Int))
  | registry, since, [] => some (registry, since)
  | registry, since, call :: calls => do
      let registry' ← call.apply registry
      runDownloads registry' (headSince since registry registry' call.now) calls

/-- Along every run the registry stays consistent and the timer invariant holds. -/
theorem runDownloads_headTimed {calls : List DownloadCall} :
    ∀ {registry : Registry} {since : NodeId → Int} {registry' : Registry} {since' : NodeId → Int},
      registry.Consistent → registry.HeadTimed since →
      runDownloads registry since calls = some (registry', since') →
      registry'.Consistent ∧ registry'.HeadTimed since' := by
  induction calls with
  | nil =>
      intro _ _ _ _ consistent timed ran
      cases ran
      exact ⟨consistent, timed⟩
  | cons call calls ih =>
      intro _ _ _ _ consistent timed ran
      obtain ⟨next, applied, ran⟩ := Option.bind_eq_some.mp ran
      obtain ⟨consistent', kept⟩ := DownloadCall.timersKept consistent applied
      exact ih consistent' (timed.step kept) ran

namespace Handling

variable (env : Env)

/-- The stall check with the peer's timer set back to `start`, no later than
the timer when blocks are in flight, fires whenever the code's does. -/
theorem stalling_of_earlier {h : Handling} {nodeState : CNodeState}
    (found : h.logic.registry.state h.node.id = some nodeState) {start : Int}
    (earlier : nodeState.vBlocksInFlight ≠ [] → start ≤ nodeState.nDownloadingSince)
    (stalled : stalling env h = some true) :
    stalling env { h with logic := { h.logic with
      registry := h.logic.registry.setState h.node.id { nodeState with nDownloadingSince := start } } } =
      some true := by
  unfold stalling at stalled ⊢
  simp only [found, state_setState, if_true, Option.bind_eq_bind, Option.some_bind,
    setState_counters] at stalled ⊢
  by_cases marked : nodeState.nStallingSince ≠ 0 ∧
      nodeState.nStallingSince < env.nTimeMicros - 1000000 * env.params.BLOCK_STALLING_TIMEOUT
  · rw [if_pos marked]
    rfl
  rw [if_neg marked] at stalled ⊢
  by_cases idle : nodeState.vBlocksInFlight.isEmpty = true
  · rw [if_pos idle] at stalled
    cases stalled
  rw [if_neg idle] at stalled ⊢
  have before := earlier (by simpa using idle)
  cases known : env.chain.mapBlockIndex env.chain.tip with
  | none => simp [known] at stalled
  | some tip =>
      simp only [known, Option.pure_def, Option.some_bind, Option.some.injEq,
        decide_eq_true_eq] at stalled ⊢
      omega

end Handling

/-- Along every run of `MarkBlockAsInFlight` and `MarkBlockAsReceived`, from a
consistent registry where the invariant holds, every peer with blocks in flight
has its timer no earlier than the reading at which its head became the head,
and every download timeout of `SendMessages` also fires on that reading. -/
theorem download_timer_from_head {registry : Registry} (consistent : registry.Consistent)
    {since : NodeId → Int} (timed : registry.HeadTimed since) {calls : List DownloadCall}
    {registry' : Registry} {since' : NodeId → Int}
    (ran : runDownloads registry since calls = some (registry', since')) :
    registry'.HeadTimed since' ∧
      ∀ (env : Env) (h : Handling) (nodeState : CNodeState), h.logic.registry = registry' →
        registry'.state h.node.id = some nodeState → Handling.stalling env h = some true →
        Handling.stalling env { h with logic := { h.logic with
          registry := registry'.setState h.node.id { nodeState with nDownloadingSince := since' h.node.id } } } =
          some true := by
  have timed' : registry'.HeadTimed since' := (runDownloads_headTimed consistent timed ran).2
  refine ⟨timed', fun env h nodeState current found stalled => ?_⟩
  subst current
  exact Handling.stalling_of_earlier env found (timed' _ _ found) stalled

/-- Three calls on a fresh peer: two blocks are queued at clock readings 5 and 9,
and the first arrives at 12. -/
def timerCalls : List DownloadCall :=
  [.markBlockAsInFlight 1 7 none 5, .markBlockAsInFlight 1 8 none 9, .markBlockAsReceived 7 12]

/-- The run of `timerCalls` from a registry with one fresh peer. -/
def timerRun : Option (Registry × (NodeId → Int)) :=
  runDownloads (Registry.empty.initializeNode 1) (fun _ => 0) timerCalls

/-- The registry and the ghost clock after `timerRun`. -/
def timerRegistry : Registry := (timerRun.map Prod.fst).getD Registry.empty

def timerSince : NodeId → Int := (timerRun.map Prod.snd).getD fun _ => 0

/-- The head arrived at 12: the timer and the ghost both read 12. -/
example : (timerRegistry.state 1).map (·.nDownloadingSince) = some 12 ∧ timerSince 1 = 12 := by
  decide

theorem download_timer_from_head_timerCalls :
    (Registry.empty.initializeNode 1).Consistent ∧
      (Registry.empty.initializeNode 1).HeadTimed (fun _ => 0) ∧
      runDownloads (Registry.empty.initializeNode 1) (fun _ => 0) timerCalls =
        some (timerRegistry, timerSince) ∧
      timerRegistry.HeadTimed timerSince :=
  have consistent := consistent_empty.initializeNode 1
  have timed : (Registry.empty.initializeNode 1).HeadTimed fun _ => 0 :=
    headTimed_of_idle (fun _ _ found => by
      rw [initializeNode_state] at found
      split at found
      · cases found
        rfl
      · simp [Registry.state, Registry.empty] at found) _
  have ran : runDownloads (Registry.empty.initializeNode 1) (fun _ => 0) timerCalls =
      some (timerRegistry, timerSince) := rfl
  ⟨consistent, timed, ran, (download_timer_from_head consistent timed ran).1⟩

end XuezNet
