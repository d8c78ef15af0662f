import XuezNet.System.Net
import Mathlib.Data.List.Sort

/-! # The targets of an address relay

`RelayAddress` keeps one or two slots, best first, and offers each connection
with its key: a connection takes the first slot it beats and shifts the slots
below it down (`rankInsert`). That is an insertion into slots sorted by key, with
the last slot dropped (`rankInsert_eq`). Empty slots have key `0`, so, with
nonzero keys, the slots after offering some connections are the connections
sorted by key (`ranked`) followed by empty slots, cut to the slot count
(`foldl_rankInsert`), and the targets are the first of the sorted connections
(`relayTargets_eq_ranked`). With pairwise distinct keys, the sorted connections
do not depend on the order in which they were offered (`ranked_perm_eq`): the
targets are the one or two connections of largest key, each once, for every
order `ForEachNodeThen` visits them in (`relayTargets_top`).
-/

namespace XuezNet

/-- A slot of `RelayAddress` above another: its key is larger. -/
def SlotAbove (a b : Nat × Option NodeId) : Prop := b.1 < a.1

instance : DecidableRel SlotAbove := fun a b => inferInstanceAs (Decidable (b.1 < a.1))

/-- Offering a connection inserts it before the first slot it beats, and drops the
last slot. -/
theorem rankInsert_eq (entry : Nat × NodeId) :
    ∀ slots : List (Nat × Option NodeId),
      rankInsert entry slots = (slots.orderedInsert SlotAbove (entry.1, some entry.2)).dropLast
  | [] => rfl
  | best :: rest => by
    by_cases beats : best.1 < entry.1
    · simp [rankInsert, beats, SlotAbove]
    · rw [rankInsert, if_neg beats, List.orderedInsert,
        if_neg (show ¬SlotAbove (entry.1, some entry.2) best from beats), rankInsert_eq entry rest,
        List.dropLast_cons_of_ne_nil
          (List.ne_nil_of_length_pos (by rw [List.orderedInsert_length]; exact Nat.succ_pos _))]

/-- The first `n` entries after an insertion depend on the first `n` before it only. -/
theorem take_orderedInsert {α : Type} (r : α → α → Prop) [DecidableRel r] (a : α) :
    ∀ (n : Nat) (l : List α), (l.orderedInsert r a).take n = ((l.take n).orderedInsert r a).take n
  | 0, _ => by simp
  | _ + 1, [] => rfl
  | n + 1, b :: l => by
    by_cases before : r a b
    · cases n <;> simp [before, List.take_take]
    · simp [before, take_orderedInsert r a n l]

section Ranking

variable (key : NodeId → Nat)

/-- A connection ranks above another when its key is larger. -/
def Outranks (a b : NodeId) : Prop := key b < key a

instance : DecidableRel (Outranks key) := fun a b => inferInstanceAs (Decidable (key b < key a))

/-- The slot a connection fills: its key and itself. -/
def rankSlot (id : NodeId) : Nat × Option NodeId := (key id, some id)

/-- The connections offered, in order of key. -/
def ranked (ids : List NodeId) (sorted : List NodeId) : List NodeId :=
  ids.foldl (fun sorted id => sorted.orderedInsert (Outranks key) id) sorted

/-- Empty slots stay below every connection with a nonzero key. -/
theorem orderedInsert_slots {x : NodeId} (positive : 0 < key x) (m : Nat) :
    ∀ sorted : List NodeId,
      (sorted.map (rankSlot key) ++ List.replicate m (0, none)).orderedInsert SlotAbove (rankSlot key x) =
        (sorted.orderedInsert (Outranks key) x).map (rankSlot key) ++ List.replicate m (0, none)
  | [] => by cases m <;> simp [SlotAbove, rankSlot, positive, List.replicate_succ]
  | b :: sorted => by
    by_cases before : key b < key x
    · simp [SlotAbove, Outranks, rankSlot, before]
    · rw [List.map_cons, List.cons_append, List.orderedInsert,
        if_neg (show ¬SlotAbove (rankSlot key x) (rankSlot key b) from before), orderedInsert_slots positive m sorted,
        List.orderedInsert, if_neg (show ¬Outranks key x b from before)]
      rfl

/-- **The slots after offering connections**: those already ranked and those
offered, sorted by key, then empty slots, cut to the slot count. -/
theorem foldl_rankInsert (n : Nat) :
    ∀ (ids sorted : List NodeId), (∀ id ∈ ids, 0 < key id) →
      ids.foldl (fun best id => rankInsert (key id, id) best)
          ((sorted.map (rankSlot key) ++ List.replicate n (0, none)).take n) =
        ((ranked key ids sorted).map (rankSlot key) ++ List.replicate n (0, none)).take n
  | [], _, _ => rfl
  | id :: rest, sorted, positive => by
    have full : n ≤ (sorted.map (rankSlot key) ++ List.replicate n (0, none)).length := by simp
    have offered : rankInsert (key id, id) ((sorted.map (rankSlot key) ++ List.replicate n (0, none)).take n) =
        ((sorted.orderedInsert (Outranks key) id).map (rankSlot key) ++ List.replicate n (0, none)).take n := by
      rw [rankInsert_eq, List.dropLast_eq_take, List.orderedInsert_length, List.length_take,
        Nat.min_eq_left full, Nat.add_sub_cancel]
      exact (take_orderedInsert _ _ n _).symm.trans
        (congrArg (List.take n) (orderedInsert_slots key (positive id (.head _)) n sorted))
    rw [List.foldl_cons, offered]
    exact foldl_rankInsert n rest _ fun other member => positive other (.tail _ member)

/-- The nonzero slots, cut to the slot count, name the first connections ranked. -/
theorem filterMap_takeWhile_slots (m : Nat) :
    ∀ (n : Nat) (sorted : List NodeId), (∀ id ∈ sorted, key id ≠ 0) →
      (((sorted.map (rankSlot key) ++ List.replicate m ((0, none) : Nat × Option NodeId)).take n).takeWhile
        (·.1 ≠ 0)).filterMap (·.2) =
        sorted.take n
  | 0, _, _ => rfl
  | n + 1, [], _ => by cases m <;> simp [List.replicate_succ]
  | n + 1, id :: sorted, nonzero => by
    have rest := filterMap_takeWhile_slots m n sorted fun other member => nonzero other (.tail _ member)
    simp only [List.map_cons, List.cons_append, List.take_succ_cons] at rest ⊢
    rw [List.takeWhile_cons_of_pos (by simpa [rankSlot] using nonzero id (.head _))]
    simpa [rankSlot] using rest

theorem ranked_perm : ∀ (ids sorted : List NodeId), (ranked key ids sorted).Perm (sorted ++ ids)
  | [], sorted => by simp [ranked]
  | id :: rest, sorted =>
    (ranked_perm rest _).trans ((((List.perm_orderedInsert _ id sorted).append_right rest)).trans
      List.perm_middle.symm)

theorem sorted_orderedInsert {x : NodeId} : ∀ {sorted : List NodeId}, sorted.Sorted (Outranks key) →
    (∀ b ∈ sorted, key b ≠ key x) → (sorted.orderedInsert (Outranks key) x).Sorted (Outranks key)
  | [], _, _ => List.sorted_singleton x
  | b :: sorted, ordered, distinct => by
    have below := List.rel_of_sorted_cons ordered
    by_cases before : key b < key x
    · rw [List.orderedInsert, if_pos (show Outranks key x b from before)]
      refine List.sorted_cons.mpr ⟨fun c member => ?_, ordered⟩
      rcases List.mem_cons.mp member with rfl | member
      · exact before
      · exact Nat.lt_trans (below c member) before
    · have above : key x < key b := Nat.lt_of_le_of_ne (Nat.not_lt.mp before) (distinct b (.head _)).symm
      rw [List.orderedInsert, if_neg (show ¬Outranks key x b from before)]
      refine List.sorted_cons.mpr ⟨fun c member => ?_,
        sorted_orderedInsert ordered.of_cons fun c member => distinct c (.tail _ member)⟩
      rcases (List.mem_orderedInsert _).mp member with rfl | member
      · exact above
      · exact below c member

/-- With pairwise distinct keys, the ranking is sorted strictly by key. -/
theorem sorted_ranked : ∀ (ids sorted : List NodeId), sorted.Sorted (Outranks key) →
    (sorted ++ ids).Pairwise (fun a b => key a ≠ key b) → (ranked key ids sorted).Sorted (Outranks key)
  | [], _, ordered, _ => ordered
  | id :: rest, sorted, ordered, distinct => by
    have apart : ∀ b ∈ sorted, key b ≠ key id := fun b member =>
      (List.pairwise_append.mp distinct).2.2 b member id (.head _)
    refine sorted_ranked rest _ (sorted_orderedInsert key ordered apart) ?_
    refine (List.Perm.pairwise_iff (fun same => Ne.symm same) ?_).mpr distinct
    exact ((List.perm_orderedInsert _ id sorted).append_right rest).trans List.perm_middle.symm

theorem outranks_antisymm : IsAntisymm NodeId (Outranks key) :=
  ⟨fun _ _ above below => absurd (Nat.lt_trans above below) (Nat.lt_irrefl _)⟩

/-- With pairwise distinct keys, the ranking does not depend on the order in which
the connections are offered. -/
theorem ranked_perm_eq {ids ids' : List NodeId} (reordered : ids'.Perm ids)
    (distinct : ids.Pairwise fun a b => key a ≠ key b) : ranked key ids' [] = ranked key ids [] :=
  have := outranks_antisymm key
  List.eq_of_perm_of_sorted (((ranked_perm key ids' []).trans (by simpa using reordered)).trans
      (by simpa using (ranked_perm key ids []).symm))
    (sorted_ranked key ids' [] List.sorted_nil (by simpa using (reordered.pairwise_iff Ne.symm).mpr distinct))
    (sorted_ranked key ids [] List.sorted_nil (by simpa using distinct))

/-- With pairwise distinct keys, the ranking is the connections sorted by key,
largest first. -/
theorem ranked_eq_insertionSort {ids : List NodeId} (distinct : ids.Pairwise fun a b => key a ≠ key b) :
    ranked key ids [] = ids.insertionSort fun a b => key b ≤ key a := by
  have := outranks_antisymm key
  have : IsTotal NodeId fun a b => key b ≤ key a := ⟨fun a b => le_total (key b) (key a)⟩
  have : IsTrans NodeId fun a b => key b ≤ key a := ⟨fun _ _ _ first second => le_trans second first⟩
  have sorting := List.perm_insertionSort (fun a b => key b ≤ key a) ids
  have strict : (ids.insertionSort fun a b => key b ≤ key a).Sorted (Outranks key) :=
    ((List.sorted_insertionSort _ ids).and ((sorting.pairwise_iff Ne.symm).mpr distinct)).imp
      fun ⟨below, apart⟩ => Nat.lt_of_le_of_ne below (Ne.symm apart)
  exact List.eq_of_perm_of_sorted (((ranked_perm key ids []).trans (by simp)).trans sorting.symm)
    (sorted_ranked key ids [] List.sorted_nil (by simpa using distinct)) strict

end Ranking

variable {env : Env} {addr : CAddress} {fReachable : Bool} {ids : List NodeId}

/-- **The targets of `RelayAddress`** are the first connections of the ranking,
as many as there are slots. -/
theorem relayTargets_eq_ranked (nonzero : ∀ id ∈ ids, env.relayKey addr id ≠ 0) :
    relayTargets env addr fReachable ids = (ranked (env.relayKey addr) ids []).take (if fReachable then 2 else 1) := by
  have start : List.replicate (if fReachable then 2 else 1) ((0 : Nat), (none : Option NodeId)) =
      (([] : List NodeId).map (rankSlot (env.relayKey addr)) ++
        List.replicate (if fReachable then 2 else 1) (0, none)).take (if fReachable then 2 else 1) := by
    simp
  rw [relayTargets, start, foldl_rankInsert _ _ ids [] fun id member => Nat.pos_of_ne_zero (nonzero id member)]
  exact filterMap_takeWhile_slots _ _ _ _ fun id member =>
    nonzero id (by simpa using (ranked_perm _ ids []).subset member)

/-- **`RelayAddress` relays to the connections of largest key.** For a set of
connections with pairwise distinct nonzero keys, the address goes to the
connections of largest key, as many as there are slots (two for a reachable
address, else one) or as there are connections, each once and in order of key,
and to the same ones whatever the order `ForEachNodeThen` visits them in. -/
theorem relayTargets_top (peers : ids.Nodup)
    (distinct : ∀ a ∈ ids, ∀ b ∈ ids, env.relayKey addr a = env.relayKey addr b → a = b)
    (nonzero : ∀ a ∈ ids, env.relayKey addr a ≠ 0) :
    relayTargets env addr fReachable ids =
        (ids.insertionSort fun a b => env.relayKey addr b ≤ env.relayKey addr a).take
          (if fReachable then 2 else 1) ∧
      (relayTargets env addr fReachable ids).Nodup ∧
      (relayTargets env addr fReachable ids).length = min (if fReachable then 2 else 1) ids.length ∧
      (∀ chosen ∈ relayTargets env addr fReachable ids, ∀ other ∈ ids,
        other ∉ relayTargets env addr fReachable ids → env.relayKey addr other < env.relayKey addr chosen) ∧
      ∀ ids', ids'.Perm ids → relayTargets env addr fReachable ids' = relayTargets env addr fReachable ids := by
  have apart : ids.Pairwise fun a b => env.relayKey addr a ≠ env.relayKey addr b :=
    peers.imp_of_mem fun first second different same => different (distinct _ first _ second same)
  have sorted := sorted_ranked (env.relayKey addr) ids [] List.sorted_nil (by simpa using apart)
  have perm : (ranked (env.relayKey addr) ids []).Perm ids := by simpa using ranked_perm (env.relayKey addr) ids []
  rw [relayTargets_eq_ranked nonzero]
  refine ⟨by rw [ranked_eq_insertionSort _ apart], (perm.nodup_iff.mpr peers).sublist (List.take_sublist _ _),
    by simp [perm.length_eq], fun chosen picked other member left => ?_, fun ids' reordered => ?_⟩
  · rw [← List.take_append_drop (if fReachable then 2 else 1) (ranked (env.relayKey addr) ids [])] at sorted
    have dropped : other ∈ (ranked (env.relayKey addr) ids []).drop (if fReachable then 2 else 1) := by
      have ranked' := perm.symm.subset member
      rw [← List.take_append_drop (if fReachable then 2 else 1) (ranked (env.relayKey addr) ids [])] at ranked'
      exact (List.mem_append.mp ranked').resolve_left left
    exact (List.pairwise_append.mp sorted).2.2 chosen picked other dropped
  · rw [relayTargets_eq_ranked fun a member => nonzero a (reordered.subset member),
      ranked_perm_eq _ reordered apart]


/-- An environment whose relay key of a connection is its number plus one. -/
def numberedKeyEnv : Env := { Handling.missingInputsEnv with relayKey := fun _ id => id.toNat + 1 }

theorem relayTargets_top_numbered :
    relayTargets numberedKeyEnv ⟨7, 1, 0⟩ true [3, 1, 2] =
        ([3, 1, 2].insertionSort fun a b => numberedKeyEnv.relayKey ⟨7, 1, 0⟩ b ≤
          numberedKeyEnv.relayKey ⟨7, 1, 0⟩ a).take (if true then 2 else 1) ∧
      (relayTargets numberedKeyEnv ⟨7, 1, 0⟩ true [3, 1, 2]).Nodup ∧
      (relayTargets numberedKeyEnv ⟨7, 1, 0⟩ true [3, 1, 2]).length = min (if true then 2 else 1) [3, 1, 2].length ∧
      (∀ chosen ∈ relayTargets numberedKeyEnv ⟨7, 1, 0⟩ true [3, 1, 2], ∀ other ∈ [3, 1, 2],
        other ∉ relayTargets numberedKeyEnv ⟨7, 1, 0⟩ true [3, 1, 2] →
          numberedKeyEnv.relayKey ⟨7, 1, 0⟩ other < numberedKeyEnv.relayKey ⟨7, 1, 0⟩ chosen) ∧
      ∀ ids', ids'.Perm [3, 1, 2] →
        relayTargets numberedKeyEnv ⟨7, 1, 0⟩ true ids' = relayTargets numberedKeyEnv ⟨7, 1, 0⟩ true [3, 1, 2] :=
  relayTargets_top (by decide) (by decide) (by decide)

example : relayTargets numberedKeyEnv ⟨7, 1, 0⟩ true [3, 1, 2] = [3, 2] := by decide

end XuezNet
