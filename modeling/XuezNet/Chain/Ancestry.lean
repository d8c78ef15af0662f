import XuezNet.Chain.BlockIndex

/-! # Ancestry in the block index

A block's ancestors-or-self are the blocks reached from it by following `pprev`
some number of times (`ChainView.AncestorOrSelf`). With each parent one height
below its child, a walk of `n` steps goes down `n` heights (`walkBack_height`),
so a block has at most one ancestor at each height, and `GetAncestor` finds it
(`getAncestor_of_walkBack`).

`LastCommonAncestor` first brings the higher block down to the height of the
lower one, which keeps every common ancestor (`level_common`), then steps both
back in lock step; two blocks of one height meet exactly at their deepest common
ancestor (`meetLoop_meets`). So for any two blocks with a common ancestor it
returns, without failing its `assert`, the common ancestor of which every other
is an ancestor (`lastCommonAncestor_meets`, `lastCommonAncestor_deepest`).
-/

namespace XuezNet

namespace ChainView

variable (chain : ChainView)

theorem nHeight_of_found {hash : Hash} {block : CBlockIndex} (found : chain.mapBlockIndex hash = some block) :
    chain.nHeight hash = block.nHeight := by
  simp [nHeight, found]

/-- A block's parent is one height below it. -/
theorem pprev_height {hash parent : Hash} (linked : chain.pprev hash = some parent) :
    chain.nHeight parent + 1 = chain.nHeight hash := by
  obtain ⟨block, found, linked⟩ := Option.bind_eq_some.mp linked
  obtain ⟨above, foundAbove, height⟩ := chain.prev_height found linked
  rw [chain.nHeight_of_found found, chain.nHeight_of_found foundAbove, height]

/-- Following `pprev` a number of times goes down as many heights. -/
theorem walkBack_height : ∀ {steps : Nat} {hash ancestor : Hash}, chain.walkBack steps hash = some ancestor →
    chain.nHeight ancestor + steps = chain.nHeight hash
  | 0, _, _, walked => by
      cases walked
      rfl
  | steps + 1, hash, ancestor, walked => by
      obtain ⟨parent, linked, walked⟩ := Option.bind_eq_some.mp walked
      have lower := walkBack_height walked
      have step := chain.pprev_height linked
      omega

/-- `GetAncestor` finds the block at the height asked for. -/
theorem getAncestor_height {hash ancestor : Hash} {target : Nat}
    (found : chain.getAncestor hash target = some ancestor) : chain.nHeight ancestor = target := by
  unfold getAncestor at found
  split at found
  · rename_i block known
    split_ifs at found with above
    have walked := chain.walkBack_height found
    rw [chain.nHeight_of_found known] at walked
    omega
  · cases found

/-- Every height up to the active tip's holds a block of the index. -/
theorem at_known {target : Nat} (within : target ≤ chain.height) :
    ∃ hash, chain.at? target = some hash ∧ (chain.mapBlockIndex hash).isSome := by
  have inside : target < chain.vChain.length := by
    have := List.length_pos.mpr chain.chain_nonempty
    unfold height at within
    omega
  obtain ⟨block, found, -⟩ := chain.chain_height (List.getElem?_eq_getElem inside)
  exact ⟨_, List.getElem?_eq_getElem inside, by rw [found]; rfl⟩

/-- `a` is `b` or an ancestor of `b`: it is reached from `b` along `pprev`. -/
def AncestorOrSelf (a b : Hash) : Prop := ∃ steps, chain.walkBack steps b = some a

variable {chain} {a b c d : Hash}

/-- A walk of `m + n` steps is a walk of `m` steps, then one of `n`. -/
theorem walkBack_add : ∀ (m n : Nat) (hash : Hash),
    chain.walkBack (m + n) hash = (chain.walkBack m hash).bind (chain.walkBack n)
  | 0, n, hash => by simp [walkBack]
  | m + 1, n, hash => by
      rw [Nat.add_right_comm]
      simp only [walkBack, Option.bind_assoc, walkBack_add m n]

/-- A walk of `m` steps that ends at `a` passes through `b` after `n` steps. -/
theorem walkBack_split {m n : Nat} {hash : Hash} (walked : chain.walkBack (m + n) hash = some a) :
    ∃ b, chain.walkBack m hash = some b ∧ chain.walkBack n b = some a := by
  rw [walkBack_add] at walked
  exact Option.bind_eq_some.mp walked

/-- A block with a parent is in the index. -/
theorem known_of_pprev {parent : Hash} (linked : chain.pprev b = some parent) : (chain.mapBlockIndex b).isSome := by
  obtain ⟨block, found, -⟩ := Option.bind_eq_some.mp linked
  simp [found]

/-- From a block in the index, `GetAncestor` at the height a walk ends at finds
where it ends. -/
theorem getAncestor_of_known {steps : Nat} {hash : Hash} (known : (chain.mapBlockIndex hash).isSome)
    (walked : chain.walkBack steps hash = some a) : chain.getAncestor hash (chain.nHeight a) = some a := by
  obtain ⟨block, found⟩ := Option.isSome_iff_exists.mp known
  have lower := chain.walkBack_height walked
  rw [chain.nHeight_of_found found] at lower
  simp only [getAncestor, found]
  rw [if_neg (by omega), show block.nHeight - chain.nHeight a = steps by omega]
  exact walked

/-- A walk of at least one step starts at a block in the index. -/
theorem getAncestor_of_walkBack {steps : Nat} {hash : Hash} (walked : chain.walkBack (steps + 1) hash = some a) :
    chain.getAncestor hash (chain.nHeight a) = some a := by
  obtain ⟨parent, linked, -⟩ := Option.bind_eq_some.mp walked
  exact getAncestor_of_known (known_of_pprev linked) walked

namespace AncestorOrSelf

theorem refl (hash : Hash) : chain.AncestorOrSelf hash hash := ⟨0, rfl⟩

theorem trans (ab : chain.AncestorOrSelf a b) (bc : chain.AncestorOrSelf b c) : chain.AncestorOrSelf a c := by
  obtain ⟨n, ab⟩ := ab
  obtain ⟨m, bc⟩ := bc
  exact ⟨m + n, by rw [walkBack_add, bc]; exact ab⟩

theorem height_le (ab : chain.AncestorOrSelf a b) : chain.nHeight a ≤ chain.nHeight b := by
  obtain ⟨steps, walked⟩ := ab
  have := chain.walkBack_height walked
  omega

/-- An ancestor-or-self at a block's own height is the block itself. -/
theorem eq_of_height (ab : chain.AncestorOrSelf a b) (same : chain.nHeight a = chain.nHeight b) : a = b := by
  obtain ⟨steps, walked⟩ := ab
  have := chain.walkBack_height walked
  obtain rfl : steps = 0 := by omega
  exact (Option.some.inj walked).symm

/-- An ancestor-or-self of `b` no higher than `a`, itself an ancestor-or-self of
`b`, is an ancestor-or-self of `a`: the ancestors of a block form a line. -/
theorem of_lower (db : chain.AncestorOrSelf d b) (ab : chain.AncestorOrSelf a b)
    (lower : chain.nHeight d ≤ chain.nHeight a) : chain.AncestorOrSelf d a := by
  obtain ⟨n, db⟩ := db
  obtain ⟨m, ab⟩ := ab
  have := chain.walkBack_height db
  have := chain.walkBack_height ab
  obtain ⟨k, rfl⟩ : ∃ k, n = m + k := ⟨n - m, by omega⟩
  obtain ⟨a', ab', da'⟩ := walkBack_split db
  rw [ab] at ab'
  cases ab'
  exact ⟨k, da'⟩

/-- A proper ancestor of a block is an ancestor-or-self of its parent. -/
theorem of_ne (db : chain.AncestorOrSelf d b) (other : d ≠ b) :
    ∃ parent, chain.pprev b = some parent ∧ chain.AncestorOrSelf d parent := by
  obtain ⟨_ | steps, walked⟩ := db
  · exact absurd (Option.some.inj walked).symm other
  · obtain ⟨parent, linked, walked⟩ := Option.bind_eq_some.mp walked
    exact ⟨parent, linked, steps, walked⟩

theorem of_parent {parent : Hash} (linked : chain.pprev b = some parent) (dp : chain.AncestorOrSelf d parent) :
    chain.AncestorOrSelf d b := by
  obtain ⟨steps, walked⟩ := dp
  exact ⟨steps + 1, by simp only [walkBack, linked, Option.some_bind, walked]⟩

/-- A common ancestor-or-self of two distinct blocks of one height is a proper
ancestor of both. -/
theorem ne_of_level (da : chain.AncestorOrSelf d a) (db : chain.AncestorOrSelf d b)
    (level : chain.nHeight a = chain.nHeight b) (distinct : a ≠ b) : d ≠ a ∧ d ≠ b := by
  constructor <;> rintro rfl
  · exact distinct (db.eq_of_height level)
  · exact distinct (da.eq_of_height level.symm).symm

/-- What `GetAncestor` finds is an ancestor-or-self of where it starts. -/
theorem of_getAncestor {target : Nat} (found : chain.getAncestor b target = some a) : chain.AncestorOrSelf a b := by
  unfold getAncestor at found
  split at found
  · split_ifs at found
    exact ⟨_, found⟩
  · cases found

end AncestorOrSelf

/-- A block in the index has an ancestor at every height between one of its
ancestors and itself, and `GetAncestor` finds it. -/
theorem getAncestor_exists {target : Nat} (known : (chain.mapBlockIndex b).isSome) (db : chain.AncestorOrSelf d b)
    (lower : chain.nHeight d ≤ target) (upper : target ≤ chain.nHeight b) :
    ∃ a, chain.getAncestor b target = some a ∧ chain.AncestorOrSelf d a := by
  obtain ⟨steps, walked⟩ := db
  have := chain.walkBack_height walked
  obtain ⟨a, down, rest⟩ := walkBack_split (m := chain.nHeight b - target) (n := target - chain.nHeight d)
    (by rw [← walked]; congr 1; omega)
  have := chain.walkBack_height down
  exact ⟨a, by rw [show target = chain.nHeight a by omega]; exact getAncestor_of_known known down, _, rest⟩

/-- The parent of what `GetAncestor` finds is what it finds one height lower. -/
theorem getAncestor_pprev {target : Nat} {parent : Hash} (found : chain.getAncestor b target = some a)
    (linked : chain.pprev a = some parent) : chain.getAncestor b (chain.nHeight parent) = some parent := by
  have known : (chain.mapBlockIndex b).isSome := by
    unfold getAncestor at found
    split at found <;> simp_all
  obtain ⟨steps, walked⟩ := AncestorOrSelf.of_getAncestor found
  have further : chain.walkBack (steps + 1) b = some parent := by
    rw [walkBack_add, walked]
    simp [walkBack, linked]
  exact getAncestor_of_known known further

/-- What the lock-step walk stops at on the second side was reached from where
that side started. -/
theorem meetLoop_snd : ∀ {fuel : Nat} {oa ob : Option Hash}, (chain.meetLoop fuel oa ob).2 = some c →
    ∃ b, ob = some b ∧ chain.AncestorOrSelf c b
  | 0, _, _, met => ⟨c, met, .refl c⟩
  | fuel + 1, some a, some b, met => by
      rw [meetLoop] at met
      split_ifs at met
      · cases met
        exact ⟨c, rfl, .refl c⟩
      · obtain ⟨b', linked, cb'⟩ := meetLoop_snd met
        exact ⟨b, rfl, cb'.of_parent linked⟩
  | _ + 1, none, _, met => ⟨c, met, .refl c⟩
  | _ + 1, some _, none, met => by cases met

/-- What `LastCommonAncestor` returns is an ancestor-or-self of its second block. -/
theorem lastCommonAncestor_ancestor {pa pb : Hash} (found : chain.lastCommonAncestor pa pb = some (some c)) :
    chain.AncestorOrSelf c pb := by
  unfold lastCommonAncestor at found
  dsimp only at found
  generalize (if chain.nHeight pb < chain.nHeight pa then chain.getAncestor pa (chain.nHeight pb) else some pa) = oa
    at found
  generalize levelled : (if chain.nHeight pa < chain.nHeight pb then chain.getAncestor pb (chain.nHeight pa)
    else some pb) = ob at found
  split_ifs at found with agree
  obtain ⟨b, rfl, cb⟩ := meetLoop_snd (agree.symm.trans (Option.some.inj found))
  split_ifs at levelled
  · exact cb.trans (.of_getAncestor levelled)
  · cases levelled
    exact cb

/-- **The lock-step walk of `LastCommonAncestor`**: from two blocks of one height
with a common ancestor, and fuel above that height, the walk meets at a common
ancestor of which every common ancestor is an ancestor. -/
theorem meetLoop_meets : ∀ (fuel : Nat) {a b : Hash}, chain.nHeight a = chain.nHeight b →
    chain.nHeight a < fuel → (∃ d, chain.AncestorOrSelf d a ∧ chain.AncestorOrSelf d b) →
    ∃ c, chain.meetLoop fuel (some a) (some b) = (some c, some c) ∧ chain.AncestorOrSelf c a ∧
      chain.AncestorOrSelf c b ∧ ∀ d, chain.AncestorOrSelf d a → chain.AncestorOrSelf d b → chain.AncestorOrSelf d c
  | 0, _, _, _, below, _ => absurd below (Nat.not_lt_zero _)
  | fuel + 1, a, b, level, below, ⟨d, da, db⟩ => by
      rw [meetLoop]
      by_cases same : a = b
      · subst same
        exact ⟨a, if_pos rfl, .refl a, .refl a, fun _ da _ => da⟩
      rw [if_neg same]
      obtain ⟨notA, notB⟩ := da.ne_of_level db level same
      obtain ⟨a', linkedA, da'⟩ := da.of_ne notA
      obtain ⟨b', linkedB, db'⟩ := db.of_ne notB
      have stepA := chain.pprev_height linkedA
      have stepB := chain.pprev_height linkedB
      obtain ⟨c, met, ca, cb, deepest⟩ := meetLoop_meets fuel (by omega) (by omega) ⟨d, da', db'⟩
      rw [linkedA, linkedB]
      refine ⟨c, met, ca.of_parent linkedA, cb.of_parent linkedB, fun e ea eb => ?_⟩
      obtain ⟨notA', notB'⟩ := ea.ne_of_level eb level same
      obtain ⟨a'', linkedA', ea'⟩ := ea.of_ne notA'
      obtain ⟨b'', linkedB', eb'⟩ := eb.of_ne notB'
      rw [linkedA] at linkedA'
      rw [linkedB] at linkedB'
      cases linkedA'
      cases linkedB'
      exact deepest e ea' eb'

/-- The levelling step of `LastCommonAncestor`: a block brought down to the
height of the other, when it is higher, is an ancestor-or-self of it at the lower
of the two heights, and every ancestor-or-self of the block no higher than the
other is one of it. -/
theorem level_common {pa pb : Hash} (da : chain.AncestorOrSelf d pa) (lower : chain.nHeight d ≤ chain.nHeight pb) :
    ∃ a, (if chain.nHeight pb < chain.nHeight pa then chain.getAncestor pa (chain.nHeight pb) else some pa) = some a ∧
      chain.AncestorOrSelf a pa ∧ chain.nHeight a = min (chain.nHeight pa) (chain.nHeight pb) ∧
      ∀ e, chain.AncestorOrSelf e pa → chain.nHeight e ≤ chain.nHeight pb → chain.AncestorOrSelf e a := by
  split_ifs with higher
  · obtain ⟨steps, walked⟩ := da
    have := chain.walkBack_height walked
    obtain ⟨a, down, -⟩ := walkBack_split (m := chain.nHeight pa - chain.nHeight pb - 1 + 1)
      (n := steps - (chain.nHeight pa - chain.nHeight pb)) (by rw [← walked]; congr 1; omega)
    have top := chain.walkBack_height down
    have aa : chain.AncestorOrSelf a pa := ⟨_, down⟩
    refine ⟨a, ?_, aa, by omega, fun e ea below => ea.of_lower aa (by omega)⟩
    rw [show chain.nHeight pb = chain.nHeight a by omega]
    exact getAncestor_of_walkBack down
  · exact ⟨pa, rfl, .refl pa, by omega, fun e ea _ => ea⟩

/-- Levelling and the lock-step walk meet at the deepest common ancestor. -/
theorem lastCommonAncestor_meets {pa pb : Hash}
    (common : ∃ d, chain.AncestorOrSelf d pa ∧ chain.AncestorOrSelf d pb) :
    ∃ c, chain.lastCommonAncestor pa pb = some (some c) ∧ chain.AncestorOrSelf c pa ∧
      chain.AncestorOrSelf c pb ∧
      ∀ d, chain.AncestorOrSelf d pa → chain.AncestorOrSelf d pb → chain.AncestorOrSelf d c := by
  obtain ⟨d, da, db⟩ := common
  obtain ⟨a, levelA, aa, heightA, belowA⟩ := level_common da db.height_le
  obtain ⟨b, levelB, bb, heightB, belowB⟩ := level_common db da.height_le
  obtain ⟨c, met, ca, cb, deepest⟩ := meetLoop_meets (min (chain.nHeight pa) (chain.nHeight pb) + 1)
    (by omega) (by omega) ⟨d, belowA d da db.height_le, belowB d db da.height_le⟩
  refine ⟨c, ?_, ca.trans aa, cb.trans bb,
    fun e ea eb => deepest e (belowA e ea eb.height_le) (belowB e eb ea.height_le)⟩
  simp only [lastCommonAncestor, levelA, levelB, met, if_true]

/-- **`LastCommonAncestor` returns the deepest common ancestor.** For any two
blocks with a common ancestor-or-self, it returns, without failing its `assert`,
a common ancestor-or-self of both of which every common ancestor-or-self is an
ancestor-or-self. -/
theorem lastCommonAncestor_deepest {pa pb : Hash}
    (common : ∃ d, chain.AncestorOrSelf d pa ∧ chain.AncestorOrSelf d pb) :
    ∃ c, chain.lastCommonAncestor pa pb = some (some c) ∧ chain.AncestorOrSelf c pa ∧
      chain.AncestorOrSelf c pb ∧
      ∀ d, chain.AncestorOrSelf d pa → chain.AncestorOrSelf d pb → chain.AncestorOrSelf d c :=
  lastCommonAncestor_meets common

/-- A fork at the genesis `1`: the branch `2, 3` and the block `4`. -/
def forked : ChainView where
  mapBlockIndex hash :=
    if hash = 1 then some ⟨0, none, 1, 1, true, true, true, 0, 0⟩
    else if hash = 2 then some ⟨1, some 1, 2, 2, true, true, true, 0, 0⟩
    else if hash = 3 then some ⟨2, some 2, 3, 3, true, true, true, 0, 0⟩
    else if hash = 4 then some ⟨1, some 1, 2, 2, true, true, true, 0, 0⟩ else none
  vChain := [1]
  pindexBestHeader := some 3
  getLocator _ := [1]
  prev_height {hash block parent} found linked := by
    dsimp only at found
    split_ifs at found <;> cases found <;> cases linked <;> exact ⟨_, rfl, rfl⟩
  root_height {hash block} found unlinked := by
    dsimp only at found
    split_ifs at found <;> cases found <;> first | rfl | cases unlinked
  chain_nonempty := List.cons_ne_nil _ _
  chain_height {height hash} found := by
    cases height with
    | zero =>
        cases found
        exact ⟨_, rfl, rfl⟩
    | succ height => cases found
  chain_linked {height hash} found := by cases found

/-- Across the fork, `3` is first walked down to the height of `4`, then both
step back together to the genesis. -/
theorem lastCommonAncestor_forked :
    forked.nHeight 3 = 2 ∧ forked.nHeight 4 = 1 ∧ forked.lastCommonAncestor 3 4 = some (some 1) ∧
    ∃ c, forked.lastCommonAncestor 3 4 = some (some c) ∧ forked.AncestorOrSelf c 3 ∧
      forked.AncestorOrSelf c 4 ∧
      ∀ d, forked.AncestorOrSelf d 3 → forked.AncestorOrSelf d 4 → forked.AncestorOrSelf d c :=
  ⟨rfl, rfl, rfl, lastCommonAncestor_deepest ⟨1, ⟨2, rfl⟩, ⟨1, rfl⟩⟩⟩

/-! ## Walking up the active chain -/

/-- A block of the active chain sits at its own height there. -/
theorem nHeight_of_at {height : Nat} {hash : Hash} (found : chain.vChain[height]? = some hash) :
    chain.nHeight hash = height := by
  obtain ⟨block, known, level⟩ := chain.chain_height found
  rw [chain.nHeight_of_found known, level]

theorem contains_of_at {height : Nat} {hash : Hash} (found : chain.vChain[height]? = some hash) :
    chain.contains hash = true := by
  obtain ⟨block, known, rfl⟩ := chain.chain_height found
  simp [contains, known, found]

/-- `Next` of the active chain's block at a height is the block one above. -/
theorem next_of_at {height : Nat} {hash : Hash} (found : chain.vChain[height]? = some hash) :
    chain.next hash = chain.vChain[height + 1]? := by
  obtain ⟨block, known, rfl⟩ := chain.chain_height found
  simp [next, chain.contains_of_at found, known]

/-- The active chain from a height on starts with the block at that height. -/
theorem drop_of_at {start : Nat} {hash : Hash} (found : chain.vChain[start]? = some hash) :
    chain.vChain.drop start = hash :: chain.vChain.drop (start + 1) := by
  obtain ⟨inside, rfl⟩ := List.getElem?_eq_some_iff.mp found
  exact List.drop_eq_getElem_cons inside

theorem tip_at : chain.vChain[chain.height]? = some chain.tip := by
  rw [tip, List.getLast_eq_getElem, height]
  exact List.getElem?_eq_getElem _

/-- The block at the last height of the active chain is its tip. -/
theorem eq_tip_of_last {height : Nat} {hash : Hash} (found : chain.vChain[height]? = some hash)
    (last : chain.vChain[height + 1]? = none) : hash = chain.tip := by
  have inside := (List.getElem?_eq_some_iff.mp found).1
  have top : height = chain.height := by
    simp only [List.getElem?_eq_none_iff] at last
    unfold ChainView.height
    omega
  rw [top, tip_at] at found
  exact (Option.some.inj found).symm

theorem at_of_contains {hash : Hash} (contained : chain.contains hash = true) :
    chain.vChain[chain.nHeight hash]? = some hash := by
  unfold contains at contained
  split at contained
  · rename_i block known
    rw [chain.nHeight_of_found known]
    exact of_decide_eq_true contained
  · cases contained

/-- `FindForkInGlobalIndex` answers a block of the active chain. -/
theorem findForkInGlobalIndex_at (locator : List Hash) :
    chain.vChain[chain.nHeight (chain.findForkInGlobalIndex locator)]? =
      some (chain.findForkInGlobalIndex locator) := by
  apply chain.at_of_contains
  unfold findForkInGlobalIndex
  split
  · split
    · assumption
    · exact chain.contains_of_at chain.tip_at
  · have genesis : chain.vChain[0]? = some (chain.vChain.head chain.chain_nonempty) := by
      rw [← List.head?_eq_getElem?, List.head?_eq_head]
    exact chain.contains_of_at genesis

end ChainView

end XuezNet
