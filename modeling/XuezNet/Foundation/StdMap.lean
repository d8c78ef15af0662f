import Mathlib.Data.List.Perm.Basic
import Mathlib.Data.List.Sort

/-! # Ordered maps

`std::map` keeps its entries sorted by key, so iteration, `begin()` and
`lower_bound` follow the key order and two maps with the same entries are the
same value. `StdMap` is that container: a list of entries whose keys strictly
increase, the ordering carried as a field so that no ill-formed map can be built.
-/

/-- **An ordered map.** The entries of a `std::map`, in key order. -/
structure StdMap (K V : Type) [LinearOrder K] where
  entries : List (K × V)
  sorted : entries.Pairwise (fun a b => a.1 < b.1)

namespace StdMap

variable {K V : Type} [LinearOrder K]

/-- Assign `v` at `k` in a key-sorted list, inserting the entry in key order when
`k` is new (`operator[]` followed by an assignment). -/
def setEntry (k : K) (v : V) : List (K × V) → List (K × V)
  | [] => [(k, v)]
  | e :: rest =>
      if k < e.1 then (k, v) :: e :: rest
      else if k = e.1 then (k, v) :: rest
      else e :: setEntry k v rest

theorem mem_setEntry {k : K} {v : V} {l : List (K × V)} {e : K × V}
    (member : e ∈ setEntry k v l) : e = (k, v) ∨ e ∈ l := by
  induction l with
  | nil => simpa [setEntry] using member
  | cons head rest ih =>
      simp only [setEntry] at member
      split_ifs at member <;> simp only [List.mem_cons] at member
      · rcases member with same | same | inside <;> simp_all
      · rcases member with same | inside <;> simp_all
      · rcases member with same | inside
        · simp [same]
        · rcases ih inside with same | inside <;> simp_all

theorem setEntry_pairwise {k : K} {v : V} {l : List (K × V)}
    (sorted : l.Pairwise (fun a b => a.1 < b.1)) :
    (setEntry k v l).Pairwise (fun a b => a.1 < b.1) := by
  induction l with
  | nil => simp [setEntry]
  | cons head rest ih =>
      rw [List.pairwise_cons] at sorted
      simp only [setEntry]
      split_ifs with below same
      · refine List.Pairwise.cons ?_ (List.Pairwise.cons sorted.1 sorted.2)
        intro e member
        rcases List.mem_cons.mp member with rfl | inside
        · exact below
        · exact lt_trans below (sorted.1 e inside)
      · subst same
        exact List.Pairwise.cons sorted.1 sorted.2
      · refine List.Pairwise.cons ?_ (ih sorted.2)
        intro e member
        rcases mem_setEntry member with rfl | inside
        · exact lt_of_le_of_ne (not_lt.mp below) (Ne.symm same)
        · exact sorted.1 e inside

/-- The empty map. -/
def empty : StdMap K V := ⟨[], List.Pairwise.nil⟩

instance : EmptyCollection (StdMap K V) := ⟨empty⟩

/-- `find`: the value stored at a key, if any. -/
def find? (m : StdMap K V) (k : K) : Option V := m.entries.lookup k

/-- `count(k) != 0`. -/
def contains (m : StdMap K V) (k : K) : Bool := (m.find? k).isSome

/-- `size()`. -/
def size (m : StdMap K V) : Nat := m.entries.length

/-- `m[k] = v`: assign, inserting the key when it is new. -/
def insert (m : StdMap K V) (k : K) (v : V) : StdMap K V :=
  ⟨setEntry k v m.entries, setEntry_pairwise m.sorted⟩

/-- `emplace(k, v)`: insert only when the key is new; an existing entry is kept. -/
def emplace (m : StdMap K V) (k : K) (v : V) : StdMap K V :=
  if m.contains k then m else m.insert k v

/-- `erase(k)`. -/
def erase (m : StdMap K V) (k : K) : StdMap K V :=
  ⟨m.entries.filter (fun e => !decide (e.1 = k)), m.sorted.filter _⟩

/-- The entries that pass `p`: what a loop erasing the others while it iterates
leaves. -/
def filter (m : StdMap K V) (p : K → V → Bool) : StdMap K V :=
  ⟨m.entries.filter (fun e => p e.1 e.2), m.sorted.filter _⟩

/-- Apply `f` to every value, keeping the keys. -/
def map (m : StdMap K V) (f : V → V) : StdMap K V :=
  ⟨m.entries.map (fun e => (e.1, f e.2)), List.pairwise_map.mpr m.sorted⟩

/-- Apply `f` to the value at `k`, if there is one. -/
def modify (m : StdMap K V) (k : K) (f : V → V) : StdMap K V :=
  match m.find? k with
  | some v => m.insert k (f v)
  | none => m

/-- The key of `begin()`, if the map is not empty. -/
def firstKey? (m : StdMap K V) : Option K := m.entries.head?.map Prod.fst

/-- The key of `lower_bound(k)`: the first entry whose key is not below `k`. -/
def lowerBound (m : StdMap K V) (k : K) : Option K :=
  (m.entries.find? (fun e => decide (k ≤ e.1))).map Prod.fst


/-! ## Lookups -/

theorem lookup_cons_ite (k k' : K) (v : V) (l : List (K × V)) :
    ((k, v) :: l).lookup k' = if k' = k then some v else l.lookup k' := by
  by_cases same : k' = k
  · simp [same]
  · have differ : (k' == k) = false := by simpa using same
    simp [List.lookup_cons, differ, same]

theorem lookup_setEntry (k k' : K) (v : V) (l : List (K × V)) :
    (setEntry k v l).lookup k' = if k' = k then some v else l.lookup k' := by
  induction l with
  | nil => simp [setEntry, lookup_cons_ite]
  | cons head rest ih =>
      obtain ⟨key, value⟩ := head
      by_cases same : k' = k
      · subst same
        simp only [setEntry]
        split_ifs <;> simp_all [lookup_cons_ite]
      · simp only [setEntry]
        split_ifs with below equal
        · simp [lookup_cons_ite, same]
        · subst equal
          simp [lookup_cons_ite, same]
        · by_cases here : k' = key <;> simp [lookup_cons_ite, here, ih, same]

theorem lookup_filter_ne (k k' : K) (l : List (K × V)) :
    (l.filter (fun e => !decide (e.1 = k))).lookup k' = if k' = k then none else l.lookup k' := by
  induction l with
  | nil => simp
  | cons head rest ih =>
      obtain ⟨key, value⟩ := head
      by_cases here : key = k
      · subst here
        have drop : ((key, value) :: rest).filter (fun e => !decide (e.1 = key)) =
            rest.filter (fun e => !decide (e.1 = key)) := by simp [List.filter_cons]
        rw [drop, ih]
        by_cases same : k' = key <;> simp [lookup_cons_ite, same]
      · by_cases same : k' = key
        · subst same
          simp [List.filter_cons, lookup_cons_ite, here, Ne.symm here]
        · simp [List.filter_cons, lookup_cons_ite, ih, here, same]

theorem lookup_eq_none_of_lt {k : K} : ∀ {l : List (K × V)}, (∀ e ∈ l, k < e.1) → l.lookup k = none
  | [], _ => rfl
  | (key, value) :: rest, above => by
      rw [lookup_cons_ite, if_neg (ne_of_lt (above _ (List.mem_cons_self _ _)))]
      exact lookup_eq_none_of_lt fun e member => above e (List.mem_cons_of_mem _ member)

/-- Filtering a key-sorted list keeps the entry of a key exactly when it passes. -/
theorem lookup_filter (p : K → V → Bool) (k : K) : ∀ {l : List (K × V)}, l.Pairwise (fun a b => a.1 < b.1) →
    (l.filter (fun e => p e.1 e.2)).lookup k = (l.lookup k).filter (p k)
  | [], _ => rfl
  | (key, value) :: rest, sorted => by
      have tail := lookup_filter p k (List.Pairwise.of_cons sorted)
      by_cases same : k = key
      · subst same
        have absent : rest.lookup k = none := lookup_eq_none_of_lt fun _ member => List.rel_of_pairwise_cons sorted member
        by_cases pass : p k value <;> simp [List.filter_cons, pass, lookup_cons_ite, tail, absent, Option.filter]
      · by_cases pass : p key value <;> simp [List.filter_cons, pass, lookup_cons_ite, same, tail]

@[simp] theorem find?_empty (k : K) : (empty : StdMap K V).find? k = none := rfl

@[simp] theorem find?_emptyc (k : K) : (∅ : StdMap K V).find? k = none := rfl

@[simp] theorem find?_insert (m : StdMap K V) (k k' : K) (v : V) :
    (m.insert k v).find? k' = if k' = k then some v else m.find? k' :=
  lookup_setEntry k k' v m.entries

/-- What a lookup finds after an insertion: the value inserted, or what was there. -/
theorem find?_insert_eq_some {m : StdMap K V} {k k' : K} {v v' : V} (found : (m.insert k v).find? k' = some v') :
    k' = k ∧ v' = v ∨ k' ≠ k ∧ m.find? k' = some v' := by
  rw [find?_insert] at found
  split_ifs at found with same
  · exact .inl ⟨same, (Option.some.inj found).symm⟩
  · exact .inr ⟨same, found⟩

@[simp] theorem find?_erase (m : StdMap K V) (k k' : K) :
    (m.erase k).find? k' = if k' = k then none else m.find? k' :=
  lookup_filter_ne k k' m.entries

@[simp] theorem find?_filter (m : StdMap K V) (p : K → V → Bool) (k : K) :
    (m.filter p).find? k = (m.find? k).filter (p k) :=
  lookup_filter p k m.sorted

@[simp] theorem find?_map (m : StdMap K V) (f : V → V) (k : K) : (m.map f).find? k = (m.find? k).map f := by
  show (m.entries.map fun e => (e.1, f e.2)).lookup k = (m.entries.lookup k).map f
  induction m.entries with
  | nil => rfl
  | cons e rest ih =>
      obtain ⟨key, value⟩ := e
      by_cases same : k = key <;> simp [lookup_cons_ite, same, ih]

@[simp] theorem find?_modify (m : StdMap K V) (k k' : K) (f : V → V) :
    (m.modify k f).find? k' = if k' = k then (m.find? k).map f else m.find? k' := by
  unfold modify
  split
  · rename_i v found
    simp [found]
  · rename_i missing
    split_ifs with same
    · rw [same, missing]
      rfl
    · rfl

/-- Erasing the keys of a list one after another removes exactly those keys. -/
theorem find?_foldl_erase {α : Type} (key : α → K) (l : List α) (m : StdMap K V) (k : K) :
    (l.foldl (fun m a => m.erase (key a)) m).find? k =
      if ∃ a ∈ l, key a = k then none else m.find? k := by
  induction l generalizing m with
  | nil => simp
  | cons a rest ih =>
      rw [List.foldl_cons, ih]
      by_cases here : key a = k
      · simp [here]
      · simp [here, Ne.symm here]

theorem find?_emplace (m : StdMap K V) (k k' : K) (v : V) :
    (m.emplace k v).find? k' =
      if k' = k ∧ m.contains k = false then some v else m.find? k' := by
  by_cases present : m.contains k
  · have found : m.find? k ≠ none := by simpa [contains, Option.isSome_iff_ne_none] using present
    simp [emplace, present, found]
  · have missing : m.find? k = none := by simpa [contains] using present
    by_cases same : k' = k
    · subst same
      simp [emplace, present, missing]
    · simp [emplace, present, same]

@[simp] theorem contains_iff (m : StdMap K V) (k : K) :
    m.contains k = true ↔ m.find? k ≠ none := by
  simp [contains, Option.isSome_iff_ne_none]

/-- An entry is listed exactly when the lookup of its key returns its value:
keys are unique because they strictly increase. -/
theorem mem_entries_iff (m : StdMap K V) (k : K) (v : V) :
    (k, v) ∈ m.entries ↔ m.find? k = some v := by
  obtain ⟨entries, sorted⟩ := m
  simp only [find?]
  induction entries with
  | nil => simp
  | cons head rest ih =>
      obtain ⟨key, value⟩ := head
      rw [List.pairwise_cons] at sorted
      by_cases here : k = key
      · subst here
        have absent : (k, v) ∉ rest := fun inside => lt_irrefl k (sorted.1 _ inside)
        simp [lookup_cons_ite, absent, eq_comm]
      · simp [lookup_cons_ite, here, ih sorted.2]

theorem contains_insert (m : StdMap K V) (k k' : K) (v : V) :
    (m.insert k v).contains k' = (decide (k' = k) || m.contains k') := by
  unfold contains
  rw [find?_insert]
  split_ifs <;> simp [*]

theorem contains_eq_false_of_insert {m : StdMap K V} {k k' : K} {v : V}
    (absent : (m.insert k v).contains k' = false) : m.contains k' = false := by
  rw [contains_insert, Bool.or_eq_false_iff] at absent
  exact absent.2

theorem contains_erase (m : StdMap K V) (k k' : K) :
    (m.erase k).contains k' = (!decide (k' = k) && m.contains k') := by
  unfold contains
  rw [find?_erase]
  split_ifs <;> simp [*]

/-- The keys, largest first, are distinct. -/
theorem nodup_keys_reverse (m : StdMap K V) : (m.entries.map Prod.fst).reverse.Nodup :=
  List.nodup_reverse.mpr (List.pairwise_map.mpr (m.sorted.imp ne_of_lt))

theorem contains_of_mem_keys {m : StdMap K V} {k : K} (member : k ∈ (m.entries.map Prod.fst).reverse) :
    m.contains k = true := by
  obtain ⟨⟨k', v⟩, inside, rfl⟩ := List.mem_map.mp (List.mem_reverse.mp member)
  simp [contains, (mem_entries_iff m k' v).mp inside]

/-- Two maps with the same lookups are the same map. -/
theorem ext {m m' : StdMap K V} (same : ∀ k, m.find? k = m'.find? k) : m = m' := by
  obtain ⟨entries, sorted⟩ := m
  obtain ⟨entries', sorted'⟩ := m'
  have nodup : ∀ {l : List (K × V)}, l.Pairwise (fun a b => a.1 < b.1) → l.Nodup :=
    fun sorted => sorted.imp (fun {a b} below => by rintro rfl; exact lt_irrefl _ below)
  have members : ∀ e, e ∈ entries ↔ e ∈ entries' := by
    intro e
    have := mem_entries_iff ⟨entries, sorted⟩ e.1 e.2
    have := mem_entries_iff ⟨entries', sorted'⟩ e.1 e.2
    simp_all
  have perm := (List.perm_ext_iff_of_nodup (nodup sorted) (nodup sorted')).mpr members
  have equal := perm.eq_of_sorted
    (fun a b _ _ below above => absurd (lt_trans below above) (lt_irrefl _)) sorted sorted'
  subst equal
  rfl


theorem contains_firstKey? {m : StdMap K V} {k : K} (first : m.firstKey? = some k) :
    m.contains k = true := by
  obtain ⟨entries, sorted⟩ := m
  cases entries with
  | nil => simp [firstKey?] at first
  | cons head rest =>
      simp only [firstKey?, List.head?_cons, Option.map_some', Option.some.injEq] at first
      subst first
      simp [contains, find?, lookup_cons_ite]

theorem contains_lowerBound {m : StdMap K V} {k k' : K} (bound : m.lowerBound k = some k') :
    m.contains k' = true := by
  obtain ⟨entry, found, rfl⟩ := Option.map_eq_some'.mp bound
  have member := List.mem_of_find?_eq_some found
  have present := (mem_entries_iff m entry.1 entry.2).mp member
  simp [contains, present]

theorem firstKey?_isSome {m : StdMap K V} (nonempty : m.entries ≠ []) : m.firstKey?.isSome := by
  obtain ⟨entries, sorted⟩ := m
  cases entries with
  | nil => exact absurd rfl nonempty
  | cons head rest => simp [firstKey?]

/-! ## Counting entries -/

/-- The number of entries whose key and value satisfy `p`. -/
def countP (m : StdMap K V) (p : K → V → Bool) : Nat :=
  m.entries.countP (fun e => p e.1 e.2)

/-- Whether the entry stored at `k` satisfies `p`, as `0` or `1`. -/
def countAt (m : StdMap K V) (p : K → V → Bool) (k : K) : Nat :=
  match m.find? k with
  | some v => (p k v).toNat
  | none => 0

theorem filter_key_eq {k : K} {l : List (K × V)} (sorted : l.Pairwise (fun a b => a.1 < b.1)) :
    l.filter (fun e => decide (e.1 = k)) =
      match l.lookup k with
      | some v => [(k, v)]
      | none => [] := by
  induction l with
  | nil => simp
  | cons head rest ih =>
      obtain ⟨key, value⟩ := head
      rw [List.pairwise_cons] at sorted
      by_cases here : key = k
      · subst here
        have later : rest.filter (fun e => decide (e.1 = key)) = [] :=
          List.filter_eq_nil_iff.mpr fun e inside same => by
            have above := sorted.1 e inside
            rw [of_decide_eq_true same] at above
            exact lt_irrefl key above
        simp [List.filter_cons, lookup_cons_ite, later]
      · simp [List.filter_cons, lookup_cons_ite, here, Ne.symm here, ih sorted.2]

theorem setEntry_perm {k : K} {v : V} {l : List (K × V)}
    (sorted : l.Pairwise (fun a b => a.1 < b.1)) :
    List.Perm (setEntry k v l) ((k, v) :: l.filter (fun e => !decide (e.1 = k))) := by
  induction l with
  | nil => simp [setEntry]
  | cons head rest ih =>
      rw [List.pairwise_cons] at sorted
      have above : ∀ e ∈ rest, head.1 < e.1 := sorted.1
      simp only [setEntry]
      split_ifs with below same
      · have kept : rest.filter (fun e => !decide (e.1 = k)) = rest :=
          List.filter_eq_self.mpr fun e inside => by
            simpa using ne_of_gt (lt_trans below (above e inside))
        simp [List.filter_cons, ne_of_gt below, kept]
      · subst same
        have kept : rest.filter (fun e => !decide (e.1 = head.1)) = rest :=
          List.filter_eq_self.mpr fun e inside => by simpa using ne_of_gt (above e inside)
        simp [List.filter_cons, kept]
      · have differ : head.1 ≠ k := fun equal => same equal.symm
        have keep : ((head :: rest).filter (fun e => !decide (e.1 = k))) =
            head :: rest.filter (fun e => !decide (e.1 = k)) := by simp [List.filter_cons, differ]
        rw [keep]
        exact ((ih sorted.2).cons head).trans (List.Perm.swap _ _ _)

theorem countP_erase (m : StdMap K V) (p : K → V → Bool) (k : K) :
    (m.erase k).countP p + m.countAt p k = m.countP p := by
  have split := List.countP_eq_countP_filter_add m.entries (fun e => p e.1 e.2)
    (fun e => !decide (e.1 = k))
  have single := filter_key_eq (k := k) m.sorted
  simp only [Bool.not_not] at split
  rw [single] at split
  simp only [countP, countAt, erase, find?, split]
  cases m.entries.lookup k with
  | none => simp
  | some v => cases holds : p k v <;> simp [List.countP_cons, holds]

theorem countP_insert (m : StdMap K V) (p : K → V → Bool) (k : K) (v : V) :
    (m.insert k v).countP p + m.countAt p k = m.countP p + (p k v).toNat := by
  have perm := (setEntry_perm (k := k) (v := v) m.sorted).countP_eq (fun e => p e.1 e.2)
  have erased := countP_erase m p k
  simp only [countP, insert, erase] at perm erased ⊢
  rw [perm, List.countP_cons, ← erased]
  cases p k v <;> simp
  omega

theorem size_erase (m : StdMap K V) (k : K) :
    (m.erase k).size + (m.contains k).toNat = m.size := by
  have erased := countP_erase m (fun _ _ => true) k
  simp only [countP, List.countP_true, countAt] at erased
  cases found : m.find? k <;> simp_all [size, contains]

end StdMap

/-- **An ordered set**: `std::set`, a map whose values carry nothing. -/
abbrev StdSet (K : Type) [LinearOrder K] := StdMap K Unit
