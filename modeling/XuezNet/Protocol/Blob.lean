import Mathlib.Data.List.Basic

/-! # Opaque blobs and their 64-bit extractors

`base_blob<BITS>` of `uint256.h` stores `WIDTH = BITS / 8` bytes. Two members read
a 64-bit number out of it: `Get64(n)`, which the header writes as
`data[2 * n] | (uint64_t)data[2 * n + 1] << 32`, and `uint256::GetCheapHash()`,
which is `ReadLE64(data)`, the first eight bytes read as a little-endian word.

`ReadLE64` lives in `common.h`, which is not part of the sources; it is modelled
by what it computes, `Σ k < 8, ptr[k] * 256 ^ k`, in Horner form (`leValue`).

The extractors agree only on blobs whose bytes 1 to 7 are zero
(`get64_zero_eq_getCheapHash_iff`): `Get64` indexes bytes as if `data` held
32-bit limbs, as the `base_uint` it was copied from does.

The comparisons are `memcmp` over the whole array, so a blob compares as its
bytes read as a big-endian number (`memcmp_eq_compare`). The rest of the model
writes a hash as that number (`toHash`): `operator<`, `operator==` and
`operator!=` are the comparisons of the numbers, the encoding is injective, and
the null blob is `0` (`toHash_refines`). `Serialize` writes the bytes and
`Unserialize` reads them back from the front of the stream
(`unserialize_eq_some_iff`).
-/

namespace XuezNet

/-- `base_blob<BITS>`: its `data` array of `WIDTH = BITS / 8` bytes. -/
structure BaseBlob (BITS : Nat) where
  data : List UInt8
  width : data.length = BITS / 8

/-- `uint256`, the 256-bit blob. -/
abbrev Uint256 := BaseBlob 256

namespace BaseBlob

variable {BITS : Nat}

/-- `Get64(n)`: `data[2 * n] | (uint64_t)data[2 * n + 1] << 32`. A read past
`WIDTH` is undefined behaviour in the source and `none` here. -/
def get64 (blob : BaseBlob BITS) (n : Nat) : Option UInt64 := do
  let low ← blob.data[2 * n]?
  let high ← blob.data[2 * n + 1]?
  some (low.toUInt64 ||| high.toUInt64 <<< 32)

/-- The little-endian value of a byte string, `Σ k, bytes[k] * 256 ^ k`. -/
def leValue (bytes : List UInt8) : Nat :=
  bytes.foldr (fun byte word => byte.toNat + 256 * word) 0

@[simp] theorem leValue_nil : leValue [] = 0 := rfl

@[simp] theorem leValue_cons (byte : UInt8) (rest : List UInt8) :
    leValue (byte :: rest) = byte.toNat + 256 * leValue rest := rfl

/-- `ReadLE64(ptr)` of `common.h`: the eight bytes at `ptr` as a little-endian word. -/
def readLE64 (ptr : List UInt8) : UInt64 := UInt64.ofNat (leValue (ptr.take 8))

/-- `uint256::GetCheapHash()`: `ReadLE64(data)`. -/
def getCheapHash (blob : Uint256) : UInt64 := readLE64 blob.data

theorem leValue_lt (bytes : List UInt8) : leValue bytes < Nat.pow 256 bytes.length := by
  induction bytes with
  | nil => exact Nat.one_pos
  | cons byte rest ih =>
    have : byte.toNat < 256 := byte.toBitVec.isLt
    have grow : Nat.pow 256 (rest.length + 1) = Nat.pow 256 rest.length * 256 := rfl
    rw [leValue_cons, List.length_cons, grow]
    omega

/-- Base-256 digits are unique: equal values of equally long strings are equal strings. -/
theorem leValue_inj : ∀ {xs ys : List UInt8}, xs.length = ys.length →
    leValue xs = leValue ys → xs = ys
  | [], [], _, _ => rfl
  | x :: xs, y :: ys, sized, same => by
    have low : x.toNat < 256 := x.toBitVec.isLt
    have low' : y.toNat < 256 := y.toBitVec.isLt
    simp only [leValue_cons] at same
    have digit : x.toNat = y.toNat := by omega
    have high : leValue xs = leValue ys := by omega
    rw [UInt8.toNat.inj digit, leValue_inj (by simpa using sized) high]

theorem readLE64_toNat (ptr : List UInt8) : (readLE64 ptr).toNat = leValue (ptr.take 8) := by
  have bound := leValue_lt (ptr.take 8)
  have short : Nat.pow 256 (ptr.take 8).length ≤ Nat.pow 256 8 :=
    Nat.pow_le_pow_right (by omega) (by simp [Nat.min_le_left])
  exact UInt64.toNat_ofNat_of_lt (by simp only [UInt64.size]; exact Nat.lt_of_lt_of_le bound short)

/-- The word `Get64` assembles: the first byte is bits 0 to 7 and the second bits
32 to 39, so it is the little-endian value of `low 0 0 0 high 0 0 0`. -/
theorem toUInt64_or_shiftLeft_toNat (low high : UInt8) :
    (low.toUInt64 ||| high.toUInt64 <<< 32).toNat = leValue [low, 0, 0, 0, high, 0, 0, 0] := by
  have : low.toNat < 256 := low.toBitVec.isLt
  have : high.toNat < 256 := high.toBitVec.isLt
  show low.toNat ||| (high.toNat <<< 32) % 2 ^ 64 = _
  rw [Nat.shiftLeft_eq, Nat.mod_eq_of_lt (by omega), Nat.or_comm, Nat.mul_comm,
    ← Nat.mul_add_lt_is_or (by omega)]
  simp
  omega

theorem uint64_eq_iff_toNat {a b : UInt64} : a = b ↔ a.toNat = b.toNat :=
  ⟨congrArg _, UInt64.toNat.inj⟩

theorem get64_zero_eq_getCheapHash_iff (blob : Uint256) :
    blob.get64 0 = some blob.getCheapHash ↔ ∀ byte ∈ (blob.data.drop 1).take 7, byte = 0 := by
  obtain ⟨data, width⟩ := blob
  match data, width with
  | d0 :: d1 :: d2 :: d3 :: d4 :: d5 :: d6 :: d7 :: rest, _ =>
    simp only [get64, getCheapHash, Nat.mul_zero, List.getElem?_cons_zero,
      List.getElem?_cons_succ, List.take_succ_cons, List.take_zero, List.drop_succ_cons,
      List.drop_zero, Option.bind_eq_bind, Option.some_bind, Option.some.injEq,
      uint64_eq_iff_toNat, readLE64_toNat, toUInt64_or_shiftLeft_toNat]
    constructor
    · intro same
      have digits := leValue_inj (by rfl) same
      simp only [List.cons.injEq] at digits
      obtain ⟨-, rfl, rfl, rfl, rfl, rfl, rfl, rfl, -⟩ := digits
      simp
    · intro zero
      simp only [List.forall_mem_cons, List.forall_mem_nil] at zero
      obtain ⟨rfl, rfl, rfl, rfl, rfl, rfl, rfl, -⟩ := zero
      rfl

/-! ## Comparisons -/

/-- The sign of `memcmp(a, b, n)` on two arrays of `n` bytes: the first
differing byte, as `unsigned char`, decides, and equal arrays compare equal.
`memcmp` is the C library's and is modelled by what it computes. -/
def memcmp : List UInt8 → List UInt8 → Ordering
  | a :: as, b :: bs => if a < b then .lt else if b < a then .gt else memcmp as bs
  | _, _ => .eq

/-- `operator==`: `memcmp(a.data, b.data, sizeof(a.data)) == 0`. -/
def operatorEq (a b : BaseBlob BITS) : Bool := decide (memcmp a.data b.data = .eq)

/-- `operator!=`: `memcmp(a.data, b.data, sizeof(a.data)) != 0`. -/
def operatorNe (a b : BaseBlob BITS) : Bool := decide (memcmp a.data b.data ≠ .eq)

/-- `operator<`: `memcmp(a.data, b.data, sizeof(a.data)) < 0`. -/
def operatorLt (a b : BaseBlob BITS) : Bool := decide (memcmp a.data b.data = .lt)

/-- `IsNull()`: every byte is zero. -/
def isNull (blob : BaseBlob BITS) : Bool := blob.data.all (· == 0)

/-- What the default constructor `base_blob()` and `SetNull()` leave:
`memset(data, 0, sizeof(data))`. -/
def null : BaseBlob BITS := ⟨List.replicate (BITS / 8) 0, List.length_replicate _ _⟩

/-- The big-endian value of a byte string, the first byte the most significant. -/
def beValue : List UInt8 → Nat
  | [] => 0
  | byte :: rest => byte.toNat * Nat.pow 256 rest.length + beValue rest

/-- The hash a blob stands for in the rest of the model: its bytes read as a
big-endian number, the reading under which `memcmp` is the order of numbers. -/
def toHash (blob : BaseBlob BITS) : Nat := beValue blob.data

theorem beValue_lt : ∀ bytes : List UInt8, beValue bytes < Nat.pow 256 bytes.length
  | [] => Nat.one_pos
  | byte :: rest => by
    have digit : byte.toNat < 256 := byte.toBitVec.isLt
    have low := beValue_lt rest
    have grow : Nat.pow 256 (rest.length + 1) = Nat.pow 256 rest.length * 256 := rfl
    have : byte.toNat * Nat.pow 256 rest.length + Nat.pow 256 rest.length ≤ Nat.pow 256 (rest.length + 1) := by
      rw [grow, ← Nat.succ_mul, Nat.mul_comm]
      exact Nat.mul_le_mul_left _ digit
    simp only [beValue, List.length_cons]
    omega

/-- A higher leading byte wins whatever follows. -/
theorem beValue_lt_of_digit {x y : UInt8} {xs ys : List UInt8} (sized : xs.length = ys.length)
    (below : x.toNat < y.toNat) : beValue (x :: xs) < beValue (y :: ys) := by
  have low := beValue_lt xs
  rw [sized] at low
  have step := Nat.mul_le_mul_right (Nat.pow 256 ys.length) (Nat.succ_le_of_lt below)
  rw [Nat.succ_mul] at step
  simp only [beValue, sized]
  omega

theorem compare_add_add_left (a b c : Nat) : compare (a + b) (a + c) = compare b c := by
  rcases lt_trichotomy b c with below | rfl | above
  · rw [compare_lt_iff_lt.mpr below, compare_lt_iff_lt.mpr (by omega)]
  · rw [compare_eq_iff_eq.mpr rfl, compare_eq_iff_eq.mpr rfl]
  · rw [compare_gt_iff_gt.mpr above, compare_gt_iff_gt.mpr (by omega)]

/-- **`memcmp` compares big-endian values**: on equally long strings, its sign is
the comparison of the strings read as big-endian numbers. -/
theorem memcmp_eq_compare : ∀ {xs ys : List UInt8}, xs.length = ys.length →
    memcmp xs ys = compare (beValue xs) (beValue ys)
  | [], [], _ => rfl
  | x :: xs, y :: ys, sized => by
    have same : xs.length = ys.length := by simpa using sized
    by_cases below : x < y
    · rw [memcmp, if_pos below, compare_lt_iff_lt.mpr (beValue_lt_of_digit same below)]
    by_cases above : y < x
    · rw [memcmp, if_neg below, if_pos above, compare_gt_iff_gt.mpr (beValue_lt_of_digit same.symm above)]
    have digit : x = y := UInt8.toNat.inj (le_antisymm (not_lt.mp above) (not_lt.mp below))
    rw [memcmp, if_neg below, if_neg above, memcmp_eq_compare same, digit]
    simp only [beValue, same, compare_add_add_left]

/-- Big-endian digits are unique: equal values of equally long strings are equal strings. -/
theorem beValue_inj : ∀ {xs ys : List UInt8}, xs.length = ys.length → beValue xs = beValue ys → xs = ys
  | [], [], _, _ => rfl
  | x :: xs, y :: ys, sized, same => by
    have lengths : xs.length = ys.length := by simpa using sized
    have digit : x = y := UInt8.toNat.inj (le_antisymm
      (not_lt.mp fun above => (beValue_lt_of_digit lengths.symm above).ne' same)
      (not_lt.mp fun below => (beValue_lt_of_digit lengths below).ne same))
    subst digit
    simp only [beValue, lengths, Nat.add_left_cancel_iff] at same
    rw [beValue_inj lengths same]

theorem beValue_eq_zero_iff : ∀ bytes : List UInt8, beValue bytes = 0 ↔ ∀ byte ∈ bytes, byte = 0
  | [] => by simp [beValue]
  | byte :: rest => by
    have positive : 0 < Nat.pow 256 rest.length := Nat.pos_pow_of_pos _ (by omega)
    have zero : byte.toNat = 0 ↔ byte = 0 := ⟨fun zero => UInt8.toNat.inj zero, fun zero => by rw [zero]; rfl⟩
    simp only [beValue, Nat.add_eq_zero, Nat.mul_eq_zero, positive.ne', or_false, beValue_eq_zero_iff rest,
      List.forall_mem_cons, zero]

/-- Blobs of one width with the same bytes are the same blob. -/
theorem eq_of_data {a b : BaseBlob BITS} (same : a.data = b.data) : a = b := by
  obtain ⟨data, _⟩ := a
  cases same
  rfl

/-- **The model's hashes refine `uint256`**: `operator<` holds exactly when the
first blob's number is below the second's, `operator==` and `operator!=` hold
exactly for equal and for different blobs, blobs with equal numbers are equal,
and `IsNull` holds exactly for the blob of number `0`, the one `SetNull` and the
default constructor make. So `operator<` is a strict total order, and a
`std::map` keyed by blobs keeps its keys in the order `StdMap` keeps their
numbers. -/
theorem toHash_refines (a b : BaseBlob BITS) :
    (a.operatorLt b = true ↔ a.toHash < b.toHash) ∧ (a.operatorEq b = true ↔ a = b) ∧
      (a.operatorNe b = true ↔ a ≠ b) ∧ (a.toHash = b.toHash → a = b) ∧
      (a.isNull = true ↔ a.toHash = 0) ∧ (null : BaseBlob BITS).toHash = 0 := by
  have sized : a.data.length = b.data.length := a.width.trans b.width.symm
  have injective : a.toHash = b.toHash → a = b := fun same => eq_of_data (beValue_inj sized same)
  have equal : memcmp a.data b.data = .eq ↔ a = b := by
    rw [memcmp_eq_compare sized, compare_eq_iff_eq]
    exact ⟨injective, fun same => by rw [same]⟩
  refine ⟨?_, ?_, ?_, injective, ?_, ?_⟩
  · rw [operatorLt, memcmp_eq_compare sized, decide_eq_true_iff, compare_lt_iff_lt]
    rfl
  · rw [operatorEq, decide_eq_true_iff, equal]
  · rw [operatorNe, decide_eq_true_iff, ne_eq, equal]
  · rw [isNull, toHash, beValue_eq_zero_iff, List.all_eq_true]
    simp only [beq_iff_eq]
  · rw [toHash, beValue_eq_zero_iff]
    exact fun byte member => List.eq_of_mem_replicate member

/-! ## Serialization -/

/-- `Serialize(s)`: `s.write((char *)data, sizeof(data))`, on the bytes written
to the stream so far. -/
def serialize (blob : BaseBlob BITS) (s : List UInt8) : List UInt8 := s ++ blob.data

/-- `Unserialize(s)`: `s.read((char *)data, sizeof(data))` from the front of the
stream; the read throws, here `none`, when fewer than `WIDTH` bytes are left.
The blob read and the rest of the stream. -/
def unserialize (s : List UInt8) : Option (BaseBlob BITS × List UInt8) :=
  if enough : BITS / 8 ≤ s.length then
    some (⟨s.take (BITS / 8), List.length_take_of_le enough⟩, s.drop (BITS / 8))
  else none

/-- **A blob reads back what `Serialize` wrote**: `Unserialize` returns a blob
and the rest of a stream exactly when the stream is what `Serialize` writes for
that blob, followed by that rest. -/
theorem unserialize_eq_some_iff (s rest : List UInt8) (blob : BaseBlob BITS) :
    unserialize s = some (blob, rest) ↔ s = blob.serialize [] ++ rest := by
  rw [serialize, List.nil_append]
  constructor
  · intro read
    unfold unserialize at read
    split_ifs at read with enough
    cases read
    exact (List.take_append_drop _ s).symm
  · rintro rfl
    have enough : BITS / 8 ≤ (blob.data ++ rest).length := by simp [blob.width]
    rw [unserialize, dif_pos enough]
    have front : (blob.data ++ rest).take (BITS / 8) = blob.data := by
      rw [← blob.width, List.take_left]
    have back : (blob.data ++ rest).drop (BITS / 8) = rest := by
      rw [← blob.width, List.drop_left]
    simp only [front, back]

/-- A `uint256` whose only nonzero byte is `data[1]`. -/
def secondByteSet : Uint256 := ⟨0 :: 1 :: List.replicate 30 0, rfl⟩

example : secondByteSet.get64 0 = some 4294967296 ∧ secondByteSet.getCheapHash = 256 := by
  decide

end BaseBlob

end XuezNet
