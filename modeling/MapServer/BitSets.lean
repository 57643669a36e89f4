import Mathlib.Order.ConditionallyCompleteLattice.Basic
import MapServer.Bits
import MapServer.Runtime

namespace MapServer
open List Option

/-- `none` where the sum overflows an `int`. -/
def msGetBitArraySize (numbits : Nat) : Option Nat :=
  (checkedInt (numbits + MS_ARRAY_BIT - 1)).map fun rounded => rounded.toNat / MS_ARRAY_BIT

/-- `msAllocBitArray` computes its size as `msGetBitArraySize` does. -/
def newBitArray (numbits : Nat) : Option BitArray := (msGetBitArraySize numbits).map fun _ => msAllocBitArray numbits

/-- `none` where a word is read that the array does not have, or `i` overflows. -/
def msGetNextBit (array : BitArray) (i size : Nat) : Option Int :=
  if i < size then
    match array[i / MS_ARRAY_BIT]? with
    | none => none
    | some b =>
      if b ≠ 0 ∧ b >>> (i % MS_ARRAY_BIT) ≠ 0 then
        if b &&& (1#32 <<< (i % MS_ARRAY_BIT)) ≠ 0 then some i else msGetNextBit array (i + 1) size
      else if INT_MAX < ((i + (MS_ARRAY_BIT - i % MS_ARRAY_BIT) : Nat) : Int) then none
      else msGetNextBit array (i + (MS_ARRAY_BIT - i % MS_ARRAY_BIT)) size
  else some (-1)
termination_by size - i
decreasing_by
  all_goals unfold MS_ARRAY_BIT at *
  all_goals omega

def msFlipBit (array : BitArray) (index : Nat) : BitArray :=
  array.modify (index / MS_ARRAY_BIT) (· ^^^ (1#32 <<< (index % MS_ARRAY_BIT)))

/-- The place in a word of the byte that is `k`-th in memory, from the lowest bits on. -/
def bytePlace (bBigEndian : Bool) (k : Nat) : Nat := if bBigEndian then 3 - k else k

def setByte (bBigEndian : Bool) (k : Nat) (c : BitVec 8) (word : BitVec 32) : BitVec 32 :=
  word &&& ~~~(255#32 <<< (8 * bytePlace bBigEndian k)) ||| c.setWidth 32 <<< (8 * bytePlace bBigEndian k)

def memset (bBigEndian : Bool) (array : BitArray) (c : BitVec 8) (count : Nat) : BitArray :=
  (List.range count).foldl (fun array p => array.modify (p / 4) (setByte bBigEndian (p % 4) c)) array

def msSetAllBits (bBigEndian : Bool) (array : BitArray) (numbits : Nat) (value : Bool) : Option BitArray :=
  (checkedInt (numbits + 7)).map fun rounded => memset bBigEndian array (if value then 255 else 0) (rounded.toNat / 8)

inductive BitCall where
  | msSetBit (index : Nat) (value : Bool)
  | msFlipBit (index : Nat)
  | msSetAllBits (value : Bool)

namespace BitCall

def Inside (n : Nat) : BitCall → Prop
  | msSetBit index _ | msFlipBit index => index < n
  | msSetAllBits _ => True

def run (bBigEndian : Bool) (n : Nat) (array : BitArray) : BitCall → Option BitArray
  | msSetBit index value => some (MapServer.msSetBit array index value)
  | msFlipBit index => some (MapServer.msFlipBit array index)
  | msSetAllBits value => MapServer.msSetAllBits bBigEndian array n value

def members (n : Nat) (s : Set Nat) : BitCall → Set Nat
  | msSetBit index true => insert index s
  | msSetBit index false => s \ {index}
  | msFlipBit index => symmDiff s {index}
  | msSetAllBits true => {i | i < n}
  | msSetAllBits false => ∅

end BitCall

def runBitCalls (bBigEndian : Bool) (n : Nat) (calls : List BitCall) : Option BitArray :=
  (newBitArray n).bind fun array => calls.foldlM (BitCall.run bBigEndian n) array

def membersOf (n : Nat) (calls : List BitCall) : Set Nat := calls.foldl (BitCall.members n) ∅

/-- The loop `i = msGetNextBit(array, i, n)`, `i = msGetNextBit(array, i + 1, n)` and so on, with what it visits. -/
inductive Visits (array : BitArray) (n : Nat) : Nat → List Nat → Prop where
  | done {i : Nat} (none_left : msGetNextBit array i n = some (-1)) : Visits array n i []
  | found {i m : Nat} {rest : List Nat} (next : msGetNextBit array i n = some (m : Int))
      (others : Visits array n (m + 1) rest) : Visits array n i (m :: rest)

/-- A scan from `i` finds the least member from there on. -/
def IsNext (members : Set Nat) (i n : Nat) (found : Int) : Prop :=
  (∃ m : Nat, found = m ∧ IsLeast {k | k ∈ members ∧ i ≤ k ∧ k < n} m) ∨
    found = -1 ∧ ∀ k ∈ members, i ≤ k → n ≤ k

structure IsBitSet (n : Nat) (array : BitArray) (members : Set Nat) : Prop where
  size : msGetBitArraySize n = some array.length
  bit : ∀ i < n, msGetBit array i = true ↔ i ∈ members
  next : ∀ i, ∃ found, msGetNextBit array i n = some found ∧ IsNext members i n found
  loop : ∃ visited, Visits array n 0 visited ∧ visited.Pairwise (· < ·) ∧ ∀ i, i ∈ visited ↔ i ∈ members ∧ i < n

section Scan
variable {array : BitArray} {members : Set Nat} {n : Nat}

theorem IsNext.skip {i j : Nat} {found : Int} (before : i ≤ j) (gap : ∀ k ∈ members, i ≤ k → k < n → j ≤ k)
    (next : IsNext members j n found) : IsNext members i n found := by
  have same : {k | k ∈ members ∧ i ≤ k ∧ k < n} = {k | k ∈ members ∧ j ≤ k ∧ k < n} := by
    ext k
    constructor
    · rintro ⟨member, from_, inside⟩
      exact ⟨member, gap k member from_ inside, inside⟩
    · rintro ⟨member, from_, inside⟩
      exact ⟨member, before.trans from_, inside⟩
  rcases next with least | ⟨end_, none_left⟩
  · rw [← same] at least
    exact .inl least
  · refine .inr ⟨end_, fun k member from_ => ?_⟩
    by_contra inside
    exact inside (none_left k member (gap k member from_ (Nat.lt_of_not_le inside)))

theorem getLsbD_of_shifted {b : BitVec 32} {low high : Nat} (nothing : ¬ (b ≠ 0 ∧ b >>> low ≠ 0)) (order : low ≤ high) :
    b.getLsbD high = false := by
  by_cases zero : b = 0
  · rw [zero]
    exact BitVec.getLsbD_zero
  · have shifted : b >>> low = 0 := by
      by_contra some_left
      exact nothing ⟨zero, some_left⟩
    have bit := BitVec.getLsbD_ushiftRight b low (high - low)
    rw [Nat.add_sub_cancel' order, shifted] at bit
    rw [← bit]
    exact BitVec.getLsbD_zero

theorem msGetNextBit_next (length : n ≤ array.length * 32) (fits : array.length * 32 ≤ 2147483647)
    (bit : ∀ i < n, msGetBit array i = true ↔ i ∈ members) (i : Nat) :
    ∃ found, msGetNextBit array i n = some found ∧ IsNext members i n found := by
  fun_induction msGetNextBit array i n with
  | case1 i inside missing =>
    rw [List.getElem?_eq_none_iff] at missing
    unfold MS_ARRAY_BIT at missing
    omega
  | case2 i inside b here something set =>
    have member : i ∈ members := by
      rw [← bit i inside, msGetBit, getD_eq_getElem?_getD, here]
      exact bne_iff_ne.mpr set
    exact ⟨i, rfl, .inl ⟨i, rfl, ⟨member, le_rfl, inside⟩, fun k least => least.2.1⟩⟩
  | case3 i inside b here something clear ih =>
    obtain ⟨found, scan, next⟩ := ih
    refine ⟨found, scan, next.skip (Nat.le_succ i) fun k member from_ below => ?_⟩
    rcases from_.eq_or_lt with rfl | later
    · rw [← bit i inside, msGetBit, getD_eq_getElem?_getD, here] at member
      exact absurd (bne_iff_ne.mp member) clear
    · exact later
  | case4 i inside b here nothing overflow =>
    have word := (List.getElem?_eq_some_iff.mp here).1
    unfold MS_ARRAY_BIT INT_MAX at *
    omega
  | case5 i inside b here nothing fits_ ih =>
    obtain ⟨found, scan, next⟩ := ih
    refine ⟨found, scan, next.skip (Nat.le_add_right _ _) fun k member from_ below => ?_⟩
    by_contra early
    have word : k / MS_ARRAY_BIT = i / MS_ARRAY_BIT ∧ i % MS_ARRAY_BIT ≤ k % MS_ARRAY_BIT := by
      unfold MS_ARRAY_BIT at *
      omega
    rw [← bit k below, msGetBit_eq, getD_eq_getElem?_getD, word.1, here] at member
    exact absurd (getLsbD_of_shifted nothing word.2) (by simpa using member)
  | case6 i outside => exact ⟨-1, rfl, .inr ⟨rfl, fun k _ from_ => (Nat.le_of_not_lt outside).trans from_⟩⟩

theorem visits_of_next (next : ∀ i, ∃ found, msGetNextBit array i n = some found ∧ IsNext members i n found) (i : Nat) :
    ∃ visited, Visits array n i visited ∧ visited.Pairwise (· < ·) ∧ ∀ k, k ∈ visited ↔ k ∈ members ∧ i ≤ k ∧ k < n := by
  obtain ⟨left, isLeft⟩ : ∃ left, n - i = left := ⟨_, rfl⟩
  induction left using Nat.strongRecOn generalizing i with
  | ind left ih =>
    obtain ⟨found, scan, ⟨m, rfl, ⟨member, from_, below⟩, least⟩ | ⟨rfl, none_left⟩⟩ := next i
    · obtain ⟨rest, others, sorted, all⟩ := ih (n - (m + 1)) (by omega) (m + 1) rfl
      refine ⟨m :: rest, .found scan others, ?_, fun k => ?_⟩
      · exact pairwise_cons.mpr ⟨fun k later => ((all k).mp later).2.1, sorted⟩
      · rw [mem_cons, all]
        constructor
        · rintro (rfl | ⟨isMember, later, inside⟩)
          · exact ⟨member, from_, below⟩
          · exact ⟨isMember, by omega, inside⟩
        · rintro ⟨isMember, start, inside⟩
          rcases (least ⟨isMember, start, inside⟩).eq_or_lt with same | later
          · exact .inl same.symm
          · exact .inr ⟨isMember, later, inside⟩
    · refine ⟨[], .done scan, .nil, fun k => ?_⟩
      simp only [not_mem_nil, false_iff]
      rintro ⟨isMember, start, inside⟩
      exact absurd (none_left k isMember start) (Nat.not_le.mpr inside)

end Scan

section Calls
variable {bBigEndian : Bool} {array after : BitArray} {n : Nat}

theorem msGetBit_modify (change : BitVec 32 → BitVec 32) {w : Nat} (inside : w < array.length) (i : Nat) :
    msGetBit (array.modify w change) i =
      if i / MS_ARRAY_BIT = w then (change (array.getD w 0)).getLsbD (i % MS_ARRAY_BIT) else msGetBit array i := by
  simp only [msGetBit_eq, getD_eq_getElem?_getD, getElem?_modify]
  split
  · rename_i same
    subst same
    rw [if_pos rfl, getElem?_eq_getElem inside]
    rfl
  · rename_i other
    simp [Ne.symm other]

theorem msGetBit_flip {index : Nat} (inside : index / MS_ARRAY_BIT < array.length) (i : Nat) :
    msGetBit (msFlipBit array index) i = (msGetBit array i ^^ decide (i = index)) := by
  have low : i % MS_ARRAY_BIT < 32 := Nat.mod_lt _ (by decide)
  rw [msFlipBit, msGetBit_modify _ inside, msGetBit_eq]
  split
  · rename_i word
    have position : i % MS_ARRAY_BIT = index % MS_ARRAY_BIT ↔ i = index := by
      unfold MS_ARRAY_BIT at *
      omega
    rw [BitVec.getLsbD_xor, getLsbD_mask low, word]
    simp only [position]
  · rename_i word
    have other : i ≠ index := fun same => word (by rw [same])
    simp [other]

theorem getLsbD_byteMask (place : Nat) {j : Nat} (low : j < 32) :
    (255#32 <<< (8 * place)).getLsbD j = decide (j / 8 = place) := by
  rw [BitVec.getLsbD_shiftLeft, BitVec.getLsbD_ofNat, show (255 : Nat) = 2 ^ 8 - 1 from rfl, Nat.testBit_two_pow_sub_one,
    Bool.eq_iff_iff]
  simp only [Bool.and_eq_true, Bool.not_eq_true', decide_eq_true_eq, decide_eq_false_iff_not]
  omega

theorem getLsbD_setByte (k : Nat) (value : Bool) (word : BitVec 32) {j : Nat} (low : j < 32) :
    (setByte bBigEndian k (if value then 255 else 0) word).getLsbD j =
      if j / 8 = bytePlace bBigEndian k then value else word.getLsbD j := by
  have mask := getLsbD_byteMask (bytePlace bBigEndian k) low
  rw [setByte, BitVec.getLsbD_or, BitVec.getLsbD_and, BitVec.getLsbD_not, mask]
  cases value with
  | true =>
    rw [if_pos rfl, show (255 : BitVec 8).setWidth 32 = 255#32 from rfl, mask]
    by_cases here : j / 8 = bytePlace bBigEndian k <;> simp [here, low]
  | false =>
    rw [if_neg Bool.false_ne_true, show (0 : BitVec 8).setWidth 32 = 0#32 from rfl, BitVec.zero_shiftLeft, BitVec.getLsbD_zero]
    by_cases here : j / 8 = bytePlace bBigEndian k <;> simp [here, low]

def byteAddress (bBigEndian : Bool) (i : Nat) : Nat := 4 * (i / 32) + bytePlace bBigEndian (i % 32 / 8)

theorem msGetBit_memset (value : Bool) {count : Nat} (room : count ≤ 4 * array.length) (i : Nat) :
    (memset bBigEndian array (if value then 255 else 0) count).length = array.length ∧
      msGetBit (memset bBigEndian array (if value then 255 else 0) count) i =
        if byteAddress bBigEndian i < count then value else msGetBit array i := by
  induction count with
  | zero => exact ⟨rfl, rfl⟩
  | succ count ih =>
    obtain ⟨length, bits⟩ := ih (by omega)
    have position : byteAddress bBigEndian i = count ↔
        i / 32 = count / 4 ∧ i % 32 / 8 = bytePlace bBigEndian (count % 4) := by
      unfold byteAddress bytePlace
      split <;> omega
    have next : memset bBigEndian array (if value then 255 else 0) (count + 1) =
        (memset bBigEndian array (if value then 255 else 0) count).modify (count / 4)
          (setByte bBigEndian (count % 4) (if value then 255 else 0)) := by
      rw [memset, range_succ, foldl_append]
      rfl
    rw [next]
    refine ⟨(length_modify ..).trans length, ?_⟩
    rw [msGetBit_modify _ (by omega)]
    unfold MS_ARRAY_BIT
    rw [getLsbD_setByte _ _ _ (Nat.mod_lt _ (by decide))]
    by_cases here : byteAddress bBigEndian i = count
    · obtain ⟨word, byte⟩ := position.mp here
      rw [if_pos word, if_pos byte, if_pos (by omega)]
    · have later : byteAddress bBigEndian i < count + 1 ↔ byteAddress bBigEndian i < count := by omega
      simp only [later, ← bits]
      split
      · rename_i word
        rw [if_neg fun byte => here (position.mpr ⟨word, byte⟩), msGetBit_eq]
        unfold MS_ARRAY_BIT
        rw [word]
      · rfl

/-- The array has the words that its size takes, and its first `n` bits are the set. -/
structure Represents (n : Nat) (array : BitArray) (members : Set Nat) : Prop where
  length : array.length = (n + 31) / 32
  bit : ∀ i < n, msGetBit array i = true ↔ i ∈ members

/-- All bits are set by the bytes that `msSetAllBits` fills: in a word filled in part, the bytes of a big-endian host are its
highest ones. -/
def FillsBits (bBigEndian : Bool) (n : Nat) : Prop := bBigEndian = true → n % 32 = 0 ∨ 25 ≤ n % 32

theorem byteAddress_lt (fills : FillsBits bBigEndian n) {i : Nat} (inside : i < n) :
    byteAddress bBigEndian i < (n + 7) / 8 := by
  unfold byteAddress bytePlace
  split
  · rename_i big
    have partly := fills big
    omega
  · omega

theorem newBitArray_eq (size : (n + 31 : Int) ≤ INT_MAX) :
    newBitArray n = some (msAllocBitArray n) ∧ msGetBitArraySize n = some ((n + 31) / 32) := by
  have rounded : checkedInt ((n : Int) + MS_ARRAY_BIT - 1) = some ((n : Int) + 31) := by
    rw [show (n : Int) + MS_ARRAY_BIT - 1 = n + 31 by unfold MS_ARRAY_BIT; omega]
    exact checkedInt_of_range (by omega) size
  rw [newBitArray, msGetBitArraySize, rounded]
  exact ⟨rfl, rfl⟩

theorem represents_new (n : Nat) : Represents n (msAllocBitArray n) ∅ where
  length := length_replicate
  bit := by simp

variable {members : Set Nat}

theorem Represents.run (size : (n + 31 : Int) ≤ INT_MAX) (fills : FillsBits bBigEndian n)
    (represents : Represents n array members) {call : BitCall} (inside : call.Inside n) :
    ∃ after, call.run bBigEndian n array = some after ∧ Represents n after (call.members n members) := by
  obtain ⟨length, bit⟩ := represents
  cases call with
  | msSetBit index value =>
    have inside : index < n := inside
    have room : index < array.capacity := by
      unfold BitArray.capacity MS_ARRAY_BIT
      omega
    refine ⟨_, rfl, ?_, fun i below => ?_⟩
    · unfold msSetBit
      split <;> simpa using length
    · rw [msGetBit_set array value room]
      cases value with
      | true => by_cases same : i = index <;> simp [BitCall.members, same, ← bit i below]
      | false => by_cases same : i = index <;> simp [BitCall.members, same, ← bit i below]
  | msFlipBit index =>
    have inside : index < n := inside
    have room : index / MS_ARRAY_BIT < array.length := by
      unfold MS_ARRAY_BIT
      omega
    refine ⟨_, rfl, (length_modify ..).trans length, fun i below => ?_⟩
    rw [msGetBit_flip room]
    by_cases same : i = index
    · subst i
      simp [BitCall.members, Set.mem_symmDiff, ← bit index below]
    · simp [BitCall.members, Set.mem_symmDiff, same, ← bit i below]
  | msSetAllBits value =>
    have rounded : checkedInt ((n : Int) + 7) = some ((n : Int) + 7) := checkedInt_of_range (by omega) (by omega)
    refine ⟨memset bBigEndian array (if value then 255 else 0) ((n + 7) / 8), ?_, ?_, fun i below => ?_⟩
    · rw [BitCall.run, msSetAllBits, rounded]
      rfl
    · exact ((msGetBit_memset value (by omega) 0).1).trans length
    · rw [(msGetBit_memset value (by omega) i).2, if_pos (byteAddress_lt fills below)]
      cases value <;> simp [BitCall.members, below]

theorem Represents.runAll (size : (n + 31 : Int) ≤ INT_MAX) (fills : FillsBits bBigEndian n) {calls : List BitCall}
    (inside : ∀ call ∈ calls, call.Inside n) (represents : Represents n array members) :
    ∃ after, calls.foldlM (BitCall.run bBigEndian n) array = some after ∧
      Represents n after (calls.foldl (BitCall.members n) members) := by
  induction calls generalizing array members with
  | nil => exact ⟨array, rfl, represents⟩
  | cons call calls ih =>
    rw [forall_mem_cons] at inside
    obtain ⟨next, run, kept⟩ := represents.run size fills inside.1
    obtain ⟨after, runs, all⟩ := ih inside.2 kept
    refine ⟨after, ?_, all⟩
    rw [foldlM_cons, run]
    exact runs

theorem Represents.isBitSet (size : (n + 31 : Int) ≤ INT_MAX) (represents : Represents n array members) :
    IsBitSet n array members := by
  obtain ⟨length, bit⟩ := represents
  unfold INT_MAX at size
  have next := msGetNextBit_next (by omega) (by omega) bit
  obtain ⟨visited, visits, sorted, all⟩ := visits_of_next next 0
  refine ⟨by rw [(newBitArray_eq size).2, length], bit, next, visited, visits, sorted, fun i => ?_⟩
  rw [all]
  simp

end Calls

/-- A bit array of `n` bits is a set after all calls exactly when its size does not overflow and the bytes that fill it are
those of its bits. -/
theorem bitArray_isSet_iff (bBigEndian : Bool) (n : Nat) :
    (∀ calls : List BitCall, (∀ call ∈ calls, call.Inside n) →
      ∃ array, runBitCalls bBigEndian n calls = some array ∧ IsBitSet n array (membersOf n calls)) ↔
    (n + 31 : Int) ≤ INT_MAX ∧ FillsBits bBigEndian n := by
  constructor
  · intro always
    have size : (n + 31 : Int) ≤ INT_MAX := by
      obtain ⟨array, run, _⟩ := always [] (by simp)
      obtain ⟨new, isNew, _⟩ := bind_eq_some_iff.mp run
      obtain ⟨words, isSize, _⟩ := map_eq_some_iff.mp isNew
      obtain ⟨rounded, held, _⟩ := map_eq_some_iff.mp isSize
      unfold MS_ARRAY_BIT at held
      have fits := (checkedInt_some held).2
      omega
    refine ⟨size, fun big => ?_⟩
    by_contra partly
    obtain ⟨array, run, isSet⟩ := always [.msSetAllBits true] (by simp [BitCall.Inside])
    have first : 32 * (n / 32) < n := by omega
    have set := (isSet.bit _ first).mpr first
    have rounded : checkedInt ((n : Int) + 7) = some ((n : Int) + 7) := checkedInt_of_range (by omega) (by omega)
    have filled : runBitCalls bBigEndian n [.msSetAllBits true] =
        some (memset bBigEndian (msAllocBitArray n) 255 ((n + 7) / 8)) := by
      rw [runBitCalls, (newBitArray_eq size).1]
      simp only [bind_some, foldlM_cons, foldlM_nil, BitCall.run, msSetAllBits, rounded]
      rfl
    rw [filled, Option.some.injEq] at run
    have clear := (@msGetBit_memset bBigEndian (msAllocBitArray n) true ((n + 7) / 8)
      (by rw [(represents_new n).length]; omega) (32 * (n / 32))).2
    rw [if_pos rfl, run, set, msGetBit_alloc, if_neg] at clear
    · cases clear
    · unfold byteAddress bytePlace
      rw [if_pos big]
      omega
  · rintro ⟨size, fills⟩ calls inside
    obtain ⟨array, run, represents⟩ := (represents_new n).runAll size fills inside
    refine ⟨array, ?_, represents.isBitSet size⟩
    rw [runBitCalls, (newBitArray_eq size).1]
    exact run

theorem bitArray_isSet_fails :
    (¬ ∃ array, runBitCalls true 8 [.msSetAllBits true] = some array ∧ IsBitSet 8 array (membersOf 8 [.msSetAllBits true])) ∧
      ¬ ∃ array, runBitCalls false 2147483647 [] = some array ∧ IsBitSet 2147483647 array (membersOf 2147483647 []) := by
  constructor
  · rintro ⟨array, run, isSet⟩
    have filled : runBitCalls true 8 [.msSetAllBits true] = some [4278190080#32] := by decide
    obtain rfl := Option.some.inj (filled.symm.trans run)
    have set := (isSet.bit 0 (by decide)).mpr (show (0 : Nat) < 8 by decide)
    exact absurd set (by decide)
  · rintro ⟨array, run, _⟩
    have overflows : newBitArray 2147483647 = none := rfl
    rw [runBitCalls, overflows] at run
    cases run

end MapServer
