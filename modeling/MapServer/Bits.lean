import Mathlib.Order.Basic

namespace MapServer

def MS_ARRAY_BIT : Nat := 32

/-- `ms_bitarray`: words of `MS_ARRAY_BIT` bits. -/
abbrev BitArray := List (BitVec 32)

def msAllocBitArray (numbits : Nat) : BitArray :=
  List.replicate ((numbits + MS_ARRAY_BIT - 1) / MS_ARRAY_BIT) 0

def msGetBit (array : BitArray) (index : Nat) : Bool :=
  (array.getD (index / MS_ARRAY_BIT) 0 &&& (1#32 <<< (index % MS_ARRAY_BIT))) != 0

def msSetBit (array : BitArray) (index : Nat) (value : Bool) : BitArray :=
  if value then
    array.modify (index / MS_ARRAY_BIT) (· ||| (1#32 <<< (index % MS_ARRAY_BIT)))
  else
    array.modify (index / MS_ARRAY_BIT) (· &&& ~~~(1#32 <<< (index % MS_ARRAY_BIT)))

def BitArray.capacity (array : BitArray) : Nat := array.length * MS_ARRAY_BIT

theorem getLsbD_mask {k j : Nat} (bound : j < 32) :
    (1#32 <<< k).getLsbD j = decide (j = k) := by
  rw [Bool.eq_iff_iff]
  simp only [BitVec.getLsbD_shiftLeft, BitVec.getLsbD_one, Bool.and_eq_true, Bool.not_eq_true', decide_eq_true_eq,
    decide_eq_false_iff_not]
  omega

theorem and_mask_ne_zero (word : BitVec 32) {k : Nat} (bound : k < 32) :
    (word &&& (1#32 <<< k) != 0) = word.getLsbD k := by
  rw [Bool.eq_iff_iff, bne_iff_ne, ne_eq, BitVec.eq_of_getLsbD_eq_iff]
  constructor
  · intro differs
    by_contra off
    refine differs fun j inside => ?_
    rw [BitVec.getLsbD_and, getLsbD_mask inside]
    rcases eq_or_ne j k with rfl | other
    · simpa using off
    · simp [other]
  · intro on same
    have := same k bound
    rw [BitVec.getLsbD_and, getLsbD_mask bound] at this
    simp_all

theorem msGetBit_eq (array : BitArray) (index : Nat) :
    msGetBit array index = (array.getD (index / MS_ARRAY_BIT) 0).getLsbD (index % MS_ARRAY_BIT) :=
  and_mask_ne_zero _ (Nat.mod_lt _ (by decide))

@[simp] theorem msGetBit_alloc (numbits index : Nat) :
    msGetBit (msAllocBitArray numbits) index = false := by
  rw [msGetBit_eq, msAllocBitArray, List.getD_eq_getElem?_getD, List.getElem?_replicate]
  split <;> simp

theorem capacity_alloc (numbits : Nat) : numbits ≤ (msAllocBitArray numbits).capacity := by
  simp only [BitArray.capacity, msAllocBitArray, List.length_replicate, MS_ARRAY_BIT]
  omega

@[simp] theorem capacity_set (array : BitArray) (index : Nat) (value : Bool) :
    (msSetBit array index value).capacity = array.capacity := by
  unfold msSetBit BitArray.capacity
  split <;> simp

theorem msGetBit_set (array : BitArray) {index : Nat} (value : Bool) (bound : index < array.capacity)
    (other : Nat) :
    msGetBit (msSetBit array index value) other = if other = index then value else msGetBit array other := by
  have inside : index / MS_ARRAY_BIT < array.length :=
    Nat.div_lt_of_lt_mul (by rwa [BitArray.capacity, Nat.mul_comm] at bound)
  have low : other % MS_ARRAY_BIT < 32 := Nat.mod_lt _ (by decide)
  have position : other = index ↔
      index / MS_ARRAY_BIT = other / MS_ARRAY_BIT ∧ other % MS_ARRAY_BIT = index % MS_ARRAY_BIT := by
    unfold MS_ARRAY_BIT
    omega
  simp only [msGetBit_eq, msSetBit, List.getD_eq_getElem?_getD]
  by_cases word : index / MS_ARRAY_BIT = other / MS_ARRAY_BIT
  · rw [word] at inside
    cases value with
    | true =>
      rcases eq_or_ne (other % MS_ARRAY_BIT) (index % MS_ARRAY_BIT) with same | differs
      · simp [word, position, inside, same]
        omega
      · simp [word, position, getLsbD_mask low, inside, differs]
    | false =>
      rcases eq_or_ne (other % MS_ARRAY_BIT) (index % MS_ARRAY_BIT) with same | differs
      · simp [word, position, inside, same]
      · simp [word, position, low, inside, differs]
        omega
  · cases value <;> simp [word, position]

end MapServer
