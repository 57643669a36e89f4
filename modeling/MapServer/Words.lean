import MapServer.Lib.Bytes
import MapServer.Spatial.Rect

/-!
Integers and coordinates as the code copies them into a record and swaps them there. The byte order of the
host is a parameter, and a coordinate is stored through its 64 bits.
-/

namespace MapServer
open Lib.Bytes List

def INT_MAX : Int := 2147483647

/-- The value an `ms_int32` holds after a computation. -/
def int32 (value : Int) : Int := value.bmod (256 ^ 4)

/-- The representation of a coordinate as a `double`. -/
structure DoubleRep (α : Type) where
  bits : α → BitVec 64
  ofBits : BitVec 64 → α
  ofBits_bits : ∀ x, ofBits (bits x) = x

def bitsRep : DoubleRep (BitVec 64) := ⟨id, id, fun _ => rfl⟩

def SwapWord (word : List UInt8) : List UInt8 := word.reverse

def swapIf (needswap : Bool) (word : List UInt8) : List UInt8 :=
  if needswap then SwapWord word else word

section Format
variable {α : Type} (rep : DoubleRep α) (bBigEndian needswap : Bool)

/-- An `int` copied into a record and swapped there. -/
def putWord (value : Int) : List UInt8 := swapIf needswap (encodeInt bBigEndian 4 value)

def putDouble (value : α) : List UInt8 := swapIf needswap (encode bBigEndian 8 (rep.bits value).toNat)

def putRect (rect : RectObj α) : List UInt8 :=
  putDouble rep bBigEndian needswap rect.minx ++ putDouble rep bBigEndian needswap rect.miny ++
    putDouble rep bBigEndian needswap rect.maxx ++ putDouble rep bBigEndian needswap rect.maxy

def getWord (bytes : List UInt8) : Int := decodeInt bBigEndian (swapIf needswap bytes)

def getDouble (bytes : List UInt8) : α :=
  rep.ofBits (BitVec.ofNat 64 (decode bBigEndian (swapIf needswap bytes)))

def getRect (bytes : List UInt8) : RectObj α where
  minx := getDouble rep bBigEndian needswap (bytes.take 8)
  miny := getDouble rep bBigEndian needswap ((bytes.drop 8).take 8)
  maxx := getDouble rep bBigEndian needswap ((bytes.drop 16).take 8)
  maxy := getDouble rep bBigEndian needswap ((bytes.drop 24).take 8)

def getWords : Nat → List UInt8 → List Int
  | 0, _ => []
  | count + 1, bytes => getWord bBigEndian needswap (bytes.take 4) :: getWords count (bytes.drop 4)

end Format

theorem int32_int32_add (a b : Int) : int32 (int32 a + b) = int32 (a + b) := Int.bmod_add_bmod

theorem int32_add_int32 (a b : Int) : int32 (a + int32 b) = int32 (a + b) := Int.add_bmod_bmod

theorem int32_of_range {value : Int} (low : -2147483648 ≤ value) (high : value < 2147483648) :
    int32 value = value :=
  Int.bmod_eq_of_le_mul_two (by omega) (by omega)

theorem map_int32_of_range {ids : List Int} (range : ∀ id ∈ ids, 0 ≤ id ∧ id < 2147483648) :
    ids.map int32 = ids := by
  apply (map_congr_left _).trans (List.map_id ids)
  intro id member
  have bounds := range id member
  exact int32_of_range (by omega) bounds.2

section Words
variable {α : Type} (rep : DoubleRep α)

theorem putWord_eq (bBigEndian needswap : Bool) (value : Int) :
    putWord bBigEndian needswap value = encodeInt (bBigEndian ^^ needswap) 4 value := by
  cases needswap <;> simp [putWord, swapIf, SwapWord, reverse_encodeInt]

theorem putDouble_eq (bBigEndian needswap : Bool) (value : α) :
    putDouble rep bBigEndian needswap value = encode (bBigEndian ^^ needswap) 8 (rep.bits value).toNat := by
  cases needswap <;> simp [putDouble, swapIf, SwapWord, reverse_encode]

@[simp] theorem length_putWord (bBigEndian needswap : Bool) (value : Int) :
    (putWord bBigEndian needswap value).length = 4 := by
  simp [putWord_eq]

@[simp] theorem length_putDouble (bBigEndian needswap : Bool) (value : α) :
    (putDouble rep bBigEndian needswap value).length = 8 := by
  simp [putDouble_eq]

@[simp] theorem length_putRect (bBigEndian needswap : Bool) (rect : RectObj α) :
    (putRect rep bBigEndian needswap rect).length = 32 := by
  simp [putRect]

@[simp] theorem length_flatMap_putWord (bBigEndian needswap : Bool) (ids : List Int) :
    (ids.flatMap (putWord bBigEndian needswap)).length = ids.length * 4 := by
  induction ids with
  | nil => rfl
  | cons id rest ih =>
    simp only [flatMap_cons, length_append, length_putWord, ih, length_cons]
    omega

variable {writer reader swapped unswap : Bool}

theorem getWord_putWord (agree : (writer ^^ swapped) = (reader ^^ unswap)) (value : Int) :
    getWord reader unswap (putWord writer swapped value) = int32 value := by
  rw [putWord_eq, agree, getWord]
  cases unswap <;> simp [swapIf, SwapWord, reverse_encodeInt, decodeInt_encodeInt, int32]

theorem getDouble_putDouble (agree : (writer ^^ swapped) = (reader ^^ unswap)) (value : α) :
    getDouble rep reader unswap (putDouble rep writer swapped value) = value := by
  have word : decode reader (swapIf unswap (encode (reader ^^ unswap) 8 (rep.bits value).toNat)) =
      (rep.bits value).toNat % 256 ^ 8 := by
    cases unswap <;> simp only [swapIf, SwapWord, reverse_encode, decode_encode, Bool.xor_false, Bool.xor_true,
      Bool.not_not, if_true, if_false, Bool.false_eq_true]
  have small : (rep.bits value).toNat < 256 ^ 8 := (rep.bits value).isLt
  rw [putDouble_eq, agree, getDouble, word, Nat.mod_eq_of_lt small, BitVec.ofNat_toNat, BitVec.setWidth_eq,
    rep.ofBits_bits]

theorem getRect_putRect (agree : (writer ^^ swapped) = (reader ^^ unswap)) (rect : RectObj α) :
    getRect rep reader unswap (putRect rep writer swapped rect) = rect := by
  simp [getRect, putRect, drop_append, drop_eq_nil_of_le, take_of_length_le,
    getDouble_putDouble rep agree]

theorem getWords_putWords (agree : (writer ^^ swapped) = (reader ^^ unswap)) (ids : List Int) :
    getWords reader unswap ids.length (ids.flatMap (putWord writer swapped)) = ids.map int32 := by
  induction ids with
  | nil => rfl
  | cons id rest ih =>
    rw [length_cons, flatMap_cons, getWords, take_left' (length_putWord ..),
      drop_left' (length_putWord ..), ih, getWord_putWord agree]
    rfl

end Words

end MapServer
