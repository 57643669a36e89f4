import Mathlib.Algebra.Order.Ring.Int

namespace Lib.Bytes

/-- The low `width` bytes of a number, the least significant one first. -/
def lowBytes : Nat → Nat → List UInt8
  | 0, _ => []
  | width + 1, value => UInt8.ofNat value :: lowBytes width (value / 256)

def ofLowBytes : List UInt8 → Nat
  | [] => 0
  | byte :: rest => byte.toNat + 256 * ofLowBytes rest

def encode (bigEndian : Bool) (width value : Nat) : List UInt8 :=
  if bigEndian then (lowBytes width value).reverse else lowBytes width value

def decode (bigEndian : Bool) (bytes : List UInt8) : Nat :=
  ofLowBytes (if bigEndian then bytes.reverse else bytes)

@[simp] theorem length_lowBytes (width value : Nat) : (lowBytes width value).length = width := by
  induction width generalizing value with
  | zero => rfl
  | succ width ih => rw [lowBytes, List.length_cons, ih]

theorem ofLowBytes_lowBytes (width value : Nat) : ofLowBytes (lowBytes width value) = value % 256 ^ width := by
  induction width generalizing value with
  | zero => simp [lowBytes, ofLowBytes, Nat.mod_one]
  | succ width ih =>
    rw [show 256 ^ (width + 1) = 256 * 256 ^ width from Nat.pow_succ', Nat.mod_mul]
    rw [lowBytes, ofLowBytes, ih, UInt8.toNat_ofNat']

@[simp] theorem length_encode (bigEndian : Bool) (width value : Nat) :
    (encode bigEndian width value).length = width := by
  unfold encode
  split <;> simp

theorem decode_encode (bigEndian : Bool) (width value : Nat) :
    decode bigEndian (encode bigEndian width value) = value % 256 ^ width := by
  cases bigEndian <;> simp [decode, encode, ofLowBytes_lowBytes]

theorem reverse_encode (bigEndian : Bool) (width value : Nat) :
    (encode bigEndian width value).reverse = encode (!bigEndian) width value := by
  cases bigEndian <;> simp [encode]

def encodeInt (bigEndian : Bool) (width : Nat) (value : Int) : List UInt8 :=
  encode bigEndian width (value % (256 ^ width : Nat)).toNat

def decodeInt (bigEndian : Bool) (bytes : List UInt8) : Int :=
  (decode bigEndian bytes : Int).bmod (256 ^ bytes.length)

@[simp] theorem length_encodeInt (bigEndian : Bool) (width : Nat) (value : Int) :
    (encodeInt bigEndian width value).length = width :=
  length_encode ..

theorem reverse_encodeInt (bigEndian : Bool) (width : Nat) (value : Int) :
    (encodeInt bigEndian width value).reverse = encodeInt (!bigEndian) width value :=
  reverse_encode ..

theorem decodeInt_encodeInt (bigEndian : Bool) (width : Nat) (value : Int) :
    decodeInt bigEndian (encodeInt bigEndian width value) = value.bmod (256 ^ width) := by
  have positive : (0 : Int) < (256 ^ width : Nat) := by exact_mod_cast Nat.pow_pos (by decide)
  have nonneg := Int.emod_nonneg value positive.ne'
  rw [decodeInt, encodeInt, decode_encode, length_encode, Int.natCast_emod, Int.toNat_of_nonneg nonneg,
    Int.emod_emod, Int.emod_bmod]

end Lib.Bytes
