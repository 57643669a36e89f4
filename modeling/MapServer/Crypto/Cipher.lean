import MapServer.Text

/-! The cipher and the hexadecimal coding of `mapcrypto.c`, on a little-endian host with a signed `char`. -/

namespace MapServer
open Lib.Bytes

abbrev Word := BitVec 32

structure CipherState where
  y : Word
  z : Word
  sum : Word

def delta : Word := 0x9E3779B9

def encipherRound (k : Nat → Word) (s : CipherState) : CipherState :=
  let y := s.y + (((s.z <<< 4 ^^^ s.z >>> 5) + s.z) ^^^ (s.sum + k (s.sum &&& 3).toNat))
  let sum := s.sum + delta
  let z := s.z + (((y <<< 4 ^^^ y >>> 5) + y) ^^^ (sum + k (sum >>> 11 &&& 3).toNat))
  { y, z, sum }

def encipher (v : Word × Word) (k : Nat → Word) : Word × Word :=
  let s := (encipherRound k)^[32] ⟨v.1, v.2, 0⟩
  (s.y, s.z)

def decipherRound (k : Nat → Word) (s : CipherState) : CipherState :=
  let z := s.z - (((s.y <<< 4 ^^^ s.y >>> 5) + s.y) ^^^ (s.sum + k (s.sum >>> 11 &&& 3).toNat))
  let sum := s.sum - delta
  let y := s.y - (((z <<< 4 ^^^ z >>> 5) + z) ^^^ (sum + k (sum &&& 3).toNat))
  { y, z, sum }

def decipher (v : Word × Word) (k : Nat → Word) : Word × Word :=
  let s := (decipherRound k)^[32] ⟨v.1, v.2, 0xC6EF3720⟩
  (s.y, s.z)

def hex (digit : UInt8) : UInt8 := (ascii "0123456789ABCDEF").getD digit.toNat 0

def msHexEncode : List UInt8 → CString
  | [] => []
  | byte :: rest => hex (byte / 16) :: hex (byte % 16) :: msHexEncode rest

/-- A `char` from 128 on is negative, so it is not `>= 'A'`. -/
def hexValue (c : UInt8) : UInt8 := if 65 ≤ c ∧ c < 128 then (c &&& 0xdf) - 65 + 10 else c - 48

def hexDecodeLoop : CString → Int → List UInt8
  | high :: low :: rest, numchars =>
    if numchars = 0 then [] else (0x10 * hexValue high + hexValue low) :: hexDecodeLoop rest (numchars - 2)
  | _, _ => []

def msHexDecode (text : CString) (numchars : Int) : List UInt8 :=
  let numchars := numchars.tdiv 2 * 2
  hexDecodeLoop text (if numchars < 2 then -1 else numchars)

def MS_ENCRYPTION_KEY_SIZE : Nat := 16

def wordOfBytes (bytes : List UInt8) : Word := BitVec.ofNat 32 (decode false bytes)

def bytesOfWord (word : Word) : List UInt8 := encode false 4 word.toNat

def keyWords (key : Vector UInt8 MS_ENCRYPTION_KEY_SIZE) (i : Nat) : Word :=
  wordOfBytes ((key.toList.drop (4 * i)).take 4)

/-- One turn of the loop over a string: the two words, what is left of it, and `last_block`. -/
structure CipherBlock where
  words : Word × Word
  rest : CString
  last_block : Bool

/-- The loop over `j`. A negative `char` fills the bytes above it. -/
def packWord : Nat → Nat → Word → CString → Word × CString × Bool
  | 0, _, v, text => (v, text, false)
  | _ + 1, _, v, [] => (v, [], true)
  | count + 1, j, v, c :: text => packWord count (j + 1) (v ||| c.toBitVec.signExtend 32 <<< (j * 8)) text

def packBlock (text : CString) : CipherBlock :=
  let (first, text, last_block) := packWord 4 0 0 text
  let (second, text, last_block) := if last_block then (0, text, last_block) else packWord 4 0 0 text
  ⟨(first, second), text, last_block || text.isEmpty⟩

def packedWord (text : CString) : Word := (packWord 4 0 0 text).1

theorem packWord_rest (count j : Nat) (v : Word) (text : CString) :
    (packWord count j v text).2 = (text.drop count, decide (text.length < count)) := by
  induction count generalizing j v text with
  | zero => rfl
  | succ count ih =>
    cases text with
    | nil => rfl
    | cons c text => simp [packWord, ih]

theorem packBlock_eq (text : CString) :
    packBlock text = ⟨(packedWord text, packedWord (text.drop 4)), text.drop 8, decide (text.length ≤ 8)⟩ := by
  have split (text : CString) : packWord 4 0 0 text = (packedWord text, text.drop 4, decide (text.length < 4)) :=
    Prod.ext rfl (packWord_rest 4 0 0 text)
  unfold packBlock
  rw [split text]
  by_cases short : text.length < 4
  · have none : text.drop 4 = [] := List.drop_eq_nil_of_le (by omega)
    have all : text.drop 8 = [] := List.drop_eq_nil_of_le (by omega)
    have whole : text.length ≤ 8 := by omega
    simp [short, none, all, whole]
    rfl
  · simp only [short, decide_false, Bool.false_eq_true, if_false, split]
    rw [List.drop_drop]
    refine congrArg (CipherBlock.mk _ _) ?_
    rw [Bool.eq_iff_iff, Bool.or_eq_true, List.isEmpty_iff_length_eq_zero, List.length_drop, List.length_drop,
      decide_eq_true_iff, decide_eq_true_iff]
    omega

def msEncryptStringWithKey (key : Vector UInt8 MS_ENCRYPTION_KEY_SIZE) (text : CString) : CString :=
  let block := packBlock text
  let w := encipher block.words (keyWords key)
  let out := msHexEncode (bytesOfWord w.1) ++ msHexEncode (bytesOfWord w.2)
  if _ : block.last_block then out else out ++ msEncryptStringWithKey key block.rest
termination_by text.length
decreasing_by
  rename_i more
  have more : ¬ (packBlock text).last_block = true := more
  rw [packBlock_eq, decide_eq_true_iff] at more
  rw [packBlock_eq, List.length_drop]
  omega

def unpackBlock (text : CString) : CipherBlock :=
  let first := msHexDecode text 8
  if first.length ≠ 4 then ⟨(wordOfBytes first, 0), text, true⟩
  else
    let text := text.drop 8
    let second := msHexDecode text 8
    if second.length ≠ 4 then ⟨(wordOfBytes first, wordOfBytes second), text, true⟩
    else
      let text := text.drop 8
      ⟨(wordOfBytes first, wordOfBytes second), text, text.isEmpty⟩

theorem length_hexDecodeLoop_le (text : CString) (numchars : Int) :
    2 * (hexDecodeLoop text numchars).length ≤ text.length := by
  induction text, numchars using hexDecodeLoop.induct with
  | case1 high low rest => simp [hexDecodeLoop]
  | case2 high low rest numchars more ih =>
    rw [hexDecodeLoop, if_neg more, List.length_cons, List.length_cons, List.length_cons]
    omega
  | case3 text numchars short => simp [hexDecodeLoop]

theorem unpackBlock_rest {text : CString} (more : (unpackBlock text).last_block = false) :
    (unpackBlock text).rest.length < text.length := by
  unfold unpackBlock at more ⊢
  dsimp only at more ⊢
  split
  · rename_i short
    simp [short] at more
  · rename_i full
    have enough : 2 * (msHexDecode text 8).length ≤ text.length := length_hexDecodeLoop_le ..
    split
    · rename_i short
      simp [full, short] at more
    · simp only [List.length_drop]
      omega

/-- The four `char`s that a word is copied to. -/
def charsOfWord (w : Word) : List UInt8 :=
  [.ofBitVec ((w &&& 0x000000ff).setWidth 8), .ofBitVec (((w &&& 0x0000ff00) >>> 8).setWidth 8),
    .ofBitVec (((w &&& 0x00ff0000) >>> 16).setWidth 8), .ofBitVec (((w &&& 0xff000000) >>> 24).setWidth 8)]

def msDecryptStringWithKey (key : Vector UInt8 MS_ENCRYPTION_KEY_SIZE) (text : CString) : List UInt8 :=
  let block := unpackBlock text
  let w := decipher block.words (keyWords key)
  let out := charsOfWord w.1 ++ charsOfWord w.2
  if _ : block.last_block then out else out ++ msDecryptStringWithKey key block.rest
termination_by text.length
decreasing_by
  rename_i more
  exact unpackBlock_rest (Bool.eq_false_iff.mpr more)

def cString (buffer : List UInt8) : CString := buffer.takeWhile (· ≠ 0)

end MapServer
