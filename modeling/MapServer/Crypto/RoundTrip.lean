import MapServer.Crypto.Cipher

namespace MapServer
open Lib.Bytes

theorem decipherRound_encipherRound (k : Nat → Word) : Function.LeftInverse (decipherRound k) (encipherRound k) := by
  intro s
  simp only [decipherRound, encipherRound, BitVec.add_sub_cancel]

theorem sum_encipherRounds (k : Nat → Word) (n : Nat) (s : CipherState) :
    ((encipherRound k)^[n] s).sum = s.sum + BitVec.ofNat 32 n * delta := by
  induction n with
  | zero => simp
  | succ n ih =>
    have step (s : CipherState) : (encipherRound k s).sum = s.sum + delta := rfl
    rw [Function.iterate_succ_apply', step, ih, BitVec.ofNat_add, BitVec.add_mul, BitVec.one_mul, BitVec.add_assoc]

theorem decipher_encipher (v : Word × Word) (k : Nat → Word) : decipher (encipher v k) k = v := by
  have back := (decipherRound_encipherRound k).iterate 32 ⟨v.1, v.2, 0⟩
  have sum : ((encipherRound k)^[32] ⟨v.1, v.2, 0⟩).sum = 0xC6EF3720 := by
    have total : (0 : Word) + BitVec.ofNat 32 32 * delta = 0xC6EF3720 := by decide
    rw [sum_encipherRounds, ← total]
  unfold decipher encipher
  rw [← sum, back]

theorem hexValue_hex : ∀ digit : Fin 16, hexValue (hex (UInt8.ofNat digit)) = UInt8.ofNat digit := by decide

theorem hexValue_hex_of_lt {digit : UInt8} (small : digit.toNat < 16) : hexValue (hex digit) = digit := by
  simpa using hexValue_hex ⟨digit.toNat, small⟩

theorem hexByte_eq (byte : UInt8) :
    0x10 * hexValue (hex (byte / 16)) + hexValue (hex (byte % 16)) = byte := by
  have range := byte.toNat_lt
  have high : (byte / 16).toNat < 16 := by
    rw [UInt8.toNat_div]
    change byte.toNat / 16 < 16
    omega
  have low : (byte % 16).toNat < 16 := by
    rw [UInt8.toNat_mod]
    exact Nat.mod_lt _ (by decide)
  rw [hexValue_hex_of_lt high, hexValue_hex_of_lt low, ← UInt8.toNat_inj, UInt8.toNat_add, UInt8.toNat_mul,
    UInt8.toNat_div, UInt8.toNat_mod]
  change (16 * (byte.toNat / 16) % 2 ^ 8 + byte.toNat % 16) % 2 ^ 8 = byte.toNat
  omega

theorem hexDecodeLoop_msHexEncode (bytes : List UInt8) (rest : CString) :
    hexDecodeLoop (msHexEncode bytes ++ rest) (2 * bytes.length) = bytes := by
  induction bytes with
  | nil => cases rest with
    | nil => rfl
    | cons c rest => cases rest <;> simp [msHexEncode, hexDecodeLoop]
  | cons byte bytes ih =>
    have more : (2 * (bytes.length + 1 : Nat) : Int) - 2 = 2 * bytes.length := by omega
    rw [msHexEncode, List.cons_append, List.cons_append, hexDecodeLoop, List.length_cons, if_neg (by omega),
      hexByte_eq, more, ih]

theorem msHexDecode_bytesOfWord (w : Word) (rest : CString) :
    msHexDecode (msHexEncode (bytesOfWord w) ++ rest) 8 = bytesOfWord w := by
  have decoded := hexDecodeLoop_msHexEncode (bytesOfWord w) rest
  rwa [show (bytesOfWord w).length = 4 from length_encode ..] at decoded

theorem wordOfBytes_bytesOfWord (w : Word) : wordOfBytes (bytesOfWord w) = w := by
  have small : w.toNat < 256 ^ 4 := w.isLt
  rw [wordOfBytes, bytesOfWord, decode_encode, Nat.mod_eq_of_lt small, BitVec.ofNat_toNat, BitVec.setWidth_eq]

theorem length_msHexEncode (bytes : List UInt8) : (msHexEncode bytes).length = 2 * bytes.length := by
  induction bytes with
  | nil => rfl
  | cons byte bytes ih =>
    simp only [msHexEncode, List.length_cons, ih]
    omega

theorem unpackBlock_coded (first second : Word) (rest : CString) :
    unpackBlock (msHexEncode (bytesOfWord first) ++ msHexEncode (bytesOfWord second) ++ rest) =
      ⟨(first, second), rest, rest.isEmpty⟩ := by
  have four (w : Word) : (bytesOfWord w).length = 4 := length_encode ..
  have eight (w : Word) : (msHexEncode (bytesOfWord w)).length = 8 := by rw [length_msHexEncode, four]
  unfold unpackBlock
  dsimp only
  rw [List.append_assoc, List.drop_left' (eight first), msHexDecode_bytesOfWord, if_neg (by simp [four]),
    List.drop_left' (eight second), msHexDecode_bytesOfWord, if_neg (by simp [four]), wordOfBytes_bytesOfWord,
    wordOfBytes_bytesOfWord]

theorem msEncryptStringWithKey_eq (key : Vector UInt8 MS_ENCRYPTION_KEY_SIZE) (text : CString) :
    ∃ first second, encipher (packedWord text, packedWord (text.drop 4)) (keyWords key) = (first, second) ∧
      msEncryptStringWithKey key text = msHexEncode (bytesOfWord first) ++ msHexEncode (bytesOfWord second) ++
        if text.length ≤ 8 then [] else msEncryptStringWithKey key (text.drop 8) := by
  refine ⟨_, _, Prod.mk.eta.symm, ?_⟩
  rw [msEncryptStringWithKey]
  simp only [packBlock_eq, decide_eq_true_eq]
  split
  · rw [List.append_nil]
  · rfl

theorem msEncryptStringWithKey_ne_nil (key : Vector UInt8 MS_ENCRYPTION_KEY_SIZE) (text : CString) :
    msEncryptStringWithKey key text ≠ [] := by
  obtain ⟨first, second, -, written⟩ := msEncryptStringWithKey_eq key text
  intro nothing
  have length := congrArg List.length (written.symm.trans nothing)
  simp [length_msHexEncode, bytesOfWord] at length

theorem decrypt_encrypt (key : Vector UInt8 MS_ENCRYPTION_KEY_SIZE) (text : CString) :
    msDecryptStringWithKey key (msEncryptStringWithKey key text) =
      charsOfWord (packedWord text) ++ charsOfWord (packedWord (text.drop 4)) ++
        if text.length ≤ 8 then []
        else msDecryptStringWithKey key (msEncryptStringWithKey key (text.drop 8)) := by
  obtain ⟨first, second, enciphered, written⟩ := msEncryptStringWithKey_eq key text
  have deciphered : decipher (first, second) (keyWords key) = (packedWord text, packedWord (text.drop 4)) := by
    rw [← enciphered, decipher_encipher]
  rw [msDecryptStringWithKey, written]
  simp only [unpackBlock_coded, deciphered]
  split
  · simp
  · rw [dif_neg]
    rw [List.isEmpty_iff]
    exact msEncryptStringWithKey_ne_nil key _

def byteAt (p : Nat) (w : Word) : UInt8 := .ofBitVec (w.extractLsb' (8 * p) 8)

theorem maskedByte_eq (w mask : Word) (p : Nat) (covers : ∀ i < 8, mask.getLsbD (8 * p + i) = true) :
    UInt8.ofBitVec (((w &&& mask) >>> (8 * p)).setWidth 8) = byteAt p w := by
  refine congrArg UInt8.ofBitVec (BitVec.eq_of_getLsbD_eq fun i inside => ?_)
  simp [inside, covers i inside]

theorem charsOfWord_eq (w : Word) : charsOfWord w = [byteAt 0 w, byteAt 1 w, byteAt 2 w, byteAt 3 w] := by
  rw [← maskedByte_eq w 0x000000ff 0 (by decide), ← maskedByte_eq w 0x0000ff00 1 (by decide),
    ← maskedByte_eq w 0x00ff0000 2 (by decide), ← maskedByte_eq w 0xff000000 3 (by decide)]
  rfl

theorem byteAt_or (p : Nat) (v w : Word) : byteAt p (v ||| w) = byteAt p v ||| byteAt p w := by
  refine UInt8.toBitVec_inj.mp (BitVec.eq_of_getLsbD_eq fun i inside => ?_)
  simp [byteAt, inside]

def spread (c : UInt8) (j p : Nat) : UInt8 := if p < j then 0 else if p = j then c else if 128 ≤ c then 255 else 0

theorem byteAt_signExtend (c : UInt8) {j p : Nat} (small : p < 4) :
    byteAt p (c.toBitVec.signExtend 32 <<< (j * 8)) = spread c j p := by
  have msb : c.toBitVec.msb = decide (128 ≤ c) := by
    rw [BitVec.msb_eq_decide]
    rfl
  refine UInt8.toBitVec_inj.mp (BitVec.eq_of_getLsbD_eq fun i inside => ?_)
  have inWord : 8 * p + i < 32 := by omega
  have later : 8 * p + i - j * 8 < 32 := by omega
  have bit : (byteAt p (c.toBitVec.signExtend 32 <<< (j * 8))).toBitVec.getLsbD i =
      (!decide (8 * p + i < j * 8) &&
        if 8 * p + i - j * 8 < 8 then c.toBitVec.getLsbD (8 * p + i - j * 8) else decide (128 ≤ c)) := by
    simp only [byteAt, BitVec.getLsbD_extractLsb', BitVec.getLsbD_shiftLeft, BitVec.getLsbD_signExtend, inside,
      inWord, later, msb, decide_true, Bool.true_and]
  rw [bit]
  unfold spread
  rcases Nat.lt_trichotomy p j with less | rfl | more
  · have below : 8 * p + i < j * 8 := by omega
    simp [less, below]
  · have at_p : 8 * p + i - p * 8 = i := by omega
    have past : ¬ 8 * p + i < p * 8 := by omega
    simp [at_p, past, inside]
  · have beyond : ¬ 8 * p + i - j * 8 < 8 := by omega
    have past : ¬ 8 * p + i < j * 8 := by omega
    rw [if_neg beyond, if_neg (Nat.not_lt.mpr more.le), if_neg more.ne']
    by_cases negative : 128 ≤ c
    · have ones : ∀ i < 8, (255#8).getLsbD i = true := by decide
      simp [past, negative, ones i inside]
    · simp [past, negative]

theorem all_or (c : UInt8) : 255 ||| c = 255 := by
  refine UInt8.toBitVec_inj.mp ?_
  rw [UInt8.toBitVec_or]
  exact BitVec.allOnes_or

/-- One of the first `n` bytes is negative as a `char`. -/
def negativeIn (text : CString) (n : Nat) : Bool := (text.take n).any (128 ≤ ·)

def packedByte (text : CString) (p : Nat) : UInt8 := if negativeIn text p then 255 else text.getD p 0

theorem packedByte_cons_succ (c : UInt8) (text : CString) (n : Nat) :
    packedByte (c :: text) (n + 1) = if 128 ≤ c then 255 else packedByte text n := by
  unfold packedByte negativeIn
  rw [List.take_succ_cons, List.any_cons, List.getD_cons_succ]
  by_cases negative : 128 ≤ c <;> simp [negative]

theorem byteAt_packWord (count j : Nat) (v : Word) (text : CString) (total : j + count = 4) {p : Nat} (small : p < 4) :
    byteAt p (packWord count j v text).1 = byteAt p v ||| if p < j then 0 else packedByte text (p - j) := by
  induction count generalizing j v text with
  | zero => rw [packWord, if_pos (by omega), UInt8.or_zero]
  | succ count ih =>
    cases text with
    | nil => simp [packWord, packedByte, negativeIn]
    | cons c text =>
      rw [packWord, ih (j + 1) _ text (by omega), byteAt_or, byteAt_signExtend c small, UInt8.or_assoc]
      congr 1
      unfold spread
      rcases Nat.lt_trichotomy p j with less | rfl | more
      · rw [if_pos less, if_pos (by omega), if_pos less, UInt8.or_zero]
      · simp [packedByte, negativeIn]
      · obtain ⟨n, rfl⟩ : ∃ n, p = j + 1 + n := ⟨p - (j + 1), by omega⟩
        have step : j + 1 + n - j = n + 1 := by omega
        have past : ¬ j + 1 + n < j := by omega
        have other : j + 1 + n ≠ j := by omega
        have later : ¬ j + 1 + n < j + 1 := by omega
        rw [if_neg past, if_neg other, if_neg later, if_neg past, Nat.add_sub_cancel_left, step,
          packedByte_cons_succ]
        split
        · rw [all_or]
        · rw [UInt8.zero_or]

theorem charsOfWord_packedWord (text : CString) :
    charsOfWord (packedWord text) = (List.range 4).map (packedByte text) := by
  have byte {p : Nat} (small : p < 4) : byteAt p (packedWord text) = packedByte text p := by
    rw [packedWord, byteAt_packWord 4 0 0 text rfl small, if_neg (Nat.not_lt_zero p), Nat.sub_zero]
    have zero : byteAt p 0 = 0 := by simp [byteAt]
    rw [zero, UInt8.zero_or]
  rw [charsOfWord_eq, byte (by decide), byte (by decide), byte (by decide), byte (by decide)]
  rfl

def bufferByte (text : CString) (i : Nat) : UInt8 := packedByte (text.drop (i / 4 * 4)) (i % 4)

theorem bufferByte_group (text : CString) (n p : Nat) (small : p < 4) :
    bufferByte text (4 * n + p) = packedByte (text.drop (4 * n)) p := by
  have group : (4 * n + p) / 4 * 4 = 4 * n := by omega
  have place : (4 * n + p) % 4 = p := by omega
  rw [bufferByte, group, place]

theorem bufferByte_drop (text : CString) (i : Nat) : bufferByte (text.drop 8) i = bufferByte text (8 + i) := by
  have group : (8 + i) / 4 * 4 = 8 + i / 4 * 4 := by omega
  have place : (8 + i) % 4 = i % 4 := by omega
  rw [bufferByte, bufferByte, List.drop_drop, group, place]

theorem chars_eq_bufferBytes (text : CString) (n : Nat) :
    charsOfWord (packedWord (text.drop (4 * n))) = (List.range 4).map fun p => bufferByte text (4 * n + p) := by
  rw [charsOfWord_packedWord]
  exact List.map_congr_left fun p small => (bufferByte_group text n p (List.mem_range.mp small)).symm

theorem decrypt_encrypt_bytes (key : Vector UInt8 MS_ENCRYPTION_KEY_SIZE) (text : CString) :
    ∃ groups, text.length ≤ 4 * groups ∧ msDecryptStringWithKey key (msEncryptStringWithKey key text) =
      (List.range (4 * groups)).map (bufferByte text) := by
  have block : charsOfWord (packedWord text) ++ charsOfWord (packedWord (text.drop 4)) =
      (List.range (4 * 2)).map (bufferByte text) := by
    have first := chars_eq_bufferBytes text 0
    rw [Nat.mul_zero, List.drop_zero] at first
    rw [first, show text.drop 4 = text.drop (4 * 1) from rfl, chars_eq_bufferBytes text 1,
      show 4 * 2 = 4 + 4 from rfl, List.range_add, List.map_append, List.map_map]
    rfl
  rw [decrypt_encrypt, block]
  split
  · exact ⟨2, by omega, List.append_nil _⟩
  · obtain ⟨groups, fits, rest⟩ := decrypt_encrypt_bytes key (text.drop 8)
    rw [List.length_drop] at fits
    refine ⟨2 + groups, by omega, ?_⟩
    rw [rest, Nat.mul_add, List.range_add, List.map_append, List.map_map]
    congr 1
    exact List.map_congr_left fun i _ => bufferByte_drop text i
termination_by text.length

/-- Some earlier byte of the group of four that `i` is in is negative as a `char`. -/
def NegativeBefore (text : CString) (i : Nat) : Prop :=
  ∃ j c, j < i ∧ j / 4 = i / 4 ∧ text[j]? = some c ∧ 128 ≤ c

theorem negativeIn_iff (text : CString) (n : Nat) :
    negativeIn text n = true ↔ ∃ j c, j < n ∧ text[j]? = some c ∧ 128 ≤ c := by
  unfold negativeIn
  rw [List.any_eq_true]
  constructor
  · rintro ⟨c, member, negative⟩
    obtain ⟨j, here⟩ := List.mem_iff_getElem?.mp member
    rw [List.getElem?_take] at here
    split at here
    · exact ⟨j, c, ‹_›, here, by simpa using negative⟩
    · contradiction
  · rintro ⟨j, c, inside, here, negative⟩
    refine ⟨c, List.mem_iff_getElem?.mpr ⟨j, ?_⟩, by simpa using negative⟩
    rw [List.getElem?_take_of_lt inside, here]

theorem negativeIn_group (text : CString) (i : Nat) :
    negativeIn (text.drop (i / 4 * 4)) (i % 4) = true ↔ NegativeBefore text i := by
  rw [negativeIn_iff]
  constructor
  · rintro ⟨n, c, inside, here, negative⟩
    rw [List.getElem?_drop] at here
    exact ⟨i / 4 * 4 + n, c, by omega, by omega, here, negative⟩
  · rintro ⟨j, c, before, group, here, negative⟩
    have place : i / 4 * 4 + j % 4 = j := by omega
    exact ⟨j % 4, c, by omega, by rw [List.getElem?_drop, place, here], negative⟩

theorem bufferByte_eq (text : CString) (i : Nat) [Decidable (NegativeBefore text i)] :
    bufferByte text i = if NegativeBefore text i then 255 else text.getD i 0 := by
  have place : i / 4 * 4 + i % 4 = i := by omega
  unfold bufferByte packedByte
  simp only [negativeIn_group, List.getD_eq_getElem?_getD, List.getElem?_drop, place]

theorem cString_bytes_iff {f : Nat → UInt8} {size : Nat} {text : CString} (noNul : 0 ∉ text)
    (fits : text.length ≤ size) :
    cString ((List.range size).map f) = text ↔
      (∀ (i : Nat) (c : UInt8), text[i]? = some c → f i = c) ∧ (text.length < size → f text.length = 0) := by
  have entry {i : Nat} (inside : i < size) : ((List.range size).map f)[i]? = some (f i) := by
    rw [List.getElem?_map, List.getElem?_range inside, Option.map_some]
  unfold cString
  constructor
  · intro same
    have split := List.takeWhile_append_dropWhile (p := (· ≠ 0)) (l := (List.range size).map f)
    rw [same] at split
    refine ⟨fun i c here => ?_, fun short => ?_⟩
    · have inside := (List.getElem?_eq_some_iff.mp here).1
      have value := entry (show i < size by omega)
      rw [← split, List.getElem?_append_left inside, here] at value
      exact (Option.some.inj value).symm
    · have value := entry short
      rw [← split, List.getElem?_append_right (Nat.le_refl _), Nat.sub_self] at value
      have head := List.head?_dropWhile_not (· ≠ 0) ((List.range size).map f)
      rw [List.head?_eq_getElem?, value] at head
      simpa using head
  · rintro ⟨same, stops⟩
    obtain ⟨more, rfl⟩ : ∃ more, size = text.length + more := ⟨size - text.length, by omega⟩
    have first : (List.range text.length).map f = text := by
      refine List.ext_getElem? fun i => ?_
      rw [List.getElem?_map]
      rcases Nat.lt_or_ge i text.length with inside | past
      · rw [List.getElem?_range inside, Option.map_some, List.getElem?_eq_getElem inside,
          same i _ (List.getElem?_eq_getElem inside)]
      · rw [List.getElem?_eq_none (by simpa using past), List.getElem?_eq_none past, Option.map_none]
    rw [List.range_add, List.map_append, first, List.map_map, List.takeWhile_append_of_pos]
    · cases more with
      | zero => simp
      | succ more =>
        rw [List.range_succ_eq_map, List.map_cons, List.takeWhile_cons_of_neg, List.append_nil]
        simpa using stops (by omega)
    · intro c member
      rw [decide_eq_true_iff]
      rintro rfl
      exact noNul member

def KeptByPacking (text : CString) : Prop :=
  ∀ (p : Nat) (c : UInt8), text[p]? = some c → 128 ≤ c → ∀ q, p < q → q / 4 = p / 4 → text[q]? = some 255

/-- A string comes back from its encryption exactly when packing keeps its bytes. -/
theorem decrypt_encrypt_iff (key : Vector UInt8 MS_ENCRYPTION_KEY_SIZE) (text : CString) (noNul : 0 ∉ text) :
    cString (msDecryptStringWithKey key (msEncryptStringWithKey key text)) = text ↔ KeptByPacking text := by
  classical
  obtain ⟨groups, fits, bytes⟩ := decrypt_encrypt_bytes key text
  rw [bytes, cString_bytes_iff noNul fits]
  constructor
  · rintro ⟨same, stops⟩ p c here negative q after group
    have before : ∀ i, p < i → i / 4 = p / 4 → NegativeBefore text i :=
      fun i after group => ⟨p, c, after, group.symm, here, negative⟩
    have inside : p < text.length := (List.getElem?_eq_some_iff.mp here).1
    rcases Nat.lt_or_ge q text.length with short | past
    · have value := same q _ (List.getElem?_eq_getElem short)
      rw [bufferByte_eq, if_pos (before q after group)] at value
      rw [List.getElem?_eq_getElem short, ← value]
    · have zero := stops (by omega)
      rw [bufferByte_eq, if_pos (before _ inside (by omega))] at zero
      contradiction
  · intro kept
    refine ⟨fun i c here => ?_, fun _ => ?_⟩
    · rw [bufferByte_eq]
      split
      · rename_i lost
        obtain ⟨j, d, before, group, there, negative⟩ := lost
        simpa [here] using (kept j d there negative i before group.symm).symm
      · rw [List.getD_eq_getElem?_getD, here, Option.getD_some]
    · rw [bufferByte_eq]
      split
      · rename_i lost
        obtain ⟨j, d, before, group, there, negative⟩ := lost
        have past := kept j d there negative text.length before group.symm
        simp at past
      · simp

theorem keptByPacking_of_ascii {text : CString} (plain : ∀ c ∈ text, c < 128) : KeptByPacking text :=
  fun _ c here negative => absurd (plain c (List.mem_of_getElem? here)) (UInt8.not_lt.mpr negative)

def sampleKey : Vector UInt8 MS_ENCRYPTION_KEY_SIZE := .replicate MS_ENCRYPTION_KEY_SIZE 90

theorem decrypt_encrypt_iff_password :
    cString (msDecryptStringWithKey sampleKey (msEncryptStringWithKey sampleKey (ascii "password"))) =
      ascii "password" :=
  (decrypt_encrypt_iff sampleKey (ascii "password") (by decide)).mpr
    (keptByPacking_of_ascii (by simp [ascii]))

theorem decrypt_encrypt_negative_byte :
    ¬ ∀ (key : Vector UInt8 MS_ENCRYPTION_KEY_SIZE) (text : CString), 0 ∉ text →
      cString (msDecryptStringWithKey key (msEncryptStringWithKey key text)) = text := by
  intro always
  have back := always sampleKey [0x80, 0x61] (by decide)
  rw [decrypt_encrypt] at back
  revert back
  decide

end MapServer
