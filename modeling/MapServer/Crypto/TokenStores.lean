import MapServer.Crypto.RoundTrip
import MapServer.Lib.Filling
import MapServer.Runtime

namespace MapServer
open Lib.Filling

def hexToken (pszStart : CString) : Option (CString × CString) :=
  let digits := pszStart.takeWhile (· ≠ 125)
  match pszStart.drop digits.length with
  | [] => none
  | _ :: rest => if digits.length > 1 ∧ digits.all isxdigit then some (digits, rest) else none

def strlen (out : Cursor) : Nat := (cString (out.buffer.drop out.pos)).length

theorem hexToken_rest {pszStart digits rest : CString} (token : hexToken pszStart = some (digits, rest)) :
    rest.length < pszStart.length := by
  unfold hexToken at token
  cases closed : pszStart.drop (pszStart.takeWhile (· ≠ 125)).length with
  | nil =>
    simp only [closed] at token
    cases token
  | cons brace after =>
    simp only [closed] at token
    split at token
    · obtain ⟨-, rfl⟩ := Prod.mk.inj (Option.some.inj token)
      have length := congrArg List.length closed
      rw [List.length_drop, List.length_cons] at length
      omega
    · cases token

/-- The loop over the string. The key is missing when it cannot be loaded; then the inner result is `NULL`. The outer `none`
is a store past the end of the output buffer. -/
def decryptLoop (encryption_key : Option (Vector UInt8 MS_ENCRYPTION_KEY_SIZE)) (text : CString) (out : Cursor) :
    Option (Option Cursor) :=
  match text with
  | [] => some (some out)
  | c :: rest =>
    if c = 123 then
      match _ : hexToken rest with
      | some (pszTmp, rest) =>
        match encryption_key with
        | none => some none
        | some key => do
          let out ← out.store (msDecryptStringWithKey key pszTmp ++ [0])
          decryptLoop encryption_key rest (out.advance (strlen out))
      | none => do
        let out ← out.store [c]
        decryptLoop encryption_key rest (out.advance 1)
    else do
      let out ← out.store [c]
      decryptLoop encryption_key rest (out.advance 1)
termination_by text.length
decreasing_by
  · rename_i token
    have := hexToken_rest token
    simp only [List.length_cons]
    omega
  · exact Nat.lt_succ_self _
  · exact Nat.lt_succ_self _

def msDecryptStringTokens (malloc : Nat → UInt8) (encryption_key : Option (Vector UInt8 MS_ENCRYPTION_KEY_SIZE))
    (text : CString) : Option (Option (List UInt8)) := do
  let outbuf := msSmallMalloc malloc (text.length + 1)
  let decrypted ← decryptLoop encryption_key text ⟨outbuf, 0⟩
  match decrypted with
  | none => some none
  | some out => do
    let out ← out.store [0]
    some (some out.buffer)

end MapServer

namespace MapServer
open Lib.Filling

abbrev EncryptionKey := Vector UInt8 MS_ENCRYPTION_KEY_SIZE

inductive Piece where
  | plain (c : UInt8)
  | token (digits : CString)

def pieces (text : CString) : List Piece :=
  match text with
  | [] => []
  | c :: rest =>
    if c = 123 then
      match _ : hexToken rest with
      | some (digits, rest) => .token digits :: pieces rest
      | none => .plain c :: pieces rest
    else .plain c :: pieces rest
termination_by text.length
decreasing_by
  · rename_i token
    have := hexToken_rest token
    simp only [List.length_cons]
    omega
  · exact Nat.lt_succ_self _
  · exact Nat.lt_succ_self _

def chunkOf (key : EncryptionKey) : Piece → Chunk
  | .plain c => ⟨[c], 1⟩
  | .token digits =>
    ⟨msDecryptStringWithKey key digits ++ [0], (cString (msDecryptStringWithKey key digits)).length⟩

def decryptedLength (key : EncryptionKey) (pieces : List Piece) : Nat := keptLength (pieces.map (chunkOf key))

def blockBytes (digits : CString) : Nat := 8 * ((digits.length + 15) / 16)

structure RoomForBlocks (key : EncryptionKey) (text : CString) : Prop where
  token : ∀ before digits after, pieces text = before ++ .token digits :: after →
    decryptedLength key before + blockBytes digits ≤ text.length
  whole : decryptedLength key (pieces text) ≤ text.length

theorem hexToken_eq_some {pszStart digits rest : CString} (token : hexToken pszStart = some (digits, rest)) :
    2 ≤ digits.length ∧ digits.length + 1 + rest.length = pszStart.length := by
  unfold hexToken at token
  cases closed : pszStart.drop (pszStart.takeWhile (· ≠ 125)).length with
  | nil =>
    simp only [closed] at token
    cases token
  | cons brace after =>
    simp only [closed] at token
    split at token
    · rename_i valid
      obtain ⟨rfl, rfl⟩ := Prod.mk.inj (Option.some.inj token)
      have length := congrArg List.length closed
      rw [List.length_drop, List.length_cons] at length
      exact ⟨valid.1, by omega⟩
    · cases token

theorem two_digits {text digits : CString} (member : .token digits ∈ pieces text) : 2 ≤ digits.length := by
  fun_induction pieces text with
  | case1 => cases member
  | case2 rest digits' after token ih =>
    rcases List.mem_cons.mp member with same | later
    · cases same
      exact (hexToken_eq_some token).1
    · exact ih later
  | case3 rest token ih => exact ih ((List.mem_cons.mp member).resolve_left nofun)
  | case4 c rest plain ih => exact ih ((List.mem_cons.mp member).resolve_left nofun)

theorem length_hexDecodeLoop (text : CString) (count : Nat) :
    (hexDecodeLoop text (2 * count : Nat)).length = min count (text.length / 2) := by
  induction count generalizing text with
  | zero =>
    match text with
    | [] => rfl
    | [_] => rfl
    | _ :: _ :: _ => simp [hexDecodeLoop]
  | succ count ih =>
    match text with
    | [] => simp [hexDecodeLoop]
    | [_] => simp [hexDecodeLoop]
    | high :: low :: rest =>
      have less : ((2 * (count + 1) : Nat) : Int) - 2 = (2 * count : Nat) := by omega
      rw [hexDecodeLoop, if_neg (by omega), less, List.length_cons, ih, List.length_cons, List.length_cons]
      omega

theorem length_msHexDecode (text : CString) : (msHexDecode text 8).length = min 4 (text.length / 2) :=
  length_hexDecodeLoop text 4

theorem unpackBlock_last (text : CString) : (unpackBlock text).last_block = decide (text.length ≤ 16) ∧
    (16 < text.length → (unpackBlock text).rest = text.drop 16) := by
  have first := length_msHexDecode text
  have second := length_msHexDecode (text.drop 8)
  rw [List.length_drop] at second
  unfold unpackBlock
  dsimp only
  split
  · exact ⟨(decide_eq_true (by omega)).symm, fun more => by omega⟩
  · split
    · exact ⟨(decide_eq_true (by omega)).symm, fun more => by omega⟩
    · refine ⟨?_, fun _ => by rw [List.drop_drop]⟩
      rw [Bool.eq_iff_iff, List.isEmpty_iff_length_eq_zero, List.length_drop, List.length_drop, decide_eq_true_iff]
      omega

theorem length_msDecryptStringWithKey (key : EncryptionKey) (text : CString) :
    (msDecryptStringWithKey key text).length = 8 * max 1 ((text.length + 15) / 16) := by
  obtain ⟨last, rest⟩ := unpackBlock_last text
  have block (w : Word × Word) : (charsOfWord w.1 ++ charsOfWord w.2).length = 8 := rfl
  rw [msDecryptStringWithKey]
  by_cases short : text.length ≤ 16
  · rw [dif_pos (by rw [last]; exact decide_eq_true short), block]
    omega
  · rw [dif_neg (by rw [last]; simpa using short), List.length_append, block, rest (by omega),
      length_msDecryptStringWithKey key (text.drop 16), List.length_drop]
    omega
termination_by text.length

theorem cString_append_zero (bytes rest : List UInt8) : cString (bytes ++ [0] ++ rest) = cString bytes := by
  induction bytes with
  | nil => rfl
  | cons c bytes ih =>
    unfold cString at *
    rw [List.cons_append, List.cons_append, List.takeWhile_cons, List.takeWhile_cons, ih]

theorem decryptLoop_plain (key : EncryptionKey) {c : UInt8} {rest : CString} (plain : c = 123 → hexToken rest = none)
    (out : Cursor) : decryptLoop (some key) (c :: rest) out =
      (out.put (chunkOf key (.plain c))).bind fun out => decryptLoop (some key) rest out := by
  have one : (out.store [c]).bind (fun out => decryptLoop (some key) rest (out.advance 1)) =
      (out.put (chunkOf key (.plain c))).bind fun out => decryptLoop (some key) rest out :=
    (Option.bind_map ..).symm
  rw [decryptLoop, ← one]
  split
  · rename_i brace
    split
    · rename_i token
      rw [plain brace] at token
      cases token
    · rfl
  · rfl

theorem decryptLoop_token (key : EncryptionKey) {rest digits after : CString}
    (token : hexToken rest = some (digits, after)) (out : Cursor) : decryptLoop (some key) (123 :: rest) out =
      (out.put (chunkOf key (.token digits))).bind fun out => decryptLoop (some key) after out := by
  rw [decryptLoop, if_pos rfl]
  split
  · rename_i digits' after' token'
    obtain ⟨rfl, rfl⟩ := Prod.mk.inj (Option.some.inj (token.symm.trans token'))
    unfold Cursor.put chunkOf
    dsimp only
    cases stores : out.store (msDecryptStringWithKey key digits ++ [0]) with
    | none => rfl
    | some stored =>
      obtain ⟨pos, -, -, others, holds⟩ := Cursor.store_eq_some stores
      have length : strlen stored = (cString (msDecryptStringWithKey key digits)).length := by
        rw [strlen, pos, holds, cString_append_zero]
      simp only [Option.bind_eq_bind, Option.bind_some, Option.map_some, length]
  · rename_i none
    rw [token] at none
    cases none

theorem decryptLoop_eq (key : EncryptionKey) (text : CString) (out : Cursor) :
    decryptLoop (some key) text out = (out.puts ((pieces text).map (chunkOf key))).map some := by
  have next (out : Cursor) (piece : Piece) (more : List Piece) :
      (out.puts ((piece :: more).map (chunkOf key))).map some =
        (out.put (chunkOf key piece)).bind fun out => (out.puts (more.map (chunkOf key))).map some :=
    Option.map_bind ..
  fun_induction pieces text generalizing out with
  | case1 =>
    rw [decryptLoop]
    rfl
  | case2 rest digits after token ih =>
    rw [decryptLoop_token key token, next]
    simp only [ih]
  | case3 rest token ih =>
    rw [decryptLoop_plain key (fun _ => token), next]
    simp only [ih]
  | case4 c rest plain ih =>
    rw [decryptLoop_plain key (fun brace => absurd brace plain), next]
    simp only [ih]

theorem msDecryptStringTokens_chunks (malloc : Nat → UInt8) (key : EncryptionKey) (text : CString) :
    (∃ outbuf, msDecryptStringTokens malloc (some key) text = some outbuf) ↔
      ∃ out, (Cursor.mk (msSmallMalloc malloc (text.length + 1)) 0).puts
        ((pieces text).map (chunkOf key) ++ [⟨[0], 0⟩]) = some out := by
  unfold msDecryptStringTokens
  dsimp only
  rw [decryptLoop_eq, Cursor.puts_append]
  cases (Cursor.mk (msSmallMalloc malloc (text.length + 1)) 0).puts ((pieces text).map (chunkOf key)) with
  | none => exact iff_of_false (by simp) (by simp)
  | some out =>
    simp only [Option.map_some, Option.bind_eq_bind, Option.bind_some, Cursor.puts, List.foldlM_cons, List.foldlM_nil,
      Cursor.put]
    cases out.store [0] with
    | none => exact iff_of_false (by simp) (by simp)
    | some last => exact iff_of_true ⟨_, rfl⟩ ⟨_, rfl⟩

theorem length_token_chunk (key : EncryptionKey) {digits : CString} (two : 2 ≤ digits.length) :
    (chunkOf key (.token digits)).bytes.length = blockBytes digits + 1 := by
  simp only [chunkOf, List.length_append, List.length_singleton, length_msDecryptStringWithKey, blockBytes]
  omega

theorem decryptedLength_append (key : EncryptionKey) (before after : List Piece) :
    decryptedLength key (before ++ after) = decryptedLength key before + decryptedLength key after := by
  simp [decryptedLength, keptLength]

theorem decryptedLength_cons (key : EncryptionKey) (piece : Piece) (after : List Piece) :
    decryptedLength key (piece :: after) = (chunkOf key piece).kept + decryptedLength key after := by
  simp [decryptedLength, keptLength]

theorem chunks_fit_iff (malloc : Nat → UInt8) (key : EncryptionKey) (text : CString) :
    (∃ out, (Cursor.mk (msSmallMalloc malloc (text.length + 1)) 0).puts
      ((pieces text).map (chunkOf key) ++ [⟨[0], 0⟩]) = some out) ↔ RoomForBlocks key text := by
  rw [Cursor.puts_iff]
  simp only [length_msSmallMalloc, Nat.zero_add]
  constructor
  · intro fits
    refine ⟨?_, ?_⟩
    · intro before digits after split
      have two := two_digits (show .token digits ∈ pieces text by rw [split]; simp)
      have room := fits (before.map (chunkOf key)) (chunkOf key (.token digits))
        (after.map (chunkOf key) ++ [⟨[0], 0⟩]) (by rw [split]; simp)
      rw [length_token_chunk key two] at room
      unfold decryptedLength
      omega
    · have room := fits _ _ [] rfl
      simp only [List.length_singleton] at room
      unfold decryptedLength
      omega
  · intro room before chunk after split
    have whole := room.whole
    rcases List.append_eq_append_iff.mp split with ⟨more, rfl, last⟩ | ⟨_ | ⟨first, more⟩, same, rest⟩
    · -- the terminating zero
      obtain ⟨rfl, rfl, rfl⟩ : more = [] ∧ chunk = ⟨[0], 0⟩ ∧ after = [] := by
        cases more with
        | nil => simpa [eq_comm] using last
        | cons _ more => simp at last
      rw [List.append_nil]
      exact Nat.succ_le_succ whole
    · rw [List.append_nil] at same
      obtain ⟨rfl, -⟩ := List.cons.inj rest
      rw [← same]
      exact Nat.succ_le_succ whole
    · obtain ⟨rfl, -⟩ := List.cons.inj rest
      obtain ⟨earlier, later, parts, rfl, mapped⟩ := List.map_eq_append_iff.mp same
      obtain ⟨piece, others, rfl, rfl, -⟩ := List.map_eq_cons_iff.mp mapped
      cases piece with
      | plain c =>
        rw [parts, decryptedLength_append, decryptedLength_cons] at whole
        exact Nat.succ_le_succ (Nat.le_trans (Nat.le_add_right ..) whole)
      | token digits =>
        have two := two_digits (show .token digits ∈ pieces text by rw [parts]; simp)
        rw [length_token_chunk key two]
        exact Nat.succ_le_succ (room.token _ _ _ parts)

/-- A decryption stays inside its buffer exactly when there is room for the blocks of every token. -/
theorem msDecryptStringTokens_stores_iff (malloc : Nat → UInt8) (key : EncryptionKey) (text : CString) :
    (∃ outbuf, msDecryptStringTokens malloc (some key) text = some outbuf) ↔ RoomForBlocks key text :=
  (msDecryptStringTokens_chunks malloc key text).trans (chunks_fit_iff malloc key text)

theorem msDecryptStringTokens_two_digits :
    ¬ ∀ (key : EncryptionKey) (text : CString),
      ∃ outbuf, msDecryptStringTokens (fun _ => 0) (some key) text = some outbuf := by
  intro always
  have room := (chunks_fit_iff _ _ _).mp ((msDecryptStringTokens_chunks _ _ _).mp (always sampleKey (ascii "\x7bab\x7d")))
  have token : pieces (ascii "\x7bab\x7d") = [.token (ascii "ab")] := by
    show pieces (123 :: ascii "ab\x7d") = _
    rw [pieces, if_pos rfl]
    have found : hexToken (ascii "ab\x7d") = some (ascii "ab", []) := by decide
    split
    · rename_i digits rest token
      rw [found] at token
      obtain ⟨rfl, rfl⟩ := Prod.mk.inj (Option.some.inj token)
      rw [pieces]
    · rename_i none
      rw [found] at none
      cases none
  have fits := room.token [] (ascii "ab") [] token
  revert fits
  decide

end MapServer
