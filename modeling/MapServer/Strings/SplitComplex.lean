import Mathlib.Data.List.Chain
import MapServer.Lib.GrowingBuffer
import MapServer.Text

namespace MapServer
open Lib.GrowingBuffer List Option Function

def MS_HONOURSTRINGS : UInt32 := 0x0001
def MS_ALLOWEMPTYTOKENS : UInt32 := 0x0002
def MS_PRESERVEQUOTES : UInt32 := 0x0004
def MS_PRESERVEESCAPES : UInt32 := 0x0008
def MS_STRIPLEADSPACES : UInt32 := 0x0010
def MS_STRIPENDSPACES : UInt32 := 0x0020

def hasFlag (nFlags flag : UInt32) : Bool := nFlags &&& flag != 0

structure TokenScan where
  /-- The first `nTokenLen` bytes of the buffer. -/
  pszToken : CString
  nTokenMax : Nat
  bInString : Bool

def TokenScan.store (scan : TokenScan) (c : UInt8) : Option TokenScan :=
  if scan.pszToken.length < scan.nTokenMax then some { scan with pszToken := scan.pszToken ++ [c] } else none

def TokenScan.preserve (scan : TokenScan) (preserves : Bool) (c : UInt8) : Option TokenScan :=
  if preserves then scan.store c else some scan

def TokenScan.copy (scan : TokenScan) (c : UInt8) : Option TokenScan :=
  if scan.pszToken.length ≥ scan.nTokenMax - 3 then { scan with nTokenMax := scan.nTokenMax * 2 + 10 }.store c
  else scan.store c

section Splitting
variable (pszDelimiters : CString) (nFlags : UInt32)

def escapes (bInString : Bool) (c : UInt8) (rest : CString) : Bool :=
  bInString && c == 92 && (rest.head? == some 34 || rest.head? == some 92)

def splitToken (scan : TokenScan) (bStartString : Bool) (pszString : CString) : Option (TokenScan × CString) :=
  match pszString with
  | [] => some (scan, [])
  | c :: rest =>
    if !scan.bInString && pszDelimiters.contains c then some (scan, rest)
    else if hasFlag nFlags MS_HONOURSTRINGS && c == 34 then do
      let stored ← scan.preserve (hasFlag nFlags MS_PRESERVEQUOTES) c
      splitToken { stored with bInString := !scan.bInString } bStartString rest
    else if escapes scan.bInString c rest then do
      let stored ← scan.preserve (hasFlag nFlags MS_PRESERVEESCAPES) c
      let copied ← stored.copy (rest.headD 0)
      splitToken copied false rest.tail
    else if !scan.bInString && hasFlag nFlags MS_STRIPLEADSPACES && bStartString && isspace c then
      splitToken scan bStartString rest
    else do
      let copied ← scan.copy c
      splitToken copied false rest
termination_by pszString.length

theorem splitToken_shorter {scan last : TokenScan} {bStartString : Bool} {pszString after : CString}
    (result : splitToken pszDelimiters nFlags scan bStartString pszString = some (last, after)) :
    after.length ≤ pszString.length - 1 := by
  fun_induction splitToken pszDelimiters nFlags scan bStartString pszString
  case case1 =>
    cases result
    exact Nat.zero_le _
  case case2 =>
    cases result
    exact Nat.le_refl _
  case case3 quote ih =>
    obtain ⟨stored, -, others⟩ := bind_eq_some_iff.mp result
    exact (ih stored others).trans (Nat.sub_le _ _)
  case case4 escape ih =>
    obtain ⟨stored, -, copies⟩ := bind_eq_some_iff.mp result
    obtain ⟨copied, -, others⟩ := bind_eq_some_iff.mp copies
    have shorter := ih copied others
    rw [length_tail] at shorter
    rw [length_cons]
    omega
  case case5 ih => exact (ih result).trans (Nat.sub_le _ _)
  case case6 ih =>
    obtain ⟨copied, -, others⟩ := bind_eq_some_iff.mp result
    exact (ih copied others).trans (Nat.sub_le _ _)

def TokenScan.strip (scan : TokenScan) : TokenScan :=
  if !scan.bInString && hasFlag nFlags MS_STRIPENDSPACES then { scan with pszToken := scan.pszToken.rdropWhile isspace }
  else scan

def splitTokens (nTokenMax : Nat) (pszString : CString) : Option (List CString) :=
  if pszString = [] then some []
  else
    match _ : splitToken pszDelimiters nFlags ⟨[], nTokenMax, false⟩ true pszString with
    | none => none
    | some (scan, after) => do
      let token := scan.strip nFlags
      let _ ← token.store 0
      let others ← splitTokens token.nTokenMax after
      some (if token.pszToken ≠ [] ∨ hasFlag nFlags MS_ALLOWEMPTYTOKENS then token.pszToken :: others else others)
termination_by pszString.length
decreasing_by
  have shorter := splitToken_shorter pszDelimiters nFlags ‹_›
  have some_ : 0 < pszString.length := List.length_pos_iff.mpr ‹_›
  omega

end Splitting

/-- The tokens, or `none` after a store outside of the token buffer. -/
def msStringSplitComplex (pszString : Option CString) (pszDelimiters : CString) (nFlags : UInt32) : Option (List CString) :=
  match pszString with
  | none => some []
  | some pszString => do
    let tokens ← splitTokens pszDelimiters nFlags 10 pszString
    -- a last token that is empty, which the loop does not get to
    if hasFlag nFlags MS_ALLOWEMPTYTOKENS ∧ tokens ≠ [] ∧ pszString.getLast?.any pszDelimiters.contains then some (tokens ++ [[]])
    else some tokens

structure CopiedToken where
  bytes : List (Item UInt8)
  bInString : Bool

def behind (front : List (Item UInt8)) (copied : CopiedToken × CString) : CopiedToken × CString :=
  (⟨front ++ copied.1.bytes, copied.1.bInString⟩, copied.2)

def preserved (preserves : Bool) (c : UInt8) : List (Item UInt8) := if preserves then [⟨c, false⟩] else []

section Copied
variable (pszDelimiters : CString) (nFlags : UInt32)

def copiedToken (bInString bStartString : Bool) (pszString : CString) : CopiedToken × CString :=
  match pszString with
  | [] => (⟨[], bInString⟩, [])
  | c :: rest =>
    if !bInString && pszDelimiters.contains c then (⟨[], bInString⟩, rest)
    else if hasFlag nFlags MS_HONOURSTRINGS && c == 34 then
      behind (preserved (hasFlag nFlags MS_PRESERVEQUOTES) c) (copiedToken (!bInString) bStartString rest)
    else if escapes bInString c rest then
      behind (preserved (hasFlag nFlags MS_PRESERVEESCAPES) c ++ [⟨rest.headD 0, true⟩]) (copiedToken bInString false rest.tail)
    else if !bInString && hasFlag nFlags MS_STRIPLEADSPACES && bStartString && isspace c then
      copiedToken bInString bStartString rest
    else behind [⟨c, true⟩] (copiedToken bInString false rest)
termination_by pszString.length

theorem copiedToken_shorter (bInString bStartString : Bool) (pszString : CString) :
    (copiedToken pszDelimiters nFlags bInString bStartString pszString).2.length ≤ pszString.length - 1 := by
  fun_induction copiedToken pszDelimiters nFlags bInString bStartString pszString
  case case1 => exact Nat.zero_le _
  case case2 => exact Nat.le_refl _
  case case3 ih => exact ih.trans (Nat.sub_le _ _)
  case case4 ih =>
    rw [length_tail] at ih
    rw [length_cons]
    exact ih.trans (by omega)
  case case5 ih => exact ih.trans (Nat.sub_le _ _)
  case case6 ih => exact ih.trans (Nat.sub_le _ _)

def copiedTokens (pszString : CString) : List CopiedToken :=
  if pszString = [] then []
  else
    let copied := copiedToken pszDelimiters nFlags false true pszString
    copied.1 :: copiedTokens copied.2
termination_by pszString.length
decreasing_by
  have shorter := copiedToken_shorter pszDelimiters nFlags false true pszString
  have some_ : 0 < pszString.length := List.length_pos_iff.mpr ‹_›
  omega

def CopiedToken.text (token : CopiedToken) : CString :=
  if !token.bInString && hasFlag nFlags MS_STRIPENDSPACES then (token.bytes.map Item.value).rdropWhile isspace
  else token.bytes.map Item.value

def tokenRoom (level : Nat) : Nat := 20 * 2 ^ level - 10

theorem tokenRoom_succ (level : Nat) : tokenRoom (level + 1) = tokenRoom level * 2 + 10 := by
  have positive := Nat.one_le_two_pow (n := level)
  rw [tokenRoom, tokenRoom, Nat.pow_succ]
  omega

theorem tokenRoom_jumps (level : Nat) : tokenRoom level + 3 < tokenRoom (level + 1) := by
  rw [tokenRoom_succ]
  omega

theorem tokenRoom_grows : StrictMono tokenRoom :=
  strictMono_nat_of_lt_succ fun level => (Nat.le_add_right _ 3).trans_lt (tokenRoom_jumps level)

def TokensFit (need : Nat) : List CopiedToken → Prop
  | [] => True
  | token :: tokens =>
    Room tokenRoom_grows 3 need token.bytes ∧
      (token.text nFlags).length < roomFor tokenRoom_grows (max need (needOf 3 token.bytes)) ∧
      TokensFit (max need (needOf 3 token.bytes)) tokens

def scanOf (bInString : Bool) (buffer : Buffer UInt8) : TokenScan := ⟨buffer.contents, tokenRoom buffer.level, bInString⟩

@[simp] theorem scanOf_bInString (bInString : Bool) (buffer : Buffer UInt8) : (scanOf bInString buffer).bInString = bInString :=
  rfl

theorem store_scanOf (bInString : Bool) (buffer : Buffer UInt8) (c : UInt8) :
    (scanOf bInString buffer).store c = (append tokenRoom 3 buffer ⟨c, false⟩).map (scanOf bInString) := by
  rw [TokenScan.store, append]
  by_cases inside : (scanOf bInString buffer).pszToken.length < (scanOf bInString buffer).nTokenMax
  · have room : buffer.contents.length < tokenRoom buffer.level := inside
    rw [if_pos inside]
    simp [room, scanOf]
  · have full : ¬buffer.contents.length < tokenRoom buffer.level := inside
    rw [if_neg inside]
    simp [full]

theorem copy_scanOf (bInString : Bool) (buffer : Buffer UInt8) (c : UInt8) :
    (scanOf bInString buffer).copy c = (append tokenRoom 3 buffer ⟨c, true⟩).map (scanOf bInString) := by
  by_cases near : tokenRoom buffer.level ≤ buffer.contents.length + 3
  · have check : (scanOf bInString buffer).pszToken.length ≥ (scanOf bInString buffer).nTokenMax - 3 :=
      Nat.sub_le_iff_le_add.mpr near
    have grown : { scanOf bInString buffer with nTokenMax := (scanOf bInString buffer).nTokenMax * 2 + 10 } =
        scanOf bInString ⟨buffer.contents, buffer.level + 1⟩ := by
      rw [scanOf, scanOf, tokenRoom_succ]
    rw [TokenScan.copy, if_pos check, grown, store_scanOf, append, append]
    simp [near]
  · have check : ¬(scanOf bInString buffer).pszToken.length ≥ (scanOf bInString buffer).nTokenMax - 3 :=
      fun close => near (Nat.sub_le_iff_le_add.mp close)
    rw [TokenScan.copy, if_neg check, store_scanOf, append, append]
    simp [near]

theorem appendAll_append (buffer : Buffer UInt8) (front items : List (Item UInt8)) :
    appendAll tokenRoom 3 buffer (front ++ items) =
      (appendAll tokenRoom 3 buffer front).bind fun middle => appendAll tokenRoom 3 middle items :=
  foldlM_append

theorem appendAll_singleton (buffer : Buffer UInt8) (item : Item UInt8) :
    appendAll tokenRoom 3 buffer [item] = append tokenRoom 3 buffer item := by
  rw [appendAll, foldlM_cons]
  exact bind_fun_some _

theorem preserve_scanOf (bInString preserves : Bool) (buffer : Buffer UInt8) (c : UInt8) :
    (scanOf bInString buffer).preserve preserves c =
      (appendAll tokenRoom 3 buffer (preserved preserves c)).map (scanOf bInString) := by
  cases preserves with
  | true =>
    rw [TokenScan.preserve, preserved, if_pos rfl, if_pos rfl, appendAll_singleton, store_scanOf]
  | false => rfl

def scanned (buffer : Buffer UInt8) (copied : CopiedToken × CString) : Option (TokenScan × CString) :=
  (appendAll tokenRoom 3 buffer copied.1.bytes).map fun last => (scanOf copied.1.bInString last, copied.2)

theorem scanned_behind (buffer : Buffer UInt8) (front : List (Item UInt8)) (copied : CopiedToken × CString) :
    scanned buffer (behind front copied) = (appendAll tokenRoom 3 buffer front).bind fun middle => scanned middle copied := by
  rw [scanned, behind, appendAll_append, Option.map_bind]
  rfl

theorem splitToken_eq (buffer : Buffer UInt8) (bInString bStartString : Bool) (pszString : CString) :
    splitToken pszDelimiters nFlags (scanOf bInString buffer) bStartString pszString =
      scanned buffer (copiedToken pszDelimiters nFlags bInString bStartString pszString) := by
  fun_induction copiedToken pszDelimiters nFlags bInString bStartString pszString generalizing buffer
  case case1 =>
    rw [splitToken]
    rfl
  case case2 ends =>
    rw [splitToken, scanOf_bInString, if_pos ends]
    rfl
  case case3 goesOn quote ih =>
    rw [splitToken, scanOf_bInString, if_neg goesOn, if_pos quote, preserve_scanOf, scanned_behind, bind_eq_bind,
      bind_map]
    exact congrArg _ (funext fun stored => ih stored)
  case case4 goesOn noQuote escape ih =>
    rw [splitToken, scanOf_bInString, if_neg goesOn, if_neg noQuote, if_pos escape, preserve_scanOf, scanned_behind,
      appendAll_append, bind_eq_bind, bind_map, bind_assoc]
    refine congrArg _ (funext fun stored => ?_)
    rw [comp_apply, copy_scanOf, appendAll_singleton, bind_map]
    exact congrArg _ (funext fun copied => ih copied)
  case case5 goesOn noQuote noEscape strips ih =>
    rw [splitToken, scanOf_bInString, if_neg goesOn, if_neg noQuote, if_neg noEscape, if_pos strips, ih]
  case case6 goesOn noQuote noEscape keeps ih =>
    rw [splitToken, scanOf_bInString, if_neg goesOn, if_neg noQuote, if_neg noEscape, if_neg keeps, copy_scanOf,
      scanned_behind, appendAll_singleton, bind_eq_bind, bind_map]
    exact congrArg _ (funext fun copied => ih copied)

theorem strip_scanOf (token : CopiedToken) (level : Nat) :
    (scanOf token.bInString ⟨token.bytes.map Item.value, level⟩).strip nFlags =
      ⟨token.text nFlags, tokenRoom level, token.bInString⟩ := by
  rw [TokenScan.strip, CopiedToken.text, scanOf_bInString]
  split <;> rfl

theorem splitTokens_turn (nTokenMax : Nat) {pszString : CString} (some_ : pszString ≠ []) :
    (splitTokens pszDelimiters nFlags nTokenMax pszString).isSome ↔
      ∃ read, splitToken pszDelimiters nFlags ⟨[], nTokenMax, false⟩ true pszString = some read ∧
        (read.1.strip nFlags).pszToken.length < (read.1.strip nFlags).nTokenMax ∧
        (splitTokens pszDelimiters nFlags (read.1.strip nFlags).nTokenMax read.2).isSome := by
  rw [splitTokens, if_neg some_]
  cases read : splitToken pszDelimiters nFlags ⟨[], nTokenMax, false⟩ true pszString with
  | none => simp
  | some result =>
    obtain ⟨scan, after⟩ := result
    by_cases inside : (scan.strip nFlags).pszToken.length < (scan.strip nFlags).nTokenMax
    · simp only [TokenScan.store, Option.some.injEq, exists_eq_left', inside, true_and]
      cases splitTokens pszDelimiters nFlags (scan.strip nFlags).nTokenMax after <;> simp
    · simp [TokenScan.store, inside]

theorem splitTokens_isSome_iff {need : Nat} (atLeast : 3 ≤ need) (pszString : CString) :
    (splitTokens pszDelimiters nFlags (roomFor tokenRoom_grows need) pszString).isSome ↔
      TokensFit nFlags need (copiedTokens pszDelimiters nFlags pszString) := by
  fun_induction copiedTokens pszDelimiters nFlags pszString generalizing need
  case case1 =>
    rw [splitTokens, if_pos rfl]
    exact ⟨fun _ => trivial, fun _ => rfl⟩
  case case2 pszString some_ copied ih =>
    have read : splitToken pszDelimiters nFlags ⟨[], roomFor tokenRoom_grows need, false⟩ true pszString =
        scanned ⟨[], levelFor tokenRoom_grows need⟩ copied :=
      splitToken_eq pszDelimiters nFlags ⟨[], levelFor tokenRoom_grows need⟩ false true pszString
    have appended := appendAll_eq_some_iff tokenRoom_grows 3 tokenRoom_jumps atLeast copied.1.bytes
    rw [splitTokens_turn pszDelimiters nFlags _ some_, read, TokensFit]
    constructor
    · rintro ⟨result, copies, zero, others⟩
      obtain ⟨last, appends, rfl⟩ := map_eq_some_iff.mp copies
      obtain ⟨room, rfl⟩ := (appended last).mp appends
      rw [strip_scanOf] at zero others
      exact ⟨room, zero, (ih (atLeast.trans (Nat.le_max_left _ _))).mp others⟩
    · rintro ⟨room, zero, others⟩
      refine ⟨_, map_eq_some_iff.mpr ⟨_, (appended _).mpr ⟨room, rfl⟩, rfl⟩, ?_⟩
      rw [strip_scanOf]
      exact ⟨zero, (ih (atLeast.trans (Nat.le_max_left _ _))).mpr others⟩

end Copied

/-- Every store to the token buffer, also that of a zero behind a token, is inside of it exactly when the tokens fit. -/
theorem msStringSplitComplex_isSome_iff (pszString pszDelimiters : CString) (nFlags : UInt32) :
    (msStringSplitComplex (some pszString) pszDelimiters nFlags).isSome ↔
      TokensFit nFlags 3 (copiedTokens pszDelimiters nFlags pszString) := by
  have start : roomFor tokenRoom_grows 3 = 10 := by
    rw [roomFor, Nat.le_zero.mp (@levelFor_le _ tokenRoom_grows 3 0 (by decide))]
    rfl
  rw [← splitTokens_isSome_iff pszDelimiters nFlags (Nat.le_refl 3), start, msStringSplitComplex]
  cases splitTokens pszDelimiters nFlags 10 pszString with
  | none => simp
  | some tokens => simp [apply_ite Option.isSome]

theorem splitToken_quotes (bInString bStartString : Bool) (nTokenMax quotes : Nat) (pszToken : CString)
    (inside : pszToken.length ≤ nTokenMax) (many : nTokenMax < pszToken.length + quotes) :
    splitToken [44] (MS_HONOURSTRINGS ||| MS_PRESERVEQUOTES) ⟨pszToken, nTokenMax, bInString⟩ bStartString
      (replicate quotes 34) = none := by
  induction quotes generalizing bInString pszToken with
  | zero => exact absurd inside (Nat.not_le.mpr many)
  | succ quotes ih =>
    rw [replicate_succ, splitToken, if_neg (by simp), if_pos (by decide), TokenScan.preserve, if_pos (by decide),
      TokenScan.store]
    by_cases room : pszToken.length < nTokenMax
    · rw [if_pos room]
      exact ih (!bInString) (pszToken ++ [34]) (by rwa [length_append]) (by rw [length_append, length_singleton]; omega)
    · rw [if_neg room]
      rfl

theorem msStringSplitComplex_elevenQuotes :
    ¬(msStringSplitComplex (some (List.replicate 11 34)) [44] (MS_HONOURSTRINGS ||| MS_PRESERVEQUOTES)).isSome := by
  have outside := splitToken_quotes false true 10 11 [] (by decide) (by decide)
  have noTokens : ¬(splitTokens [44] (MS_HONOURSTRINGS ||| MS_PRESERVEQUOTES) 10 (List.replicate 11 34)).isSome := by
    rw [splitTokens_turn _ _ _ (by decide), outside]
    simp
  intro splits
  rw [msStringSplitComplex] at splits
  obtain ⟨result, isResult⟩ := Option.isSome_iff_exists.mp splits
  obtain ⟨tokens, isTokens, -⟩ := Option.bind_eq_some_iff.mp isResult
  exact noTokens (Option.isSome_iff_exists.mpr ⟨tokens, isTokens⟩)

end MapServer
