import MapServer.Mapfile.StringRules

namespace MapServer
open Lib.ByteFile Lib.Scanner List Option

def msReplaceSubstring (old newstr : CString) (str : CString) : CString :=
  match str with
  | [] => []
  | c :: rest =>
    if old.isPrefixOf (c :: rest) then newstr ++ msReplaceSubstring old newstr (rest.drop (old.length - 1))
    else c :: msReplaceSubstring old newstr rest
termination_by str.length
decreasing_by
  all_goals simp only [List.length_cons, List.length_drop]
  all_goals omega

def msStringEscape (pszString : CString) : CString :=
  pszString.flatMap fun c => if c = 34 ∨ c = 39 then [92, c] else [c]

def writeStringElement (string : CString) : CString :=
  let string_escaped := if 92 ∈ string then msReplaceSubstring [92] [92, 92] string else string
  if 39 ∉ string_escaped ∧ 34 ∉ string_escaped then [34] ++ string_escaped ++ [34]
  else if 34 ∈ string_escaped ∧ 39 ∉ string_escaped then [39] ++ string_escaped ++ [39]
  else if 39 ∈ string_escaped ∧ 34 ∉ string_escaped then [34] ++ string_escaped ++ [34]
  else [34] ++ msStringEscape string_escaped ++ [34]

section Initial
variable {α : Type} (atof : CString → α)

theorem mapKeywords_letters : (mapKeywords.all fun word => (ascii word).head?.any fun c => 97 ≤ c && c ≤ 122) = true := by
  decide +kernel

theorem stringQuote_cases {c : UInt8} (isQuote : stringQuote c = true) : c = 34 ∨ c = 39 := by
  simpa [stringQuote] using isQuote

theorem longestWord_none {c d : UInt8} {word : CString} (differ : tolower c ≠ tolower d) (rest : CString) :
    longestWord (d :: word) (c :: rest) = none := by
  simp [longestWord, sameIgnoringCase, differ]

theorem keyword_none {c : UInt8} (notLetter : ¬ (97 ≤ tolower c ∧ tolower c ≤ 122)) (rest : CString) :
    ∀ rule ∈ mapKeywords.map (keywordRule (α := α)), rule.longest (c :: rest) = none := by
  intro rule member
  obtain ⟨word, isWord, rfl⟩ := List.mem_map.mp member
  have letter := List.all_eq_true.mp mapKeywords_letters word isWord
  show longestWord (ascii word) (c :: rest) = none
  cases letters : ascii word with
  | nil =>
    rw [letters] at letter
    cases letter
  | cons d word =>
    rw [letters, head?_cons, any_some, Bool.and_eq_true, decide_eq_true_eq, decide_eq_true_eq] at letter
    apply longestWord_none
    have low := UInt8.le_iff_toNat_le.mp letter.1
    have lower : tolower d = d := if_neg fun capital => by
      have high := UInt8.le_iff_toNat_le.mp capital.2
      simp only [UInt8.toNat_ofNat] at low high
      omega
    rw [lower]
    intro same
    exact notLetter (same ▸ letter)

theorem keywords_quote {quote : UInt8} (isQuote : stringQuote quote = true) (rest : CString) :
    chosen (mapKeywords.map (keywordRule (α := α))) (quote :: rest) = none := by
  apply chosen_eq_none
  apply keyword_none
  rcases stringQuote_cases isQuote with rfl | rfl <;> decide

theorem initialRules_quote {quote : UInt8} (isQuote : stringQuote quote = true) (rest : CString) :
    chosen (initialRules atof) (quote :: rest) = some (1, .beginString quote) := by
  have isOne := stringQuote_cases isQuote
  have opening : chosen (openingRules (α := α)) (quote :: rest) = none := by
    rcases isOne with rfl | rfl <;> rfl
  have patterns : chosen (mapPatternRules atof) (quote :: rest) = some (1, .beginString quote) := by
    rcases isOne with rfl | rfl <;> rfl
  rw [initialRules, chosen_append, opening, none_better, chosen_append, keywords_quote isQuote, none_better, patterns]

end Initial

def quotedBody (escapes : UInt8 → Bool) (string : CString) : CString :=
  string.flatMap fun c => if c = 92 then [92, 92] else if escapes c then [92, c] else [c]

section Written
variable {escapes : UInt8 → Bool}

theorem quotedBody_cons (c : UInt8) (string : CString) : quotedBody escapes (c :: string) =
    (if c = 92 then [92, 92] else if escapes c then [92, c] else [c]) ++ quotedBody escapes string := rfl

theorem readString_quotedBody {quote : UInt8} (isQuote : stringQuote quote = true)
    (onlyQuotes : ∀ c, escapes c = true → stringQuote c = true) {string : CString}
    (stays : quote ∈ string → escapes quote = true) (tail : CString) :
    readString quote (quotedBody escapes string ++ quote :: tail) = some (string, skipI tail) := by
  induction string with
  | nil => exact readString_quote isQuote tail
  | cons c string ih =>
    have others := ih fun member => stays (mem_cons_of_mem _ member)
    rw [quotedBody_cons, append_assoc]
    by_cases backslash : c = 92
    · subst c
      rw [if_pos rfl]
      show readString quote (92 :: 92 :: (quotedBody escapes string ++ quote :: tail)) = _
      rw [readString_pair rfl, others]
      rfl
    · rw [if_neg backslash]
      by_cases isEscaped : escapes c = true
      · rw [if_pos isEscaped]
        show readString quote (92 :: c :: (quotedBody escapes string ++ quote :: tail)) = _
        rw [readString_pair (by rw [onlyQuotes c isEscaped]; rfl), others]
        rfl
      · have notQuote : c ≠ quote := by
          intro same
          subst same
          exact isEscaped (stays mem_cons_self)
        rw [if_neg isEscaped]
        show readString quote (c :: (quotedBody escapes string ++ quote :: tail)) = _
        rw [readString_plain backslash notQuote, others]
        rfl

theorem mem_quotedBody {c : UInt8} (notBackslash : c ≠ 92) (string : CString) :
    c ∈ quotedBody (fun _ => false) string ↔ c ∈ string := by
  induction string with
  | nil => exact Iff.rfl
  | cons d string ih =>
    rw [quotedBody_cons, mem_append, ih, mem_cons]
    by_cases backslash : d = 92
    · rw [if_pos backslash, backslash]
      simp [notBackslash]
    · rw [if_neg backslash, if_neg Bool.false_ne_true, mem_singleton]

theorem msReplaceSubstring_backslash (string : CString) : msReplaceSubstring [92] [92, 92] string = quotedBody (fun _ => false) string := by
  induction string with
  | nil => rw [msReplaceSubstring]; rfl
  | cons c string ih =>
    rw [msReplaceSubstring, quotedBody_cons]
    by_cases backslash : c = 92
    · rw [if_pos (by simp [backslash]), if_pos backslash, length_singleton, Nat.sub_self, drop_zero, ih]
    · rw [if_neg (by simpa using Ne.symm backslash), if_neg backslash, if_neg Bool.false_ne_true, ih, singleton_append]

theorem escapedBackslashes (string : CString) :
    (if 92 ∈ string then msReplaceSubstring [92] [92, 92] string else string) = quotedBody (fun _ => false) string := by
  by_cases backslash : 92 ∈ string
  · rw [if_pos backslash, msReplaceSubstring_backslash]
  · rw [if_neg backslash]
    induction string with
    | nil => rfl
    | cons c string ih =>
      rw [mem_cons, not_or] at backslash
      rw [quotedBody_cons, if_neg (Ne.symm backslash.1), if_neg Bool.false_ne_true, ← ih backslash.2, singleton_append]

theorem msStringEscape_quotedBody (string : CString) : msStringEscape (quotedBody (fun _ => false) string) = quotedBody stringQuote string := by
  rw [msStringEscape, quotedBody, flatMap_assoc, quotedBody]
  apply flatMap_congr
  intro c _
  by_cases backslash : c = 92
  · rw [if_pos backslash, if_pos backslash]
    rfl
  · rw [if_neg backslash, if_neg backslash, if_neg Bool.false_ne_true, flatMap_singleton]
    simp [stringQuote]

theorem writeStringElement_quoted (string : CString) :
    ∃ quote escapes, stringQuote quote = true ∧ (∀ c, escapes c = true → stringQuote c = true) ∧
      (quote ∈ string → escapes quote = true) ∧ writeStringElement string = quote :: (quotedBody escapes string ++ [quote]) := by
  have none_ : ∀ c : UInt8, (fun _ => false) c = true → stringQuote c = true := fun _ impossible => by cases impossible
  rw [writeStringElement, escapedBackslashes]
  simp only [mem_quotedBody (by decide : (39 : UInt8) ≠ 92), mem_quotedBody (by decide : (34 : UInt8) ≠ 92)]
  by_cases single : 39 ∈ string
  · by_cases double : 34 ∈ string
    · refine ⟨34, stringQuote, rfl, fun _ quoted => quoted, fun _ => rfl, ?_⟩
      rw [msStringEscape_quotedBody]
      simp [single, double]
    · exact ⟨34, fun _ => false, rfl, none_, fun member => absurd member double, by simp [single, double]⟩
  · by_cases double : 34 ∈ string
    · exact ⟨39, fun _ => false, rfl, none_, fun member => absurd member single, by simp [single, double]⟩
    · exact ⟨34, fun _ => false, rfl, none_, fun member => absurd member double, by simp [single, double]⟩

end Written

section ReadBack
variable {α : Type} (atof : CString → α) (malloc : Nat → UInt8)

theorem lexInitial_string {fuel : Nat} {state : LexerState} (fits : state.buffer.Fits) (empty : state.buffer.Text [])
    {quote c : UInt8} (isQuote : stringQuote quote = true) (notLetter : isLetterI c = false) {body string tail : CString}
    (reads : readString quote (body ++ quote :: c :: tail) = some (string, skipI (c :: tail))) :
    ∃ after, lexInitial atof malloc (fuel + 1) state (quote :: (body ++ quote :: c :: tail)) =
      some (.MS_STRING, after, c :: tail) ∧ after.buffer.Text string ∧ after.buffer.Fits := by
  obtain ⟨rest, data⟩ := empty
  obtain ⟨started, isStarted, startedFits, more, startedData⟩ :=
    @store_fits state.buffer fits [] (0 :: rest) [0] data (by simp)
  obtain ⟨outcome, next, after, run, nextFits, read⟩ := @readMsString_reads malloc quote isQuote _
    (body ++ quote :: c :: tail) (Nat.lt_succ_self _) started startedFits [] ⟨more, startedData⟩
  have skipped : skipI (c :: tail) = c :: tail := if_neg (mt (isLetterI_iff c).mpr (by rw [notLetter]; exact Bool.false_ne_true))
  rcases read with ⟨isNone, _⟩ | ⟨value, others, isSome, holds, isSuffix, rfl, rfl⟩
  · rw [reads] at isNone
    cases isNone
  · rw [reads, Option.some.injEq, Prod.mk.injEq, skipped] at isSome
    obtain ⟨rfl, isRest⟩ := isSome
    have single : others.head?.any isLetterI = false := by
      cases letter : others.head?.any isLetterI with
      | false => rfl
      | true =>
        -- The letter would be in the place of the quote.
        obtain ⟨i, behind, rfl⟩ := head_of_any letter
        have behindQuote : i :: behind = quote :: c :: tail := by
          rw [skipI, if_pos ((isLetterI_iff i).mp letter)] at isRest
          have sameLength : (i :: behind).length = (quote :: c :: tail).length := by
            rw [length_cons, ← isRest, length_cons (a := quote)]
          exact (suffix_of_suffix_length_le isSuffix (suffix_append _ _) (Nat.le_of_eq sameLength)).eq_of_length sameLength
        have isI := isRun_letter letter
        rw [head_eq_of_cons_eq behindQuote, isRun, isQuote] at isI
        simp at isI
    refine ⟨{ state with buffer := next }, ?_, by rwa [nil_append] at holds, nextFits⟩
    rw [lexInitial, initialRules_quote atof isQuote]
    simp only [length_nil] at isStarted
    simp only [isStarted, bind_eq_bind, bind_some, drop_succ_cons, drop_zero, length_nil] at run ⊢
    rw [run, single, ← isRest]
    simp

theorem writeStringElement_readBack {state : LexerState} (sound : state.buffer.Sound) (string : CString) {c : UInt8}
    (ends : isBlank c = true ∨ c = 10) (tail : CString) :
    ∃ after, msyylexInitial atof malloc state (writeStringElement string ++ c :: tail) = some (.MS_STRING, after, c :: tail) ∧
      after.buffer.Text string ∧ after.buffer.Sound := by
  obtain ⟨quote, escapes, isQuote, onlyQuotes, stays, isText⟩ := writeStringElement_quoted string
  have notLetter : isLetterI c = false := by
    rcases ends with blank | rfl
    · simp only [isBlank, Bool.or_eq_true, beq_iff_eq] at blank
      rcases blank with (rfl | rfl) | rfl <;> rfl
    · rfl
  obtain ⟨buffer, begun, fits, empty⟩ := beginToken_text malloc sound
  have reads := readString_quotedBody isQuote onlyQuotes stays (c :: tail)
  obtain ⟨after, run, holds, afterFits⟩ := @lexInitial_string _ atof malloc
    (writeStringElement string ++ c :: tail).length { state with buffer } fits empty _ _ isQuote notLetter _ _ _ reads
  refine ⟨after, ?_, holds, Or.inr afterFits⟩
  rw [msyylexInitial, begun, bind_eq_bind, bind_some]
  rw [isText] at run ⊢
  simpa using run

/-- A text with every kind of quote and a backslash at the end, read with the buffer not allocated yet. -/
theorem writeStringElement_readBack_mixed : ∃ after, msyylexInitial (fun _ => 0) (fun _ => 0) ⟨⟨[], 0⟩, false, false⟩
      (writeStringElement (ascii "it's \"i\\") ++ 10 :: ascii "END") = some (.MS_STRING, after, 10 :: ascii "END") ∧
    after.buffer.Text (ascii "it's \"i\\") ∧ after.buffer.Sound :=
  @writeStringElement_readBack Nat (fun _ => 0) (fun _ => 0) ⟨⟨[], 0⟩, false, false⟩ (Or.inl rfl) (ascii "it's \"i\\") 10
    (Or.inr rfl) (ascii "END")

end ReadBack

end MapServer
