import MapServer.Mapfile.WriteExpression

namespace MapServer
open Lib.ByteFile Lib.Scanner List Option

section Ends
variable (malloc : Nat → UInt8)

/-- One round of the string rules ends the string, or stores a text with the last character of what it has matched. -/
theorem readMsString_round (msyystring_begin : UInt8) (fuel : Nat) (buffer : TokenBuffer) (size : Nat) (text : CString) :
    (text = [] ∧ readMsString malloc msyystring_begin (fuel + 1) buffer size text = some (none, buffer, [])) ∨
    (∃ rest, text = msyystring_begin :: rest ∧ readMsString malloc msyystring_begin (fuel + 1) buffer size text =
      some (some (if rest.head?.any isLetterI then 2 else 1), buffer, skipI rest)) ∨
    ∃ consumed chunk rest, text = consumed ++ rest ∧ chunk ≠ [] ∧ chunk.getLast? = consumed.getLast? ∧ chunk ⊆ consumed ∧
      readMsString malloc msyystring_begin (fuel + 1) buffer size text =
        (appendToken malloc size chunk buffer).bind fun buffer => readMsString malloc msyystring_begin fuel buffer (size + chunk.length) rest := by
  cases text with
  | nil => exact Or.inl ⟨rfl, rfl⟩
  | cons c rest =>
    by_cases quoted : stringQuote c = true
    · rw [readMsString, stringRules_quote quoted]
      by_cases same : msyystring_begin = c
      · subst c
        refine Or.inr (Or.inl ⟨rest, rfl, ?_⟩)
        rw [← drop_quote msyystring_begin rest]
        cases letter : rest.head?.any isLetterI with
        | true =>
          obtain ⟨i, others, rfl⟩ := head_of_any letter
          simp
        | false => simp
      · refine Or.inr (Or.inr ?_)
        by_cases letter : rest.head?.any isLetterI = true
        · obtain ⟨i, others, rfl⟩ := head_of_any letter
          rw [if_pos letter]
          exact ⟨[c, i], [c, i], others, rfl, by simp, rfl, List.Subset.refl _, by simp [same]⟩
        · rw [if_neg letter]
          exact ⟨[c], [c], rest, rfl, by simp, rfl, List.Subset.refl _, by simp [same]⟩
    · refine Or.inr (Or.inr ?_)
      by_cases backslash : c = 92
      · subst c
        rw [readMsString, stringRules_escape]
        cases pair : rest.head?.any (fun c => stringQuote c || c == 92) with
        | true =>
          obtain ⟨d, others, rfl⟩ := head_of_any pair
          exact ⟨[92, d], [d], others, rfl, by simp, rfl, by simp, rfl⟩
        | false => exact ⟨[92], [92], rest, rfl, by simp, rfl, List.Subset.refl _, rfl⟩
      · have run : isRun c = true := by simp [isRun, quoted, backslash]
        rw [readMsString, stringRules_run run]
        have front := prefix_iff_eq_take.mp (List.takeWhile_prefix isRun (l := c :: rest))
        have parts := take_append_drop ((c :: rest).takeWhile isRun).length (c :: rest)
        rw [← front] at parts
        exact ⟨_, _, _, parts.symm, by simp [run], rfl, List.Subset.refl _, rfl⟩

/-- The end of a string is a quote of its own kind. Of a string without an end the last character is stored as well. -/
theorem readMsString_ends {msyystring_begin : UInt8} {fuel : Nat} {text after : CString}
    {buffer next : TokenBuffer} (fits : buffer.Fits) {before : CString} (holds : buffer.Text before) {outcome : Option Nat}
    (run : readMsString malloc msyystring_begin fuel buffer before.length text = some (outcome, next, after)) :
    (outcome = none ∧ ∃ stored, next.Text stored ∧ stored ⊆ before ++ text ∧ stored.getLast? = (before ++ text).getLast?) ∨
      ∃ front tail, text = front ++ msyystring_begin :: tail ∧ after = skipI tail ∧
        outcome = some (if tail.head?.any isLetterI then 2 else 1) := by
  induction fuel generalizing text buffer before with
  | zero => cases run
  | succ fuel ih =>
    rcases readMsString_round malloc msyystring_begin fuel buffer before.length text with
      ⟨rfl, ended⟩ | ⟨rest, rfl, ended⟩ | ⟨consumed, chunk, rest, rfl, stored_, same, part, goesOn⟩
    · rw [ended] at run
      cases run
      rw [append_nil]
      exact Or.inl ⟨rfl, before, holds, List.Subset.refl _, rfl⟩
    · rw [ended] at run
      cases run
      exact Or.inr ⟨[], rest, rfl, rfl, rfl⟩
    · rw [goesOn] at run
      obtain ⟨appended, isStored, storedFits, storedText⟩ := appendToken_text malloc fits holds chunk
      rw [isStored, bind_some, ← length_append] at run
      rcases ih storedFits storedText run with ⟨isNone, stored, storedEnd, among, last⟩ | ⟨front, tail, rfl, isAfter, ended⟩
      · refine Or.inl ⟨isNone, stored, storedEnd, fun c member => ?_, last.trans ?_⟩
        · have inParts := among member
          simp only [mem_append] at inParts ⊢
          exact inParts.elim (Or.imp_right fun inChunk => Or.inl (part inChunk)) fun inRest => Or.inr (Or.inr inRest)
        · simp [getLast?_append, same]
      · exact Or.inr ⟨consumed ++ front, tail, by rw [append_assoc], isAfter, ended⟩

end Ends

def PlainBackslashes : CString → Prop
  | [] => True
  | [c] => c ≠ 92
  | c :: d :: rest => (c = 92 → (stringQuote d || d == 92) = false) ∧ PlainBackslashes (d :: rest)

instance decidablePlainBackslashes : ∀ string, Decidable (PlainBackslashes string)
  | [] => .isTrue trivial
  | [c] => inferInstanceAs (Decidable (c ≠ 92))
  | c :: d :: rest =>
    have := decidablePlainBackslashes (d :: rest)
    inferInstanceAs (Decidable ((c = 92 → (stringQuote d || d == 92) = false) ∧ PlainBackslashes (d :: rest)))

def PrintsPlain (string : CString) : Prop := 34 ∉ string ∧ PlainBackslashes string

theorem plainBackslashes_cons {c : UInt8} {rest : CString} (plain : PlainBackslashes rest)
    (next : c = 92 → rest.head?.any (fun d => stringQuote d || d == 92) = false ∧ rest ≠ []) : PlainBackslashes (c :: rest) := by
  cases rest with
  | nil => exact fun backslash => (next backslash).2 rfl
  | cons d rest => exact ⟨fun backslash => (next backslash).1, plain⟩

section Plain
variable {quote : UInt8} (isQuote : stringQuote quote = true)
include isQuote

theorem readString_bound {text value rest : CString} (reads : readString quote text = some (value, rest)) :
    ∃ tail, rest = skipI tail ∧ (quote :: tail) <:+ text ∧ (value.length + 1 + tail.length < text.length ∨
      text = value ++ quote :: tail ∧ quote ∉ value ∧ PlainBackslashes value) := by
  induction text using readString.induct quote generalizing value rest with
  | case1 => cases reads
  | case2 c text pair ih =>
    rw [readString, if_pos pair] at reads
    obtain ⟨⟨inner, after⟩, isInner, same⟩ := map_eq_some_iff.mp reads
    cases same
    obtain ⟨tail, isTail, ends, shorter | ⟨isText, -, -⟩⟩ := ih isInner
    · exact ⟨tail, isTail, ends.trans ((suffix_cons _ _).trans (suffix_cons _ _)),
        Or.inl (by simp only [length_cons]; omega)⟩
    · exact ⟨tail, isTail, ends.trans ((suffix_cons _ _).trans (suffix_cons _ _)),
        Or.inl (by rw [isText]; simp only [length_cons, length_append]; omega)⟩
  | case3 c text single ih =>
    rw [readString, if_neg single] at reads
    obtain ⟨⟨inner, after⟩, isInner, same⟩ := map_eq_some_iff.mp reads
    cases same
    obtain ⟨tail, isTail, ends, shorter | ⟨isText, noQuote, plain⟩⟩ := ih isInner
    · exact ⟨tail, isTail, ends.trans (suffix_cons _ _), Or.inl (by simp only [length_cons] at shorter ⊢; omega)⟩
    · refine ⟨tail, isTail, ends.trans (suffix_cons _ _),
        Or.inr ⟨by rw [isText]; rfl, ?_, plainBackslashes_cons plain fun _ => ?_⟩⟩
      · rw [mem_cons, not_or]
        exact ⟨(backslash_not_quote isQuote), noQuote⟩
      · cases inner with
        | nil =>
          have isC : c = quote := head_eq_of_cons_eq isText
          rw [isC, isQuote] at single
          exact absurd rfl single
        | cons d inner =>
          have isC : c = d := head_eq_of_cons_eq isText
          subst isC
          exact ⟨by simpa using single, cons_ne_nil _ _⟩
  | case4 text noEscape =>
    rw [readString, if_pos rfl] at reads
    · cases reads
      exact ⟨text, rfl, suffix_refl _, Or.inr ⟨rfl, by simp, trivial⟩⟩
    · exact noEscape
  | case5 c text noEscape differs ih =>
    rw [readString, if_neg differs] at reads
    · obtain ⟨⟨inner, after⟩, isInner, same⟩ := map_eq_some_iff.mp reads
      cases same
      obtain ⟨tail, isTail, ends, shorter | ⟨isText, noQuote, plain⟩⟩ := ih isInner
      · exact ⟨tail, isTail, ends.trans (suffix_cons _ _), Or.inl (by simp only [length_cons]; omega)⟩
      · refine ⟨tail, isTail, ends.trans (suffix_cons _ _),
          Or.inr ⟨by rw [isText]; rfl, ?_, plainBackslashes_cons plain fun backslash => ?_⟩⟩
        · rw [mem_cons, not_or]
          exact ⟨Ne.symm differs, noQuote⟩
        · cases text with
          | nil => cases isInner
          | cons d text => exact absurd rfl (noEscape d text backslash)
    · exact noEscape

theorem readString_plainText {value : CString} (noQuote : quote ∉ value) (plain : PlainBackslashes value) (tail : CString) :
    readString quote (value ++ quote :: tail) = some (value, skipI tail) := by
  induction value with
  | nil => exact readString_quote isQuote tail
  | cons c value ih =>
    rw [mem_cons, not_or] at noQuote
    have rest : PlainBackslashes value := by
      cases value with
      | nil => trivial
      | cons d value => exact plain.2
    rw [cons_append]
    by_cases backslash : c = 92
    · subst c
      cases value with
      | nil => exact absurd rfl plain
      | cons d value =>
        rw [cons_append, readString_backslash (plain.1 rfl), ← cons_append, ih noQuote.2 rest]
        rfl
    · rw [readString_plain backslash (Ne.symm noQuote.1), ih noQuote.2 rest]
      rfl

end Plain

theorem skipI_unique {quote : UInt8} (isQuote : stringQuote quote = true) {front other tail second text : CString}
    (first : text = front ++ quote :: tail) (also : text = other ++ quote :: second) (same : skipI tail = skipI second) :
    tail = second := by
  have noLetter : ¬ tolower quote = 105 := by
    rcases stringQuote_cases isQuote with rfl | rfl <;> decide
  have parts : (quote :: tail) <:+ text ∧ (quote :: second) <:+ text :=
    ⟨⟨front, first.symm⟩, ⟨other, also.symm⟩⟩
  have byLength (sameLength : tail.length = second.length) : tail = second :=
    (List.cons.inj ((suffix_of_suffix_length_le parts.1 parts.2 (by simp [sameLength])).eq_of_length (by simp [sameLength]))).2
  -- A letter that one of them skips would be in the place of the quote of the other.
  have noSkip {i : UInt8} {rest : CString} (letter : tolower i = 105) (longer : (quote :: i :: rest) <:+ text)
      (shorter : (quote :: rest) <:+ text) : False := by
    have inner : (i :: rest) <:+ text := (suffix_cons quote _).trans longer
    have both := (suffix_of_suffix_length_le inner shorter (by simp)).eq_of_length (by simp)
    exact noLetter ((head_eq_of_cons_eq both) ▸ letter)
  cases tail with
  | nil =>
    cases second with
    | nil => rfl
    | cons i rest =>
      rw [skipI, skipI] at same
      split at same
      · rename_i letter
        subst same
        exact (noSkip letter parts.2 parts.1).elim
      · cases same
  | cons i rest =>
    by_cases letter : tolower i = 105
    · rw [skipI, if_pos letter] at same
      cases second with
      | nil =>
        subst same
        exact (noSkip letter parts.1 parts.2).elim
      | cons j others =>
        by_cases otherLetter : tolower j = 105
        · rw [skipI, if_pos otherLetter] at same
          exact byLength (by rw [same]; rfl)
        · rw [skipI, if_neg otherLetter] at same
          exact (noSkip letter parts.1 (same ▸ parts.2)).elim
    · rw [skipI, if_neg letter] at same
      cases second with
      | nil => cases same
      | cons j others =>
        by_cases otherLetter : tolower j = 105
        · rw [skipI, if_pos otherLetter] at same
          exact (noSkip otherLetter parts.2 (same ▸ parts.1)).elim
        · rw [skipI, if_neg otherLetter] at same
          exact same

section Tokens
variable {α : Type} (atof : CString → α) (malloc : Nat → UInt8)

theorem lexInitial_quoted {fuel : Nat} {state : LexerState} (fits : state.buffer.Fits) (empty : state.buffer.Text []) {quote : UInt8}
    (isQuote : stringQuote quote = true) (text : CString) :
    (readString quote text = none ∧ ∃ after stored, lexInitial atof malloc (fuel + 1) state (quote :: text) = some (.EOF, after, []) ∧
      after.buffer.Text stored ∧ stored ⊆ text ∧ stored.getLast? = text.getLast?) ∨
    ∃ value front tail after, readString quote text = some (value, skipI tail) ∧ text = front ++ quote :: tail ∧
      lexInitial atof malloc (fuel + 1) state (quote :: text) =
        some (if state.msyystring_icase && tail.head?.any isLetterI then .MS_ISTRING else .MS_STRING, after, skipI tail) ∧
      after.buffer.Text value ∧ after.buffer.Fits := by
  obtain ⟨rest, data⟩ := empty
  obtain ⟨started, isStarted, startedFits, more, startedData⟩ := @store_fits state.buffer fits [] (0 :: rest) [0] data (by simp)
  obtain ⟨outcome, next, after, run, nextFits, read⟩ := @readMsString_reads malloc quote isQuote _
    text (Nat.lt_succ_self _) started startedFits [] ⟨more, startedData⟩
  have ends := @readMsString_ends malloc quote _ text after started next startedFits [] ⟨more, startedData⟩ outcome run
  rw [lexInitial, initialRules_quote atof isQuote]
  simp only [length_nil, drop_succ_cons, drop_zero, bind_eq_bind] at isStarted run ⊢
  rw [isStarted, bind_some, run, bind_some]
  rcases read with ⟨isNone, rfl⟩ | ⟨value, others, isSome, holds, -, isAfter, isOutcome⟩
  · rcases ends with ⟨-, stored, isStored, among, last⟩ | ⟨front, tail, -, -, impossible⟩
    · exact Or.inl ⟨isNone, _, stored, rfl, isStored, among, last⟩
    · cases impossible
  · rcases ends with ⟨isNone, -⟩ | ⟨front, tail, isText, isTail, ended⟩
    · rw [isOutcome] at isNone
      cases isNone
    · rw [isAfter] at isTail
      refine Or.inr ⟨value, front, tail, if state.msyystring_icase && tail.head?.any isLetterI then
          { state with buffer := next, msyystring_icase := false } else { state with buffer := next }, ?_, isText, ?_, ?_, ?_⟩
      · rw [isSome, isTail]
      · rw [ended, isAfter, isTail]
        cases tail.head?.any isLetterI <;> cases state.msyystring_icase <;> rfl
      · split <;> exact holds
      · split <;> exact nextFits

def Lexes (token : MapToken α) (string text rest : CString) : Prop :=
  ∀ (fuel : Nat) (state : LexerState), text.length < fuel → state.buffer.Fits → state.buffer.Text [] → state.msyystring_icase = true →
    ∃ after, lexInitial atof malloc fuel state text = some (token, after, rest) ∧ after.buffer.Text string

theorem lexes_returns {token : MapToken α} {string text : CString} {count : Nat}
    (rule : chosen (initialRules atof) text = some (count, .returns token count string)) (short : string.length ≤ count)
    (noZero : 0 ∉ string) : Lexes atof malloc token string text (text.drop count) := by
  intro fuel state enough fits _ _
  obtain ⟨fuel, rfl⟩ := Nat.exists_eq_succ_of_ne_zero (Nat.ne_zero_of_lt enough)
  obtain ⟨after, run, holds, -⟩ := @lexInitial_returns _ atof malloc fuel state fits text string token count rule short noZero
  exact ⟨after, run, holds⟩

theorem Lexes.blank {token : MapToken α} {string text rest : CString} {c : UInt8} (notBlank : isBlank c = false)
    (lexes : Lexes atof malloc token string (c :: text) rest) : Lexes atof malloc token string (32 :: c :: text) rest := by
  intro fuel state enough fits empty icase
  obtain ⟨fuel, rfl⟩ := Nat.exists_eq_succ_of_ne_zero (Nat.ne_zero_of_lt enough)
  rw [lexInitial, initialRules_blank atof notBlank]
  exact lexes fuel state (by simp only [length_cons] at enough ⊢; omega) fits empty icase

theorem lexes_regex {string tail : CString} (regex : RegexText string) (noZero : 0 ∉ string) (ends : EndsLine tail) :
    Lexes atof malloc .MS_REGEX string (47 :: (string ++ 47 :: tail)) tail := by
  have lexes := lexes_returns atof malloc (initialRules_regex atof regex ends) (by omega) noZero
  rwa [show (47 :: (string ++ 47 :: tail)).drop (string.length + 2) = tail by simp [drop_append]] at lexes

theorem lexes_iregex {string tail : CString} (regex : RegexText string) (noZero : 0 ∉ string) (ends : EndsLine tail) :
    Lexes atof malloc .MS_IREGEX string (47 :: (string ++ 47 :: 105 :: tail)) tail := by
  have lexes := lexes_returns atof malloc (initialRules_iregex atof regex ends) (by omega) noZero
  rwa [show (47 :: (string ++ 47 :: 105 :: tail)).drop (string.length + 3) = tail by simp [drop_append]] at lexes

theorem lexes_bracketed {opening closing : UInt8} {token : MapToken α}
    (brackets : opening = 40 ∧ closing = 41 ∧ token = .MS_EXPRESSION ∨ opening = 123 ∧ closing = 125 ∧ token = .MS_LIST)
    {string tail : CString} (line : 10 ∉ string) (noZero : 0 ∉ string) (ends : EndsLine tail) :
    Lexes atof malloc token string (opening :: (string ++ closing :: tail)) tail := by
  have lexes := lexes_returns atof malloc (initialRules_bracketed atof brackets line ends) (by omega) noZero
  rwa [show (opening :: (string ++ closing :: tail)).drop (string.length + 2) = tail by simp [drop_append]] at lexes

theorem lexes_string {quote : UInt8} (isQuote : stringQuote quote = true) {string body tail : CString}
    (reads : readString quote (body ++ quote :: tail) = some (string, skipI tail)) :
    Lexes atof malloc (if tail.head?.any isLetterI then .MS_ISTRING else .MS_STRING) string (quote :: (body ++ quote :: tail))
      (skipI tail) := by
  intro fuel state enough fits empty icase
  obtain ⟨fuel, rfl⟩ := Nat.exists_eq_succ_of_ne_zero (Nat.ne_zero_of_lt enough)
  rcases @lexInitial_quoted _ atof malloc fuel state fits empty quote isQuote (body ++ quote :: tail) with
    ⟨isNone, -⟩ | ⟨value, front, second, after, isSome, parts, run, holds, -⟩
  · rw [reads] at isNone
    cases isNone
  · rw [reads, Option.some.injEq, Prod.mk.injEq] at isSome
    obtain ⟨rfl, sameRest⟩ := isSome
    obtain rfl := skipI_unique isQuote rfl parts sameRest
    rw [icase, Bool.true_and] at run
    exact ⟨after, run, holds⟩

theorem msyylexInitial_lexes {token : MapToken α} {string text rest : CString} (lexes : Lexes atof malloc token string text rest)
    (noZero : 0 ∉ string) {state : LexerState} (sound : state.buffer.Sound) (icase : state.msyystring_icase = true) :
    ∃ after, msyylexInitial atof malloc state text = some (token, after, rest) ∧ after.buffer.data.takeWhile (· ≠ 0) = string := by
  obtain ⟨buffer, begun, fits, empty⟩ := beginToken_text malloc sound
  obtain ⟨after, run, holds⟩ := lexes (text.length + 1) { state with buffer } (Nat.lt_succ_self _) fits empty icase
  refine ⟨after, by rw [msyylexInitial, begun]; exact run, ?_⟩
  rw [takeWhile_text holds, takeWhile_eq_self_iff]
  intro c member
  simpa using fun same : c = 0 => noZero (same ▸ member)

end Tokens

def tokenExpression (string : CString) : MapToken Unit → Option ExpressionValue
  | .MS_STRING => some ⟨.MS_STRING, string, false⟩
  | .MS_ISTRING => some ⟨.MS_STRING, string, true⟩
  | .MS_REGEX => some ⟨.MS_REGEX, string, false⟩
  | .MS_IREGEX => some ⟨.MS_REGEX, string, true⟩
  | .MS_EXPRESSION => some ⟨.MS_EXPRESSION, string, false⟩
  | .MS_LIST => some ⟨.MS_LIST, string, false⟩
  | _ => none

section Reads
variable {token : MapToken Unit} {string text rest : CString} {exp : ExpressionValue}

theorem loadExpression_lexes {malloc : Nat → UInt8} (lexes : Lexes (fun _ => ()) malloc token string text rest) (noZero : 0 ∉ string)
    (isExp : tokenExpression string token = some exp) {state : LexerState} (sound : state.buffer.Sound) :
    ∃ after, loadExpression malloc false state text = some (some exp, after, rest) := by
  obtain ⟨after, run, holds⟩ := @msyylexInitial_lexes _ _ _ _ _ _ _ lexes noZero { state with msyystring_icase := true } sound rfl
  refine ⟨after, ?_⟩
  simp only [loadExpression, run, holds, bind_eq_bind, bind_some]
  cases token
  all_goals first
    | (cases isExp; done)
    | (cases isExp; rfl)

theorem loadExpressionString_lexes (lexes : Lexes (fun _ => ()) (fun _ => 0) token string text rest) (noZero : 0 ∉ string)
    (isExp : tokenExpression string token = some exp) (quoted : token = .MS_STRING → text.length = string.length + 2) :
    loadExpressionString text = some exp := by
  obtain ⟨after, run, holds⟩ := @msyylexInitial_lexes _ _ _ _ _ _ _ lexes noZero ⟨⟨[], 0⟩, true, false⟩ (Or.inl rfl) rfl
  simp only [loadExpressionString, loadExpressionStringIn, firstToken, run, map_some, holds, bind_eq_bind, bind_some]
  cases token
  case MS_STRING =>
    cases isExp
    rw [if_pos (quoted rfl)]
  all_goals first
    | (cases isExp; done)
    | (cases isExp; rfl)

end Reads

def WritesBack (malloc : Nat → UInt8) (exp : ExpressionValue) : Prop :=
  ∀ indent name, (writeExpression indent name exp).stream = [] ∧
    ∃ text, (writeExpression indent name exp).channel = writeIndent (indent + 1) ++ name ++ text ∧
      ∀ state tail, state.buffer.Sound → ∃ after, loadExpression malloc false state (text ++ tail) = some (some exp, after, 10 :: tail)

def PrintsBack (exp : ExpressionValue) : Prop := loadExpressionString (msGetExpressionString exp) = some exp

theorem stringQuote_notBlank {quote : UInt8} (isQuote : stringQuote quote = true) : isBlank quote = false := by
  rcases stringQuote_cases isQuote with rfl | rfl <;> rfl

def insensitiveFlag (insensitive : Bool) : CString := if insensitive then [105] else []

@[simp] theorem insensitiveFlag_false : insensitiveFlag false = [] := rfl

@[simp] theorem insensitiveFlag_true : insensitiveFlag true = [105] := rfl

theorem msGetExpressionString_regex (string : CString) (insensitive : Bool) :
    msGetExpressionString ⟨.MS_REGEX, string, insensitive⟩ = 47 :: (string ++ 47 :: insensitiveFlag insensitive) := by
  show ascii "/" ++ string ++ ascii "/" ++ _ = _
  rw [show ascii "/" = [47] from rfl, append_assoc, append_assoc]
  rfl

theorem msGetExpressionString_string (string : CString) (insensitive : Bool) :
    msGetExpressionString ⟨.MS_STRING, string, insensitive⟩ = 34 :: (string ++ 34 :: insensitiveFlag insensitive) := by
  show ascii "\"" ++ string ++ ascii "\"" ++ _ = _
  rw [show ascii "\"" = [34] from rfl, append_assoc, append_assoc]
  rfl

section Written
variable (malloc : Nat → UInt8) {string : CString} (noZero : 0 ∉ string)
include noZero

theorem writesBack_expression (line : 10 ∉ string) : WritesBack malloc ⟨.MS_EXPRESSION, string, false⟩ := by
  refine fun indent name => ⟨rfl, 32 :: 40 :: (string ++ [41, 10]), ?_, fun state tail sound => ?_⟩
  · show _ ++ (name ++ [32, 40] ++ string ++ [41]) ++ [] ++ [10] = _
    simp
  · have lexes := @lexes_bracketed _ (fun _ => ()) malloc _ _ _ (Or.inl ⟨rfl, rfl, rfl⟩) string (10 :: tail) line noZero (Or.inr ⟨tail, rfl⟩)
    have read := loadExpression_lexes (lexes.blank _ _ rfl) noZero rfl sound
    simpa using read

theorem writesBack_regex (regex : RegexText string) (insensitive : Bool) : WritesBack malloc ⟨.MS_REGEX, string, insensitive⟩ := by
  refine fun indent name => ⟨rfl, 32 :: 47 :: (string ++ 47 :: (insensitiveFlag insensitive ++ [10])), ?_,
    fun state tail sound => ?_⟩
  · show _ ++ (name ++ [32, 47] ++ string ++ [47]) ++ _ ++ [10] = _
    have flag : (if insensitive then ascii "i" else []) = insensitiveFlag insensitive := rfl
    simp [flag]
  · cases insensitive with
    | false =>
      have lexes := @lexes_regex _ (fun _ => ()) malloc string (10 :: tail) regex noZero (Or.inr ⟨tail, rfl⟩)
      have read := loadExpression_lexes (lexes.blank _ _ rfl) noZero rfl sound
      simpa [insensitiveFlag] using read
    | true =>
      have lexes := @lexes_iregex _ (fun _ => ()) malloc string (10 :: tail) regex noZero (Or.inr ⟨tail, rfl⟩)
      have read := loadExpression_lexes (lexes.blank _ _ rfl) noZero rfl sound
      simpa [insensitiveFlag] using read

theorem writesBack_string (insensitive : Bool) : WritesBack malloc ⟨.MS_STRING, string, insensitive⟩ := by
  obtain ⟨quote, escapes, isQuote, onlyQuotes, stays, isText⟩ := writeStringElement_quoted string
  refine fun indent name => ⟨rfl, 32 :: quote :: (quotedBody escapes string ++ quote :: (insensitiveFlag insensitive ++ [10])),
    ?_, fun state tail sound => ?_⟩
  · show _ ++ (name ++ [32] ++ writeStringElement string) ++ _ ++ [10] = _
    have flag : (if insensitive then ascii "i" else []) = insensitiveFlag insensitive := rfl
    rw [isText]
    simp [flag]
  · have reads := readString_quotedBody isQuote onlyQuotes stays (insensitiveFlag insensitive ++ 10 :: tail)
    have lexes := lexes_string (fun _ => ()) malloc isQuote reads
    have read := @loadExpression_lexes _ _ _ _ ⟨.MS_STRING, string, insensitive⟩ malloc
      (lexes.blank _ _ (stringQuote_notBlank isQuote)) noZero (by cases insensitive <;> rfl) state sound
    have rest : skipI (insensitiveFlag insensitive ++ 10 :: tail) = 10 :: tail := by
      cases insensitive <;> rfl
    rw [rest] at read
    simpa using read

theorem printsBack_bracketed (line : 10 ∉ string) {type : ExpressionType} (isType : type = .MS_EXPRESSION ∨ type = .MS_LIST) :
    PrintsBack ⟨type, string, false⟩ := by
  rcases isType with rfl | rfl
  · have lexes := lexes_bracketed (fun _ => ()) (fun _ => 0) (Or.inl ⟨rfl, rfl, rfl⟩) line noZero (Or.inl rfl)
    exact loadExpressionString_lexes lexes noZero rfl fun impossible => by cases impossible
  · have lexes := lexes_bracketed (fun _ => ()) (fun _ => 0) (Or.inr ⟨rfl, rfl, rfl⟩) line noZero (Or.inl rfl)
    exact loadExpressionString_lexes lexes noZero rfl fun impossible => by cases impossible

theorem printsBack_regex (regex : RegexText string) (insensitive : Bool) : PrintsBack ⟨.MS_REGEX, string, insensitive⟩ := by
  cases insensitive with
  | false =>
    have lexes := lexes_regex (fun _ => ()) (fun _ => 0) regex noZero (Or.inl rfl)
    rw [PrintsBack, msGetExpressionString_regex]
    exact loadExpressionString_lexes lexes noZero rfl fun impossible => by cases impossible
  | true =>
    have lexes := lexes_iregex (fun _ => ()) (fun _ => 0) regex noZero (Or.inl rfl)
    rw [PrintsBack, msGetExpressionString_regex]
    exact loadExpressionString_lexes lexes noZero rfl fun impossible => by cases impossible

theorem printsBack_string (plain : PrintsPlain string) (insensitive : Bool) : PrintsBack ⟨.MS_STRING, string, insensitive⟩ := by
  have reads := readString_plainText rfl plain.1 plain.2 (insensitiveFlag insensitive)
  have lexes := lexes_string (fun _ => ()) (fun _ => 0) rfl reads
  rw [PrintsBack, msGetExpressionString_string]
  cases insensitive with
  | false => exact loadExpressionString_lexes lexes noZero rfl fun _ => by simp [insensitiveFlag]
  | true => exact loadExpressionString_lexes lexes noZero rfl fun impossible => by cases impossible

end Written

section Loaded
variable {α : Type} (atof : CString → α) (malloc : Nat → UInt8)

theorem lexInitial_token {fuel : Nat} {state : LexerState} (fits : state.buffer.Fits) {text : CString} {token : MapToken α}
    {after : LexerState} {rest : CString} (run : lexInitial atof malloc fuel state text = some (token, after, rest))
    (stored : token ∉ [.EOF, .MS_COMMENT, .INCLUDE, .MS_STRING, .MS_ISTRING]) :
    ∃ start count needed body, start <:+ text ∧ chosen (initialRules atof) start = some (count, .returns token needed body) ∧
      after.buffer.Text (body.takeWhile (· ≠ 0)) := by
  simp only [mem_cons, not_mem_nil, or_false, not_or] at stored
  induction fuel generalizing text with
  | zero => cases run
  | succ fuel ih =>
    have goesOn {next : CString} (isNext : next <:+ text) (read : lexInitial atof malloc fuel state next = some (token, after, rest)) :
        ∃ start count needed body, start <:+ text ∧ chosen (initialRules atof) start = some (count, .returns token needed body) ∧
          after.buffer.Text (body.takeWhile (· ≠ 0)) := by
      obtain ⟨start, count, needed, body, isStart, found⟩ := ih read
      exact ⟨start, count, needed, body, isStart.trans isNext, found⟩
    rw [lexInitial] at run
    cases isChosen : chosen (initialRules atof) text with
    | none =>
      rw [isChosen] at run
      cases run
      exact absurd rfl stored.1
    | some found =>
      obtain ⟨msyyleng, action⟩ := found
      rw [isChosen] at run
      cases action with
      | skip => exact goesOn (drop_suffix _ _) run
      | comment =>
        dsimp only at run
        split at run
        · cases run
          exact absurd rfl stored.2.1
        · exact goesOn (drop_suffix _ _) run
      | beginComment => exact goesOn ((skipMultilineComment_suffix _).trans (drop_suffix _ _)) run
      | beginInclude =>
        cases run
        exact absurd rfl stored.2.2.1
      | returns found needed copied =>
        obtain ⟨rule, member, _, isAction⟩ := chosen_eq_some isChosen
        have short := (initialRules_sound atof rule member).copies _ found needed copied isAction
        obtain ⟨next, copied_, _, nextText⟩ := copyToken_text malloc fits short
        simp only [copied_, bind_eq_bind, bind_some, Option.some.injEq, Prod.mk.injEq] at run
        obtain ⟨rfl, rfl, -⟩ := run
        exact ⟨text, msyyleng, needed, copied, suffix_refl _, isChosen, nextText⟩
      | beginString quote =>
        obtain ⟨begun, -, run⟩ := bind_eq_some_iff.mp run
        obtain ⟨⟨outcome, next, behind⟩, -, run⟩ := bind_eq_some_iff.mp run
        cases outcome with
        | none =>
          cases run
          exact absurd rfl stored.1
        | some ended =>
          dsimp only at run
          split at run
          · cases run
            exact absurd rfl stored.2.2.2.2
          · cases run
            exact absurd rfl stored.2.2.2.1

theorem initialRules_token : ∀ rule ∈ initialRules atof, ∀ msyytext token needed body,
    rule.action msyytext = .returns token needed body →
      (token = .MS_IREGEX → rule = innerRule longestIRegex .MS_IREGEX 1 2) ∧
      (token = .MS_REGEX → rule = innerRule longestRegex .MS_REGEX 1 1) ∧
      (token = .MS_EXPRESSION → rule = innerRule (longestBracketed 40 41) .MS_EXPRESSION 1 1) ∧
      (token = .MS_LIST → rule = innerRule (longestBracketed 123 125) .MS_LIST 1 1) := by
  simp only [initialRules, openingRules, mapPatternRules, forall_mem_append, forall_mem_cons, List.forall_mem_map]
  refine ⟨⟨?_, ?_, ?_, by simp⟩, fun word member => ?_, ?_, ?_, ?_, ?_, ?_, ?_, ?_, ?_, ?_, ?_, ?_, ?_, by simp⟩
  all_goals
    intro msyytext token needed body same
    cases same
  all_goals refine ⟨fun isToken => ?_, fun isToken => ?_, fun isToken => ?_, fun isToken => ?_⟩
  all_goals first
    | (cases isToken; done)
    | trivial

theorem bracketed_line {opening closing : UInt8} {token : MapToken α} {text : CString} {count : Nat}
    (isMatch : longestBracketed opening closing text = some count) {needed : Nat} {body : CString}
    (isAction : (innerRule (longestBracketed opening closing) token 1 1).action (text.take count) = .returns token needed body) :
    10 ∉ body := by
  cases text with
  | nil => cases isMatch
  | cons c rest =>
    rw [longestBracketed] at isMatch
    split at isMatch
    · rename_i bracket
      cases isAction
      have bound : count ≤ (rest.takeWhile (· ≠ 10)).length + 1 := by
        rw [← Option.some.inj isMatch]
        omega
      obtain ⟨count, rfl⟩ : ∃ inner, count = inner + 1 := ⟨_, (Option.some.inj isMatch).symm⟩
      intro newline
      have inLine : (10 : UInt8) ∈ rest.take count := by
        rw [take_succ_cons, drop_succ_cons, drop_zero] at newline
        exact mem_of_mem_take newline
      have prefix_ : rest.take count <+: rest.takeWhile (· ≠ 10) :=
        prefix_of_prefix_length_le (List.take_prefix _ _) (List.takeWhile_prefix _) (by rw [length_take]; omega)
      have plain := mem_takeWhile_imp (prefix_.subset inLine)
      simp at plain
    · cases isMatch

theorem longestRegex_some {text : CString} {count : Nat} (isMatch : longestRegex text = some count) :
    ∃ c inner rest, text = 47 :: c :: (inner ++ 47 :: rest) ∧ c ≠ 42 ∧ 47 ∉ inner ∧ count = inner.length + 3 := by
  unfold longestRegex at isMatch
  split at isMatch
  · rename_i c rest
    split at isMatch
    · rename_i ends
      have slash := takeWhile_append_dropWhile (p := (· ≠ (47 : UInt8))) (l := rest)
      cases behind : rest.dropWhile (· ≠ 47) with
      | nil =>
        have plain := dropWhile_eq_nil_iff.mp behind 47 ends.2
        simp at plain
      | cons d others =>
        have isSlash : d = 47 := by
          have first := head?_dropWhile_not (· ≠ (47 : UInt8)) rest
          rw [behind] at first
          simpa using first
        rw [behind, isSlash] at slash
        refine ⟨c, rest.takeWhile (· ≠ 47), others, by rw [slash], ends.1, fun inner => ?_, (Option.some.inj isMatch).symm⟩
        have plain := mem_takeWhile_imp inner
        simp at plain
    · cases isMatch
  · cases isMatch

theorem initialRules_regexToken {start body : CString} {token : MapToken α} {count needed : Nat} {insensitive : Bool}
    (isToken : token = if insensitive then .MS_IREGEX else .MS_REGEX)
    (rule : chosen (initialRules atof) start = some (count, .returns token needed body)) :
    ∃ c inner rest, start = 47 :: c :: (inner ++ 47 :: rest) ∧ c ≠ 42 ∧ 47 ∉ inner ∧ body = c :: inner ∧
      (insensitive = true → rest.head?.any isLetterI = true) ∧
      (c = 47 → ((inner ++ 47 :: rest).takeWhile (· ≠ 10)).length + 2 < inner.length + 3 + (insensitiveFlag insensitive).length) := by
  obtain ⟨found, member, isMatch, isAction⟩ := chosen_eq_some rule
  have isRule := initialRules_token atof found member _ _ _ _ isAction
  -- A comment that is at least as long would have come first.
  have comment {c : UInt8} {inner rest : CString} (isStart : start = 47 :: c :: (inner ++ 47 :: rest)) (isSlash : c = 47) :
      ((inner ++ 47 :: rest).takeWhile (· ≠ 10)).length + 2 < count := by
    by_contra notShorter
    have opening : chosen (openingRules (α := α)) start =
        some (((inner ++ 47 :: rest).takeWhile (· ≠ 10)).length + 2, .comment) := by
      rw [isStart, isSlash]
      rfl
    rw [initialRules, chosen_append, opening] at rule
    rcases better_eq_some rule with first | later
    · cases first
    · rw [later, better, if_neg notShorter] at rule
      cases rule
  cases insensitive with
  | false =>
    rw [isRule.2.1 isToken] at isMatch isAction
    obtain ⟨c, inner, rest, rfl, notStar, noSlash, rfl⟩ := longestRegex_some isMatch
    replace isAction := (innerRule_action 47 (c :: inner) [47] rest rfl rfl).symm.trans isAction
    cases isAction
    exact ⟨c, inner, rest, rfl, notStar, noSlash, rfl, by simp, comment rfl⟩
  | true =>
    rw [isRule.1 isToken] at isMatch isAction
    obtain ⟨matched, isRegex, letter⟩ := bind_eq_some_iff.mp isMatch
    obtain ⟨c, inner, rest, rfl, notStar, noSlash, rfl⟩ := longestRegex_some isRegex
    have behind : (47 :: c :: (inner ++ 47 :: rest)).drop (inner.length + 3) = rest := by
      simp [drop_append]
    rw [behind] at letter
    split at letter
    · rename_i isLetter
      cases letter
      obtain ⟨i, others, rfl⟩ := head_of_any isLetter
      replace isAction := (innerRule_action 47 (c :: inner) [47, i] others rfl rfl).symm.trans isAction
      cases isAction
      exact ⟨c, inner, _, rfl, notStar, noSlash, rfl, fun _ => isLetter, comment rfl⟩
    · cases letter

theorem regexText_of_rule {start body : CString} {token : MapToken α} {count needed : Nat} {insensitive : Bool}
    (isToken : token = if insensitive then .MS_IREGEX else .MS_REGEX)
    (rule : chosen (initialRules atof) start = some (count, .returns token needed body)) :
    RegexText body ∧ body.length + 2 + (insensitiveFlag insensitive).length ≤ start.length := by
  obtain ⟨c, inner, rest, rfl, notStar, noSlash, rfl, letter, comment⟩ := initialRules_regexToken atof isToken rule
  constructor
  · refine ⟨c, inner, rfl, notStar, noSlash, fun isSlash => ?_⟩
    by_contra line
    have shorter := comment isSlash
    rw [takeWhile_append_of_pos (by
      intro d member
      simpa using fun newline : d = 10 => line (newline ▸ member)), takeWhile_cons_of_pos (by decide)] at shorter
    cases insensitive with
    | false =>
      simp only [length_append, length_cons, insensitiveFlag_false, length_nil] at shorter
      omega
    | true =>
      obtain ⟨i, others, rfl⟩ := head_of_any (letter rfl)
      have notNewline : i ≠ 10 := by
        rintro rfl
        cases letter rfl
      rw [takeWhile_cons_of_pos (by simpa using notNewline)] at shorter
      simp only [length_append, length_cons, insensitiveFlag_true, length_nil] at shorter
      omega
  · cases insensitive with
    | false =>
      simp only [length_append, length_cons, insensitiveFlag_false, length_nil]
      omega
    | true =>
      obtain ⟨i, others, rfl⟩ := head_of_any (letter rfl)
      simp only [length_append, length_cons, insensitiveFlag_true, length_nil]
      omega

end Loaded

theorem loadExpression_token {malloc : Nat → UInt8} {insensitive : Bool} {state : LexerState} (sound : state.buffer.Sound)
    {text : CString} {exp : ExpressionValue} {after : LexerState} {rest : CString}
    (loads : loadExpression malloc insensitive state text = some (some exp, after, rest)) :
    ∃ fuel start token, start.buffer.Fits ∧ lexInitial (fun _ => ()) malloc fuel start text = some (token, after, rest) ∧
      exp.string = after.buffer.data.takeWhile (· ≠ 0) ∧
      (exp.type = .MS_EXPRESSION → token = .MS_EXPRESSION) ∧ (exp.type = .MS_LIST → token = .MS_LIST) ∧
      (exp.type = .MS_REGEX → ∃ flag : Bool, token = if flag then .MS_IREGEX else .MS_REGEX) := by
  obtain ⟨buffer, begun, fits, -⟩ := @beginToken_text malloc state.buffer sound
  obtain ⟨⟨token, next, behind⟩, run, loads⟩ := bind_eq_some_iff.mp loads
  rw [msyylexInitial, begun, bind_eq_bind, bind_some] at run
  cases token
  all_goals
    cases loads
  all_goals exact ⟨_, { state with buffer, msyystring_icase := true }, _, fits, run, rfl, by simp, by simp, by simp⟩

/-- What one call of `loadExpression` can produce, with whatever its object and the lexer held before. -/
def Loaded (malloc : Nat → UInt8) (exp : ExpressionValue) : Prop :=
  ∃ insensitive state text after rest, state.buffer.Sound ∧ loadExpression malloc insensitive state text = some (some exp, after, rest)

theorem Loaded.noZero {malloc : Nat → UInt8} {exp : ExpressionValue} (loaded : Loaded malloc exp) : 0 ∉ exp.string := by
  obtain ⟨insensitive, state, text, after, rest, sound, loads⟩ := loaded
  obtain ⟨_, _, _, -, -, isString, -⟩ := loadExpression_token sound loads
  intro zero
  have plain := mem_takeWhile_imp (isString ▸ zero)
  simp at plain

theorem Loaded.line {malloc : Nat → UInt8} {exp : ExpressionValue} (loaded : Loaded malloc exp)
    (isType : exp.type = .MS_EXPRESSION ∨ exp.type = .MS_LIST) : 10 ∉ exp.string := by
  obtain ⟨insensitive, state, text, after, rest, sound, loads⟩ := loaded
  obtain ⟨fuel, begun, token, fits, run, isString, isExpression, isList, -⟩ := loadExpression_token sound loads
  have kinds : token = .MS_EXPRESSION ∨ token = .MS_LIST := isType.imp isExpression isList
  obtain ⟨start, count, needed, body, -, rule, holds⟩ := lexInitial_token _ malloc fits run (by rcases kinds with rfl | rfl <;> simp)
  obtain ⟨found, member, isMatch, isAction⟩ := chosen_eq_some rule
  have isRule := initialRules_token _ found member _ _ _ _ isAction
  have line : 10 ∉ body := by
    rcases kinds with rfl | rfl
    · rw [isRule.2.2.1 rfl] at isMatch isAction
      exact bracketed_line isMatch isAction
    · rw [isRule.2.2.2 rfl] at isMatch isAction
      exact bracketed_line isMatch isAction
  rw [isString, takeWhile_text holds, takeWhile_takeWhile]
  exact fun newline => line ((List.takeWhile_prefix _).subset newline)

theorem loadExpressionString_token {text : CString} {exp : ExpressionValue} (loads : loadExpressionString text = some exp) :
    ∃ state token after rest, state.buffer.Fits ∧ state.buffer.Text [] ∧ state.msyystring_icase = true ∧
      lexInitial (fun _ => ()) (fun _ => 0) (text.length + 1) state text = some (token, after, rest) ∧
      (exp.type = .MS_EXPRESSION ∨ exp.type = .MS_LIST → exp.insensitive = false) ∧
      (exp.type = .MS_REGEX → token = (if exp.insensitive then .MS_IREGEX else .MS_REGEX) ∧
        exp.string = after.buffer.data.takeWhile (· ≠ 0)) ∧
      (exp.type = .MS_STRING → exp.insensitive = true → token = .MS_ISTRING ∧ exp.string = after.buffer.data.takeWhile (· ≠ 0)) ∧
      (exp.type = .MS_STRING → exp.insensitive = false → token ≠ .MS_ISTRING ∧
        (exp.string = after.buffer.data.takeWhile (· ≠ 0) ∨ exp.string = text)) := by
  obtain ⟨buffer, begun, fits, empty⟩ := @beginToken_text (fun _ => 0) ⟨[], 0⟩ (Or.inl rfl)
  rw [loadExpressionString, loadExpressionStringIn, bind_eq_bind] at loads
  obtain ⟨⟨token, stored⟩, first, loads⟩ := bind_eq_some_iff.mp loads
  obtain ⟨⟨token, next, behind⟩, run, same⟩ := map_eq_some_iff.mp first
  rw [msyylexInitial, begun, bind_eq_bind, bind_some] at run
  refine ⟨⟨buffer, true, false⟩, token, next, behind, fits, empty, rfl, run, ?_⟩
  cases same
  cases token
  all_goals
    cases loads
  all_goals refine ⟨?_, ?_, ?_, ?_⟩
  all_goals first
    | (simp; done)
    | exact fun _ _ => ⟨by simp, ite_eq_or_eq _ _ _⟩

theorem regexText_of_printsBack {string : CString} {insensitive : Bool} (prints : PrintsBack ⟨.MS_REGEX, string, insensitive⟩) :
    RegexText string := by
  obtain ⟨state, token, after, rest, fits, -, -, run, -, isRegex, -⟩ := loadExpressionString_token prints
  obtain ⟨isToken, isString⟩ := isRegex rfl
  dsimp only at isToken isString
  rw [msGetExpressionString_regex] at run
  obtain ⟨start, count, needed, body, isStart, rule, holds⟩ := lexInitial_token _ _ fits run (by
    rw [isToken]
    cases insensitive <;> simp)
  obtain ⟨regex, enough⟩ := regexText_of_rule _ isToken rule
  have whole := isStart.length_le
  rw [takeWhile_text holds, takeWhile_takeWhile] at isString
  have isBody : string <+: body := by
    rw [isString]
    exact takeWhile_prefix _
  -- The expression that is found takes the whole text.
  rwa [isBody.eq_of_length_le (by
    simp only [length_cons, length_append] at whole
    omega)]

theorem readString_twoQuotes {quote : UInt8} (isQuote : stringQuote quote = true) :
    ∀ front, (readString quote (front ++ [quote, quote])).isSome = true
  | [] => by
    rw [nil_append, readString_quote isQuote]
    rfl
  | [c] => by
    by_cases same : c = quote
    · rw [same, singleton_append, readString_quote isQuote]
      rfl
    · by_cases backslash : c = 92
      · rw [backslash, singleton_append, readString_pair (by rw [isQuote]; rfl), readString_quote isQuote]
        rfl
      · rw [singleton_append, readString_plain backslash same, readString_quote isQuote]
        rfl
  | c :: d :: front => by
    have next := readString_twoQuotes isQuote (d :: front)
    by_cases same : c = quote
    · rw [same, cons_append, readString_quote isQuote]
      rfl
    · by_cases backslash : c = 92
      · rw [backslash, cons_append, cons_append]
        cases pair : stringQuote d || d == 92 with
        | true => rw [readString_pair pair, isSome_map, readString_twoQuotes isQuote front]
        | false => rw [readString_backslash pair, isSome_map, ← cons_append, next]
      · rw [cons_append, readString_plain backslash same, isSome_map, next]

theorem printsPlain_of_printsBack {string : CString} (noZero : 0 ∉ string) {insensitive : Bool}
    (prints : PrintsBack ⟨.MS_STRING, string, insensitive⟩) : PrintsPlain string := by
  obtain ⟨state, token, after, rest, fits, empty, icase, run, -, -, sensitive, other⟩ := loadExpressionString_token prints
  rw [msGetExpressionString_string] at run other
  have notText : string ≠ 34 :: (string ++ 34 :: insensitiveFlag insensitive) := by
    intro isText
    have lengths := congrArg List.length isText
    simp only [length_cons, length_append] at lengths
    omega
  have isString : string = after.buffer.data.takeWhile (· ≠ 0) := by
    cases insensitive with
    | true => exact (sensitive rfl rfl).2
    | false => exact (other rfl rfl).2.resolve_right notText
  rcases @lexInitial_quoted _ (fun _ => ()) (fun _ => 0) _ state fits empty 34 rfl (string ++ 34 :: insensitiveFlag insensitive) with
    ⟨isNone, last, stored, ended, holds, among, isLast⟩ | ⟨value, front, tail, last, isSome, parts, ended, holds, -⟩
  · rw [ended] at run
    cases run
    cases insensitive with
    | true => cases (sensitive rfl rfl).1
    | false =>
      rw [insensitiveFlag_false] at isNone among isLast
      -- The string would end in a quote, with another one behind it.
      have clean : stored.takeWhile (· ≠ 0) = stored := takeWhile_eq_self_iff.mpr fun c member => by
        rcases mem_append.mp (among member) with inString | isQuote
        · simpa using fun same : c = 0 => noZero (same ▸ inString)
        · rw [mem_singleton.mp isQuote]
          rfl
      rw [takeWhile_text holds, clean] at isString
      rw [← isString, getLast?_concat] at isLast
      obtain ⟨front, rfl⟩ := getLast?_eq_some_iff.mp isLast
      have isSome := @readString_twoQuotes 34 rfl front
      rw [append_assoc] at isNone
      rw [show front ++ ([34] ++ [34]) = front ++ [34, 34] from rfl] at isNone
      rw [isNone] at isSome
      cases isSome
  · rw [ended, icase, Bool.true_and] at run
    obtain ⟨isToken, rfl, -⟩ : _ = token ∧ last = after ∧ _ = rest := by simpa using run
    have short : string.length ≤ value.length := by
      rw [isString, takeWhile_text holds]
      exact (List.takeWhile_prefix _).length_le
    obtain ⟨second, sameRest, ⟨before, isSuffix⟩, shorter | ⟨isText, noQuote, plain⟩⟩ := readString_bound rfl isSome
    · obtain rfl := skipI_unique rfl parts isSuffix.symm sameRest
      cases insensitive with
      | false =>
        simp only [insensitiveFlag_false, length_append, length_singleton] at shorter
        omega
      | true =>
        simp only [insensitiveFlag_true, length_append, length_cons, length_nil] at shorter
        obtain rfl : tail = [] := length_eq_zero_iff.mp (by omega)
        rw [(sensitive rfl rfl).1] at isToken
        cases isToken
    · -- What is read starts with the string, and has no quote for more.
      obtain ⟨more, rfl⟩ : string <+: value :=
        prefix_of_prefix_length_le ⟨_, isText⟩ (prefix_append value (34 :: second)) short
      cases more with
      | nil =>
        rw [append_nil] at noQuote plain
        exact ⟨noQuote, plain⟩
      | cons c more =>
        rw [append_assoc, append_cancel_left_eq, cons_append, List.cons.injEq] at isText
        exact absurd (by rw [← isText.1]; simp) noQuote

/-- The expressions that come back from both texts. A `MS_REGEX` is a token with what was stored of it; only a zero in the token
makes a difference. -/
def ComesBack (exp : ExpressionValue) : Prop :=
  match exp.type with
  | .MS_LIST => False
  | .MS_EXPRESSION => exp.insensitive = false
  | .MS_REGEX => RegexText exp.string
  | .MS_STRING => PrintsPlain exp.string

theorem writesBack_printsBack_iff {malloc : Nat → UInt8} {exp : ExpressionValue} (loaded : Loaded malloc exp) :
    WritesBack malloc exp ∧ PrintsBack exp ↔ ComesBack exp := by
  have noZero := loaded.noZero
  have line := loaded.line
  obtain ⟨type, string, insensitive⟩ := exp
  cases type with
  | MS_LIST =>
    refine iff_of_false (fun both => ?_) id
    -- The text of a list goes to the stream itself.
    have stream := (both.1 0 []).1
    cases stream
  | MS_EXPRESSION =>
    constructor
    · rintro ⟨-, prints⟩
      obtain ⟨-, -, -, -, -, -, -, -, sensitive, -⟩ := loadExpressionString_token prints
      exact sensitive (Or.inl rfl)
    · intro sensitive
      obtain rfl : insensitive = false := sensitive
      exact ⟨writesBack_expression malloc noZero (line (Or.inl rfl)), printsBack_bracketed noZero (line (Or.inl rfl)) (Or.inl rfl)⟩
  | MS_REGEX =>
    exact ⟨fun both => regexText_of_printsBack both.2, fun regex =>
      ⟨writesBack_regex malloc noZero regex insensitive, printsBack_regex noZero regex insensitive⟩⟩
  | MS_STRING =>
    exact ⟨fun both => printsPlain_of_printsBack noZero both.2, fun plain =>
      ⟨writesBack_string malloc noZero insensitive, printsBack_string noZero plain insensitive⟩⟩

theorem writesBack_printsBack_iff_string :
    WritesBack (fun _ => 0) ⟨.MS_STRING, ascii "it's", true⟩ ∧ PrintsBack ⟨.MS_STRING, ascii "it's", true⟩ := by
  have lexes := @lexes_string _ (fun _ => ()) (fun _ => 0) 34 rfl (ascii "it's") (ascii "it's") (ascii "i\n") rfl
  have loaded : Loaded (fun _ => 0) ⟨.MS_STRING, ascii "it's", true⟩ := by
    obtain ⟨after, loads⟩ := @loadExpression_lexes _ _ _ _ ⟨.MS_STRING, ascii "it's", true⟩ _ lexes (by decide) rfl
      ⟨⟨[], 0⟩, false, false⟩ (Or.inl rfl)
    exact ⟨false, _, _, after, _, Or.inl rfl, loads⟩
  exact (writesBack_printsBack_iff loaded).mpr ⟨by decide, by decide⟩

/-- A list is written to the stream, and a string with double quotes in it is printed with them as they are. -/
theorem writesBack_printsBack_fail :
    (Loaded (fun _ => 0) ⟨.MS_LIST, ascii "a,b", false⟩ ∧ ¬ WritesBack (fun _ => 0) ⟨.MS_LIST, ascii "a,b", false⟩) ∧
      Loaded (fun _ => 0) ⟨.MS_STRING, ascii "say \"x\"", false⟩ ∧ ¬ PrintsBack ⟨.MS_STRING, ascii "say \"x\"", false⟩ := by
  have list := @lexes_bracketed _ (fun _ => ()) (fun _ => 0) 123 125 _ (Or.inr ⟨rfl, rfl, rfl⟩) (ascii "a,b") [] (by decide) (by decide)
    (Or.inl rfl)
  have string := @lexes_string _ (fun _ => ()) (fun _ => 0) 39 rfl (ascii "say \"x\"") (ascii "say \"x\"") [] rfl
  refine ⟨⟨?_, fun writes => ?_⟩, ?_, fun prints => ?_⟩
  · obtain ⟨after, loads⟩ := @loadExpression_lexes _ _ _ _ ⟨.MS_LIST, ascii "a,b", false⟩ _ list (by decide) rfl
      ⟨⟨[], 0⟩, false, false⟩ (Or.inl rfl)
    exact ⟨false, _, _, after, _, Or.inl rfl, loads⟩
  · have stream := (writes 0 (ascii "EXPRESSION")).1
    cases stream
  · obtain ⟨after, loads⟩ := @loadExpression_lexes _ _ _ _ ⟨.MS_STRING, ascii "say \"x\"", false⟩ _ string (by decide) rfl
      ⟨⟨[], 0⟩, false, false⟩ (Or.inl rfl)
    exact ⟨false, _, _, after, _, Or.inl rfl, loads⟩
  · exact absurd (printsPlain_of_printsBack (by decide) prints).1 (by decide)

end MapServer
