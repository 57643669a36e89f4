import MapServer.Mapfile.ExpressionString

namespace MapServer
open Lib.ByteFile Lib.Scanner List Option

/-- The call for an expression with this flag. The inner `none` is the error of `getSymbol`; `none` stands for the start of an
`INCLUDE`, whose file the lexer goes on to read. -/
def loadExpression (malloc : Nat → UInt8) (insensitive : Bool) (state : LexerState) (text : CString) :
    Option (Option ExpressionValue × LexerState × CString) := do
  let (token, state, rest) ← msyylexInitial (fun _ => ()) malloc { state with msyystring_icase := true } text
  let msyystring_buffer := state.buffer.data.takeWhile (· ≠ 0)
  match token with
  | .INCLUDE => none
  | .MS_STRING => some (some ⟨.MS_STRING, msyystring_buffer, insensitive⟩, state, rest)
  | .MS_EXPRESSION => some (some ⟨.MS_EXPRESSION, msyystring_buffer, insensitive⟩, state, rest)
  | .MS_REGEX => some (some ⟨.MS_REGEX, msyystring_buffer, insensitive⟩, state, rest)
  | .MS_ISTRING => some (some ⟨.MS_STRING, msyystring_buffer, true⟩, state, rest)
  | .MS_IREGEX => some (some ⟨.MS_REGEX, msyystring_buffer, true⟩, state, rest)
  | .MS_LIST => some (some ⟨.MS_LIST, msyystring_buffer, insensitive⟩, state, rest)
  | _ => some (none, state, rest)

/-- What `msIO_fprintf` writes to the channel of a stream, and what `fprintf` writes to the stream itself. -/
structure StreamOutput where
  channel : CString
  stream : CString
  deriving DecidableEq

def writeIndent (indent : Nat) : CString := (List.replicate indent (ascii "  ")).flatten

def writeExpression (indent : Nat) (name : CString) (exp : ExpressionValue) : StreamOutput :=
  let (channel, stream) := match exp.type with
    | .MS_LIST => ([], name ++ ascii " \x7b" ++ exp.string ++ ascii "\x7d")
    | .MS_REGEX => (name ++ ascii " /" ++ exp.string ++ ascii "/", [])
    | .MS_STRING => (name ++ ascii " " ++ writeStringElement exp.string, [])
    | .MS_EXPRESSION => (name ++ ascii " (" ++ exp.string ++ ascii ")", [])
  let flag := if (exp.type = .MS_STRING ∨ exp.type = .MS_REGEX) ∧ exp.insensitive then ascii "i" else []
  { channel := writeIndent (indent + 1) ++ channel ++ flag ++ [10], stream }

def msGetExpressionString (exp : ExpressionValue) : CString :=
  let case_insensitive := if exp.insensitive then ascii "i" else []
  match exp.type with
  | .MS_REGEX => ascii "/" ++ exp.string ++ ascii "/" ++ case_insensitive
  | .MS_STRING => ascii "\"" ++ exp.string ++ ascii "\"" ++ case_insensitive
  | .MS_EXPRESSION => ascii "(" ++ exp.string ++ ascii ")"
  | .MS_LIST => ascii "\x7b" ++ exp.string ++ ascii "\x7d"

def EndsLine (tail : CString) : Prop := tail = [] ∨ ∃ rest, tail = 10 :: rest

theorem takeWhile_endsLine {isOne : UInt8 → Bool} (notNewline : isOne 10 = false) (text : CString) {tail : CString} (ends : EndsLine tail) :
    ((text ++ tail).takeWhile isOne).length ≤ text.length := by
  have bound : (tail.takeWhile isOne) = [] := by
    rcases ends with rfl | ⟨rest, rfl⟩
    · rfl
    · rw [takeWhile_cons_of_neg (by rw [notNewline]; exact Bool.false_ne_true)]
  rw [takeWhile_append]
  split
  · rw [bound, append_nil]
  · exact (List.takeWhile_prefix isOne).length_le

def RegexText (string : CString) : Prop := ∃ c rest, string = c :: rest ∧ c ≠ 42 ∧ 47 ∉ rest ∧ (c = 47 → 10 ∈ rest)

section Rules
variable {α : Type} (atof : CString → α)

theorem takeWhile_line {rest : CString} (newline : 10 ∈ rest) (tail : CString) :
    ((rest ++ tail).takeWhile (· ≠ 10)).length < rest.length := by
  obtain ⟨before, after, rfl⟩ := append_of_mem newline
  rw [append_assoc, cons_append]
  have short := @takeWhile_endsLine (· ≠ 10) rfl before (10 :: (after ++ tail)) (Or.inr ⟨_, rfl⟩)
  rw [length_append, length_cons]
  omega

theorem longestRegex_text {string : CString} (regex : RegexText string) (tail : CString) :
    longestRegex (47 :: (string ++ 47 :: tail)) = some (string.length + 2) := by
  obtain ⟨c, rest, rfl, notStar, noSlash, -⟩ := regex
  have whole : (rest ++ 47 :: tail).takeWhile (· ≠ 47) = rest := by
    rw [takeWhile_append_of_pos (by
      intro d member
      simpa using fun same : d = 47 => noSlash (same ▸ member)), takeWhile_cons_of_neg (by simp), append_nil]
  rw [cons_append, longestRegex, if_pos ⟨notStar, by simp⟩, whole, length_cons]

theorem tolower_eq_star {c : UInt8} (star : tolower c = 42) : c = 42 := by
  unfold tolower at star
  split at star
  · rename_i capital
    have low := UInt8.le_iff_toNat_le.mp capital.1
    have high := UInt8.le_iff_toNat_le.mp capital.2
    have value := congrArg UInt8.toNat star
    rw [UInt8.toNat_add] at value
    simp only [UInt8.toNat_ofNat] at low high value
    omega
  · exact star

theorem openingRules_slash {string : CString} (regex : RegexText string) (tail : CString) :
    ∀ rule ∈ openingRules (α := α), ∀ matched, rule.longest (47 :: (string ++ 47 :: tail)) = some matched → matched < string.length + 2 := by
  obtain ⟨c, rest, rfl, notStar, noSlash, comment⟩ := regex
  simp only [openingRules, forall_mem_cons]
  refine ⟨fun matched isMatch => ?_, fun matched isMatch => ?_, fun matched isMatch => ?_, by simp⟩
  · cases isMatch
  · rw [cons_append] at isMatch
    unfold longestComment at isMatch
    split at isMatch
    · rename_i slashes
      cases slashes
      rw [Option.some.injEq] at isMatch
      have shorter := takeWhile_line (comment rfl) (47 :: tail)
      rw [length_cons]
      omega
    · rename_i sharp
      cases sharp
    · cases isMatch
  · rw [cons_append, longestWord, if_neg] at isMatch
    · cases isMatch
    · intro same
      have letters := sameIgnoringCase_iff.mp same
      simp only [length_cons, length_nil, take_succ_cons, map_cons, List.cons.injEq] at letters
      exact notStar (tolower_eq_star letters.2.1)

theorem longestMapWord_slash {text tail : CString} (ends : EndsLine tail) {matched : Nat}
    (isMatch : longestMapWord (47 :: (text ++ tail)) = some matched) : matched ≤ text.length + 1 := by
  rw [longestMapWord, if_pos (by decide), Option.some.injEq] at isMatch
  have bound := @takeWhile_endsLine isWordChar (by decide) text tail ends
  omega

theorem patterns_slash (rest : CString) : ∀ rule ∈ (mapPatternRules atof).take 4, rule.longest (47 :: rest) = none := by
  simp only [mapPatternRules, take_succ_cons, take_zero, forall_mem_cons]
  have bom : longestWord [239, 187, 191] (47 :: rest) = none := longestWord_none (by decide) rest
  have include_ : longestWord (ascii "include") (47 :: rest) = none := longestWord_none (d := 105) (by decide) rest
  exact ⟨bom, include_, rfl, rfl, by simp⟩

theorem otherPatterns_slash (rest : CString) : ∀ rule ∈ (mapPatternRules atof).drop 6, ∀ matched,
    rule.longest (47 :: rest) = some matched → longestMapWord (47 :: rest) = some matched ∨ matched = 1 := by
  simp only [mapPatternRules, drop_succ_cons, drop_zero, forall_mem_cons]
  refine ⟨fun matched isMatch => ?_, fun matched isMatch => ?_, fun matched isMatch => ?_, fun matched isMatch => Or.inl isMatch,
    fun matched isMatch => ?_, fun matched isMatch => ?_, by simp⟩
  all_goals cases isMatch
  exact Or.inr rfl

theorem earlierRules_slash {string : CString} (regex : RegexText string) (tail : CString) :
    ∀ rule ∈ openingRules ++ (mapKeywords.map keywordRule ++ (mapPatternRules atof).take 4), ∀ matched,
      rule.longest (47 :: (string ++ 47 :: tail)) = some matched → matched < string.length + 2 := by
  intro rule member matched isMatch
  rcases mem_append.mp member with opening | member
  · exact openingRules_slash regex tail rule opening matched isMatch
  rcases mem_append.mp member with keyword | pattern
  · rw [keyword_none (by decide) _ rule keyword] at isMatch
    cases isMatch
  · rw [patterns_slash atof _ rule pattern] at isMatch
    cases isMatch

theorem innerRule_action {longest : CString → Option Nat} {token : MapToken α} (c : UInt8) (body after tail : CString) {back count : Nat}
    (isBack : after.length = back) (isCount : body.length + 1 + back = count) :
    (innerRule longest token 1 back).action ((c :: (body ++ (after ++ tail))).take count) = .returns token count body := by
  subst isBack isCount
  have taken : (c :: (body ++ (after ++ tail))).take (body.length + 1 + after.length) = c :: (body ++ after) := by
    rw [← append_assoc, ← cons_append]
    exact take_left' (by rw [length_cons, length_append]; omega)
  rw [taken, innerRule]
  simp
  omega

theorem initialRules_slash {string : CString} (regex : RegexText string) (flag : CString) {tail : CString} (ends : EndsLine tail)
    {longest : CString → Option Nat} {token : MapToken α} {count : Nat} (isCount : string.length + 1 + (47 :: flag).length = count)
    {before after : List (Rule UInt8 (MapAction α))}
    (isRules : initialRules atof = openingRules ++ (mapKeywords.map keywordRule ++ (mapPatternRules atof).take 4) ++ before ++
      innerRule longest token 1 (47 :: flag).length :: (after ++ (mapPatternRules atof).drop 6))
    (isMatch : longest (47 :: (string ++ 47 :: (flag ++ tail))) = some count)
    (earlier : ∀ rule ∈ before, rule.longest (47 :: (string ++ 47 :: (flag ++ tail))) = none)
    (later : ∀ rule ∈ after, ∀ matched, rule.longest (47 :: (string ++ 47 :: (flag ++ tail))) = some matched → matched ≤ count) :
    chosen (initialRules atof) (47 :: (string ++ 47 :: (flag ++ tail))) = some (count, .returns token count string) := by
  rw [isRules]
  refine (chosen_eq_first (fun rule member matched isMatch => ?_) isMatch fun rule member matched isMatch => ?_).trans
    (congrArg (fun action => some (count, action)) (innerRule_action 47 string (47 :: flag) tail rfl isCount))
  · rcases mem_append.mp member with first | other
    · have short := earlierRules_slash atof regex _ rule first matched isMatch
      rw [length_cons] at isCount
      omega
    · cases (earlier rule other).symm.trans isMatch
  · rcases mem_append.mp member with other | member
    · exact later rule other matched isMatch
    rcases otherPatterns_slash atof _ rule member matched isMatch with word | rfl
    · rw [show string ++ 47 :: (flag ++ tail) = string ++ 47 :: flag ++ tail by simp] at word
      have bound := longestMapWord_slash ends word
      rw [length_append] at bound
      omega
    · omega

theorem initialRules_regex {string : CString} (regex : RegexText string) {tail : CString} (ends : EndsLine tail) :
    chosen (initialRules atof) (47 :: (string ++ 47 :: tail)) =
      some (string.length + 2, .returns .MS_REGEX (string.length + 2) string) := by
  have noLetter : longestIRegex (47 :: (string ++ 47 :: tail)) = none := by
    rw [longestIRegex, longestRegex_text regex, bind_some, drop_succ_cons, drop_append]
    rcases ends with rfl | ⟨rest, rfl⟩ <;> simp [isLetterI, tolower]
  refine @initialRules_slash _ atof _ regex [] _ ends longestRegex _ _ rfl [innerRule longestIRegex .MS_IREGEX 1 2] [] ?_
    (longestRegex_text regex tail) (fun rule iregex => ?_) (by simp)
  · simp [initialRules, mapPatternRules]
  · rw [mem_singleton.mp iregex]
    exact noLetter

theorem initialRules_iregex {string : CString} (regex : RegexText string) {tail : CString} (ends : EndsLine tail) :
    chosen (initialRules atof) (47 :: (string ++ 47 :: 105 :: tail)) =
      some (string.length + 3, .returns .MS_IREGEX (string.length + 3) string) := by
  have letter : longestIRegex (47 :: (string ++ 47 :: 105 :: tail)) = some (string.length + 3) := by
    rw [longestIRegex, longestRegex_text regex, bind_some, drop_succ_cons, drop_append]
    simp [isLetterI, tolower]
  refine @initialRules_slash _ atof _ regex [105] _ ends longestIRegex _ _ rfl [] [innerRule longestRegex .MS_REGEX 1 1] ?_
    letter (by simp) (fun rule other matched isMatch => ?_)
  · simp [initialRules, mapPatternRules]
  · rw [mem_singleton.mp other] at isMatch
    have same := (longestRegex_text regex (105 :: tail)).symm.trans isMatch
    rw [Option.some.injEq] at same
    omega

theorem initialRules_opening {opening closing : UInt8} {token : MapToken α}
    (brackets : opening = 40 ∧ closing = 41 ∧ token = .MS_EXPRESSION ∨ opening = 123 ∧ closing = 125 ∧ token = .MS_LIST)
    (rest : CString) : ∀ rule ∈ initialRules atof, ∀ matched, rule.longest (opening :: rest) = some matched →
      rule = innerRule (longestBracketed opening closing) token 1 1 ∨ matched = 1 := by
  have keyword (word : String) (member : word ∈ mapKeywords) : longestWord (ascii word) (opening :: rest) = none :=
    keyword_none (α := α) (by rcases brackets with ⟨rfl, -⟩ | ⟨rfl, -⟩ <;> decide) rest (keywordRule word)
      (List.mem_map.mpr ⟨word, member, rfl⟩)
  simp only [initialRules, openingRules, mapPatternRules, forall_mem_append, forall_mem_cons, List.forall_mem_map]
  refine ⟨⟨?_, ?_, ?_, by simp⟩, fun word member matched isMatch => absurd ((keyword word member).symm.trans isMatch) (by simp),
    ?_, ?_, ?_, ?_, ?_, ?_, ?_, ?_, ?_, ?_, ?_, ?_, by simp⟩
  all_goals
    intro matched isMatch
    rcases brackets with ⟨rfl, rfl, rfl⟩ | ⟨rfl, rfl, rfl⟩
  all_goals first
    | exact Or.inl rfl
    | (cases isMatch; done)
    | (right; cases isMatch; rfl)

theorem longestBracketed_text {opening closing : UInt8} (notNewline : closing ≠ 10) {string tail : CString} (line : 10 ∉ string)
    (ends : EndsLine tail) : longestBracketed opening closing (opening :: (string ++ closing :: tail)) = some (string.length + 2) := by
  have whole : (string ++ closing :: tail).takeWhile (· ≠ 10) = string ++ [closing] := by
    rw [takeWhile_append_of_pos (by
      intro d member
      simpa using fun same : d = 10 => line (same ▸ member)), takeWhile_cons_of_pos (by simpa using notNewline)]
    rcases ends with rfl | ⟨rest, rfl⟩ <;> simp
  rw [longestBracketed, whole]
  simp

theorem initialRules_bracketed {opening closing : UInt8} {token : MapToken α}
    (brackets : opening = 40 ∧ closing = 41 ∧ token = .MS_EXPRESSION ∨ opening = 123 ∧ closing = 125 ∧ token = .MS_LIST)
    {string tail : CString} (line : 10 ∉ string) (ends : EndsLine tail) :
    chosen (initialRules atof) (opening :: (string ++ closing :: tail)) =
      some (string.length + 2, .returns token (string.length + 2) string) := by
  have notNewline : closing ≠ 10 := by rcases brackets with ⟨-, rfl, -⟩ | ⟨-, rfl, -⟩ <;> decide
  have longest := @longestBracketed_text opening closing notNewline string tail line ends
  have rule := @chosen_eq_of_longest _ _ (initialRules atof) (opening :: (string ++ closing :: tail))
    (innerRule (longestBracketed opening closing) token 1 1) (string.length + 2) (by
      rcases brackets with ⟨rfl, rfl, rfl⟩ | ⟨rfl, rfl, rfl⟩ <;> simp [initialRules, mapPatternRules]) longest
    (fun rule member matched isMatch => by
      rcases initialRules_opening atof brackets _ rule member matched isMatch with rfl | rfl
      · exact Or.inr ⟨Option.some.inj (isMatch.symm.trans longest), rfl⟩
      · exact Or.inl (by omega))
  exact rule.trans (congrArg (fun action => some (_, action)) (innerRule_action opening string [closing] tail rfl rfl))

theorem initialRules_blank {c : UInt8} (notBlank : isBlank c = false) (rest : CString) :
    chosen (initialRules atof) (32 :: c :: rest) = some (1, .skip) := by
  have keyword (word : String) (member : word ∈ mapKeywords) : longestWord (ascii word) (32 :: c :: rest) = none :=
    keyword_none (α := α) (by decide) (c :: rest) (keywordRule word) (List.mem_map.mpr ⟨word, member, rfl⟩)
  have one : someOf isBlank (32 :: c :: rest) = some 1 := by
    rw [someOf, takeWhile_cons_of_pos rfl, takeWhile_cons_of_neg (by rw [notBlank]; exact Bool.false_ne_true)]
    rfl
  rw [initialRules, openingRules, cons_append]
  refine @chosen_eq_first _ _ [] _ _ (32 :: c :: rest) 1 (by simp) one ?_
  simp only [mapPatternRules, forall_mem_append, forall_mem_cons, List.forall_mem_map]
  refine ⟨⟨?_, ?_, by simp⟩, fun word member matched isMatch => absurd ((keyword word member).symm.trans isMatch) (by simp),
    ?_, ?_, ?_, ?_, ?_, ?_, ?_, ?_, ?_, ?_, ?_, ?_, by simp⟩
  all_goals
    intro matched isMatch
    cases isMatch
  exact Nat.le_refl _

variable (malloc : Nat → UInt8)

theorem lexInitial_returns {fuel : Nat} {state : LexerState} (fits : state.buffer.Fits) {text body : CString} {token : MapToken α}
    {count : Nat} (rule : chosen (initialRules atof) text = some (count, .returns token count body)) (short : body.length ≤ count)
    (noZero : 0 ∉ body) :
    ∃ after, lexInitial atof malloc (fuel + 1) state text = some (token, after, text.drop count) ∧ after.buffer.Text body ∧
      after.buffer.Fits := by
  obtain ⟨next, run, nextFits, nextText⟩ := copyToken_text malloc fits short
  have whole : body.takeWhile (· ≠ 0) = body := takeWhile_eq_self_iff.mpr fun c member => by
    simpa using fun same : c = 0 => noZero (same ▸ member)
  rw [whole] at nextText
  refine ⟨{ state with buffer := next }, ?_, nextText, nextFits⟩
  rw [lexInitial, rule]
  simp only [run, bind_eq_bind, bind_some]

end Rules

end MapServer
