import Mathlib.Data.List.TakeWhile
import MapServer.Lib.Scanner
import MapServer.Text

namespace MapServer
open Lib.Scanner List Option

inductive TokenCode where
  | MS_TOKEN_LOGICAL_OR | MS_TOKEN_LOGICAL_AND | MS_TOKEN_LOGICAL_NOT
  | MS_TOKEN_COMPARISON_EQ | MS_TOKEN_COMPARISON_NE | MS_TOKEN_COMPARISON_GT | MS_TOKEN_COMPARISON_LT
  | MS_TOKEN_COMPARISON_GE | MS_TOKEN_COMPARISON_LE | MS_TOKEN_COMPARISON_RE | MS_TOKEN_COMPARISON_IEQ
  | MS_TOKEN_COMPARISON_IRE | MS_TOKEN_COMPARISON_IN
  | MS_TOKEN_FUNCTION_AREA | MS_TOKEN_FUNCTION_LENGTH | MS_TOKEN_FUNCTION_TOSTRING | MS_TOKEN_FUNCTION_COMMIFY
  | MS_TOKEN_FUNCTION_ROUND | MS_TOKEN_FUNCTION_UPPER | MS_TOKEN_FUNCTION_LOWER | MS_TOKEN_FUNCTION_INITCAP
  | MS_TOKEN_FUNCTION_FIRSTCAP | MS_TOKEN_FUNCTION_BUFFER | MS_TOKEN_FUNCTION_DIFFERENCE
  | MS_TOKEN_FUNCTION_SIMPLIFY | MS_TOKEN_FUNCTION_SIMPLIFYPT | MS_TOKEN_FUNCTION_GENERALIZE
  | MS_TOKEN_FUNCTION_SMOOTHSIA | MS_TOKEN_FUNCTION_CENTERLINE | MS_TOKEN_FUNCTION_DENSIFY
  | MS_TOKEN_FUNCTION_OUTER | MS_TOKEN_FUNCTION_INNER | MS_TOKEN_FUNCTION_JAVASCRIPT
  | MS_TOKEN_COMPARISON_INTERSECTS | MS_TOKEN_COMPARISON_DISJOINT | MS_TOKEN_COMPARISON_TOUCHES
  | MS_TOKEN_COMPARISON_OVERLAPS | MS_TOKEN_COMPARISON_CROSSES | MS_TOKEN_COMPARISON_WITHIN
  | MS_TOKEN_COMPARISON_CONTAINS | MS_TOKEN_COMPARISON_EQUALS | MS_TOKEN_COMPARISON_BEYOND
  | MS_TOKEN_COMPARISON_DWITHIN | MS_TOKEN_FUNCTION_FROMTEXT
  | MS_TOKEN_BINDING_SHAPE | MS_TOKEN_BINDING_MAP_CELLSIZE | MS_TOKEN_BINDING_DATA_CELLSIZE
  deriving DecidableEq

/-- What a call of `msyylex` returns, with what it leaves in `msyynumber` or in `msyystring_buffer`. -/
inductive Lexeme (α : Type) where
  | finish
  | code (token : TokenCode)
  | MS_TOKEN_LITERAL_BOOLEAN (msyynumber : Bool)
  | MS_TOKEN_LITERAL_NUMBER (msyynumber : α)
  | MS_TOKEN_LITERAL_STRING (msyystring_buffer : CString)
  | MS_TOKEN_LITERAL_TIME (msyystring_buffer : CString)
  | MS_TOKEN_BINDING_DOUBLE (msyystring_buffer : CString)
  | MS_TOKEN_BINDING_STRING (msyystring_buffer : CString)
  | MS_TOKEN_BINDING_TIME (msyystring_buffer : CString)
  | character (c : UInt8)
  deriving DecidableEq

inductive LexAction (α : Type) where
  | returns (lexeme : Lexeme α)
  | beginString (msyystring_begin : UInt8)

def isBlank (c : UInt8) : Bool := c == 32 || c == 9 || c == 13

def fixedWords (α : Type) : List (String × Lexeme α) :=
  [("or", .code .MS_TOKEN_LOGICAL_OR), ("||", .code .MS_TOKEN_LOGICAL_OR),
   ("and", .code .MS_TOKEN_LOGICAL_AND), ("&&", .code .MS_TOKEN_LOGICAL_AND),
   ("not", .code .MS_TOKEN_LOGICAL_NOT), ("!", .code .MS_TOKEN_LOGICAL_NOT),
   ("eq", .code .MS_TOKEN_COMPARISON_EQ), ("=", .code .MS_TOKEN_COMPARISON_EQ), ("==", .code .MS_TOKEN_COMPARISON_EQ),
   ("ne", .code .MS_TOKEN_COMPARISON_NE), ("!=", .code .MS_TOKEN_COMPARISON_NE), ("<>", .code .MS_TOKEN_COMPARISON_NE),
   ("gt", .code .MS_TOKEN_COMPARISON_GT), (">", .code .MS_TOKEN_COMPARISON_GT),
   ("lt", .code .MS_TOKEN_COMPARISON_LT), ("<", .code .MS_TOKEN_COMPARISON_LT),
   ("ge", .code .MS_TOKEN_COMPARISON_GE), (">=", .code .MS_TOKEN_COMPARISON_GE),
   ("le", .code .MS_TOKEN_COMPARISON_LE), ("<=", .code .MS_TOKEN_COMPARISON_LE),
   ("~", .code .MS_TOKEN_COMPARISON_RE), ("=*", .code .MS_TOKEN_COMPARISON_IEQ), ("~*", .code .MS_TOKEN_COMPARISON_IRE),
   ("in", .code .MS_TOKEN_COMPARISON_IN),
   ("area", .code .MS_TOKEN_FUNCTION_AREA), ("length", .code .MS_TOKEN_FUNCTION_LENGTH),
   ("tostring", .code .MS_TOKEN_FUNCTION_TOSTRING), ("commify", .code .MS_TOKEN_FUNCTION_COMMIFY),
   ("round", .code .MS_TOKEN_FUNCTION_ROUND), ("upper", .code .MS_TOKEN_FUNCTION_UPPER),
   ("lower", .code .MS_TOKEN_FUNCTION_LOWER), ("initcap", .code .MS_TOKEN_FUNCTION_INITCAP),
   ("firstcap", .code .MS_TOKEN_FUNCTION_FIRSTCAP), ("buffer", .code .MS_TOKEN_FUNCTION_BUFFER),
   ("difference", .code .MS_TOKEN_FUNCTION_DIFFERENCE), ("simplify", .code .MS_TOKEN_FUNCTION_SIMPLIFY),
   ("simplifypt", .code .MS_TOKEN_FUNCTION_SIMPLIFYPT), ("generalize", .code .MS_TOKEN_FUNCTION_GENERALIZE),
   ("smoothsia", .code .MS_TOKEN_FUNCTION_SMOOTHSIA), ("centerline", .code .MS_TOKEN_FUNCTION_CENTERLINE),
   ("densify", .code .MS_TOKEN_FUNCTION_DENSIFY), ("outer", .code .MS_TOKEN_FUNCTION_OUTER),
   ("inner", .code .MS_TOKEN_FUNCTION_INNER), ("javascript", .code .MS_TOKEN_FUNCTION_JAVASCRIPT),
   ("intersects", .code .MS_TOKEN_COMPARISON_INTERSECTS), ("disjoint", .code .MS_TOKEN_COMPARISON_DISJOINT),
   ("touches", .code .MS_TOKEN_COMPARISON_TOUCHES), ("overlaps", .code .MS_TOKEN_COMPARISON_OVERLAPS),
   ("crosses", .code .MS_TOKEN_COMPARISON_CROSSES), ("within", .code .MS_TOKEN_COMPARISON_WITHIN),
   ("contains", .code .MS_TOKEN_COMPARISON_CONTAINS), ("equals", .code .MS_TOKEN_COMPARISON_EQUALS),
   ("beyond", .code .MS_TOKEN_COMPARISON_BEYOND), ("dwithin", .code .MS_TOKEN_COMPARISON_DWITHIN),
   ("fromtext", .code .MS_TOKEN_FUNCTION_FROMTEXT),
   ("true", .MS_TOKEN_LITERAL_BOOLEAN true), ("false", .MS_TOKEN_LITERAL_BOOLEAN false)]

def specialBindings (α : Type) : List (String × Lexeme α) :=
  [("[shape]", .code .MS_TOKEN_BINDING_SHAPE), ("[map_cellsize]", .code .MS_TOKEN_BINDING_MAP_CELLSIZE),
   ("[data_cellsize]", .code .MS_TOKEN_BINDING_DATA_CELLSIZE)]

def wordRule {α : Type} (word : String × Lexeme α) : Rule UInt8 (LexAction α) where
  longest text :=
    if sameIgnoringCase (text.take (ascii word.1).length) (ascii word.1) then some (ascii word.1).length else none
  action _ := .returns word.2

def msStringUnescape (chEscapeChar : UInt8) : CString → CString
  | [] => []
  | [c] => [c]
  | c :: next :: rest =>
    if c = chEscapeChar ∧ next = chEscapeChar then chEscapeChar :: msStringUnescape chEscapeChar rest
    else c :: msStringUnescape chEscapeChar (next :: rest)

def longestBinding : CString → Option Nat
  | 91 :: rest => (delimited 93 rest).map (· + 1)
  | _ => none

def longestQuotedBinding (isQuote : UInt8 → Bool) : CString → Option Nat
  | quote :: 91 :: rest => if isQuote quote then (bracketed 93 quote rest).map (· + 2) else none
  | _ => none

def skipLexMantissa (text : CString) : Option CString :=
  match text.dropWhile isdigit with
  | 46 :: fraction => some (fraction.dropWhile isdigit)
  | rest => if text.takeWhile isdigit = [] then none else some rest

def skipMinus : CString → CString
  | 45 :: rest => rest
  | text => text

def skipNumber (text : CString) : Option CString := (skipLexMantissa (skipMinus text)).map (skipExponent 101)

def longestNumber (text : CString) : Option Nat := (skipNumber text).map fun rest => text.length - rest.length

def longestTime : CString → Option Nat
  | 96 :: rest => if 96 ∈ rest then some ((rest.takeWhile (· != 96)).length + 2) else none
  | _ => none

def oneOf (isOne : UInt8 → Bool) : CString → Option Nat
  | c :: _ => if isOne c then some 1 else none
  | [] => none

def inside (count : Nat) (msyytext : CString) : CString := (msyytext.drop count).take (msyytext.length - 2 * count)

def stringQuote (c : UInt8) : Bool := c == 34 || c == 39

def isFinish (c : UInt8) : Bool := c == 13 || c == 124 || c == 10 || c == 0

section Lexer
variable {α : Type} (atof : CString → α)

def bindingRule : Rule UInt8 (LexAction α) where
  longest := longestBinding
  action msyytext := .returns (.MS_TOKEN_BINDING_DOUBLE (msStringUnescape 93 (inside 1 msyytext)))

def stringBindingRule : Rule UInt8 (LexAction α) where
  longest := longestQuotedBinding stringQuote
  action msyytext := .returns (.MS_TOKEN_BINDING_STRING (msStringUnescape (msyytext.headD 0) (inside 2 msyytext)))

def timeBindingRule : Rule UInt8 (LexAction α) where
  longest := longestQuotedBinding (· == 96)
  action msyytext := .returns (.MS_TOKEN_BINDING_TIME (msStringUnescape 96 (inside 2 msyytext)))

def numberRule : Rule UInt8 (LexAction α) where
  longest := longestNumber
  action msyytext := .returns (.MS_TOKEN_LITERAL_NUMBER (atof msyytext))

def timeRule : Rule UInt8 (LexAction α) where
  longest := longestTime
  action msyytext := .returns (.MS_TOKEN_LITERAL_TIME (inside 1 msyytext))

def quoteRule : Rule UInt8 (LexAction α) where
  longest := oneOf stringQuote
  action msyytext := .beginString (msyytext.headD 0)

def finishRule : Rule UInt8 (LexAction α) where
  longest := oneOf isFinish
  action _ := .returns .finish

def characterRule : Rule UInt8 (LexAction α) where
  longest := oneOf (· != 10)
  action msyytext := .returns (.character (msyytext.headD 0))

def patternRules : List (Rule UInt8 (LexAction α)) :=
  [bindingRule, stringBindingRule, timeBindingRule, numberRule atof, timeRule, quoteRule, finishRule, characterRule]

def expressionRules : List (Rule UInt8 (LexAction α)) :=
  (fixedWords α).map wordRule ++ ((specialBindings α).map wordRule ++ patternRules atof)

def skipI : CString → CString
  | c :: rest => if tolower c = 105 then rest else c :: rest
  | [] => []

/-- The rules of the state `MSSTRING`: the string, and what follows it; nothing where the text ends in it. -/
def readString (msyystring_begin : UInt8) : CString → Option (CString × CString)
  | [] => none
  | 92 :: c :: rest =>
    if stringQuote c || c == 92 then (readString msyystring_begin rest).map fun read => (c :: read.1, read.2)
    else (readString msyystring_begin (c :: rest)).map fun read => (92 :: read.1, read.2)
  | c :: rest =>
    if c = msyystring_begin then some ([], skipI rest)
    else (readString msyystring_begin rest).map fun read => (c :: read.1, read.2)

def LexAction.run (rest : CString) : LexAction α → Lexeme α × CString
  | .returns lexeme => (lexeme, rest)
  | .beginString msyystring_begin =>
    match readString msyystring_begin rest with
    | some (msyystring_buffer, others) => (.MS_TOKEN_LITERAL_STRING msyystring_buffer, others)
    | none => (.finish, [])

def msyylex (text : CString) : Lexeme α × CString :=
  let text := text.dropWhile isBlank
  match chosen (expressionRules atof) text with
  | some (count, action) => action.run (text.drop count)
  | none => (.finish, [])

end Lexer

/-- What `msTokenizeExpression` reads values with. -/
structure TokenReaders (α Time Shape : Type) where
  atof : CString → α
  msParseTime : CString → Option Time
  msShapeFromWKT : CString → Option Shape

inductive Token (α Time Shape : Type) where
  | code (token : TokenCode)
  | MS_TOKEN_LITERAL_BOOLEAN (dblval : Bool)
  | MS_TOKEN_LITERAL_NUMBER (dblval : α)
  | MS_TOKEN_LITERAL_STRING (strval : CString)
  | MS_TOKEN_LITERAL_TIME (tokensrc : CString) (tmval : Time)
  | MS_TOKEN_LITERAL_SHAPE (shpval : Shape)
  | MS_TOKEN_BINDING_DOUBLE (item : CString)
  | MS_TOKEN_BINDING_STRING (item : CString)
  | MS_TOKEN_BINDING_TIME (item : CString)
  | character (c : UInt8)
  deriving DecidableEq

section Tokens
variable {α Time Shape : Type} (readers : TokenReaders α Time Shape)

/-- What follows the `fromText` in `fromText ( string )`. -/
def fromTextToken (text : CString) : Option (Token α Time Shape × CString) :=
  match msyylex readers.atof text with
  | (.character 40, rest) =>
    match msyylex readers.atof rest with
    | (.MS_TOKEN_LITERAL_STRING msyystring_buffer, others) =>
      match readers.msShapeFromWKT msyystring_buffer, msyylex readers.atof others with
      | some shpval, (.character 41, after) => some (.MS_TOKEN_LITERAL_SHAPE shpval, after)
      | _, _ => none
    | _ => none
  | _ => none

/-- The node that `msTokenizeExpression` makes of what `msyylex` returns; nothing at an error. -/
def tokenOf (lexeme : Lexeme α) (rest : CString) : Option (Token α Time Shape × CString) :=
  match lexeme with
  | .finish => none
  | .code .MS_TOKEN_FUNCTION_FROMTEXT => fromTextToken readers rest
  | .code token => some (.code token, rest)
  | .MS_TOKEN_LITERAL_BOOLEAN msyynumber => some (.MS_TOKEN_LITERAL_BOOLEAN msyynumber, rest)
  | .MS_TOKEN_LITERAL_NUMBER msyynumber => some (.MS_TOKEN_LITERAL_NUMBER msyynumber, rest)
  | .MS_TOKEN_LITERAL_STRING msyystring_buffer => some (.MS_TOKEN_LITERAL_STRING msyystring_buffer, rest)
  | .MS_TOKEN_LITERAL_TIME msyystring_buffer =>
    (readers.msParseTime msyystring_buffer).map fun tmval => (.MS_TOKEN_LITERAL_TIME msyystring_buffer tmval, rest)
  | .MS_TOKEN_BINDING_DOUBLE msyystring_buffer => some (.MS_TOKEN_BINDING_DOUBLE msyystring_buffer, rest)
  | .MS_TOKEN_BINDING_STRING msyystring_buffer => some (.MS_TOKEN_BINDING_STRING msyystring_buffer, rest)
  | .MS_TOKEN_BINDING_TIME msyystring_buffer => some (.MS_TOKEN_BINDING_TIME msyystring_buffer, rest)
  | .character c => some (.character c, rest)

end Tokens

variable {count : Nat} {text rest : CString}

theorem wordRule_progress {α : Type} {word : String × Lexeme α} (notEmpty : ascii word.1 ≠ [])
    (isMatch : (wordRule word).longest text = some count) : 0 < count ∧ text ≠ [] := by
  dsimp only [wordRule] at isMatch
  split at isMatch
  · rename_i same
    cases isMatch
    refine ⟨length_pos_iff.mpr notEmpty, ?_⟩
    rintro rfl
    rw [sameIgnoringCase_iff, take_nil, map_nil, eq_comm, map_eq_nil_iff] at same
    exact notEmpty same
  · cases isMatch

theorem skipExponent_shorter (letter : UInt8) (text : CString) : (skipExponent letter text).length ≤ text.length := by
  cases text with
  | nil => exact Nat.le_refl _
  | cons c rest =>
    rw [skipExponent]
    split
    · have signed : (skipSign rest).length ≤ rest.length := by
        unfold skipSign
        split <;> simp
      have digits := ((skipSign rest).dropWhile_suffix isdigit).length_le
      rw [length_cons]
      omega
    · exact Nat.le_refl _

theorem skipLexMantissa_shorter (skipped : skipLexMantissa text = some rest) : rest.length < text.length := by
  have whole := congrArg List.length (takeWhile_append_dropWhile (p := isdigit) (l := text))
  rw [length_append] at whole
  rw [skipLexMantissa] at skipped
  split at skipped
  · rename_i fraction point
    cases skipped
    have digits := (fraction.dropWhile_suffix isdigit).length_le
    rw [point, length_cons] at whole
    omega
  · split at skipped
    · cases skipped
    · rename_i isDigit
      cases skipped
      have digits := length_pos_iff.mpr isDigit
      omega

theorem skipNumber_shorter (skipped : skipNumber text = some rest) : rest.length < text.length := by
  obtain ⟨mantissa, isMantissa, rfl⟩ := map_eq_some_iff.mp skipped
  have digits := skipLexMantissa_shorter isMantissa
  have exponent := skipExponent_shorter 101 mantissa
  have sign : (skipMinus text).length ≤ text.length := by
    unfold skipMinus
    split <;> simp
  omega

theorem longestNumber_progress (isMatch : longestNumber text = some count) : 0 < count ∧ text ≠ [] := by
  obtain ⟨rest, skipped, rfl⟩ := map_eq_some_iff.mp isMatch
  have shorter := skipNumber_shorter skipped
  refine ⟨by omega, ?_⟩
  rintro rfl
  simp at shorter

theorem patternRules_progress {α : Type} {atof : CString → α} :
    ∀ rule ∈ patternRules atof, rule.longest text = some count → 0 < count ∧ text ≠ [] := by
  have single (isOne : UInt8 → Bool) (isMatch : oneOf isOne text = some count) : 0 < count ∧ text ≠ [] := by
    cases text with
    | nil => cases isMatch
    | cons c rest =>
      rw [oneOf] at isMatch
      split at isMatch
      · cases isMatch
        exact ⟨Nat.one_pos, cons_ne_nil _ _⟩
      · cases isMatch
  have quoted (isQuote : UInt8 → Bool) (isMatch : longestQuotedBinding isQuote text = some count) :
      0 < count ∧ text ≠ [] := by
    unfold longestQuotedBinding at isMatch
    split at isMatch
    · split at isMatch
      · obtain ⟨inner, _, rfl⟩ := map_eq_some_iff.mp isMatch
        exact ⟨by omega, cons_ne_nil _ _⟩
      · cases isMatch
    · cases isMatch
  simp only [patternRules, forall_mem_cons]
  refine ⟨?_, quoted _, quoted _, longestNumber_progress, ?_, single _, single _, single _, by simp⟩
  · intro isMatch
    change longestBinding text = some count at isMatch
    unfold longestBinding at isMatch
    split at isMatch
    · obtain ⟨inner, _, rfl⟩ := map_eq_some_iff.mp isMatch
      exact ⟨by omega, cons_ne_nil _ _⟩
    · cases isMatch
  · intro isMatch
    change longestTime text = some count at isMatch
    unfold longestTime at isMatch
    split at isMatch
    · split at isMatch
      · cases isMatch
        exact ⟨by omega, cons_ne_nil _ _⟩
      · cases isMatch
    · cases isMatch

theorem skipI_shorter (text : CString) : (skipI text).length ≤ text.length := by
  unfold skipI
  split
  · split <;> simp
  · exact Nat.le_refl _

theorem readString_shorter {msyystring_begin : UInt8} {read : CString × CString}
    (isRead : readString msyystring_begin text = some read) : read.2.length < text.length := by
  induction text using readString.induct msyystring_begin generalizing read with
  | case1 => cases isRead
  | case2 c rest escaped ih =>
    rw [readString, if_pos escaped] at isRead
    obtain ⟨inner, isInner, rfl⟩ := map_eq_some_iff.mp isRead
    have shorter := ih isInner
    simp only [length_cons]
    omega
  | case3 c rest plain ih =>
    rw [readString, if_neg plain] at isRead
    obtain ⟨inner, isInner, rfl⟩ := map_eq_some_iff.mp isRead
    have shorter := ih isInner
    simp only [length_cons] at shorter ⊢
    omega
  | case4 rest noEscape =>
    rw [readString, if_pos rfl] at isRead
    · cases isRead
      exact Nat.lt_succ_of_le (skipI_shorter rest)
    · exact noEscape
  | case5 c rest noEscape differs ih =>
    rw [readString, if_neg differs] at isRead
    · obtain ⟨inner, isInner, rfl⟩ := map_eq_some_iff.mp isRead
      have shorter := ih isInner
      rw [length_cons]
      exact Nat.lt_succ_of_lt shorter
    · exact noEscape

theorem expressionRules_progress {α : Type} {atof : CString → α} {rule : Rule UInt8 (LexAction α)}
    (member : rule ∈ expressionRules atof) (isMatch : rule.longest text = some count) : 0 < count ∧ text ≠ [] := by
  rcases mem_append.mp member with inWords | inOthers
  · obtain ⟨word, isWord, rfl⟩ := List.mem_map.mp inWords
    have notEmpty : ∀ word ∈ fixedWords α, ascii word.1 ≠ [] := by simp [fixedWords, ascii]
    exact wordRule_progress (notEmpty word isWord) isMatch
  · rcases mem_append.mp inOthers with inSpecial | inPatterns
    · obtain ⟨word, isWord, rfl⟩ := List.mem_map.mp inSpecial
      have notEmpty : ∀ word ∈ specialBindings α, ascii word.1 ≠ [] := by simp [specialBindings, ascii]
      exact wordRule_progress (notEmpty word isWord) isMatch
    · exact patternRules_progress rule inPatterns isMatch

theorem msyylex_nil {α : Type} (atof : CString → α) : msyylex atof [] = (.finish, []) := by
  rw [msyylex, dropWhile_nil]
  split
  · rename_i count action isChosen
    obtain ⟨rule, member, isMatch, _⟩ := chosen_eq_some isChosen
    exact absurd rfl (expressionRules_progress member isMatch).2
  · rfl

theorem msyylex_shorter {α : Type} {atof : CString → α} {lexeme : Lexeme α}
    (isLexeme : msyylex atof text = (lexeme, rest)) (goesOn : lexeme ≠ .finish) : rest.length < text.length := by
  have blanks := (text.dropWhile_suffix isBlank).length_le
  unfold msyylex at isLexeme
  dsimp only at isLexeme
  split at isLexeme
  · rename_i count action isChosen
    obtain ⟨rule, member, isMatch, rfl⟩ := chosen_eq_some isChosen
    have progress := expressionRules_progress member isMatch
    have front := length_pos_iff.mpr progress.2
    have dropped := length_drop (l := text.dropWhile isBlank) (i := count)
    generalize rule.action _ = action at isLexeme
    cases action with
    | returns returned =>
      cases isLexeme
      omega
    | beginString quote =>
      rw [LexAction.run] at isLexeme
      split at isLexeme
      · rename_i buffer others isRead
        cases isLexeme
        have shorter := readString_shorter isRead
        dsimp only at shorter
        omega
      · cases isLexeme
        exact absurd rfl goesOn
  · cases isLexeme
    exact absurd rfl goesOn

section Loop
variable {α Time Shape : Type} (readers : TokenReaders α Time Shape)

theorem fromTextToken_shorter {text rest : CString} {token : Token α Time Shape}
    (isToken : fromTextToken readers text = some (token, rest)) : rest.length ≤ text.length := by
  unfold fromTextToken at isToken
  split at isToken
  · rename_i opened isOpened
    split at isToken
    · rename_i wkt others isString
      split at isToken
      · rename_i shpval after isShape isClosed
        cases isToken
        have first := msyylex_shorter isOpened (by simp)
        have second := msyylex_shorter isString (by simp)
        have third := msyylex_shorter isClosed (by simp)
        omega
      · cases isToken
    · cases isToken
  · cases isToken

theorem tokenOf_shorter {lexeme : Lexeme α} {text rest : CString} {token : Token α Time Shape}
    (isToken : tokenOf readers lexeme text = some (token, rest)) : rest.length ≤ text.length := by
  unfold tokenOf at isToken
  split at isToken
  case h_2 => exact fromTextToken_shorter readers isToken
  case h_7 =>
    obtain ⟨tmval, _, same⟩ := map_eq_some_iff.mp isToken
    cases same
    exact Nat.le_refl _
  all_goals
    cases isToken
    try exact Nat.le_refl _

/-- One round of the loop of `msTokenizeExpression`: nothing at the end of the text, and within that nothing at an error. -/
def nextToken (text : CString) : Option (Option (Token α Time Shape × CString)) :=
  match msyylex readers.atof text with
  | (.finish, _) => none
  | (lexeme, rest) => some (tokenOf readers lexeme rest)

theorem nextToken_shorter : Shortens (nextToken readers) := by
  intro text rest token isNext
  unfold nextToken at isNext
  split at isNext
  · cases isNext
  · rename_i lexeme others goesOn isLexeme
    have isToken := Option.some.inj isNext
    have shorter := msyylex_shorter isLexeme (fun same => goesOn (by rw [same]))
    have after := tokenOf_shorter readers isToken
    omega

def readTokens (text : CString) : List (Token α Time Shape) × Bool :=
  scan (nextToken readers) (nextToken_shorter readers) text

end Loop

end MapServer
