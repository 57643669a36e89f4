import MapServer.Expr.Tokens
import MapServer.Filter.CommonExpression

namespace MapServer
open Lib.Scanner List Option Function
open Lib.Quoting (encode)

theorem skipLexMantissa_of_skipMantissa {text rest : CString} (skipped : skipMantissa isdigit text = some rest) :
    skipLexMantissa text = some rest := by
  unfold skipLexMantissa
  split
  · rename_i fraction point
    simp only [skipMantissa, point] at skipped
    split at skipped
    · cases skipped
    · exact skipped
  · rename_i noPoint
    unfold skipMantissa at skipped
    split at skipped
    · rename_i point
      exact absurd point (noPoint _)
    · exact skipped

theorem skipNumber_none {c : UInt8} (noDigit : isdigit c = false) (noMinus : c ≠ 45) (noPoint : c ≠ 46)
    (text : CString) : skipNumber (c :: text) = none := by
  have noNumber := longestNumber_none noDigit noMinus noPoint text
  rwa [longestNumber, map_eq_none_iff] at noNumber

theorem skipLexMantissa_none {c : UInt8} (noDigit : isdigit c = false) (noPoint : c ≠ 46) (text : CString) :
    skipLexMantissa (c :: text) = none := by
  rw [skipLexMantissa, dropWhile_cons_of_neg (by simp [noDigit]), takeWhile_cons_of_neg (by simp [noDigit])]
  split
  · rename_i same
    cases same
    exact absurd rfl noPoint
  · rfl

theorem tolower_of_digit {c : UInt8} (digit : isdigit c = true) : tolower c = c := by
  simp only [isdigit, Bool.and_eq_true, decide_eq_true_eq, UInt8.le_iff_toNat_le] at digit
  apply if_neg
  rintro ⟨low, _⟩
  rw [UInt8.le_iff_toNat_le] at low
  simp only [UInt8.toNat_ofNat] at digit low
  omega

theorem hexLetter {x : UInt8} (hex : tolower x = 120) : isdigit x = false ∧ x ≠ 46 ∧ isPlainCharacter x = true := by
  have letter : x = 120 ∨ x = 88 := by
    unfold tolower at hex
    split at hex
    · right
      apply UInt8.toNat_inj.mp
      have value := congrArg UInt8.toNat hex
      rename_i capital
      have low := UInt8.le_iff_toNat_le.mp capital.1
      have high := UInt8.le_iff_toNat_le.mp capital.2
      simp only [UInt8.toNat_add, UInt8.toNat_ofNat] at value low high ⊢
      omega
    · exact Or.inl hex
  rcases letter with rfl | rfl <;> decide

theorem unsigned_cases {text tail : CString} (numeric : skipUnsigned text = some []) :
    (skipLexMantissa text).map (skipExponent 101) = some [] ∨ skipLexMantissa (text ++ tail) = none ∨
      ∃ x hex, tolower x = 120 ∧ (skipLexMantissa (text ++ tail)).map (skipExponent 101) = some (x :: hex) := by
  have decimal (isDecimal : skipDecimal text = some []) :
      (skipLexMantissa text).map (skipExponent 101) = some [] := by
    obtain ⟨mantissa, isMantissa, skipped⟩ := map_eq_some_iff.mp isDecimal
    rw [skipLexMantissa_of_skipMantissa isMantissa, map_some, skipped]
  cases text with
  | nil =>
    simp [skipUnsigned, ascii, skipDecimal, skipMantissa] at numeric
  | cons c text =>
    by_cases start : isdigit c = true ∨ c = 46
    · have notLetter : tolower c ≠ 105 ∧ tolower c ≠ 110 := by
        rcases start with digit | rfl
        · rw [tolower_of_digit digit]
          constructor <;> rintro rfl <;> cases digit
        · decide
      have words : ((c :: text).take 8).map tolower ≠ ascii "infinity" ∧ ((c :: text).take 3).map tolower ≠ ascii "inf" ∧
          ((c :: text).take 3).map tolower ≠ ascii "nan" := by
        simp [ascii, notLetter.1, notLetter.2]
      unfold skipUnsigned at numeric
      rw [if_neg words.1, if_neg words.2.1, if_neg words.2.2] at numeric
      split at numeric
      · rename_i x hex same
        split at numeric
        · rename_i isHex
          obtain ⟨noDigit, noPoint, _⟩ := hexLetter isHex
          right
          right
          refine ⟨x, hex ++ tail, isHex, ?_⟩
          have mantissa : skipLexMantissa (48 :: x :: (hex ++ tail)) = some (x :: (hex ++ tail)) := by
            rw [skipLexMantissa, dropWhile_cons_of_pos (by rfl), dropWhile_cons_of_neg (by simp [noDigit]),
              takeWhile_cons_of_pos (by rfl)]
            split
            · rename_i point
              exact absurd (head_eq_of_cons_eq point) noPoint
            · rfl
          have noExponent : ¬ (tolower x = 101 ∧ (skipSign (hex ++ tail)).takeWhile isdigit ≠ []) := by
            rw [isHex]
            simp
          rw [same, cons_append, cons_append, mantissa, map_some, skipExponent, if_neg noExponent]
        · exact Or.inl (decimal numeric)
      · exact Or.inl (decimal numeric)
    · rw [not_or] at start
      exact Or.inr (Or.inl (skipLexMantissa_none (Bool.eq_false_iff.mpr start.1) start.2 _))

theorem numeric_cases {text : CString} (numeric : FLTIsNumeric text = true) (tail : CString) :
    skipNumber text = some [] ∨ skipNumber (text ++ tail) = none ∨
      ∃ x hex, tolower x = 120 ∧ skipNumber (text ++ tail) = some (x :: hex) := by
  cases text with
  | nil => cases numeric
  | cons c text =>
    rw [FLTIsNumeric, Bool.and_eq_true, Bool.not_eq_true', decide_eq_true_eq, strtodEnd] at numeric
    obtain ⟨noSpace, numeric⟩ := numeric
    rw [dropWhile_cons_of_neg (by simp [noSpace])] at numeric
    by_cases plus : c = 43
    · subst c
      exact Or.inr (Or.inl (skipNumber_none (by decide) (by decide) (by decide) _))
    · have signs : skipMinus (c :: text) = skipSign (c :: text) := by
        unfold skipMinus skipSign
        split
        · rename_i same
          cases same
          rfl
        · rename_i noMinus
          split
          · rename_i same
            cases same
            exact absurd rfl plus
          · rename_i same
            exact absurd same (noMinus _)
          · rfl
      rw [skipNumber, skipNumber, skipMinus_append (cons_ne_nil c text), signs]
      rcases unsigned_cases numeric with whole | noMantissa | hexadecimal
      · exact Or.inl whole
      · exact Or.inr (Or.inl (by rw [noMantissa, map_none]))
      · exact Or.inr (Or.inr hexadecimal)

section Intended
variable {α Time Shape : Type} (readers : TokenReaders α Time Shape)

def bindingToken (kind : ValueKind) (name : CString) : Token α Time Shape :=
  if kind = .string then .MS_TOKEN_BINDING_STRING name else .MS_TOKEN_BINDING_DOUBLE name

def literalToken (kind : ValueKind) (literal : CString) : Option (Token α Time Shape) :=
  match kind with
  | .string => some (.MS_TOKEN_LITERAL_STRING literal)
  | .dateTime => (readers.msParseTime literal).map (.MS_TOKEN_LITERAL_TIME literal)
  | .number => if FLTIsNumeric literal then some (.MS_TOKEN_LITERAL_NUMBER (readers.atof literal)) else none

def LiteralFits (escapes : UInt8 → Bool) (kind : ValueKind) (literal : CString) : Prop :=
  match kind with
  | .string => ReadsBack 34 escapes literal
  | .dateTime => ReadsBackTime literal ∧ readers.msParseTime literal ≠ none
  | .number => FLTIsNumeric literal = true ∧ skipNumber literal = some []

def NameFits (kind : ValueKind) (name : CString) : Prop := kind = .string ∨ isSpecialName name = false

end Intended

section Values
variable {α Time Shape : Type} {readers : TokenReaders α Time Shape}

theorem FLTEscapePropertyName_eq (pszStr : CString) (chEscapeChar : UInt8) :
    FLTEscapePropertyName pszStr chEscapeChar = encode chEscapeChar pszStr := by
  apply flatMap_congr
  intro c _
  split
  · rename_i same
    rw [same]
  · rfl

theorem msStdStringEscape_eq (pszString : CString) : msStdStringEscape pszString = escaped stringQuote pszString := by
  simp [msStdStringEscape, escaped, stringQuote]

theorem tokens_attribute {kind : ValueKind} {name rest : CString} {tokens : List (Token α Time Shape)} :
    Tokens readers (kind.opening ++ (FLTEscapePropertyName name kind.escape ++ (kind.closing ++ rest)))
        (bindingToken kind name :: tokens) ↔ NameFits kind name ∧ Tokens readers rest tokens := by
  have blank : isBlank 32 = true := rfl
  rw [FLTEscapePropertyName_eq]
  by_cases isString : kind = .string
  · subst kind
    have step := @tokens_quotedBinding α Time Shape readers 34 rfl name (32 :: rest) (by simp) tokens
    rw [tokens_blank blank] at step
    simpa [NameFits, ValueKind.opening, ValueKind.closing, ValueKind.escape, bindingToken, ascii] using step
  · have step := @tokens_bracket α Time Shape readers name (32 :: rest) (by simp) tokens
    rw [tokens_blank blank] at step
    simpa [NameFits, isString, ValueKind.opening, ValueKind.closing, ValueKind.escape, bindingToken, ascii] using step

theorem tokens_attribute_raw {kind : ValueKind} {name rest : CString} {tokens : List (Token α Time Shape)} :
    Tokens readers (kind.opening ++ (name ++ (kind.closing ++ rest))) (bindingToken kind name :: tokens) ↔
      (kind.escape ∉ name ∧ NameFits kind name) ∧ Tokens readers rest tokens := by
  have blank : isBlank 32 = true := rfl
  by_cases isString : kind = .string
  · subst kind
    have step := @tokens_quotedBinding_raw α Time Shape readers 34 rfl name (32 :: rest) (by simp) tokens
    rw [tokens_blank blank] at step
    simpa [NameFits, ValueKind.opening, ValueKind.closing, ValueKind.escape, bindingToken, ascii] using step
  · have step := @tokens_bracket_raw α Time Shape readers name (32 :: rest) (by simp) tokens
    rw [tokens_blank blank] at step
    simpa [NameFits, isString, ValueKind.opening, ValueKind.closing, ValueKind.escape, bindingToken, ascii] using step

structure ValueTail (kind : ValueKind) (tail : CString) : Prop where
  starts : ∃ c rest, tail = c :: rest ∧ (c = 41 ∨ c = 32)
  noBinding : kind = .string → bracketed 93 34 tail = none

theorem ValueTail.endsNumber {kind : ValueKind} {tail : CString} (isTail : ValueTail kind tail) : EndsNumber tail := by
  obtain ⟨c, rest, rfl, start⟩ := isTail.starts
  intro d head
  cases head
  rcases start with rfl | rfl <;> decide

theorem ValueTail.boundary {kind : ValueKind} {tail : CString} (isTail : ValueTail kind tail) :
    tail.head? ≠ some 34 ∧ tail.head? ≠ some 96 ∧ skipI tail = tail := by
  obtain ⟨c, rest, rfl, start⟩ := isTail.starts
  rcases start with rfl | rfl <;> simp [skipI, tolower]

theorem tokens_numeric {text tail : CString} (ends : EndsNumber tail) (numeric : FLTIsNumeric text = true)
    {next : Token α Time Shape} (noHex : ∀ x, tolower x = 120 → next ≠ .character x)
    {tokens : List (Token α Time Shape)} :
    Tokens readers (text ++ tail) (.MS_TOKEN_LITERAL_NUMBER (readers.atof text) :: next :: tokens) ↔
      skipNumber text = some [] ∧ Tokens readers tail (next :: tokens) := by
  constructor
  · intro isTokens
    rcases numeric_cases numeric tail with number | noNumber | ⟨x, hex, isHex, number⟩
    · exact ⟨number, (tokens_number number ends).mp isTokens⟩
    · obtain ⟨rest, isNext, _⟩ := tokens_cons.mp isTokens
      obtain ⟨isLexeme, _⟩ := nextToken_lexeme isNext (by simp)
      cases text with
      | nil => cases numeric
      | cons c text =>
        have noBlank : isBlank c = false := by
          rw [FLTIsNumeric, Bool.and_eq_true, Bool.not_eq_true'] at numeric
          cases blank : isBlank c with
          | false => rfl
          | true =>
            simp only [isBlank, Bool.or_eq_true, beq_iff_eq] at blank
            rcases blank with (rfl | rfl) | rfl <;> cases numeric.1
        rw [cons_append] at noNumber isLexeme
        obtain ⟨count, isMatch⟩ := msyylex_pattern readers.atof noBlank isLexeme (by simp [tokenLexeme]) rfl
        rw [tokenLexeme, lexemePattern, longestNumber, noNumber] at isMatch
        cases isMatch
    · rw [tokens_cons] at isTokens
      obtain ⟨rest, isNext, others⟩ := isTokens
      obtain ⟨isLexeme, _⟩ := nextToken_lexeme isNext (by simp)
      rw [msyylex_number readers.atof number, Prod.mk.injEq] at isLexeme
      obtain ⟨_, rfl⟩ := isLexeme
      obtain ⟨after, isNext, _⟩ := tokens_cons.mp others
      rw [nextToken_plain (msyylex_character readers.atof (hexLetter isHex).2.2 hex) rfl] at isNext
      cases isNext
      exact absurd rfl (noHex x isHex)
  · rintro ⟨number, isTokens⟩
    exact (tokens_number number ends).mpr isTokens

theorem numeric_noQuotes {text : CString} (numeric : FLTIsNumeric text = true) : ∀ c ∈ text, stringQuote c = false := by
  obtain ⟨used, chars, rfl, number, parentheses⟩ := FLTIsNumeric_chars numeric
  have plain (c : UInt8) (isNumber : isNumberChar c = true) : stringQuote c = false := by
    cases quoted : stringQuote c with
    | false => rfl
    | true =>
      rw [stringQuote, Bool.or_eq_true, beq_iff_eq, beq_iff_eq] at quoted
      rcases quoted with rfl | rfl <;> cases isNumber
  intro c member
  rcases mem_append.mp member with inUsed | inChars
  · exact plain c (number c inUsed)
  · rcases parentheses with rfl | ⟨inner, rfl, isInner⟩
    · cases inChars
    · rw [cons_append, mem_cons, mem_append, mem_singleton] at inChars
      rcases inChars with rfl | inInner | rfl
      · rfl
      · exact plain c (isInner c inInner)
      · rfl

theorem tokens_value {escapes : UInt8 → Bool} (onlyQuotes : ∀ c, escapes c = true → stringQuote c = true)
    {kind : ValueKind} (dates : kind = .dateTime → escapes = stringQuote) {literal tail : CString}
    (isTail : ValueTail kind tail) {token next : Token α Time Shape} (isToken : literalToken readers kind literal = some token)
    (noHex : ∀ x, tolower x = 120 → next ≠ .character x) {tokens : List (Token α Time Shape)} :
    Tokens readers (kind.quote ++ (escaped escapes literal ++ (kind.quote ++ tail))) (token :: next :: tokens) ↔
      LiteralFits readers escapes kind literal ∧ Tokens readers tail (next :: tokens) := by
  obtain ⟨noQuote, noBacktick, noI⟩ := isTail.boundary
  cases kind with
  | string =>
    cases isToken
    have step := @tokens_string α Time Shape readers 34 rfl escapes onlyQuotes literal tail noQuote (isTail.noBinding rfl)
      (next :: tokens)
    rw [noI] at step
    exact step
  | dateTime =>
    obtain ⟨tmval, parsed, rfl⟩ := map_eq_some_iff.mp isToken
    have step := @tokens_time α Time Shape readers literal tail noBacktick tmval (next :: tokens)
    rw [dates rfl]
    rw [LiteralFits, parsed]
    simpa [parsed, ValueKind.quote, ascii] using step
  | number =>
    rw [literalToken] at isToken
    split at isToken
    · rename_i numeric
      cases isToken
      have plain : escaped escapes literal = literal := by
        apply escaped_eq_self_iff.mpr
        intro c member
        apply Bool.eq_false_iff.mpr
        intro isEscaped
        have noQuotes := numeric_noQuotes numeric c member
        rw [onlyQuotes c isEscaped] at noQuotes
        cases noQuotes
      rw [plain, LiteralFits]
      have step := @tokens_numeric α Time Shape readers literal tail isTail.endsNumber numeric next noHex tokens
      simpa [ValueKind.quote, numeric] using step
    · cases isToken

end Values

section Comparisons
variable {α Time Shape : Type} (readers : TokenReaders α Time Shape)

def comparisonTokens (kind : ValueKind) (name : CString) (code : TokenCode) (literal : CString) :
    Option (List (Token α Time Shape)) :=
  (literalToken readers kind literal).map fun value =>
    [.character 40, bindingToken kind name, .code code, value, .character 41]

def betweenTokens (kind : ValueKind) (name low high : CString) : Option (List (Token α Time Shape)) :=
  match literalToken readers kind low, literalToken readers kind high with
  | some lowToken, some highToken =>
    some [.character 40, bindingToken kind name, .code .MS_TOKEN_COMPARISON_GE, lowToken, .code .MS_TOKEN_LOGICAL_AND,
      bindingToken kind name, .code .MS_TOKEN_COMPARISON_LE, highToken, .character 41]
  | _, _ => none

variable {readers}

theorem literalFits_isToken {escapes : UInt8 → Bool} {kind : ValueKind} {literal : CString}
    (fits : LiteralFits readers escapes kind literal) : ∃ token, literalToken readers kind literal = some token := by
  cases kind with
  | string => exact ⟨_, rfl⟩
  | dateTime =>
    obtain ⟨tmval, parsed⟩ := ne_none_iff_exists'.mp fits.2
    exact ⟨_, by rw [literalToken, parsed, map_some]⟩
  | number => exact ⟨_, by rw [literalToken, if_pos fits.1]⟩

theorem tokens_operator {pszOp : CString} {word : String} {code : TokenCode} (member : (word, .code code) ∈ fixedWords α)
    (same : sameIgnoringCase pszOp (ascii word) = true) (other : code ≠ .MS_TOKEN_FUNCTION_FROMTEXT) {rest : CString}
    {tokens : List (Token α Time Shape)} :
    Tokens readers (pszOp ++ 32 :: rest) (.code code :: tokens) ↔ Tokens readers rest tokens :=
  tokens_word member same (by rw [plainToken, if_neg other])

theorem noHex_finish (x : UInt8) (hex : tolower x = 120) : (.character 41 : Token α Time Shape) ≠ .character x := by
  intro same
  cases same
  cases hex

theorem noHex_code {code : TokenCode} (x : UInt8) (_ : tolower x = 120) : (.code code : Token α Time Shape) ≠ .character x := by
  intro same
  cases same

theorem valueTail_finish (kind : ValueKind) : ValueTail kind (ascii ")") where
  starts := ⟨41, [], by simp [ascii], Or.inl rfl⟩
  noBinding _ := by simp [ascii, bracketed]

theorem comparison_tokens_iff {kind : ValueKind} {name pszOp literal : CString} {word : String} {code : TokenCode}
    (member : (word, .code code) ∈ fixedWords α) (same : sameIgnoringCase pszOp (ascii word) = true)
    (other : code ≠ .MS_TOKEN_FUNCTION_FROMTEXT) :
    (∃ tokens, comparisonTokens readers kind name code literal = some tokens ∧
      Tokens readers (ascii "(" ++ kind.opening ++ FLTEscapePropertyName name kind.escape ++ kind.closing ++ pszOp ++
        ascii " " ++ kind.quote ++ msStdStringEscape literal ++ kind.quote ++ ascii ")") tokens) ↔
      NameFits kind name ∧ LiteralFits readers stringQuote kind literal := by
  have opened : ascii "(" = [40] := by simp [ascii]
  have blank : ascii " " = [32] := by simp [ascii]
  have closed : ascii ")" = [41] := by simp [ascii]
  have reads (token : Token α Time Shape) (isToken : literalToken readers kind literal = some token) :
      Tokens readers (ascii "(" ++ kind.opening ++ FLTEscapePropertyName name kind.escape ++ kind.closing ++ pszOp ++
        ascii " " ++ kind.quote ++ msStdStringEscape literal ++ kind.quote ++ ascii ")")
        [.character 40, bindingToken kind name, .code code, token, .character 41] ↔
      NameFits kind name ∧ LiteralFits readers stringQuote kind literal := by
    have value : Tokens readers (kind.quote ++ (escaped stringQuote literal ++ (kind.quote ++ ascii ")")))
        [token, .character 41] ↔ _ :=
      tokens_value (fun _ quoted => quoted) (fun _ => rfl) (valueTail_finish kind) isToken noHex_finish
    have finish : Tokens readers (ascii ")") [.character 41] := by
      rw [closed]
      exact (tokens_character (by decide)).mpr tokens_nil
    simp only [append_assoc, opened, blank, cons_append, nil_append]
    rw [tokens_character (by decide), tokens_attribute, tokens_operator member same other, msStdStringEscape_eq, value,
      and_iff_left finish]
  rw [comparisonTokens]
  constructor
  · rintro ⟨tokens, isTokens, read⟩
    obtain ⟨token, isToken, rfl⟩ := map_eq_some_iff.mp isTokens
    exact (reads token isToken).mp read
  · intro fits
    obtain ⟨token, isToken⟩ := literalFits_isToken fits.2
    exact ⟨_, by rw [isToken, map_some], (reads token isToken).mpr fits⟩

theorem valueTail_and (kind : ValueKind) (rest : CString) :
    ValueTail kind (ascii " AND " ++ (ascii " " ++ (kind.opening ++ rest))) where
  starts := ⟨32, ascii "AND " ++ (ascii " " ++ (kind.opening ++ rest)), by simp [ascii], Or.inr rfl⟩
  noBinding isString := by
    have noMatch : bracketed 93 34 ([32, 65, 78, 68, 32, 32] ++ 34 :: (91 :: rest)) = none :=
      bracketed_none (by decide) (by decide) (by simp)
    simpa [isString, ValueKind.opening, ascii] using noMatch

theorem between_tokens_iff {kind : ValueKind} {name low high : CString} :
    (∃ tokens, betweenTokens readers kind name low high = some tokens ∧
      Tokens readers (ascii "(" ++ kind.opening ++ FLTEscapePropertyName name kind.escape ++ kind.closing ++ ascii " >= " ++
        kind.quote ++ msStdStringEscape low ++ kind.quote ++ ascii " AND " ++ ascii " " ++ kind.opening ++ name ++
        kind.closing ++ ascii " <= " ++ kind.quote ++ msStdStringEscape high ++ kind.quote ++ ascii ")") tokens) ↔
      (NameFits kind name ∧ kind.escape ∉ name) ∧ LiteralFits readers stringQuote kind low ∧
        LiteralFits readers stringQuote kind high := by
  have isBlank32 : isBlank 32 = true := rfl
  have isGreater : (">=", .code .MS_TOKEN_COMPARISON_GE) ∈ fixedWords α := by simp [fixedWords]
  have isLess : ("<=", .code .MS_TOKEN_COMPARISON_LE) ∈ fixedWords α := by simp [fixedWords]
  have isAnd : ("and", .code .MS_TOKEN_LOGICAL_AND) ∈ fixedWords α := by simp [fixedWords]
  have opened : ascii "(" = [40] := by simp [ascii]
  have blank : ascii " " = [32] := by simp [ascii]
  have closed : ascii ")" = [41] := by simp [ascii]
  have greater : ascii " >= " = 32 :: (ascii ">=" ++ [32]) := by simp [ascii]
  have less : ascii " <= " = 32 :: (ascii "<=" ++ [32]) := by simp [ascii]
  have conjunction : ascii " AND " = 32 :: (ascii "AND" ++ [32]) := by simp [ascii]
  have reads (lowToken highToken : Token α Time Shape) (isLow : literalToken readers kind low = some lowToken)
      (isHigh : literalToken readers kind high = some highToken) :
      Tokens readers (ascii "(" ++ kind.opening ++ FLTEscapePropertyName name kind.escape ++ kind.closing ++ ascii " >= " ++
        kind.quote ++ msStdStringEscape low ++ kind.quote ++ ascii " AND " ++ ascii " " ++ kind.opening ++ name ++
        kind.closing ++ ascii " <= " ++ kind.quote ++ msStdStringEscape high ++ kind.quote ++ ascii ")")
        [.character 40, bindingToken kind name, .code .MS_TOKEN_COMPARISON_GE, lowToken, .code .MS_TOKEN_LOGICAL_AND,
          bindingToken kind name, .code .MS_TOKEN_COMPARISON_LE, highToken, .character 41] ↔
      (NameFits kind name ∧ kind.escape ∉ name) ∧ LiteralFits readers stringQuote kind low ∧
        LiteralFits readers stringQuote kind high := by
    have second : Tokens readers (kind.quote ++ (escaped stringQuote high ++ (kind.quote ++ ascii ")")))
        [highToken, .character 41] ↔ _ :=
      tokens_value (fun _ quoted => quoted) (fun _ => rfl) (valueTail_finish kind) isHigh noHex_finish
    have first : Tokens readers (kind.quote ++ (escaped stringQuote low ++ (kind.quote ++ (ascii " AND " ++ (ascii " " ++
        (kind.opening ++ (name ++ (kind.closing ++ (ascii " <= " ++ (kind.quote ++ (escaped stringQuote high ++
          (kind.quote ++ ascii ")"))))))))))))
        (lowToken :: .code .MS_TOKEN_LOGICAL_AND :: [bindingToken kind name, .code .MS_TOKEN_COMPARISON_LE, highToken,
          .character 41]) ↔ _ :=
      tokens_value (fun _ quoted => quoted) (fun _ => rfl) (valueTail_and kind _) isLow noHex_code
    have finish : Tokens readers (ascii ")") [.character 41] := by
      rw [closed]
      exact (tokens_character (by decide)).mpr tokens_nil
    simp only [append_assoc, opened, cons_append, nil_append]
    rw [tokens_character (by decide), tokens_attribute, greater]
    simp only [append_assoc, cons_append, nil_append]
    rw [tokens_blank isBlank32, tokens_operator isGreater (by simp) (by simp),
      msStdStringEscape_eq, msStdStringEscape_eq, first, conjunction]
    simp only [append_assoc, cons_append, nil_append]
    rw [tokens_blank isBlank32, tokens_operator isAnd (by simp [ascii, sameIgnoringCase, tolower]) (by simp), blank]
    simp only [cons_append, nil_append]
    rw [tokens_blank isBlank32, tokens_attribute_raw, less]
    simp only [append_assoc, cons_append, nil_append]
    rw [tokens_blank isBlank32, tokens_operator isLess (by simp) (by simp), second, and_iff_left finish]
    tauto
  constructor
  · rintro ⟨tokens, isTokens, read⟩
    rw [betweenTokens] at isTokens
    split at isTokens
    · rename_i lowToken highToken isLow isHigh
      cases isTokens
      exact (reads lowToken highToken isLow isHigh).mp read
    · cases isTokens
  · intro fits
    obtain ⟨lowToken, isLow⟩ := literalFits_isToken fits.2.1
    obtain ⟨highToken, isHigh⟩ := literalFits_isToken fits.2.2
    refine ⟨_, ?_, (reads lowToken highToken isLow isHigh).mpr fits⟩
    rw [betweenTokens, isLow, isHigh]

end Comparisons

section Patterns

def regexChar (c : UInt8) : CString := if (ascii "\\^$\x7b[().*+?|").contains c then [92, c] else [c]

def likeRegex (pszWild pszSingle pszEscape : UInt8) (pszValue : CString) : CString :=
  anchored pszValue (likeLoop regexChar pszWild pszSingle pszEscape pszValue)

def ReadsAs (text value : CString) : Prop :=
  ∀ tail, readString 34 (text ++ tail) = (readString 34 tail).map fun read => (value ++ read.1, read.2)

theorem ReadsAs.nil : ReadsAs [] [] := fun tail => by simp

theorem ReadsAs.append {first second firstValue secondValue : CString} (reads : ReadsAs first firstValue)
    (next : ReadsAs second secondValue) : ReadsAs (first ++ second) (firstValue ++ secondValue) := by
  intro tail
  rw [append_assoc, reads, next, Option.map_map]
  simp [comp_def]

theorem readsAs_plain {c : UInt8} (notBackslash : c ≠ 92) (notQuote : c ≠ 34) : ReadsAs [c] [c] :=
  fun tail => readString_plain notBackslash notQuote tail

theorem readsAs_pair {c : UInt8} (pair : (stringQuote c || c == 92) = true) : ReadsAs [92, c] [c] :=
  fun tail => readString_pair pair tail

theorem readsAs_backslash {c : UInt8} (single : (stringQuote c || c == 92) = false) : ReadsAs [92, c] [92, c] := by
  intro tail
  rw [Bool.or_eq_false_iff, beq_eq_false_iff_ne] at single
  have notQuote : c ≠ 34 := by
    rintro rfl
    cases single.1
  change readString 34 (92 :: c :: tail) = _
  rw [readString_backslash (by simp [single]), readString_plain single.2 notQuote, Option.map_map]
  rfl

theorem specialChars_eq : pszRegexSpecialCharsAndDoubleQuote = ascii "\\^$\x7b[().*+?|" ++ [34] := by
  simp [pszRegexSpecialCharsAndDoubleQuote, ascii]

theorem likeChar_readsAs (c : UInt8) : ReadsAs (likeChar c) (regexChar c) := by
  by_cases backslash : c = 92
  · subst c
    exact ReadsAs.append (readsAs_pair rfl) (readsAs_pair rfl)
  · by_cases double : c = 34
    · subst c
      have escapes : likeChar 34 = [92, 34] := by simp [likeChar, pszRegexSpecialCharsAndDoubleQuote, ascii]
      have plain : regexChar 34 = [34] := by simp [regexChar, ascii]
      rw [escapes, plain]
      exact readsAs_pair rfl
    · by_cases special : c ∈ ascii "\\^$\x7b[().*+?|"
      · have notSingle : c ≠ 39 := by
          rintro rfl
          simp [ascii] at special
        have isSpecial : c ∈ pszRegexSpecialCharsAndDoubleQuote := by simp [specialChars_eq, special]
        have escapes : likeChar c = [92, c] := by simp [likeChar, backslash, isSpecial]
        have escaped : regexChar c = [92, c] := by simp [regexChar, special]
        rw [escapes, escaped]
        apply readsAs_backslash
        simp [stringQuote, double, notSingle, backslash]
      · have plain : likeChar c = [c] := by
          have notSpecial : c ∉ pszRegexSpecialCharsAndDoubleQuote := by
            simp [specialChars_eq, special, double]
          simp [likeChar, backslash, notSpecial]
        have same : regexChar c = [c] := by simp [regexChar, special]
        rw [plain, same]
        exact readsAs_plain backslash double

theorem likeLoop_readsAs (pszWild pszSingle pszEscape : UInt8) (pszValue : CString) :
    ReadsAs (likeLoop likeChar pszWild pszSingle pszEscape pszValue) (likeLoop regexChar pszWild pszSingle pszEscape pszValue) := by
  have point : ReadsAs [46] [46] := readsAs_plain (by decide) (by decide)
  have any : ReadsAs [46, 42] [46, 42] := point.append (readsAs_plain (by decide) (by decide))
  induction pszValue using likeLoop.induct pszWild pszSingle pszEscape with
  | case1 => exact ReadsAs.nil
  | case2 =>
    simp only [likeLoop, if_true]
    exact point
  | case3 notSingle =>
    simp only [likeLoop, if_neg notSingle, if_true]
    exact any
  | case4 c notSingle notWild =>
    simp only [likeLoop, if_neg notSingle, if_neg notWild]
    exact likeChar_readsAs c
  | case5 next rest ih =>
    simp only [likeLoop, if_true]
    exact point.append ih
  | case6 c next rest notSingle escape ih =>
    simp only [likeLoop, if_neg notSingle, if_pos escape]
    exact (likeChar_readsAs next).append ih
  | case7 next rest notSingle noEscape ih =>
    simp only [likeLoop, if_neg notSingle, if_neg noEscape, if_true]
    exact any.append ih
  | case8 c next rest notSingle noEscape notWild ih =>
    simp only [likeLoop, if_neg notSingle, if_neg noEscape, if_neg notWild]
    exact (likeChar_readsAs c).append ih

theorem anchored_readsAs {pszValue text value : CString} (reads : ReadsAs text value) :
    ReadsAs (anchored pszValue text) (anchored pszValue value) := by
  unfold anchored
  split
  · exact reads
  · have start : ReadsAs [94] [94] := readsAs_plain (by decide) (by decide)
    exact start.append (reads.append (readsAs_plain (by decide) (by decide)))

theorem anchored_head {write : UInt8 → CString} {pszWild pszSingle pszEscape : UInt8} (pszValue tail : CString) :
    ∃ c rest, anchored pszValue (likeLoop write pszWild pszSingle pszEscape pszValue) ++ 34 :: tail = c :: rest ∧ c ≠ 91 := by
  unfold anchored
  split
  · rename_i empty
    subst empty
    exact ⟨34, tail, rfl, by decide⟩
  · exact ⟨94, _, rfl, by decide⟩

theorem like_tokens {α Time Shape : Type} {readers : TokenReaders α Time Shape} (pszWild pszSingle pszEscape : UInt8)
    (name pszValue : CString) {pszOp : CString} {code : TokenCode} (other : code ≠ .MS_TOKEN_FUNCTION_FROMTEXT) {word : String}
    (member : (word, .code code) ∈ fixedWords α) (same : sameIgnoringCase pszOp (ascii word) = true) :
    Tokens readers (40 :: 34 :: 91 :: (FLTEscapePropertyName name 34 ++ 93 :: 34 :: 32 :: (pszOp ++ 32 :: 34 ::
        (msGetLikePatternAsRegex pszWild pszSingle pszEscape pszValue ++ [34, 41]))))
      [.character 40, .MS_TOKEN_BINDING_STRING name, .code code,
        .MS_TOKEN_LITERAL_STRING (likeRegex pszWild pszSingle pszEscape pszValue), .character 41] := by
  have isBlank32 : isBlank 32 = true := rfl
  obtain ⟨c, rest, start, notOpen⟩ := @anchored_head likeChar pszWild pszSingle pszEscape pszValue [41]
  have isRead := (anchored_readsAs (likeLoop_readsAs pszWild pszSingle pszEscape pszValue) : ReadsAs (anchored pszValue _) _) [34, 41]
  have lexeme : msyylex readers.atof (34 :: (msGetLikePatternAsRegex pszWild pszSingle pszEscape pszValue ++ [34, 41])) =
      (.MS_TOKEN_LITERAL_STRING (likeRegex pszWild pszSingle pszEscape pszValue), [41]) := by
    have noBinding : longestQuotedBinding stringQuote (34 :: (msGetLikePatternAsRegex pszWild pszSingle pszEscape pszValue ++
        [34, 41])) = none := by
      rw [msGetLikePatternAsRegex, start]
      exact longestQuotedBinding_other notOpen rest
    rw [msyylex_quoted readers.atof rfl noBinding, LexAction.run, msGetLikePatternAsRegex, isRead, readString_quote rfl]
    simp [likeRegex, skipI, tolower]
  rw [FLTEscapePropertyName_eq, tokens_character (by decide), tokens_quotedBinding rfl (by simp), tokens_blank isBlank32,
    tokens_operator member same other, tokens_lexeme lexeme rfl, tokens_character (by decide)]
  exact tokens_nil

end Patterns

section FeatureIds
variable {α Time Shape : Type} (readers : TokenReaders α Time Shape)

def otherIdsTokens (kind : ValueKind) (pszAttribute : CString) : List CString → Option (List (Token α Time Shape))
  | [] => some []
  | pszId :: others =>
    match comparisonTokens readers kind pszAttribute .MS_TOKEN_COMPARISON_EQ pszId,
      otherIdsTokens kind pszAttribute others with
    | some term, some rest => some (.code .MS_TOKEN_LOGICAL_OR :: (term ++ rest))
    | _, _ => none

def idsTokens (kind : ValueKind) (pszAttribute : CString) : List CString → Option (List (Token α Time Shape))
  | [] => none
  | pszId :: others =>
    match comparisonTokens readers kind pszAttribute .MS_TOKEN_COMPARISON_EQ pszId,
      otherIdsTokens readers kind pszAttribute others with
    | some term, some rest => some (.character 40 :: (term ++ (rest ++ [.character 41])))
    | _, _ => none

def otherIdsText (pszAttribute : CString) (bString : Bool) (ids : List CString) : CString :=
  ids.flatMap fun pszId => ascii " OR " ++ commonIdTerm pszAttribute bString pszId

theorem otherIdsText_eq (pszAttribute : CString) (bString : Bool) (ids : List CString) (expr : CString) :
    (ids.map (commonIdTerm pszAttribute bString)).foldl (fun expr term => expr ++ ascii " OR " ++ term) expr =
      expr ++ otherIdsText pszAttribute bString ids := by
  induction ids generalizing expr with
  | nil => simp [otherIdsText]
  | cons pszId ids ih =>
    rw [map_cons, foldl_cons, ih, otherIdsText, otherIdsText, flatMap_cons]
    simp

variable {readers}

def idKind (bString : Bool) : ValueKind := if bString then .string else .number

theorem commonIdTerm_eq (pszAttribute pszId : CString) (bString : Bool) : commonIdTerm pszAttribute bString pszId =
    40 :: ((idKind bString).opening ++ (FLTEscapePropertyName pszAttribute (idKind bString).escape ++
      ((idKind bString).closing ++ (ascii "==" ++ 32 :: ((idKind bString).quote ++
        (escaped (fun _ => false) pszId ++ ((idKind bString).quote ++ [41]))))))) := by
  cases bString <;>
    simp [commonIdTerm, idKind, ValueKind.opening, ValueKind.closing, ValueKind.quote, ValueKind.escape, escaped_none, ascii]

theorem idTerm_tokens {bString : Bool} {pszAttribute pszId rest : CString} (isTail : ValueTail (idKind bString) (41 :: rest))
    {token : Token α Time Shape} (isToken : literalToken readers (idKind bString) pszId = some token)
    {tokens : List (Token α Time Shape)} :
    Tokens readers (commonIdTerm pszAttribute bString pszId ++ rest) (.character 40 ::
        bindingToken (idKind bString) pszAttribute :: .code .MS_TOKEN_COMPARISON_EQ :: token :: .character 41 :: tokens) ↔
      NameFits (idKind bString) pszAttribute ∧ LiteralFits readers (fun _ => false) (idKind bString) pszId ∧
        Tokens readers rest tokens := by
  have isEqual : ("==", .code .MS_TOKEN_COMPARISON_EQ) ∈ fixedWords α := by simp [fixedWords]
  have value : Tokens readers ((idKind bString).quote ++ (escaped (fun _ => false) pszId ++
      ((idKind bString).quote ++ (41 :: rest)))) (token :: .character 41 :: tokens) ↔ _ :=
    tokens_value (by simp) (by cases bString <;> simp [idKind]) isTail isToken noHex_finish
  rw [commonIdTerm_eq]
  simp only [cons_append, append_assoc, nil_append]
  rw [tokens_character (by decide), tokens_attribute, tokens_operator isEqual (by simp) (by simp), value,
    tokens_character (by decide)]

theorem valueTail_ids (bString : Bool) (pszAttribute : CString) (ids : List CString) :
    ValueTail (idKind bString) (41 :: (otherIdsText pszAttribute bString ids ++ [41])) := by
  refine ⟨⟨41, _, rfl, Or.inl rfl⟩, ?_⟩
  intro isString
  cases bString with
  | false => cases isString
  | true =>
    cases ids with
    | nil => rfl
    | cons pszId ids =>
      have noMatch (rest : CString) : bracketed 93 34 ([41, 32, 79, 82, 32, 40] ++ 34 :: (91 :: rest)) = none :=
        bracketed_none (by decide) (by decide) (by simp)
      rw [otherIdsText, flatMap_cons, commonIdTerm_eq]
      simpa [idKind, ValueKind.opening, ascii] using noMatch _

variable {bString : Bool} {pszAttribute pszId : CString} {ids : List CString}

theorem idTerms_tokens_iff : (∃ term rest,
      comparisonTokens readers (idKind bString) pszAttribute .MS_TOKEN_COMPARISON_EQ pszId = some term ∧
      otherIdsTokens readers (idKind bString) pszAttribute ids = some rest ∧
      Tokens readers (commonIdTerm pszAttribute bString pszId ++ (otherIdsText pszAttribute bString ids ++ [41]))
        (term ++ (rest ++ [.character 41]))) ↔
      (NameFits (idKind bString) pszAttribute ∧ LiteralFits readers (fun _ => false) (idKind bString) pszId) ∧
        ∃ rest, otherIdsTokens readers (idKind bString) pszAttribute ids = some rest ∧
          Tokens readers (otherIdsText pszAttribute bString ids ++ [41]) (rest ++ [.character 41]) := by
  have isTail := valueTail_ids bString pszAttribute ids
  constructor
  · rintro ⟨term, rest, isTerm, isRest, read⟩
    obtain ⟨token, isToken, rfl⟩ := map_eq_some_iff.mp isTerm
    obtain ⟨name, fits, others⟩ := (idTerm_tokens isTail isToken).mp (by simpa using read)
    exact ⟨⟨name, fits⟩, rest, isRest, others⟩
  · rintro ⟨⟨name, fits⟩, rest, isRest, others⟩
    obtain ⟨token, isToken⟩ := literalFits_isToken fits
    refine ⟨_, rest, by rw [comparisonTokens, isToken]; rfl, isRest, ?_⟩
    simpa using (idTerm_tokens isTail isToken).mpr ⟨name, fits, others⟩

theorem otherIds_tokens_iff : (∃ tokens, otherIdsTokens readers (idKind bString) pszAttribute ids = some tokens ∧
      Tokens readers (otherIdsText pszAttribute bString ids ++ [41]) (tokens ++ [.character 41])) ↔
      ∀ pszId ∈ ids, NameFits (idKind bString) pszAttribute ∧
        LiteralFits readers (fun _ => false) (idKind bString) pszId := by
  have isBlank32 : isBlank 32 = true := rfl
  have isOr : ("or", .code .MS_TOKEN_LOGICAL_OR) ∈ fixedWords α := by simp [fixedWords]
  have separator : ascii " OR " = 32 :: (ascii "OR" ++ [32]) := by simp [ascii]
  induction ids with
  | nil =>
    have finish : Tokens readers [41] [.character 41] := (tokens_character (by decide)).mpr tokens_nil
    exact ⟨fun _ => by simp, fun _ => ⟨[], rfl, finish⟩⟩
  | cons pszId ids ih =>
    have reads (tokens : List (Token α Time Shape)) :
        Tokens readers (otherIdsText pszAttribute bString (pszId :: ids) ++ [41]) (.code .MS_TOKEN_LOGICAL_OR :: tokens) ↔
          Tokens readers (commonIdTerm pszAttribute bString pszId ++ (otherIdsText pszAttribute bString ids ++ [41]))
            tokens := by
      rw [otherIdsText, flatMap_cons, separator]
      simp only [append_assoc, cons_append, nil_append]
      rw [tokens_blank isBlank32, tokens_operator isOr (by simp [ascii, sameIgnoringCase, tolower]) (by simp)]
      rfl
    rw [forall_mem_cons]
    refine Iff.trans ?_ (idTerms_tokens_iff.trans (and_congr_right' ih))
    constructor
    · rintro ⟨tokens, isTokens, read⟩
      rw [otherIdsTokens] at isTokens
      split at isTokens
      · rename_i term rest isTerm isRest
        cases isTokens
        exact ⟨term, rest, isTerm, isRest, (reads _).mp (by simpa using read)⟩
      · cases isTokens
    · rintro ⟨term, rest, isTerm, isRest, read⟩
      refine ⟨.code .MS_TOKEN_LOGICAL_OR :: (term ++ rest), by rw [otherIdsTokens, isTerm, isRest], ?_⟩
      simpa using (reads _).mpr read

theorem featureIds_tokens_iff {others : List CString} :
    (∃ tokens, idsTokens readers (idKind bString) pszAttribute (pszId :: others) = some tokens ∧
      Tokens readers (40 :: (commonIdTerm pszAttribute bString pszId ++ (otherIdsText pszAttribute bString others ++ [41])))
        tokens) ↔
      NameFits (idKind bString) pszAttribute ∧
        ∀ id ∈ pszId :: others, LiteralFits readers (fun _ => false) (idKind bString) id := by
  have terms := @idTerms_tokens_iff α Time Shape readers bString pszAttribute pszId others
  rw [otherIds_tokens_iff] at terms
  rw [forall_mem_cons]
  refine Iff.trans ?_ (terms.trans ?_)
  · constructor
    · rintro ⟨tokens, isTokens, read⟩
      rw [idsTokens] at isTokens
      split at isTokens
      · rename_i term rest isTerm isRest
        cases isTokens
        exact ⟨term, rest, isTerm, isRest, (tokens_character (by decide)).mp read⟩
      · cases isTokens
    · rintro ⟨term, rest, isTerm, isRest, read⟩
      exact ⟨_, by rw [idsTokens, isTerm, isRest], (tokens_character (by decide)).mpr read⟩
  · exact ⟨fun fits => ⟨fits.1.1, fits.1.2, fun id member => (fits.2 id member).2⟩,
      fun fits => ⟨⟨fits.1, fits.2.1⟩, fun id member => ⟨fits.1, fits.2.2 id member⟩⟩⟩

end FeatureIds

end MapServer
