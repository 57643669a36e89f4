import MapServer.Expr.QuotedStrings

namespace MapServer
open Lib.Scanner
open Lib.Quoting (encode)

section Tokens
variable {α Time Shape : Type} (readers : TokenReaders α Time Shape)

def Tokens (text : CString) (tokens : List (Token α Time Shape)) : Prop := readTokens readers text = (tokens, true)

def plainToken : Lexeme α → Option (Token α Time Shape)
  | .finish => none
  | .code token => if token = .MS_TOKEN_FUNCTION_FROMTEXT then none else some (.code token)
  | .MS_TOKEN_LITERAL_BOOLEAN msyynumber => some (.MS_TOKEN_LITERAL_BOOLEAN msyynumber)
  | .MS_TOKEN_LITERAL_NUMBER msyynumber => some (.MS_TOKEN_LITERAL_NUMBER msyynumber)
  | .MS_TOKEN_LITERAL_STRING msyystring_buffer => some (.MS_TOKEN_LITERAL_STRING msyystring_buffer)
  | .MS_TOKEN_LITERAL_TIME _ => none
  | .MS_TOKEN_BINDING_DOUBLE msyystring_buffer => some (.MS_TOKEN_BINDING_DOUBLE msyystring_buffer)
  | .MS_TOKEN_BINDING_STRING msyystring_buffer => some (.MS_TOKEN_BINDING_STRING msyystring_buffer)
  | .MS_TOKEN_BINDING_TIME msyystring_buffer => some (.MS_TOKEN_BINDING_TIME msyystring_buffer)
  | .character c => some (.character c)

variable {readers}

theorem nextToken_congr {text other : CString} (same : msyylex readers.atof text = msyylex readers.atof other) :
    nextToken readers text = nextToken readers other := by
  rw [nextToken, nextToken, same]

theorem readTokens_congr {text other : CString} (same : msyylex readers.atof text = msyylex readers.atof other) :
    readTokens readers text = readTokens readers other := by
  have next := nextToken_congr same
  cases isNext : nextToken readers other with
  | none =>
    rw [isNext] at next
    rw [readTokens, readTokens, scan_finish _ _ next, scan_finish _ _ isNext]
  | some found =>
    rw [isNext] at next
    cases found with
    | none => rw [readTokens, readTokens, scan_error _ _ next, scan_error _ _ isNext]
    | some token => rw [readTokens, readTokens, scan_token _ _ next, scan_token _ _ isNext]

theorem tokens_nil : Tokens readers [] [] := by
  apply scan_finish
  rw [nextToken, msyylex_nil]

theorem tokens_blank {c : UInt8} (blank : isBlank c = true) {text : CString} {tokens : List (Token α Time Shape)} :
    Tokens readers (c :: text) tokens ↔ Tokens readers text tokens := by
  rw [Tokens, Tokens, readTokens_congr (msyylex_blank _ blank text)]

theorem tokens_cons {text : CString} {token : Token α Time Shape} {tokens : List (Token α Time Shape)} :
    Tokens readers text (token :: tokens) ↔
      ∃ rest, nextToken readers text = some (some (token, rest)) ∧ Tokens readers rest tokens := by
  constructor
  · intro isTokens
    cases isNext : nextToken readers text with
    | none =>
      rw [Tokens, readTokens, scan_finish _ _ isNext] at isTokens
      cases isTokens
    | some found =>
      cases found with
      | none =>
        rw [Tokens, readTokens, scan_error _ _ isNext] at isTokens
        cases isTokens
      | some found =>
        obtain ⟨first, rest⟩ := found
        rw [Tokens, readTokens, scan_token _ _ isNext, Prod.mk.injEq, List.cons.injEq] at isTokens
        obtain ⟨⟨rfl, others⟩, status⟩ := isTokens
        exact ⟨rest, rfl, Prod.ext others status⟩
  · rintro ⟨rest, isNext, others⟩
    rw [Tokens, readTokens] at others ⊢
    rw [scan_token _ _ isNext, others]

theorem nextToken_plain {text rest : CString} {lexeme : Lexeme α} {token : Token α Time Shape}
    (isLexeme : msyylex readers.atof text = (lexeme, rest)) (plain : plainToken lexeme = some token) :
    nextToken readers text = some (some (token, rest)) := by
  rw [nextToken, isLexeme]
  cases lexeme with
  | finish => cases plain
  | code code =>
    rw [plainToken] at plain
    split at plain
    · cases plain
    · rename_i other
      cases plain
      cases code <;> first | rfl | exact absurd rfl other
  | MS_TOKEN_LITERAL_TIME => cases plain
  | _ => cases plain; rfl

theorem tokens_lexeme {text rest : CString} {lexeme : Lexeme α} {token : Token α Time Shape}
    {tokens : List (Token α Time Shape)} (isLexeme : msyylex readers.atof text = (lexeme, rest))
    (plain : plainToken lexeme = some token) : Tokens readers text (token :: tokens) ↔ Tokens readers rest tokens := by
  have isNext := nextToken_plain isLexeme plain
  rw [tokens_cons]
  constructor
  · rintro ⟨others, same, isTokens⟩
    rw [isNext] at same
    cases same
    exact isTokens
  · intro isTokens
    exact ⟨rest, isNext, isTokens⟩

theorem tokens_character {c : UInt8} (plain : isPlainCharacter c = true) {text : CString}
    {tokens : List (Token α Time Shape)} :
    Tokens readers (c :: text) (.character c :: tokens) ↔ Tokens readers text tokens :=
  tokens_lexeme (msyylex_character _ plain text) rfl

theorem tokens_word {word : String × Lexeme α} (member : word ∈ fixedWords α) {letters : CString}
    (same : sameIgnoringCase letters (ascii word.1) = true) {token : Token α Time Shape}
    (plain : plainToken word.2 = some token) {rest : CString} {tokens : List (Token α Time Shape)} :
    Tokens readers (letters ++ 32 :: rest) (token :: tokens) ↔ Tokens readers rest tokens := by
  rw [tokens_lexeme (msyylex_word _ member same rest) plain, tokens_blank rfl]

def tokenLexeme : Token α Time Shape → Lexeme α
  | .code token => .code token
  | .MS_TOKEN_LITERAL_BOOLEAN dblval => .MS_TOKEN_LITERAL_BOOLEAN dblval
  | .MS_TOKEN_LITERAL_NUMBER dblval => .MS_TOKEN_LITERAL_NUMBER dblval
  | .MS_TOKEN_LITERAL_STRING strval => .MS_TOKEN_LITERAL_STRING strval
  | .MS_TOKEN_LITERAL_TIME tokensrc _ => .MS_TOKEN_LITERAL_TIME tokensrc
  | .MS_TOKEN_LITERAL_SHAPE _ => .finish
  | .MS_TOKEN_BINDING_DOUBLE item => .MS_TOKEN_BINDING_DOUBLE item
  | .MS_TOKEN_BINDING_STRING item => .MS_TOKEN_BINDING_STRING item
  | .MS_TOKEN_BINDING_TIME item => .MS_TOKEN_BINDING_TIME item
  | .character c => .character c

theorem nextToken_lexeme {text rest : CString} {token : Token α Time Shape}
    (isNext : nextToken readers text = some (some (token, rest))) (noShape : ∀ shpval, token ≠ .MS_TOKEN_LITERAL_SHAPE shpval) :
    msyylex readers.atof text = (tokenLexeme token, rest) ∧
      ∀ tokensrc tmval, token = .MS_TOKEN_LITERAL_TIME tokensrc tmval → readers.msParseTime tokensrc = some tmval := by
  unfold nextToken at isNext
  split at isNext
  · cases isNext
  · rename_i lexeme others goesOn isLexeme
    have isToken := Option.some.inj isNext
    unfold tokenOf at isToken
    split at isToken
    case h_1 => cases isToken
    case h_2 =>
      unfold fromTextToken at isToken
      split at isToken
      · split at isToken
        · split at isToken
          · cases isToken
            exact absurd rfl (noShape _)
          · cases isToken
        · cases isToken
      · cases isToken
    case h_7 =>
      obtain ⟨tmval, isTime, same⟩ := Option.map_eq_some_iff.mp isToken
      cases same
      refine ⟨isLexeme, ?_⟩
      intro _ _ same
      cases same
      exact isTime
    all_goals
      cases isToken
      refine ⟨isLexeme, ?_⟩
      intro _ _ same
      cases same

theorem tokens_bracket {name rest : CString} (boundary : rest.head? ≠ some 93) {tokens : List (Token α Time Shape)} :
    Tokens readers (91 :: (encode 93 name ++ 93 :: rest)) (.MS_TOKEN_BINDING_DOUBLE name :: tokens) ↔
      isSpecialName name = false ∧ Tokens readers rest tokens := by
  have isLexeme := msyylex_bracket readers.atof (delimited_encode boundary name)
  cases special : isSpecialName name with
  | false =>
    rw [bindingLexeme_ordinary special] at isLexeme
    rw [tokens_lexeme isLexeme rfl]
    simp
  | true =>
    obtain ⟨code, isCode⟩ := @bindingLexeme_special α name special
    rw [isCode] at isLexeme
    constructor
    · intro isTokens
      obtain ⟨_, isNext, _⟩ := tokens_cons.mp isTokens
      obtain ⟨same, _⟩ := nextToken_lexeme isNext (by simp)
      cases isLexeme.symm.trans same
    · rintro ⟨ordinary, _⟩
      cases ordinary

theorem tokens_bracket_raw {name rest : CString} (boundary : rest.head? ≠ some 93) {tokens : List (Token α Time Shape)} :
    Tokens readers (91 :: (name ++ 93 :: rest)) (.MS_TOKEN_BINDING_DOUBLE name :: tokens) ↔
      (93 ∉ name ∧ isSpecialName name = false) ∧ Tokens readers rest tokens := by
  have whole := @tokens_bracket α Time Shape readers name rest boundary tokens
  constructor
  · intro isTokens
    obtain ⟨after, isNext, _⟩ := tokens_cons.mp isTokens
    obtain ⟨isLexeme, _⟩ := nextToken_lexeme isNext (by simp)
    have absent : 93 ∉ name := by
      apply not_mem_of_eq_encode (bracket_binding readers.atof isLexeme)
      intro more same
      apply boundary
      rw [List.tail_eq_of_cons_eq same]
      cases more <;> rfl
    rw [encode_of_not_mem absent] at whole
    obtain ⟨ordinary, others⟩ := whole.mp isTokens
    exact ⟨⟨absent, ordinary⟩, others⟩
  · rintro ⟨⟨absent, ordinary⟩, isTokens⟩
    rw [encode_of_not_mem absent] at whole
    exact whole.mpr ⟨ordinary, isTokens⟩

section Quoted
variable {quote : UInt8} (isQuote : stringQuote quote = true)
include isQuote

theorem tokens_quotedBinding {name rest : CString} (boundary : rest.head? ≠ some quote)
    {tokens : List (Token α Time Shape)} :
    Tokens readers (quote :: 91 :: (encode quote name ++ 93 :: quote :: rest)) (.MS_TOKEN_BINDING_STRING name :: tokens) ↔
      Tokens readers rest tokens := by
  obtain ⟨_, _, _, _, _, _, _, noClose⟩ := quote_plain isQuote
  exact tokens_lexeme (msyylex_quotedBinding _ isQuote (bracketed_encode (Ne.symm noClose) boundary name)) rfl

theorem tokens_quotedBinding_raw {name rest : CString} (boundary : rest.head? ≠ some quote)
    {tokens : List (Token α Time Shape)} :
    Tokens readers (quote :: 91 :: (name ++ 93 :: quote :: rest)) (.MS_TOKEN_BINDING_STRING name :: tokens) ↔
      quote ∉ name ∧ Tokens readers rest tokens := by
  obtain ⟨_, noBlank, _, _, _, _, _, noClose⟩ := quote_plain isQuote
  have whole := @tokens_quotedBinding α Time Shape readers quote isQuote name rest boundary tokens
  constructor
  · intro isTokens
    obtain ⟨after, isNext, _⟩ := tokens_cons.mp isTokens
    obtain ⟨isLexeme, _⟩ := nextToken_lexeme isNext (by simp)
    obtain ⟨count, isMatch⟩ := msyylex_pattern readers.atof noBlank isLexeme (by simp [tokenLexeme]) rfl
    rw [tokenLexeme, lexemePattern] at isMatch
    obtain ⟨_, content, others, parts, longest⟩ := quotedBinding_content noClose isMatch
    rw [parts, msyylex_quotedBinding readers.atof isQuote longest] at isLexeme
    cases isLexeme
    have absent : quote ∉ name := by
      apply not_mem_of_eq_encode (List.tail_eq_of_cons_eq parts)
      intro more same
      exact noClose (List.head_eq_of_cons_eq same).symm
    rw [encode_of_not_mem absent] at whole
    exact ⟨absent, whole.mp isTokens⟩
  · rintro ⟨absent, isTokens⟩
    rw [encode_of_not_mem absent] at whole
    exact whole.mpr isTokens

theorem tokens_string {escapes : UInt8 → Bool} (onlyQuotes : ∀ c, escapes c = true → stringQuote c = true)
    {text tail : CString} (boundary : tail.head? ≠ some quote) (noOther : bracketed 93 quote tail = none)
    {tokens : List (Token α Time Shape)} :
    Tokens readers (quote :: (escaped escapes text ++ quote :: tail)) (.MS_TOKEN_LITERAL_STRING text :: tokens) ↔
      ReadsBack quote escapes text ∧ Tokens readers (skipI tail) tokens := by
  constructor
  · intro isTokens
    obtain ⟨rest, isNext, others⟩ := tokens_cons.mp isTokens
    obtain ⟨isLexeme, _⟩ := nextToken_lexeme isNext (by simp)
    have readsBack := (stringLiteral_iff readers.atof isQuote onlyQuotes boundary noOther).mp ⟨rest, isLexeme⟩
    rw [msyylex_stringLiteral readers.atof isQuote onlyQuotes boundary noOther readsBack] at isLexeme
    cases isLexeme
    exact ⟨readsBack, others⟩
  · rintro ⟨readsBack, isTokens⟩
    exact (tokens_lexeme (msyylex_stringLiteral _ isQuote onlyQuotes boundary noOther readsBack) rfl).mpr isTokens

end Quoted

theorem tokens_time {text tail : CString} (boundary : tail.head? ≠ some 96) {tmval : Time}
    {tokens : List (Token α Time Shape)} :
    Tokens readers (96 :: (escaped stringQuote text ++ 96 :: tail)) (.MS_TOKEN_LITERAL_TIME text tmval :: tokens) ↔
      (ReadsBackTime text ∧ readers.msParseTime text = some tmval) ∧ Tokens readers tail tokens := by
  constructor
  · intro isTokens
    obtain ⟨rest, isNext, others⟩ := tokens_cons.mp isTokens
    obtain ⟨isLexeme, parsed⟩ := nextToken_lexeme isNext (by simp)
    have readsBack := (timeLiteral_iff readers.atof boundary).mp ⟨rest, isLexeme⟩
    rw [msyylex_timeLiteral readers.atof boundary readsBack] at isLexeme
    cases isLexeme
    exact ⟨⟨readsBack, parsed text tmval rfl⟩, others⟩
  · rintro ⟨⟨readsBack, parsed⟩, isTokens⟩
    apply tokens_cons.mpr
    refine ⟨tail, ?_, isTokens⟩
    rw [nextToken, msyylex_timeLiteral readers.atof boundary readsBack]
    simp only [tokenOf, parsed, Option.map_some]

theorem tokens_number {text tail : CString} (number : skipNumber text = some []) (ends : EndsNumber tail)
    {tokens : List (Token α Time Shape)} :
    Tokens readers (text ++ tail) (.MS_TOKEN_LITERAL_NUMBER (readers.atof text) :: tokens) ↔ Tokens readers tail tokens := by
  have isLexeme := msyylex_number readers.atof (skipNumber_append ends number)
  rw [List.length_append, Nat.add_sub_cancel, List.take_left] at isLexeme
  exact tokens_lexeme isLexeme rfl

end Tokens

end MapServer
