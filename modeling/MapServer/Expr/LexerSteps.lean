import Mathlib.Data.List.Nodup
import MapServer.Expr.Lexer

namespace MapServer
open Lib.Scanner List
open Lib.Quoting

def wordHeads : List UInt8 :=
  [111, 124, 97, 38, 110, 33, 101, 61, 60, 103, 62, 108, 126, 105, 116, 99, 114, 117, 102, 98, 100, 115, 106, 119]

def isFixedWord (word : CString) : Bool :=
  word.head?.any wordHeads.contains && word.all fun c => tolower c == c && c != 32

theorem fixedWords_isFixedWord : ((fixedWords Unit).all fun word => isFixedWord (ascii word.1)) = true := by decide +kernel

theorem fixedWords_distinct : ((fixedWords Unit).map fun word => ascii word.1).Nodup := by decide +kernel

section Words
variable {α : Type}
variable {word : String × Lexeme α}

theorem fixedWords_chars (member : word ∈ fixedWords α) :
    ∃ c rest, ascii word.1 = c :: rest ∧ c ∈ wordHeads ∧ ∀ d ∈ ascii word.1, tolower d = d ∧ d ≠ 32 := by
  have whole : ((fixedWords α).all fun word => isFixedWord (ascii word.1)) = true := fixedWords_isFixedWord
  have isWord := List.all_eq_true.mp whole word member
  rw [isFixedWord, Bool.and_eq_true] at isWord
  cases letters : ascii word.1 with
  | nil => simp [letters] at isWord
  | cons c rest =>
    rw [letters] at isWord
    refine ⟨c, rest, rfl, by simpa using isWord.1, ?_⟩
    intro d inWord
    simpa using List.all_eq_true.mp isWord.2 d inWord

theorem lower_fixedWord (member : word ∈ fixedWords α) : (ascii word.1).map tolower = ascii word.1 := by
  obtain ⟨_, _, _, _, chars⟩ := fixedWords_chars member
  apply (map_congr_left _).trans (List.map_id _)
  intro d inWord
  exact (chars d inWord).1

theorem fixedWord_ext {first second : String × Lexeme α} (isFirst : first ∈ fixedWords α) (isSecond : second ∈ fixedWords α)
    (same : ascii first.1 = ascii second.1) : first = second :=
  inj_on_of_nodup_map (show ((fixedWords α).map fun word => ascii word.1).Nodup from fixedWords_distinct)
    isFirst isSecond same

theorem wordRule_longest {text : CString} {count : Nat} (isMatch : (wordRule word).longest text = some count) :
    count = (ascii word.1).length ∧ (text.take count).map tolower = (ascii word.1).map tolower := by
  dsimp only [wordRule] at isMatch
  split at isMatch
  · rename_i same
    cases isMatch
    exact ⟨rfl, sameIgnoringCase_iff.mp same⟩
  · cases isMatch

theorem wordRule_self {letters : CString} (same : sameIgnoringCase letters (ascii word.1) = true) (rest : CString) :
    (wordRule word).longest (letters ++ rest) = some letters.length := by
  have lengths : letters.length = (ascii word.1).length := by
    have lowers := congrArg List.length (sameIgnoringCase_iff.mp same)
    rwa [length_map, length_map] at lowers
  dsimp only [wordRule]
  rw [← lengths, take_left, if_pos same]

theorem words_none {c : UInt8} (noHead : tolower c ∉ wordHeads) (text : CString) :
    chosen ((fixedWords α).map wordRule) (c :: text) = none := by
  apply chosen_eq_none
  intro rule member
  obtain ⟨word, isWord, rfl⟩ := List.mem_map.mp member
  obtain ⟨head, rest, letters, isHead, _⟩ := fixedWords_chars isWord
  cases isMatch : (wordRule word).longest (c :: text) with
  | none => rfl
  | some count =>
    obtain ⟨rfl, same⟩ := wordRule_longest isMatch
    rw [lower_fixedWord isWord, letters, length_cons, take_succ_cons, map_cons] at same
    exact absurd (head_eq_of_cons_eq same ▸ isHead) noHead

theorem words_before (member : word ∈ fixedWords α) {letters : CString}
    (same : sameIgnoringCase letters (ascii word.1) = true) {c : UInt8}
    (stops : ∀ other ∈ fixedWords α, ¬ ascii word.1 ++ [tolower c] <+: ascii other.1) (rest : CString) :
    chosen ((fixedWords α).map wordRule) (letters ++ c :: rest) = some (letters.length, .returns word.2) := by
  have lowers := sameIgnoringCase_iff.mp same
  rw [lower_fixedWord member] at lowers
  apply chosen_eq_of_longest (List.mem_map_of_mem member) (wordRule_self same _)
  intro rule isRule matched isMatch
  obtain ⟨other, isOther, rfl⟩ := List.mem_map.mp isRule
  obtain ⟨_, sameOther⟩ := wordRule_longest isMatch
  rw [lower_fixedWord isOther] at sameOther
  rcases Nat.lt_trichotomy matched letters.length with shorter | equal | longer
  · exact Or.inl shorter
  · subst equal
    rw [take_left, lowers] at sameOther
    cases fixedWord_ext isOther member sameOther.symm
    exact Or.inr ⟨rfl, rfl⟩
  · obtain ⟨more, rfl⟩ := Nat.exists_eq_add_of_lt longer
    apply absurd _ (stops other isOther)
    rw [← sameOther, show letters.length + more + 1 = letters.length + (more + 1) by omega, take_length_add_append,
      take_succ_cons, map_append, map_cons, lowers]
    exact ⟨(rest.take more).map tolower, by simp⟩

theorem blank_stops (word : String × Lexeme α) :
    ∀ other ∈ fixedWords α, ¬ ascii word.1 ++ [tolower 32] <+: ascii other.1 := by
  intro other isOther goesOn
  obtain ⟨_, _, _, _, chars⟩ := fixedWords_chars isOther
  have blank : (32 : UInt8) ∈ ascii other.1 := goesOn.subset (by simp [tolower])
  exact absurd rfl (chars 32 blank).2

theorem specials_none {c : UInt8} (noBracket : c ≠ 91) (text : CString) :
    chosen ((specialBindings α).map wordRule) (c :: text) = none := by
  have lower : tolower c ≠ 91 := by
    unfold tolower
    split
    · rename_i capital
      intro same
      have value := congrArg UInt8.toNat same
      have low := UInt8.le_iff_toNat_le.mp capital.1
      have high := UInt8.le_iff_toNat_le.mp capital.2
      simp only [UInt8.toNat_add, UInt8.toNat_ofNat] at value low high
      omega
    · exact noBracket
  apply chosen_eq_none
  simp [specialBindings, wordRule, ascii, sameIgnoringCase, lower, show tolower 91 = 91 from rfl]

end Words

section Patterns
variable {α : Type} (atof : CString → α)
variable {c quote : UInt8} {isQuote : UInt8 → Bool} {count : Nat} {text rest name : CString}
  {rule : Rule UInt8 (LexAction α)} {lexeme : Lexeme α} {word : String × Lexeme α} {special : String × TokenCode}

theorem longestNumber_none (noDigit : isdigit c = false) (noMinus : c ≠ 45) (noPoint : c ≠ 46) (text : CString) :
    longestNumber (c :: text) = none := by
  have sign : skipMinus (c :: text) = c :: text := by
    unfold skipMinus
    split
    · rename_i same
      cases same
      exact absurd rfl noMinus
    · rfl
  rw [longestNumber, skipNumber, sign, skipLexMantissa, dropWhile_cons_of_neg (by simp [noDigit]),
    takeWhile_cons_of_neg (by simp [noDigit])]
  split
  · rename_i same
    cases same
    exact absurd rfl noPoint
  · rfl

theorem longestBinding_none (noBracket : c ≠ 91) (text : CString) : longestBinding (c :: text) = none := by
  unfold longestBinding
  split
  · rename_i same
    cases same
    exact absurd rfl noBracket
  · rfl

theorem longestTime_none (noBacktick : c ≠ 96) (text : CString) : longestTime (c :: text) = none := by
  unfold longestTime
  split
  · rename_i same
    cases same
    exact absurd rfl noBacktick
  · rfl

theorem longestQuotedBinding_none (noQuote : isQuote c = false) (text : CString) :
    longestQuotedBinding isQuote (c :: text) = none := by
  unfold longestQuotedBinding
  split
  · rename_i quote inner same
    cases same
    rw [noQuote]
    rfl
  · rfl

def singleAction (c : UInt8) : LexAction α :=
  if stringQuote c then .beginString c
  else if isFinish c then .returns .finish
  else .returns (.character c)

theorem singles_eq (c : UInt8) (text : CString) :
    chosen [quoteRule, finishRule, characterRule] (c :: text) = some (1, (singleAction c : LexAction α)) := by
  have single (isOne : UInt8 → Bool) : oneOf isOne (c :: text) = if isOne c then some 1 else none := rfl
  by_cases line : c = 10
  · subst c
    rfl
  · have other : (c != 10) = true := by simp [line]
    cases quote : stringQuote c <;> cases finish : isFinish c <;>
      simp [chosen, Rule.found, quoteRule, finishRule, characterRule, single, singleAction, quote, finish, other, better]

theorem patterns_eq (c : UInt8) (text : CString) : chosen (patternRules atof) (c :: text) =
    better (bindingRule.found (c :: text)) (better (stringBindingRule.found (c :: text))
      (better (timeBindingRule.found (c :: text)) (better ((numberRule atof).found (c :: text))
        (better (timeRule.found (c :: text)) (some (1, singleAction c)))))) := by
  rw [← singles_eq c text]
  rfl

def isPatternHead (c : UInt8) : Bool := isdigit c || [91, 34, 39, 96, 45, 46].contains c

theorem patterns_single (noHead : isPatternHead c = false) (text : CString) :
    chosen (patternRules atof) (c :: text) = some (1, singleAction c) := by
  simp only [isPatternHead, Bool.or_eq_false_iff, contains_eq_mem, mem_cons, not_mem_nil, or_false,
    decide_eq_false_iff_not, not_or] at noHead
  obtain ⟨noDigit, noBracket, noDouble, noSingle, noBacktick, noMinus, noPoint⟩ := noHead
  have noString : longestQuotedBinding stringQuote (c :: text) = none :=
    longestQuotedBinding_none (by simp [stringQuote, noDouble, noSingle]) text
  have noTime : longestQuotedBinding (· == 96) (c :: text) = none :=
    longestQuotedBinding_none (by simp [noBacktick]) text
  rw [patterns_eq]
  simp [Rule.found, bindingRule, stringBindingRule, timeBindingRule, numberRule, timeRule, longestBinding_none noBracket,
    noString, noTime, longestNumber_none noDigit noMinus noPoint, longestTime_none noBacktick]

theorem msyylex_blank (blank : isBlank c = true) (text : CString) : msyylex atof (c :: text) = msyylex atof text := by
  rw [msyylex, msyylex, dropWhile_cons_of_pos blank]

theorem msyylex_chosen (noBlank : isBlank c = false) {action : LexAction α}
    (isChosen : chosen (expressionRules atof) (c :: text) = some (count, action)) :
    msyylex atof (c :: text) = action.run ((c :: text).drop count) := by
  rw [msyylex, dropWhile_cons_of_neg (by simp [noBlank])]
  simp only [isChosen]

def isWordLexeme : Lexeme α → Bool
  | .code _ => true
  | .MS_TOKEN_LITERAL_BOOLEAN _ => true
  | _ => false

theorem member_expressionRules (member : rule ∈ expressionRules atof) :
    (∃ lexeme, (∀ msyytext, rule.action msyytext = .returns lexeme) ∧ isWordLexeme lexeme = true) ∨
      rule ∈ patternRules atof := by
  have words : ∀ word ∈ fixedWords α ++ specialBindings α, isWordLexeme word.2 = true := by
    simp [fixedWords, specialBindings, isWordLexeme]
  rcases mem_append.mp member with inWords | inOthers
  · obtain ⟨word, isWord, rfl⟩ := List.mem_map.mp inWords
    exact Or.inl ⟨word.2, fun _ => rfl, words word (mem_append_left _ isWord)⟩
  · rcases mem_append.mp inOthers with inSpecials | inPatterns
    · obtain ⟨word, isWord, rfl⟩ := List.mem_map.mp inSpecials
      exact Or.inl ⟨word.2, fun _ => rfl, words word (mem_append_right _ isWord)⟩
    · exact Or.inr inPatterns

theorem msyylex_rule (noBlank : isBlank c = false) (isLexeme : msyylex atof (c :: text) = (lexeme, rest))
    (goesOn : lexeme ≠ .finish) : ∃ rule ∈ expressionRules atof, ∃ count, rule.longest (c :: text) = some count ∧
      (rule.action ((c :: text).take count)).run ((c :: text).drop count) = (lexeme, rest) := by
  rw [msyylex, dropWhile_cons_of_neg (by simp [noBlank])] at isLexeme
  split at isLexeme
  · rename_i count action isChosen
    obtain ⟨rule, member, isMatch, rfl⟩ := chosen_eq_some isChosen
    exact ⟨rule, member, count, isMatch, isLexeme⟩
  · cases isLexeme
    exact absurd rfl goesOn

def lexemePattern : Lexeme α → CString → Option Nat
  | .MS_TOKEN_LITERAL_NUMBER _ => longestNumber
  | .MS_TOKEN_LITERAL_STRING _ => oneOf stringQuote
  | .MS_TOKEN_LITERAL_TIME _ => longestTime
  | .MS_TOKEN_BINDING_DOUBLE _ => longestBinding
  | .MS_TOKEN_BINDING_STRING _ => longestQuotedBinding stringQuote
  | .MS_TOKEN_BINDING_TIME _ => longestQuotedBinding (· == 96)
  | .character _ => oneOf (· != 10)
  | _ => fun _ => none

theorem patternRules_pattern (member : rule ∈ patternRules atof) {msyytext : CString}
    (run : (rule.action msyytext).run text = (lexeme, rest)) (goesOn : lexeme ≠ .finish) :
    rule.longest = lexemePattern lexeme := by
  simp only [patternRules, mem_cons, not_mem_nil, or_false] at member
  rcases member with rfl | rfl | rfl | rfl | rfl | rfl | rfl | rfl
  case inr.inr.inr.inr.inr.inl =>
    simp only [quoteRule, LexAction.run] at run
    split at run
    · cases run
      rfl
    · cases run
      exact absurd rfl goesOn
  case inr.inr.inr.inr.inr.inr.inl =>
    cases run
    exact absurd rfl goesOn
  all_goals
    cases run
    rfl

theorem msyylex_pattern (noBlank : isBlank c = false) (isLexeme : msyylex atof (c :: text) = (lexeme, rest))
    (goesOn : lexeme ≠ .finish) (notWord : isWordLexeme lexeme = false) :
    ∃ count, lexemePattern lexeme (c :: text) = some count := by
  obtain ⟨rule, member, count, isMatch, run⟩ := msyylex_rule atof noBlank isLexeme goesOn
  rcases member_expressionRules atof member with ⟨other, action, isWord⟩ | isPattern
  · rw [action] at run
    cases run
    rw [isWord] at notWord
    cases notWord
  · rw [patternRules_pattern atof isPattern run goesOn] at isMatch
    exact ⟨count, isMatch⟩

theorem expressionRules_eq (text : CString) : chosen (expressionRules atof) text =
    better (chosen ((fixedWords α).map wordRule) text)
      (better (chosen ((specialBindings α).map wordRule) text) (chosen (patternRules atof) text)) := by
  rw [expressionRules, chosen_append, chosen_append]

theorem wordHead_plain (head : tolower c ∈ wordHeads) : isPatternHead c = false ∧ isBlank c = false ∧ c ≠ 91 := by
  have others : ∀ d ∈ [91, 34, 39, 96, 45, 46, 32, 9, 13], tolower d ∉ wordHeads := by decide +kernel
  have notOther : c ∉ [91, 34, 39, 96, 45, 46, 32, 9, 13] := fun member => others c member head
  have noDigit : isdigit c = false := by
    cases digit : isdigit c with
    | false => rfl
    | true =>
      have digits : ∀ d ∈ wordHeads, isdigit d = false := by decide +kernel
      have lower : tolower c = c := by
        simp only [isdigit, Bool.and_eq_true, decide_eq_true_eq, UInt8.le_iff_toNat_le] at digit
        apply if_neg
        rintro ⟨low, _⟩
        rw [UInt8.le_iff_toNat_le] at low
        simp only [UInt8.toNat_ofNat] at digit low
        omega
      rw [← digits c (lower ▸ head), digit]
  simp only [mem_cons, not_mem_nil, or_false, not_or] at notOther
  obtain ⟨noBracket, noDouble, noSingle, noBacktick, noMinus, noPoint, noSpace, noTab, noReturn⟩ := notOther
  simp [isPatternHead, isBlank, noDigit, noBracket, noDouble, noSingle, noBacktick, noMinus, noPoint, noSpace, noTab,
    noReturn]

theorem msyylex_wordBefore (member : word ∈ fixedWords α) {letters : CString}
    (same : sameIgnoringCase letters (ascii word.1) = true) {d : UInt8}
    (stops : ∀ other ∈ fixedWords α, ¬ ascii word.1 ++ [tolower d] <+: ascii other.1) (rest : CString) :
    msyylex atof (letters ++ d :: rest) = (word.2, d :: rest) := by
  obtain ⟨head, others, isWord, isHead, _⟩ := fixedWords_chars member
  have lowers := sameIgnoringCase_iff.mp same
  rw [lower_fixedWord member, isWord] at lowers
  cases letters with
  | nil => cases lowers
  | cons c letters =>
    have headChar : tolower c ∈ wordHeads := head_eq_of_cons_eq lowers ▸ isHead
    obtain ⟨noPattern, noBlank, noBracket⟩ := wordHead_plain headChar
    have isChosen : chosen (expressionRules atof) (c :: (letters ++ d :: rest)) =
        some ((c :: letters).length, .returns word.2) := by
      rw [expressionRules_eq, specials_none noBracket, patterns_single atof noPattern, ← cons_append,
        words_before member same stops rest]
      apply better_eq_first
      rintro found isFound
      cases isFound
      exact Nat.succ_le_of_lt (Nat.succ_pos _)
    rw [cons_append, msyylex_chosen atof noBlank isChosen, ← cons_append, drop_left]
    rfl

theorem msyylex_word (member : word ∈ fixedWords α) {letters : CString}
    (same : sameIgnoringCase letters (ascii word.1) = true) (rest : CString) :
    msyylex atof (letters ++ 32 :: rest) = (word.2, 32 :: rest) :=
  msyylex_wordBefore atof member same (blank_stops word) rest

def isPlainCharacter (c : UInt8) : Bool :=
  !wordHeads.contains (tolower c) && !isPatternHead c && !isBlank c && !isFinish c

theorem msyylex_character (plain : isPlainCharacter c = true) (text : CString) :
    msyylex atof (c :: text) = (.character c, text) := by
  simp only [isPlainCharacter, Bool.and_eq_true, Bool.not_eq_true', contains_eq_mem, decide_eq_false_iff_not] at plain
  obtain ⟨⟨⟨noHead, noPattern⟩, noBlank⟩, noFinish⟩ := plain
  have noBracket : c ≠ 91 := by
    rintro rfl
    cases noPattern
  have noQuote : stringQuote c = false := by
    cases quote : stringQuote c with
    | false => rfl
    | true =>
      rw [stringQuote, Bool.or_eq_true, beq_iff_eq, beq_iff_eq] at quote
      rcases quote with rfl | rfl <;> cases noPattern
  have isChosen : chosen (expressionRules atof) (c :: text) = some (1, .returns (.character c)) := by
    rw [expressionRules_eq, words_none noHead, specials_none noBracket, patterns_single atof noPattern]
    simp [singleAction, noQuote, noFinish]
  exact msyylex_chosen atof noBlank isChosen

theorem msStringUnescape_encode (c : UInt8) (text : CString) : msStringUnescape c (encode c text) = text := by
  induction text with
  | nil => rfl
  | cons x text ih =>
    by_cases same : x = c
    · subst x
      rw [encode_cons_self, msStringUnescape, if_pos ⟨rfl, rfl⟩, ih]
    · rw [encode_cons_of_ne same]
      cases others : encode c text with
      | nil =>
        rw [others] at ih
        rw [msStringUnescape, ← ih]
        rfl
      | cons next rest => rw [msStringUnescape, if_neg (fun equal => same equal.1), ← others, ih]

theorem inside_parts {front back : CString} (isFront : front.length = count) (isBack : back.length = count)
    (content : CString) : inside count (front ++ (content ++ back)) = content := by
  rw [inside, drop_left' isFront, length_append, length_append, isFront, isBack,
    show count + (content.length + count) - 2 * count = content.length by omega, take_left]

theorem bindingRule_found (longest : delimited 93 (encode 93 name ++ 93 :: rest) = some ((encode 93 name).length + 1)) :
    (bindingRule : Rule UInt8 (LexAction α)).found (91 :: (encode 93 name ++ 93 :: rest)) =
      some ((encode 93 name).length + 2, .returns (.MS_TOKEN_BINDING_DOUBLE name)) := by
  have matched : (91 :: (encode 93 name ++ 93 :: rest)).take ((encode 93 name).length + 2) =
      [91] ++ (encode 93 name ++ [93]) := by
    rw [take_succ_cons, take_length_add_append]
    rfl
  have content : inside 1 ([91] ++ (encode 93 name ++ [93])) = encode 93 name :=
    @inside_parts 1 [91] [93] rfl rfl _
  rw [Rule.found]
  simp only [bindingRule, longestBinding, longest, Option.map_some, matched, content, msStringUnescape_encode]

theorem quotedBinding_longest (quoted : isQuote quote = true)
    (longest : bracketed 93 quote (encode quote name ++ 93 :: quote :: rest) = some ((encode quote name).length + 2)) :
    longestQuotedBinding isQuote (quote :: 91 :: (encode quote name ++ 93 :: quote :: rest)) =
      some ((encode quote name).length + 4) := by
  simp only [longestQuotedBinding, quoted, if_true, longest, Option.map_some]

theorem take_quotedBinding (quote : UInt8) (content rest : CString) :
    (quote :: 91 :: (content ++ 93 :: quote :: rest)).take (content.length + 4) =
      [quote, 91] ++ (content ++ [93, quote]) := by
  rw [take_succ_cons, take_succ_cons, take_length_add_append]
  rfl

theorem quotedBinding_content (noBracket : quote ≠ 93)
    (longest : longestQuotedBinding isQuote (quote :: text) = some count) :
    isQuote quote = true ∧ ∃ name rest, text = 91 :: (encode quote name ++ 93 :: quote :: rest) ∧
      bracketed 93 quote (encode quote name ++ 93 :: quote :: rest) = some ((encode quote name).length + 2) := by
  unfold longestQuotedBinding at longest
  split at longest
  · rename_i same
    cases same
    split at longest
    · rename_i inner quoted
      obtain ⟨matched, isMatch, _⟩ := Option.map_eq_some_iff.mp longest
      obtain ⟨name, parts, isCount⟩ := bracketed_content (Ne.symm noBracket) isMatch
      refine ⟨quoted, name, inner.drop matched, by rw [← parts], ?_⟩
      rw [← parts, isMatch, isCount]
    · cases longest
  · cases longest

def specialNames : List (String × TokenCode) :=
  [("shape", .MS_TOKEN_BINDING_SHAPE), ("map_cellsize", .MS_TOKEN_BINDING_MAP_CELLSIZE),
   ("data_cellsize", .MS_TOKEN_BINDING_DATA_CELLSIZE)]

def isSpecialName (name : CString) : Bool := specialNames.any fun special => sameIgnoringCase name (ascii special.1)

def bindingLexeme (name : CString) : Lexeme α :=
  match specialNames.find? fun special => sameIgnoringCase name (ascii special.1) with
  | some special => .code special.2
  | none => .MS_TOKEN_BINDING_DOUBLE name

theorem bindingLexeme_ordinary (ordinary : isSpecialName name = false) :
    (bindingLexeme name : Lexeme α) = .MS_TOKEN_BINDING_DOUBLE name := by
  rw [isSpecialName, List.any_eq_false] at ordinary
  rw [bindingLexeme, find?_eq_none.mpr ordinary]

theorem bindingLexeme_special (special : isSpecialName name = true) :
    ∃ code, (bindingLexeme name : Lexeme α) = .code code := by
  rw [isSpecialName, List.any_eq_true] at special
  rw [bindingLexeme]
  split
  · exact ⟨_, rfl⟩
  · rename_i notFound
    obtain ⟨name, member, same⟩ := special
    exact absurd same (find?_eq_none.mp notFound name member)

theorem specialBindings_eq : (specialBindings α).map (fun word => (ascii word.1, word.2)) =
    specialNames.map fun special => (91 :: (ascii special.1 ++ [93]), .code special.2) := by
  simp [specialBindings, specialNames, ascii]

theorem specialNames_chars : ∀ special ∈ specialNames, ∀ c ∈ ascii special.1, tolower c = c ∧ c ≠ 93 := by
  simp [specialNames, ascii, tolower]

theorem specialNames_distinct : (specialNames.map fun special => ascii special.1).Nodup := by
  simp [specialNames, ascii]

theorem mem_encode {x : UInt8} : x ∈ encode c text ↔ x ∈ text := by
  rw [encode, mem_flatMap]
  constructor
  · rintro ⟨y, member, same⟩
    split at same <;> simp only [mem_cons, not_mem_nil, or_false, or_self] at same <;> exact same ▸ member
  · intro member
    refine ⟨x, member, ?_⟩
    split <;> simp

theorem special_match (member : special ∈ specialNames)
    (same : ((encode 93 name ++ 93 :: rest).take ((ascii special.1).length + 1)).map tolower = ascii special.1 ++ [93]) :
    sameIgnoringCase name (ascii special.1) = true ∧ encode 93 name = name ∨
      (ascii special.1).length < (encode 93 name).length := by
  have chars := specialNames_chars special member
  rcases Nat.lt_trichotomy (encode 93 name).length (ascii special.1).length with shorter | equal | longer
  · have bracket : (93 : UInt8) ∈ ((encode 93 name ++ 93 :: rest).take (ascii special.1).length).map tolower := by
      obtain ⟨more, isLength⟩ := Nat.exists_eq_add_of_lt shorter
      rw [isLength, Nat.add_assoc, take_length_add_append, take_succ_cons]
      simp [tolower]
    have front : ((encode 93 name ++ 93 :: rest).take (ascii special.1).length).map tolower = ascii special.1 := by
      have cut := congrArg (List.take (ascii special.1).length) same
      rwa [take_left, ← map_take, take_take, Nat.min_eq_left (Nat.le_succ _)] at cut
    rw [front] at bracket
    exact absurd rfl (chars 93 bracket).2
  · left
    rw [← equal, take_length_add_append, take_succ_cons, take_zero, map_append] at same
    have front := append_inj_left same (by rw [length_map, equal])
    have noBracket : (93 : UInt8) ∉ encode 93 name := by
      intro inside
      have lower : (93 : UInt8) ∈ (encode 93 name).map tolower := List.mem_map.mpr ⟨93, inside, rfl⟩
      rw [front] at lower
      exact (chars 93 lower).2 rfl
    have plain : encode 93 name = name := encode_of_not_mem (fun inside => noBracket (mem_encode.mpr inside))
    refine ⟨sameIgnoringCase_iff.mpr ?_, plain⟩
    have lower : (ascii special.1).map tolower = ascii special.1 := by
      apply (map_congr_left _).trans (List.map_id _)
      intro c inWord
      exact (chars c inWord).1
    rw [← plain, front, lower]
  · exact Or.inr longer

theorem patterns_binding (longest : delimited 93 (encode 93 name ++ 93 :: rest) = some ((encode 93 name).length + 1)) :
    chosen (patternRules atof) (91 :: (encode 93 name ++ 93 :: rest)) =
      some ((encode 93 name).length + 2, .returns (.MS_TOKEN_BINDING_DOUBLE name)) := by
  have noString : longestQuotedBinding stringQuote (91 :: (encode 93 name ++ 93 :: rest)) = none :=
    longestQuotedBinding_none (by decide) _
  have noTime : longestQuotedBinding (· == 96) (91 :: (encode 93 name ++ 93 :: rest)) = none :=
    longestQuotedBinding_none (by decide) _
  have noNumber : longestNumber (91 :: (encode 93 name ++ 93 :: rest)) = none :=
    longestNumber_none (by decide) (by decide) (by decide) _
  have noLiteral : longestTime (91 :: (encode 93 name ++ 93 :: rest)) = none := longestTime_none (by decide) _
  rw [patterns_eq, bindingRule_found longest]
  simp only [Rule.found, stringBindingRule, timeBindingRule, numberRule, timeRule, noString, noTime, noNumber, noLiteral,
    Option.map_none, none_better]
  apply better_eq_first
  intro found isFound
  cases isFound
  omega

theorem lower_specialName (member : special ∈ specialNames) : (ascii special.1).map tolower = ascii special.1 := by
  apply (map_congr_left _).trans (List.map_id _)
  intro c inWord
  exact (specialNames_chars special member c inWord).1

theorem specialBinding_letters (member : word ∈ specialBindings α) :
    ∃ special ∈ specialNames, ascii word.1 = 91 :: (ascii special.1 ++ [93]) ∧ word.2 = .code special.2 := by
  have pair : (ascii word.1, word.2) ∈ (specialBindings α).map fun word => (ascii word.1, word.2) :=
    List.mem_map.mpr ⟨word, member, rfl⟩
  rw [specialBindings_eq] at pair
  obtain ⟨special, isSpecial, same⟩ := List.mem_map.mp pair
  rw [Prod.mk.injEq] at same
  exact ⟨special, isSpecial, same.1.symm, same.2.symm⟩

theorem specialName_letters (member : special ∈ specialNames) :
    ∃ word ∈ specialBindings α, ascii word.1 = 91 :: (ascii special.1 ++ [93]) ∧ word.2 = .code special.2 := by
  have pair : (91 :: (ascii special.1 ++ [93]), (.code special.2 : Lexeme α)) ∈
      (specialBindings α).map fun word => (ascii word.1, word.2) := by
    rw [specialBindings_eq]
    exact List.mem_map.mpr ⟨special, member, rfl⟩
  obtain ⟨word, isWord, same⟩ := List.mem_map.mp pair
  rw [Prod.mk.injEq] at same
  exact ⟨word, isWord, same.1, same.2⟩

theorem special_rule (member : rule ∈ (specialBindings α).map wordRule)
    (isMatch : rule.longest (91 :: (encode 93 name ++ 93 :: rest)) = some count) :
    ∃ special ∈ specialNames, (∀ text, rule.action text = .returns (.code special.2)) ∧
      (sameIgnoringCase name (ascii special.1) = true ∧ count = (encode 93 name).length + 2 ∨
        count < (encode 93 name).length + 2) := by
  obtain ⟨word, isWord, rfl⟩ := List.mem_map.mp member
  obtain ⟨special, isSpecial, letters, result⟩ := specialBinding_letters isWord
  obtain ⟨isCount, same⟩ := wordRule_longest isMatch
  have length : count = (ascii special.1).length + 2 := by
    rw [isCount, letters]
    simp
  refine ⟨special, isSpecial, fun _ => by rw [wordRule, result], ?_⟩
  rw [length, letters, take_succ_cons, map_cons, map_cons, map_append,
    lower_specialName isSpecial] at same
  rcases special_match isSpecial (tail_eq_of_cons_eq same) with ⟨own, plain⟩ | shorter
  · have lengths := congrArg List.length (sameIgnoringCase_iff.mp own)
    rw [length_map, length_map] at lengths
    exact Or.inl ⟨own, by rw [plain, length, lengths]⟩
  · exact Or.inr (by omega)

theorem specials_own (member : special ∈ specialNames) (own : sameIgnoringCase name (ascii special.1) = true)
    (rest : CString) : chosen ((specialBindings α).map wordRule) (91 :: (encode 93 name ++ 93 :: rest)) =
      some ((encode 93 name).length + 2, .returns (.code special.2)) := by
  obtain ⟨word, isWord, letters, result⟩ := @specialName_letters α special member
  have lowers := sameIgnoringCase_iff.mp own
  have plain : encode 93 name = name := by
    apply encode_of_not_mem
    intro inside
    have lower : (93 : UInt8) ∈ name.map tolower := List.mem_map.mpr ⟨93, inside, rfl⟩
    rw [lowers, lower_specialName member] at lower
    exact (specialNames_chars special member 93 lower).2 rfl
  have whole : sameIgnoringCase (91 :: (name ++ [93])) (ascii word.1) = true := by
    rw [sameIgnoringCase_iff, letters]
    simp [lowers]
  have isMatch := wordRule_self whole rest
  rw [show 91 :: (name ++ [93]) ++ rest = 91 :: (name ++ 93 :: rest) by simp,
    show (91 :: (name ++ [93])).length = name.length + 2 by simp] at isMatch
  have isChosen := chosen_eq_of_longest (List.mem_map_of_mem isWord) isMatch (by
    intro rule isRule matched isOther
    rw [← plain] at isOther ⊢
    obtain ⟨other, isName, action, ⟨sameOther, equal⟩ | shorter⟩ := special_rule isRule isOther
    · have letters := lowers.symm.trans (sameIgnoringCase_iff.mp sameOther)
      rw [lower_specialName member, lower_specialName isName] at letters
      cases inj_on_of_nodup_map specialNames_distinct member isName letters
      exact Or.inr ⟨by rw [equal, plain], by rw [action, wordRule, result]⟩
    · exact Or.inl (by rwa [plain] at shorter ⊢))
  rw [plain, isChosen, wordRule, result]

theorem msyylex_bracket (longest : delimited 93 (encode 93 name ++ 93 :: rest) = some ((encode 93 name).length + 1)) :
    msyylex atof (91 :: (encode 93 name ++ 93 :: rest)) = (bindingLexeme name, rest) := by
  have dropped : (91 :: (encode 93 name ++ 93 :: rest)).drop ((encode 93 name).length + 2) = rest := by
    rw [drop_succ_cons, drop_length_add_append]
    rfl
  have patterns := patterns_binding atof longest
  cases found : specialNames.find? fun special => sameIgnoringCase name (ascii special.1) with
  | none =>
    have isChosen : chosen (expressionRules atof) (91 :: (encode 93 name ++ 93 :: rest)) =
        some ((encode 93 name).length + 2, .returns (.MS_TOKEN_BINDING_DOUBLE name)) := by
      rw [expressionRules_eq, words_none (by decide), patterns]
      apply better_eq_later
      rintro ⟨count, result⟩ isSpecial
      obtain ⟨rule, member, isMatch, _⟩ := chosen_eq_some isSpecial
      obtain ⟨special, isName, _, own | shorter⟩ := special_rule member isMatch
      · exact absurd own.1 (find?_eq_none.mp found special isName)
      · exact shorter
    rw [msyylex_chosen atof (by decide) isChosen, dropped, bindingLexeme, found]
    rfl
  | some special =>
    have own := find?_some found
    have isChosen : chosen (expressionRules atof) (91 :: (encode 93 name ++ 93 :: rest)) =
        some ((encode 93 name).length + 2, .returns (.code special.2)) := by
      rw [expressionRules_eq, words_none (by decide), patterns, specials_own (mem_of_find?_eq_some found) own,
        none_better]
      apply better_eq_first
      intro later isLater
      cases isLater
      exact Nat.le_refl _
    rw [msyylex_chosen atof (by decide) isChosen, dropped, bindingLexeme, found]
    rfl

theorem bracket_binding (isLexeme : msyylex atof (91 :: text) = (.MS_TOKEN_BINDING_DOUBLE name, rest)) :
    text = encode 93 name ++ 93 :: rest := by
  cases longest : delimited 93 text with
  | some count =>
    obtain ⟨content, parts, rfl⟩ := delimited_content longest
    generalize text.drop _ = after at parts
    subst text
    rw [msyylex_bracket atof longest, Prod.mk.injEq] at isLexeme
    obtain ⟨isBinding, rfl⟩ := isLexeme
    unfold bindingLexeme at isBinding
    split at isBinding
    · cases isBinding
    · cases isBinding
      rfl
  | none =>
    obtain ⟨count, isMatch⟩ := msyylex_pattern atof (by decide) isLexeme (by simp) rfl
    rw [lexemePattern, longestBinding, longest] at isMatch
    cases isMatch

theorem quote_plain (isQuote : stringQuote quote = true) :
    tolower quote ∉ wordHeads ∧ isBlank quote = false ∧ quote ≠ 91 ∧ isdigit quote = false ∧ quote ≠ 45 ∧ quote ≠ 46 ∧
      quote ≠ 96 ∧ quote ≠ 93 := by
  rw [stringQuote, Bool.or_eq_true, beq_iff_eq, beq_iff_eq] at isQuote
  rcases isQuote with rfl | rfl <;> decide

theorem patterns_quote (isQuote : stringQuote quote = true) (text : CString) :
    chosen (expressionRules atof) (quote :: text) =
      better (stringBindingRule.found (quote :: text)) (some (1, .beginString quote)) := by
  obtain ⟨noHead, _, noBracket, noDigit, noMinus, noPoint, noBacktick, _⟩ := quote_plain isQuote
  have noTime : longestQuotedBinding (· == 96) (quote :: text) = none :=
    longestQuotedBinding_none (by simp [noBacktick]) text
  rw [expressionRules_eq, words_none noHead, specials_none noBracket, patterns_eq]
  simp [Rule.found, bindingRule, timeBindingRule, numberRule, timeRule, longestBinding_none noBracket, noTime,
    longestNumber_none noDigit noMinus noPoint, longestTime_none noBacktick, singleAction, isQuote]

theorem msyylex_quoted (isQuote : stringQuote quote = true)
    (noBinding : longestQuotedBinding stringQuote (quote :: text) = none) :
    msyylex atof (quote :: text) = (LexAction.beginString quote).run text := by
  have isChosen := patterns_quote atof isQuote text
  have noMatch : (stringBindingRule : Rule UInt8 (LexAction α)).found (quote :: text) = none := Rule.found_none noBinding
  rw [noMatch, none_better] at isChosen
  exact msyylex_chosen atof (quote_plain isQuote).2.1 isChosen

theorem msyylex_quotedBinding (isQuote : stringQuote quote = true)
    (longest : bracketed 93 quote (encode quote name ++ 93 :: quote :: rest) = some ((encode quote name).length + 2)) :
    msyylex atof (quote :: 91 :: (encode quote name ++ 93 :: quote :: rest)) = (.MS_TOKEN_BINDING_STRING name, rest) := by
  have content : inside 2 ([quote, 91] ++ (encode quote name ++ [93, quote])) = encode quote name :=
    @inside_parts 2 [quote, 91] [93, quote] rfl rfl _
  have found : (stringBindingRule : Rule UInt8 (LexAction α)).found
      (quote :: 91 :: (encode quote name ++ 93 :: quote :: rest)) =
        some ((encode quote name).length + 4, .returns (.MS_TOKEN_BINDING_STRING name)) := by
    rw [Rule.found]
    simp only [stringBindingRule, quotedBinding_longest isQuote longest, Option.map_some, take_quotedBinding, content]
    simp [msStringUnescape_encode]
  have isChosen := patterns_quote atof isQuote (91 :: (encode quote name ++ 93 :: quote :: rest))
  rw [found, better_eq_first (by
    intro later isLater
    cases isLater
    omega)] at isChosen
  rw [msyylex_chosen atof (quote_plain isQuote).2.1 isChosen, drop_succ_cons, drop_succ_cons,
    drop_length_add_append]
  rfl

theorem patterns_backtick (text : CString) : chosen (expressionRules atof) (96 :: text) =
    better (timeBindingRule.found (96 :: text)) (better (timeRule.found (96 :: text)) (some (1, .returns (.character 96)))) := by
  have noBinding : (bindingRule : Rule UInt8 (LexAction α)).longest (96 :: text) = none := by
    change longestBinding (96 :: text) = none
    exact longestBinding_none (by decide) text
  have noString : (stringBindingRule : Rule UInt8 (LexAction α)).longest (96 :: text) = none := by
    change longestQuotedBinding stringQuote (96 :: text) = none
    exact longestQuotedBinding_none (by decide) text
  have noNumber : (numberRule atof).longest (96 :: text) = none := by
    change longestNumber (96 :: text) = none
    exact longestNumber_none (by decide) (by decide) (by decide) text
  rw [expressionRules_eq, words_none (by decide), specials_none (by decide), patterns_eq, Rule.found_none noBinding,
    Rule.found_none noString, Rule.found_none noNumber]
  rfl

theorem takeWhile_length_le (front back : CString) : ((front ++ c :: back).takeWhile (· != c)).length ≤ front.length := by
  induction front with
  | nil => simp
  | cons d front ih =>
    rw [cons_append, takeWhile_cons]
    split
    · exact Nat.succ_le_succ ih
    · exact Nat.zero_le _

theorem msyylex_timeBinding
    (longest : bracketed 93 96 (encode 96 name ++ 93 :: 96 :: rest) = some ((encode 96 name).length + 2)) :
    msyylex atof (96 :: 91 :: (encode 96 name ++ 93 :: 96 :: rest)) = (.MS_TOKEN_BINDING_TIME name, rest) := by
  have content : inside 2 ([96, 91] ++ (encode 96 name ++ [93, 96])) = encode 96 name :=
    @inside_parts 2 [96, 91] [93, 96] rfl rfl _
  have found : (timeBindingRule : Rule UInt8 (LexAction α)).found (96 :: 91 :: (encode 96 name ++ 93 :: 96 :: rest)) =
      some ((encode 96 name).length + 4, .returns (.MS_TOKEN_BINDING_TIME name)) := by
    have isMatch : longestQuotedBinding (· == 96) (96 :: 91 :: (encode 96 name ++ 93 :: 96 :: rest)) =
        some ((encode 96 name).length + 4) := quotedBinding_longest rfl longest
    rw [Rule.found]
    simp only [timeBindingRule, isMatch, Option.map_some, take_quotedBinding, content, msStringUnescape_encode]
  have isChosen := patterns_backtick atof (91 :: (encode 96 name ++ 93 :: 96 :: rest))
  rw [found, better_eq_first (by
    intro later isLater
    rcases better_eq_some isLater with time | single
    · obtain ⟨count, isMatch, rfl⟩ := Option.map_eq_some_iff.mp time
      have bound := @takeWhile_length_le 96 (91 :: (encode 96 name ++ [93])) rest
      change longestTime (96 :: 91 :: (encode 96 name ++ 93 :: 96 :: rest)) = some count at isMatch
      rw [longestTime] at isMatch
      split at isMatch
      · cases isMatch
        simp only [cons_append, append_assoc, nil_append, length_cons, length_append,
          length_nil] at bound
        omega
      · cases isMatch
    · cases single
      omega)] at isChosen
  rw [msyylex_chosen atof (by decide) isChosen, drop_succ_cons, drop_succ_cons, drop_length_add_append]
  rfl

theorem msyylex_time (noBinding : longestQuotedBinding (· == 96) (96 :: text) = none) (closed : 96 ∈ text) :
    msyylex atof (96 :: text) =
      (.MS_TOKEN_LITERAL_TIME (text.takeWhile (· != 96)), text.drop ((text.takeWhile (· != 96)).length + 1)) := by
  obtain ⟨front, back, rfl, absent⟩ := eq_append_cons_of_mem closed
  have all : ∀ c ∈ front, (c != 96) = true := by
    intro c member
    simp only [bne_iff_ne]
    rintro rfl
    exact absent member
  have content : (front ++ 96 :: back).takeWhile (· != 96) = front := by
    rw [takeWhile_append_of_pos all]
    simp
  have isMatch : longestTime (96 :: (front ++ 96 :: back)) = some (front.length + 2) := by
    rw [longestTime, if_pos closed, content]
  have matched : (96 :: (front ++ 96 :: back)).take (front.length + 2) = [96] ++ (front ++ [96]) := by
    rw [take_succ_cons, take_length_add_append]
    rfl
  have isInside : inside 1 ([96] ++ (front ++ [96])) = front := @inside_parts 1 [96] [96] rfl rfl _
  have found : (timeRule : Rule UInt8 (LexAction α)).found (96 :: (front ++ 96 :: back)) =
      some (front.length + 2, .returns (.MS_TOKEN_LITERAL_TIME front)) := by
    rw [Rule.found]
    simp only [timeRule, isMatch, Option.map_some, matched, isInside]
  have isChosen := patterns_backtick atof (front ++ 96 :: back)
  rw [Rule.found_none (noBinding : timeBindingRule.longest (96 :: (front ++ 96 :: back)) = none), none_better, found,
    better_eq_first (by
      intro later isLater
      cases isLater
      omega)] at isChosen
  rw [msyylex_chosen atof (by decide) isChosen, content, drop_succ_cons]
  rfl

theorem dropWhile_append_of_boundary {digit : UInt8 → Bool} (boundary : ∀ c ∈ rest.head?, digit c = false) :
    (text ++ rest).dropWhile digit = text.dropWhile digit ++ rest := by
  rw [dropWhile_append]
  split
  · rename_i isEmpty
    rw [List.isEmpty_iff.mp isEmpty, nil_append]
    cases rest with
    | nil => rfl
    | cons c rest => exact dropWhile_cons_of_neg (by simp [boundary c rfl])
  · rfl

theorem takeWhile_append_of_boundary {digit : UInt8 → Bool} (boundary : ∀ c ∈ rest.head?, digit c = false) :
    (text ++ rest).takeWhile digit = text.takeWhile digit := by
  rw [takeWhile_append]
  split
  · rename_i whole
    have same := (List.takeWhile_prefix digit).eq_of_length whole
    have nothing : rest.takeWhile digit = [] := by
      cases rest with
      | nil => rfl
      | cons c rest => exact takeWhile_cons_of_neg (by simp [boundary c rfl])
    rw [nothing, append_nil, same]
  · rfl

def EndsNumber (rest : CString) : Prop := ∀ c ∈ rest.head?, isdigit c = false ∧ c ≠ 46 ∧ tolower c ≠ 101

theorem skipLexMantissa_append {after : CString} (ends : EndsNumber rest) (skipped : skipLexMantissa text = some after) :
    skipLexMantissa (text ++ rest) = some (after ++ rest) := by
  have boundary : ∀ c ∈ rest.head?, isdigit c = false := fun c head => (ends c head).1
  rw [skipLexMantissa] at skipped ⊢
  rw [dropWhile_append_of_boundary boundary, takeWhile_append_of_boundary boundary]
  cases digits : text.dropWhile isdigit with
  | nil =>
    rw [digits] at skipped
    split at skipped
    · rename_i same
      cases same
    · split at skipped
      · cases skipped
      · rename_i isDigit
        cases skipped
        rw [nil_append]
        split
        · rename_i fraction
          exact absurd rfl (ends 46 rfl).2.1
        · rw [if_neg isDigit]
  | cons c others =>
    rw [digits] at skipped
    rw [cons_append]
    by_cases point : c = 46
    · subst c
      cases skipped
      rw [← dropWhile_append_of_boundary boundary]
      rfl
    · split at skipped
      · rename_i same
        exact absurd (head_eq_of_cons_eq same) point
      · split at skipped
        · cases skipped
        · rename_i isDigit
          cases skipped
          split
          · rename_i same
            exact absurd (head_eq_of_cons_eq same) point
          · rw [if_neg isDigit]
            rfl

theorem skipSign_append (notEmpty : text ≠ []) (rest : CString) : skipSign (text ++ rest) = skipSign text ++ rest := by
  cases text with
  | nil => exact absurd rfl notEmpty
  | cons c text =>
    rw [cons_append]
    unfold skipSign
    split
    · rename_i same
      cases same
      rfl
    · rename_i same
      cases same
      rfl
    · rename_i notPlus notMinus
      split
      · rename_i same
        exact absurd (by rw [head_eq_of_cons_eq same]) (notPlus (text ++ rest))
      · rename_i same
        exact absurd (by rw [head_eq_of_cons_eq same]) (notMinus (text ++ rest))
      · rfl

theorem skipExponent_append (ends : EndsNumber rest) (skipped : skipExponent 101 text = []) :
    skipExponent 101 (text ++ rest) = rest := by
  have boundary : ∀ c ∈ rest.head?, isdigit c = false := fun c head => (ends c head).1
  cases text with
  | nil =>
    rw [nil_append]
    cases rest with
    | nil => rfl
    | cons c rest => rw [skipExponent, if_neg (fun exponent => (ends c rfl).2.2 exponent.1)]
  | cons c text =>
    rw [skipExponent] at skipped
    split at skipped
    · rename_i exponent
      have notEmpty : text ≠ [] := by
        rintro rfl
        exact exponent.2 rfl
      rw [cons_append, skipExponent, skipSign_append notEmpty, takeWhile_append_of_boundary boundary,
        if_pos exponent, dropWhile_append_of_boundary boundary, skipped, nil_append]
    · cases skipped

theorem skipMinus_append (notEmpty : text ≠ []) (rest : CString) : skipMinus (text ++ rest) = skipMinus text ++ rest := by
  cases text with
  | nil => exact absurd rfl notEmpty
  | cons c text =>
    rw [cons_append]
    unfold skipMinus
    split
    · rename_i same
      cases same
      rfl
    · rename_i notMinus
      split
      · rename_i same
        exact absurd (by rw [head_eq_of_cons_eq same]) (notMinus (text ++ rest))
      · rfl

theorem skipNumber_append (ends : EndsNumber rest) (number : skipNumber text = some []) :
    skipNumber (text ++ rest) = some rest := by
  have notEmpty : text ≠ [] := by
    rintro rfl
    cases number
  obtain ⟨mantissa, isMantissa, skipped⟩ := Option.map_eq_some_iff.mp number
  rw [skipNumber, skipMinus_append notEmpty, skipLexMantissa_append ends isMantissa, Option.map_some,
    skipExponent_append ends skipped]

theorem skipExponent_suffix (letter : UInt8) (text : CString) : skipExponent letter text <:+ text := by
  cases text with
  | nil => exact suffix_refl _
  | cons c rest =>
    rw [skipExponent]
    split
    · have sign : skipSign rest <:+ rest := by
        unfold skipSign
        split
        · exact suffix_cons _ _
        · exact suffix_cons _ _
        · exact suffix_refl _
      exact ((dropWhile_suffix isdigit).trans sign).trans (suffix_cons _ _)
    · exact suffix_refl _

theorem skipLexMantissa_suffix (skipped : skipLexMantissa text = some rest) : rest <:+ text := by
  have digits := text.dropWhile_suffix isdigit
  rw [skipLexMantissa] at skipped
  split at skipped
  · rename_i fraction point
    cases skipped
    rw [point] at digits
    exact ((dropWhile_suffix isdigit).trans (suffix_cons _ _)).trans digits
  · split at skipped
    · cases skipped
    · cases skipped
      exact digits

theorem skipNumber_suffix (skipped : skipNumber text = some rest) : rest <:+ text := by
  obtain ⟨mantissa, isMantissa, rfl⟩ := Option.map_eq_some_iff.mp skipped
  have sign : skipMinus text <:+ text := by
    unfold skipMinus
    split
    · exact suffix_cons _ _
    · exact suffix_refl _
  exact ((skipExponent_suffix 101 mantissa).trans (skipLexMantissa_suffix isMantissa)).trans sign

theorem patternHead_noWord (head : isPatternHead c = true) : tolower c ∉ wordHeads := by
  intro isWord
  rw [(wordHead_plain isWord).1] at head
  cases head

theorem numberHead_plain (head : isdigit c = true ∨ c = 45 ∨ c = 46) :
    tolower c ∉ wordHeads ∧ isBlank c = false ∧ c ≠ 91 ∧ c ≠ 96 ∧ stringQuote c = false := by
  have isHead : isPatternHead c = true := by
    rcases head with digit | rfl | rfl
    · rw [isPatternHead, digit]
      rfl
    · rfl
    · rfl
  refine ⟨patternHead_noWord isHead, ?_⟩
  rcases head with digit | rfl | rfl
  · have others : ∀ d ∈ [32, 9, 13, 91, 96, 34, 39], isdigit d = false := by decide +kernel
    have notOther : c ∉ [32, 9, 13, 91, 96, 34, 39] := by
      intro member
      rw [others c member] at digit
      cases digit
    simp only [mem_cons, not_mem_nil, or_false, not_or] at notOther
    simp [isBlank, stringQuote, notOther]
  · decide
  · decide

theorem skipNumber_head (skipped : skipNumber (c :: text) = some rest) : isdigit c = true ∨ c = 45 ∨ c = 46 := by
  by_cases digit : isdigit c = true
  · exact Or.inl digit
  · by_cases minus : c = 45
    · exact Or.inr (Or.inl minus)
    · by_cases point : c = 46
      · exact Or.inr (Or.inr point)
      · have noNumber := longestNumber_none (Bool.eq_false_iff.mpr digit) minus point text
        rw [longestNumber, skipped] at noNumber
        cases noNumber

theorem msyylex_number (skipped : skipNumber text = some rest) :
    msyylex atof text = (.MS_TOKEN_LITERAL_NUMBER (atof (text.take (text.length - rest.length))), rest) := by
  have shorter := skipNumber_shorter skipped
  cases text with
  | nil => simp at shorter
  | cons c text =>
    obtain ⟨noWord, noBlank, noBracket, noBacktick, noQuote⟩ := numberHead_plain (skipNumber_head skipped)
    have isMatch : longestNumber (c :: text) = some ((c :: text).length - rest.length) := by
      rw [longestNumber, skipped, Option.map_some]
    have noTime : longestQuotedBinding (· == 96) (c :: text) = none :=
      longestQuotedBinding_none (by simp [noBacktick]) text
    have isChosen : chosen (expressionRules atof) (c :: text) = some ((c :: text).length - rest.length,
        .returns (.MS_TOKEN_LITERAL_NUMBER (atof ((c :: text).take ((c :: text).length - rest.length))))) := by
      rw [expressionRules_eq, words_none noWord, specials_none noBracket, patterns_eq]
      simp only [Rule.found, bindingRule, stringBindingRule, timeBindingRule, numberRule, timeRule,
        longestBinding_none noBracket, longestQuotedBinding_none noQuote, noTime, longestTime_none noBacktick,
        isMatch, Option.map_none, Option.map_some, none_better]
      apply better_eq_first
      intro found isFound
      cases isFound
      omega
    rw [msyylex_chosen atof noBlank isChosen, LexAction.run]
    obtain ⟨used, parts⟩ := skipNumber_suffix skipped
    rw [← parts, length_append, Nat.add_sub_cancel, drop_left]

end Patterns

end MapServer
