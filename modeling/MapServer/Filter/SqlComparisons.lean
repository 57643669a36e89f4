import MapServer.Filter.SqlExpression
import MapServer.Lib.Quoting

namespace MapServer
open List

open Lib.Quoting

def sqlQuote (c : UInt8) : Bool := c == 39 || c == 34

def SqlClosed (text : CString) (literals : List CString) : Prop := Closed sqlQuote 40 41 39 text literals

def backslashed (text : CString) : CString := text.flatMap fun c => if c = 92 then [92, 92] else [c]

def likeText (pszWild pszSingle pszEscape : UInt8) (escaped : Bool) : CString → CString
  | [] => []
  | c :: rest =>
    if escaped then c :: likeText pszWild pszSingle pszEscape false rest
    else if c ≠ pszWild ∧ c ≠ pszSingle ∧ c ≠ pszEscape then
      (if c = 92 then [92, 92] else [c]) ++ likeText pszWild pszSingle pszEscape false rest
    else if c = pszSingle then 95 :: likeText pszWild pszSingle pszEscape false rest
    else if c = pszEscape then pszEscape :: likeText pszWild pszSingle pszEscape true rest
    else 37 :: likeText pszWild pszSingle pszEscape false rest

theorem encode_cons {quote c : UInt8} {text : CString} :
    encode quote (c :: text) = (if c = quote then [c, c] else [c]) ++ encode quote text := flatMap_cons

theorem encode_append {quote : UInt8} {first second : CString} :
    encode quote (first ++ second) = encode quote first ++ encode quote second := flatMap_append

theorem escaped_eq {quote : UInt8} (notBackslash : quote ≠ 92) (text : CString) :
    text.flatMap (fun c => if c = quote then [quote, quote] else if c = 92 then [92, 92] else [c]) =
      encode quote (backslashed text) := by
  induction text with
  | nil => rfl
  | cons c text ih =>
    have rest : backslashed (c :: text) = (if c = 92 then [92, 92] else [c]) ++ backslashed text := flatMap_cons
    rw [flatMap_cons, ih, rest, encode_append]
    congr 1
    by_cases isQuote : c = quote
    · subst c
      simp [notBackslash, encode]
    · by_cases isBackslash : c = 92
      · subst c
        simp [notBackslash.symm, encode]
      · simp [isQuote, isBackslash, encode]

theorem LayerDefaultEscapeSQLParam_eq (text : CString) :
    LayerDefaultEscapeSQLParam text = encode 39 (backslashed text) := escaped_eq (by decide) text

theorem msDefaultEscapePropertyName_eq (text : CString) :
    msDefaultEscapePropertyName text = 34 :: encode 34 (backslashed text) ++ [34] := by
  rw [msDefaultEscapePropertyName, escaped_eq (by decide)]

theorem likePattern_eq {pszWild pszSingle pszEscape : UInt8} (notQuote : pszEscape ≠ 39) (escaped : Bool) (text : CString) :
    likePattern pszWild pszSingle pszEscape escaped text =
      encode 39 (likeText pszWild pszSingle pszEscape escaped text) := by
  induction text generalizing escaped with
  | nil => rfl
  | cons c rest ih =>
    rw [likePattern, likeText]
    simp only [ih]
    split
    · rw [encode_cons]
      by_cases isQuote : c = 39 <;> simp [isQuote]
    · split
      · rw [encode_append]
        by_cases isQuote : c = 39
        · subst c
          rfl
        · by_cases isBackslash : c = 92
          · subst c
            rfl
          · simp [isQuote, isBackslash, encode]
      · split
        · rw [encode_cons]
          rfl
        · split
          · rw [encode_cons, if_neg notQuote]
            rfl
          · rw [encode_cons]
            rfl

theorem foldl_strlcat (siz : Nat) {buffer : CString} (fits : buffer.length ≤ siz - 1) (pieces : List CString) :
    pieces.foldl (strlcat siz) buffer = (buffer ++ pieces.flatten).take (siz - 1) := by
  induction pieces generalizing buffer with
  | nil => simp [take_of_length_le fits]
  | cons piece pieces ih =>
    have next : (strlcat siz buffer piece).length ≤ siz - 1 := by
      rw [strlcat, length_append, length_take]
      omega
    have cut : strlcat siz buffer piece = (buffer ++ piece).take (siz - 1) := by
      rw [strlcat, take_append, take_of_length_le fits]
    rw [foldl_cons, ih next, cut, flatten_cons, ← append_assoc, take_append, take_take,
      Nat.min_self, @List.take_append _ (buffer ++ piece), length_take]
    congr 2
    omega

theorem sqlPlain_of_number {text : CString} (number : ∀ c ∈ text, isNumberChar c = true) : Plain sqlQuote 40 41 text := by
  intro c member
  have isNumber := number c member
  refine ⟨?_, ?_, ?_⟩
  · rw [Bool.eq_false_iff]
    intro isQuote
    simp only [sqlQuote, Bool.or_eq_true, beq_iff_eq] at isQuote
    rcases isQuote with rfl | rfl
    · revert isNumber
      decide
    · revert isNumber
      decide
  · rintro rfl
    revert isNumber
    decide
  · rintro rfl
    revert isNumber
    decide

variable {pszValue : CString}

theorem numeric_closed (numeric : FLTIsNumeric pszValue = true) : SqlClosed pszValue [] := by
  obtain ⟨used, chars, rfl, isNumber, isChars⟩ := FLTIsNumeric_chars numeric
  rcases isChars with rfl | ⟨inner, rfl, isInner⟩
  · rw [append_nil]
    exact (sqlPlain_of_number isNumber).closed
  · apply Closed.after_plain (sqlPlain_of_number isNumber)
    exact (sqlPlain_of_number isInner).closed.brackets (by decide) (by decide)

theorem numeric_chars (numeric : FLTIsNumeric pszValue = true) : ∀ c ∈ pszValue, sqlQuote c = false ∧ c ≠ 92 := by
  have number {text : CString} (isNumber : ∀ c ∈ text, isNumberChar c = true) : ∀ c ∈ text, sqlQuote c = false ∧ c ≠ 92 := by
    intro c member
    refine ⟨(sqlPlain_of_number isNumber c member).1, ?_⟩
    rintro rfl
    exact absurd (isNumber 92 member) (by decide)
  obtain ⟨used, chars, rfl, isNumber, isChars⟩ := FLTIsNumeric_chars numeric
  have front := number isNumber
  rcases isChars with rfl | ⟨inner, rfl, isInner⟩
  · rw [append_nil]
    exact front
  · have middle := number isInner
    simp only [forall_mem_append, forall_mem_cons]
    exact ⟨front, ⟨by decide, middle⟩, by decide, by simp⟩

theorem numeric_escaped (numeric : FLTIsNumeric pszValue = true) : LayerDefaultEscapeSQLParam pszValue = pszValue := by
  have chars := numeric_chars numeric
  clear numeric
  induction pszValue with
  | nil => rfl
  | cons c text ih =>
    rw [forall_mem_cons] at chars
    have notQuote : c ≠ 39 := by
      rintro rfl
      exact absurd chars.1.1 (by decide)
    rw [LayerDefaultEscapeSQLParam, flatMap_cons, if_neg notQuote, if_neg chars.1.2]
    exact congrArg (c :: ·) (ih chars.2)

theorem name_closed (name : CString) : SqlClosed (msDefaultEscapePropertyName name) [] := by
  rw [msDefaultEscapePropertyName_eq]
  exact closed_quoted (by decide) _

theorem literal_closed (text : CString) : SqlClosed (39 :: encode 39 text ++ [39]) [text] :=
  closed_quoted (by decide) _

theorem closed_buffer_iff {body tail : CString} {literals : List CString} (closed : SqlClosed body literals)
    (tailPlain : Plain sqlQuote 40 41 tail) :
    SqlClosed ((ascii " (" ++ body ++ 41 :: tail).take 1023) literals ↔ body.length + 3 ≤ 1023 := by
  have frontPlain : Plain sqlQuote 40 41 [32] := by simp [Plain, sqlQuote]
  have cut := closed_take_iff frontPlain tailPlain (by decide) (by decide) closed (by decide : [32].length < 1023)
  have bound : [32].length + body.length + 2 ≤ 1023 ↔ body.length + 3 ≤ 1023 := by
    rw [length_singleton]
    omega
  have same : ascii " (" ++ body ++ 41 :: tail = [32] ++ (40 :: body ++ 41 :: tail) := by simp [ascii]
  rw [same]
  exact cut.trans bound

section Nodes
variable {α : Type} {lp : SqlLayer α}

def sqlValue (bString : Bool) (value : CString) : CString :=
  if bString then 39 :: LayerDefaultEscapeSQLParam value ++ [39] else value

def valueLiterals (bString : Bool) (value : CString) : List CString := if bString then [backslashed value] else []

variable {value propertyName pszValue : CString} {psRightNode : FilterEncodingNode α} {literals : List CString}

theorem sqlValue_closed {bString : Bool} (numeric : bString = false → FLTIsNumeric value = true) :
    SqlClosed (sqlValue bString value) (valueLiterals bString value) := by
  cases bString with
  | true =>
    simp only [sqlValue, valueLiterals, if_true]
    rw [LayerDefaultEscapeSQLParam_eq]
    exact literal_closed _
  | false => exact numeric_closed (numeric rfl)

theorem comparisonOperator_plain (pszValue : CString) : Plain sqlQuote 40 41 (comparisonOperator pszValue ++ [32]) := by
  unfold comparisonOperator
  split
  · simp [Plain, ascii, sqlQuote]
  · split
    · simp [Plain, ascii, sqlQuote]
    · split
      · simp [Plain, ascii, sqlQuote]
      · split
        · simp [Plain, ascii, sqlQuote]
        · split
          · simp [Plain, ascii, sqlQuote]
          · split <;> simp [Plain, ascii, sqlQuote]

theorem comparesString_numeric (noString : comparesString lp propertyName (some value) = false) :
    FLTIsNumeric value = true := by
  rw [comparesString, Bool.or_eq_false_iff, Bool.not_eq_false'] at noString
  exact noString.2

def comparedValue (psRightNode : FilterEncodingNode α) : CString := psRightNode.pszValue.getD []

theorem binaryComparison_eq (exact : comparesLower lp pszValue propertyName psRightNode = false) :
    FLTGetBinaryComparisonSQLExpresssion lp pszValue propertyName psRightNode =
      (ascii " (" ++ (msDefaultEscapePropertyName propertyName ++ (comparisonOperator pszValue ++ [32] ++
        sqlValue (comparesString lp propertyName psRightNode.pszValue) (comparedValue psRightNode))) ++ 41 :: [32]).take 1023 := by
  rw [FLTGetBinaryComparisonSQLExpresssion]
  simp only [exact, Bool.false_eq_true, if_false]
  rw [foldl_strlcat 1024 (by simp)]
  congr 1
  cases value : psRightNode.pszValue with
  | none => simp [comparesString, comparedValue, value, sqlValue, quoteOf, LayerDefaultEscapeSQLParam, ascii]
  | some literal =>
    cases isString : comparesString lp propertyName (some literal) <;>
      simp [comparedValue, value, sqlValue, quoteOf, ascii]

theorem exactComparison_closed_iff (exact : comparesLower lp pszValue propertyName psRightNode = false) :
    SqlClosed (FLTGetBinaryComparisonSQLExpresssion lp pszValue propertyName psRightNode)
        (valueLiterals (comparesString lp propertyName psRightNode.pszValue) (comparedValue psRightNode)) ↔
      (msDefaultEscapePropertyName propertyName).length + (comparisonOperator pszValue).length +
        (sqlValue (comparesString lp propertyName psRightNode.pszValue) (comparedValue psRightNode)).length + 4 ≤ 1023 := by
  have value : SqlClosed (sqlValue (comparesString lp propertyName psRightNode.pszValue) (comparedValue psRightNode))
      (valueLiterals (comparesString lp propertyName psRightNode.pszValue) (comparedValue psRightNode)) := by
    apply sqlValue_closed
    intro noString
    cases value : psRightNode.pszValue with
    | none => simp [value, comparesString] at noString
    | some literal =>
      rw [value] at noString
      rw [comparedValue, value]
      exact comparesString_numeric noString
  have body := (name_closed propertyName).separated (comparisonOperator_plain pszValue) (by simp) value
  rw [binaryComparison_eq exact]
  refine (closed_buffer_iff body (by simp [Plain, sqlQuote])).trans ?_
  simp only [length_append, length_singleton]
  omega

theorem snprintf_lower (part : CString) :
    ∃ rest : CString, Plain sqlQuote 40 41 rest ∧ snprintf 256 (ascii "lower(" ++ part ++ ascii ") ") =
      if part.length + 7 ≤ 255 then ascii "lower(" ++ part ++ [41] ++ rest else ascii "lower(" ++ part.take 249 := by
  have whole : ascii "lower(" ++ part ++ ascii ") " = ascii "lower(" ++ (part ++ 41 :: [32]) := by simp [ascii]
  have size : 256 - 1 = (ascii "lower(").length + 249 := by simp [ascii]
  rw [snprintf, whole, size, take_length_add_append]
  by_cases fits : part.length + 7 ≤ 255
  · obtain ⟨more, rest⟩ : ∃ more, 249 = part.length + (more + 1) := ⟨249 - (part.length + 1), by omega⟩
    refine ⟨[32].take more, ?_, ?_⟩
    · have blank : Plain sqlQuote 40 41 [32] := by simp [Plain, sqlQuote]
      exact blank.take more
    · rw [if_pos fits, rest, take_length_add_append, take_succ_cons]
      simp
  · refine ⟨[], by simp [Plain], ?_⟩
    rw [if_neg fits, take_append_of_le_length (by omega)]

theorem lower_closed {part rest : CString} (closed : SqlClosed part literals) (plain : Plain sqlQuote 40 41 rest) :
    SqlClosed (ascii "lower(" ++ part ++ [41] ++ rest) literals := by
  have word : Plain sqlQuote 40 41 (ascii "lower") := by simp [Plain, ascii, sqlQuote]
  have call := ((closed.brackets (by decide) (by decide)).append plain.closed plain.head).after_plain word
  rw [append_nil] at call
  have same : ascii "lower(" ++ part ++ [41] ++ rest = ascii "lower" ++ (40 :: part ++ [41] ++ rest) := by simp [ascii]
  rw [same]
  exact call

theorem level_lower {part : CString} (closed : SqlClosed part literals) :
    0 ≤ level 40 41 (outside sqlQuote none (snprintf 256 (ascii "lower(" ++ part ++ ascii ") "))) := by
  have blank : Plain sqlQuote 40 41 [32] := by simp [Plain, sqlQuote]
  have call := lower_closed closed blank
  have same : ascii "lower(" ++ part ++ ascii ") " = ascii "lower(" ++ part ++ [41] ++ [32] := by simp [ascii]
  rw [same]
  exact call.level_front (List.take_prefix _ _)

theorem level_end (state : Option UInt8) : -1 ≤ level 40 41 (outside sqlQuote state (ascii ") ")) := by
  have bracket : ascii ") " = [41, 32] := by simp [ascii]
  rw [bracket]
  cases state with
  | none => decide
  | some open_ =>
    by_cases closes : (41 : UInt8) = open_
    · simp [outside, closes.symm, sqlQuote, level]
    · simp [outside, closes, level]

theorem lower_name_cut {word rest literal : CString} (parts : value = word ++ 39 :: rest) (noQuote : 34 ∉ word)
    (few : rest.count 39 ≤ 2 * literal.count 39 + 1) (rises : 0 ≤ level 40 41 (outside sqlQuote none value)) :
    ¬SqlClosed (ascii " (" ++ (ascii "lower(" ++ (msDefaultEscapePropertyName propertyName).take 249) ++
      (ascii "= " ++ value ++ ascii ") ")) [literal] := by
  intro closed
  have start : ∀ c ∈ ascii " (lower(", sqlQuote c = false := by simp [ascii, sqlQuote]
  have whole : ascii " (" ++ (ascii "lower(" ++ (msDefaultEscapePropertyName propertyName).take 249) =
      ascii " (lower(" ++ (msDefaultEscapePropertyName propertyName).take 249 := by simp [ascii]
  have name := name_closed propertyName
  have inName := name.level_front (List.take_prefix 249 (msDefaultEscapePropertyName propertyName))
  have opened : level (40 : UInt8) 41 (ascii " (lower(") = 2 := by simp [level, ascii]
  rw [whole] at closed
  -- the name is cut before its closing quote, or between two quotes in it
  have state : openQuote sqlQuote none ((msDefaultEscapePropertyName propertyName).take 249) = some 34 ∨
      openQuote sqlQuote none ((msDefaultEscapePropertyName propertyName).take 249) = none := by
    rw [msDefaultEscapePropertyName_eq, cons_append, take_succ_cons]
    exact openQuote_quoted (by decide) (List.take_prefix _ _)
  rcases state with inside | ended
  · have counted := closed.marks (by decide)
    have before := name.marks_prefix (by decide) (List.take_prefix 249 (msDefaultEscapePropertyName propertyName))
    have front : (34 : UInt8) ∉ ascii "= " ++ word := by
      rw [mem_append, not_or]
      exact ⟨by simp [ascii], noQuote⟩
    have behind : ascii "= " ++ value ++ ascii ") " = (ascii "= " ++ word) ++ 39 :: (rest ++ ascii ") ") := by
      rw [parts]
      simp
    have last : (ascii ") ").count 39 = 0 := by simp [ascii]
    have remaining : marks sqlQuote 39 (some 34) (rest ++ ascii ") ") ≤ (rest ++ ascii ") ").count 39 :=
      marks_le_count 39 (some 34) _
    rw [count_append, last] at remaining
    rw [append_assoc, marks_plain (by decide) start, marks_append, before, inside, behind, marks_append,
      marks_of_not_mem (by decide) front, openQuote_of_not_mem front, marks, if_neg (by decide), if_neg (by decide)] at counted
    simp only [map_cons, map_nil, sum_cons, sum_nil, quotesOf] at counted
    omega
  · revert closed
    apply not_closed_of_open
    intro _
    have equals : ∀ c ∈ ascii "= ", sqlQuote c = false := by simp [ascii, sqlQuote]
    have between : level (40 : UInt8) 41 (ascii "= ") = 0 := by simp [level, ascii]
    have last := level_end (openQuote sqlQuote none value)
    rw [append_assoc, outside_plain start, outside_append, ended, append_assoc, outside_plain equals,
      outside_append, level_append, level_append, level_append, level_append, opened, between]
    omega

theorem lower_value_cut {name literal : CString} (nameClosed : SqlClosed name []) :
    ¬SqlClosed (ascii " (" ++ name ++ (ascii "= " ++
      (ascii "lower(" ++ (39 :: encode 39 literal ++ [39]).take 249) ++ ascii ") ")) literals := by
  apply not_closed_of_open
  intro _
  have start : ∀ c ∈ ascii " (", sqlQuote c = false := by simp [ascii, sqlQuote]
  have call : ∀ c ∈ ascii "= lower(", sqlQuote c = false := by simp [ascii, sqlQuote]
  have opened : level (40 : UInt8) 41 (ascii " (") = 1 := by simp [level, ascii]
  have again : level (40 : UInt8) 41 (ascii "= lower(") = 1 := by simp [level, ascii]
  have inValue := (literal_closed literal).level_front (List.take_prefix 249 _)
  have last := level_end (openQuote sqlQuote none ((39 :: encode 39 literal ++ [39]).take 249))
  have whole : ascii " (" ++ name ++ (ascii "= " ++ (ascii "lower(" ++ (39 :: encode 39 literal ++ [39]).take 249) ++
      ascii ") ") = ascii " (" ++ (name ++ (ascii "= lower(" ++ ((39 :: encode 39 literal ++ [39]).take 249 ++ ascii ") "))) := by
    simp [ascii]
  rw [whole, outside_plain start, outside_append, nameClosed.ends.1, outside_plain call, outside_append, level_append,
    level_append, level_append, level_append, nameClosed.ends.2, opened, again]
  omega

theorem comparesString_of_lower (lower : comparesLower lp pszValue propertyName psRightNode = true) :
    comparesString lp propertyName psRightNode.pszValue = true ∧ comparisonOperator pszValue = ascii "=" := by
  rw [comparesLower, Bool.and_eq_true, Bool.and_eq_true] at lower
  refine ⟨lower.1.1, ?_⟩
  rw [comparisonOperator, if_pos lower.1.2]

def lowerValue (psRightNode : FilterEncodingNode α) : CString :=
  match psRightNode.pszValue with
  | some literal => snprintf 256 (ascii "lower(" ++ (39 :: encode 39 (backslashed literal) ++ [39]) ++ ascii ") ")
  | none => [39, 39]

theorem lowerComparison_eq (lower : comparesLower lp pszValue propertyName psRightNode = true) :
    FLTGetBinaryComparisonSQLExpresssion lp pszValue propertyName psRightNode =
      ascii " (" ++ snprintf 256 (ascii "lower(" ++ msDefaultEscapePropertyName propertyName ++ ascii ") ") ++
        (ascii "= " ++ lowerValue psRightNode ++ ascii ") ") := by
  obtain ⟨isString, isEqual⟩ := comparesString_of_lower lower
  rw [FLTGetBinaryComparisonSQLExpresssion]
  simp only [lower, if_true, isString, isEqual]
  rw [foldl_strlcat 1024 (by simp)]
  have bound (text : CString) : (snprintf 256 text).length ≤ 255 := by
    rw [snprintf, length_take]
    omega
  rw [lowerValue]
  cases psRightNode.pszValue with
  | none =>
    have name := bound (ascii "lower(" ++ msDefaultEscapePropertyName propertyName ++ ascii ") ")
    rw [take_of_length_le]
    · simp [quoteOf, ascii]
    · simp [quoteOf, ascii] at name ⊢
      omega
  | some literal =>
    have name := bound (ascii "lower(" ++ msDefaultEscapePropertyName propertyName ++ ascii ") ")
    have value := bound (ascii "lower('" ++ LayerDefaultEscapeSQLParam literal ++ ascii "') ")
    rw [take_of_length_le]
    · dsimp only
      rw [LayerDefaultEscapeSQLParam_eq]
      simp [ascii]
    · simp [ascii] at name value ⊢
      omega

theorem lower_both_closed {name : CString} (nameClosed : SqlClosed name []) (valueClosed : SqlClosed value literals) :
    SqlClosed (ascii " (" ++ name ++ (ascii "= " ++ value ++ ascii ") ")) literals := by
  have equals : Plain sqlQuote 40 41 (ascii "= ") := by simp [Plain, ascii, sqlQuote]
  have blank : Plain sqlQuote 40 41 [32] := by simp [Plain, sqlQuote]
  have inside := (nameClosed.separated equals (by simp [ascii]) valueClosed).brackets (by decide) (by decide)
  have text := (inside.append blank.closed blank.head).after_plain blank
  rw [append_nil] at text
  have same : ascii " (" ++ name ++ (ascii "= " ++ value ++ ascii ") ") =
      [32] ++ (40 :: (name ++ (ascii "= " ++ value)) ++ [41] ++ [32]) := by simp [ascii]
  rw [same]
  exact text

theorem lowerValue_parts (psRightNode : FilterEncodingNode α) : ∃ word rest : CString,
    lowerValue psRightNode = word ++ 39 :: rest ∧ 34 ∉ word ∧
      rest.count 39 ≤ 2 * (backslashed (comparedValue psRightNode)).count 39 + 1 := by
  rw [lowerValue, comparedValue]
  cases psRightNode.pszValue with
  | none => exact ⟨[], [39], rfl, not_mem_nil, by decide⟩
  | some literal =>
    refine ⟨ascii "lower(", (encode 39 (backslashed literal) ++ [39] ++ ascii ") ").take 248, ?_, by simp [ascii], ?_⟩
    · have whole : ascii "lower(" ++ (39 :: encode 39 (backslashed literal) ++ [39]) ++ ascii ") " =
          ascii "lower(" ++ 39 :: (encode 39 (backslashed literal) ++ [39] ++ ascii ") ") := by simp [ascii]
      have size : 256 - 1 = (ascii "lower(").length + (248 + 1) := by simp [ascii]
      dsimp only
      rw [snprintf, whole, size, take_length_add_append, take_succ_cons]
    · apply ((take_sublist 248 _).count_le 39).trans
      rw [count_append, count_append, count_encode]
      simp [ascii]

theorem lowerComparison_closed_iff (lower : comparesLower lp pszValue propertyName psRightNode = true) :
    SqlClosed (FLTGetBinaryComparisonSQLExpresssion lp pszValue propertyName psRightNode)
        (valueLiterals (comparesString lp propertyName psRightNode.pszValue) (comparedValue psRightNode)) ↔
      (msDefaultEscapePropertyName propertyName).length + 7 ≤ 255 ∧
        ∀ literal, psRightNode.pszValue = some literal → (LayerDefaultEscapeSQLParam literal).length + 9 ≤ 255 := by
  obtain ⟨isString, _⟩ := comparesString_of_lower lower
  rw [lowerComparison_eq lower, isString, valueLiterals, if_pos rfl]
  obtain ⟨nameRest, namePlain, isName⟩ := snprintf_lower (msDefaultEscapePropertyName propertyName)
  rw [isName]
  by_cases nameFits : (msDefaultEscapePropertyName propertyName).length + 7 ≤ 255
  · rw [if_pos nameFits]
    have name := lower_closed (name_closed propertyName) namePlain
    simp only [nameFits, true_and]
    rw [lowerValue, comparedValue]
    cases psRightNode.pszValue with
    | none => exact iff_of_true (lower_both_closed name (literal_closed [])) (by simp)
    | some literal =>
      obtain ⟨valueRest, valuePlain, isValue⟩ := snprintf_lower (39 :: encode 39 (backslashed literal) ++ [39])
      have size : (39 :: encode 39 (backslashed literal) ++ [39]).length = (LayerDefaultEscapeSQLParam literal).length + 2 := by
        rw [LayerDefaultEscapeSQLParam_eq]
        simp
      dsimp only
      rw [isValue, size]
      by_cases valueFits : (LayerDefaultEscapeSQLParam literal).length + 9 ≤ 255
      · rw [if_pos (by omega)]
        apply iff_of_true (lower_both_closed name (lower_closed (literal_closed _) valuePlain))
        intro other same
        cases same
        exact valueFits
      · rw [if_neg (by omega)]
        apply iff_of_false (lower_value_cut name) fun fits => valueFits (fits literal rfl)
  · rw [if_neg nameFits]
    apply iff_of_false _ fun both => nameFits both.1
    obtain ⟨word, rest, parts, noQuote, few⟩ := lowerValue_parts psRightNode
    apply lower_name_cut parts noQuote few
    rw [lowerValue]
    cases psRightNode.pszValue with
    | none => decide
    | some literal => exact level_lower (literal_closed _)

def boundsLiterals (lp : SqlLayer α) (propertyName value : CString) : List CString :=
  match msStringSplit 59 value with
  | [bound1, bound2] =>
    valueLiterals (boundsString lp propertyName bound1 bound2) bound1 ++
      valueLiterals (boundsString lp propertyName bound1 bound2) bound2
  | _ => []

theorem between_closed_iff {bound1 bound2 text : CString} (bounds : msStringSplit 59 value = [bound1, bound2])
    (expression : FLTGetIsBetweenComparisonSQLExpresssion lp propertyName value = some text) :
    SqlClosed text (boundsLiterals lp propertyName value) ↔
      (msDefaultEscapePropertyName propertyName).length +
        (sqlValue (boundsString lp propertyName bound1 bound2) bound1).length +
        (sqlValue (boundsString lp propertyName bound1 bound2) bound2).length + 17 ≤ 1023 := by
  simp only [FLTGetIsBetweenComparisonSQLExpresssion, bounds, Option.some.injEq] at expression
  simp only [boundsLiterals, bounds]
  generalize isString : boundsString lp propertyName bound1 bound2 = bString at expression ⊢
  have numeric : bString = false → FLTIsNumeric bound1 = true ∧ FLTIsNumeric bound2 = true := by
    rintro rfl
    rw [boundsString, Bool.or_eq_false_iff, Bool.or_eq_false_iff, Bool.not_eq_false', Bool.not_eq_false'] at isString
    exact ⟨isString.1.2, isString.2⟩
  have first := sqlValue_closed fun noString => (numeric noString).1
  have second := sqlValue_closed fun noString => (numeric noString).2
  have andPlain : Plain sqlQuote 40 41 (ascii " AND ") := by simp [Plain, ascii, sqlQuote]
  have betweenPlain : Plain sqlQuote 40 41 (ascii " BETWEEN ") := by simp [Plain, ascii, sqlQuote]
  have two := first.separated andPlain (by simp [ascii]) second
  have body := (name_closed propertyName).separated betweenPlain (by simp [ascii]) two
  have whole : text = (ascii " (" ++ (msDefaultEscapePropertyName propertyName ++ (ascii " BETWEEN " ++
      (sqlValue bString bound1 ++ (ascii " AND " ++ sqlValue bString bound2)))) ++ 41 :: []).take 1023 := by
    rw [← expression, foldl_strlcat 1024 (by simp)]
    congr 1
    cases bString with
    | true => simp [sqlValue, quoteOf, ascii]
    | false => simp [sqlValue, quoteOf, ascii, numeric_escaped (numeric rfl).1, numeric_escaped (numeric rfl).2]
  rw [whole]
  refine (closed_buffer_iff body (by simp [Plain])).trans ?_
  simp [ascii]
  omega

def likeLiterals (lp : SqlLayer α) (pszWild pszSingle pszEscape : UInt8) (value : CString) : List CString :=
  likeText pszWild pszSingle pszEscape false value ::
    if lp.connectiontype ≠ .MS_OGR then [if pszEscape = 92 then [92, 92] else [pszEscape]] else []

theorem likeOperator_eq (lp : SqlLayer α) (bCaseInsensitive : Bool) : ∃ word : CString, word ≠ [] ∧ Plain sqlQuote 40 41 word ∧
    likeOperator lp bCaseInsensitive = word ++ [39] := by
  unfold likeOperator
  split
  · split
    · exact ⟨ascii "::text ilike ", by simp [ascii], by simp [Plain, ascii, sqlQuote], by simp [ascii]⟩
    · exact ⟨ascii "::text like ", by simp [ascii], by simp [Plain, ascii, sqlQuote], by simp [ascii]⟩
  · exact ⟨ascii " like ", by simp [ascii], by simp [Plain, ascii, sqlQuote], by simp [ascii]⟩

theorem likeEscape_closed (lp : SqlLayer α) {pszEscape : UInt8} (notQuote : pszEscape ≠ 39) :
    SqlClosed (likeEscape lp pszEscape).flatten
        (if lp.connectiontype ≠ .MS_OGR then [if pszEscape = 92 then [92, 92] else [pszEscape]] else []) ∧
      ∀ c ∈ (likeEscape lp pszEscape).flatten.head?, sqlQuote c = false := by
  unfold likeEscape
  by_cases ogr : lp.connectiontype ≠ .MS_OGR
  · rw [if_pos ogr, if_pos ogr]
    have word : ∃ word : CString, word ≠ [] ∧ Plain sqlQuote 40 41 word ∧
        (if lp.connectiontype = .MS_POSTGIS ∧ pszEscape = 92 then ascii " escape E'" else ascii " escape '") = word ++ [39] := by
      split
      · exact ⟨ascii " escape E", by simp [ascii], by simp [Plain, ascii, sqlQuote], by simp [ascii]⟩
      · exact ⟨ascii " escape ", by simp [ascii], by simp [Plain, ascii, sqlQuote], by simp [ascii]⟩
    obtain ⟨word, some, plain, isWord⟩ := word
    have quoted := (literal_closed (if pszEscape = 92 then [92, 92] else [pszEscape])).after_plain plain
    have same : [word ++ [39], if pszEscape = 92 then [92, 92, 39] else [pszEscape, 39]].flatten =
        word ++ (39 :: encode 39 (if pszEscape = 92 then [92, 92] else [pszEscape]) ++ [39]) := by
      by_cases isBackslash : pszEscape = 92
      · simp [isBackslash, encode]
      · simp [isBackslash, encode, notQuote]
    rw [isWord, same]
    refine ⟨quoted, ?_⟩
    cases word with
    | nil => exact absurd rfl some
    | cons c word => exact fun d first => plain.head d first
  · rw [if_neg ogr, if_neg ogr]
    exact ⟨Plain.closed (by simp [Plain]), by simp⟩

theorem like_closed_iff {propIsLike : FEPropertyIsLike} {pszWild pszSingle pszEscape : UInt8}
    {wilds singles escapes : CString} (isWild : propIsLike.pszWildCard = pszWild :: wilds)
    (isSingle : propIsLike.pszSingleChar = pszSingle :: singles)
    (isEscape : propIsLike.pszEscapeChar = pszEscape :: escapes) {text : CString}
    (expression : FLTGetIsLikeComparisonSQLExpression lp (.like propIsLike) propertyName value = some text) :
    SqlClosed text (likeLiterals lp pszWild pszSingle pszEscape value) ↔
      (msDefaultEscapePropertyName propertyName).length + (likeOperator lp propIsLike.bCaseInsensitive).length +
        (likePattern pszWild pszSingle pszEscape false value).length + (likeEscape lp pszEscape).flatten.length + 4 ≤ 1023 := by
  simp only [FLTGetIsLikeComparisonSQLExpression, isWild, isSingle, isEscape] at expression
  split at expression
  · cases expression
  · rename_i notQuote
    obtain ⟨word, some, plain, isWord⟩ := likeOperator_eq lp propIsLike.bCaseInsensitive
    obtain ⟨escape, boundary⟩ := likeEscape_closed lp notQuote
    have pattern := (literal_closed (likeText pszWild pszSingle pszEscape false value)).append escape boundary
    have body := (name_closed propertyName).separated plain some pattern
    have whole : text = (ascii " (" ++ (msDefaultEscapePropertyName propertyName ++ (word ++
        ((39 :: encode 39 (likeText pszWild pszSingle pszEscape false value) ++ [39]) ++
          (likeEscape lp pszEscape).flatten))) ++ 41 :: [32]).take 1023 := by
      rw [← Option.some.inj expression, foldl_strlcat 1024 (by simp), isWord, likePattern_eq notQuote]
      congr 1
      simp [ascii]
    rw [whole]
    refine (closed_buffer_iff body (by simp [Plain, sqlQuote])).trans ?_
    rw [isWord, likePattern_eq notQuote]
    simp only [length_append, length_cons, length_nil]
    omega

end Nodes

end MapServer
