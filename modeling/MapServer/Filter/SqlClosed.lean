import MapServer.Filter.SqlComparisons

namespace MapServer
open List Option

open Lib.Quoting

section FeatureIds
variable {α : Type} {lp : SqlLayer α} {pszAttribute : CString}

def idTerms (bString : Bool) : List CString → List (Bool × CString)
  | [] => []
  | token :: rest =>
    if idOf token = [] then idTerms bString rest
    else (bString || !FLTIsNumeric (idOf token), idOf token) :: idTerms (bString || !FLTIsNumeric (idOf token)) rest

def otherTerms (lp : SqlLayer α) (pszAttribute : CString) (terms : List (Bool × CString)) : CString :=
  terms.flatMap fun term => ascii " OR " ++ featureIdTerm lp pszAttribute term.2 term.1

def termBody (lp : SqlLayer α) (pszAttribute : CString) (term : Bool × CString) : CString :=
  (if term.1 = true ∧ (lp.connectiontype = .MS_OGR ∨ lp.connectiontype = .MS_POSTGIS) then
    ascii "CAST(" ++ pszAttribute ++ ascii " AS CHARACTER(255)) = " else pszAttribute ++ ascii " = ") ++
    sqlValue term.1 term.2

def termLiterals (term : Bool × CString) : List CString := valueLiterals term.1 term.2

theorem numeric_of_idTerms {bString : Bool} {tokens : List CString} {term : Bool × CString}
    (member : term ∈ idTerms bString tokens) : term.1 = false → FLTIsNumeric term.2 = true := by
  induction tokens generalizing bString with
  | nil => exact absurd member not_mem_nil
  | cons token rest ih =>
    rw [idTerms] at member
    split at member
    · exact ih member
    · rcases mem_cons.mp member with rfl | later
      · intro noString
        simp only [Bool.or_eq_false_iff, Bool.not_eq_false'] at noString
        exact noString.2
      · exact ih later

theorem foldl_featureIdStep (bString : Bool) (before : CString) (tokens : List CString) :
    (tokens.foldl (featureIdStep lp pszAttribute) (bString, some before)).2 =
      some (before ++ otherTerms lp pszAttribute (idTerms bString tokens)) := by
  induction tokens generalizing bString before with
  | nil => simp [idTerms, otherTerms]
  | cons token rest ih =>
    rw [foldl_cons, featureIdStep, idTerms]
    by_cases isEmpty : idOf token = []
    · rw [if_pos isEmpty, if_pos isEmpty, ih]
    · rw [if_neg isEmpty, if_neg isEmpty, ih]
      simp [otherTerms]

theorem featureIds_eq (bString : Bool) (tokens : List CString) :
    (tokens.foldl (featureIdStep lp pszAttribute) (bString, none)).2 =
      match idTerms bString tokens with
      | [] => none
      | term :: terms => some (ascii "(" ++ (featureIdTerm lp pszAttribute term.2 term.1 ++ otherTerms lp pszAttribute terms)) := by
  induction tokens generalizing bString with
  | nil => rfl
  | cons token rest ih =>
    rw [foldl_cons, featureIdStep, idTerms]
    by_cases isEmpty : idOf token = []
    · rw [if_pos isEmpty, if_pos isEmpty, ih]
    · rw [if_neg isEmpty, if_neg isEmpty, foldl_featureIdStep]
      simp

theorem featureIdTerm_eq {term : Bool × CString} (numeric : term.1 = false → FLTIsNumeric term.2 = true) :
    featureIdTerm lp pszAttribute term.2 term.1 = (40 :: termBody lp pszAttribute term ++ [41]).take 255 := by
  obtain ⟨bString, pszId⟩ := term
  rw [featureIdTerm, snprintf, termBody]
  congr 1
  cases bString with
  | false => simp [sqlValue, numeric_escaped (numeric rfl), ascii]
  | true =>
    by_cases cast : lp.connectiontype = .MS_OGR ∨ lp.connectiontype = .MS_POSTGIS
    · simp [cast, sqlValue, ascii]
    · simp [cast, sqlValue, ascii]

/-- A text has not more quotes than it should; with all of them it ends outside quotes and not below its start, and at its
level only when everything fits. -/
structure Tallied (text : CString) (quotes : Nat) (fits : Prop) : Prop where
  few : text.count 39 ≤ quotes
  ended : text.count 39 = quotes → openQuote sqlQuote none text = none ∧ 0 ≤ level 40 41 (outside sqlQuote none text) ∧
    (level 40 41 (outside sqlQuote none text) = 0 → fits)

theorem Tallied.append {first second : CString} {quotes more : Nat} {fits also : Prop} (tallied : Tallied first quotes fits)
    (next : Tallied second more also) : Tallied (first ++ second) (quotes + more) (fits ∧ also) := by
  constructor
  · rw [count_append]
    exact Nat.add_le_add tallied.few next.few
  · intro all
    have firstFew := tallied.few
    have secondFew := next.few
    rw [count_append] at all
    obtain ⟨firstEnds, firstLevel, firstFits⟩ := tallied.ended (by omega)
    obtain ⟨secondEnds, secondLevel, secondFits⟩ := next.ended (by omega)
    rw [openQuote_append, firstEnds, outside_append, firstEnds, level_append]
    refine ⟨secondEnds, by omega, ?_⟩
    intro same
    exact ⟨firstFits (by omega), secondFits (by omega)⟩

theorem tallied_plain {text : CString} (plain : Plain sqlQuote 40 41 text) : Tallied text 0 True := by
  have noQuote : text.count 39 = 0 := by
    apply count_eq_zero_of_not_mem
    intro found
    have isQuote := (plain 39 found).1
    cases isQuote
  have closed : SqlClosed text [] := plain.closed
  have ends := closed.ends
  refine ⟨noQuote.le, ?_⟩
  intro _
  exact ⟨ends.1, ends.2.ge, fun _ => trivial⟩

def termQuotes (term : Bool × CString) : Nat := ((termLiterals term).map (quotesOf 39)).sum

def TermFits (lp : SqlLayer α) (pszAttribute : CString) (term : Bool × CString) : Prop :=
  (termBody lp pszAttribute term).length + 2 ≤ 255

section Plain
variable (lp) (attributePlain : Plain sqlQuote 40 41 pszAttribute) (term : Bool × CString)
  (numeric : term.1 = false → FLTIsNumeric term.2 = true)
include attributePlain

theorem termBody_parts : ∃ front : CString, (∀ c ∈ front, sqlQuote c = false) ∧ front ≠ [] ∧ SqlClosed front [] ∧
    termBody lp pszAttribute term = front ++ sqlValue term.1 term.2 := by
  have equals : Plain sqlQuote 40 41 (ascii " = ") := by simp [Plain, ascii, sqlQuote]
  rw [termBody]
  split
  · refine ⟨_, ?_, by simp [ascii], ?_, rfl⟩
    · simp only [forall_mem_append]
      refine ⟨⟨by simp [ascii, sqlQuote], fun c member => (attributePlain c member).1⟩, by simp [ascii, sqlQuote]⟩
    · have size : Plain sqlQuote 40 41 (ascii "255") := by simp [Plain, ascii, sqlQuote]
      have type : Plain sqlQuote 40 41 (ascii " AS CHARACTER") := by simp [Plain, ascii, sqlQuote]
      have cast : Plain sqlQuote 40 41 (ascii "CAST") := by simp [Plain, ascii, sqlQuote]
      have sized : SqlClosed (40 :: ascii "255" ++ [41]) [] := size.closed.brackets (by decide) (by decide)
      have inside := ((sized.after_plain type).after_plain attributePlain).brackets (by decide) (by decide)
      have call := (inside.append equals.closed equals.head).after_plain cast
      have same : ascii "CAST(" ++ pszAttribute ++ ascii " AS CHARACTER(255)) = " = ascii "CAST" ++
          (40 :: (pszAttribute ++ (ascii " AS CHARACTER" ++ (40 :: ascii "255" ++ [41]))) ++ [41] ++ ascii " = ") := by
        simp [ascii]
      rw [same]
      exact call
  · refine ⟨_, ?_, by simp [ascii], ?_, rfl⟩
    · simp only [forall_mem_append]
      exact ⟨fun c member => (attributePlain c member).1, fun c member => (equals c member).1⟩
    · exact equals.closed.after_plain attributePlain

include numeric

theorem termBody_closed : SqlClosed (termBody lp pszAttribute term) (termLiterals term) := by
  obtain ⟨front, noQuote, _, closed, parts⟩ := termBody_parts lp attributePlain term
  rw [parts]
  exact Closed.after noQuote closed (sqlValue_closed numeric)

theorem featureIdTerm_closed (fits : TermFits lp pszAttribute term) :
    SqlClosed (featureIdTerm lp pszAttribute term.2 term.1) (termLiterals term) := by
  rw [featureIdTerm_eq numeric, take_of_length_le]
  · exact (termBody_closed lp attributePlain term numeric).brackets (by decide) (by decide)
  · rw [TermFits] at fits
    simp only [length_append, length_cons, length_nil]
    omega

theorem count_termBody : (termBody lp pszAttribute term).count 39 = termQuotes term := by
  obtain ⟨front, noQuote, _, _, parts⟩ := termBody_parts lp attributePlain term
  have absent {text : CString} (noQuote : ∀ c ∈ text, sqlQuote c = false) : text.count 39 = 0 := by
    apply count_eq_zero_of_not_mem
    intro found
    exact absurd (noQuote 39 found) (by decide)
  rw [parts, count_append, absent noQuote, Nat.zero_add, termQuotes, termLiterals]
  cases isString : term.1 with
  | false => simp [sqlValue, valueLiterals, absent fun c member => (numeric_chars (numeric isString) c member).1]
  | true =>
    simp only [sqlValue, valueLiterals, if_true, LayerDefaultEscapeSQLParam_eq, count_append, count_cons,
      count_encode, quotesOf, map_cons, map_nil, sum_cons, sum_nil, count_nil]
    simp
    omega

theorem termBody_ended {front : CString} (isFront : front <+: 40 :: termBody lp pszAttribute term ++ [41])
    (all : front.count 39 = termQuotes term) : openQuote sqlQuote none front = none := by
  obtain ⟨before, noQuote, _, _, parts⟩ := termBody_parts lp attributePlain term
  have start : ∀ c ∈ 40 :: before, sqlQuote c = false := by
    rw [forall_mem_cons]
    exact ⟨by decide, noQuote⟩
  cases isString : term.1 with
  | false =>
    have noQuotes : ∀ c ∈ 40 :: termBody lp pszAttribute term ++ [41], sqlQuote c = false := by
      rw [parts, isString]
      simp only [sqlValue, Bool.false_eq_true, if_false, cons_append, forall_mem_cons, forall_mem_append]
      exact ⟨by decide, ⟨noQuote, fun c member => (numeric_chars (numeric isString) c member).1⟩, by decide, by simp⟩
    have read := openQuote_plain (fun c member => noQuotes c (isFront.subset member)) []
    rw [append_nil] at read
    rw [read]
    rfl
  | true =>
    have counts : (40 :: before ++ 39 :: encode 39 (backslashed term.2)).count 39 + 1 = termQuotes term := by
      rw [← count_termBody lp attributePlain term numeric, parts, isString]
      simp [sqlValue, LayerDefaultEscapeSQLParam_eq]
      omega
    have whole : 40 :: termBody lp pszAttribute term ++ [41] =
        (40 :: before ++ 39 :: encode 39 (backslashed term.2)) ++ [39, 41] := by
      rw [parts, isString]
      simp [sqlValue, LayerDefaultEscapeSQLParam_eq]
    rw [whole] at isFront
    rcases prefix_append_cases isFront with short | ⟨more, rfl, isMore⟩
    · have fewer := short.sublist.count_le 39
      omega
    · rcases prefix_cons_iff.mp isMore with rfl | ⟨rest, rfl, isRest⟩
      · rw [append_nil] at all
        omega
      · have quoted := literal_closed (backslashed term.2)
        have text : (40 :: before ++ 39 :: encode 39 (backslashed term.2)) ++ 39 :: rest =
            (40 :: before) ++ ((39 :: encode 39 (backslashed term.2) ++ [39]) ++ rest) := by simp
        have plain : ∀ c ∈ rest, sqlQuote c = false := by
          intro c member
          rw [mem_singleton.mp (isRest.subset member)]
          decide
        have last := openQuote_plain plain []
        rw [append_nil] at last
        rw [text, openQuote_plain start, openQuote_append, quoted.ends.1, last]
        rfl

theorem featureIdTerm_tallied :
    Tallied (featureIdTerm lp pszAttribute term.2 term.1) (termQuotes term) (TermFits lp pszAttribute term) := by
  have closed := (termBody_closed lp attributePlain term numeric).brackets (by decide) (by decide)
  have isFront := take_prefix 255 (40 :: termBody lp pszAttribute term ++ [41])
  rw [featureIdTerm_eq numeric]
  constructor
  · rw [← count_termBody lp attributePlain term numeric]
    have fewer := (take_sublist 255 (40 :: termBody lp pszAttribute term ++ [41])).count_le 39
    simpa [count_cons] using fewer
  · intro all
    refine ⟨termBody_ended lp attributePlain term numeric isFront all, closed.level_front isFront, ?_⟩
    intro same
    by_contra cut
    rw [TermFits] at cut
    have inside := (termBody_closed lp attributePlain term numeric).level_front
      (List.take_prefix 254 (termBody lp pszAttribute term))
    have opened : level (40 : UInt8) 41 [40] = 1 := by decide
    have start : (40 :: termBody lp pszAttribute term ++ [41]).take 255 = [40] ++ (termBody lp pszAttribute term).take 254 := by
      rw [cons_append, take_succ_cons, take_append_of_le_length (by omega)]
      rfl
    rw [start, outside_plain (by decide +kernel), level_append, opened] at same
    omega

end Plain

section Terms
variable (lp) (attributePlain : Plain sqlQuote 40 41 pszAttribute) {terms : List (Bool × CString)}
  (numeric : ∀ term ∈ terms, term.1 = false → FLTIsNumeric term.2 = true)
include attributePlain numeric

theorem otherTerms_tallied : Tallied (otherTerms lp pszAttribute terms) (terms.map termQuotes).sum
    (∀ term ∈ terms, TermFits lp pszAttribute term) := by
  induction terms with
  | nil =>
    have empty : Tallied [] 0 True := tallied_plain (by simp [Plain])
    simpa [otherTerms] using empty
  | cons term terms ih =>
    rw [forall_mem_cons] at numeric
    have word : Plain sqlQuote 40 41 (ascii " OR ") := by simp [Plain, ascii, sqlQuote]
    have first := (tallied_plain word).append (featureIdTerm_tallied lp attributePlain term numeric.1)
    have all := first.append (ih numeric.2)
    rw [true_and, Nat.zero_add] at all
    rw [map_cons, sum_cons]
    simpa only [forall_mem_cons, otherTerms, flatMap_cons] using all

theorem otherTerms_closed (fits : ∀ term ∈ terms, TermFits lp pszAttribute term) :
    SqlClosed (otherTerms lp pszAttribute terms) (terms.flatMap termLiterals) ∧
      ∀ c ∈ (otherTerms lp pszAttribute terms).head?, sqlQuote c = false := by
  induction terms with
  | nil =>
    have empty : SqlClosed [] [] := Plain.closed (by simp [Plain])
    exact ⟨empty, by simp [otherTerms]⟩
  | cons term terms ih =>
    rw [forall_mem_cons] at numeric fits
    obtain ⟨rest, boundary⟩ := ih numeric.2 fits.2
    have word : Plain sqlQuote 40 41 (ascii " OR ") := by simp [Plain, ascii, sqlQuote]
    have all := (featureIdTerm_closed lp attributePlain term numeric.1 fits.1).append rest boundary
    have whole : otherTerms lp pszAttribute (term :: terms) =
        ascii " OR " ++ (featureIdTerm lp pszAttribute term.2 term.1 ++ otherTerms lp pszAttribute terms) := by
      simp [otherTerms]
    rw [whole]
    refine ⟨all.after_plain word, ?_⟩
    simp [ascii, sqlQuote]

end Terms

theorem quotes_flatMap (terms : List (Bool × CString)) :
    ((terms.flatMap termLiterals).map (quotesOf 39)).sum = (terms.map termQuotes).sum := by
  induction terms with
  | nil => rfl
  | cons term terms ih =>
    rw [flatMap_cons, map_append, sum_append, ih]
    rfl

theorem featureIds_closed_iff {pszValue text : CString} (attributePlain : Plain sqlQuote 40 41 pszAttribute)
    (isAttribute : lp.msOWSLookupMetadata (ascii "featureid") = some pszAttribute)
    (expression : FLTGetFeatureIdSQLExpression lp pszValue = some text) :
    SqlClosed text ((idTerms false (msStringSplit 44 pszValue)).flatMap termLiterals) ↔
      ∀ term ∈ idTerms false (msStringSplit 44 pszValue), TermFits lp pszAttribute term := by
  rw [FLTGetFeatureIdSQLExpression, isAttribute] at expression
  dsimp only at expression
  rw [featureIds_eq] at expression
  have numeric : ∀ term ∈ idTerms false (msStringSplit 44 pszValue), term.1 = false → FLTIsNumeric term.2 = true :=
    fun term member => numeric_of_idTerms member
  cases isTerms : idTerms false (msStringSplit 44 pszValue) with
  | nil =>
    rw [isTerms] at expression
    cases expression
  | cons term terms =>
    rw [isTerms, map_some, Option.some.injEq] at expression
    rw [isTerms, forall_mem_cons] at numeric
    have start : ∀ c ∈ ascii "(", sqlQuote c = false := by simp [ascii, sqlQuote]
    have opened : level (40 : UInt8) 41 (ascii "(") = 1 := by simp [level, ascii]
    rw [← expression]
    constructor
    · intro closed
      have all := (featureIdTerm_tallied lp attributePlain term numeric.1).append (otherTerms_tallied lp attributePlain numeric.2)
      have counted := closed.marks (by decide)
      have most : marks sqlQuote 39 none (featureIdTerm lp pszAttribute term.2 term.1 ++
          otherTerms lp pszAttribute terms ++ ascii ")") ≤ _ := marks_le_count 39 none _
      have last : (ascii ")").count 39 = 0 := by simp [ascii]
      have few := all.few
      rw [append_assoc, marks_plain (by decide) start, quotes_flatMap, map_cons, sum_cons] at counted
      rw [count_append, last] at most
      obtain ⟨ended, _, allFit⟩ := all.ended (by omega)
      have closes : level (40 : UInt8) 41 (outside sqlQuote none (ascii ")")) = -1 := by
        simp [ascii, outside, sqlQuote, level]
      have balanced := closed.ends.2
      rw [append_assoc, outside_plain start, outside_append, ended, level_append, level_append, opened, closes] at balanced
      rw [forall_mem_cons]
      exact allFit (by omega)
    · intro fits
      rw [forall_mem_cons] at fits
      obtain ⟨rest, boundary⟩ := otherTerms_closed lp attributePlain numeric.2 fits.2
      have inside := ((featureIdTerm_closed lp attributePlain term numeric.1 fits.1).append rest boundary).brackets
        (by decide) (by decide)
      have same : ascii "(" ++ (featureIdTerm lp pszAttribute term.2 term.1 ++ otherTerms lp pszAttribute terms) ++ ascii ")" =
          40 :: (featureIdTerm lp pszAttribute term.2 term.1 ++ otherTerms lp pszAttribute terms) ++ [41] := by simp [ascii]
      rw [same, flatMap_cons]
      exact inside

end FeatureIds

section Nodes
variable {α : Type}

def patternLiterals (lp : SqlLayer α) (pOther : FilterOther α) (value : CString) : List CString :=
  match pOther with
  | .like ⟨pszWild :: _, pszSingle :: _, pszEscape :: _, _⟩ => likeLiterals lp pszWild pszSingle pszEscape value
  | _ => []

def PatternFits (lp : SqlLayer α) (nameLength : Nat) (pOther : FilterOther α) (value : CString) : Prop :=
  match pOther with
  | .like ⟨pszWild :: _, pszSingle :: _, pszEscape :: _, bCaseInsensitive⟩ =>
    nameLength + (likeOperator lp bCaseInsensitive).length +
      (likePattern pszWild pszSingle pszEscape false value).length + (likeEscape lp pszEscape).flatten.length + 4 ≤ 1023
  | _ => True

def sqlLiterals (lp : SqlLayer α) : FilterEncodingNode α → List CString
  | .node .FILTER_NODE_TYPE_COMPARISON (some name) pOther _ psLeftNode psRightNode =>
    let propertyName := psLeftNode.pszValue.getD []
    if FLTIsBinaryComparisonFilterType name then
      valueLiterals (comparesString lp propertyName psRightNode.pszValue) (comparedValue psRightNode)
    else if isOneOf ["PropertyIsBetween"] name then boundsLiterals lp propertyName (comparedValue psRightNode)
    else patternLiterals lp pOther (comparedValue psRightNode)
  | .node .FILTER_NODE_TYPE_FEATUREID (some ids) _ _ _ _ => (idTerms false (msStringSplit 44 ids)).flatMap termLiterals
  | _ => []

def SqlFits (lp : SqlLayer α) : FilterEncodingNode α → Prop
  | .node .FILTER_NODE_TYPE_COMPARISON (some name) pOther _ psLeftNode psRightNode =>
    let propertyName := psLeftNode.pszValue.getD []
    let nameLength := (msDefaultEscapePropertyName propertyName).length
    if FLTIsBinaryComparisonFilterType name then
      if comparesLower lp name propertyName psRightNode then
        nameLength + 7 ≤ 255 ∧
          ∀ literal, psRightNode.pszValue = some literal → (LayerDefaultEscapeSQLParam literal).length + 9 ≤ 255
      else
        nameLength + (comparisonOperator name).length +
          (sqlValue (comparesString lp propertyName psRightNode.pszValue) (comparedValue psRightNode)).length + 4 ≤ 1023
    else if isOneOf ["PropertyIsBetween"] name then
      ∀ bound1 bound2, msStringSplit 59 (comparedValue psRightNode) = [bound1, bound2] →
        nameLength + (sqlValue (boundsString lp propertyName bound1 bound2) bound1).length +
          (sqlValue (boundsString lp propertyName bound1 bound2) bound2).length + 17 ≤ 1023
    else PatternFits lp nameLength pOther (comparedValue psRightNode)
  | .node .FILTER_NODE_TYPE_FEATUREID (some ids) _ _ _ _ =>
    ∀ pszAttribute, lp.msOWSLookupMetadata (ascii "featureid") = some pszAttribute →
      ∀ term ∈ idTerms false (msStringSplit 44 ids), TermFits lp pszAttribute term
  | _ => True

def SqlLeaf (lp : SqlLayer α) : FilterEncodingNode α → Prop
  | .node eType _ _ _ _ _ => eType = .FILTER_NODE_TYPE_COMPARISON ∨ eType = .FILTER_NODE_TYPE_FEATUREID ∧
      ∀ pszAttribute, lp.msOWSLookupMetadata (ascii "featureid") = some pszAttribute → Plain sqlQuote 40 41 pszAttribute
  | .null => False

theorem likeNode_closed_iff {lp : SqlLayer α} {pOther : FilterOther α} {propertyName value text : CString}
    (expression : FLTGetIsLikeComparisonSQLExpression lp pOther propertyName value = some text) :
    SqlClosed text (patternLiterals lp pOther value) ↔
      PatternFits lp (msDefaultEscapePropertyName propertyName).length pOther value := by
  cases pOther with
  | like propIsLike =>
    obtain ⟨pszWildCard, pszSingleChar, pszEscapeChar, bCaseInsensitive⟩ := propIsLike
    cases pszWildCard with
    | nil => cases expression
    | cons pszWild wilds =>
      cases pszSingleChar with
      | nil => cases expression
      | cons pszSingle singles =>
        cases pszEscapeChar with
        | nil => cases expression
        | cons pszEscape escapes => exact like_closed_iff rfl rfl rfl expression
  | _ => cases expression

theorem comparison_closed_iff {lp : SqlLayer α} {pszValue : Option CString} {pOther : FilterOther α} {pszSRS : Option CString}
    {psLeftNode psRightNode : FilterEncodingNode α} {text : CString}
    (expression : FLTGetSQLExpression lp (.node .FILTER_NODE_TYPE_COMPARISON pszValue pOther pszSRS psLeftNode psRightNode) =
      some text) :
    SqlClosed text (sqlLiterals lp (.node .FILTER_NODE_TYPE_COMPARISON pszValue pOther pszSRS psLeftNode psRightNode)) ↔
      SqlFits lp (.node .FILTER_NODE_TYPE_COMPARISON pszValue pOther pszSRS psLeftNode psRightNode) := by
  cases pszValue with
  | none => cases expression
  | some name =>
    simp only [FLTGetSQLExpression] at expression
    split at expression
    · cases isName : psLeftNode.pszValue with
      | none =>
        rw [isName] at expression
        cases expression
      | some propertyName =>
        simp only [isName] at expression
        simp only [sqlLiterals, SqlFits, isName, getD_some]
        by_cases binary : FLTIsBinaryComparisonFilterType name = true
        · simp only [if_pos binary] at expression ⊢
          cases expression
          by_cases lower : comparesLower lp name propertyName psRightNode = true
          · rw [if_pos lower]
            exact lowerComparison_closed_iff lower
          · rw [if_neg lower]
            exact exactComparison_closed_iff (Bool.eq_false_iff.mpr lower)
        · simp only [if_neg binary] at expression ⊢
          by_cases between : isOneOf ["PropertyIsBetween"] name = true
          · simp only [if_pos between] at expression ⊢
            obtain ⟨value, isValue, expression⟩ := bind_eq_some_iff.mp expression
            rw [comparedValue, isValue, getD_some]
            have two : ∃ bound1 bound2, msStringSplit 59 value = [bound1, bound2] := by
              rw [FLTGetIsBetweenComparisonSQLExpresssion] at expression
              split at expression
              · exact ⟨_, _, by assumption⟩
              · cases expression
            obtain ⟨bound1, bound2, bounds⟩ := two
            rw [between_closed_iff bounds expression, bounds]
            simp
          · simp only [if_neg between] at expression ⊢
            split at expression
            · obtain ⟨value, isValue, expression⟩ := bind_eq_some_iff.mp expression
              rw [comparedValue, isValue, getD_some]
              exact likeNode_closed_iff expression
            · cases expression
    · cases expression

/-- The text of a comparison or of feature ids is closed exactly when it is not cut. -/
theorem FLTGetSQLExpression_closed_iff {lp : SqlLayer α} {psFilterNode : FilterEncodingNode α} {text : CString}
    (leaf : SqlLeaf lp psFilterNode) (expression : FLTGetSQLExpression lp psFilterNode = some text) :
    SqlClosed text (sqlLiterals lp psFilterNode) ↔ SqlFits lp psFilterNode := by
  cases psFilterNode with
  | null => cases expression
  | node eType pszValue pOther pszSRS psLeftNode psRightNode =>
    rcases leaf with rfl | ⟨rfl, attributePlain⟩
    · exact comparison_closed_iff expression
    · cases pszValue with
      | none => cases expression
      | some ids =>
        change FLTGetFeatureIdSQLExpression lp ids = some text at expression
        rw [sqlLiterals, SqlFits]
        cases isAttribute : lp.msOWSLookupMetadata (ascii "featureid") with
        | none =>
          rw [FLTGetFeatureIdSQLExpression, isAttribute] at expression
          cases expression
        | some pszAttribute =>
          rw [featureIds_closed_iff (attributePlain pszAttribute isAttribute) isAttribute expression]
          simp

end Nodes

def plainSqlLayer : SqlLayer Int := ⟨.MS_INLINE, fun _ => none, fun _ => []⟩

/-- The comparison of a property called `name` with a literal. -/
def equalNode (literal : CString) : FilterEncodingNode Int :=
  .node .FILTER_NODE_TYPE_COMPARISON (some (ascii "PropertyIsEqualTo")) (.matchCase false) none
    (.leaf .FILTER_NODE_TYPE_PROPERTYNAME (some (ascii "name"))) (.leaf .FILTER_NODE_TYPE_LITERAL (some literal))

theorem isEqualTo : FLTIsBinaryComparisonFilterType (ascii "PropertyIsEqualTo") = true := by
  simp [FLTIsBinaryComparisonFilterType, isOneOf]

theorem equalNode_sql (literal : CString) : FLTGetSQLExpression plainSqlLayer (equalNode literal) =
    some (FLTGetBinaryComparisonSQLExpresssion plainSqlLayer (ascii "PropertyIsEqualTo") (ascii "name")
      (.leaf .FILTER_NODE_TYPE_LITERAL (some literal))) := by
  simp [FLTGetSQLExpression, equalNode, FilterEncodingNode.leaf, FilterEncodingNode.isNull, FilterEncodingNode.pszValue,
    isEqualTo]

theorem letters_not_numeric (rest : CString) : FLTIsNumeric (97 :: rest) = false := by
  simp [FLTIsNumeric, isspace, strtodEnd, skipSign, skipUnsigned, skipDecimal, skipMantissa, isdigit, ascii, tolower]

section Equal
variable (rest : CString)

theorem equalNode_exact : comparesLower plainSqlLayer (ascii "PropertyIsEqualTo") (ascii "name")
    (.leaf .FILTER_NODE_TYPE_LITERAL (some (97 :: rest))) = false := by
  simp [comparesLower, FilterEncodingNode.leaf, FilterEncodingNode.isOne]

theorem equalNode_string : comparesString plainSqlLayer (ascii "name") (some (97 :: rest)) = true := by
  simp [comparesString, letters_not_numeric]

theorem equalNode_literals : sqlLiterals plainSqlLayer (equalNode (97 :: rest)) = [backslashed (97 :: rest)] := by
  simp only [sqlLiterals, equalNode, FilterEncodingNode.leaf, FilterEncodingNode.pszValue, getD_some, isEqualTo,
    if_true, equalNode_string, valueLiterals, comparedValue]

theorem equalNode_fits : SqlFits plainSqlLayer (equalNode (97 :: rest)) ↔
    (LayerDefaultEscapeSQLParam (97 :: rest)).length + 13 ≤ 1023 := by
  have exact := equalNode_exact rest
  rw [FilterEncodingNode.leaf] at exact
  have name : (msDefaultEscapePropertyName (ascii "name")).length = 6 := by
    simp [msDefaultEscapePropertyName, ascii]
  have operator : (comparisonOperator (ascii "PropertyIsEqualTo")).length = 1 := by
    simp [comparisonOperator, isOneOf, ascii]
  simp only [SqlFits, equalNode, FilterEncodingNode.leaf, FilterEncodingNode.pszValue, getD_some, isEqualTo, if_true,
    exact, Bool.false_eq_true, if_false, equalNode_string, comparedValue, sqlValue, name, operator, length_append,
    length_cons, length_nil]
  omega

theorem equalNode_leaf (literal : CString) : SqlLeaf plainSqlLayer (equalNode literal) := Or.inl rfl

end Equal

theorem sqlExpression_closed_short : ∃ text, FLTGetSQLExpression plainSqlLayer (equalNode (ascii "a'b")) = some text ∧
    SqlClosed text [ascii "a'b"] := by
  have literal : ascii "a'b" = 97 :: [39, 98] := by simp [ascii]
  have closed := FLTGetSQLExpression_closed_iff (equalNode_leaf _) (equalNode_sql (97 :: [39, 98]))
  rw [equalNode_literals, equalNode_fits] at closed
  rw [literal]
  exact ⟨_, equalNode_sql _, closed.mpr (by decide)⟩

theorem sqlExpression_open_long : ∃ text, FLTGetSQLExpression plainSqlLayer (equalNode (List.replicate 1020 97)) = some text ∧
    ¬SqlClosed text [List.replicate 1020 97] := by
  have escaped (count : Nat) : LayerDefaultEscapeSQLParam (replicate count 97) = replicate count 97 ∧
      backslashed (replicate count 97) = replicate count 97 := by
    induction count with
    | zero => exact ⟨rfl, rfl⟩
    | succ count ih =>
      simp only [LayerDefaultEscapeSQLParam, backslashed] at ih ⊢
      simp [replicate_succ, ih.1, ih.2]
  have literal : replicate 1020 (97 : UInt8) = 97 :: replicate 1019 97 := replicate_succ
  have isOpen : ¬SqlFits plainSqlLayer (equalNode (replicate 1020 97)) := by
    rw [literal, equalNode_fits, ← literal, (escaped 1020).1, length_replicate]
    decide
  have literals : sqlLiterals plainSqlLayer (equalNode (replicate 1020 97)) = [replicate 1020 97] := by
    rw [literal, equalNode_literals, ← literal, (escaped 1020).2]
  refine ⟨_, equalNode_sql _, ?_⟩
  rw [← literals]
  exact fun closed => isOpen ((comparison_closed_iff (equalNode_sql _)).mp closed)

end MapServer
