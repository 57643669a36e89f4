import MapServer.Filter.Node
import MapServer.Runtime
import Mathlib.Data.List.TakeWhile

namespace MapServer
open List Option

def FLTIsNumeric : CString → Bool
  | [] => false
  | c :: rest => !isspace c && decide (strtodEnd (c :: rest) = some [])

/-- A character of a number, apart from the parentheses of a `NAN`. -/
def isNumberChar (c : UInt8) : Bool := isalnum c || c == 43 || c == 45 || c == 46 || c == 95

def Skips (text rest : CString) : Prop := ∃ used, text = used ++ rest ∧ ∀ c ∈ used, isNumberChar c = true

theorem Skips.refl (text : CString) : Skips text text := ⟨[], rfl, by simp⟩

theorem Skips.trans {first second third : CString} (skips : Skips first second) (next : Skips second third) :
    Skips first third := by
  obtain ⟨used, rfl, number⟩ := skips
  obtain ⟨more, rfl, others⟩ := next
  refine ⟨used ++ more, (append_assoc _ _ _).symm, ?_⟩
  intro c member
  rcases mem_append.mp member with inUsed | inMore
  · exact number c inUsed
  · exact others c inMore

theorem skips_cons {c : UInt8} (number : isNumberChar c = true) (rest : CString) : Skips (c :: rest) rest :=
  ⟨[c], rfl, by simpa using number⟩

theorem skips_dropWhile {digit : UInt8 → Bool} (number : ∀ c, digit c = true → isNumberChar c = true) (text : CString) :
    Skips text (text.dropWhile digit) := by
  refine ⟨text.takeWhile digit, takeWhile_append_dropWhile.symm, ?_⟩
  intro c member
  exact number c (mem_takeWhile_imp member)

theorem isNumberChar_of_digit {c : UInt8} (digit : isdigit c = true) : isNumberChar c = true := by
  simp [isNumberChar, isalnum, digit]

theorem isNumberChar_of_xdigit {c : UInt8} (digit : isxdigit c = true) : isNumberChar c = true := by
  rw [isxdigit, Bool.or_eq_true, Bool.and_eq_true, decide_eq_true_eq, decide_eq_true_eq] at digit
  rcases digit with decimal | ⟨low, high⟩
  · exact isNumberChar_of_digit decimal
  · have letter : tolower c ≤ 122 := UInt8.le_trans high (by decide)
    simp [isNumberChar, isalnum, low, letter]

theorem skipMantissa_skips {digit : UInt8 → Bool} (number : ∀ c, digit c = true → isNumberChar c = true)
    {text rest : CString} (skipped : skipMantissa digit text = some rest) : Skips text rest := by
  have whole := skips_dropWhile number text
  rw [skipMantissa] at skipped
  split at skipped
  · rename_i fraction point
    split at skipped
    · cases skipped
    · cases skipped
      rw [point] at whole
      exact whole.trans ((skips_cons (by decide) fraction).trans (skips_dropWhile number fraction))
  · split at skipped
    · cases skipped
    · cases skipped
      exact whole

theorem skipSign_skips (text : CString) : Skips text (skipSign text) := by
  unfold skipSign
  split
  · exact skips_cons (by decide) _
  · exact skips_cons (by decide) _
  · exact Skips.refl text

theorem skipExponent_skips {letter : UInt8} (isLetter : 97 ≤ letter ∧ letter ≤ 122) (text : CString) :
    Skips text (skipExponent letter text) := by
  cases text with
  | nil => exact Skips.refl []
  | cons c rest =>
    rw [skipExponent]
    split
    · rename_i exponent
      have number : isNumberChar c = true := by simp [isNumberChar, isalnum, exponent.1, isLetter.1, isLetter.2]
      exact (skips_cons number rest).trans ((skipSign_skips rest).trans (skips_dropWhile (fun _ => isNumberChar_of_digit) _))
    · exact Skips.refl _

theorem skipDecimal_skips {text rest : CString} (skipped : skipDecimal text = some rest) : Skips text rest := by
  obtain ⟨mantissa, isMantissa, rfl⟩ := map_eq_some_iff.mp skipped
  exact (skipMantissa_skips (fun _ => isNumberChar_of_digit) isMantissa).trans (skipExponent_skips (by decide) mantissa)

theorem skips_word {text : CString} {word : String} {count : Nat}
    (isWord : (text.take count).map tolower = ascii word) (letters : ∀ c ∈ ascii word, 97 ≤ c ∧ c ≤ 122) :
    Skips text (text.drop count) := by
  refine ⟨text.take count, (take_append_drop _ _).symm, ?_⟩
  intro c member
  have letter := letters (tolower c) (isWord ▸ List.mem_map_of_mem member)
  simp [isNumberChar, isalnum, letter.1, letter.2]

/-- The parentheses behind a `NAN`, if there are any. -/
def NanChars (text : CString) : Prop :=
  text = [] ∨ ∃ inner : CString, text = 40 :: inner ++ [41] ∧ ∀ c ∈ inner, isNumberChar c = true

theorem skipNanChars_skips (text : CString) : ∃ used, text = used ++ skipNanChars text ∧ NanChars used := by
  unfold skipNanChars
  split
  · rename_i rest
    split
    · rename_i others closed
      refine ⟨40 :: (rest.takeWhile fun c => isalnum c || c == 95) ++ [41], ?_, Or.inr ⟨_, rfl, ?_⟩⟩
      · have parts := takeWhile_append_dropWhile (p := fun c => isalnum c || c == 95) (l := rest)
        rw [closed] at parts
        simp [parts]
      · intro c member
        have named := mem_takeWhile_imp member
        simp only [Bool.or_eq_true] at named
        rcases named with letter | underscore
        · simp [isNumberChar, letter]
        · simp [isNumberChar, underscore]
    · exact ⟨[], rfl, Or.inl rfl⟩
  · exact ⟨[], rfl, Or.inl rfl⟩

theorem skipUnsigned_skips {text rest : CString} (skipped : skipUnsigned text = some rest) :
    ∃ used chars, text = used ++ (chars ++ rest) ∧ (∀ c ∈ used, isNumberChar c = true) ∧ NanChars chars := by
  have plain (skips : Skips text rest) :
      ∃ used chars, text = used ++ (chars ++ rest) ∧ (∀ c ∈ used, isNumberChar c = true) ∧ NanChars chars := by
    obtain ⟨used, same, number⟩ := skips
    exact ⟨used, [], same, number, Or.inl rfl⟩
  unfold skipUnsigned at skipped
  split at skipped
  · rename_i isWord
    cases skipped
    exact plain (skips_word isWord (by simp [ascii]))
  · split at skipped
    · rename_i isWord
      cases skipped
      exact plain (skips_word isWord (by simp [ascii]))
    · split at skipped
      · rename_i isWord
        cases skipped
        obtain ⟨used, same, number⟩ := skips_word isWord (by simp [ascii])
        obtain ⟨chars, rest, isChars⟩ := skipNanChars_skips (text.drop 3)
        exact ⟨used, chars, by rw [← rest]; exact same, number, isChars⟩
      · split at skipped
        · rename_i x hex _ _ _
          split at skipped
          · rename_i isX
            rcases or_eq_some_iff.mp skipped with hexadecimal | ⟨_, decimal⟩
            · obtain ⟨mantissa, isMantissa, rfl⟩ := map_eq_some_iff.mp hexadecimal
              have number : isNumberChar x = true := by simp [isNumberChar, isalnum, isX]
              apply plain
              exact (skips_cons (by decide) _).trans ((skips_cons number hex).trans
                ((skipMantissa_skips (fun _ => isNumberChar_of_xdigit) isMantissa).trans
                  (skipExponent_skips (by decide) mantissa)))
            · exact plain (skipDecimal_skips decimal)
          · exact plain (skipDecimal_skips skipped)
        · exact plain (skipDecimal_skips skipped)

theorem FLTIsNumeric_chars {pszValue : CString} (numeric : FLTIsNumeric pszValue = true) :
    ∃ used chars, pszValue = used ++ chars ∧ (∀ c ∈ used, isNumberChar c = true) ∧ NanChars chars := by
  cases pszValue with
  | nil => cases numeric
  | cons c rest =>
    rw [FLTIsNumeric, Bool.and_eq_true, Bool.not_eq_true', decide_eq_true_eq, strtodEnd] at numeric
    have noSpace : (c :: rest).dropWhile isspace = c :: rest := dropWhile_cons_of_neg (by simp [numeric.1])
    rw [noSpace] at numeric
    obtain ⟨used, chars, parts, number, isChars⟩ := skipUnsigned_skips numeric.2
    obtain ⟨sign, whole, isSign⟩ := skipSign_skips (c :: rest)
    rw [parts, append_nil] at whole
    refine ⟨sign ++ used, chars, by rw [whole, append_assoc], ?_, isChars⟩
    intro d member
    rcases mem_append.mp member with inSign | inUsed
    · exact isSign d inSign
    · exact number d inUsed

end MapServer

namespace MapServer

def LayerDefaultEscapeSQLParam (pszString : CString) : CString :=
  pszString.flatMap fun c => if c = 39 then [39, 39] else if c = 92 then [92, 92] else [c]

def msDefaultEscapePropertyName (pszString : CString) : CString :=
  34 :: pszString.flatMap (fun c => if c = 34 then [34, 34] else if c = 92 then [92, 92] else [c]) ++ [34]

/-- What is used of a layer; the metadata are looked up in the namespaces `OFG`. -/
structure SqlLayer (α : Type) where
  connectiontype : ConnectionType
  msOWSLookupMetadata : CString → Option CString
  FLTGetTimeExpression : FilterEncodingNode α → CString

section Expression
variable {α : Type} (lp : SqlLayer α)

def FilterEncodingNode.pszValue : FilterEncodingNode α → Option CString
  | .null => none
  | .node _ pszValue _ _ _ _ => pszValue

def FilterEncodingNode.isNull : FilterEncodingNode α → Bool
  | .null => true
  | _ => false

def FilterEncodingNode.isOne : FilterEncodingNode α → Bool
  | .node _ _ (.matchCase true) _ _ _ => true
  | _ => false

def isCharacter (propertyName : CString) : Bool :=
  match lp.msOWSLookupMetadata (snprintf 256 (propertyName ++ ascii "_type")) with
  | some pszOFGType => sameIgnoringCase pszOFGType (ascii "Character")
  | none => false

def comparisonOperator (pszValue : CString) : CString :=
  if isOneOf ["PropertyIsEqualTo"] pszValue then ascii "="
  else if isOneOf ["PropertyIsNotEqualTo"] pszValue then ascii "<>"
  else if isOneOf ["PropertyIsLessThan"] pszValue then ascii "<"
  else if isOneOf ["PropertyIsGreaterThan"] pszValue then ascii ">"
  else if isOneOf ["PropertyIsLessThanOrEqualTo"] pszValue then ascii "<="
  else if isOneOf ["PropertyIsGreaterThanOrEqualTo"] pszValue then ascii ">="
  else []

def quoteOf (bString : Bool) : CString := if bString then ascii "'" else []

def comparesString (propertyName : CString) (literal : Option CString) : Bool :=
  match literal with
  | some value => isCharacter lp propertyName || !FLTIsNumeric value
  | none => true

def comparesLower (pszValue propertyName : CString) (psRightNode : FilterEncodingNode α) : Bool :=
  comparesString lp propertyName psRightNode.pszValue && isOneOf ["PropertyIsEqualTo"] pszValue && psRightNode.isOne

def FLTGetBinaryComparisonSQLExpresssion (pszValue propertyName : CString) (psRightNode : FilterEncodingNode α) : CString :=
  let bString := comparesString lp propertyName psRightNode.pszValue
  let lower := comparesLower lp pszValue propertyName psRightNode
  let pszEscapedStr := msDefaultEscapePropertyName propertyName
  let attribute_ := if lower then snprintf 256 (ascii "lower(" ++ pszEscapedStr ++ ascii ") ") else pszEscapedStr
  let value :=
    match psRightNode.pszValue with
    | some literal =>
      if lower then [snprintf 256 (ascii "lower('" ++ LayerDefaultEscapeSQLParam literal ++ ascii "') ")]
      else [quoteOf bString, if bString then LayerDefaultEscapeSQLParam literal else literal, quoteOf bString]
    | none => [quoteOf bString, quoteOf bString]
  ([ascii " (", attribute_, comparisonOperator pszValue, ascii " "] ++ value ++ [ascii ") "]).foldl (strlcat 1024) []

def boundsString (propertyName bound1 bound2 : CString) : Bool :=
  isCharacter lp propertyName || !FLTIsNumeric bound1 || !FLTIsNumeric bound2

def FLTGetIsBetweenComparisonSQLExpresssion (propertyName value : CString) : Option CString :=
  match msStringSplit 59 value with
  | [bound1, bound2] =>
    let quote := quoteOf (boundsString lp propertyName bound1 bound2)
    some ([ascii " (", msDefaultEscapePropertyName propertyName, ascii " BETWEEN ",
      quote, LayerDefaultEscapeSQLParam bound1, quote, ascii " AND ",
      quote, LayerDefaultEscapeSQLParam bound2, quote, ascii ")"].foldl (strlcat 1024) [])
  | _ => none

/-- The loop over the value of a `PropertyIsLike`; a character after the escape character is `escaped`. -/
def likePattern (pszWild pszSingle pszEscape : UInt8) (escaped : Bool) : CString → CString
  | [] => []
  | c :: rest =>
    if escaped then (if c = 39 then [39, 39] else [c]) ++ likePattern pszWild pszSingle pszEscape false rest
    else if c ≠ pszWild ∧ c ≠ pszSingle ∧ c ≠ pszEscape then
      (if c = 39 then [39, 39] else if c = 92 then [92, 92] else [c]) ++ likePattern pszWild pszSingle pszEscape false rest
    else if c = pszSingle then 95 :: likePattern pszWild pszSingle pszEscape false rest
    else if c = pszEscape then pszEscape :: likePattern pszWild pszSingle pszEscape true rest
    else 37 :: likePattern pszWild pszSingle pszEscape false rest

def likeOperator (bCaseInsensitive : Bool) : CString :=
  if lp.connectiontype = .MS_POSTGIS then
    if bCaseInsensitive then ascii "::text ilike '" else ascii "::text like '"
  else ascii " like '"

def likeEscape (pszEscape : UInt8) : List CString :=
  if lp.connectiontype ≠ .MS_OGR then
    [if lp.connectiontype = .MS_POSTGIS ∧ pszEscape = 92 then ascii " escape E'" else ascii " escape '",
      if pszEscape = 92 then [92, 92, 39] else [pszEscape, 39]]
  else []

def FLTGetIsLikeComparisonSQLExpression (pOther : FilterOther α) (propertyName value : CString) : Option CString :=
  match pOther with
  | .like propIsLike =>
    match propIsLike.pszWildCard, propIsLike.pszSingleChar, propIsLike.pszEscapeChar with
    | pszWild :: _, pszSingle :: _, pszEscape :: _ =>
      if pszEscape = 39 then none
      else
        some (([ascii " (", msDefaultEscapePropertyName propertyName, likeOperator lp propIsLike.bCaseInsensitive,
          likePattern pszWild pszSingle pszEscape false value, ascii "'"] ++ likeEscape lp pszEscape ++
          [ascii ") "]).foldl (strlcat 1024) [])
    | _, _, _ => none
  | _ => none

def idOf (token : CString) : CString :=
  match token.dropWhile (· ≠ 46) with
  | [] => token
  | _ :: pszId => pszId

def featureIdTerm (pszAttribute pszId : CString) (bString : Bool) : CString :=
  let pszEscapedStr := LayerDefaultEscapeSQLParam pszId
  snprintf 256 (
    if bString then
      if lp.connectiontype = .MS_OGR ∨ lp.connectiontype = .MS_POSTGIS then
        ascii "(CAST(" ++ pszAttribute ++ ascii " AS CHARACTER(255)) = '" ++ pszEscapedStr ++ ascii "')"
      else ascii "(" ++ pszAttribute ++ ascii " = '" ++ pszEscapedStr ++ ascii "')"
    else ascii "(" ++ pszAttribute ++ ascii " = " ++ pszEscapedStr ++ ascii ")")

/-- One round of the loop over the feature ids: `bString`, which stays set, and the expression so far. -/
def featureIdStep (pszAttribute : CString) (state : Bool × Option CString) (token : CString) : Bool × Option CString :=
  let pszId := idOf token
  if pszId = [] then state
  else
    let bString := state.1 || !FLTIsNumeric pszId
    let before :=
      match state.2 with
      | some pszExpression => pszExpression ++ ascii " OR "
      | none => ascii "("
    (bString, some (before ++ featureIdTerm lp pszAttribute pszId bString))

def FLTGetFeatureIdSQLExpression (pszValue : CString) : Option CString :=
  match lp.msOWSLookupMetadata (ascii "featureid") with
  | some pszAttribute =>
    (((msStringSplit 44 pszValue).foldl (featureIdStep lp pszAttribute) (false, none)).2).map (· ++ ascii ")")
  | none => none

def isTemporal : FilterEncodingNode α → Bool
  | .node .FILTER_NODE_TYPE_TEMPORAL _ _ _ _ _ => true
  | _ => false

def FLTGetLogicalComparisonSQLExpresssion (pszValue : CString) (psLeftNode psRightNode : FilterEncodingNode α)
    (left right : Option CString) : Option CString :=
  if !psRightNode.isNull then
    if psLeftNode.pszValue.any (isOneOf ["BBOX"]) || psRightNode.pszValue.any (isOneOf ["BBOX"]) then
      if psLeftNode.pszValue.any (isOneOf ["BBOX"]) then right else left
    else if lp.connectiontype = .MS_OGR ∧ (isTemporal psLeftNode || isTemporal psRightNode) then
      if isTemporal psLeftNode then right else left
    else
      match left, right with
      | some left, some right => some (ascii " (" ++ left ++ ascii " " ++ pszValue ++ ascii " " ++ right ++ ascii ") ")
      | _, _ => none
  else if isOneOf ["NOT"] pszValue then left.map fun left => ascii " (NOT " ++ left ++ ascii ") "
  else none

def FLTGetSQLExpression : FilterEncodingNode α → Option CString
  | .null => none
  | .node eType pszValue pOther pszSRS psLeftNode psRightNode =>
    match eType, pszValue with
    | .FILTER_NODE_TYPE_COMPARISON, some name =>
      if !psRightNode.isNull then
        match psLeftNode.pszValue with
        | some propertyName =>
          if FLTIsBinaryComparisonFilterType name then
            some (FLTGetBinaryComparisonSQLExpresssion lp name propertyName psRightNode)
          else if isOneOf ["PropertyIsBetween"] name then
            psRightNode.pszValue.bind (FLTGetIsBetweenComparisonSQLExpresssion lp propertyName)
          else if isOneOf ["PropertyIsLike"] name then
            psRightNode.pszValue.bind (FLTGetIsLikeComparisonSQLExpression lp pOther propertyName)
          else none
        | none => none
      else none
    | .FILTER_NODE_TYPE_LOGICAL, some name =>
      if FLTIsLogicalFilterType name && !psLeftNode.isNull then
        FLTGetLogicalComparisonSQLExpresssion lp name psLeftNode psRightNode (FLTGetSQLExpression psLeftNode)
          (FLTGetSQLExpression psRightNode)
      else none
    | .FILTER_NODE_TYPE_FEATUREID, some ids => FLTGetFeatureIdSQLExpression lp ids
    | .FILTER_NODE_TYPE_TEMPORAL, _ =>
      if lp.connectiontype ≠ .MS_OGR then
        some (lp.FLTGetTimeExpression (.node eType pszValue pOther pszSRS psLeftNode psRightNode))
      else none
    | _, _ => none

end Expression

end MapServer
