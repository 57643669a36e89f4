import MapServer.Filter.SqlExpression

namespace MapServer

def FLTEscapePropertyName (pszStr : CString) (chEscapeChar : UInt8) : CString :=
  pszStr.flatMap fun c => if c = chEscapeChar then [chEscapeChar, chEscapeChar] else [c]

def msStdStringEscape (pszString : CString) : CString :=
  pszString.flatMap fun c => if c = 34 ∨ c = 39 then [92, c] else [c]

def pszRegexSpecialCharsAndDoubleQuote : CString := ascii "\\^$\x7b[().*+?|\""

def likeChar (c : UInt8) : CString :=
  if c = 92 then [92, 92, 92, 92] else if pszRegexSpecialCharsAndDoubleQuote.contains c then [92, c] else [c]

def likeLoop (write : UInt8 → CString) (pszWild pszSingle pszEscape : UInt8) : CString → CString
  | [] => []
  | [c] => if c = pszSingle then [46] else if c = pszWild then [46, 42] else write c
  | c :: next :: rest =>
    if c = pszSingle then 46 :: likeLoop write pszWild pszSingle pszEscape (next :: rest)
    else if c = pszEscape ∧ (next = pszSingle ∨ next = pszWild ∨ next = pszEscape) then
      write next ++ likeLoop write pszWild pszSingle pszEscape rest
    else if c = pszWild then [46, 42] ++ likeLoop write pszWild pszSingle pszEscape (next :: rest)
    else write c ++ likeLoop write pszWild pszSingle pszEscape (next :: rest)

def anchored (pszValue expr : CString) : CString := if pszValue = [] then expr else 94 :: (expr ++ [36])

def msGetLikePatternAsRegex (pszWild pszSingle pszEscape : UInt8) (pszValue : CString) : CString :=
  anchored pszValue (likeLoop likeChar pszWild pszSingle pszEscape pszValue)

/-- What is used of a layer; the metadata are looked up in the namespaces `OFG`. -/
structure CommonLayer (α : Type) where
  msOWSLookupMetadata : CString → Option CString
  FLTGetSpatialComparisonCommonExpression : FilterEncodingNode α → CString
  FLTGetTimeExpression : FilterEncodingNode α → CString

/-- How a value is compared: `bString`, `bDateTime` or none of them. -/
inductive ValueKind where
  | string
  | dateTime
  | number
  deriving DecidableEq

def ValueKind.opening (kind : ValueKind) : CString := if kind = .string then ascii "\"[" else ascii "["

def ValueKind.closing (kind : ValueKind) : CString := if kind = .string then ascii "]\" " else ascii "] "

def ValueKind.quote : ValueKind → CString
  | .string => ascii "\""
  | .dateTime => ascii "\x60"
  | .number => []

def ValueKind.escape (kind : ValueKind) : UInt8 := if kind = .string then 34 else 93

section Expression
variable {α : Type} (lp : CommonLayer α)

def isOfType (propertyName : CString) (type : String) : Bool :=
  (lp.msOWSLookupMetadata (propertyName ++ ascii "_type")).any fun pszType => sameIgnoringCase pszType (ascii type)

def kindOf (propertyName : CString) (pszValues : List CString) : ValueKind :=
  if isOfType lp propertyName "Character" then .string
  else if isOfType lp propertyName "Date" then .dateTime
  else if pszValues.all FLTIsNumeric then .number
  else .string

def comparisonKind (pszPropertyName : CString) (bForceString : Bool) (pszValue : Option CString) : ValueKind :=
  match pszValue with
  | some value => if bForceString then .string else kindOf lp pszPropertyName [value]
  | none => .string

def FLTGetBinaryComparisonCommonExpression (pszPropertyName : CString) (bForceString : Bool) (pszOp : CString)
    (pszValue : Option CString) : CString :=
  let kind := comparisonKind lp pszPropertyName bForceString pszValue
  ascii "(" ++ kind.opening ++ FLTEscapePropertyName pszPropertyName kind.escape ++ kind.closing ++ pszOp ++ ascii " " ++
    kind.quote ++ msStdStringEscape (pszValue.getD []) ++ kind.quote ++ ascii ")"

def commonOperator (pszXMLOp : CString) (psRightNode : FilterEncodingNode α) : Option CString :=
  if isOneOf ["PropertyIsEqualTo"] pszXMLOp then some (if psRightNode.isOne then ascii "=*" else ascii "=")
  else if isOneOf ["PropertyIsNotEqualTo"] pszXMLOp then some (ascii "!=")
  else if isOneOf ["PropertyIsLessThan"] pszXMLOp then some (ascii "<")
  else if isOneOf ["PropertyIsGreaterThan"] pszXMLOp then some (ascii ">")
  else if isOneOf ["PropertyIsLessThanOrEqualTo"] pszXMLOp then some (ascii "<=")
  else if isOneOf ["PropertyIsGreaterThanOrEqualTo"] pszXMLOp then some (ascii ">=")
  else if isOneOf ["PropertyIsLike"] pszXMLOp then some (ascii "~")
  else none

def binaryComparisonText (pszXMLOp : CString) (psLeftNode psRightNode : FilterEncodingNode α) : CString :=
  match psLeftNode.pszValue, commonOperator pszXMLOp psRightNode with
  | some pszPropertyName, some pszOp =>
    FLTGetBinaryComparisonCommonExpression lp pszPropertyName (isOneOf ["PropertyIsLike"] pszXMLOp) pszOp
      psRightNode.pszValue
  | _, _ => []

def FLTGetIsBetweenComparisonCommonExpresssion (pszPropertyName pszValue : CString) : CString :=
  match msStringSplit 59 pszValue with
  | [low, high] =>
    let kind := kindOf lp pszPropertyName [low, high]
    ascii "(" ++ kind.opening ++ FLTEscapePropertyName pszPropertyName kind.escape ++ kind.closing ++ ascii " >= " ++
      kind.quote ++ msStdStringEscape low ++ kind.quote ++ ascii " AND " ++ ascii " " ++ kind.opening ++ pszPropertyName ++
      kind.closing ++ ascii " <= " ++ kind.quote ++ msStdStringEscape high ++ kind.quote ++ ascii ")"
  | _ => []

def FLTGetIsLikeComparisonCommonExpression (pOther : FilterOther α) (pszPropertyName pszValue : CString) : CString :=
  match pOther with
  | .like propIsLike =>
    match propIsLike.pszWildCard, propIsLike.pszSingleChar, propIsLike.pszEscapeChar with
    | pszWild :: _, pszSingle :: _, pszEscape :: _ =>
      ascii "(\"[" ++ FLTEscapePropertyName pszPropertyName 34 ++
        (if propIsLike.bCaseInsensitive then ascii "]\" ~* \"" else ascii "]\" ~ \"") ++
        msGetLikePatternAsRegex pszWild pszSingle pszEscape pszValue ++ ascii "\")"
    | _, _, _ => []
  | _ => []

def commonId (token : CString) : CString := (token.reverse.takeWhile (· ≠ 46)).reverse

def commonIdTerm (pszAttribute : CString) (bString : Bool) (pszId : CString) : CString :=
  if bString then ascii "(\"[" ++ FLTEscapePropertyName pszAttribute 34 ++ ascii "]\" == \"" ++ pszId ++ ascii "\")"
  else ascii "([" ++ FLTEscapePropertyName pszAttribute 93 ++ ascii "] == " ++ pszId ++ ascii ")"

def idsAreStrings : List CString → Bool
  | [] => false
  | token :: _ => !FLTIsNumeric (commonId token)

def FLTGetFeatureIdCommonExpression (pszValue : CString) : CString :=
  match lp.msOWSLookupMetadata (ascii "featureid") with
  | some pszAttribute =>
    let tokens := msStringSplit 44 pszValue
    match tokens.map fun token => commonIdTerm pszAttribute (idsAreStrings tokens) (commonId token) with
    | [] => []
    | term :: terms => terms.foldl (fun expr term => expr ++ ascii " OR " ++ term) (ascii "(" ++ term) ++ ascii ")"
  | none => []

def FLTGetLogicalComparisonCommonExpression (pszValue : CString) (psLeftNode psRightNode : FilterEncodingNode α)
    (left right : Option CString) : CString :=
  if !psLeftNode.isNull && !psRightNode.isNull then
    match left, right with
    | some left, some right => ascii "(" ++ left ++ ascii " " ++ pszValue ++ ascii " " ++ right ++ ascii ")"
    | _, _ => []
  else if !psLeftNode.isNull && isOneOf ["NOT"] pszValue then
    match left with
    | some left => ascii "(NOT " ++ left ++ ascii ")"
    | none => []
  else []

def FLTGetCommonExpression : FilterEncodingNode α → Option CString
  | .null => none
  | .node eType pszValue pOther pszSRS psLeftNode psRightNode =>
    match eType, pszValue with
    | .FILTER_NODE_TYPE_COMPARISON, some name =>
      if !psLeftNode.isNull && !psRightNode.isNull then
        if FLTIsBinaryComparisonFilterType name then some (binaryComparisonText lp name psLeftNode psRightNode)
        else if isOneOf ["PropertyIsLike"] name then
          match psLeftNode.pszValue, psRightNode.pszValue with
          | some propertyName, some value => some (FLTGetIsLikeComparisonCommonExpression pOther propertyName value)
          | _, none => some []
          | none, some _ => none
        else if isOneOf ["PropertyIsBetween"] name then
          match psLeftNode.pszValue, psRightNode.pszValue with
          | some propertyName, some value => some (FLTGetIsBetweenComparisonCommonExpresssion lp propertyName value)
          | _, _ => none
        else none
      else none
    | .FILTER_NODE_TYPE_LOGICAL, some name =>
      some (FLTGetLogicalComparisonCommonExpression name psLeftNode psRightNode (FLTGetCommonExpression psLeftNode)
        (FLTGetCommonExpression psRightNode))
    | .FILTER_NODE_TYPE_SPATIAL, _ =>
      some (lp.FLTGetSpatialComparisonCommonExpression (.node eType pszValue pOther pszSRS psLeftNode psRightNode))
    | .FILTER_NODE_TYPE_FEATUREID, some ids => some (FLTGetFeatureIdCommonExpression lp ids)
    | .FILTER_NODE_TYPE_FEATUREID, none => some []
    | .FILTER_NODE_TYPE_TEMPORAL, _ =>
      some (lp.FLTGetTimeExpression (.node eType pszValue pOther pszSRS psLeftNode psRightNode))
    | _, _ => none

end Expression

end MapServer
