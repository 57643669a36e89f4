import MapServer.Text

namespace MapServer

inductive FilterNodeType where
  | FILTER_NODE_TYPE_UNDEFINED
  | FILTER_NODE_TYPE_LOGICAL
  | FILTER_NODE_TYPE_SPATIAL
  | FILTER_NODE_TYPE_COMPARISON
  | FILTER_NODE_TYPE_PROPERTYNAME
  | FILTER_NODE_TYPE_BBOX
  | FILTER_NODE_TYPE_LITERAL
  | FILTER_NODE_TYPE_BOUNDARY
  | FILTER_NODE_TYPE_GEOMETRY_POINT
  | FILTER_NODE_TYPE_GEOMETRY_LINE
  | FILTER_NODE_TYPE_GEOMETRY_POLYGON
  | FILTER_NODE_TYPE_FEATUREID
  | FILTER_NODE_TYPE_TEMPORAL
  | FILTER_NODE_TYPE_TIME_PERIOD
  deriving DecidableEq

structure FEPropertyIsLike where
  pszWildCard : CString
  pszSingleChar : CString
  pszEscapeChar : CString
  bCaseInsensitive : Bool
  deriving DecidableEq

/-- What `pOther` points to. -/
inductive FilterOther (α : Type) where
  | null
  | matchCase (insensitive : Bool)
  | like (propIsLike : FEPropertyIsLike)
  | box (rect : RectObj α)
  deriving DecidableEq

inductive FilterEncodingNode (α : Type) where
  | null
  | node (eType : FilterNodeType) (pszValue : Option CString) (pOther : FilterOther α) (pszSRS : Option CString)
      (psLeftNode psRightNode : FilterEncodingNode α)
  deriving DecidableEq

def FilterEncodingNode.leaf {α : Type} (eType : FilterNodeType) (pszValue : Option CString) : FilterEncodingNode α :=
  .node eType pszValue .null none .null .null

/-- `strcasecmp(pszValue, name) == 0` for one of the names. -/
def isOneOf (names : List String) (pszValue : CString) : Bool :=
  names.any fun name => sameIgnoringCase pszValue (ascii name)

def FLTIsLogicalFilterType (pszValue : CString) : Bool := isOneOf ["AND", "OR", "NOT"] pszValue

def FLTIsBinaryComparisonFilterType (pszValue : CString) : Bool :=
  isOneOf ["PropertyIsEqualTo", "PropertyIsNotEqualTo", "PropertyIsLessThan", "PropertyIsGreaterThan",
    "PropertyIsLessThanOrEqualTo", "PropertyIsGreaterThanOrEqualTo"] pszValue

def FLTIsComparisonFilterType (pszValue : CString) : Bool :=
  FLTIsBinaryComparisonFilterType pszValue ||
    isOneOf ["PropertyIsLike", "PropertyIsBetween", "PropertyIsNull", "PropertyIsNil"] pszValue

def FLTIsFeatureIdFilterType (pszValue : CString) : Bool :=
  isOneOf ["FeatureId", "GmlObjectId", "ResourceId"] pszValue

def FLTIsSpatialFilterType (pszValue : CString) : Bool :=
  isOneOf ["BBOX", "DWithin", "Intersect", "Intersects", "Equals", "Disjoint", "Touches", "Crosses", "Within",
    "Contains", "Overlaps", "Beyond"] pszValue

def FLTIsTemporalFilterType (pszValue : CString) : Bool := isOneOf ["During"] pszValue

end MapServer

namespace MapServer

inductive CPLXMLNodeType where
  | CXT_Element
  | CXT_Text
  | CXT_Attribute
  | CXT_Comment
  | CXT_Literal
  deriving DecidableEq

inductive CPLXMLNode where
  | null
  | node (eType : CPLXMLNodeType) (pszValue : CString) (psNext psChild : CPLXMLNode)
  deriving DecidableEq

section Insert
variable {α : Type} (CPLGetXMLValue : CPLXMLNode → String → Option CString)
  /- the nodes for comparisons, spatial and temporal operators -/
  (insertOperator : CPLXMLNode → FilterEncodingNode α)

/-- The right-deep tree of the loop over the children of an `AND` or an `OR`. -/
def chainNodes (pszValue : CString) : List (FilterEncodingNode α) → FilterEncodingNode α
  | [] => .leaf .FILTER_NODE_TYPE_UNDEFINED (some pszValue)
  | [_] => .leaf .FILTER_NODE_TYPE_UNDEFINED (some pszValue)
  | [left, right] => .node .FILTER_NODE_TYPE_LOGICAL (some pszValue) .null none left right -- last 2 operators
  | left :: rest => .node .FILTER_NODE_TYPE_LOGICAL (some pszValue) .null none left (chainNodes pszValue rest)

def insertLogical (pszValue : CString) (children : List (FilterEncodingNode α)) : FilterEncodingNode α :=
  if isOneOf ["AND", "OR"] pszValue then chainNodes pszValue children
  else if isOneOf ["NOT"] pszValue then
    match children with
    | [] => .leaf .FILTER_NODE_TYPE_UNDEFINED (some pszValue)
    | child :: _ => .node .FILTER_NODE_TYPE_LOGICAL (some pszValue) .null none child .null
  else .leaf .FILTER_NODE_TYPE_UNDEFINED (some pszValue)

def featureIdOf (psFeatureIdNode : CPLXMLNode) : Option CString :=
  (CPLGetXMLValue psFeatureIdNode "fid").or
    ((CPLGetXMLValue psFeatureIdNode "id").or (CPLGetXMLValue psFeatureIdNode "rid"))

def featureIds : CPLXMLNode → List CString
  | .null => []
  | .node eType pszValue psNext psChild =>
    (featureIdOf CPLGetXMLValue (.node eType pszValue psNext psChild)).toList ++ featureIds psNext

def insertFeatureIds (psXMLNode : CPLXMLNode) (pszValue : CString) : FilterEncodingNode α :=
  match featureIds CPLGetXMLValue psXMLNode with
  | [] => .leaf .FILTER_NODE_TYPE_UNDEFINED (some pszValue)
  | ids => .leaf .FILTER_NODE_TYPE_FEATUREID (some (List.intercalate [44] ids))

/-- The tree for an element called `pszValue`, from the trees for its child elements. -/
def insertElement (psXMLNode : CPLXMLNode) (pszValue : CString) (children : List (FilterEncodingNode α)) :
    FilterEncodingNode α :=
  if FLTIsLogicalFilterType pszValue then insertLogical pszValue children
  else if FLTIsSpatialFilterType pszValue || FLTIsComparisonFilterType pszValue then insertOperator psXMLNode
  else if FLTIsFeatureIdFilterType pszValue then insertFeatureIds CPLGetXMLValue psXMLNode pszValue
  else if FLTIsTemporalFilterType pszValue then insertOperator psXMLNode
  else .leaf .FILTER_NODE_TYPE_UNDEFINED (some pszValue)

def insertChain : CPLXMLNode → List (FilterEncodingNode α)
  | .null => []
  | .node eType pszValue psNext psChild =>
    if eType = .CXT_Element then
      insertElement CPLGetXMLValue insertOperator (.node eType pszValue psNext psChild) pszValue (insertChain psChild) ::
        insertChain psNext
    else insertChain psNext

def FLTInsertElementInNode : CPLXMLNode → FilterEncodingNode α
  | .null => .leaf .FILTER_NODE_TYPE_UNDEFINED none
  | .node eType pszValue psNext psChild =>
    insertElement CPLGetXMLValue insertOperator (.node eType pszValue psNext psChild) pszValue
      (insertChain CPLGetXMLValue insertOperator psChild)

end Insert

end MapServer
