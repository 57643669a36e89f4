import MapServer.Cql2.TextLexer

/-!
The grammar of `cql2textparser.y` as functions of the tokens. An expression is read with the operators of its level of
precedence and of the levels above it; the number of symbols that the generated parser has on its stack goes along.
-/

namespace MapServer
open Cql2ExprNode

/-- What has been read can be a `boolean_expr`, a boolean literal or a `value_expr`. -/
inductive Cql2Expr (α : Type) where
  | boolean_expr (node : Cql2ExprNode α)
  | boolean_literal (node : Cql2ExprNode α)
  | value_expr (node : Cql2ExprNode α)

abbrev Cql2Read (α β : Type) := β × List (Cql2Token α)

section Levels

def orLevel : Nat := 1

def andLevel : Nat := 2

def notLevel : Nat := 3

def comparisonLevel : Nat := 4

/-- Above the level of the comparisons are the operators of a `value_expr` only. -/
def valueLevel : Nat := 5

def uminusLevel : Nat := 7

end Levels

section Stack

/-- The parser is out of memory at the symbol that would come on top of so many: `YYMAXDEPTH` less the state at the bottom
and the place that is never filled. -/
def stackLimit : Nat := 9998

variable {α : Type}

def shifts (height : Nat) : Option Unit := if height < stackLimit then some () else none

def expectCharacter (c : UInt8) (height : Nat) : List (Cql2Token α) → Option (List (Cql2Token α))
  | .character d :: rest => if d = c ∧ height < stackLimit then some rest else none
  | _ => none

def expectWord (word : Cql2Word) (height : Nat) : List (Cql2Token α) → Option (List (Cql2Token α))
  | .word other :: rest => if other = word ∧ height < stackLimit then some rest else none
  | _ => none

def expectString (height : Nat) : List (Cql2Token α) → Option (Cql2Read α CString)
  | .CQL2_TOK_STRING m_osVal :: rest => if height < stackLimit then some (m_osVal, rest) else none
  | _ => none

end Stack

section Actions
variable {α : Type} (doubles : Doubles α)

def checkDepth (node : Cql2ExprNode α) : Option (Cql2ExprNode α) := if node.HasReachedMaxDepth then none else some node

def newOperation (op : Cql2Op) (operands : List (Cql2ExprNode α)) : Cql2ExprNode α :=
  operands.foldl PushSubExpression (ofOp doubles op)

def operation (op : Cql2Op) (operands : List (Cql2ExprNode α)) : Option (Cql2ExprNode α) :=
  checkDepth (newOperation doubles op operands)

def negatedIf (isNegated : Bool) (node : Cql2ExprNode α) : Option (Cql2ExprNode α) :=
  if isNegated then operation doubles .CQL2_NOT [node] else checkDepth node

def andOr (op : Cql2Op) (left right : Cql2ExprNode α) : Option (Cql2ExprNode α) :=
  checkDepth (cql2_create_and_or_or doubles op left right)

def unaryMinus (node : Cql2ExprNode α) : Option (Cql2ExprNode α) :=
  if node.m_node_type = .CQL2_NT_CONSTANT then
    if node.m_field_type = .CQL2_INTEGER ∧ node.m_nVal = -2147483648 then some node
    else some { node with m_nVal := node.m_nVal * -1, m_dfVal := doubles.negate node.m_dfVal }
  else operation doubles .CQL2_MULTIPLY [ofInt doubles (-1), node]

def columnNode (m_osVal : CString) : Cql2ExprNode α :=
  { ofString doubles m_osVal with m_node_type := .CQL2_NT_COLUMN }

def wktNode (m_osVal : CString) : Cql2ExprNode α := { ofString doubles m_osVal with m_field_type := .CQL2_WKT }

def customFunction (m_osVal : CString) (list : Cql2ExprNode α) : Cql2ExprNode α :=
  ReverseSubExpressions { list with m_node_type := .CQL2_NT_OPERATION, m_op := .CQL2_CUSTOM_FUNC, m_osVal := m_osVal }

/-- The field type is set without a `NOT` only. -/
def inNode (isNegated : Bool) (operand list : Cql2ExprNode α) : Cql2ExprNode α :=
  ReverseSubExpressions (PushSubExpression
    { list with m_field_type := if isNegated then list.m_field_type else .CQL2_BOOLEAN, m_op := .CQL2_IN } operand)

def spatialOp : Cql2Word → Option Cql2Op
  | .CQL2_TOK_S_INTERSECTS => some .CQL2_S_INTERSECTS
  | .CQL2_TOK_S_EQUALS => some .CQL2_S_EQUALS
  | .CQL2_TOK_S_DISJOINT => some .CQL2_S_DISJOINT
  | .CQL2_TOK_S_TOUCHES => some .CQL2_S_TOUCHES
  | .CQL2_TOK_S_WITHIN => some .CQL2_S_WITHIN
  | .CQL2_TOK_S_OVERLAPS => some .CQL2_S_OVERLAPS
  | .CQL2_TOK_S_CROSSES => some .CQL2_S_CROSSES
  | .CQL2_TOK_S_CONTAINS => some .CQL2_S_CONTAINS
  | _ => none

inductive Cql2Next where
  | arithmetic (own : Nat) (op : Cql2Op)
  | comparison
  | logical (own : Nat) (op : Cql2Op)

def Cql2Next.level : Cql2Next → Nat
  | .arithmetic own _ => own
  | .comparison => comparisonLevel
  | .logical own _ => own

def afterValue : Cql2Token α → Option Cql2Next
  | .character 43 => some (.arithmetic 5 .CQL2_ADD)
  | .character 45 => some (.arithmetic 5 .CQL2_SUBTRACT)
  | .character 42 => some (.arithmetic 6 .CQL2_MULTIPLY)
  | .character 47 => some (.arithmetic 6 .CQL2_DIV)
  | .word .CQL2_TOK_DIV => some (.arithmetic 6 .CQL2_DIV)
  | .character 37 => some (.arithmetic 6 .CQL2_MOD)
  | .character 61 => some .comparison
  | .character 60 => some .comparison
  | .character 62 => some .comparison
  | .word .CQL2_TOK_NOT => some .comparison
  | .word .CQL2_TOK_LIKE => some .comparison
  | .word .CQL2_TOK_IN => some .comparison
  | .word .CQL2_TOK_BETWEEN => some .comparison
  | .word .CQL2_TOK_IS => some .comparison
  | _ => none

def afterBoolean : Cql2Token α → Option Cql2Next
  | .word .CQL2_TOK_AND => some (.logical andLevel .CQL2_AND)
  | .word .CQL2_TOK_OR => some (.logical orLevel .CQL2_OR)
  | _ => none

def afterLiteral : Cql2Token α → Option Cql2Next
  | .character 61 => some .comparison
  | .character 60 => some .comparison
  | token => afterBoolean token

def following : Cql2Expr α → List (Cql2Token α) → Option Cql2Next
  | _, [] => none
  | .value_expr _, token :: _ => afterValue token
  | .boolean_literal _, token :: _ => afterLiteral token
  | .boolean_expr _, token :: _ => afterBoolean token

def asBoolean : Option (Cql2Read α (Cql2Expr α)) → Option (Cql2Read α (Cql2ExprNode α))
  | some (.boolean_expr node, rest) => some (node, rest)
  | some (.boolean_literal node, rest) => some (node, rest)
  | _ => none

def asValue : Option (Cql2Read α (Cql2Expr α)) → Option (Cql2Read α (Cql2ExprNode α))
  | some (.value_expr node, rest) => some (node, rest)
  | _ => none

def asValueOrLiteral : Option (Cql2Read α (Cql2Expr α)) → Option (Cql2Read α (Cql2ExprNode α))
  | some (.value_expr node, rest) => some (node, rest)
  | some (.boolean_literal node, rest) => some (node, rest)
  | _ => none

/-- Parentheses make no `value_expr` of a boolean literal. -/
def parenthesised : Cql2Expr α → Cql2Expr α
  | .boolean_literal node => .boolean_expr node
  | expr => expr

section Comparisons
variable (readExpr : Nat → List (Cql2Token α) → Option (Cql2Read α (Cql2Expr α)))
variable (readList : Nat → List (Cql2Token α) → Option (Cql2Read α (Cql2ExprNode α)))

/-- `CASEI ( string )` with what is compared with it. -/
def readCaseiString (op : Cql2Op) (isNegated : Bool) (height : Nat) (operand : Cql2ExprNode α)
    (tokens : List (Cql2Token α)) : Option (Cql2Read α (Cql2ExprNode α)) := do
  let rest ← expectWord .CQL2_TOK_CASEI height tokens
  let rest ← expectCharacter 40 (height + 1) rest
  let (m_osVal, rest) ← expectString (height + 2) rest
  let rest ← expectCharacter 41 (height + 3) rest
  let node ← negatedIf doubles isNegated (newOperation doubles op [operand, ofString doubles m_osVal])
  return (node, rest)

def readCaseiComparison (height : Nat) (operand : Cql2ExprNode α) : List (Cql2Token α) → Option (Cql2Read α (Cql2ExprNode α))
  | .character 61 :: rest => do
    shifts height
    readCaseiString doubles .CQL2_IEQ false (height + 1) operand rest
  | .character 60 :: .character 62 :: rest => do
    shifts (height + 1)
    readCaseiString doubles .CQL2_INE false (height + 2) operand rest
  | .word .CQL2_TOK_LIKE :: rest => do
    shifts height
    readCaseiString doubles .CQL2_ILIKE false (height + 1) operand rest
  | .word .CQL2_TOK_NOT :: .word .CQL2_TOK_LIKE :: rest => do
    shifts (height + 1)
    readCaseiString doubles .CQL2_ILIKE true (height + 2) operand rest
  | _ => none

def readValueComparison (op : Cql2Op) (height : Nat) (left : Cql2ExprNode α) (tokens : List (Cql2Token α)) :
    Option (Cql2Read α (Cql2ExprNode α)) := do
  let (right, rest) ← asValue (readExpr height tokens)
  let node ← operation doubles op [left, right]
  return (node, rest)

def readEquality (op : Cql2Op) (height : Nat) (left : Cql2ExprNode α) (tokens : List (Cql2Token α)) :
    Option (Cql2Read α (Cql2ExprNode α)) := do
  let (right, rest) ← asValueOrLiteral (readExpr height tokens)
  let node ← operation doubles op [left, right]
  return (node, rest)

/-- `LIKE`, `IN` or `BETWEEN`, with a `NOT` in front of it or without. -/
def readPredicate (isNegated : Bool) (height : Nat) (operand : Cql2ExprNode α) :
    List (Cql2Token α) → Option (Cql2Read α (Cql2ExprNode α))
  | .word .CQL2_TOK_LIKE :: rest => do
    shifts height
    let (m_osVal, rest) ← expectString (height + 1) rest
    let node ← negatedIf doubles isNegated (newOperation doubles .CQL2_LIKE [operand, ofString doubles m_osVal])
    return (node, rest)
  | .word .CQL2_TOK_IN :: rest => do
    shifts height
    let rest ← expectCharacter 40 (height + 1) rest
    let (list, rest) ← readList (height + 2) rest
    let rest ← expectCharacter 41 (height + 3) rest
    let node ← negatedIf doubles isNegated (inNode isNegated operand list)
    return (node, rest)
  | .word .CQL2_TOK_BETWEEN :: rest => do
    shifts height
    let (low, rest) ← asValue (readExpr (height + 1) rest)
    let rest ← expectWord .CQL2_TOK_AND (height + 2) rest
    let (high, rest) ← asValue (readExpr (height + 3) rest)
    let node ← negatedIf doubles isNegated (newOperation doubles .CQL2_BETWEEN [operand, low, high])
    return (node, rest)
  | _ => none

def readIsNull (height : Nat) (operand : Cql2ExprNode α) : List (Cql2Token α) → Option (Cql2Read α (Cql2ExprNode α))
  | .word .CQL2_TOK_NOT :: rest => do
    shifts height
    let rest ← expectWord .CQL2_TOK_NULL (height + 1) rest
    let node ← negatedIf doubles true (newOperation doubles .CQL2_IS_NULL [operand])
    return (node, rest)
  | tokens => do
    let rest ← expectWord .CQL2_TOK_NULL height tokens
    let node ← negatedIf doubles false (newOperation doubles .CQL2_IS_NULL [operand])
    return (node, rest)

/-- What follows a `value_expr` that is on top of the symbols. -/
def readComparison (height : Nat) (left : Cql2ExprNode α) : List (Cql2Token α) → Option (Cql2Read α (Cql2ExprNode α))
  | .character 61 :: rest => do
    shifts height
    readEquality doubles readExpr .CQL2_EQ (height + 1) left rest
  | .character 60 :: .character 62 :: rest => do
    shifts (height + 1)
    readEquality doubles readExpr .CQL2_NE (height + 2) left rest
  | .character 60 :: .character 61 :: rest => do
    shifts (height + 1)
    readValueComparison doubles readExpr .CQL2_LE (height + 2) left rest
  | .character 60 :: rest => do
    shifts height
    readValueComparison doubles readExpr .CQL2_LT (height + 1) left rest
  | .character 62 :: .character 61 :: rest => do
    shifts (height + 1)
    readValueComparison doubles readExpr .CQL2_GE (height + 2) left rest
  | .character 62 :: rest => do
    shifts height
    readValueComparison doubles readExpr .CQL2_GT (height + 1) left rest
  | .word .CQL2_TOK_NOT :: rest => do
    shifts height
    readPredicate doubles readExpr readList true (height + 1) left rest
  | .word .CQL2_TOK_IS :: rest => do
    shifts height
    readIsNull doubles (height + 1) left rest
  | tokens => readPredicate doubles readExpr readList false height left tokens

def readLiteralComparison (height : Nat) (left : Cql2ExprNode α) : List (Cql2Token α) → Option (Cql2Read α (Cql2ExprNode α))
  | .character 61 :: rest => do
    shifts height
    readEquality doubles readExpr .CQL2_EQ (height + 1) left rest
  | .character 60 :: .character 62 :: rest => do
    shifts (height + 1)
    readEquality doubles readExpr .CQL2_NE (height + 2) left rest
  | _ => none

end Comparisons

def readNext (readExpr : Nat → Nat → List (Cql2Token α) → Option (Cql2Read α (Cql2Expr α)))
    (readList : Nat → List (Cql2Token α) → Option (Cql2Read α (Cql2ExprNode α))) (height : Nat) :
    Cql2Next → Cql2Expr α → List (Cql2Token α) → Option (Cql2Read α (Cql2Expr α))
  | .arithmetic own op, .value_expr node, _ :: rest => do
    shifts height
    let (right, rest) ← asValue (readExpr (height + 1) (own + 1) rest)
    let result ← operation doubles op [node, right]
    return (.value_expr result, rest)
  | .comparison, .value_expr node, tokens => do
    let (result, rest) ← readComparison doubles (fun above => readExpr above valueLevel) readList height node tokens
    return (.boolean_expr result, rest)
  | .comparison, .boolean_literal node, tokens => do
    let (result, rest) ← readLiteralComparison doubles (fun above => readExpr above valueLevel) height node tokens
    return (.boolean_expr result, rest)
  | .logical own op, left, _ :: rest => do
    shifts height
    let (node, _) ← asBoolean (some (left, rest))
    let (right, rest) ← asBoolean (readExpr (height + 1) (own + 1) rest)
    let result ← andOr doubles op node right
    return (.boolean_expr result, rest)
  | _, _, _ => none

mutual

def readExpr : Nat → Nat → Nat → List (Cql2Token α) → Option (Cql2Read α (Cql2Expr α))
  | 0, _, _, _ => none
  | calls + 1, height, level, tokens => do
    let (left, rest) ← readOperand calls height tokens
    readOperators calls height level left rest

def readOperand : Nat → Nat → List (Cql2Token α) → Option (Cql2Read α (Cql2Expr α))
  | 0, _, _ => none
  | calls + 1, height, tokens =>
    match tokens with
    | .CQL2_TOK_INTEGER_NUMBER m_nVal :: rest => do
      shifts height
      return (.value_expr (ofInt doubles m_nVal), rest)
    | .CQL2_TOK_DOUBLE_NUMBER m_dfVal :: rest => do
      shifts height
      return (.value_expr (ofDouble doubles m_dfVal), rest)
    | .CQL2_TOK_STRING m_osVal :: rest => do
      shifts height
      return (.value_expr (ofString doubles m_osVal), rest)
    | .CQL2_TOK_WKT m_osVal :: rest => do
      shifts height
      return (.value_expr (wktNode doubles m_osVal), rest)
    | .CQL2_TOK_BOOLEAN_LITERAL m_nVal :: rest => do
      shifts height
      return (.boolean_literal (ofBool doubles m_nVal), rest)
    | .CQL2_TOK_IDENTIFIER m_osVal :: .character 40 :: rest => do
      shifts (height + 1)
      let (list, rest) ← readValueList calls (height + 2) rest
      let rest ← expectCharacter 41 (height + 3) rest
      return (.value_expr (customFunction m_osVal list), rest)
    | .CQL2_TOK_IDENTIFIER m_osVal :: rest => do
      shifts height
      return (.value_expr (columnNode doubles m_osVal), rest)
    | .character 40 :: rest => do
      shifts height
      let (inner, rest) ← readExpr calls (height + 1) orLevel rest
      let rest ← expectCharacter 41 (height + 2) rest
      return (parenthesised inner, rest)
    | .character 45 :: rest => do
      shifts height
      let (operand, rest) ← asValue (readExpr calls (height + 1) uminusLevel rest)
      let node ← unaryMinus doubles operand
      return (.value_expr node, rest)
    | .word .CQL2_TOK_NOT :: rest => do
      shifts height
      let (operand, rest) ← asBoolean (readExpr calls (height + 1) notLevel rest)
      let node ← operation doubles .CQL2_NOT [operand]
      return (.boolean_expr node, rest)
    | .word .CQL2_TOK_CASEI :: rest => do
      shifts height
      let rest ← expectCharacter 40 (height + 1) rest
      let (operand, rest) ← asValue (readExpr calls (height + 2) valueLevel rest)
      let rest ← expectCharacter 41 (height + 3) rest
      let (node, rest) ← readCaseiComparison doubles (height + 4) operand rest
      return (.boolean_expr node, rest)
    | .word word :: rest => do
      let op ← spatialOp word
      shifts height
      let rest ← expectCharacter 40 (height + 1) rest
      let (first, rest) ← asValue (readExpr calls (height + 2) valueLevel rest)
      let rest ← expectCharacter 44 (height + 3) rest
      let (second, rest) ← asValue (readExpr calls (height + 4) valueLevel rest)
      let rest ← expectCharacter 41 (height + 5) rest
      let node ← operation doubles op [first, second]
      return (.boolean_expr node, rest)
    | _ => none

def readOperators : Nat → Nat → Nat → Cql2Expr α → List (Cql2Token α) → Option (Cql2Read α (Cql2Expr α))
  | 0, _, _, _, _ => none
  | calls + 1, height, level, left, tokens =>
    match following left tokens with
    | none => some (left, tokens)
    | some next =>
      if next.level < level then some (left, tokens)
      else do
        let (result, rest) ← readNext doubles (readExpr calls) (readValueList calls) (height + 1) next left tokens
        readOperators calls height level result rest

def readValueList : Nat → Nat → List (Cql2Token α) → Option (Cql2Read α (Cql2ExprNode α))
  | 0, _, _ => none
  | calls + 1, height, tokens => do
    let (node, rest) ← asValue (readExpr calls height valueLevel tokens)
    match rest with
    | .character 44 :: rest => do
      shifts (height + 1)
      let (list, rest) ← readValueList calls (height + 2) rest
      let list ← checkDepth (list.PushSubExpression node)
      return (list, rest)
    | rest => do
      let list ← operation doubles .CQL2_ARGUMENT_LIST [node]
      return (list, rest)

end

/-- `CQL2_TOK_VALUE_START` is below the expression on the stack. -/
def cql2textparse (tokens : List (Cql2Token α)) : Option (Cql2ExprNode α) :=
  match asBoolean (readExpr doubles (2 * tokens.length + 2) 1 orLevel tokens) with
  | some (node, []) => some node
  | _ => none

def CQL2TextParse (text : CString) : Option (Cql2ExprNode α) :=
  match cql2Tokens doubles text with
  | (tokens, true) => (cql2textparse doubles tokens).map (RebalanceAndOr doubles)
  | (_, false) => none

end Actions

end MapServer
