import MapServer.Text

namespace MapServer

inductive Cql2Op where
  | CQL2_NONE | CQL2_ARGUMENT_LIST | CQL2_CUSTOM_FUNC
  | CQL2_OR | CQL2_AND | CQL2_NOT
  | CQL2_EQ | CQL2_IEQ | CQL2_NE | CQL2_INE | CQL2_GE | CQL2_LE | CQL2_LT | CQL2_GT
  | CQL2_IS_NULL | CQL2_IN | CQL2_LIKE | CQL2_ILIKE | CQL2_BETWEEN
  | CQL2_S_INTERSECTS | CQL2_S_EQUALS | CQL2_S_DISJOINT | CQL2_S_TOUCHES
  | CQL2_S_WITHIN | CQL2_S_OVERLAPS | CQL2_S_CROSSES | CQL2_S_CONTAINS
  | CQL2_ADD | CQL2_SUBTRACT | CQL2_MULTIPLY | CQL2_DIV | CQL2_MOD
  deriving DecidableEq

inductive Cql2FieldType where
  | CQL2_INTEGER | CQL2_DOUBLE | CQL2_STRING | CQL2_WKT | CQL2_BOOLEAN
  deriving DecidableEq

inductive Cql2NodeType where
  | CQL2_NT_CONSTANT | CQL2_NT_COLUMN | CQL2_NT_OPERATION
  deriving DecidableEq

/-- What is used of `double`: `0`, the value of an `int`, the product with `-1`, `atof`, and what `%.17g` prints. -/
structure Doubles (α : Type) where
  zero : α
  ofInt : Int → α
  negate : α → α
  atof : CString → α
  to_string : α → CString

structure Cql2ExprNode (α : Type) where
  m_op : Cql2Op
  m_node_type : Cql2NodeType
  m_field_type : Cql2FieldType
  m_nVal : Int
  m_dfVal : α
  m_osVal : CString
  m_apoChildren : List (Cql2ExprNode α)
  m_depth : Nat
  m_alreadyReprojected : Bool

def Cql2Op.isBoolean : Cql2Op → Bool
  | .CQL2_NONE | .CQL2_ARGUMENT_LIST | .CQL2_CUSTOM_FUNC => false
  | .CQL2_ADD | .CQL2_SUBTRACT | .CQL2_MULTIPLY | .CQL2_DIV | .CQL2_MOD => false
  | _ => true

def Cql2Op.isAndOr (op : Cql2Op) : Bool := op == .CQL2_OR || op == .CQL2_AND

namespace Cql2ExprNode
variable {α : Type}

section Constructors
variable (doubles : Doubles α)

def initial : Cql2ExprNode α where
  m_op := .CQL2_NONE
  m_node_type := .CQL2_NT_CONSTANT
  m_field_type := .CQL2_INTEGER
  m_nVal := 0
  m_dfVal := doubles.zero
  m_osVal := []
  m_apoChildren := []
  m_depth := 0
  m_alreadyReprojected := false

def ofOp (op : Cql2Op) : Cql2ExprNode α :=
  { initial doubles with
    m_op := op
    m_node_type := .CQL2_NT_OPERATION
    m_field_type := if op.isBoolean then .CQL2_BOOLEAN else .CQL2_INTEGER }

def ofBool (v : Bool) : Cql2ExprNode α :=
  { initial doubles with m_field_type := .CQL2_BOOLEAN, m_nVal := if v then 1 else 0 }

def ofInt (v : Int) : Cql2ExprNode α := { initial doubles with m_field_type := .CQL2_INTEGER, m_nVal := v }

def ofDouble (v : α) : Cql2ExprNode α := { initial doubles with m_field_type := .CQL2_DOUBLE, m_dfVal := v }

def ofString (v : CString) : Cql2ExprNode α := { initial doubles with m_field_type := .CQL2_STRING, m_osVal := v }

end Constructors

def HasReachedMaxDepth (node : Cql2ExprNode α) : Bool := 32 < node.m_depth

def PushSubExpression (node child : Cql2ExprNode α) : Cql2ExprNode α :=
  { node with m_depth := max node.m_depth (1 + child.m_depth), m_apoChildren := node.m_apoChildren ++ [child] }

def ReverseSubExpressions (node : Cql2ExprNode α) : Cql2ExprNode α :=
  { node with m_apoChildren := node.m_apoChildren.reverse }

def isOperation (op : Cql2Op) (node : Cql2ExprNode α) : Bool := node.m_node_type == .CQL2_NT_OPERATION && node.m_op == op

def cql2_create_and_or_or (doubles : Doubles α) (op : Cql2Op) (left right : Cql2ExprNode α) : Cql2ExprNode α :=
  { ofOp doubles op with
    m_field_type := .CQL2_BOOLEAN
    m_apoChildren :=
      if left.isOperation op then
        if right.isOperation op then left.m_apoChildren ++ right.m_apoChildren else left.m_apoChildren ++ [right]
      else if right.isOperation op then right.m_apoChildren ++ [left]
      else [left, right] }

section Rebalance
variable (doubles : Doubles α)

def pairNeighbours (op : Cql2Op) : List (Cql2ExprNode α) → List (Cql2ExprNode α)
  | first :: second :: others =>
    (((ofOp doubles op).PushSubExpression first).PushSubExpression second) :: pairNeighbours op others
  | exprs => exprs

def pairAll (op : Cql2Op) : Nat → List (Cql2ExprNode α) → List (Cql2ExprNode α)
  | 0, exprs => exprs
  | rounds + 1, exprs => if 2 < exprs.length then pairAll op rounds (pairNeighbours doubles op exprs) else exprs

mutual

def RebalanceAndOr : Cql2ExprNode α → Cql2ExprNode α
  | ⟨m_op, m_node_type, m_field_type, m_nVal, m_dfVal, m_osVal, m_apoChildren, m_depth, m_alreadyReprojected⟩ =>
    ⟨m_op, m_node_type, m_field_type, m_nVal, m_dfVal, m_osVal,
      if m_node_type = .CQL2_NT_OPERATION then
        if m_op.isAndOr ∧ 2 < m_apoChildren.length then
          pairAll doubles m_op m_apoChildren.length (rebalanceChildren m_apoChildren)
        else rebalanceChildren m_apoChildren
      else m_apoChildren,
      m_depth, m_alreadyReprojected⟩

def rebalanceChildren : List (Cql2ExprNode α) → List (Cql2ExprNode α)
  | [] => []
  | child :: children => RebalanceAndOr child :: rebalanceChildren children

end

end Rebalance

end Cql2ExprNode

end MapServer
