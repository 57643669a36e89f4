import MapServer.Cql2.DepthLimit

/-!
The parser joins nested ANDs, and nested ORs, to one node with all the operands. `RebalanceAndOr` undoes it for the translator,
which takes exactly two.
-/

namespace MapServer
open List
variable {α V : Type}

/-- Values of the leaves and of the operations other than AND and OR, which go by the truth of their operands. -/
structure Cql2Meaning (α V : Type) where
  leaf : Cql2ExprNode α → V
  apply : Cql2Op → CString → List V → V
  truth : V → Bool
  ofBool : Bool → V
  truth_ofBool : ∀ b, truth (ofBool b) = b

namespace Cql2Meaning
variable (meaning : Cql2Meaning α V)

def decides (op : Cql2Op) (values : List V) : Bool :=
  if op = .CQL2_AND then values.all meaning.truth else values.any meaning.truth

def operation (op : Cql2Op) (m_osVal : CString) (values : List V) : V :=
  if op.isAndOr then meaning.ofBool (meaning.decides op values) else meaning.apply op m_osVal values

mutual

def value : Cql2ExprNode α → V
  | ⟨m_op, m_node_type, m_field_type, m_nVal, m_dfVal, m_osVal, m_apoChildren, m_depth, m_alreadyReprojected⟩ =>
    if m_node_type = .CQL2_NT_OPERATION then meaning.operation m_op m_osVal (values m_apoChildren)
    else meaning.leaf ⟨m_op, m_node_type, m_field_type, m_nVal, m_dfVal, m_osVal, m_apoChildren, m_depth, m_alreadyReprojected⟩

def values : List (Cql2ExprNode α) → List V
  | [] => []
  | child :: children => value child :: values children

end

variable {meaning}

theorem value_operation {node : Cql2ExprNode α} (isOperation : node.m_node_type = .CQL2_NT_OPERATION) :
    meaning.value node = meaning.operation node.m_op node.m_osVal (meaning.values node.m_apoChildren) := by
  cases node
  rw [value, if_pos isOperation]

theorem values_eq_map (nodes : List (Cql2ExprNode α)) : meaning.values nodes = nodes.map meaning.value := by
  induction nodes with
  | nil => rw [values, map_nil]
  | cons node nodes ih => rw [values, ih, map_cons]

theorem decides_cons (op : Cql2Op) (value : V) (values : List V) : meaning.decides op (value :: values) =
    if op = .CQL2_AND then meaning.truth value && meaning.decides op values else meaning.truth value || meaning.decides op values := by
  unfold decides
  split <;> rfl

theorem decides_append (op : Cql2Op) (first second : List V) : meaning.decides op (first ++ second) =
    if op = .CQL2_AND then meaning.decides op first && meaning.decides op second
    else meaning.decides op first || meaning.decides op second := by
  unfold decides
  split
  · exact all_append
  · exact any_append

theorem decides_singleton (op : Cql2Op) (value : V) : meaning.decides op [value] = meaning.truth value := by
  unfold decides
  split
  · exact Bool.and_true _
  · exact Bool.or_false _

theorem decides_perm (op : Cql2Op) {first second : List V} (perm : first ~ second) :
    meaning.decides op first = meaning.decides op second := by
  unfold decides
  rw [perm.all_eq, perm.any_eq]

theorem truth_operation {op : Cql2Op} (isAndOr : op.isAndOr = true) (m_osVal : CString) (values : List V) :
    meaning.truth (meaning.operation op m_osVal values) = meaning.decides op values := by
  rw [operation, if_pos isAndOr, meaning.truth_ofBool]

variable {doubles : Doubles α} {op : Cql2Op}
open Cql2ExprNode

theorem decides_pairNeighbours (isAndOr : op.isAndOr = true) (exprs : List (Cql2ExprNode α)) :
    meaning.decides op (meaning.values (pairNeighbours doubles op exprs)) = meaning.decides op (meaning.values exprs) := by
  induction exprs using pairNeighbours.induct with
  | case1 first second others ih =>
    have pair : meaning.value (((ofOp doubles op).PushSubExpression first).PushSubExpression second) =
        meaning.operation op [] (meaning.values [first, second]) := value_operation rfl
    have both : meaning.values (first :: second :: others) = meaning.values [first, second] ++ meaning.values others := by
      rw [values_eq_map, values_eq_map, values_eq_map, ← map_append, cons_append, singleton_append]
    rw [pairNeighbours, values, pair, decides_cons, truth_operation isAndOr, ih, both, decides_append]
  | case2 exprs few =>
    rw [pairNeighbours]
    exact few

theorem decides_pairAll (isAndOr : op.isAndOr = true) (rounds : Nat) (exprs : List (Cql2ExprNode α)) :
    meaning.decides op (meaning.values (pairAll doubles op rounds exprs)) = meaning.decides op (meaning.values exprs) := by
  induction rounds generalizing exprs with
  | zero => rw [pairAll]
  | succ rounds ih =>
    rw [pairAll]
    split
    · rw [ih, decides_pairNeighbours isAndOr]
    · rfl

mutual

theorem value_rebalance : (node : Cql2ExprNode α) → meaning.value (RebalanceAndOr doubles node) = meaning.value node
  | ⟨m_op, m_node_type, _, _, _, m_osVal, m_apoChildren, _, _⟩ => by
    have children := values_rebalance m_apoChildren
    rw [RebalanceAndOr, value, value]
    by_cases isOperation : m_node_type = .CQL2_NT_OPERATION
    · rw [if_pos isOperation, if_pos isOperation, if_pos isOperation]
      split
      · rename_i many
        rw [operation, operation, if_pos many.1, if_pos many.1, decides_pairAll many.1, children]
      · rw [children]
    · rw [if_neg isOperation, if_neg isOperation, if_neg isOperation]

theorem values_rebalance :
    (children : List (Cql2ExprNode α)) → meaning.values (rebalanceChildren doubles children) = meaning.values children
  | [] => by rw [rebalanceChildren]
  | child :: children => by rw [rebalanceChildren, values, values, value_rebalance child, values_rebalance children]

end

theorem decides_merged (isAndOr : op.isAndOr = true) (node : Cql2ExprNode α) :
    meaning.decides op (meaning.values (merged op node)) = meaning.truth (meaning.value node) := by
  unfold merged
  split
  · rename_i same
    unfold isOperation at same
    rw [Bool.and_eq_true, beq_iff_eq, beq_iff_eq] at same
    rw [value_operation same.1, same.2, truth_operation isAndOr]
  · rw [values, values, decides_singleton]

theorem children_create (left right : Cql2ExprNode α) :
    (cql2_create_and_or_or doubles op left right).m_apoChildren ~ merged op left ++ merged op right := by
  unfold cql2_create_and_or_or merged
  split <;> split
  · exact .refl _
  · exact .refl _
  · exact perm_append_comm
  · exact .refl _

theorem value_create (isAndOr : op.isAndOr = true) (left right : Cql2ExprNode α) :
    meaning.value (cql2_create_and_or_or doubles op left right) =
      meaning.operation op [] [meaning.value left, meaning.value right] := by
  have isNode : meaning.value (cql2_create_and_or_or doubles op left right) =
      meaning.operation op [] (meaning.values (cql2_create_and_or_or doubles op left right).m_apoChildren) := value_operation rfl
  have perm : meaning.values (cql2_create_and_or_or doubles op left right).m_apoChildren ~
      meaning.values (merged op left) ++ meaning.values (merged op right) := by
    rw [values_eq_map, values_eq_map, values_eq_map, ← map_append]
    exact (children_create left right).map _
  rw [isNode, operation, operation, if_pos isAndOr, if_pos isAndOr, decides_perm op perm, decides_append, decides_merged isAndOr,
    decides_merged isAndOr, decides_cons, decides_singleton]

end Cql2Meaning

namespace Cql2ExprNode

mutual

/-- What each operation has for the number of its operands. -/
def Arities (P : Cql2Op → Nat → Prop) : Cql2ExprNode α → Prop
  | ⟨m_op, m_node_type, _, _, _, _, m_apoChildren, _, _⟩ =>
    m_node_type = .CQL2_NT_OPERATION → P m_op m_apoChildren.length ∧ AritiesAll P m_apoChildren

def AritiesAll (P : Cql2Op → Nat → Prop) : List (Cql2ExprNode α) → Prop
  | [] => True
  | child :: children => Arities P child ∧ AritiesAll P children

end

def Joined (op : Cql2Op) (count : Nat) : Prop := op.isAndOr = true → 2 ≤ count

def Binary (op : Cql2Op) (count : Nat) : Prop := op.isAndOr = true → count = 2

variable {P : Cql2Op → Nat → Prop} {doubles : Doubles α} {op : Cql2Op}

theorem arities_operation {node : Cql2ExprNode α} (isOperation : node.m_node_type = .CQL2_NT_OPERATION) :
    node.Arities P ↔ P node.m_op node.m_apoChildren.length ∧ AritiesAll P node.m_apoChildren := by
  cases node
  rw [Arities]
  exact forall_prop_of_true isOperation

theorem aritiesAll_iff {nodes : List (Cql2ExprNode α)} : AritiesAll P nodes ↔ ∀ node ∈ nodes, node.Arities P := by
  induction nodes with
  | nil => simp [AritiesAll]
  | cons node nodes ih => rw [AritiesAll, ih, forall_mem_cons]

theorem arities_pairNeighbours (pairs : P op 2) {exprs : List (Cql2ExprNode α)} (all : AritiesAll P exprs) :
    AritiesAll P (pairNeighbours doubles op exprs) := by
  induction exprs using pairNeighbours.induct with
  | case1 first second others ih =>
    rw [AritiesAll, AritiesAll] at all
    rw [pairNeighbours, AritiesAll]
    refine ⟨(arities_operation rfl).mpr ⟨pairs, ?_⟩, ih all.2.2⟩
    exact ⟨all.1, all.2.1, trivial⟩
  | case2 exprs few =>
    rw [pairNeighbours]
    · exact all
    · exact few

theorem arities_pairAll (pairs : P op 2) {rounds : Nat} {exprs : List (Cql2ExprNode α)} (all : AritiesAll P exprs)
    (enough : exprs.length ≤ rounds + 2) (some_ : 2 ≤ exprs.length) :
    (pairAll doubles op rounds exprs).length = 2 ∧ AritiesAll P (pairAll doubles op rounds exprs) := by
  induction rounds generalizing exprs with
  | zero =>
    rw [pairAll]
    exact ⟨by omega, all⟩
  | succ rounds ih =>
    rw [pairAll]
    split
    · have length := @length_pairNeighbours α doubles op exprs
      exact ih (arities_pairNeighbours pairs all) (by omega) (by omega)
    · exact ⟨by omega, all⟩

mutual

theorem binary_rebalance : (node : Cql2ExprNode α) → node.Arities Joined → (RebalanceAndOr doubles node).Arities Binary
  | ⟨m_op, m_node_type, _, _, _, _, m_apoChildren, _, _⟩, joined => by
    rw [RebalanceAndOr, Arities]
    intro isOperation
    obtain ⟨here, below⟩ := (arities_operation isOperation).mp joined
    have children := binary_rebalanceChildren m_apoChildren below
    have length := @length_rebalanceChildren α doubles m_apoChildren
    rw [if_pos isOperation]
    split
    · rename_i many
      have pairs : Binary m_op 2 := fun _ => rfl
      obtain ⟨two, all⟩ := @arities_pairAll α Binary doubles m_op pairs m_apoChildren.length _ children (by omega) (by omega)
      exact ⟨fun _ => two, all⟩
    · rename_i few
      refine ⟨fun isAndOr => ?_, children⟩
      have atLeast : 2 ≤ m_apoChildren.length := here isAndOr
      rw [length]
      exact Nat.le_antisymm (Nat.not_lt.mp fun many => few ⟨isAndOr, many⟩) atLeast

theorem binary_rebalanceChildren :
    (children : List (Cql2ExprNode α)) → AritiesAll Joined children → AritiesAll Binary (rebalanceChildren doubles children)
  | [], _ => by rw [rebalanceChildren]; trivial
  | child :: children, joined => by
    rw [rebalanceChildren]
    exact ⟨binary_rebalance child joined.1, binary_rebalanceChildren children joined.2⟩

end

theorem joined_merged (isAndOr : op.isAndOr = true) {node : Cql2ExprNode α} (joined : node.Arities Joined) :
    0 < (merged op node).length ∧ AritiesAll Joined (merged op node) := by
  unfold merged
  split
  · rename_i same
    unfold isOperation at same
    rw [Bool.and_eq_true, beq_iff_eq, beq_iff_eq] at same
    obtain ⟨here, below⟩ := (arities_operation same.1).mp joined
    have two := here (same.2 ▸ isAndOr)
    exact ⟨by omega, below⟩
  · exact ⟨Nat.one_pos, joined, trivial⟩

theorem joined_create (isAndOr : op.isAndOr = true) {left right : Cql2ExprNode α} (joinedLeft : left.Arities Joined)
    (joinedRight : right.Arities Joined) : (cql2_create_and_or_or doubles op left right).Arities Joined := by
  obtain ⟨someLeft, allLeft⟩ := joined_merged isAndOr joinedLeft
  obtain ⟨someRight, allRight⟩ := joined_merged isAndOr joinedRight
  have perm : (cql2_create_and_or_or doubles op left right).m_apoChildren ~ merged op left ++ merged op right :=
    Cql2Meaning.children_create left right
  refine (arities_operation rfl).mpr ⟨fun _ => ?_, aritiesAll_iff.mpr fun child member => ?_⟩
  · rw [perm.length_eq, length_append]
    omega
  · rcases mem_append.mp (perm.mem_iff.mp member) with member | member
    · exact aritiesAll_iff.mp allLeft child member
    · exact aritiesAll_iff.mp allRight child member

theorem pushAll_eq (operands : List (Cql2ExprNode α)) (node : Cql2ExprNode α) :
    (operands.foldl PushSubExpression node).m_apoChildren = node.m_apoChildren ++ operands ∧
      (operands.foldl PushSubExpression node).m_op = node.m_op ∧
      (operands.foldl PushSubExpression node).m_node_type = node.m_node_type := by
  induction operands generalizing node with
  | nil => exact ⟨(append_nil _).symm, rfl, rfl⟩
  | cons operand operands ih =>
    obtain ⟨children, sameOp, sameType⟩ := ih (node.PushSubExpression operand)
    refine ⟨children.trans ?_, sameOp, sameType⟩
    rw [append_cons]
    rfl

end Cql2ExprNode

/-- A filter as it is written: an AND or an OR has two operands. -/
inductive Cql2Formula (α : Type) where
  | leaf (node : Cql2ExprNode α) (isLeaf : node.m_node_type ≠ .CQL2_NT_OPERATION)
  | andOr (op : Cql2Op) (isAndOr : op.isAndOr = true) (left right : Cql2Formula α)
  | operation (op : Cql2Op) (other : op.isAndOr = false) (m_osVal : CString) (operands : List (Cql2Formula α))

namespace Cql2Formula
open Cql2ExprNode

mutual

def value (meaning : Cql2Meaning α V) : Cql2Formula α → V
  | leaf node _ => meaning.leaf node
  | andOr op _ left right => meaning.operation op [] [value meaning left, value meaning right]
  | operation op _ m_osVal operands => meaning.operation op m_osVal (values meaning operands)

def values (meaning : Cql2Meaning α V) : List (Cql2Formula α) → List V
  | [] => []
  | formula :: formulas => value meaning formula :: values meaning formulas

end

section Build
variable (doubles : Doubles α)

mutual

/-- The node that the actions of the grammar make. -/
def build : Cql2Formula α → Cql2ExprNode α
  | leaf node _ => node
  | andOr op _ left right => cql2_create_and_or_or doubles op (build left) (build right)
  | operation op _ m_osVal operands => { newOperation doubles op (buildAll operands) with m_osVal }

def buildAll : List (Cql2Formula α) → List (Cql2ExprNode α)
  | [] => []
  | formula :: formulas => build formula :: buildAll formulas

end

end Build

variable {doubles : Doubles α} {meaning : Cql2Meaning α V}

mutual

theorem value_build : (formula : Cql2Formula α) → meaning.value (formula.build doubles) = formula.value meaning
  | leaf node isLeaf => by
    cases node
    rw [build, value, Cql2Meaning.value, if_neg isLeaf]
  | andOr op isAndOr left right => by
    rw [build, value, Cql2Meaning.value_create isAndOr, value_build left, value_build right]
  | operation op other m_osVal operands => by
    obtain ⟨children, sameOp, sameType⟩ := pushAll_eq (buildAll doubles operands) (ofOp doubles op)
    have isNode : meaning.value { newOperation doubles op (buildAll doubles operands) with m_osVal } =
        meaning.operation (newOperation doubles op (buildAll doubles operands)).m_op m_osVal
          (meaning.values (newOperation doubles op (buildAll doubles operands)).m_apoChildren) :=
      Cql2Meaning.value_operation sameType
    rw [build, value, isNode, newOperation, children, sameOp, ← values_build operands]
    rfl

theorem values_build : (formulas : List (Cql2Formula α)) → meaning.values (buildAll doubles formulas) = values meaning formulas
  | [] => by rw [buildAll, values, Cql2Meaning.values]
  | formula :: formulas => by
    rw [buildAll, values, Cql2Meaning.values, value_build formula, values_build formulas]

end

mutual

theorem joined_build : (formula : Cql2Formula α) → (formula.build doubles).Arities Joined
  | leaf node isLeaf => by
    cases node
    rw [build, Arities]
    exact fun isOperation => absurd isOperation isLeaf
  | andOr op isAndOr left right => by
    rw [build]
    exact joined_create isAndOr (joined_build left) (joined_build right)
  | operation op other m_osVal operands => by
    obtain ⟨children, sameOp, sameType⟩ := pushAll_eq (buildAll doubles operands) (ofOp doubles op)
    have below : AritiesAll Joined (newOperation doubles op (buildAll doubles operands)).m_apoChildren := by
      rw [newOperation, children]
      exact joined_buildAll operands
    have isNode : ({ newOperation doubles op (buildAll doubles operands) with m_osVal } : Cql2ExprNode α).m_node_type =
        .CQL2_NT_OPERATION := sameType
    rw [build, arities_operation isNode]
    refine ⟨fun isAndOr => ?_, below⟩
    have same : (newOperation doubles op (buildAll doubles operands)).m_op = op := sameOp
    rw [same, other] at isAndOr
    contradiction

theorem joined_buildAll : (formulas : List (Cql2Formula α)) → AritiesAll Joined (buildAll doubles formulas)
  | [] => by rw [buildAll]; trivial
  | formula :: formulas => by
    rw [buildAll]
    exact ⟨joined_build formula, joined_buildAll formulas⟩

end

/-- After the parser and `RebalanceAndOr` a filter has the value that it is written with, and its ANDs and ORs have two operands. -/
theorem rebalanced_value (doubles : Doubles α) (meaning : Cql2Meaning α V) (formula : Cql2Formula α) :
    meaning.value (RebalanceAndOr doubles (formula.build doubles)) = formula.value meaning ∧
      (RebalanceAndOr doubles (formula.build doubles)).Arities Binary :=
  ⟨Cql2Meaning.value_rebalance _ |>.trans (value_build formula), binary_rebalance _ (joined_build formula)⟩

end Cql2Formula

end MapServer
