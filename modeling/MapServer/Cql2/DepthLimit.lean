import MapServer.Cql2.TextParser
import Mathlib.Data.Nat.Log

namespace MapServer
open List Option
namespace Cql2ExprNode
variable {α : Type}

mutual

def weigh (weight : Cql2Op → Nat) : Cql2ExprNode α → Nat
  | ⟨m_op, m_node_type, _, _, _, _, m_apoChildren, _, _⟩ =>
    if m_node_type = .CQL2_NT_OPERATION then weight m_op + weighAll weight m_apoChildren else 0

def weighAll (weight : Cql2Op → Nat) : List (Cql2ExprNode α) → Nat
  | [] => 0
  | child :: children => max (weigh weight child) (weighAll weight children)

end

mutual

def nestingBelow (above : Cql2Op) : Cql2ExprNode α → Nat
  | ⟨m_op, m_node_type, _, _, _, _, m_apoChildren, _, _⟩ =>
    if m_node_type = .CQL2_NT_OPERATION then (if m_op.isAndOr ∧ m_op = above then 0 else 1) + nestingAll m_op m_apoChildren else 0

def nestingAll (above : Cql2Op) : List (Cql2ExprNode α) → Nat
  | [] => 0
  | child :: children => max (nestingBelow above child) (nestingAll above children)

end

def nesting (node : Cql2ExprNode α) : Nat := nestingBelow .CQL2_NONE node

def height (node : Cql2ExprNode α) : Nat := weigh (fun _ => 1) node

def andOrs (node : Cql2ExprNode α) : Nat := weigh (fun op => if op.isAndOr then 1 else 0) node

mutual

def longestChain : Cql2ExprNode α → Nat
  | ⟨m_op, m_node_type, _, _, _, _, m_apoChildren, _, _⟩ =>
    if m_node_type = .CQL2_NT_OPERATION then max (if m_op.isAndOr then m_apoChildren.length else 0) (longestChains m_apoChildren)
    else 0

def longestChains : List (Cql2ExprNode α) → Nat
  | [] => 0
  | child :: children => max (longestChain child) (longestChains children)

end

section Weights
variable (weight : Cql2Op → Nat)

theorem weigh_eq (node : Cql2ExprNode α) : weigh weight node =
    if node.m_node_type = .CQL2_NT_OPERATION then weight node.m_op + weighAll weight node.m_apoChildren else 0 := by
  cases node
  rw [weigh]

theorem weighAll_append (first second : List (Cql2ExprNode α)) :
    weighAll weight (first ++ second) = max (weighAll weight first) (weighAll weight second) := by
  induction first with
  | nil => rw [nil_append, weighAll, Nat.zero_max]
  | cons child first ih => rw [cons_append, weighAll, ih, weighAll, Nat.max_assoc]

theorem weighAll_singleton (child : Cql2ExprNode α) : weighAll weight [child] = weigh weight child := by
  rw [weighAll, weighAll, Nat.max_zero]

theorem weighAll_reverse (children : List (Cql2ExprNode α)) : weighAll weight children.reverse = weighAll weight children := by
  induction children with
  | nil => rfl
  | cons child children ih => rw [reverse_cons, weighAll_append, ih, weighAll_singleton, weighAll, Nat.max_comm]

end Weights

def Told (node : Cql2ExprNode α) : Prop :=
  node.height ≤ 33 * node.andOrs + if node.m_op.isAndOr then 0 else node.m_depth

structure Sound (node : Cql2ExprNode α) : Prop where
  told : node.Told
  depth : node.m_depth ≤ 32

section Told
variable {doubles : Doubles α} {node child left right : Cql2ExprNode α} {op : Cql2Op}

theorem constant_ne : Cql2NodeType.CQL2_NT_CONSTANT ≠ .CQL2_NT_OPERATION := by decide

theorem column_ne : Cql2NodeType.CQL2_NT_COLUMN ≠ .CQL2_NT_OPERATION := by decide

theorem told_leaf (leaf : node.m_node_type ≠ .CQL2_NT_OPERATION) : node.Told := by
  unfold Told height
  rw [weigh_eq, if_neg leaf]
  exact Nat.zero_le _

theorem Told.le_depth (told : node.Told) : node.height ≤ 33 * node.andOrs + node.m_depth := by
  unfold Told at told
  split at told <;> omega

theorem weigh_operation (isOperation : node.m_node_type = .CQL2_NT_OPERATION) :
    node.height = 1 + weighAll (fun _ => 1) node.m_apoChildren ∧
      node.andOrs = (if node.m_op.isAndOr then 1 else 0) + weighAll (fun op => if op.isAndOr then 1 else 0) node.m_apoChildren := by
  unfold height andOrs
  rw [weigh_eq, weigh_eq, if_pos isOperation, if_pos isOperation]
  exact ⟨rfl, rfl⟩

theorem told_push (isOperation : node.m_node_type = .CQL2_NT_OPERATION) (other : node.m_op.isAndOr = false)
    (told : node.m_apoChildren = [] ∨ node.Told) (toldChild : child.Told) : (node.PushSubExpression child).Told := by
  obtain ⟨nests, holds⟩ := @weigh_operation _ (node.PushSubExpression child) isOperation
  have pushed : (node.PushSubExpression child).m_apoChildren = node.m_apoChildren ++ [child] := rfl
  have depth : (node.PushSubExpression child).m_depth = max node.m_depth (1 + child.m_depth) := rfl
  have same : (node.PushSubExpression child).m_op = node.m_op := rfl
  rw [pushed, weighAll_append, weighAll_singleton] at nests holds
  rw [same, other, if_neg Bool.false_ne_true, Nat.zero_add] at holds
  unfold Told
  rw [nests, holds, same, other, if_neg Bool.false_ne_true, depth]
  have below := toldChild.le_depth
  unfold height andOrs at below
  rcases told with empty | told
  · rw [empty, weighAll, weighAll]
    omega
  · have here := told.le_depth
    rw [(weigh_operation isOperation).1, (weigh_operation isOperation).2, other, if_neg Bool.false_ne_true] at here
    omega

theorem told_pushAll {operands : List (Cql2ExprNode α)} (isOperation : node.m_node_type = .CQL2_NT_OPERATION)
    (other : node.m_op.isAndOr = false) (told : node.m_apoChildren = [] ∧ operands ≠ [] ∨ node.Told)
    (all : ∀ operand ∈ operands, operand.Told) : (operands.foldl PushSubExpression node).Told := by
  induction operands generalizing node with
  | nil => exact told.resolve_left fun both => both.2 rfl
  | cons operand operands ih =>
    rw [forall_mem_cons] at all
    exact ih isOperation other (.inr (told_push isOperation other (told.imp_left And.left) all.1)) all.2

theorem told_newOperation {operands : List (Cql2ExprNode α)} (other : op.isAndOr = false) (some_ : operands ≠ [])
    (all : ∀ operand ∈ operands, operand.Told) : (newOperation doubles op operands).Told :=
  told_pushAll rfl other (.inl ⟨rfl, some_⟩) all

theorem Told.renamed (told : node.Told) (isOperation : node.m_node_type = .CQL2_NT_OPERATION) (other : node.m_op.isAndOr = false)
    {renamed : Cql2ExprNode α} (isOperation' : renamed.m_node_type = .CQL2_NT_OPERATION) (other' : renamed.m_op.isAndOr = false)
    (children : renamed.m_apoChildren = node.m_apoChildren) (depth : renamed.m_depth = node.m_depth) : renamed.Told := by
  unfold Told at told ⊢
  rw [(weigh_operation isOperation).1, (weigh_operation isOperation).2, other] at told
  rw [(weigh_operation isOperation').1, (weigh_operation isOperation').2, other', children, depth]
  exact told

theorem told_reverse (told : node.Told) : node.ReverseSubExpressions.Told := by
  have same (weight : Cql2Op → Nat) : weigh weight node.ReverseSubExpressions = weigh weight node := by
    rw [weigh_eq, weigh_eq]
    unfold ReverseSubExpressions
    rw [weighAll_reverse]
  unfold Told height andOrs at told ⊢
  rw [same, same]
  exact told

def merged (op : Cql2Op) (node : Cql2ExprNode α) : List (Cql2ExprNode α) := if node.isOperation op then node.m_apoChildren else [node]

theorem weighAll_create (weight : Cql2Op → Nat) (left right : Cql2ExprNode α) :
    weighAll weight (cql2_create_and_or_or doubles op left right).m_apoChildren =
      max (weighAll weight (merged op left)) (weighAll weight (merged op right)) := by
  unfold cql2_create_and_or_or merged
  by_cases mergesLeft : left.isOperation op = true <;> by_cases mergesRight : right.isOperation op = true
  · rw [if_pos mergesLeft, if_pos mergesRight, if_pos mergesLeft, if_pos mergesRight, weighAll_append]
  · rw [if_pos mergesLeft, if_neg mergesRight, if_pos mergesLeft, if_neg mergesRight, weighAll_append]
  · rw [if_neg mergesLeft, if_pos mergesRight, if_neg mergesLeft, if_pos mergesRight, weighAll_append, Nat.max_comm]
  · rw [if_neg mergesLeft, if_neg mergesRight, if_neg mergesLeft, if_neg mergesRight, weighAll, weighAll_singleton, weighAll_singleton]

theorem Sound.merged_le (sound : node.Sound) (isAndOr : op.isAndOr = true) :
    weighAll (fun _ => 1) (merged op node) ≤ 33 * weighAll (fun op => if op.isAndOr then 1 else 0) (merged op node) + 32 := by
  have told := sound.told
  have depth := sound.depth
  unfold merged
  by_cases same : node.isOperation op = true
  · unfold isOperation at same
    simp only [Bool.and_eq_true, beq_iff_eq] at same
    unfold Told at told
    rw [(weigh_operation same.1).1, (weigh_operation same.1).2, same.2, if_pos isAndOr, if_pos isAndOr] at told
    rw [if_pos (by simp [isOperation, same])]
    omega
  · rw [if_neg same, weighAll_singleton, weighAll_singleton]
    have below := told.le_depth
    unfold height andOrs at below
    omega

theorem sound_create (isAndOr : op.isAndOr = true) (soundLeft : left.Sound) (soundRight : right.Sound) :
    (cql2_create_and_or_or doubles op left right).Sound := by
  obtain ⟨nests, holds⟩ := @weigh_operation _ (cql2_create_and_or_or doubles op left right) rfl
  have same : (cql2_create_and_or_or doubles op left right).m_op = op := rfl
  rw [weighAll_create] at nests holds
  rw [same, if_pos isAndOr] at holds
  have below := soundLeft.merged_le isAndOr
  have below' := soundRight.merged_le isAndOr
  refine ⟨?_, Nat.zero_le _⟩
  unfold Told
  rw [nests, holds]
  omega

theorem check_eq {passed : Cql2ExprNode α} (check : checkDepth node = some passed) : passed = node := by
  unfold checkDepth at check
  split at check <;> cases check
  rfl

theorem sound_check {passed : Cql2ExprNode α} (told : node.Told) (check : checkDepth node = some passed) : passed.Sound := by
  unfold checkDepth HasReachedMaxDepth at check
  split at check
  · cases check
  · cases check
    rename_i shallow
    exact ⟨told, by simpa using shallow⟩

end Told
end Cql2ExprNode

section Readers
open Cql2ExprNode
variable {α : Type} {doubles : Doubles α} {op : Cql2Op} {height : Nat}

def ReadsOnly {β : Type} (P : β → Prop) (read : Option (Cql2Read α β)) : Prop := ∀ got rest, read = some (got, rest) → P got

theorem ReadsOnly.nothing {β : Type} {P : β → Prop} : ReadsOnly P (none : Option (Cql2Read α β)) := by
  rintro got rest ⟨⟩

theorem ReadsOnly.here {β : Type} {P : β → Prop} {got : β} {rest : List (Cql2Token α)} (holds : P got) : ReadsOnly P (some (got, rest)) := by
  rintro other _ ⟨⟩
  exact holds

theorem ReadsOnly.bind {β γ : Type} {P : β → Prop} {read : Option γ} {next : γ → Option (Cql2Read α β)}
    (holds : ∀ got, read = some got → ReadsOnly P (next got)) : ReadsOnly P (read.bind next) := by
  intro node rest run
  obtain ⟨got, isRead, run⟩ := bind_eq_some_iff.mp run
  exact holds got isRead node rest run

def Cql2Expr.node : Cql2Expr α → Cql2ExprNode α
  | .boolean_expr node => node
  | .boolean_literal node => node
  | .value_expr node => node

def Cql2Expr.Sound (expr : Cql2Expr α) : Prop := expr.node.Sound

section Nonterminals
variable {read : Option (Cql2Read α (Cql2Expr α))} (sound : ReadsOnly Cql2Expr.Sound read)

include sound

theorem ReadsOnly.asValue : ReadsOnly Cql2ExprNode.Sound (asValue read) := by
  intro node rest run
  unfold MapServer.asValue at run
  split at run
  · cases run
    exact sound _ _ rfl
  · cases run

theorem ReadsOnly.asBoolean : ReadsOnly Cql2ExprNode.Sound (asBoolean read) := by
  intro node rest run
  unfold MapServer.asBoolean at run
  split at run
  · cases run
    exact sound _ _ rfl
  · cases run
    exact sound _ _ rfl
  · cases run

theorem ReadsOnly.asValueOrLiteral : ReadsOnly Cql2ExprNode.Sound (asValueOrLiteral read) := by
  intro node rest run
  unfold MapServer.asValueOrLiteral at run
  split at run
  · cases run
    exact sound _ _ rfl
  · cases run
    exact sound _ _ rfl
  · cases run

end Nonterminals

theorem sound_leaf {node : Cql2ExprNode α} (leaf : node.m_node_type ≠ .CQL2_NT_OPERATION) (depth : node.m_depth = 0) : node.Sound :=
  ⟨told_leaf leaf, depth ▸ Nat.zero_le _⟩

theorem sound_operation {operands : List (Cql2ExprNode α)} {node : Cql2ExprNode α} (other : op.isAndOr = false) (some_ : operands ≠ [])
    (all : ∀ operand ∈ operands, operand.Told) (run : operation doubles op operands = some node) : node.Sound :=
  sound_check (told_newOperation other some_ all) run

theorem sound_negatedIf {isNegated : Bool} {node read : Cql2ExprNode α} (told : node.Told)
    (run : negatedIf doubles isNegated node = some read) : read.Sound := by
  unfold negatedIf at run
  split at run
  · exact sound_operation rfl (cons_ne_nil _ _) (by simpa using told) run
  · exact sound_check told run

theorem told_ofString (m_osVal : CString) : (ofString doubles m_osVal).Told := told_leaf constant_ne

variable {operand list : Cql2ExprNode α}

theorem readCaseiString_sound (other : op.isAndOr = false) (told : operand.Told) (isNegated : Bool)
    (tokens : List (Cql2Token α)) :
    ReadsOnly Cql2ExprNode.Sound (readCaseiString doubles op isNegated height operand tokens) := by
  refine .bind fun _ _ => .bind fun _ _ => .bind fun read _ => .bind fun _ _ => .bind fun node run => .here ?_
  refine sound_negatedIf (told_newOperation other (cons_ne_nil _ _) ?_) run
  simpa using ⟨told, told_ofString _⟩

theorem readCaseiComparison_sound (told : operand.Told) (tokens : List (Cql2Token α)) :
    ReadsOnly Cql2ExprNode.Sound (readCaseiComparison doubles height operand tokens) := by
  unfold readCaseiComparison
  split
  · exact .bind fun _ _ => readCaseiString_sound rfl told _ _
  · exact .bind fun _ _ => readCaseiString_sound rfl told _ _
  · exact .bind fun _ _ => readCaseiString_sound rfl told _ _
  · exact .bind fun _ _ => readCaseiString_sound rfl told _ _
  · exact .nothing

structure ArgumentList (list : Cql2ExprNode α) : Prop where
  sound : list.Sound
  isOperation : list.m_node_type = .CQL2_NT_OPERATION
  isList : list.m_op = .CQL2_ARGUMENT_LIST

theorem ArgumentList.other (isList : ArgumentList list) : list.m_op.isAndOr = false := by
  rw [isList.isList]
  rfl

theorem told_inNode (isList : ArgumentList list) (told : operand.Told) (isNegated : Bool) :
    (inNode isNegated operand list).Told := by
  have renamed : Told { list with m_field_type := if isNegated then list.m_field_type else .CQL2_BOOLEAN, m_op := .CQL2_IN } :=
    isList.sound.told.renamed isList.isOperation isList.other isList.isOperation rfl rfl rfl
  exact told_reverse (told_push isList.isOperation rfl (.inr renamed) told)

theorem sound_customFunction (isList : ArgumentList list) (m_osVal : CString) : (customFunction m_osVal list).Sound := by
  have renamed : Told { list with m_node_type := .CQL2_NT_OPERATION, m_op := .CQL2_CUSTOM_FUNC, m_osVal := m_osVal } :=
    isList.sound.told.renamed isList.isOperation isList.other rfl rfl rfl rfl
  exact ⟨told_reverse renamed, isList.sound.depth⟩

theorem spatialOp_other {word : Cql2Word} (isOp : spatialOp word = some op) : op.isAndOr = false := by
  unfold spatialOp at isOp
  split at isOp <;> cases isOp <;> rfl

theorem sound_unaryMinus {node : Cql2ExprNode α} (sound : operand.Sound) (run : unaryMinus doubles operand = some node) :
    node.Sound := by
  unfold unaryMinus at run
  split at run
  · rename_i isConstant
    have leaf : operand.m_node_type ≠ .CQL2_NT_OPERATION := by
      rw [isConstant]
      exact constant_ne
    split at run
    · cases run
      exact sound
    · cases run
      exact ⟨told_leaf leaf, sound.depth⟩
  · refine sound_operation rfl (cons_ne_nil _ _) ?_ run
    simpa using ⟨told_leaf constant_ne, sound.told⟩

section Comparisons
variable {readExpr : Nat → List (Cql2Token α) → Option (Cql2Read α (Cql2Expr α))}
  {readList : Nat → List (Cql2Token α) → Option (Cql2Read α (Cql2ExprNode α))} {left : Cql2ExprNode α}
  (exprs : ∀ height tokens, ReadsOnly Cql2Expr.Sound (readExpr height tokens)) (lists : ∀ height tokens, ReadsOnly ArgumentList (readList height tokens))
  (told : left.Told)

include exprs told

theorem readValueComparison_sound (other : op.isAndOr = false) (tokens : List (Cql2Token α)) :
    ReadsOnly Cql2ExprNode.Sound (readValueComparison doubles readExpr op height left tokens) := by
  refine .bind fun read isRead => .bind fun node run => .here ?_
  have right := (exprs height tokens).asValue _ _ isRead
  exact sound_operation other (cons_ne_nil _ _) (by simpa using ⟨told, right.told⟩) run

theorem readEquality_sound (other : op.isAndOr = false) (tokens : List (Cql2Token α)) :
    ReadsOnly Cql2ExprNode.Sound (readEquality doubles readExpr op height left tokens) := by
  refine .bind fun read isRead => .bind fun node run => .here ?_
  have right := (exprs height tokens).asValueOrLiteral _ _ isRead
  exact sound_operation other (cons_ne_nil _ _) (by simpa using ⟨told, right.told⟩) run

omit exprs in
theorem readIsNull_sound (tokens : List (Cql2Token α)) : ReadsOnly Cql2ExprNode.Sound (readIsNull doubles height left tokens) := by
  have isNull (isNegated : Bool) (node : Cql2ExprNode α)
      (run : negatedIf doubles isNegated (newOperation doubles .CQL2_IS_NULL [left]) = some node) : node.Sound :=
    sound_negatedIf (told_newOperation rfl (cons_ne_nil _ _) (by simpa using told)) run
  unfold readIsNull
  split
  · exact .bind fun _ _ => .bind fun _ _ => .bind fun node run => .here (isNull true node run)
  · exact .bind fun _ _ => .bind fun node run => .here (isNull false node run)

theorem readLiteralComparison_sound (tokens : List (Cql2Token α)) :
    ReadsOnly Cql2ExprNode.Sound (readLiteralComparison doubles readExpr height left tokens) := by
  unfold readLiteralComparison
  split
  · exact .bind fun _ _ => readEquality_sound exprs told rfl _
  · exact .bind fun _ _ => readEquality_sound exprs told rfl _
  · exact .nothing

include lists

theorem readPredicate_sound (isNegated : Bool) (tokens : List (Cql2Token α)) :
    ReadsOnly Cql2ExprNode.Sound (readPredicate doubles readExpr readList isNegated height left tokens) := by
  unfold readPredicate
  split
  · refine .bind fun _ _ => .bind fun read _ => .bind fun node run => .here ?_
    exact sound_negatedIf (told_newOperation rfl (cons_ne_nil _ _) (by simpa using ⟨told, told_ofString _⟩)) run
  · refine .bind fun _ _ => .bind fun _ _ => .bind fun read isRead => .bind fun _ _ => .bind fun node run => .here ?_
    exact sound_negatedIf (told_inNode (lists _ _ _ _ isRead) told isNegated) run
  · refine .bind fun _ _ => .bind fun low isLow => .bind fun _ _ => .bind fun high isHigh => .bind fun node run => .here ?_
    have soundLow := (exprs _ _).asValue _ _ isLow
    have soundHigh := (exprs _ _).asValue _ _ isHigh
    refine sound_negatedIf (told_newOperation rfl (cons_ne_nil _ _) ?_) run
    simpa using ⟨told, soundLow.told, soundHigh.told⟩
  · exact .nothing

theorem readComparison_sound (tokens : List (Cql2Token α)) :
    ReadsOnly Cql2ExprNode.Sound (readComparison doubles readExpr readList height left tokens) := by
  unfold readComparison
  split
  · exact .bind fun _ _ => readEquality_sound exprs told rfl _
  · exact .bind fun _ _ => readEquality_sound exprs told rfl _
  · exact .bind fun _ _ => readValueComparison_sound exprs told rfl _
  · exact .bind fun _ _ => readValueComparison_sound exprs told rfl _
  · exact .bind fun _ _ => readValueComparison_sound exprs told rfl _
  · exact .bind fun _ _ => readValueComparison_sound exprs told rfl _
  · exact .bind fun _ _ => readPredicate_sound exprs lists told true _
  · exact .bind fun _ _ => readIsNull_sound told _
  · exact readPredicate_sound exprs lists told false _

end Comparisons

section Expressions
variable {readExpr : Nat → Nat → List (Cql2Token α) → Option (Cql2Read α (Cql2Expr α))}
  {readList : Nat → List (Cql2Token α) → Option (Cql2Read α (Cql2ExprNode α))}
  (exprs : ∀ height level tokens, ReadsOnly Cql2Expr.Sound (readExpr height level tokens))
  (lists : ∀ height tokens, ReadsOnly ArgumentList (readList height tokens))

def Cql2Next.Fits : Cql2Next → Prop
  | .arithmetic _ op => op.isAndOr = false
  | .comparison => True
  | .logical _ op => op.isAndOr = true

variable {next : Cql2Next}

theorem afterBoolean_fits {token : Cql2Token α} (follows : afterBoolean token = some next) : next.Fits := by
  unfold afterBoolean at follows
  split at follows <;> cases follows <;> rfl

theorem following_fits {left : Cql2Expr α} {tokens : List (Cql2Token α)} (follows : following left tokens = some next) :
    next.Fits := by
  unfold following at follows
  split at follows
  · cases follows
  · unfold afterValue at follows
    split at follows <;> cases follows <;> first | rfl | exact trivial
  · unfold afterLiteral at follows
    split at follows
    · cases follows
      exact trivial
    · cases follows
      exact trivial
    · exact afterBoolean_fits follows
  · exact afterBoolean_fits follows

include exprs lists

theorem readNext_sound {left : Cql2Expr α} {tokens : List (Cql2Token α)} (follows : following left tokens = some next)
    (sound : left.Sound) : ReadsOnly Cql2Expr.Sound (readNext doubles readExpr readList height next left tokens) := by
  have isOp := following_fits follows
  unfold readNext
  split
  · refine .bind fun _ _ => .bind fun right isRight => .bind fun result run => .here ?_
    have soundRight := (exprs _ _ _).asValue _ _ isRight
    exact sound_operation isOp (cons_ne_nil _ _) (by simpa using ⟨sound.told, soundRight.told⟩) run
  · refine .bind fun read isRead => .here ?_
    exact readComparison_sound (fun above => exprs above valueLevel) lists sound.told _ _ _ isRead
  · refine .bind fun read isRead => .here ?_
    exact readLiteralComparison_sound (fun above => exprs above valueLevel) sound.told _ _ _ isRead
  · refine .bind fun _ _ => .bind fun node isNode => .bind fun right isRight => .bind fun result run => .here ?_
    have soundLeft := (ReadsOnly.here sound).asBoolean _ _ isNode
    have soundRight := (exprs _ _ _).asBoolean _ _ isRight
    exact sound_check (sound_create isOp soundLeft soundRight).told run
  · exact .nothing

end Expressions

theorem readers_sound (doubles : Doubles α) (calls : Nat) :
    (∀ height level tokens, ReadsOnly Cql2Expr.Sound (readExpr doubles calls height level tokens)) ∧
      (∀ height tokens, ReadsOnly Cql2Expr.Sound (readOperand doubles calls height tokens)) ∧
      (∀ height level left tokens, left.Sound → ReadsOnly Cql2Expr.Sound (readOperators doubles calls height level left tokens)) ∧
      ∀ height tokens, ReadsOnly ArgumentList (readValueList doubles calls height tokens) := by
  induction calls with
  | zero =>
    refine ⟨fun _ _ _ => ?_, fun _ _ => ?_, fun _ _ _ _ _ => ?_, fun _ _ => ?_⟩
    · unfold readExpr; exact .nothing
    · unfold readOperand; exact .nothing
    · unfold readOperators; exact .nothing
    · unfold readValueList; exact .nothing
  | succ calls ih =>
    obtain ⟨exprs, operands, operators, lists⟩ := ih
    refine ⟨fun height level tokens => ?_, fun height tokens => ?_, fun height level left tokens sound => ?_, fun height tokens => ?_⟩
    · unfold readExpr
      exact .bind fun left isLeft => operators _ _ _ _ (operands _ _ _ _ isLeft)
    · unfold readOperand
      split
      · exact .bind fun _ _ => .here (sound_leaf constant_ne rfl)
      · exact .bind fun _ _ => .here (sound_leaf constant_ne rfl)
      · exact .bind fun _ _ => .here (sound_leaf constant_ne rfl)
      · exact .bind fun _ _ => .here (sound_leaf constant_ne rfl)
      · exact .bind fun _ _ => .here (sound_leaf constant_ne rfl)
      · exact .bind fun _ _ => .bind fun list isList => .bind fun _ _ => .here (sound_customFunction (lists _ _ _ _ isList) _)
      · exact .bind fun _ _ => .here (sound_leaf column_ne rfl)
      · refine .bind fun _ _ => .bind fun inner isInner => .bind fun _ _ => .here ?_
        have sound := exprs _ _ _ _ _ isInner
        cases isExpr : inner.1 <;> rw [isExpr] at sound <;> exact sound
      · refine .bind fun _ _ => .bind fun operand isOperand => .bind fun node run => .here ?_
        exact sound_unaryMinus ((exprs _ _ _).asValue _ _ isOperand) run
      · refine .bind fun _ _ => .bind fun operand isOperand => .bind fun node run => .here ?_
        have sound := (exprs _ _ _).asBoolean _ _ isOperand
        exact sound_operation rfl (cons_ne_nil _ _) (by simpa using sound.told) run
      · refine .bind fun _ _ => .bind fun _ _ => .bind fun operand isOperand => .bind fun _ _ => .bind fun read isRead => .here ?_
        exact readCaseiComparison_sound ((exprs _ _ _).asValue _ _ isOperand).told _ _ _ isRead
      · refine .bind fun op isOp => .bind fun _ _ => .bind fun _ _ => .bind fun first isFirst => .bind fun _ _ =>
          .bind fun second isSecond => .bind fun _ _ => .bind fun node run => .here ?_
        have soundFirst := (exprs _ _ _).asValue _ _ isFirst
        have soundSecond := (exprs _ _ _).asValue _ _ isSecond
        exact sound_operation (spatialOp_other isOp) (cons_ne_nil _ _) (by simpa using ⟨soundFirst.told, soundSecond.told⟩) run
      · exact .nothing
    · unfold readOperators
      split
      · exact .here sound
      · rename_i next follows
        split
        · exact .here sound
        · exact .bind fun result isResult => operators _ _ _ _ (readNext_sound exprs lists follows sound _ _ isResult)
    · unfold readValueList
      refine .bind fun read isNode => ?_
      have sound := (exprs _ _ _).asValue _ _ isNode
      dsimp only
      split
      · refine .bind fun _ _ => .bind fun list isList => .bind fun pushed run => .here ?_
        have before := lists _ _ _ _ isList
        have told := told_push before.isOperation before.other (.inr before.sound.told) sound.told
        have same := check_eq run
        exact ⟨sound_check told run, same ▸ before.isOperation, same ▸ before.isList⟩
      · refine .bind fun list run => .here ?_
        have same := check_eq run
        refine ⟨sound_operation rfl (cons_ne_nil _ _) (by simpa using sound.told) run, ?_, ?_⟩
        · rw [same]; rfl
        · rw [same]; rfl

end Readers

namespace Cql2ExprNode

section Rebalance
variable {α : Type} {doubles : Doubles α} {op : Cql2Op}

theorem nestingBelow_eq (above : Cql2Op) (node : Cql2ExprNode α) : nestingBelow above node =
    if node.m_node_type = .CQL2_NT_OPERATION then
      (if node.m_op.isAndOr ∧ node.m_op = above then 0 else 1) + nestingAll node.m_op node.m_apoChildren
    else 0 := by
  cases node
  rw [nestingBelow]

theorem nestingAll_pairNeighbours (isAndOr : op.isAndOr = true) (exprs : List (Cql2ExprNode α)) :
    nestingAll op (pairNeighbours doubles op exprs) = nestingAll op exprs := by
  induction exprs using pairNeighbours.induct with
  | case1 first second others ih =>
    have pair : nestingBelow op (((ofOp doubles op).PushSubExpression first).PushSubExpression second) =
        max (nestingBelow op first) (nestingBelow op second) := by
      rw [nestingBelow_eq]
      refine (if_pos rfl).trans ((congrArg (· + _) (if_pos ⟨isAndOr, rfl⟩)).trans ((Nat.zero_add _).trans ?_))
      change nestingAll op [first, second] = _
      rw [nestingAll, nestingAll, nestingAll, Nat.max_zero]
    rw [pairNeighbours, nestingAll, ih, pair, nestingAll, nestingAll, Nat.max_assoc]
  | case2 exprs few =>
    rw [pairNeighbours]
    exact few

theorem nestingAll_pairAll (isAndOr : op.isAndOr = true) (rounds : Nat) (exprs : List (Cql2ExprNode α)) :
    nestingAll op (pairAll doubles op rounds exprs) = nestingAll op exprs := by
  induction rounds generalizing exprs with
  | zero => rw [pairAll]
  | succ rounds ih =>
    rw [pairAll]
    split
    · rw [ih, nestingAll_pairNeighbours isAndOr]
    · rfl

mutual

theorem nestingBelow_rebalance (above : Cql2Op) :
    (node : Cql2ExprNode α) → nestingBelow above (RebalanceAndOr doubles node) = nestingBelow above node
  | ⟨m_op, m_node_type, _, _, _, _, m_apoChildren, _, _⟩ => by
    have children := nestingAll_rebalance m_op m_apoChildren
    have paired : nestingAll m_op (if m_op.isAndOr ∧ 2 < m_apoChildren.length then
        pairAll doubles m_op m_apoChildren.length (rebalanceChildren doubles m_apoChildren)
      else rebalanceChildren doubles m_apoChildren) = nestingAll m_op m_apoChildren := by
      split
      · rename_i many
        rw [nestingAll_pairAll many.1, children]
      · exact children
    rw [RebalanceAndOr, nestingBelow, nestingBelow]
    by_cases isOperation : m_node_type = .CQL2_NT_OPERATION
    · rw [if_pos isOperation, if_pos isOperation, if_pos isOperation, paired]
    · rw [if_neg isOperation, if_neg isOperation]

theorem nestingAll_rebalance (above : Cql2Op) :
    (children : List (Cql2ExprNode α)) → nestingAll above (rebalanceChildren doubles children) = nestingAll above children
  | [] => by rw [rebalanceChildren]
  | child :: children => by
    rw [rebalanceChildren, nestingAll, nestingAll, nestingBelow_rebalance above child, nestingAll_rebalance above children]

end

mutual

theorem nestingBelow_le (above : Cql2Op) : (node : Cql2ExprNode α) → nestingBelow above node ≤ node.height
  | ⟨m_op, m_node_type, _, _, _, _, m_apoChildren, _, _⟩ => by
    rw [height, weigh, nestingBelow]
    have below := nestingAll_le m_op m_apoChildren
    split
    · split <;> omega
    · exact Nat.le_refl _

theorem nestingAll_le (above : Cql2Op) :
    (children : List (Cql2ExprNode α)) → nestingAll above children ≤ weighAll (fun _ => 1) children
  | [] => by rw [nestingAll, weighAll]
  | child :: children => by
    have here := nestingBelow_le above child
    have others := nestingAll_le above children
    rw [height] at here
    rw [nestingAll, weighAll]
    omega

end

theorem length_pairNeighbours (exprs : List (Cql2ExprNode α)) : (pairNeighbours doubles op exprs).length = (exprs.length + 1) / 2 := by
  induction exprs using pairNeighbours.induct with
  | case1 first second others ih =>
    rw [pairNeighbours, length_cons, ih, length_cons, length_cons]
    omega
  | case2 exprs few =>
    have short : exprs.length < 2 := by
      match exprs, few with
      | [], _ => exact Nat.zero_lt_two
      | [_], _ => exact Nat.one_lt_two
      | first :: second :: others, few => exact absurd rfl (few first second others)
    rw [pairNeighbours]
    · omega
    · exact few

theorem heights_pairNeighbours (exprs : List (Cql2ExprNode α)) :
    weighAll (fun _ => 1) (pairNeighbours doubles op exprs) ≤ weighAll (fun _ => 1) exprs + 1 := by
  induction exprs using pairNeighbours.induct with
  | case1 first second others ih =>
    have pair : weigh (fun _ => 1) (((ofOp doubles op).PushSubExpression first).PushSubExpression second) =
        1 + max (weigh (fun _ => 1) first) (weigh (fun _ => 1) second) := by
      rw [weigh_eq]
      refine (if_pos rfl).trans (congrArg (1 + ·) ?_)
      change weighAll _ [first, second] = _
      rw [weighAll, weighAll_singleton]
    rw [pairNeighbours, weighAll, pair, weighAll, weighAll]
    omega
  | case2 exprs few =>
    rw [pairNeighbours]
    · exact Nat.le_succ _
    · exact few

theorem heights_pairAll {rounds : Nat} {exprs : List (Cql2ExprNode α)} (enough : exprs.length ≤ rounds + 2) (some_ : 2 ≤ exprs.length) :
    1 + weighAll (fun _ => 1) (pairAll doubles op rounds exprs) ≤ Nat.clog 2 exprs.length + weighAll (fun _ => 1) exprs := by
  have two {exprs : List (Cql2ExprNode α)} (some_ : 2 ≤ exprs.length) (few : ¬ 2 < exprs.length) : Nat.clog 2 exprs.length = 1 :=
    Nat.clog_eq_one some_ (Nat.not_lt.mp few)
  induction rounds generalizing exprs with
  | zero => rw [pairAll, two some_ (by omega)]
  | succ rounds ih =>
    rw [pairAll]
    split
    · have length := @length_pairNeighbours α doubles op exprs
      have below := @ih (pairNeighbours doubles op exprs) (by omega) (by omega)
      have up := @heights_pairNeighbours α doubles op exprs
      rw [length] at below
      rw [Nat.clog_of_two_le Nat.one_lt_two some_, show exprs.length + 2 - 1 = exprs.length + 1 from rfl]
      omega
    · rename_i few
      rw [two some_ few]

theorem length_rebalanceChildren (children : List (Cql2ExprNode α)) : (rebalanceChildren doubles children).length = children.length := by
  induction children with
  | nil => rw [rebalanceChildren]
  | cons child children ih => rw [rebalanceChildren, length_cons, ih, length_cons]

mutual

theorem height_rebalance {most : Nat} : (node : Cql2ExprNode α) → Nat.clog 2 node.longestChain ≤ most → 1 ≤ most →
    (RebalanceAndOr doubles node).height ≤ node.height * most
  | ⟨m_op, m_node_type, _, _, _, _, m_apoChildren, _, _⟩, chain, some_ => by
    rw [longestChain] at chain
    rw [RebalanceAndOr, height, weigh, height, weigh]
    by_cases isOperation : m_node_type = .CQL2_NT_OPERATION
    · rw [if_pos isOperation] at chain
      rw [if_pos isOperation, if_pos isOperation, if_pos isOperation, Nat.add_mul, Nat.one_mul]
      have children := heights_rebalance m_apoChildren ((Nat.clog_mono_right 2 (le_max_right _ _)).trans chain) some_
      split
      · rename_i many
        have length := @length_rebalanceChildren α doubles m_apoChildren
        have paired := @heights_pairAll α doubles m_op m_apoChildren.length (rebalanceChildren doubles m_apoChildren) (by omega) (by omega)
        have here := (Nat.clog_mono_right 2 (le_max_left _ _)).trans chain
        rw [if_pos many.1] at here
        rw [length] at paired
        omega
      · omega
    · rw [if_neg isOperation]
      exact Nat.zero_le _

theorem heights_rebalance {most : Nat} : (children : List (Cql2ExprNode α)) → Nat.clog 2 (longestChains children) ≤ most → 1 ≤ most →
    weighAll (fun _ => 1) (rebalanceChildren doubles children) ≤ weighAll (fun _ => 1) children * most
  | [], _, _ => by
    rw [rebalanceChildren, weighAll]
    exact Nat.zero_le _
  | child :: children, chain, some_ => by
    rw [longestChains] at chain
    have here := height_rebalance child ((Nat.clog_mono_right 2 (le_max_left _ _)).trans chain) some_
    have others := heights_rebalance children ((Nat.clog_mono_right 2 (le_max_right _ _)).trans chain) some_
    rw [rebalanceChildren, weighAll, weighAll]
    exact max_le (here.trans (Nat.mul_le_mul_right _ (le_max_left _ _))) (others.trans (Nat.mul_le_mul_right _ (le_max_right _ _)))

end

end Rebalance
end Cql2ExprNode

section Limit
open Cql2ExprNode
variable {α : Type}

theorem cql2textparse_sound {doubles : Doubles α} {tokens : List (Cql2Token α)} {parsed : Cql2ExprNode α}
    (run : cql2textparse doubles tokens = some parsed) : parsed.Sound := by
  unfold cql2textparse at run
  split at run
  · rename_i isRead
    cases run
    exact ((readers_sound doubles _).1 _ _ _).asBoolean _ _ isRead
  · cases run

/-- The depth of every text that is accepted: 33 for each AND or OR on a way down, and 32 more if there is another operation on top.
Where no AND and no OR is the operand of another operation the limit holds, and the recursions are as deep as the limit times the
logarithm of the longest chain. -/
theorem CQL2TextParse_depth (doubles : Doubles α) (text : CString) (root : Cql2ExprNode α)
    (accepted : CQL2TextParse doubles text = some root) :
    ∃ parsed, cql2textparse doubles (cql2Tokens doubles text).1 = some parsed ∧ root = RebalanceAndOr doubles parsed ∧
      root.nesting ≤ 33 * parsed.andOrs + (if parsed.m_op.isAndOr then 0 else 32) ∧
      (parsed.andOrs ≤ (if parsed.m_op.isAndOr then 1 else 0) →
        root.nesting ≤ 33 ∧ root.height ≤ 33 * max 1 (Nat.clog 2 parsed.longestChain)) := by
  unfold CQL2TextParse at accepted
  split at accepted
  · rename_i tokens lexed
    obtain ⟨parsed, run, rfl⟩ := map_eq_some_iff.mp accepted
    have sound := cql2textparse_sound run
    have told := sound.told
    have depth := sound.depth
    unfold Told at told
    have nests : (RebalanceAndOr doubles parsed).nesting ≤ parsed.height :=
      (nestingBelow_rebalance _ parsed).trans_le (nestingBelow_le _ parsed)
    have most : parsed.height ≤ 33 * parsed.andOrs + (if parsed.m_op.isAndOr then 0 else 32) := by
      split at told <;> rename_i isAndOr
      · rw [if_pos isAndOr]
        exact told
      · rw [if_neg isAndOr]
        omega
    refine ⟨parsed, by rw [lexed]; exact run, rfl, nests.trans most, fun few => ?_⟩
    have limit : parsed.height ≤ 33 := by
      split at few <;> rename_i isAndOr
      · rw [if_pos isAndOr] at most
        omega
      · rw [if_neg isAndOr] at most
        omega
    refine ⟨nests.trans limit, ?_⟩
    exact (height_rebalance parsed (le_max_right _ _) (le_max_left _ _)).trans (Nat.mul_le_mul_right _ limit)
  · cases accepted

end Limit

def noDoubles : Doubles Unit where
  zero := ()
  ofInt := fun _ => ()
  negate := fun _ => ()
  atof := fun _ => ()
  to_string := fun _ => []

theorem CQL2TextParse_depth_and :
    ∃ root, CQL2TextParse noDoubles (ascii "true AND NOT false") = some root ∧ root.nesting ≤ 33 := by
  have isAnd : (CQL2TextParse noDoubles (ascii "true AND NOT false")).isSome = true ∧
      (cql2textparse noDoubles (cql2Tokens noDoubles (ascii "true AND NOT false")).1).map (fun parsed => (parsed.m_op.isAndOr, parsed.andOrs)) =
        some (true, 1) := by decide +kernel
  obtain ⟨root, accepted⟩ := isSome_iff_exists.mp isAnd.1
  obtain ⟨parsed, run, -, -, limit⟩ := CQL2TextParse_depth noDoubles (ascii "true AND NOT false") root accepted
  have few := isAnd.2
  rw [run, map_some, Option.some.injEq, Prod.mk.injEq] at few
  refine ⟨root, accepted, (limit ?_).1⟩
  rw [few.1, few.2, if_pos rfl]

theorem CQL2TextParse_depth_fails :
    ∃ root, CQL2TextParse noDoubles ((List.replicate 32 (ascii "NOT ")).flatten ++ ascii "(NOT true AND true)") = some root ∧
      ¬ root.nesting ≤ 33 := by
  have deep : (CQL2TextParse noDoubles ((replicate 32 (ascii "NOT ")).flatten ++ ascii "(NOT true AND true)")).map
      Cql2ExprNode.nesting = some 34 := by decide +kernel
  obtain ⟨root, accepted, nests⟩ := map_eq_some_iff.mp deep
  exact ⟨root, accepted, by omega⟩

end MapServer
