import MapServer.Filter.SqlExpression
import MapServer.Filter.TreeMeaning

namespace MapServer

variable {α : Type}

/-- `strcmp(text, name) == 0` for one of the names. -/
def isExactly (names : List String) (text : CString) : Bool := names.any fun name => text == ascii name

def FLTIsGMLDefaultProperty (pszName : CString) : Bool :=
  isExactly ["gml:name", "gml:description", "gml:descriptionReference", "gml:identifier", "gml:boundedBy", "@gml:id"] pszName

namespace FilterEncodingNode

def nodeCount : FilterEncodingNode α → Nat
  | .null => 0
  | .node _ _ _ _ psLeftNode psRightNode => psLeftNode.nodeCount + psRightNode.nodeCount + 1

def text : FilterEncodingNode α → CString
  | .null => []
  | .node _ pszValue _ _ _ _ => pszValue.getD []

def isPropertyName : FilterEncodingNode α → Bool
  | .null => false
  | .node eType _ _ _ _ _ => eType == .FILTER_NODE_TYPE_PROPERTYNAME

/-- The value of a node that tests a property for null or for nil. There are no nullable or nillable properties, except
`gml:name` and `gml:description` that are null. -/
def nullTest : FilterEncodingNode α → Option Bool
  | .node .FILTER_NODE_TYPE_COMPARISON pszValue _ _ psLeftNode _ =>
    if isExactly ["PropertyIsNull", "PropertyIsNil"] (pszValue.getD []) ∧ psLeftNode.isPropertyName then
      some (isExactly ["PropertyIsNull"] (pszValue.getD []) && FLTIsGMLDefaultProperty psLeftNode.text &&
        !isExactly ["@gml:id", "gml:boundedBy"] psLeftNode.text)
    else none
  | _ => none

end FilterEncodingNode

open FilterEncodingNode

/-- What is left of a filter, and `*pnEvaluation`. -/
structure Simplified (psFilterNode : FilterEncodingNode α) where
  node : FilterEncodingNode α
  nEvaluation : Int
  smaller : node.nodeCount ≤ psFilterNode.nodeCount

def Simplified.ofPart {part whole : FilterEncodingNode α} (result : Simplified part)
    (isPart : part.nodeCount ≤ whole.nodeCount) : Simplified whole :=
  ⟨result.node, result.nEvaluation, result.smaller.trans isPart⟩

def Simplified.constant {psFilterNode : FilterEncodingNode α} (nEvaluation : Int) : Simplified psFilterNode :=
  ⟨.null, nEvaluation, Nat.zero_le _⟩

/-- The value with which an operand of `AND` or of `OR` decides. -/
def nExpectedValForFastExit (pszValue : CString) : Int := if isOneOf ["AND"] pszValue then 0 else 1

def FLTSimplify : (psFilterNode : FilterEncodingNode α) → Simplified psFilterNode
  | .null => .constant (-1)
  | .node eType pszValue pOther pszSRS psLeftNode psRightNode =>
    match (node eType pszValue pOther pszSRS psLeftNode psRightNode).nullTest with
    | some value => .constant (if value then 1 else 0)
    | none =>
      if eType = .FILTER_NODE_TYPE_LOGICAL ∧ isOneOf ["NOT"] (pszValue.getD []) ∧ !psLeftNode.isNull then
        let left := FLTSimplify psLeftNode
        if left.node.isNull then .constant (1 - left.nEvaluation)
        else ⟨.node eType pszValue pOther pszSRS left.node psRightNode, -1,
          Nat.add_le_add_right (Nat.add_le_add_right left.smaller _) _⟩
      else if eType = .FILTER_NODE_TYPE_LOGICAL ∧ isOneOf ["AND", "OR"] (pszValue.getD []) ∧ !psLeftNode.isNull ∧
          !psRightNode.isNull then
        let left := FLTSimplify psLeftNode
        if left.node.isNull then
          if left.nEvaluation = nExpectedValForFastExit (pszValue.getD []) then .constant left.nEvaluation
          else (FLTSimplify psRightNode).ofPart (by simp only [nodeCount]; omega)
        else
          let right := FLTSimplify psRightNode
          if right.node.isNull then
            if right.nEvaluation = nExpectedValForFastExit (pszValue.getD []) then .constant right.nEvaluation
            else (FLTSimplify left.node).ofPart (by have := left.smaller; simp only [nodeCount]; omega)
          else ⟨.node eType pszValue pOther pszSRS left.node right.node, -1,
            Nat.add_le_add_right (Nat.add_le_add left.smaller right.smaller) _⟩
      else ⟨.node eType pszValue pOther pszSRS psLeftNode psRightNode, -1, Nat.le_refl _⟩
termination_by psFilterNode => psFilterNode.nodeCount
decreasing_by
  · exact Nat.lt_succ_of_le (Nat.le_add_right _ _)
  · exact Nat.lt_succ_of_le (Nat.le_add_right _ _)
  · exact Nat.lt_succ_of_le (Nat.le_add_left _ _)
  · exact Nat.lt_succ_of_le (Nat.le_add_left _ _)
  · exact Nat.lt_succ_of_le (left.smaller.trans (Nat.le_add_right _ _))

namespace FilterEncodingNode

/-- `AND` and `OR` have two children and `NOT` has one; a test for null or nil has the name of its property. -/
def IsFilter : FilterEncodingNode α → Prop
  | .null => False
  | .node eType pszValue _ _ psLeftNode psRightNode =>
    if eType = .FILTER_NODE_TYPE_LOGICAL then
      psLeftNode.IsFilter ∧
        (isOneOf ["AND", "OR"] (pszValue.getD []) ∧ psRightNode.IsFilter ∨
          isOneOf ["NOT"] (pszValue.getD []) ∧ psRightNode = .null)
    else
      eType = .FILTER_NODE_TYPE_COMPARISON → isExactly ["PropertyIsNull", "PropertyIsNil"] (pszValue.getD []) →
        psLeftNode.isPropertyName

def constantLeaf : FilterEncodingNode α → Option Bool
  | .null => none
  | .node eType pszValue _ _ psLeftNode _ =>
    if eType ≠ .FILTER_NODE_TYPE_COMPARISON then none
    else if pszValue.getD [] = ascii "PropertyIsNull" then
      some (isExactly ["gml:name", "gml:description", "gml:descriptionReference", "gml:identifier"] psLeftNode.text)
    else if pszValue.getD [] = ascii "PropertyIsNil" then some false
    else none

def value (holds : FilterEncodingNode α → Bool) : FilterEncodingNode α → Bool
  | .null => false
  | .node eType pszValue pOther pszSRS psLeftNode psRightNode =>
    if eType = .FILTER_NODE_TYPE_LOGICAL then
      if isOneOf ["AND"] (pszValue.getD []) then psLeftNode.value holds && psRightNode.value holds
      else if isOneOf ["OR"] (pszValue.getD []) then psLeftNode.value holds || psRightNode.value holds
      else !psLeftNode.value holds
    else
      let leaf := node eType pszValue pOther pszSRS psLeftNode psRightNode
      leaf.constantLeaf.getD (holds leaf)

def HasNoConstant : FilterEncodingNode α → Prop
  | .null => True
  | .node eType pszValue pOther pszSRS psLeftNode psRightNode =>
    (node eType pszValue pOther pszSRS psLeftNode psRightNode).constantLeaf = none ∧
      (eType = .FILTER_NODE_TYPE_LOGICAL → psLeftNode.HasNoConstant ∧ psRightNode.HasNoConstant)

end FilterEncodingNode

structure KeepsValue (psFilterNode : FilterEncodingNode α) (node : FilterEncodingNode α) (nEvaluation : Int) : Prop where
  constant (removed : node = .null) : (nEvaluation = 0 ∨ nEvaluation = 1) ∧
    ∀ holds, psFilterNode.value holds = decide (nEvaluation = 1)
  same (left : node ≠ .null) (holds : FilterEncodingNode α → Bool) : node.value holds = psFilterNode.value holds
  isFilter (left : node ≠ .null) : node.IsFilter
  hasNoConstant : node.HasNoConstant

theorem isExactly_iff {names : List String} {text : CString} :
    isExactly names text = true ↔ ∃ name ∈ names, text = ascii name := by
  simp [isExactly]

theorem nullProperty_eq (pszName : CString) :
    (FLTIsGMLDefaultProperty pszName && !isExactly ["@gml:id", "gml:boundedBy"] pszName) =
      isExactly ["gml:name", "gml:description", "gml:descriptionReference", "gml:identifier"] pszName := by
  rw [Bool.eq_iff_iff, Bool.and_eq_true, Bool.not_eq_true', ← Bool.not_eq_true, FLTIsGMLDefaultProperty]
  simp only [isExactly_iff, List.mem_cons, List.not_mem_nil, or_false, exists_eq_or_imp, exists_eq_left]
  constructor
  · have remaining {a b c d e f : Prop} : (a ∨ b ∨ c ∨ d ∨ e ∨ f) ∧ ¬(f ∨ e) → a ∨ b ∨ c ∨ d := by tauto
    exact remaining
  · rintro (rfl | rfl | rfl | rfl) <;> simp [ascii]

theorem nullTest_eq_constantLeaf {node : FilterEncodingNode α} (isFilter : node.IsFilter) :
    node.nullTest = node.constantLeaf := by
  cases node with
  | null => exact isFilter.elim
  | node eType pszValue pOther pszSRS psLeftNode psRightNode =>
    by_cases comparison : eType = .FILTER_NODE_TYPE_COMPARISON
    · subst comparison
      simp only [IsFilter, reduceCtorEq, if_false, forall_const] at isFilter
      simp only [nullTest, constantLeaf, ne_eq, not_true_eq_false, if_false, Bool.and_assoc, nullProperty_eq]
      by_cases isNull : pszValue.getD [] = ascii "PropertyIsNull"
      · have tests : isExactly ["PropertyIsNull", "PropertyIsNil"] (pszValue.getD []) := by simp [isExactly, isNull]
        rw [if_pos ⟨tests, isFilter tests⟩, if_pos isNull]
        simp [isExactly, isNull]
      by_cases isNil : pszValue.getD [] = ascii "PropertyIsNil"
      · have tests : isExactly ["PropertyIsNull", "PropertyIsNil"] (pszValue.getD []) := by simp [isExactly, isNil]
        rw [if_pos ⟨tests, isFilter tests⟩, if_neg isNull, if_pos isNil]
        simp [isExactly, isNull]
      · have other : ¬isExactly ["PropertyIsNull", "PropertyIsNil"] (pszValue.getD []) := by
          simp [isExactly, isNull, isNil]
        rw [if_neg fun tests => other tests.1, if_neg isNull, if_neg isNil]
    · rw [constantLeaf, if_pos comparison]
      unfold nullTest
      split
      · rename_i same
        cases same
        exact absurd rfl comparison
      · rfl

theorem isNull_iff {node : FilterEncodingNode α} : node.isNull = true ↔ node = .null := by
  cases node <;> simp [isNull]

theorem not_isNull_iff {node : FilterEncodingNode α} : (!node.isNull) = true ↔ node ≠ .null := by
  cases node <;> simp [isNull]

theorem KeepsValue.trans {whole part node : FilterEncodingNode α} {nEvaluation : Int}
    (keeps : KeepsValue part node nEvaluation) (same : ∀ holds, whole.value holds = part.value holds) :
    KeepsValue whole node nEvaluation where
  constant removed := ⟨(keeps.constant removed).1, fun holds => (same holds).trans ((keeps.constant removed).2 holds)⟩
  same left holds := (keeps.same left holds).trans (same holds).symm
  isFilter := keeps.isFilter
  hasNoConstant := keeps.hasNoConstant

theorem KeepsValue.ofConstant {whole : FilterEncodingNode α} {nEvaluation : Int} (isBit : nEvaluation = 0 ∨ nEvaluation = 1)
    (value : ∀ holds, whole.value holds = decide (nEvaluation = 1)) : KeepsValue whole .null nEvaluation where
  constant _ := ⟨isBit, value⟩
  same left := absurd rfl left
  isFilter left := absurd rfl left
  hasNoConstant := trivial

theorem KeepsValue.ofNode {whole node : FilterEncodingNode α} (same : ∀ holds, node.value holds = whole.value holds)
    (isFilter : node.IsFilter) (hasNoConstant : node.HasNoConstant) : KeepsValue whole node (-1) where
  constant removed := by
    subst removed
    exact isFilter.elim
  same _ := same
  isFilter _ := isFilter
  hasNoConstant := hasNoConstant

section Node
variable {eType : FilterNodeType} {pszValue : Option CString} {pOther : FilterOther α} {pszSRS : Option CString}
  {psLeftNode psRightNode left right : FilterEncodingNode α} {nEvaluation : Int}

theorem keepsValue_constantLeaf {value : Bool}
    (constant : (node eType pszValue pOther pszSRS psLeftNode psRightNode).constantLeaf = some value) :
    KeepsValue (node eType pszValue pOther pszSRS psLeftNode psRightNode) .null (if value then 1 else 0) := by
  have leaf : eType ≠ .FILTER_NODE_TYPE_LOGICAL := by
    rintro rfl
    cases constant
  apply KeepsValue.ofConstant
  · cases value <;> simp
  · intro holds
    simp only [FilterEncodingNode.value, if_neg leaf, constant, Option.getD_some]
    cases value <;> rfl

theorem keepsValue_leaf (leaf : eType ≠ .FILTER_NODE_TYPE_LOGICAL)
    (isFilter : (node eType pszValue pOther pszSRS psLeftNode psRightNode).IsFilter)
    (free : (node eType pszValue pOther pszSRS psLeftNode psRightNode).constantLeaf = none) :
    KeepsValue (node eType pszValue pOther pszSRS psLeftNode psRightNode)
      (node eType pszValue pOther pszSRS psLeftNode psRightNode) (-1) :=
  .ofNode (fun _ => rfl) isFilter ⟨free, fun logical => absurd logical leaf⟩

theorem not_ne_andOr {text : CString} (isNot : isOneOf ["NOT"] text = true) :
    isOneOf ["AND"] text = false ∧ isOneOf ["OR"] text = false := by
  constructor
  · apply isOneOf_disjoint isNot
    simp [ascii, tolower]
  · apply isOneOf_disjoint isNot
    simp [ascii, tolower]

theorem value_not (isNot : isOneOf ["NOT"] (pszValue.getD []) = true) (holds : FilterEncodingNode α → Bool) :
    (node .FILTER_NODE_TYPE_LOGICAL pszValue pOther pszSRS psLeftNode psRightNode).value holds =
      !psLeftNode.value holds := by
  simp [FilterEncodingNode.value, not_ne_andOr isNot]

theorem keepsValue_not_constant (isNot : isOneOf ["NOT"] (pszValue.getD []) = true)
    (keeps : KeepsValue psLeftNode left nEvaluation) (removed : left = .null) :
    KeepsValue (node .FILTER_NODE_TYPE_LOGICAL pszValue pOther pszSRS psLeftNode psRightNode) .null
      (1 - nEvaluation) := by
  obtain ⟨isBit, constant⟩ := keeps.constant removed
  apply KeepsValue.ofConstant
  · omega
  · intro holds
    rw [value_not isNot, constant]
    rcases isBit with rfl | rfl <;> rfl

theorem keepsValue_not (isNot : isOneOf ["NOT"] (pszValue.getD []) = true) (keeps : KeepsValue psLeftNode left nEvaluation)
    (stays : left ≠ .null) :
    KeepsValue (node .FILTER_NODE_TYPE_LOGICAL pszValue pOther pszSRS psLeftNode .null)
      (node .FILTER_NODE_TYPE_LOGICAL pszValue pOther pszSRS left .null) (-1) := by
  apply KeepsValue.ofNode
  · intro holds
    rw [value_not isNot, value_not isNot, keeps.same stays]
  · exact ⟨keeps.isFilter stays, Or.inr ⟨isNot, rfl⟩⟩
  · exact ⟨rfl, fun _ => ⟨keeps.hasNoConstant, trivial⟩⟩

theorem value_andOr (andOr : isOneOf ["AND", "OR"] (pszValue.getD []) = true) (holds : FilterEncodingNode α → Bool) :
    (node .FILTER_NODE_TYPE_LOGICAL pszValue pOther pszSRS psLeftNode psRightNode).value holds =
      if isOneOf ["AND"] (pszValue.getD []) then psLeftNode.value holds && psRightNode.value holds
      else psLeftNode.value holds || psRightNode.value holds := by
  by_cases isAnd : isOneOf ["AND"] (pszValue.getD [])
  · simp [FilterEncodingNode.value, isAnd]
  · have isOr : isOneOf ["OR"] (pszValue.getD []) := by
      simp only [isOneOf, List.any_cons, List.any_nil, Bool.or_false, Bool.or_eq_true] at andOr isAnd ⊢
      exact andOr.resolve_left isAnd
    simp [FilterEncodingNode.value, isAnd, isOr]

section AndOr
variable (andOr : isOneOf ["AND", "OR"] (pszValue.getD []) = true) (isBit : nEvaluation = 0 ∨ nEvaluation = 1)
include andOr isBit

theorem value_left_constant {holds : FilterEncodingNode α → Bool} (constant : psLeftNode.value holds = decide (nEvaluation = 1)) :
    (node .FILTER_NODE_TYPE_LOGICAL pszValue pOther pszSRS psLeftNode psRightNode).value holds =
      if nEvaluation = nExpectedValForFastExit (pszValue.getD []) then decide (nEvaluation = 1)
      else psRightNode.value holds := by
  rw [value_andOr andOr, constant, nExpectedValForFastExit]
  rcases isBit with rfl | rfl <;> cases isOneOf ["AND"] (pszValue.getD []) <;> simp

theorem value_right_constant {holds : FilterEncodingNode α → Bool}
    (constant : psRightNode.value holds = decide (nEvaluation = 1)) :
    (node .FILTER_NODE_TYPE_LOGICAL pszValue pOther pszSRS psLeftNode psRightNode).value holds =
      if nEvaluation = nExpectedValForFastExit (pszValue.getD []) then decide (nEvaluation = 1)
      else psLeftNode.value holds := by
  rw [value_andOr andOr, constant, nExpectedValForFastExit]
  rcases isBit with rfl | rfl <;> cases isOneOf ["AND"] (pszValue.getD []) <;> simp

end AndOr

theorem keepsValue_andOr {other : Int} (andOr : isOneOf ["AND", "OR"] (pszValue.getD []) = true)
    (keepsLeft : KeepsValue psLeftNode left nEvaluation) (leftStays : left ≠ .null)
    (keepsRight : KeepsValue psRightNode right other) (rightStays : right ≠ .null) :
    KeepsValue (node .FILTER_NODE_TYPE_LOGICAL pszValue pOther pszSRS psLeftNode psRightNode)
      (node .FILTER_NODE_TYPE_LOGICAL pszValue pOther pszSRS left right) (-1) := by
  apply KeepsValue.ofNode
  · intro holds
    rw [value_andOr andOr, value_andOr andOr, keepsLeft.same leftStays, keepsRight.same rightStays]
  · exact ⟨keepsLeft.isFilter leftStays, Or.inl ⟨andOr, keepsRight.isFilter rightStays⟩⟩
  · exact ⟨rfl, fun _ => ⟨keepsLeft.hasNoConstant, keepsRight.hasNoConstant⟩⟩

end Node

theorem FilterEncodingNode.IsFilter.ne_null {filter : FilterEncodingNode α} (isFilter : filter.IsFilter) : filter ≠ .null := by
  rintro rfl
  exact isFilter

theorem FLTSimplify_keepsValue {psFilterNode : FilterEncodingNode α} (isFilter : psFilterNode.IsFilter) :
    KeepsValue psFilterNode (FLTSimplify psFilterNode).node (FLTSimplify psFilterNode).nEvaluation := by
  induction size : psFilterNode.nodeCount using Nat.strong_induction_on generalizing psFilterNode with
  | _ count ih =>
  subst size
  cases psFilterNode with
  | null => exact isFilter.elim
  | node eType pszValue pOther pszSRS psLeftNode psRightNode =>
    have test := nullTest_eq_constantLeaf isFilter
    rw [FLTSimplify]
    cases constant : (node eType pszValue pOther pszSRS psLeftNode psRightNode).constantLeaf with
    | some value =>
      rw [constant] at test
      rw [test]
      exact keepsValue_constantLeaf constant
    | none =>
      rw [constant] at test
      rw [test]
      by_cases logical : eType = .FILTER_NODE_TYPE_LOGICAL
      · subst logical
        obtain ⟨leftFilter, operands⟩ := isFilter
        have leftKept := ih _ (Nat.lt_succ_of_le (Nat.le_add_right _ _)) leftFilter rfl
        have leftThere : (!psLeftNode.isNull) = true := not_isNull_iff.mpr leftFilter.ne_null
        rcases operands with ⟨andOr, rightFilter⟩ | ⟨isNot, rfl⟩
        · have notNot : ¬isOneOf ["NOT"] (pszValue.getD []) = true := by
            rw [Bool.not_eq_true]
            apply isOneOf_disjoint andOr
            simp [ascii, tolower]
          rw [if_neg fun enters => notNot enters.2.1,
            if_pos ⟨rfl, andOr, leftThere, not_isNull_iff.mpr rightFilter.ne_null⟩]
          have rightKept := ih _ (Nat.lt_succ_of_le (Nat.le_add_left _ _)) rightFilter rfl
          by_cases leftRemoved : (FLTSimplify psLeftNode).node.isNull = true
          · rw [if_pos leftRemoved]
            obtain ⟨isBit, leftValue⟩ := leftKept.constant (isNull_iff.mp leftRemoved)
            by_cases decides : (FLTSimplify psLeftNode).nEvaluation = nExpectedValForFastExit (pszValue.getD [])
            · rw [if_pos decides]
              exact .ofConstant isBit fun holds =>
                (value_left_constant andOr isBit (leftValue holds)).trans (if_pos decides)
            · rw [if_neg decides]
              exact rightKept.trans fun holds =>
                (value_left_constant andOr isBit (leftValue holds)).trans (if_neg decides)
          · rw [if_neg leftRemoved]
            have leftStays : (FLTSimplify psLeftNode).node ≠ .null := fun same => leftRemoved (isNull_iff.mpr same)
            by_cases rightRemoved : (FLTSimplify psRightNode).node.isNull = true
            · rw [if_pos rightRemoved]
              obtain ⟨isBit, rightValue⟩ := rightKept.constant (isNull_iff.mp rightRemoved)
              by_cases decides : (FLTSimplify psRightNode).nEvaluation = nExpectedValForFastExit (pszValue.getD [])
              · rw [if_pos decides]
                exact .ofConstant isBit fun holds =>
                  (value_right_constant andOr isBit (rightValue holds)).trans (if_pos decides)
              · rw [if_neg decides]
                have again := ih _ (Nat.lt_succ_of_le ((FLTSimplify psLeftNode).smaller.trans (Nat.le_add_right _ _)))
                  (leftKept.isFilter leftStays) rfl
                exact again.trans fun holds => by
                  rw [value_right_constant andOr isBit (rightValue holds), if_neg decides, leftKept.same leftStays]
            · rw [if_neg rightRemoved]
              exact keepsValue_andOr andOr leftKept leftStays rightKept fun same => rightRemoved (isNull_iff.mpr same)
        · rw [if_pos ⟨rfl, isNot, leftThere⟩]
          by_cases removed : (FLTSimplify psLeftNode).node.isNull = true
          · rw [if_pos removed]
            exact keepsValue_not_constant isNot leftKept (isNull_iff.mp removed)
          · rw [if_neg removed]
            exact keepsValue_not isNot leftKept fun same => removed (isNull_iff.mpr same)
      · rw [if_neg fun enters => logical enters.1, if_neg fun enters => logical enters.1]
        exact keepsValue_leaf logical isFilter constant

/-- Simplifying a filter keeps its value for all values of the leaves, and leaves no test for null. -/
theorem FLTSimplify_value {psFilterNode : FilterEncodingNode α} (isFilter : psFilterNode.IsFilter) :
    let result := FLTSimplify psFilterNode
    (result.node ≠ .null → result.node.HasNoConstant ∧ ∀ holds, result.node.value holds = psFilterNode.value holds) ∧
      (result.node = .null → (result.nEvaluation = 0 ∨ result.nEvaluation = 1) ∧
        ∀ holds, psFilterNode.value holds = decide (result.nEvaluation = 1)) := by
  have keeps := FLTSimplify_keepsValue isFilter
  exact ⟨fun stays => ⟨keeps.hasNoConstant, keeps.same stays⟩, keeps.constant⟩

def nullOrEqual : FilterEncodingNode Unit :=
  let test : FilterEncodingNode Unit := .node .FILTER_NODE_TYPE_COMPARISON (some (ascii "PropertyIsNull")) .null none
    (.leaf .FILTER_NODE_TYPE_PROPERTYNAME (some (ascii "gml:boundedBy"))) .null
  let equal : FilterEncodingNode Unit := .node .FILTER_NODE_TYPE_COMPARISON (some (ascii "PropertyIsEqualTo")) .null none
    (.leaf .FILTER_NODE_TYPE_PROPERTYNAME (some (ascii "name"))) (.leaf .FILTER_NODE_TYPE_LITERAL (some (ascii "x")))
  .node .FILTER_NODE_TYPE_LOGICAL (some (ascii "OR")) .null none
    (.node .FILTER_NODE_TYPE_LOGICAL (some (ascii "Not")) .null none test .null) equal

theorem FLTSimplify_value_nullOrEqual :
    let result := FLTSimplify nullOrEqual
    (result.node ≠ .null → result.node.HasNoConstant ∧ ∀ holds, result.node.value holds = nullOrEqual.value holds) ∧
      (result.node = .null → (result.nEvaluation = 0 ∨ result.nEvaluation = 1) ∧
        ∀ holds, nullOrEqual.value holds = decide (result.nEvaluation = 1)) :=
  FLTSimplify_value (by
    simp [nullOrEqual, IsFilter, isOneOf, sameIgnoringCase_iff, isExactly, isPropertyName, leaf, ascii, tolower])

end MapServer
