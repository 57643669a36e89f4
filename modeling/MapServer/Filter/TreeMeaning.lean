import MapServer.Filter.Node
import Mathlib.Data.List.Induction

namespace MapServer
open List

def CPLXMLNode.psChild : CPLXMLNode → CPLXMLNode
  | .null => .null
  | .node _ _ _ psChild => psChild

def CPLXMLNode.pszValue : CPLXMLNode → CString
  | .null => []
  | .node _ pszValue _ _ => pszValue

def elements : CPLXMLNode → List CPLXMLNode
  | .null => []
  | .node eType pszValue psNext psChild =>
    if eType = .CXT_Element then .node eType pszValue psNext psChild :: elements psNext else elements psNext

def isFeatureId (element : CPLXMLNode) : Bool := FLTIsFeatureIdFilterType element.pszValue

section Meaning
variable {α Φ : Type} (CPLGetXMLValue : CPLXMLNode → String → Option CString)
  (insertOperator : CPLXMLNode → FilterEncodingNode α) (fid : Φ → CString)
  /- the features for which a comparison, spatial or temporal node is true -/
  (holds : FilterEncodingNode α → Φ → Prop)

def treeMeaning : FilterEncodingNode α → Φ → Prop
  | .null, _ => False
  | .node eType pszValue pOther pszSRS psLeftNode psRightNode, feature =>
    if eType = .FILTER_NODE_TYPE_LOGICAL then
      if isOneOf ["AND"] (pszValue.getD []) then treeMeaning psLeftNode feature ∧ treeMeaning psRightNode feature
      else if isOneOf ["OR"] (pszValue.getD []) then treeMeaning psLeftNode feature ∨ treeMeaning psRightNode feature
      else ¬treeMeaning psLeftNode feature
    else if eType = .FILTER_NODE_TYPE_FEATUREID then fid feature ∈ (pszValue.getD []).splitOn 44
    else holds (.node eType pszValue pOther pszSRS psLeftNode psRightNode) feature

def elementMeaning (element : CPLXMLNode) (children : List (Φ → Prop)) (feature : Φ) : Prop :=
  if isOneOf ["AND"] element.pszValue then ∀ child ∈ children, child feature
  else if isOneOf ["OR"] element.pszValue then ∃ child ∈ children, child feature
  else if isOneOf ["NOT"] element.pszValue then ∀ child ∈ children, ¬child feature
  else if isFeatureId element then featureIdOf CPLGetXMLValue element = some (fid feature)
  else holds (insertOperator element) feature

def meanings : CPLXMLNode → List (Φ → Prop)
  | .null => []
  | .node eType pszValue psNext psChild =>
    if eType = .CXT_Element then
      elementMeaning CPLGetXMLValue insertOperator fid holds (.node eType pszValue psNext psChild) (meanings psChild) ::
        meanings psNext
    else meanings psNext

def meaning (element : CPLXMLNode) : Φ → Prop :=
  elementMeaning CPLGetXMLValue insertOperator fid holds element
    (meanings CPLGetXMLValue insertOperator fid holds element.psChild)

def filterMeaning (element : CPLXMLNode) (feature : Φ) : Prop :=
  if isFeatureId element then fid feature ∈ featureIds CPLGetXMLValue element
  else meaning CPLGetXMLValue insertOperator fid holds element feature

/-- `And` and `Or` have two children at least and `Not` has one; only feature id elements have an id, which has no comma. -/
def WellFormed : CPLXMLNode → Prop
  | .null => True
  | .node eType pszValue psNext psChild =>
    (if eType = .CXT_Element ∧ FLTIsFeatureIdFilterType pszValue then
        ∃ id, featureIdOf CPLGetXMLValue (.node eType pszValue psNext psChild) = some id ∧ 44 ∉ id
      else featureIdOf CPLGetXMLValue (.node eType pszValue psNext psChild) = none) ∧
    (eType = .CXT_Element →
      if isOneOf ["AND", "OR"] pszValue then 2 ≤ (elements psChild).length ∧ WellFormed psChild
      else if isOneOf ["NOT"] pszValue then (elements psChild).length = 1 ∧ WellFormed psChild
      else FLTIsFeatureIdFilterType pszValue ∨
        ((FLTIsSpatialFilterType pszValue || FLTIsComparisonFilterType pszValue || FLTIsTemporalFilterType pszValue) ∧
          ∃ leafType pszText pOther pszSRS left right, insertOperator (.node eType pszValue psNext psChild) =
            .node leafType pszText pOther pszSRS left right ∧ leafType ≠ .FILTER_NODE_TYPE_LOGICAL ∧
            leafType ≠ .FILTER_NODE_TYPE_FEATUREID)) ∧
    WellFormed psNext

def Everywhere (P : CPLXMLNode → Prop) : CPLXMLNode → Prop
  | .null => True
  | .node eType pszValue psNext psChild =>
    (eType = .CXT_Element →
      P (.node eType pszValue psNext psChild) ∧ (FLTIsLogicalFilterType pszValue → Everywhere P psChild)) ∧
    Everywhere P psNext

/-- The last feature id in an `And` is the feature's and another one is not, while all else in it holds. -/
def MixesIds (element : CPLXMLNode) (feature : Φ) : Prop :=
  isOneOf ["AND"] element.pszValue ∧
    (featureIds CPLGetXMLValue element.psChild).getLast? = some (fid feature) ∧
    (∃ id ∈ featureIds CPLGetXMLValue element.psChild, id ≠ fid feature) ∧
    ∀ child ∈ elements element.psChild, isFeatureId child = false →
      meaning CPLGetXMLValue insertOperator fid holds child feature

def KeepsMeaning (element : CPLXMLNode) : Prop :=
  ∀ feature, treeMeaning fid holds (FLTInsertElementInNode CPLGetXMLValue insertOperator element) feature ↔
    filterMeaning CPLGetXMLValue insertOperator fid holds element feature

end Meaning

theorem isOneOf_iff {names : List String} {pszValue : CString} :
    isOneOf names pszValue = true ↔ ∃ name ∈ names, pszValue.map tolower = (ascii name).map tolower := by
  simp [isOneOf, sameIgnoringCase_iff]

theorem isOneOf_disjoint {names others : List String} {pszValue : CString} (one : isOneOf names pszValue = true)
    (distinct : ∀ name ∈ names, ∀ other ∈ others, (ascii name).map tolower ≠ (ascii other).map tolower) :
    isOneOf others pszValue = false := by
  obtain ⟨name, member, same⟩ := isOneOf_iff.mp one
  rw [Bool.eq_false_iff]
  intro another
  obtain ⟨other, otherMember, otherSame⟩ := isOneOf_iff.mp another
  exact distinct name member other otherMember (same.symm.trans otherSame)

theorem featureId_not_logical {pszValue : CString} (featureId : FLTIsFeatureIdFilterType pszValue = true) :
    FLTIsLogicalFilterType pszValue = false := by
  apply isOneOf_disjoint featureId
  simp [ascii, tolower]

theorem featureId_not_operator {pszValue : CString} (featureId : FLTIsFeatureIdFilterType pszValue = true) :
    (FLTIsSpatialFilterType pszValue || FLTIsComparisonFilterType pszValue) = false := by
  have spatial : FLTIsSpatialFilterType pszValue = false := by
    apply isOneOf_disjoint featureId
    simp [ascii, tolower]
  have binary : FLTIsBinaryComparisonFilterType pszValue = false := by
    apply isOneOf_disjoint featureId
    simp [ascii, tolower]
  have other : isOneOf ["PropertyIsLike", "PropertyIsBetween", "PropertyIsNull", "PropertyIsNil"] pszValue = false := by
    apply isOneOf_disjoint featureId
    simp [ascii, tolower]
  rw [spatial, FLTIsComparisonFilterType, binary, other]
  rfl

theorem logical_iff {pszValue : CString} : FLTIsLogicalFilterType pszValue = true ↔
    isOneOf ["AND"] pszValue = true ∨ isOneOf ["OR"] pszValue = true ∨ isOneOf ["NOT"] pszValue = true := by
  simp [FLTIsLogicalFilterType, isOneOf]

theorem andOr_iff {pszValue : CString} : isOneOf ["AND", "OR"] pszValue = true ↔
    isOneOf ["AND"] pszValue = true ∨ isOneOf ["OR"] pszValue = true := by
  simp [isOneOf]

theorem insertLogical_andOr {α : Type} {pszValue : CString} (andOr : isOneOf ["AND", "OR"] pszValue = true)
    (children : List (FilterEncodingNode α)) : insertLogical pszValue children = chainNodes pszValue children := by
  simp [insertLogical, andOr]

theorem insertLogical_not {α : Type} {pszValue : CString} (notAndOr : ¬isOneOf ["AND", "OR"] pszValue = true)
    (isNot : isOneOf ["NOT"] pszValue = true) (child : FilterEncodingNode α) :
    insertLogical pszValue [child] = .node .FILTER_NODE_TYPE_LOGICAL (some pszValue) .null none child .null := by
  simp [insertLogical, notAndOr, isNot]

section Chains
variable {α Φ : Type} {CPLGetXMLValue : CPLXMLNode → String → Option CString}
  {insertOperator : CPLXMLNode → FilterEncodingNode α} {fid : Φ → CString} {holds : FilterEncodingNode α → Φ → Prop}

theorem insertChain_eq (chain : CPLXMLNode) : insertChain CPLGetXMLValue insertOperator chain =
    (elements chain).map (FLTInsertElementInNode CPLGetXMLValue insertOperator) := by
  induction chain with
  | null => rfl
  | node eType pszValue psNext psChild next child =>
    rw [insertChain, elements]
    split
    · rw [next, map_cons]
      rfl
    · exact next

theorem meanings_eq (chain : CPLXMLNode) : meanings CPLGetXMLValue insertOperator fid holds chain =
    (elements chain).map (meaning CPLGetXMLValue insertOperator fid holds) := by
  induction chain with
  | null => rfl
  | node eType pszValue psNext psChild next child =>
    rw [meanings, elements]
    split
    · rw [next, map_cons]
      rfl
    · exact next

variable {chain element : CPLXMLNode} {feature : Φ}

theorem everywhere_iff {P : CPLXMLNode → Prop} : Everywhere P chain ↔
    ∀ element ∈ elements chain, P element ∧ (FLTIsLogicalFilterType element.pszValue → Everywhere P element.psChild) := by
  induction chain with
  | null => simp [Everywhere, elements]
  | node eType pszValue psNext psChild next child =>
    rw [Everywhere, elements, next]
    by_cases element : eType = .CXT_Element
    · rw [if_pos element, forall_mem_cons]
      exact and_congr_left fun _ => forall_prop_of_true element
    · rw [if_neg element]
      exact and_iff_right fun impossible => absurd impossible element

inductive ChainHead (CPLGetXMLValue : CPLXMLNode → String → Option CString) (chain psNext : CPLXMLNode) : Prop where
  | featureId (id : CString) (here : elements chain = chain :: elements psNext) (isId : isFeatureId chain = true)
      (noComma : 44 ∉ id) (named : featureIdOf CPLGetXMLValue chain = some id)
      (ids : featureIds CPLGetXMLValue chain = id :: featureIds CPLGetXMLValue psNext)
  | other (here : elements chain = chain :: elements psNext) (notId : isFeatureId chain = false)
      (ids : featureIds CPLGetXMLValue chain = featureIds CPLGetXMLValue psNext)
  | noElement (here : elements chain = elements psNext)
      (ids : featureIds CPLGetXMLValue chain = featureIds CPLGetXMLValue psNext)

theorem chainHead {eType : CPLXMLNodeType} {pszValue : CString} {psNext psChild : CPLXMLNode}
    (wellFormed : WellFormed CPLGetXMLValue insertOperator (.node eType pszValue psNext psChild)) :
    ChainHead CPLGetXMLValue (.node eType pszValue psNext psChild) psNext := by
  obtain ⟨own, -, -⟩ := wellFormed
  by_cases element : eType = .CXT_Element
  · by_cases isId : FLTIsFeatureIdFilterType pszValue = true
    · rw [if_pos ⟨element, isId⟩] at own
      obtain ⟨id, named, noComma⟩ := own
      exact .featureId id (by rw [elements, if_pos element]) isId noComma named (by rw [featureIds, named]; rfl)
    · rw [if_neg fun both => isId both.2] at own
      exact .other (by rw [elements, if_pos element]) (Bool.eq_false_iff.mpr isId) (by rw [featureIds, own]; rfl)
  · rw [if_neg fun both => element both.1] at own
    exact .noElement (by rw [elements, if_neg element]) (by rw [featureIds, own]; rfl)

theorem WellFormed.next {eType : CPLXMLNodeType} {pszValue : CString} {psNext psChild : CPLXMLNode}
    (wellFormed : WellFormed CPLGetXMLValue insertOperator (.node eType pszValue psNext psChild)) :
    WellFormed CPLGetXMLValue insertOperator psNext :=
  wellFormed.2.2

theorem wellFormed_of_mem (wellFormed : WellFormed CPLGetXMLValue insertOperator chain)
    (member : element ∈ elements chain) : WellFormed CPLGetXMLValue insertOperator element ∧
      ∃ pszValue psNext psChild, element = .node .CXT_Element pszValue psNext psChild := by
  induction chain with
  | null => exact absurd member not_mem_nil
  | node eType pszValue psNext psChild next child =>
    rw [elements] at member
    split at member
    · rename_i isElement
      rcases mem_cons.mp member with rfl | later
      · exact ⟨wellFormed, pszValue, psNext, psChild, by rw [isElement]⟩
      · exact next wellFormed.next later
    · exact next wellFormed.next member

theorem featureIds_noComma (wellFormed : WellFormed CPLGetXMLValue insertOperator chain) :
    ∀ id ∈ featureIds CPLGetXMLValue chain, 44 ∉ id := by
  induction chain with
  | null => simp [featureIds]
  | node eType pszValue psNext psChild next child =>
    have rest := next wellFormed.next
    rcases chainHead wellFormed with ⟨id, -, -, noComma, -, ids⟩ | ⟨-, -, ids⟩ | ⟨-, ids⟩ <;> rw [ids]
    · exact forall_mem_cons.mpr ⟨noComma, rest⟩
    · exact rest
    · exact rest

theorem meaning_featureId (isId : isFeatureId element = true) :
    meaning CPLGetXMLValue insertOperator fid holds element feature ↔
      featureIdOf CPLGetXMLValue element = some (fid feature) := by
  have notLogical := featureId_not_logical isId
  rw [Bool.eq_false_iff, Ne, logical_iff] at notLogical
  push Not at notLogical
  rw [meaning, elementMeaning, if_neg notLogical.1, if_neg notLogical.2.1, if_neg notLogical.2.2, if_pos isId]

theorem all_meaning_iff (wellFormed : WellFormed CPLGetXMLValue insertOperator chain) :
    (∀ child ∈ elements chain, meaning CPLGetXMLValue insertOperator fid holds child feature) ↔
      (∀ child ∈ elements chain, isFeatureId child = false →
        meaning CPLGetXMLValue insertOperator fid holds child feature) ∧
      ∀ id ∈ featureIds CPLGetXMLValue chain, id = fid feature := by
  induction chain with
  | null => simp [elements, featureIds]
  | node eType pszValue psNext psChild next child =>
    have rest := next wellFormed.next
    rcases chainHead wellFormed with ⟨id, here, isId, -, named, ids⟩ | ⟨here, notId, ids⟩ | ⟨here, ids⟩ <;>
      rw [here, ids]
    · rw [forall_mem_cons, forall_mem_cons, forall_mem_cons, rest, meaning_featureId isId, named,
        Option.some.injEq, isId]
      tauto
    · rw [forall_mem_cons, forall_mem_cons, rest]
      tauto
    · exact rest

theorem all_filterMeaning_iff (wellFormed : WellFormed CPLGetXMLValue insertOperator chain) :
    (∀ child ∈ elements chain, filterMeaning CPLGetXMLValue insertOperator fid holds child feature) ↔
      (∀ child ∈ elements chain, isFeatureId child = false →
        meaning CPLGetXMLValue insertOperator fid holds child feature) ∧
      ∀ id ∈ (featureIds CPLGetXMLValue chain).getLast?, id = fid feature := by
  induction chain with
  | null => simp [elements, featureIds]
  | node eType pszValue psNext psChild next child =>
    have rest := next wellFormed.next
    rcases chainHead wellFormed with ⟨id, here, isId, -, named, ids⟩ | ⟨here, notId, ids⟩ | ⟨here, ids⟩
    · rw [here, forall_mem_cons, forall_mem_cons, rest, filterMeaning, if_pos isId, isId, ids]
      simp only [Bool.true_eq_false, false_imp_iff, true_and]
      cases featureIds CPLGetXMLValue psNext using reverseRecOn with
      | nil =>
        simp only [getLast?_nil, getLast?_singleton, Option.mem_some_iff, forall_eq', mem_singleton]
        constructor
        · exact fun both => ⟨both.2.1, both.1.symm⟩
        · intro both
          exact ⟨both.2.symm, both.1, fun last impossible => nomatch impossible⟩
      | append_singleton others last =>
        rw [← cons_append, getLast?_concat, getLast?_concat]
        constructor
        · exact fun both => both.2
        · intro both
          exact ⟨by simp [both.2], both⟩
    · rw [here, ids, forall_mem_cons, forall_mem_cons, rest, filterMeaning, notId, if_neg Bool.false_ne_true]
      tauto
    · rw [here, ids]
      exact rest

theorem exists_meaning_of_id (wellFormed : WellFormed CPLGetXMLValue insertOperator chain)
    (member : fid feature ∈ featureIds CPLGetXMLValue chain) :
    ∃ child ∈ elements chain, meaning CPLGetXMLValue insertOperator fid holds child feature := by
  induction chain with
  | null => exact absurd member not_mem_nil
  | node eType pszValue psNext psChild next child =>
    have rest := next wellFormed.next
    rcases chainHead wellFormed with ⟨id, here, isId, -, named, ids⟩ | ⟨here, notId, ids⟩ | ⟨here, ids⟩ <;>
      rw [ids] at member <;> rw [here]
    · rw [exists_mem_cons_iff]
      rcases mem_cons.mp member with same | later
      · left
        rw [meaning_featureId isId, named, same]
      · exact Or.inr (rest later)
    · exact (exists_mem_cons_iff _ _ _).mpr (Or.inr (rest member))
    · exact rest member

theorem any_filterMeaning_iff (wellFormed : WellFormed CPLGetXMLValue insertOperator chain) :
    (∃ child ∈ elements chain, filterMeaning CPLGetXMLValue insertOperator fid holds child feature) ↔
      ∃ child ∈ elements chain, meaning CPLGetXMLValue insertOperator fid holds child feature := by
  induction chain with
  | null => simp [elements]
  | node eType pszValue psNext psChild next child =>
    have rest := next wellFormed.next
    rcases chainHead wellFormed with ⟨id, here, isId, -, named, ids⟩ | ⟨here, notId, ids⟩ | ⟨here, ids⟩
    · have later : fid feature ∈ featureIds CPLGetXMLValue psNext →
          ∃ child ∈ elements psNext, meaning CPLGetXMLValue insertOperator fid holds child feature :=
        exists_meaning_of_id wellFormed.next
      have first : meaning CPLGetXMLValue insertOperator fid holds (.node eType pszValue psNext psChild) feature ↔
          fid feature = id := by
        rw [meaning_featureId isId, named, Option.some.injEq, eq_comm]
      rw [here, exists_mem_cons_iff, exists_mem_cons_iff, rest, first, filterMeaning, if_pos isId, ids,
        mem_cons, or_assoc]
      exact or_congr_right (or_iff_right_of_imp later)
    · rw [here, exists_mem_cons_iff, exists_mem_cons_iff, rest, filterMeaning, notId, if_neg Bool.false_ne_true]
    · rw [here]
      exact rest

theorem treeMeaning_and {pszValue : CString} {trees : List (FilterEncodingNode α)}
    (isAnd : isOneOf ["AND"] pszValue = true) (several : 2 ≤ trees.length) :
    treeMeaning fid holds (chainNodes pszValue trees) feature ↔ ∀ tree ∈ trees, treeMeaning fid holds tree feature := by
  induction trees with
  | nil => exact absurd several (by simp)
  | cons left rest ih =>
    match rest with
    | [] => exact absurd several (by simp)
    | [right] => simp [chainNodes, treeMeaning, isAnd]
    | second :: third :: others =>
      have inner := ih (by simp)
      have chained : chainNodes pszValue (left :: second :: third :: others) = .node .FILTER_NODE_TYPE_LOGICAL
          (some pszValue) .null none left (chainNodes pszValue (second :: third :: others)) := rfl
      rw [chained, treeMeaning, if_pos rfl, Option.getD_some, if_pos isAnd, inner]
      simp only [forall_mem_cons]

theorem treeMeaning_or {pszValue : CString} {trees : List (FilterEncodingNode α)}
    (notAnd : ¬isOneOf ["AND"] pszValue = true) (isOr : isOneOf ["OR"] pszValue = true) (several : 2 ≤ trees.length) :
    treeMeaning fid holds (chainNodes pszValue trees) feature ↔ ∃ tree ∈ trees, treeMeaning fid holds tree feature := by
  induction trees with
  | nil => exact absurd several (by simp)
  | cons left rest ih =>
    match rest with
    | [] => exact absurd several (by simp)
    | [right] => simp [chainNodes, treeMeaning, notAnd, isOr]
    | second :: third :: others =>
      have inner := ih (by simp)
      have chained : chainNodes pszValue (left :: second :: third :: others) = .node .FILTER_NODE_TYPE_LOGICAL
          (some pszValue) .null none left (chainNodes pszValue (second :: third :: others)) := rfl
      rw [chained, treeMeaning, if_pos rfl, Option.getD_some, if_neg notAnd, if_pos isOr, inner]
      simp only [exists_mem_cons_iff]

theorem keepsMeaning_featureId {pszValue : CString} {psNext psChild : CPLXMLNode}
    (shape : element = .node .CXT_Element pszValue psNext psChild)
    (wellFormed : WellFormed CPLGetXMLValue insertOperator element) (isId : isFeatureId element = true) :
    KeepsMeaning CPLGetXMLValue insertOperator fid holds element := by
  subst shape
  intro feature
  have noComma := featureIds_noComma wellFormed
  have split : ∀ ids : List CString, ids ≠ [] → (∀ id ∈ ids, 44 ∉ id) → (intercalate [44] ids).splitOn 44 = ids :=
    fun ids nonempty clean => splitOn_intercalate 44 clean nonempty
  obtain ⟨id, rest, ids⟩ : ∃ id rest,
      featureIds CPLGetXMLValue (.node .CXT_Element pszValue psNext psChild) = id :: rest := by
    rcases chainHead wellFormed with ⟨id, -, -, -, -, ids⟩ | ⟨-, notId, -⟩ | ⟨here, -⟩
    · exact ⟨_, _, ids⟩
    · rw [isId] at notId
      cases notId
    · rw [elements, if_pos rfl] at here
      exact absurd here (cons_ne_self _ _)
  have notLogical : ¬FLTIsLogicalFilterType pszValue = true := Bool.eq_false_iff.mp (featureId_not_logical isId)
  have notOperator : ¬(FLTIsSpatialFilterType pszValue || FLTIsComparisonFilterType pszValue) = true :=
    Bool.eq_false_iff.mp (featureId_not_operator isId)
  rw [filterMeaning, if_pos isId]
  change FLTIsFeatureIdFilterType pszValue = true at isId
  rw [FLTInsertElementInNode, insertElement, if_neg notLogical, if_neg notOperator, if_pos isId, insertFeatureIds, ids]
  dsimp only [FilterEncodingNode.leaf]
  rw [treeMeaning, if_neg (by decide), if_pos rfl, Option.getD_some, split _ (cons_ne_nil _ _) (ids ▸ noComma)]

theorem keepsMeaning_operator {pszValue : CString} {psNext psChild : CPLXMLNode}
    (shape : element = .node .CXT_Element pszValue psNext psChild)
    (wellFormed : WellFormed CPLGetXMLValue insertOperator element) (notId : isFeatureId element = false)
    (notLogical : ¬FLTIsLogicalFilterType pszValue = true) :
    KeepsMeaning CPLGetXMLValue insertOperator fid holds element := by
  subst shape
  intro feature
  obtain ⟨-, own, -⟩ := wellFormed
  have names := notLogical
  rw [logical_iff] at names
  push Not at names
  have andOr : ¬isOneOf ["AND", "OR"] pszValue = true := by
    rw [andOr_iff]
    exact not_or.mpr ⟨names.1, names.2.1⟩
  have operator := own rfl
  rw [if_neg andOr, if_neg names.2.2] at operator
  have noId : ¬FLTIsFeatureIdFilterType pszValue = true := Bool.eq_false_iff.mp notId
  obtain ⟨named, leafType, pszText, pOther, pszSRS, left, right, leaf, leafNotLogical, leafNotId⟩ :=
    operator.resolve_left noId
  have inserted : FLTInsertElementInNode CPLGetXMLValue insertOperator (.node .CXT_Element pszValue psNext psChild) =
      insertOperator (.node .CXT_Element pszValue psNext psChild) := by
    rw [FLTInsertElementInNode, insertElement, if_neg notLogical, if_neg noId]
    by_cases spatial : (FLTIsSpatialFilterType pszValue || FLTIsComparisonFilterType pszValue) = true
    · rw [if_pos spatial]
    · rw [Bool.or_eq_true] at named
      rw [if_neg spatial, if_pos (named.resolve_left spatial)]
  rw [inserted, filterMeaning, notId, if_neg Bool.false_ne_true, meaning, elementMeaning]
  simp only [CPLXMLNode.pszValue, if_neg names.1, if_neg names.2.1, if_neg names.2.2, notId, Bool.false_eq_true, if_false]
  rw [leaf, treeMeaning, if_neg leafNotLogical, if_neg leafNotId]

theorem keepsMeaning_logical_iff {pszValue : CString} {psNext psChild : CPLXMLNode}
    (logical : FLTIsLogicalFilterType pszValue = true) :
    KeepsMeaning CPLGetXMLValue insertOperator fid holds (.node .CXT_Element pszValue psNext psChild) ↔
      ∀ feature, treeMeaning fid holds (insertLogical pszValue
          ((elements psChild).map (FLTInsertElementInNode CPLGetXMLValue insertOperator))) feature ↔
        elementMeaning CPLGetXMLValue insertOperator fid holds (.node .CXT_Element pszValue psNext psChild)
          ((elements psChild).map (meaning CPLGetXMLValue insertOperator fid holds)) feature := by
  have notId : isFeatureId (.node .CXT_Element pszValue psNext psChild) = false := by
    rw [Bool.eq_false_iff]
    intro isId
    exact absurd logical (Bool.eq_false_iff.mp (featureId_not_logical isId))
  apply forall_congr'
  intro feature
  rw [FLTInsertElementInNode, insertElement, if_pos logical, insertChain_eq, filterMeaning, notId,
    if_neg Bool.false_ne_true, meaning, CPLXMLNode.psChild, meanings_eq]

/-- The last of some ids decides what all of them decide, unless it is the feature's and another one is not. -/
theorem lastId_iff {ids : List CString} {id : CString} {P : Prop} :
    (P ∧ (∀ last ∈ ids.getLast?, last = id) ↔ P ∧ ∀ other ∈ ids, other = id) ↔
      ¬(ids.getLast? = some id ∧ (∃ other ∈ ids, other ≠ id) ∧ P) := by
  constructor
  · rintro equal ⟨last, ⟨other, member, differs⟩, holds⟩
    have all := equal.mp ⟨holds, fun found isLast => by
      rw [last] at isLast
      exact (Option.some.inj isLast).symm⟩
    exact differs (all.2 other member)
  · intro unmixed
    constructor
    · rintro ⟨holds, last⟩
      refine ⟨holds, fun other member => ?_⟩
      by_contra differs
      obtain ⟨found, isLast⟩ := Option.isSome_iff_exists.mp (getLast?_isSome.mpr (ne_nil_of_mem member))
      have same := last found isLast
      exact unmixed ⟨by rw [isLast, same], ⟨other, member, differs⟩, holds⟩
    · rintro ⟨holds, all⟩
      exact ⟨holds, fun found isLast => all found (mem_of_getLast? isLast)⟩

theorem WellFormed.child {pszValue : CString} {psNext psChild : CPLXMLNode}
    (wellFormed : WellFormed CPLGetXMLValue insertOperator (.node .CXT_Element pszValue psNext psChild))
    (logical : FLTIsLogicalFilterType pszValue = true) : WellFormed CPLGetXMLValue insertOperator psChild := by
  have shape := wellFormed.2.1 rfl
  by_cases andOr : isOneOf ["AND", "OR"] pszValue = true
  · rw [if_pos andOr] at shape
    exact shape.2
  · have isNot : isOneOf ["NOT"] pszValue = true := by
      rw [andOr_iff] at andOr
      rcases logical_iff.mp logical with isAnd | isOr | isNot
      · exact absurd (Or.inl isAnd) andOr
      · exact absurd (Or.inr isOr) andOr
      · exact isNot
    rw [if_neg andOr, if_pos isNot] at shape
    exact shape.2

section Logical
variable {pszValue : CString} {psNext psChild : CPLXMLNode}
  (wellFormed : WellFormed CPLGetXMLValue insertOperator (.node .CXT_Element pszValue psNext psChild))
  (children : ∀ child ∈ elements psChild, KeepsMeaning CPLGetXMLValue insertOperator fid holds child)
include wellFormed children

theorem insert_and_iff (isAnd : isOneOf ["AND"] pszValue = true) (feature : Φ) :
    treeMeaning fid holds (insertLogical pszValue
        ((elements psChild).map (FLTInsertElementInNode CPLGetXMLValue insertOperator))) feature ↔
      ∀ child ∈ elements psChild, filterMeaning CPLGetXMLValue insertOperator fid holds child feature := by
  have andOr := andOr_iff.mpr (Or.inl isAnd)
  have shape := wellFormed.2.1 rfl
  rw [if_pos andOr] at shape
  rw [insertLogical_andOr andOr, treeMeaning_and isAnd (by rw [length_map]; exact shape.1), List.forall_mem_map]
  exact forall₂_congr fun child member => children child member feature

theorem keepsMeaning_and_iff (isAnd : isOneOf ["AND"] pszValue = true) :
    KeepsMeaning CPLGetXMLValue insertOperator fid holds (.node .CXT_Element pszValue psNext psChild) ↔
      ∀ feature, ¬MixesIds CPLGetXMLValue insertOperator fid holds (.node .CXT_Element pszValue psNext psChild)
        feature := by
  have logical := logical_iff.mpr (Or.inl isAnd)
  rw [keepsMeaning_logical_iff logical]
  apply forall_congr'
  intro feature
  rw [insert_and_iff wellFormed children isAnd, all_filterMeaning_iff (wellFormed.child logical), elementMeaning]
  simp only [CPLXMLNode.pszValue, isAnd, if_true, List.forall_mem_map, MixesIds, CPLXMLNode.psChild, true_and]
  rw [all_meaning_iff (wellFormed.child logical), lastId_iff]

theorem keepsMeaning_or (notAnd : ¬isOneOf ["AND"] pszValue = true) (isOr : isOneOf ["OR"] pszValue = true) :
    KeepsMeaning CPLGetXMLValue insertOperator fid holds (.node .CXT_Element pszValue psNext psChild) := by
  have andOr := andOr_iff.mpr (Or.inr isOr)
  have shape := wellFormed.2.1 rfl
  rw [if_pos andOr] at shape
  rw [keepsMeaning_logical_iff (logical_iff.mpr (Or.inr (Or.inl isOr)))]
  intro feature
  have trees : (∃ tree ∈ (elements psChild).map (FLTInsertElementInNode CPLGetXMLValue insertOperator),
      treeMeaning fid holds tree feature) ↔
      ∃ child ∈ elements psChild, filterMeaning CPLGetXMLValue insertOperator fid holds child feature := by
    simp only [List.mem_map, exists_exists_and_eq_and]
    exact exists_congr fun child => and_congr_right fun member => children child member feature
  rw [insertLogical_andOr andOr, treeMeaning_or notAnd isOr (by rw [length_map]; exact shape.1), trees,
    any_filterMeaning_iff shape.2, elementMeaning]
  simp only [CPLXMLNode.pszValue, notAnd, isOr, if_true, Bool.false_eq_true, if_false, List.mem_map,
    exists_exists_and_eq_and]

theorem keepsMeaning_not (notAnd : ¬isOneOf ["AND"] pszValue = true) (notOr : ¬isOneOf ["OR"] pszValue = true)
    (isNot : isOneOf ["NOT"] pszValue = true) :
    KeepsMeaning CPLGetXMLValue insertOperator fid holds (.node .CXT_Element pszValue psNext psChild) := by
  have andOr : ¬isOneOf ["AND", "OR"] pszValue = true := by
    rw [andOr_iff]
    exact not_or.mpr ⟨notAnd, notOr⟩
  have shape := wellFormed.2.1 rfl
  rw [if_neg andOr, if_pos isNot] at shape
  obtain ⟨child, only⟩ := length_eq_one_iff.mp shape.1
  rw [keepsMeaning_logical_iff (logical_iff.mpr (Or.inr (Or.inr isNot)))]
  intro feature
  have tree := children child (by rw [only]; exact mem_singleton.mpr rfl) feature
  have own : filterMeaning CPLGetXMLValue insertOperator fid holds child feature ↔
      meaning CPLGetXMLValue insertOperator fid holds child feature := by
    have any : (∃ one ∈ elements psChild, filterMeaning CPLGetXMLValue insertOperator fid holds one feature) ↔
        ∃ one ∈ elements psChild, meaning CPLGetXMLValue insertOperator fid holds one feature :=
      any_filterMeaning_iff shape.2
    simpa [only] using any
  rw [only, map_cons, map_nil, insertLogical_not andOr isNot, treeMeaning, if_pos rfl, Option.getD_some, if_neg notAnd, if_neg notOr, tree, own, elementMeaning]
  simp only [CPLXMLNode.pszValue, notAnd, notOr, isNot, if_true, Bool.false_eq_true, if_false, map_cons,
    map_nil, mem_singleton, forall_eq]

end Logical

theorem not_mixesIds_of_not_and {pszValue : CString} {psNext psChild : CPLXMLNode}
    (notAnd : ¬isOneOf ["AND"] pszValue = true) :
    ¬MixesIds CPLGetXMLValue insertOperator fid holds (.node .CXT_Element pszValue psNext psChild) feature :=
  fun mixes => notAnd mixes.1

theorem keepsMeaning_element_iff {pszValue : CString} {psNext psChild : CPLXMLNode}
    (wellFormed : WellFormed CPLGetXMLValue insertOperator (.node .CXT_Element pszValue psNext psChild))
    (children : FLTIsLogicalFilterType pszValue = true →
      ∀ child ∈ elements psChild, KeepsMeaning CPLGetXMLValue insertOperator fid holds child) :
    KeepsMeaning CPLGetXMLValue insertOperator fid holds (.node .CXT_Element pszValue psNext psChild) ↔
      ∀ feature, ¬MixesIds CPLGetXMLValue insertOperator fid holds (.node .CXT_Element pszValue psNext psChild)
        feature := by
  by_cases logical : FLTIsLogicalFilterType pszValue = true
  · by_cases isAnd : isOneOf ["AND"] pszValue = true
    · exact keepsMeaning_and_iff wellFormed (children logical) isAnd
    · apply iff_of_true _ fun feature => not_mixesIds_of_not_and isAnd
      by_cases isOr : isOneOf ["OR"] pszValue = true
      · exact keepsMeaning_or wellFormed (children logical) isAnd isOr
      · have isNot := ((logical_iff.mp logical).resolve_left isAnd).resolve_left isOr
        exact keepsMeaning_not wellFormed (children logical) isAnd isOr isNot
  · have notAnd : ¬isOneOf ["AND"] pszValue = true := fun isAnd => logical (logical_iff.mpr (Or.inl isAnd))
    apply iff_of_true _ fun feature => not_mixesIds_of_not_and notAnd
    by_cases isId : isFeatureId (.node .CXT_Element pszValue psNext psChild) = true
    · exact keepsMeaning_featureId rfl wellFormed isId
    · exact keepsMeaning_operator rfl wellFormed (Bool.eq_false_iff.mpr isId) logical

/-- The trees built for a filter and for the elements in it keep their meaning exactly when no `And` mixes ids. -/
theorem insertElement_keepsMeaning_iff {filter : CPLXMLNode} (wellFormed : WellFormed CPLGetXMLValue insertOperator filter) :
    Everywhere (KeepsMeaning CPLGetXMLValue insertOperator fid holds) filter ↔
      Everywhere (fun element => ∀ feature, ¬MixesIds CPLGetXMLValue insertOperator fid holds element feature) filter := by
  induction filter with
  | null => exact Iff.rfl
  | node eType pszValue psNext psChild next child =>
    rw [Everywhere, Everywhere, next wellFormed.next]
    apply and_congr_left'
    apply forall_congr'
    rintro rfl
    by_cases logical : FLTIsLogicalFilterType pszValue = true
    · have inner := child (wellFormed.child logical)
      simp only [logical, true_imp_iff]
      rw [← inner]
      apply and_congr_left
      intro children
      apply keepsMeaning_element_iff wellFormed
      intro _ one member
      exact (everywhere_iff.mp children one member).1
    · simp only [logical, Bool.false_eq_true, false_imp_iff, and_true]
      exact keepsMeaning_element_iff wellFormed fun impossible => absurd impossible logical

end Chains

def attributeValue (element : CPLXMLNode) (name : String) : Option CString :=
  find (ascii name) element.psChild
where
  find (name : CString) : CPLXMLNode → Option CString
    | .null => none
    | .node eType pszValue psNext psChild =>
      if eType = .CXT_Attribute ∧ sameIgnoringCase pszValue name then some psChild.pszValue else find name psNext

def featureIdElement (fid : CString) (psNext : CPLXMLNode) : CPLXMLNode :=
  .node .CXT_Element (ascii "FeatureId") psNext
    (.node .CXT_Attribute (ascii "fid") .null (.node .CXT_Text fid .null .null))

def twoIds (operator : String) : CPLXMLNode :=
  .node .CXT_Element (ascii operator) .null (featureIdElement (ascii "a") (featureIdElement (ascii "b") .null))

theorem featureIdElement_id (id : CString) (psNext : CPLXMLNode) :
    featureIdOf attributeValue (featureIdElement id psNext) = some id := by
  simp [featureIdOf, attributeValue, attributeValue.find, featureIdElement, CPLXMLNode.psChild, CPLXMLNode.pszValue]

theorem featureIdElement_name : FLTIsFeatureIdFilterType (ascii "FeatureId") = true := by
  simp [FLTIsFeatureIdFilterType, isOneOf]

theorem featureIdElement_wellFormed {id : CString} {psNext : CPLXMLNode} (noComma : 44 ∉ id)
    (next : WellFormed attributeValue (fun _ => (.null : FilterEncodingNode Int)) psNext) :
    WellFormed attributeValue (fun _ => (.null : FilterEncodingNode Int)) (featureIdElement id psNext) := by
  have notLogical := featureId_not_logical featureIdElement_name
  rw [Bool.eq_false_iff, Ne, logical_iff] at notLogical
  push Not at notLogical
  have andOr : ¬isOneOf ["AND", "OR"] (ascii "FeatureId") = true := by
    rw [andOr_iff]
    exact not_or.mpr ⟨notLogical.1, notLogical.2.1⟩
  have named := featureIdElement_id id psNext
  rw [featureIdElement] at named ⊢
  refine ⟨?_, ?_, next⟩
  · rw [if_pos ⟨rfl, featureIdElement_name⟩]
    exact ⟨id, named, noComma⟩
  · intro _
    rw [if_neg andOr, if_neg notLogical.2.2]
    exact Or.inl featureIdElement_name

theorem twoIds_wellFormed {operator : String} (andOr : isOneOf ["AND", "OR"] (ascii operator) = true) :
    WellFormed attributeValue (fun _ => (.null : FilterEncodingNode Int)) (twoIds operator) := by
  have notId : ¬FLTIsFeatureIdFilterType (ascii operator) = true := by
    apply Bool.eq_false_iff.mp
    apply isOneOf_disjoint andOr
    simp [ascii, tolower]
  rw [twoIds]
  refine ⟨?_, ?_, trivial⟩
  · rw [if_neg fun both => notId both.2]
    simp [featureIdOf, attributeValue, attributeValue.find, featureIdElement, CPLXMLNode.psChild]
  · intro _
    rw [if_pos andOr]
    constructor
    · simp [elements, featureIdElement]
    · apply featureIdElement_wellFormed (by simp [ascii])
      apply featureIdElement_wellFormed (by simp [ascii])
      trivial

theorem twoIds_ids (operator : String) : featureIds attributeValue (twoIds operator).psChild = [ascii "a", ascii "b"] := by
  have first := featureIdElement_id (ascii "a") (featureIdElement (ascii "b") .null)
  have second := featureIdElement_id (ascii "b") .null
  rw [featureIdElement] at first second
  rw [twoIds, CPLXMLNode.psChild, featureIdElement, featureIds, first, featureIdElement, featureIds, second, featureIds]
  rfl

theorem featureIdElement_not_and : ¬isOneOf ["AND"] (ascii "FeatureId") = true := by
  simp [isOneOf, sameIgnoringCase, ascii, tolower]

theorem insertElement_keepsMeaning_or : Everywhere (KeepsMeaning attributeValue
    (fun _ => (.null : FilterEncodingNode Int)) (fun fid : CString => fid) fun _ _ => False) (twoIds "Or") := by
  have isOr : isOneOf ["AND", "OR"] (ascii "Or") = true := by simp [isOneOf, sameIgnoringCase, ascii, tolower]
  have notAnd : ¬isOneOf ["AND"] (ascii "Or") = true := by simp [isOneOf, sameIgnoringCase, ascii, tolower]
  have notLogical : ¬FLTIsLogicalFilterType (ascii "FeatureId") = true :=
    Bool.eq_false_iff.mp (featureId_not_logical featureIdElement_name)
  apply (insertElement_keepsMeaning_iff (twoIds_wellFormed isOr)).mpr
  refine ⟨fun _ => ⟨fun _ => not_mixesIds_of_not_and notAnd, fun _ => ?_⟩, trivial⟩
  refine ⟨fun _ => ⟨fun _ => not_mixesIds_of_not_and featureIdElement_not_and, fun logical => ?_⟩, ?_⟩
  · exact absurd logical notLogical
  · refine ⟨fun _ => ⟨fun _ => not_mixesIds_of_not_and featureIdElement_not_and, fun logical => ?_⟩, trivial⟩
    exact absurd logical notLogical

theorem insertElement_and_isLast :
    WellFormed attributeValue (fun _ => (.null : FilterEncodingNode Int)) (twoIds "And") ∧
      treeMeaning (fun fid : CString => fid) (fun _ _ => False)
        (FLTInsertElementInNode attributeValue (fun _ => (.null : FilterEncodingNode Int)) (twoIds "And")) (ascii "b") ∧
      ¬meaning attributeValue (fun _ => (.null : FilterEncodingNode Int)) (fun fid : CString => fid) (fun _ _ => False)
        (twoIds "And") (ascii "b") := by
  have isAnd : isOneOf ["AND"] (ascii "And") = true := by simp [isOneOf, sameIgnoringCase, ascii, tolower]
  have wellFormed := twoIds_wellFormed (andOr_iff.mpr (Or.inl isAnd))
  have logical := logical_iff.mpr (Or.inl isAnd)
  have inner := WellFormed.child wellFormed logical
  have children : ∀ child ∈ elements (twoIds "And").psChild, isFeatureId child = true := by
    simp [twoIds, CPLXMLNode.psChild, elements, featureIdElement, isFeatureId, CPLXMLNode.pszValue, featureIdElement_name]
  have ids := twoIds_ids "And"
  refine ⟨wellFormed, ?_, ?_⟩
  · rw [twoIds, FLTInsertElementInNode, insertElement, if_pos logical, insertChain_eq]
    apply (insert_and_iff wellFormed _ isAnd _).mpr
    · apply (all_filterMeaning_iff inner).mpr
      constructor
      · intro child member notId
        rw [children child member] at notId
        cases notId
      · intro last isLast
        change last ∈ (featureIds attributeValue (twoIds "And").psChild).getLast? at isLast
        rw [ids] at isLast
        exact (Option.some.inj isLast).symm
    · intro child member
      obtain ⟨childFormed, _, _, _, shape⟩ := wellFormed_of_mem inner member
      exact keepsMeaning_featureId shape childFormed (children child member)
  · intro both
    rw [meaning, meanings_eq, elementMeaning] at both
    change if isOneOf ["AND"] (ascii "And") = true then _ else _ at both
    rw [if_pos isAnd, List.forall_mem_map] at both
    have each := ((all_meaning_iff inner).mp both).2 (ascii "a")
    change ascii "a" ∈ featureIds attributeValue (twoIds "And").psChild → _ at each
    rw [ids] at each
    have same := each List.mem_cons_self
    simp [ascii] at same

end MapServer
