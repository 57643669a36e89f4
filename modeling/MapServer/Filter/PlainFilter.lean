import MapServer.Filter.TreeMeaning
import MapServer.Runtime

namespace MapServer
open List Option

section Boxes
variable {α : Type}

/-- The search for the bounding boxes under the `AND`s at the top: whether it goes on, and the box and the count so far. -/
def FLTGetTopBBOXInternal : FilterEncodingNode α → Option (FilterEncodingNode α) × Nat →
    Bool × Option (FilterEncodingNode α) × Nat
  | .null, state => (true, state)
  | .node eType pszValue pOther pszSRS psLeftNode psRightNode, (psTopBBOX, nCount) =>
    if pszValue.any (isOneOf ["BBOX"]) then
      if nCount + 1 = 1 then (true, some (.node eType pszValue pOther pszSRS psLeftNode psRightNode), nCount + 1)
      else (false, none, nCount + 1)
    else if pszValue.any (isOneOf ["AND"]) then
      match FLTGetTopBBOXInternal psLeftNode (psTopBBOX, nCount) with
      | (true, state) => FLTGetTopBBOXInternal psRightNode state
      | (false, state) => (false, state)
    else (true, psTopBBOX, nCount)

def FLTGetTopBBOX (psNode : FilterEncodingNode α) : Option (FilterEncodingNode α) :=
  (FLTGetTopBBOXInternal psNode (none, 0)).2.1

/-- The SRS that is returned, and the rectangle that `psRect` is left with. -/
def FLTGetBBOX : FilterEncodingNode α → RectObj α → Option CString × RectObj α
  | .null, psRect => (none, psRect)
  | .node _ pszValue _ pszSRS psLeftNode psRightNode, psRect =>
    if pszValue.any (isOneOf ["BBOX"]) then
      match psRightNode with
      | .node _ _ (.box rect) _ _ _ => (pszSRS, rect)
      | _ => (none, psRect)
    else
      match FLTGetBBOX psLeftNode psRect with
      | (some pszReturn, rect) => (some pszReturn, rect)
      | (none, rect) => FLTGetBBOX psRightNode rect

end Boxes

/-- The parts of the map and of the layer that are used, with the metadata already looked up. -/
structure FilterLayer (α : Type) where
  extent : RectObj α
  projection_numargs : Nat
  map_use_default_extent : Option CString
  wmsfilter_flag : Option CString
  use_default_extent : Option CString
  connectiontype : ConnectionType
  plugin_library : CString

/-- What the function calls; `reproject` is the projection of a rectangle from an SRS, if that can be loaded. -/
structure FilterCalls (α : Type) where
  FLTGetCommonExpression : FilterEncodingNode α → Option CString
  CSLTestBoolean : CString → Bool
  rectInvalid : RectObj α
  reproject : CString → RectObj α → Option (RectObj α)

section Apply
variable {α : Type} [DecidableEq α] (calls : FilterCalls α)

def FLTLayerSetInvalidRectIfSupported (lp : FilterLayer α) (rect : RectObj α) : RectObj α :=
  match lp.use_default_extent.or lp.map_use_default_extent with
  | none => rect
  | some pszUseDefaultExtent =>
    if !calls.CSLTestBoolean pszUseDefaultExtent ∧
        (lp.connectiontype = .MS_OGR ∨ lp.connectiontype = .MS_POSTGIS ∨
          lp.connectiontype = .MS_PLUGIN ∧ lp.plugin_library.tails.any (ascii "msplugin_mssql2008").isPrefixOf) then
      calls.rectInvalid
    else rect

/-- The expression and the rectangle that `FLTApplyFilterToLayerCommonExpressionWithRect` is called with, if it is. -/
def FLTLayerApplyPlainFilterToLayer (psNode : FilterEncodingNode α) (lp : FilterLayer α) :
    Option (Option CString × RectObj α) :=
  match calls.FLTGetCommonExpression psNode with
  | none => none
  | some pszExpression =>
    let rect := if lp.wmsfilter_flag = none then FLTLayerSetInvalidRectIfSupported calls lp lp.extent else lp.extent
    match FLTGetTopBBOX psNode with
    | none => some (some pszExpression, rect)
    | some psTopBBOX =>
      let (pszEPSG, oldRect) := FLTGetBBOX psNode rect
      let projected :=
        match pszEPSG with
        | some pszEPSG => if lp.projection_numargs > 0 then calls.reproject pszEPSG oldRect else none
        | none => none
      let rect := projected.getD oldRect
      -- If reprojection is involved, do not remove the expression
      let can_remove_expression := decide (rect = oldRect)
      if psTopBBOX = psNode ∧ can_remove_expression then some (none, rect) else some (some pszExpression, rect)

end Apply

section Meaning
variable {α : Type}

def boxOf : FilterEncodingNode α → Option (RectObj α)
  | .node _ pszValue _ _ _ (.node _ _ (.box rect) _ _ _) => if pszValue.any (isOneOf ["BBOX"]) then some rect else none
  | _ => none

def boxes : FilterEncodingNode α → List (RectObj α × Option CString)
  | .null => []
  | .node eType pszValue pOther pszSRS psLeftNode psRightNode =>
    if pszValue.any (isOneOf ["BBOX"]) then
      (boxOf (.node eType pszValue pOther pszSRS psLeftNode psRightNode)).toList.map fun rect => (rect, pszSRS)
    else boxes psLeftNode ++ boxes psRightNode

def conjunctBoxes : FilterEncodingNode α → List (FilterEncodingNode α)
  | .null => []
  | .node eType pszValue pOther pszSRS psLeftNode psRightNode =>
    if pszValue.any (isOneOf ["BBOX"]) then [.node eType pszValue pOther pszSRS psLeftNode psRightNode]
    else if pszValue.any (isOneOf ["AND"]) then conjunctBoxes psLeftNode ++ conjunctBoxes psRightNode
    else []

def fetchedBox (all : List (RectObj α × Option CString)) : Option (RectObj α × Option CString) :=
  (all.find? fun box => box.2.isSome).or all.getLast?

/-- A filter of `AND`, `OR` and `NOT` over comparisons and bounding boxes. -/
inductive PlainFilter : FilterEncodingNode α → Prop where
  | logical {name : CString} {pOther : FilterOther α} {pszSRS : Option CString} {left right : FilterEncodingNode α}
      (isLogical : isOneOf ["AND", "OR"] name = true) (leftPlain : PlainFilter left) (rightPlain : PlainFilter right) :
      PlainFilter (.node .FILTER_NODE_TYPE_LOGICAL (some name) pOther pszSRS left right)
  | not {name : CString} {pOther : FilterOther α} {pszSRS : Option CString} {left : FilterEncodingNode α}
      (isNot : isOneOf ["NOT"] name = true) (leftPlain : PlainFilter left) :
      PlainFilter (.node .FILTER_NODE_TYPE_LOGICAL (some name) pOther pszSRS left .null)
  | comparison {name : CString} {pOther : FilterOther α} {pszSRS : Option CString} {left right : FilterEncodingNode α}
      (isComparison : FLTIsComparisonFilterType name = true) (noBox : boxes left ++ boxes right = []) :
      PlainFilter (.node .FILTER_NODE_TYPE_COMPARISON (some name) pOther pszSRS left right)
  | bbox {name : CString} {pOther : FilterOther α} {pszSRS : Option CString} {left right : FilterEncodingNode α}
      {rect : RectObj α} (isBox : isOneOf ["BBOX"] name = true)
      (box : boxOf (.node .FILTER_NODE_TYPE_SPATIAL (some name) pOther pszSRS left right) = some rect) :
      PlainFilter (.node .FILTER_NODE_TYPE_SPATIAL (some name) pOther pszSRS left right)

def SameProjection (calls : FilterCalls α) (psNode : FilterEncodingNode α) : Prop :=
  ∀ rect pszEPSG, (rect, some pszEPSG) ∈ boxes psNode → ∀ other, (calls.reproject pszEPSG other).getD other = other

def TopAndFetched (psNode : FilterEncodingNode α) (top fetched : RectObj α) : Prop :=
  (FLTGetTopBBOX psNode).bind boxOf = some top ∧ (fetchedBox (boxes psNode)).map Prod.fst = some fetched

def leafHolds {Φ : Type} [LE α] [LT α] [DecidableLE α] [DecidableLT α] (bounds : Φ → RectObj α)
    (holds : FilterEncodingNode α → Φ → Prop) (node : FilterEncodingNode α) (feature : Φ) : Prop :=
  match boxOf node with
  | some rect => msRectOverlap rect (bounds feature) = true
  | none => holds node feature

def HidesNothing {Φ : Type} [LinearOrder α] (calls : FilterCalls α) (lp : FilterLayer α)
    (psNode : FilterEncodingNode α) (bounds : Φ → RectObj α) (fid : Φ → CString)
    (holds : FilterEncodingNode α → Φ → Prop) : Prop :=
  ∀ pszExpression rect, FLTLayerApplyPlainFilterToLayer calls psNode lp = some (pszExpression, rect) →
    (∀ feature, treeMeaning fid (leafHolds bounds holds) psNode feature → msRectOverlap rect (bounds feature) = true) ∧
    (pszExpression = none → (boxOf psNode).isSome = true)

end Meaning

section Fetch
variable {α : Type}

theorem fetchedBox_cons (box : RectObj α × Option CString) (rest : List (RectObj α × Option CString)) :
    fetchedBox (box :: rest) = if box.2.isSome then some box else (fetchedBox rest).or (some box) := by
  rw [fetchedBox, find?_cons]
  cases srs : box.2.isSome with
  | true => rfl
  | false =>
    rw [fetchedBox, Option.or_assoc]
    congr 1
    cases rest with
    | nil => rfl
    | cons next others =>
      rw [getLast?_cons_cons]
      obtain ⟨last, isLast⟩ := isSome_iff_exists.mp (getLast?_isSome.mpr (cons_ne_nil next others))
      rw [isLast]
      rfl

theorem fetchedBox_append (first second : List (RectObj α × Option CString)) :
    fetchedBox (first ++ second) =
      if ((fetchedBox first).bind Prod.snd).isSome then fetchedBox first
      else (fetchedBox second).or (fetchedBox first) := by
  induction first with
  | nil => exact (or_none).symm
  | cons box rest ih =>
    rw [cons_append, fetchedBox_cons, fetchedBox_cons, ih]
    cases srs : box.2.isSome with
    | true => simp [srs]
    | false =>
      cases fetchedBox rest with
      | none => simp [srs]
      | some found =>
        cases foundSrs : found.2.isSome with
        | true => simp [foundSrs]
        | false => simp [foundSrs]

theorem FLTGetBBOX_eq (psNode : FilterEncodingNode α) (psRect : RectObj α) :
    FLTGetBBOX psNode psRect = ((fetchedBox (boxes psNode)).bind Prod.snd,
      ((fetchedBox (boxes psNode)).map Prod.fst).getD psRect) := by
  induction psNode generalizing psRect with
  | null => rfl
  | node eType pszValue pOther pszSRS psLeftNode psRightNode left right =>
    cases isBox : pszValue.any (isOneOf ["BBOX"]) with
    | true =>
      simp only [FLTGetBBOX, boxes, isBox, if_true]
      cases psRightNode with
      | null => rfl
      | node _ _ other _ _ _ =>
        cases other with
        | box rect => cases pszSRS <;> simp [boxOf, isBox, fetchedBox]
        | _ => rfl
    | false =>
      simp only [FLTGetBBOX, boxes, isBox, Bool.false_eq_true, if_false]
      rw [left, fetchedBox_append]
      cases fetched : (fetchedBox (boxes psLeftNode)).bind Prod.snd with
      | none =>
        dsimp only
        rw [right]
        cases fetchedBox (boxes psRightNode) with
        | none => simp [fetched]
        | some found => simp
      | some pszReturn => simp [fetched]

def searchBoxes : List (FilterEncodingNode α) → Option (FilterEncodingNode α) × Nat →
    Bool × Option (FilterEncodingNode α) × Nat
  | [], state => (true, state)
  | box :: rest, (_, nCount) => if nCount + 1 = 1 then searchBoxes rest (some box, nCount + 1) else (false, none, nCount + 1)

theorem searchBoxes_append (first second : List (FilterEncodingNode α))
    (state : Option (FilterEncodingNode α) × Nat) :
    searchBoxes (first ++ second) state =
      match searchBoxes first state with
      | (true, state) => searchBoxes second state
      | (false, state) => (false, state) := by
  induction first generalizing state with
  | nil => rfl
  | cons box rest ih =>
    rw [cons_append, searchBoxes, searchBoxes]
    split
    · exact ih _
    · rfl

theorem FLTGetTopBBOXInternal_eq (psNode : FilterEncodingNode α) (state : Option (FilterEncodingNode α) × Nat) :
    FLTGetTopBBOXInternal psNode state = searchBoxes (conjunctBoxes psNode) state := by
  induction psNode generalizing state with
  | null => rfl
  | node eType pszValue pOther pszSRS psLeftNode psRightNode left right =>
    obtain ⟨psTopBBOX, nCount⟩ := state
    rw [FLTGetTopBBOXInternal, conjunctBoxes]
    split
    · rw [searchBoxes]
      split <;> rfl
    · split
      · rw [left, searchBoxes_append]
        split
        · exact right _
        · rfl
      · rfl

theorem FLTGetTopBBOX_eq_some_iff {psNode top : FilterEncodingNode α} :
    FLTGetTopBBOX psNode = some top ↔ conjunctBoxes psNode = [top] := by
  rw [FLTGetTopBBOX, FLTGetTopBBOXInternal_eq]
  match conjunctBoxes psNode with
  | [] => simp [searchBoxes]
  | [box] => simp [searchBoxes]
  | first :: second :: rest => simp [searchBoxes]

theorem fetchedBox_mem {all : List (RectObj α × Option CString)} {box : RectObj α × Option CString}
    (fetched : fetchedBox all = some box) : box ∈ all := by
  rcases or_eq_some_iff.mp fetched with withSrs | ⟨_, last⟩
  · exact mem_of_find?_eq_some withSrs
  · exact mem_of_getLast? last

end Fetch

section Conjuncts
variable {α Φ : Type} [LinearOrder α] {bounds : Φ → RectObj α} {fid : Φ → CString}
  {holds : FilterEncodingNode α → Φ → Prop}

theorem logical_not_box {name : CString} (logical : FLTIsLogicalFilterType name = true) :
    isOneOf ["BBOX"] name = false := by
  apply isOneOf_disjoint logical
  simp [ascii, tolower]

theorem comparison_not_box_and {name : CString} (isComparison : FLTIsComparisonFilterType name = true) :
    isOneOf ["BBOX", "AND"] name = false := by
  rw [FLTIsComparisonFilterType, Bool.or_eq_true] at isComparison
  rcases isComparison with binary | other
  · apply isOneOf_disjoint binary
    simp [ascii, tolower]
  · apply isOneOf_disjoint other
    simp [ascii, tolower]

/-- A conjunct is a box, and a filter is true only of features that the boxes among its conjuncts overlap. -/
theorem conjunct_isBox {psNode : FilterEncodingNode α} (plain : PlainFilter psNode) {box : FilterEncodingNode α}
    (member : box ∈ conjunctBoxes psNode) : ∃ rect, boxOf box = some rect ∧
      ∀ feature, treeMeaning fid (leafHolds bounds holds) psNode feature → msRectOverlap rect (bounds feature) = true := by
  induction plain with
  | @logical name pOther pszSRS left right isLogical leftPlain rightPlain leftBox rightBox =>
    have notBox := logical_not_box (logical_iff.mpr ((andOr_iff.mp isLogical).imp_right Or.inl))
    rw [conjunctBoxes, any_some, notBox, if_neg Bool.false_ne_true, any_some] at member
    simp only [treeMeaning, if_true, getD_some]
    by_cases isAnd : isOneOf ["AND"] name = true
    · rw [if_pos isAnd] at member
      simp only [if_pos isAnd]
      rcases mem_append.mp member with first | second
      · obtain ⟨rect, isBox, overlaps⟩ := leftBox first
        exact ⟨rect, isBox, fun feature isTrue => overlaps feature isTrue.1⟩
      · obtain ⟨rect, isBox, overlaps⟩ := rightBox second
        exact ⟨rect, isBox, fun feature isTrue => overlaps feature isTrue.2⟩
    · rw [if_neg isAnd] at member
      exact absurd member not_mem_nil
  | @not name pOther pszSRS left isNot leftPlain _ =>
    have notBox := logical_not_box (logical_iff.mpr (Or.inr (Or.inr isNot)))
    have notAnd : isOneOf ["AND"] name = false := by
      apply isOneOf_disjoint isNot
      simp [ascii, tolower]
    rw [conjunctBoxes, any_some, notBox, if_neg Bool.false_ne_true, any_some, notAnd,
      if_neg Bool.false_ne_true] at member
    exact absurd member not_mem_nil
  | @comparison name pOther pszSRS left right isComparison noBox =>
    have neither := comparison_not_box_and isComparison
    simp only [isOneOf, any_cons, any_nil, Bool.or_false, Bool.or_eq_false_iff] at neither
    simp [conjunctBoxes, isOneOf, neither.1, neither.2] at member
  | @bbox name pOther pszSRS left right rect isBox own =>
    rw [conjunctBoxes, any_some, if_pos isBox, mem_singleton] at member
    refine ⟨rect, by rw [member, own], ?_⟩
    intro feature isTrue
    change leafHolds bounds holds _ feature at isTrue
    rw [leafHolds, own] at isTrue
    exact isTrue

theorem applyPlainFilter_eq {calls : FilterCalls α} {lp : FilterLayer α} {psNode : FilterEncodingNode α}
    {first fetched : RectObj α} (same : SameProjection calls psNode) (boxed : TopAndFetched psNode first fetched)
    {pszExpression : Option CString} {rect : RectObj α}
    (run : FLTLayerApplyPlainFilterToLayer calls psNode lp = some (pszExpression, rect)) :
    rect = fetched ∧ (pszExpression = none → FLTGetTopBBOX psNode = some psNode) := by
  obtain ⟨isTop, isFetched⟩ := boxed
  obtain ⟨top, isTop, _⟩ := bind_eq_some_iff.mp isTop
  obtain ⟨⟨found, srs⟩, isFound, rfl⟩ := map_eq_some_iff.mp isFetched
  rw [FLTLayerApplyPlainFilterToLayer] at run
  cases expression : calls.FLTGetCommonExpression psNode with
  | none =>
    rw [expression] at run
    cases run
  | some text =>
    simp only [expression, isTop, FLTGetBBOX_eq, isFound, bind_some, map_some, getD_some] at run
    have unchanged : ((match srs with
        | some pszEPSG => if lp.projection_numargs > 0 then calls.reproject pszEPSG found else none
        | none => none).getD found) = found := by
      cases srs with
      | none => rfl
      | some pszEPSG =>
        dsimp only
        split
        · exact same found pszEPSG (fetchedBox_mem isFound) found
        · rfl
    rw [unchanged, decide_eq_true rfl] at run
    split at run
    · rename_i isNode
      obtain ⟨rfl, rfl⟩ := Prod.mk.inj (Option.some.inj run)
      exact ⟨rfl, fun _ => by rw [isTop, isNode.1]⟩
    · obtain ⟨rfl, rfl⟩ := Prod.mk.inj (Option.some.inj run)
      exact ⟨rfl, fun impossible => nomatch impossible⟩

theorem hidesNothing_of_contained {calls : FilterCalls α} {lp : FilterLayer α} {psNode : FilterEncodingNode α}
    (plain : PlainFilter psNode) (same : SameProjection calls psNode) {first fetched : RectObj α}
    (boxed : TopAndFetched psNode first fetched) (inside : msRectContained first fetched = true) :
    HidesNothing calls lp psNode bounds fid holds := by
  intro pszExpression rect run
  obtain ⟨rfl, dropped⟩ := applyPlainFilter_eq same boxed run
  obtain ⟨top, isTop, isFirst⟩ := bind_eq_some_iff.mp boxed.1
  have member : top ∈ conjunctBoxes psNode := by
    rw [FLTGetTopBBOX_eq_some_iff.mp isTop]
    exact mem_singleton.mpr rfl
  obtain ⟨own, isOwn, overlaps⟩ : ∃ own, boxOf top = some own ∧ ∀ feature,
      treeMeaning fid (leafHolds bounds holds) psNode feature → msRectOverlap own (bounds feature) = true :=
    conjunct_isBox plain member
  rw [isFirst] at isOwn
  cases isOwn
  constructor
  · intro feature isTrue
    exact overlap_of_contained inside (overlaps feature isTrue)
  · intro isNone
    rw [dropped isNone] at isTop
    cases isTop
    rw [isFirst]
    rfl

end Conjuncts

section Beside
variable {α : Type}

def boxNode (rect : RectObj α) : FilterEncodingNode α :=
  .node .FILTER_NODE_TYPE_SPATIAL (some (ascii "BBOX")) .null none
    (.leaf .FILTER_NODE_TYPE_PROPERTYNAME (some (ascii "the_geom")))
    (.node .FILTER_NODE_TYPE_BBOX none (.box rect) none .null .null)

def comparisonNode : FilterEncodingNode α :=
  .node .FILTER_NODE_TYPE_COMPARISON (some (ascii "PropertyIsEqualTo")) (.matchCase false) none
    (.leaf .FILTER_NODE_TYPE_PROPERTYNAME (some (ascii "name"))) (.leaf .FILTER_NODE_TYPE_LITERAL (some (ascii "a")))

def besideNode (top other : RectObj α) : FilterEncodingNode α :=
  .node .FILTER_NODE_TYPE_LOGICAL (some (ascii "AND")) .null none (boxNode top)
    (.node .FILTER_NODE_TYPE_LOGICAL (some (ascii "OR")) .null none (boxNode other) comparisonNode)

theorem boxOf_boxNode (rect : RectObj α) : boxOf (boxNode rect) = some rect := by
  simp [boxNode, boxOf, isOneOf]

theorem boxes_boxNode (rect : RectObj α) : boxes (boxNode rect) = [(rect, none)] := by
  simp [boxNode, boxes, boxOf, isOneOf]

theorem boxNode_plain (rect : RectObj α) : PlainFilter (boxNode rect) := by
  apply PlainFilter.bbox _ (boxOf_boxNode rect)
  simp [isOneOf]

theorem boxes_comparisonNode : boxes (comparisonNode : FilterEncodingNode α) = [] := by
  simp [comparisonNode, FilterEncodingNode.leaf, boxes, isOneOf, sameIgnoringCase, ascii, tolower]

theorem comparisonNode_plain : PlainFilter (comparisonNode : FilterEncodingNode α) := by
  apply PlainFilter.comparison
  · simp [FLTIsComparisonFilterType, FLTIsBinaryComparisonFilterType, isOneOf]
  · simp [FilterEncodingNode.leaf, boxes, boxOf]

theorem besideNode_plain (top other : RectObj α) : PlainFilter (besideNode top other) := by
  apply PlainFilter.logical _ (boxNode_plain top)
  · apply PlainFilter.logical _ (boxNode_plain other) comparisonNode_plain
    simp [isOneOf]
  · simp [isOneOf]

theorem boxes_besideNode (top other : RectObj α) : boxes (besideNode top other) = [(top, none), (other, none)] := by
  simp [besideNode, boxes, boxes_boxNode, boxes_comparisonNode, isOneOf, sameIgnoringCase, ascii, tolower]

theorem besideNode_sameProjection (calls : FilterCalls α) (top other : RectObj α) :
    SameProjection calls (besideNode top other) := by
  intro rect pszEPSG member
  simp [boxes_besideNode] at member

theorem besideNode_isTrue [LinearOrder α] {Φ : Type} {bounds : Φ → RectObj α} {fid : Φ → CString}
    {holds : FilterEncodingNode α → Φ → Prop} {feature : Φ} {top : RectObj α} (other : RectObj α)
    (overlaps : msRectOverlap top (bounds feature) = true) (compares : holds comparisonNode feature) :
    treeMeaning fid (leafHolds bounds holds) (besideNode top other) feature := by
  have noBox : boxOf (comparisonNode : FilterEncodingNode α) = none := by
    simp [comparisonNode, FilterEncodingNode.leaf, boxOf]
  have box : leafHolds bounds holds (boxNode top) feature := by
    rw [leafHolds, boxOf_boxNode]
    exact overlaps
  have comparison : leafHolds bounds holds comparisonNode feature := by
    rw [leafHolds, noBox]
    exact compares
  simp only [comparisonNode] at comparison
  simp [besideNode, boxNode, comparisonNode, treeMeaning, isOneOf, sameIgnoringCase, ascii, tolower]
  simp [ascii] at box comparison
  exact ⟨box, Or.inr comparison⟩

theorem besideNode_top (top other : RectObj α) : FLTGetTopBBOX (besideNode top other) = some (boxNode top) := by
  apply FLTGetTopBBOX_eq_some_iff.mpr
  simp [besideNode, conjunctBoxes, boxNode, isOneOf, sameIgnoringCase, ascii, tolower]

theorem besideNode_fetched (top other : RectObj α) : fetchedBox (boxes (besideNode top other)) = some (other, none) := by
  simp [boxes_besideNode, fetchedBox]

theorem besideNode_boxed (top other : RectObj α) : TopAndFetched (besideNode top other) top other := by
  constructor
  · rw [besideNode_top, bind_some, boxOf_boxNode]
  · rw [besideNode_fetched, map_some]

theorem exists_overlap_of_not_contained [LinearOrder α] {first other : RectObj α} (outside : msRectContained first other = false) :
    ∃ feature : RectObj α, feature.minx ≤ feature.maxx ∧ feature.miny ≤ feature.maxy ∧
      msRectOverlap first feature = true ∧ msRectOverlap other feature = false := by
  have some : first.minx < other.minx ∨ other.maxx < first.maxx ∨ first.miny < other.miny ∨ other.maxy < first.maxy := by
    by_contra none
    push Not at none
    rw [Bool.eq_false_iff] at outside
    exact outside (msRectContained_iff.mpr ⟨none.1, none.2.1, none.2.2.1, none.2.2.2⟩)
  have notOverlap {feature : RectObj α} : msRectOverlap other feature = false ↔ ¬(other.minx ≤ feature.maxx ∧
      feature.minx ≤ other.maxx ∧ other.miny ≤ feature.maxy ∧ feature.miny ≤ other.maxy) := by
    rw [Bool.eq_false_iff, Ne, msRectOverlap_iff]
  -- the feature ends at the side of the first rectangle that the other one does not reach
  rcases some with left | right | low | high
  · refine ⟨⟨min first.minx first.maxx, min first.miny first.maxy, first.minx, max first.miny first.maxy⟩, ?_⟩
    simp [msRectOverlap_iff, notOverlap, left.not_ge]
  · refine ⟨⟨first.maxx, min first.miny first.maxy, max first.minx first.maxx, max first.miny first.maxy⟩, ?_⟩
    simp [msRectOverlap_iff, notOverlap, right.not_ge]
  · refine ⟨⟨min first.minx first.maxx, min first.miny first.maxy, max first.minx first.maxx, first.miny⟩, ?_⟩
    simp [msRectOverlap_iff, notOverlap, low.not_ge]
  · refine ⟨⟨min first.minx first.maxx, first.maxy, max first.minx first.maxx, max first.miny first.maxy⟩, ?_⟩
    simp [msRectOverlap_iff, notOverlap, high.not_ge]

def plainCalls (rectInvalid : RectObj α) : FilterCalls α :=
  ⟨fun _ => some [], fun _ => false, rectInvalid, fun _ _ => none⟩

def plainLayer (extent : RectObj α) : FilterLayer α := ⟨extent, 0, none, none, none, .MS_INLINE, []⟩

theorem apply_besideNode [DecidableEq α] (extent top other : RectObj α) :
    FLTLayerApplyPlainFilterToLayer (plainCalls extent) (besideNode top other) (plainLayer extent) = some (some [], other) := by
  have notTop : boxNode top ≠ besideNode top other := by simp [boxNode, besideNode]
  simp [FLTLayerApplyPlainFilterToLayer, plainCalls, plainLayer, besideNode_top, FLTGetBBOX_eq, besideNode_fetched, notTop]

end Beside

/-- A filter is run without hiding a feature that it is true of, whatever its shape, exactly when the box that is fetched holds the top one. -/
theorem plainFilter_hidesNothing_iff {α : Type} [LinearOrder α] {top fetched : RectObj α} :
    (∀ (calls : FilterCalls α) (lp : FilterLayer α) (psNode : FilterEncodingNode α), PlainFilter psNode →
      SameProjection calls psNode → TopAndFetched psNode top fetched →
      ∀ (Φ : Type) (bounds : Φ → RectObj α) (fid : Φ → CString) (holds : FilterEncodingNode α → Φ → Prop),
        (∀ feature, (bounds feature).minx ≤ (bounds feature).maxx ∧ (bounds feature).miny ≤ (bounds feature).maxy) →
        HidesNothing calls lp psNode bounds fid holds) ↔
      msRectContained top fetched = true := by
  constructor
  · intro always
    by_contra outside
    obtain ⟨feature, wide, tall, meets, hidden⟩ := exists_overlap_of_not_contained (Bool.eq_false_iff.mpr outside)
    have hides := always (plainCalls top) (plainLayer top) (besideNode top fetched) (besideNode_plain top fetched)
      (besideNode_sameProjection _ top fetched) (besideNode_boxed top fetched) Unit (fun _ => feature) (fun _ => [])
      (fun _ _ => True) (fun _ => ⟨wide, tall⟩) (some []) fetched (apply_besideNode top top fetched)
    have seen := hides.1 () (besideNode_isTrue fetched meets trivial)
    rw [hidden] at seen
    cases seen
  · intro inside calls lp psNode plain same boxed Φ bounds fid holds _
    exact hidesNothing_of_contained plain same boxed inside

/-- A feature at (5, 5) has the name and is in the box at the top, and the rectangle is that of the other box. -/
theorem plainFilter_hides_feature :
    PlainFilter (besideNode ⟨0, 0, 10, 10⟩ ⟨20, 20, 30, (30 : Int)⟩) ∧
      SameProjection (plainCalls ⟨0, 0, 100, 100⟩) (besideNode ⟨0, 0, 10, 10⟩ ⟨20, 20, 30, (30 : Int)⟩) ∧
      FLTLayerApplyPlainFilterToLayer (plainCalls ⟨0, 0, 100, 100⟩) (besideNode ⟨0, 0, 10, 10⟩ ⟨20, 20, 30, (30 : Int)⟩)
        (plainLayer ⟨0, 0, 100, 100⟩) = some (some [], ⟨20, 20, 30, 30⟩) ∧
      treeMeaning (fun _ : Unit => []) (leafHolds (fun _ => ⟨5, 5, 5, (5 : Int)⟩) fun _ _ => True)
        (besideNode ⟨0, 0, 10, 10⟩ ⟨20, 20, 30, 30⟩) () ∧
      msRectOverlap ⟨20, 20, 30, 30⟩ ⟨5, 5, 5, (5 : Int)⟩ = false := by
  refine ⟨besideNode_plain _ _, besideNode_sameProjection _ _ _, apply_besideNode _ _ _, ?_, by decide⟩
  apply besideNode_isTrue _ _ trivial
  decide

end MapServer
