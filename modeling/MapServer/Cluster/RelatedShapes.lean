import Mathlib.Data.List.Perm.Basic
import MapServer.Cluster.Clusters

namespace MapServer
open List Option

section Walk
variable {K : Type}

mutual
def shapesWhere (p : RectObj K → Bool) : ClusterTreeNode K → List (ClusterInfo K)
  | .node rect shapes subnode => if p rect then shapes ++ shapesBelow p subnode else []

def shapesBelow (p : RectObj K → Bool) : List (ClusterTreeNode K) → List (ClusterInfo K)
  | [] => []
  | child :: rest => shapesWhere p child ++ shapesBelow p rest
end

def allShapes (node : ClusterTreeNode K) : List (ClusterInfo K) := shapesWhere (fun _ => true) node

variable (p : RectObj K → Bool)

theorem shapesBelow_eq (subnode : List (ClusterTreeNode K)) : shapesBelow p subnode = subnode.flatMap (shapesWhere p) := by
  induction subnode with
  | nil => rfl
  | cons child rest ih => rw [shapesBelow, ih, flatMap_cons]

theorem shapesWhere_node (rect : RectObj K) (shapes : List (ClusterInfo K)) (subnode : List (ClusterTreeNode K)) :
    shapesWhere p (.node rect shapes subnode) = if p rect then shapes ++ subnode.flatMap (shapesWhere p) else [] := by
  rw [shapesWhere, shapesBelow_eq]

theorem allShapes_node (rect : RectObj K) (shapes : List (ClusterInfo K)) (subnode : List (ClusterTreeNode K)) :
    allShapes (.node rect shapes subnode) = shapes ++ subnode.flatMap allShapes :=
  (shapesWhere_node ..).trans (if_pos rfl)

theorem shapesWhere_subset (node : ClusterTreeNode K) : shapesWhere p node ⊆ allShapes node := by
  induction node with
  | node rect shapes subnode ih =>
    rw [shapesWhere_node, allShapes_node]
    split
    · refine append_subset.mpr ⟨subset_append_left .., fun s below => ?_⟩
      obtain ⟨child, member, found⟩ := mem_flatMap.mp below
      exact mem_append_right _ (mem_flatMap.mpr ⟨child, member, ih child member found⟩)
    · exact nil_subset _

theorem flatMap_shapesWhere_create (rects : List (RectObj K)) :
    (rects.map clusterTreeNodeCreate).flatMap (shapesWhere p) = [] := by
  simp [flatMap_map, clusterTreeNodeCreate, shapesWhere_node]

theorem allShapes_create (rect : RectObj K) : allShapes (clusterTreeNodeCreate rect) = [] := by
  simp [clusterTreeNodeCreate, allShapes_node]

end Walk

section Change
variable {K : Type} (index : Nat) (change : ClusterInfo K → ClusterInfo K)

theorem changeInSubnodes_eq (subnode : List (ClusterTreeNode K)) :
    changeInSubnodes index change subnode = subnode.map (changeShape index change) := by
  induction subnode with
  | nil => rfl
  | cons child rest ih => rw [changeInSubnodes, ih, map_cons]

theorem rect_changeShape (node : ClusterTreeNode K) : (changeShape index change node).rect = node.rect := by
  cases node
  rw [changeShape, ClusterTreeNode.rect, ClusterTreeNode.rect]

theorem shapesWhere_changeShape (p : RectObj K → Bool) (node : ClusterTreeNode K) :
    shapesWhere p (changeShape index change node) =
      (shapesWhere p node).map fun s => if s.index = index then change s else s := by
  induction node with
  | node rect shapes subnode ih =>
    rw [changeShape, changeInSubnodes_eq, shapesWhere_node, shapesWhere_node]
    split
    · rw [map_append, flatMap_map, map_flatMap]
      exact congrArg _ (flatMap_congr ih)
    · rfl

end Change

variable {K : Type} [Field K] [LinearOrder K]

omit [Field K] in
theorem addToFirst_some {add : ClusterTreeNode K → ClusterTreeNode K} {bounds : RectObj K}
    {places added : List (ClusterTreeNode K)} (found : addToFirst add bounds places = some added) :
    ∃ before child after, places = before ++ child :: after ∧ msRectContained bounds child.rect = true ∧
      added = before ++ add child :: after := by
  induction places generalizing added with
  | nil => simp [addToFirst] at found
  | cons first rest ih =>
    rw [addToFirst] at found
    split at found
    case isTrue inside => exact ⟨[], first, rest, rfl, inside, (Option.some.inj found).symm⟩
    case isFalse =>
      obtain ⟨tail, later, rfl⟩ := map_eq_some_iff.mp found
      obtain ⟨before, child, after, rfl, inside, rfl⟩ := ih later
      exact ⟨first :: before, child, after, rfl, inside, rfl⟩

/-- A shape comes into the list of the node, or into one subnode that contains it. The subnodes are those of the node or four
new quads. -/
theorem treeNodeAddShape_cases (shape : ClusterInfo K) (depth : Nat) (rect : RectObj K) (shapes : List (ClusterInfo K))
    (subnode : List (ClusterTreeNode K)) :
    treeNodeAddShape shape depth (.node rect shapes subnode) = .node rect (shape :: shapes) subnode ∨
    ∃ shallower < depth, ∃ before child after,
      (subnode = before ++ child :: after ∨
        (subnode = [] ∧ (treeSplitQuads rect).map clusterTreeNodeCreate = before ++ child :: after)) ∧
      msRectContained shape.shapeBounds child.rect = true ∧
      treeNodeAddShape shape depth (.node rect shapes subnode) =
        .node rect shapes (before ++ treeNodeAddShape shape shallower child :: after) := by
  match depth with
  | 0 => exact .inl (by rw [treeNodeAddShape])
  | 1 => exact .inl (by rw [treeNodeAddShape])
  | depth + 2 =>
    rw [treeNodeAddShape]
    split
    case h_2 => exact .inl rfl
    case h_1 added found =>
      obtain ⟨before, child, after, places, inside, rfl⟩ := addToFirst_some found
      refine .inr ⟨depth + 1, Nat.lt_succ_self _, before, child, after, ?_, inside, rfl⟩
      split at places
      · rename_i leaf
        exact .inr ⟨leaf, places⟩
      · exact .inl places

theorem rect_treeNodeAddShape (shape : ClusterInfo K) (depth : Nat) (node : ClusterTreeNode K) :
    (treeNodeAddShape shape depth node).rect = node.rect := by
  obtain ⟨rect, shapes, subnode⟩ := node
  rcases treeNodeAddShape_cases shape depth rect shapes subnode with same | ⟨_, _, _, _, _, _, _, same⟩
  all_goals rw [same]; rfl

/-- Adding a shape adds at most this shape to a walk, and does add it when the walk enters the node and every rectangle around
the shape. -/
theorem shapesWhere_treeNodeAddShape (p : RectObj K → Bool) (shape : ClusterInfo K) (depth : Nat) (node : ClusterTreeNode K) :
    ∃ placed, (placed = [] ∨ placed = [shape]) ∧
      (shapesWhere p (treeNodeAddShape shape depth node)).Perm (placed ++ shapesWhere p node) ∧
      ((∀ around, msRectContained shape.shapeBounds around = true → p around = true) → p node.rect = true →
        placed = [shape]) := by
  induction depth using Nat.strongRecOn generalizing node with
  | ind depth ih =>
    obtain ⟨rect, shapes, subnode⟩ := node
    by_cases enters : p rect = true
    case neg =>
      refine ⟨[], .inl rfl, ?_, fun _ reached => absurd reached enters⟩
      rcases treeNodeAddShape_cases shape depth rect shapes subnode with same | ⟨_, _, _, _, _, _, _, same⟩
      all_goals
        rw [same, shapesWhere_node, shapesWhere_node, if_neg enters, if_neg enters]
        exact .refl _
    case pos =>
      rcases treeNodeAddShape_cases shape depth rect shapes subnode with same | deeper
      · refine ⟨[shape], .inr rfl, ?_, fun _ _ => rfl⟩
        rw [same, shapesWhere_node, shapesWhere_node, if_pos enters, if_pos enters]
        exact .refl _
      · obtain ⟨shallower, less, before, child, after, subnodes, inside, same⟩ := deeper
        obtain ⟨placed, few, perm, reaches⟩ := ih shallower less child
        refine ⟨placed, few, ?_, fun all _ => reaches all (all _ inside)⟩
        have old : subnode.flatMap (shapesWhere p) = (before ++ child :: after).flatMap (shapesWhere p) := by
          rcases subnodes with rfl | ⟨rfl, quads⟩
          · rfl
          · rw [← quads, flatMap_shapesWhere_create, flatMap_nil]
        rw [same, shapesWhere_node, shapesWhere_node, if_pos enters, if_pos enters, old]
        simp only [flatMap_append, flatMap_cons]
        rw [perm_iff_count] at perm ⊢
        intro other
        have moved := perm other
        simp only [count_append] at moved ⊢
        omega

def Reachable (node : ClusterTreeNode K) : Prop :=
  ∀ p : RectObj K → Bool, p node.rect = true → ∀ s ∈ allShapes node,
    (∀ around, msRectContained s.shapeBounds around = true → p around = true) → s ∈ shapesWhere p node

omit [Field K] in
theorem reachable_create (rect : RectObj K) : Reachable (clusterTreeNodeCreate rect) := by
  intro p _ s member
  rw [allShapes_create] at member
  exact absurd member not_mem_nil

theorem allShapes_treeNodeAddShape (shape : ClusterInfo K) (depth : Nat) (node : ClusterTreeNode K) :
    (allShapes (treeNodeAddShape shape depth node)).Perm (shape :: allShapes node) := by
  obtain ⟨placed, _, perm, reaches⟩ := shapesWhere_treeNodeAddShape (fun _ => true) shape depth node
  rw [reaches (fun _ _ => rfl) rfl] at perm
  exact perm

theorem Reachable.treeNodeAddShape {node : ClusterTreeNode K} (reachable : Reachable node) (shape : ClusterInfo K)
    (depth : Nat) : Reachable (treeNodeAddShape shape depth node) := by
  intro p enters s member all
  rw [rect_treeNodeAddShape] at enters
  obtain ⟨placed, _, perm, reaches⟩ := shapesWhere_treeNodeAddShape p shape depth node
  refine perm.mem_iff.mpr (mem_append.mpr ?_)
  rcases mem_cons.mp ((allShapes_treeNodeAddShape shape depth node).mem_iff.mp member) with rfl | old
  · exact .inl (by rw [reaches all enters]; exact mem_singleton_self s)
  · exact .inr (reachable p enters s old all)

omit [Field K] in
theorem Reachable.changeShape {node : ClusterTreeNode K} (reachable : Reachable node) (index : Nat)
    {change : ClusterInfo K → ClusterInfo K} (stays : ∀ s, (change s).shapeBounds = s.shapeBounds) :
    Reachable (changeShape index change node) := by
  intro p enters s member all
  rw [rect_changeShape] at enters
  rw [allShapes, shapesWhere_changeShape] at member
  rw [shapesWhere_changeShape]
  obtain ⟨old, found, rfl⟩ := List.mem_map.mp member
  refine List.mem_map_of_mem (reachable p enters old found ?_)
  split at all
  · rwa [stays] at all
  · exact all

section Search
variable (fnCompare : ClusterPoint K → ClusterPoint K → Bool) (current : ClusterPoint K)

def Accepts (rank : K) (s : ClusterInfo K) : Prop :=
  fnCompare s.toClusterPoint current = true ∧ (0 < rank → squaredDistance current s.toClusterPoint < rank)

structure SearchOutcome (shapes : List (ClusterInfo K)) (before after : Ranked K) : Prop where
  found : after.current = before.current ∨ ∃ s ∈ shapes, after.current = some s ∧ fnCompare s.toClusterPoint current = true
  missed : after.current = none → ∀ s ∈ shapes, ¬ Accepts fnCompare current before.rank s
  unchanged : (∀ s ∈ shapes, ¬ Accepts fnCompare current before.rank s) → after = before

variable {fnCompare current}

theorem SearchOutcome.nil (ranked : Ranked K) : SearchOutcome fnCompare current [] ranked ranked :=
  ⟨.inl rfl, fun _ _ member => absurd member not_mem_nil, fun _ => rfl⟩

theorem SearchOutcome.append {shapes more : List (ClusterInfo K)} {before between after : Ranked K}
    (first : SearchOutcome fnCompare current shapes before between) (second : SearchOutcome fnCompare current more between after) :
    SearchOutcome fnCompare current (shapes ++ more) before after where
  found := by
    rcases second.found with same | ⟨s, member, found⟩
    · rw [same]
      rcases first.found with same | ⟨s, member, found⟩
      · exact .inl same
      · exact .inr ⟨s, mem_append_left _ member, found⟩
    · exact .inr ⟨s, mem_append_right _ member, found⟩
  missed := by
    intro nothing s member
    have nothingBetween : between.current = none := by
      rcases second.found with same | ⟨_, _, found, _⟩
      · rw [← same, nothing]
      · rw [nothing] at found
        cases found
    have firstMissed := first.missed nothingBetween
    rcases mem_append.mp member with member | member
    · exact firstMissed s member
    · exact first.unchanged firstMissed ▸ second.missed nothing s member
  unchanged := by
    intro missed
    have same := first.unchanged fun s member => missed s (mem_append_left _ member)
    rw [second.unchanged fun s member => same ▸ missed s (mem_append_right _ member), same]

theorem SearchOutcome.stop {shapes : List (ClusterInfo K)} {before after : Ranked K}
    (searched : SearchOutcome fnCompare current shapes before after) (found : after.current ≠ none)
    (more : List (ClusterInfo K)) : SearchOutcome fnCompare current (shapes ++ more) before after where
  found := searched.found.imp_right fun ⟨s, member, found⟩ => ⟨s, mem_append_left _ member, found⟩
  missed nothing := absurd nothing found
  unchanged missed := searched.unchanged fun s member => missed s (mem_append_left _ member)

theorem searchOutcome_singleton {s : ClusterInfo K} {before after : Ranked K}
    (accepted : Accepts fnCompare current before.rank s → after.current = some s)
    (ignored : ¬ Accepts fnCompare current before.rank s → after = before) :
    SearchOutcome fnCompare current [s] before after where
  found := by
    by_cases accepts : Accepts fnCompare current before.rank s
    · exact .inr ⟨s, mem_singleton_self s, accepted accepts, accepts.1⟩
    · exact .inl (by rw [ignored accepts])
  missed := by
    intro nothing other member accepts
    rw [mem_singleton.mp member] at accepts
    rw [accepted accepts] at nothing
    cases nothing
  unchanged missed := ignored (missed s (mem_singleton_self s))

theorem findRelatedInNode_outcome (fnCompare : ClusterPoint K → ClusterPoint K → Bool) (current : ClusterPoint K) (shapes : List (ClusterInfo K))
    (ranked : Ranked K) :
    SearchOutcome fnCompare current shapes ranked (findRelatedInNode fnCompare current shapes ranked).1 ∧
    ((findRelatedInNode fnCompare current shapes ranked).2 = true →
      (findRelatedInNode fnCompare current shapes ranked).1.current ≠ none) := by
  induction shapes generalizing ranked with
  | nil => exact ⟨SearchOutcome.nil ranked, by simp [findRelatedInNode]⟩
  | cons s rest ih =>
    rw [findRelatedInNode]
    split
    case isFalse unrelated =>
      have turn : SearchOutcome fnCompare current [s] ranked ranked :=
        searchOutcome_singleton (fun accepts => absurd accepts.1 unrelated) fun _ => rfl
      exact ⟨turn.append (ih ranked).1, (ih ranked).2⟩
    case isTrue related =>
      split
      case isTrue positive =>
        have turn : SearchOutcome fnCompare current [s] ranked
            (if squaredDistance current s.toClusterPoint < ranked.rank then
              { current := some s, rank := squaredDistance current s.toClusterPoint } else ranked) :=
          searchOutcome_singleton (fun accepts => by rw [if_pos (accepts.2 positive)])
            fun ignored => if_neg fun closer => ignored ⟨related, fun _ => closer⟩
        exact ⟨turn.append (ih _).1, (ih _).2⟩
      case isFalse unranked =>
        have turn : SearchOutcome fnCompare current [s] ranked { ranked with current := some s } :=
          searchOutcome_singleton (fun _ => rfl) fun ignored => absurd ⟨related, fun positive => absurd positive unranked⟩ ignored
        exact ⟨turn.stop (by simp) rest, by simp⟩

theorem findRelatedInSubnodes_outcome {p : RectObj K → Bool} {subnode : List (ClusterTreeNode K)}
    (searches : ∀ child ∈ subnode, ∀ ranked,
      SearchOutcome fnCompare current (shapesWhere p child) ranked (findRelatedShapes2 fnCompare current child ranked))
    (ranked : Ranked K) :
    SearchOutcome fnCompare current (subnode.flatMap (shapesWhere p)) ranked
      (findRelatedInSubnodes fnCompare current subnode ranked) := by
  induction subnode generalizing ranked with
  | nil => exact SearchOutcome.nil ranked
  | cons child rest ih =>
    rw [findRelatedInSubnodes, flatMap_cons]
    exact (searches child mem_cons_self ranked).append
      (ih (fun other member => searches other (mem_cons_of_mem _ member)) _)

theorem findRelatedShapes2_outcome (fnCompare : ClusterPoint K → ClusterPoint K → Bool) (current : ClusterPoint K) (node : ClusterTreeNode K)
    (ranked : Ranked K) :
    SearchOutcome fnCompare current (shapesWhere (msRectOverlap · current.bounds) node) ranked
      (findRelatedShapes2 fnCompare current node ranked) := by
  induction node generalizing ranked with
  | node rect shapes subnode ih =>
    rw [findRelatedShapes2, shapesWhere_node]
    cases msRectOverlap rect current.bounds with
    | false => exact SearchOutcome.nil ranked
    | true =>
      obtain ⟨searched, stopped⟩ := findRelatedInNode_outcome fnCompare current shapes ranked
      simp only [Bool.not_true, Bool.false_eq_true, if_false, if_true]
      split
      case h_1 result found =>
        rw [found] at searched stopped
        exact searched.stop (stopped rfl) _
      case h_2 result found =>
        rw [found] at searched
        exact searched.append (findRelatedInSubnodes_outcome ih result)

end Search
end MapServer
