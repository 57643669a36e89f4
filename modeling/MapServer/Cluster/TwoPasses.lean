import MapServer.Cluster.RelatedShapes
import MapServer.Lib.GreedyCover
import Mathlib.Algebra.Order.Field.Basic
import Mathlib.Data.List.Nodup
import Mathlib.Tactic.Linarith

namespace MapServer
variable {K : Type} [Field K] [LinearOrder K]

structure InsideBuffer (settings : ClusterSettings K) (bounds : RectObj K) : Prop where
  across : bounds.minx ≤ bounds.maxx
  along : bounds.miny ≤ bounds.maxy
  inside : msRectContained bounds settings.buffered = true

instance (settings : ClusterSettings K) (bounds : RectObj K) : Decidable (InsideBuffer settings bounds) :=
  decidable_of_iff (bounds.minx ≤ bounds.maxx ∧ bounds.miny ≤ bounds.maxy ∧ msRectContained bounds settings.buffered = true)
    ⟨fun ⟨across, along, inside⟩ => ⟨across, along, inside⟩, fun ⟨across, along, inside⟩ => ⟨across, along, inside⟩⟩

def ReadInside (settings : ClusterSettings K) (point : ClusterPoint K) : Prop :=
  ∃ index shape, InsideBuffer settings shape.1 ∧ settings.point index shape = point

def AtCorner (settings : ClusterSettings K) (head point : ClusterPoint K) : Prop :=
  |point.x - head.x| = settings.maxDistanceX ∧ |point.y - head.y| = settings.maxDistanceY

instance (settings : ClusterSettings K) (head point : ClusterPoint K) : Decidable (AtCorner settings head point) :=
  inferInstanceAs (Decidable (_ ∧ _))

structure ClusterSettings.Positive (settings : ClusterSettings K) : Prop where
  maxdistance : 0 < settings.maxdistance
  cellSizeX : 0 < settings.cellSizeX
  cellSizeY : 0 < settings.cellSizeY

variable {settings : ClusterSettings K} {head point : ClusterPoint K}

theorem CompareEllipseRegion_read (read : ReadInside settings head) (related : CompareEllipseRegion head point = true) :
    (point.x - head.x) * (point.x - head.x) / (settings.maxDistanceX * settings.maxDistanceX) +
      (point.y - head.y) * (point.y - head.y) / (settings.maxDistanceY * settings.maxDistanceY) ≤ 1 := by
  obtain ⟨index, shape, _, rfl⟩ := read
  unfold CompareEllipseRegion at related
  split_ifs at related with _ outside
  simpa [ClusterSettings.point] using outside

theorem compareRegion_cases (region : Option CString) :
    compareRegion (K := K) region = CompareEllipseRegion ∨ compareRegion (K := K) region = CompareRectangleRegion := by
  unfold compareRegion
  split
  · split
    · exact .inl rfl
    · exact .inr rfl
  · exact .inr rfl

variable [IsStrictOrderedRing K]

theorem ClusterSettings.Positive.maxDistanceX (positive : settings.Positive) : 0 < settings.maxDistanceX :=
  mul_pos positive.maxdistance positive.cellSizeX

theorem ClusterSettings.Positive.maxDistanceY (positive : settings.Positive) : 0 < settings.maxDistanceY :=
  mul_pos positive.maxdistance positive.cellSizeY

theorem abs_le_of_square_ratio {d limit rest : K} (positive : 0 < limit) (nonneg : 0 ≤ rest)
    (within : d * d / (limit * limit) + rest ≤ 1) : |d| ≤ limit := by
  have ratio : d * d / (limit * limit) ≤ 1 := (le_add_of_nonneg_right nonneg).trans within
  rw [div_le_one (mul_pos positive positive)] at ratio
  exact abs_le_of_sq_le_sq (by rw [sq, sq]; exact ratio) positive.le

theorem near_of_ellipse (positive : settings.Positive) (read : ReadInside settings head)
    (related : CompareEllipseRegion head point = true) :
    |point.x - head.x| ≤ settings.maxDistanceX ∧ |point.y - head.y| ≤ settings.maxDistanceY := by
  have within := CompareEllipseRegion_read read related
  constructor
  · exact abs_le_of_square_ratio positive.maxDistanceX (div_nonneg (mul_self_nonneg _) (mul_self_nonneg _)) within
  · rw [add_comm] at within
    exact abs_le_of_square_ratio positive.maxDistanceY (div_nonneg (mul_self_nonneg _) (mul_self_nonneg _)) within

theorem near_of_rectangle (read : ReadInside settings head) (related : CompareRectangleRegion head point = true) :
    |point.x - head.x| ≤ settings.maxDistanceX ∧ |point.y - head.y| ≤ settings.maxDistanceY := by
  obtain ⟨index, shape, _, rfl⟩ := read
  unfold CompareRectangleRegion at related
  split_ifs at related with _ left right low high
  simp only [ClusterSettings.point, not_lt] at left right low high ⊢
  constructor
  · exact abs_le.mpr ⟨by linarith, by linarith⟩
  · exact abs_le.mpr ⟨by linarith, by linarith⟩

theorem near_of_related (positive : settings.Positive) (read : ReadInside settings head)
    (related : settings.fnCompare head point = true) :
    |point.x - head.x| ≤ settings.maxDistanceX ∧ |point.y - head.y| ≤ settings.maxDistanceY := by
  unfold ClusterSettings.fnCompare at related
  rcases compareRegion_cases (K := K) settings.region with ellipse | rectangle
  · rw [ellipse] at related
    exact near_of_ellipse positive read related
  · rw [rectangle] at related
    exact near_of_rectangle read related

theorem msRectOverlap_of_related (positive : settings.Positive) (headRead : ReadInside settings head)
    (pointRead : ReadInside settings point) (related : settings.fnCompare head point = true) :
    msRectOverlap head.shapeBounds point.bounds = true := by
  have near := near_of_related positive headRead related
  obtain ⟨_, headShape, ⟨across, along, _⟩, rfl⟩ := headRead
  obtain ⟨_, pointShape, _, rfl⟩ := pointRead
  simp only [ClusterSettings.point, abs_le, msRectOverlap_iff] at near ⊢
  exact ⟨by linarith, by linarith, by linarith, by linarith⟩

theorem msRectOverlap_buffered (positive : settings.Positive) (read : ReadInside settings point) :
    msRectOverlap settings.buffered point.bounds = true := by
  obtain ⟨_, shape, ⟨across, along, inside⟩, rfl⟩ := read
  have wide := positive.maxDistanceX
  have high := positive.maxDistanceY
  refine overlap_of_contained inside (msRectOverlap_iff.mpr ?_)
  simp only [ClusterSettings.point]
  exact ⟨by linarith, by linarith, by linarith, by linarith⟩

theorem add_squares_lt_iff {dx dy limitX limitY : K} (across : |dx| ≤ limitX) (along : |dy| ≤ limitY) :
    dx * dx + dy * dy < limitX * limitX + limitY * limitY ↔ ¬ (|dx| = limitX ∧ |dy| = limitY) := by
  have squareX : dx * dx ≤ limitX * limitX := abs_le_iff_mul_self_le.mp (across.trans (le_abs_self _))
  have squareY : dy * dy ≤ limitY * limitY := abs_le_iff_mul_self_le.mp (along.trans (le_abs_self _))
  constructor
  · rintro closer ⟨rfl, rfl⟩
    rw [abs_mul_abs_self, abs_mul_abs_self] at closer
    exact lt_irrefl _ closer
  · intro inner
    rcases across.lt_or_eq with less | same
    · exact add_lt_add_of_lt_of_le (abs_lt_iff_mul_self_lt.mp (less.trans_le (le_abs_self _))) squareY
    · have less : |dy| < limitY := along.lt_of_ne fun equal => inner ⟨same, equal⟩
      exact add_lt_add_of_le_of_lt squareX (abs_lt_iff_mul_self_lt.mp (less.trans_le (le_abs_self _)))

theorem squaredDistance_lt_iff (positive : settings.Positive) (read : ReadInside settings head)
    (related : settings.fnCompare head point = true) :
    squaredDistance point head < settings.maxDistanceX * settings.maxDistanceX + settings.maxDistanceY * settings.maxDistanceY ↔
      ¬ AtCorner settings head point := by
  obtain ⟨across, along⟩ := near_of_related positive read related
  exact add_squares_lt_iff across along

end MapServer

open Lib.GreedyCover

namespace MapServer
variable {K : Type} [Field K] [LinearOrder K]

def loneCluster (point : ClusterPoint K) : ClusterInfo K := { toClusterPoint := point, numsiblings := 0, siblings := [] }

def ClusterPoint.asRead (point : ClusterPoint K) : ClusterPoint K := { point with avgx := point.x, avgy := point.y }

def ClusterInfo.members (s : ClusterInfo K) : List (ClusterPoint K) := s.toClusterPoint :: s.siblings.map ClusterPoint.asRead

def Attracts (settings : ClusterSettings K) (head point : ClusterPoint K) : Prop :=
  settings.fnCompare head point = true ∧ ¬ AtCorner settings head point

structure SearchTree (settings : ClusterSettings K) (root : ClusterTreeNode K) : Prop where
  rect : root.rect = settings.buffered
  reachable : Reachable root
  read : ∀ s ∈ allShapes root, ReadInside settings s.toClusterPoint

omit [Field K] [LinearOrder K] in
theorem mem_heads {root : ClusterTreeNode K} {heads : List (ClusterPoint K)}
    (perm : ((allShapes root).map ClusterInfo.toClusterPoint).Perm heads) {head : ClusterPoint K} :
    head ∈ heads ↔ ∃ s ∈ allShapes root, s.toClusterPoint = head :=
  perm.mem_iff.symm.trans List.mem_map

section Search
variable [IsStrictOrderedRing K] {settings : ClusterSettings K} {root : ClusterTreeNode K} {current : ClusterPoint K} {rank : K}

theorem SearchTree.mem_visited (tree : SearchTree settings root) (positive : settings.Positive)
    (read : ReadInside settings current) {s : ClusterInfo K} (member : s ∈ allShapes root)
    (related : settings.fnCompare s.toClusterPoint current = true) :
    s ∈ shapesWhere (msRectOverlap · current.bounds) root := by
  refine tree.reachable _ ?_ s member fun around outer => ?_
  · rw [tree.rect]
    exact msRectOverlap_buffered positive read
  · exact overlap_of_contained outer (msRectOverlap_of_related positive (tree.read s member) read related)

theorem SearchTree.finds_none (tree : SearchTree settings root) (positive : settings.Positive)
    (read : ReadInside settings current) :
    (findRelatedShapes2 settings.fnCompare current root { current := none, rank }).current = none ↔
      ∀ s ∈ allShapes root, ¬ Accepts settings.fnCompare current rank s := by
  have searched := findRelatedShapes2_outcome settings.fnCompare current root { current := none, rank }
  constructor
  · intro nothing s member accepts
    exact searched.missed nothing s (tree.mem_visited positive read member accepts.1) accepts
  · intro missed
    rw [searched.unchanged fun s member => missed s (shapesWhere_subset _ _ member)]

omit [IsStrictOrderedRing K] in
theorem finds_some {s : ClusterInfo K}
    (found : (findRelatedShapes2 settings.fnCompare current root { current := none, rank }).current = some s) :
    s ∈ allShapes root ∧ settings.fnCompare s.toClusterPoint current = true := by
  rcases (findRelatedShapes2_outcome settings.fnCompare current root
    { current := none, rank }).found with same | ⟨other, member, isOther, related⟩
  · rw [found] at same
    cases same
  · rw [found] at isOther
    obtain rfl := Option.some.inj isOther
    exact ⟨shapesWhere_subset _ _ member, related⟩

theorem SearchTree.finds_unranked (tree : SearchTree settings root) (positive : settings.Positive)
    (read : ReadInside settings current) {heads : List (ClusterPoint K)}
    (perm : ((allShapes root).map ClusterInfo.toClusterPoint).Perm heads) :
    (findRelatedShapes2 settings.fnCompare current root { current := none, rank := 0 }).current = none ↔
      heads.any (settings.fnCompare · current) = false := by
  rw [tree.finds_none positive read, List.any_eq_false]
  constructor
  · intro missed head member related
    obtain ⟨s, among, rfl⟩ := (mem_heads perm).mp member
    exact missed s among ⟨related, fun below => absurd below (lt_irrefl 0)⟩
  · intro apart s member accepts
    exact apart _ ((mem_heads perm).mpr ⟨s, member, rfl⟩) accepts.1

theorem SearchTree.finds_ranked (tree : SearchTree settings root) (positive : settings.Positive)
    (read : ReadInside settings current) {heads : List (ClusterPoint K)}
    (perm : ((allShapes root).map ClusterInfo.toClusterPoint).Perm heads) :
    (findRelatedShapes2 settings.fnCompare current root
        { current := none
          rank := settings.maxDistanceX * settings.maxDistanceX + settings.maxDistanceY * settings.maxDistanceY }).current = none ↔
      ¬ ∃ head ∈ heads, Attracts settings head current := by
  have ranked := add_pos (mul_self_pos.mpr positive.maxDistanceX.ne') (mul_self_pos.mpr positive.maxDistanceY.ne')
  rw [tree.finds_none positive read, not_exists]
  constructor
  · rintro missed head ⟨member, related, inner⟩
    obtain ⟨s, among, rfl⟩ := (mem_heads perm).mp member
    exact missed s among
      ⟨related, fun _ => (squaredDistance_lt_iff positive (tree.read s among) related).mpr inner⟩
  · rintro none s member ⟨related, closer⟩
    exact none _ ⟨(mem_heads perm).mpr ⟨s, member, rfl⟩, related,
      (squaredDistance_lt_iff positive (tree.read s member) related).mp (closer ranked)⟩

end Search

structure Retrieved (settings : ClusterSettings K) (points : List (ClusterPoint K)) (layerinfo : MsClusterLayerInfo K) : Prop where
  tree : SearchTree settings layerinfo.root
  heads : (allShapes layerinfo.root).Perm ((greedyCover settings.fnCompare points).leaders.map loneCluster)
  stored : layerinfo.finalizedSiblings = (greedyCover settings.fnCompare points).followers
  finalized : layerinfo.finalized = []
  filtered : layerinfo.filtered = []

theorem Retrieved.leaders {settings : ClusterSettings K} {points : List (ClusterPoint K)} {layerinfo : MsClusterLayerInfo K}
    (retrieved : Retrieved settings points layerinfo) :
    ((allShapes layerinfo.root).map ClusterInfo.toClusterPoint).Perm (greedyCover settings.fnCompare points).leaders := by
  have heads := retrieved.heads.map ClusterInfo.toClusterPoint
  rw [List.map_map] at heads
  exact heads.trans (.of_eq (List.map_id _))

theorem SearchTree.treeNodeAddShape {settings : ClusterSettings K} {root : ClusterTreeNode K} (tree : SearchTree settings root)
    {point : ClusterPoint K} (read : ReadInside settings point) :
    SearchTree settings (treeNodeAddShape (loneCluster point) settings.depth root) where
  rect := (rect_treeNodeAddShape ..).trans tree.rect
  reachable := tree.reachable.treeNodeAddShape _ _
  read := by
    intro s member
    rcases List.mem_cons.mp ((allShapes_treeNodeAddShape ..).mem_iff.mp member) with rfl | old
    · exact read
    · exact tree.read s old

section Passes
variable [IsStrictOrderedRing K] {settings : ClusterSettings K}

theorem Retrieved.addPoint (positive : settings.Positive) {points : List (ClusterPoint K)} {layerinfo : MsClusterLayerInfo K}
    (retrieved : Retrieved settings points layerinfo) {current : ClusterPoint K} (read : ReadInside settings current) :
    Retrieved settings (points ++ [current]) (addPoint settings layerinfo current) := by
  have searched := retrieved.tree.finds_unranked positive read retrieved.leaders
  obtain ⟨tree, heads, stored, finalized, filtered⟩ := retrieved
  rw [MapServer.addPoint, msRectOverlap_buffered positive read, Bool.not_true, if_neg Bool.false_ne_true]
  split
  case h_1 s found =>
    have covered : (greedyCover settings.fnCompare points).leaders.any (settings.fnCompare · current) = true := by
      rw [← Bool.not_eq_false, ← searched, found]
      exact Option.some_ne_none s
    refine ⟨tree, ?_, ?_, finalized, filtered⟩
    all_goals rw [greedyCover_concat, takeNext, if_pos covered]
    · exact heads
    · exact congrArg (current :: ·) stored
  case h_2 missed =>
    have uncovered := Bool.not_eq_true _ ▸ searched.mp missed
    refine ⟨tree.treeNodeAddShape read, ?_, ?_, finalized, filtered⟩
    all_goals rw [greedyCover_concat, takeNext, if_neg uncovered]
    · exact (allShapes_treeNodeAddShape ..).trans (heads.cons _)
    · exact stored

theorem retrieved_foldl (positive : settings.Positive) {points : List (ClusterPoint K)} (read : ∀ point ∈ points, ReadInside settings point) :
    Retrieved settings points (points.foldl (MapServer.addPoint settings)
      { root := clusterTreeNodeCreate settings.buffered, finalized := [], finalizedSiblings := [], filtered := [] }) := by
  induction points using List.reverseRecOn with
  | nil =>
    refine ⟨⟨rfl, reachable_create _, ?_⟩, ?_, rfl, rfl, rfl⟩
    · simp [allShapes_create]
    · exact .of_eq (allShapes_create _)
  | append_singleton points current ih =>
    rw [List.foldl_concat]
    exact (ih fun point member => read point (List.mem_append_left _ member)).addPoint positive
      (read current List.mem_concat_self)

end Passes

omit [Field K] [LinearOrder K] in
theorem members_addSibling (current : ClusterPoint K) (s : ClusterInfo K) :
    (addSibling current s).members.Perm (current.asRead :: s.members) :=
  List.Perm.swap ..

omit [Field K] [LinearOrder K] in
theorem flatMap_members_addSibling {shapes : List (ClusterInfo K)} (distinct : (shapes.map (·.index)).Nodup)
    {s : ClusterInfo K} (member : s ∈ shapes) (current : ClusterPoint K) :
    ((shapes.map fun other => if other.index = s.index then addSibling current other else other).flatMap ClusterInfo.members).Perm
      (current.asRead :: shapes.flatMap ClusterInfo.members) := by
  induction shapes with
  | nil => exact absurd member List.not_mem_nil
  | cons first rest ih =>
    rw [List.map_cons, List.nodup_cons] at distinct
    obtain ⟨fresh, distinct⟩ := distinct
    rw [List.map_cons, List.flatMap_cons, List.flatMap_cons]
    rcases List.mem_cons.mp member with rfl | later
    · have others : (rest.map fun other => if other.index = s.index then addSibling current other else other) = rest := by
        refine (List.map_congr_left fun other among => if_neg fun same => fresh ?_).trans (List.map_id _)
        exact same ▸ List.mem_map_of_mem among
      rw [if_pos rfl, others]
      exact (members_addSibling current s).append_right _
    · have other : first.index ≠ s.index := fun same => fresh (same ▸ List.mem_map_of_mem later)
      rw [if_neg other]
      exact ((ih distinct later).append_left _).trans List.perm_middle

structure Assigned (settings : ClusterSettings K) (heads points : List (ClusterPoint K)) (layerinfo : MsClusterLayerInfo K) :
    Prop where
  tree : SearchTree settings layerinfo.root
  leaders : ((allShapes layerinfo.root).map ClusterInfo.toClusterPoint).Perm heads
  related : ∀ s ∈ allShapes layerinfo.root, ∀ sibling ∈ s.siblings, settings.fnCompare s.toClusterPoint sibling = true
  accounted : ((allShapes layerinfo.root).flatMap ClusterInfo.members ++ layerinfo.filtered.map ClusterInfo.toClusterPoint).Perm
    (heads ++ points)
  filtered : layerinfo.filtered = [] ↔ ∀ point ∈ points, ∃ head ∈ heads, Attracts settings head point
  finalized : layerinfo.finalized = []

theorem ReadInside.filter {settings : ClusterSettings K} {point : ClusterPoint K} (read : ReadInside settings point) :
    point.filter = -1 := by
  obtain ⟨index, shape, _, rfl⟩ := read
  rfl

theorem ReadInside.asRead {settings : ClusterSettings K} {point : ClusterPoint K} (read : ReadInside settings point) :
    point.asRead = point := by
  obtain ⟨index, shape, _, rfl⟩ := read
  rfl

theorem SearchTree.addSibling {settings : ClusterSettings K} {root : ClusterTreeNode K} (tree : SearchTree settings root)
    (index : Nat) (current : ClusterPoint K) : SearchTree settings (changeShape index (addSibling current) root) where
  rect := (rect_changeShape ..).trans tree.rect
  reachable := tree.reachable.changeShape index fun _ => rfl
  read := by
    intro s member
    rw [allShapes, shapesWhere_changeShape] at member
    obtain ⟨old, among, rfl⟩ := List.mem_map.mp member
    have read := tree.read old among
    split
    · exact read
    · exact read

section Passes
variable [IsStrictOrderedRing K] {settings : ClusterSettings K} {heads : List (ClusterPoint K)}

theorem Assigned.assignPoint (positive : settings.Positive) (distinct : (heads.map (·.index)).Nodup)
    {points : List (ClusterPoint K)} {layerinfo : MsClusterLayerInfo K} (assigned : Assigned settings heads points layerinfo)
    {current : ClusterPoint K} (read : ReadInside settings current) :
    Assigned settings heads (points ++ [current]) (assignPoint settings layerinfo current) := by
  have searched := assigned.tree.finds_ranked positive read assigned.leaders
  obtain ⟨tree, perm, related, accounted, filtered, finalized⟩ := assigned
  rw [MapServer.assignPoint]
  split
  case h_2 missed =>
    have unattracted := searched.mp missed
    refine ⟨tree, perm, related, ?_, ?_, finalized⟩
    · rw [← List.append_assoc]
      exact List.perm_middle.trans ((accounted.cons current).trans (List.perm_append_singleton ..).symm)
    · refine iff_of_false (List.cons_ne_nil _ _) fun all => unattracted (all current List.mem_concat_self)
  case h_1 s found =>
    have attracted : ∃ head ∈ heads, Attracts settings head current := by
      rw [← not_not (a := ∃ head ∈ heads, _), ← searched, found]
      exact Option.some_ne_none s
    obtain ⟨member, isRelated⟩ := finds_some found
    have indices : ((allShapes layerinfo.root).map (·.index)).Nodup := by
      have mapped := (perm.map (·.index)).nodup_iff.mpr distinct
      rwa [List.map_map] at mapped
    refine ⟨tree.addSibling _ _, ?_, ?_, ?_, ?_, finalized⟩
    · refine List.Perm.trans (.of_eq ?_) perm
      rw [allShapes, shapesWhere_changeShape, List.map_map]
      refine List.map_congr_left fun other _ => ?_
      dsimp only [Function.comp]
      split <;> rfl
    · intro other among sibling isSibling
      rw [allShapes, shapesWhere_changeShape] at among
      obtain ⟨old, kept, rfl⟩ := List.mem_map.mp among
      split at isSibling
      case isFalse different =>
        rw [if_neg different]
        exact related old kept sibling isSibling
      case isTrue same =>
        rw [if_pos same]
        obtain rfl := List.inj_on_of_nodup_map indices kept member same
        rcases List.mem_cons.mp isSibling with rfl | earlier
        · exact isRelated
        · exact related old kept sibling earlier
    · rw [allShapes, shapesWhere_changeShape]
      have added := (flatMap_members_addSibling indices member current).append_right
        (layerinfo.filtered.map ClusterInfo.toClusterPoint)
      rw [read.asRead] at added
      rw [← List.append_assoc]
      exact added.trans ((accounted.cons current).trans (List.perm_append_singleton ..).symm)
    · rw [List.forall_mem_append, List.forall_mem_singleton, ← filtered]
      exact (and_iff_left attracted).symm

theorem assigned_foldl (positive : settings.Positive) (distinct : (heads.map (·.index)).Nodup)
    {points : List (ClusterPoint K)} {layerinfo : MsClusterLayerInfo K} (start : Assigned settings heads [] layerinfo)
    (read : ∀ point ∈ points, ReadInside settings point) :
    Assigned settings heads points (points.foldl (MapServer.assignPoint settings) layerinfo) := by
  induction points using List.reverseRecOn with
  | nil => exact start
  | append_singleton points current ih =>
    rw [List.foldl_concat]
    exact (ih fun point member => read point (List.mem_append_left _ member)).assignPoint positive distinct
      (read current List.mem_concat_self)

end Passes
end MapServer
