import MapServer.Cluster.TwoPasses

open Lib.GreedyCover

namespace MapServer
open List
variable {K : Type}

def positioned (s : ClusterInfo K) : ClusterInfo K :=
  { s with siblings := s.siblings.map fun current => { current with avgx := s.x, avgy := s.y } }

theorem collectInSubnodes_eq {subnode : List (ClusterTreeNode K)}
    (collects : ∀ child ∈ subnode, ∀ layerinfo, collectClusterShapes2 child layerinfo = (allShapes child).foldl collectShape layerinfo)
    (layerinfo : MsClusterLayerInfo K) :
    collectInSubnodes subnode layerinfo = (subnode.flatMap allShapes).foldl collectShape layerinfo := by
  induction subnode generalizing layerinfo with
  | nil => rfl
  | cons child rest ih =>
    rw [collectInSubnodes, collects child mem_cons_self, ih fun other member => collects other (mem_cons_of_mem _ member)]
    rw [flatMap_cons, foldl_append]

theorem collectClusterShapes2_eq (node : ClusterTreeNode K) (layerinfo : MsClusterLayerInfo K) :
    collectClusterShapes2 node layerinfo = (allShapes node).foldl collectShape layerinfo := by
  induction node generalizing layerinfo with
  | node rect shapes subnode ih =>
    rw [collectClusterShapes2, collectInSubnodes_eq ih, allShapes_node, foldl_append]

theorem foldl_collectShape {shapes : List (ClusterInfo K)} (unfiltered : ∀ s ∈ shapes, s.filter ≠ 0)
    (layerinfo : MsClusterLayerInfo K) :
    shapes.foldl collectShape layerinfo =
      { layerinfo with finalized := (shapes.map positioned).reverse ++ layerinfo.finalized } := by
  induction shapes generalizing layerinfo with
  | nil => rfl
  | cons s rest ih =>
    rw [forall_mem_cons] at unfiltered
    rw [foldl_cons, ih unfiltered.2, collectShape, if_pos unfiltered.1]
    simp [positioned]

theorem members_positioned (s : ClusterInfo K) : (positioned s).members = s.members := by
  simp only [positioned, ClusterInfo.members, List.map_map]
  rfl

variable [Field K] [LinearOrder K]

theorem fnCompare_positioned (settings : ClusterSettings K) {s : ClusterInfo K}
    (related : ∀ sibling ∈ s.siblings, settings.fnCompare s.toClusterPoint sibling = true) :
    ∀ sibling ∈ (positioned s).siblings, settings.fnCompare (positioned s).toClusterPoint sibling = true := by
  intro sibling member
  obtain ⟨current, among, rfl⟩ := List.mem_map.mp member
  have isRelated := related current among
  unfold ClusterSettings.fnCompare at isRelated ⊢
  rcases compareRegion_cases (K := K) settings.region with ellipse | rectangle
  · rw [ellipse] at isRelated ⊢
    exact isRelated
  · rw [rectangle] at isRelated ⊢
    exact isRelated

def ClusterSettings.points (settings : ClusterSettings K) (shapes : List (RectObj K × Option CString)) : List (ClusterPoint K) :=
  shapes.zipIdx.map fun (shape, index) => settings.point index shape

/-- Each point is the head of one cluster or in the list of one, whose head is related to it. -/
structure Lossless (settings : ClusterSettings K) (points : List (ClusterPoint K)) (layerinfo : MsClusterLayerInfo K) : Prop where
  once : (layerinfo.finalized.flatMap ClusterInfo.members).Perm points
  related : ∀ s ∈ layerinfo.finalized, ∀ sibling ∈ s.siblings, settings.fnCompare s.toClusterPoint sibling = true
  filtered : layerinfo.filtered = []

section Lossless
variable {settings : ClusterSettings K} {shapes : List (RectObj K × Option CString)}

theorem readInside_points (inside : ∀ shape ∈ shapes, InsideBuffer settings shape.1) :
    ∀ point ∈ settings.points shapes, ReadInside settings point := by
  intro point member
  obtain ⟨⟨shape, index⟩, among, rfl⟩ := List.mem_map.mp member
  exact ⟨index, shape, inside shape (fst_mem_of_mem_zipIdx among), rfl⟩

omit [LinearOrder K] in
theorem nodup_index_points : ((settings.points shapes).map (·.index)).Nodup := by
  have indices : (settings.points shapes).map (·.index) = shapes.zipIdx.map Prod.snd := List.map_map ..
  rw [indices, zipIdx_map_snd]
  exact nodup_range' ..

variable [IsStrictOrderedRing K]

theorem exists_assigned (positive : settings.Positive) (inside : ∀ shape ∈ shapes, InsideBuffer settings shape.1) :
    ∃ layerinfo, Assigned settings (greedyCover settings.fnCompare (settings.points shapes)).leaders
        (greedyCover settings.fnCompare (settings.points shapes)).followers layerinfo ∧
      RebuildClusters settings shapes = collectClusterShapes2 layerinfo.root layerinfo := by
  have read := readInside_points inside
  have retrieved := retrieved_foldl positive read
  have perm := greedyCover_perm settings.fnCompare (settings.points shapes)
  have distinct : ((greedyCover settings.fnCompare (settings.points shapes)).leaders.map (·.index)).Nodup := by
    have all := (perm.map (·.index)).nodup_iff.mpr nodup_index_points
    rw [map_append] at all
    exact all.of_append_left
  generalize isRetrieved : (settings.points shapes).foldl (addPoint settings) _ = layerinfo at retrieved
  have lone : ∀ s ∈ allShapes layerinfo.root, ∃ point, loneCluster point = s := by
    intro s member
    obtain ⟨point, _, isLone⟩ := List.mem_map.mp (retrieved.heads.mem_iff.mp member)
    exact ⟨point, isLone⟩
  have start : Assigned settings (greedyCover settings.fnCompare (settings.points shapes)).leaders []
      { layerinfo with finalizedSiblings := [] } := by
    refine ⟨retrieved.tree, retrieved.leaders, ?_, ?_, ?_, retrieved.finalized⟩
    · intro s member sibling isSibling
      obtain ⟨point, rfl⟩ := lone s member
      exact absurd isSibling not_mem_nil
    · have heads := retrieved.heads.flatMap_right ClusterInfo.members
      rw [flatMap_map] at heads
      simpa [retrieved.filtered, loneCluster, ClusterInfo.members] using heads
    · simp [retrieved.filtered]
  refine ⟨_, assigned_foldl positive distinct start fun point member => read point ?_, ?_⟩
  · exact perm.mem_iff.mp (mem_append_right _ member)
  · rw [← retrieved.stored, ← isRetrieved]
    rfl

/-- Every point is in one cluster or filtered, and what is filtered are the followers that no leader attracts. -/
theorem RebuildClusters_accounted (positive : settings.Positive) (inside : ∀ shape ∈ shapes, InsideBuffer settings shape.1) :
    ((RebuildClusters settings shapes).finalized.flatMap ClusterInfo.members ++
      (RebuildClusters settings shapes).filtered.map ClusterInfo.toClusterPoint).Perm (settings.points shapes) ∧
    (∀ s ∈ (RebuildClusters settings shapes).finalized, ∀ sibling ∈ s.siblings,
      settings.fnCompare s.toClusterPoint sibling = true) ∧
    ((RebuildClusters settings shapes).filtered = [] ↔
      ∀ point ∈ (greedyCover settings.fnCompare (settings.points shapes)).followers,
        ∃ head ∈ (greedyCover settings.fnCompare (settings.points shapes)).leaders, Attracts settings head point) := by
  obtain ⟨layerinfo, assigned, isRebuilt⟩ := exists_assigned positive inside
  have unfiltered : ∀ s ∈ allShapes layerinfo.root, s.filter ≠ 0 := by
    intro s member
    rw [(assigned.tree.read s member).filter]
    decide
  rw [isRebuilt, collectClusterShapes2_eq, foldl_collectShape unfiltered, assigned.finalized, append_nil]
  refine ⟨?_, ?_, assigned.filtered⟩
  · refine Perm.trans ?_ (assigned.accounted.trans (greedyCover_perm settings.fnCompare (settings.points shapes)))
    refine Perm.append_right _ (((reverse_perm _).flatMap_right _).trans (.of_eq ?_))
    rw [flatMap_map]
    exact flatMap_congr fun s _ => members_positioned s
  · intro s member
    obtain ⟨old, among, rfl⟩ := List.mem_map.mp (mem_reverse.mp member)
    exact fnCompare_positioned settings (assigned.related old among)

/-- The simple clustering loses no point exactly when every point that does not lead a cluster has a leader that is related to it
and has it away from the corners of its region. -/
theorem RebuildClusters_lossless_iff (positive : settings.Positive) (inside : ∀ shape ∈ shapes, InsideBuffer settings shape.1) :
    Lossless settings (settings.points shapes) (RebuildClusters settings shapes) ↔
      ∀ point ∈ (greedyCover settings.fnCompare (settings.points shapes)).followers,
        ∃ head ∈ (greedyCover settings.fnCompare (settings.points shapes)).leaders,
          settings.fnCompare head point = true ∧ ¬ AtCorner settings head point := by
  obtain ⟨accounted, related, filtered⟩ := RebuildClusters_accounted positive inside
  constructor
  · intro lossless
    exact filtered.mp lossless.filtered
  · intro attracted
    have nothing := filtered.mpr attracted
    rw [nothing, map_nil, append_nil] at accounted
    exact ⟨accounted, related, nothing⟩

end Lossless

def pixelSettings : ClusterSettings ℚ where
  searchrect := ⟨0, 0, 99, 99⟩
  cellSizeX := 1
  cellSizeY := 1
  maxdistance := 1
  buffer := 0
  region := none
  depth := 7

theorem RebuildClusters_lossless_neighbours :
    Lossless pixelSettings (pixelSettings.points [(⟨10, 10, 10, 10⟩, none), (⟨11, 10, 11, 10⟩, none)])
      (RebuildClusters pixelSettings [(⟨10, 10, 10, 10⟩, none), (⟨11, 10, 11, 10⟩, none)]) :=
  (RebuildClusters_lossless_iff ⟨by decide, by decide, by decide⟩ (by decide +kernel)).mpr (by decide +kernel)

/-- The second point is related to the first and as far from it as the initial rank. -/
theorem RebuildClusters_corner_lost :
    pixelSettings.Positive ∧
    (∀ shape ∈ [((⟨10, 10, 10, 10⟩ : RectObj ℚ), (none : Option CString)), (⟨11, 11, 11, 11⟩, none)],
      InsideBuffer pixelSettings shape.1) ∧
    ¬ Lossless pixelSettings (pixelSettings.points [(⟨10, 10, 10, 10⟩, none), (⟨11, 11, 11, 11⟩, none)])
      (RebuildClusters pixelSettings [(⟨10, 10, 10, 10⟩, none), (⟨11, 11, 11, 11⟩, none)]) := by
  refine ⟨⟨by decide, by decide, by decide⟩, by decide +kernel, fun lossless => ?_⟩
  exact absurd lossless.filtered (by decide +kernel)

end MapServer
