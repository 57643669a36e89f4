import Mathlib.Algebra.Field.Rat
import Mathlib.Data.List.Nodup
import Mathlib.Data.List.Perm.Basic
import MapServer.Spatial.Tree

namespace MapServer
open List Option

section Walk
variable {α : Type}

mutual
def visited (p : RectObj α → Bool) : TreeNodeObj α → List (List Int)
  | .node rect ids subnode => if p rect then ids :: visitedSubnodes p subnode else []

def visitedSubnodes (p : RectObj α → Bool) : List (TreeNodeObj α) → List (List Int)
  | [] => []
  | child :: rest => visited p child ++ visitedSubnodes p rest
end

def nodeIds (node : TreeNodeObj α) : List (List Int) := visited (fun _ => true) node

def idsWhere (p : RectObj α → Bool) (node : TreeNodeObj α) : List Int := (visited p node).flatten

def allIds (node : TreeNodeObj α) : List Int := idsWhere (fun _ => true) node

theorem flatten_visitedSubnodes (p : RectObj α → Bool) (subnode : List (TreeNodeObj α)) :
    (visitedSubnodes p subnode).flatten = subnode.flatMap (idsWhere p) := by
  induction subnode with
  | nil => rfl
  | cons child rest ih => simp [visitedSubnodes, idsWhere, ih]

theorem idsWhere_node (p : RectObj α → Bool) (rect : RectObj α) (ids : List Int)
    (subnode : List (TreeNodeObj α)) :
    idsWhere p (.node rect ids subnode) = if p rect then ids ++ subnode.flatMap (idsWhere p) else [] := by
  rw [idsWhere, visited]
  split
  · rw [flatten_cons, flatten_visitedSubnodes]
  · rfl

theorem allIds_node (rect : RectObj α) (ids : List Int) (subnode : List (TreeNodeObj α)) :
    allIds (.node rect ids subnode) = ids ++ subnode.flatMap allIds :=
  idsWhere_node ..

theorem idsWhere_of_not {p : RectObj α → Bool} {node : TreeNodeObj α} (skipped : p node.rect = false) :
    idsWhere p node = [] := by
  cases node with
  | node rect ids subnode => exact (idsWhere_node ..).trans (if_neg (by simpa using skipped))

theorem flatMap_idsWhere_create (p : RectObj α → Bool) (quads : List (RectObj α)) :
    (quads.map treeNodeCreate).flatMap (idsWhere p) = [] := by
  simp [flatMap_map, treeNodeCreate, idsWhere_node]

end Walk

section Search
variable {α : Type} [LT α] [DecidableLT α]

theorem setShapeBits_append (numshapes : Nat) (ids more : List Int) (status : BitArray) :
    setShapeBits numshapes (ids ++ more) status = setShapeBits numshapes more (setShapeBits numshapes ids status) :=
  foldl_append

theorem msGetBit_setShapeBits {numshapes : Nat} {status : BitArray} (room : numshapes ≤ status.capacity)
    (ids : List Int) (i : Nat) :
    msGetBit (setShapeBits numshapes ids status) i = true ↔
      msGetBit status i = true ∨ (i < numshapes ∧ (i : Int) ∈ ids) := by
  induction ids generalizing status with
  | nil => simp [setShapeBits]
  | cons id rest ih =>
    rw [setShapeBits, foldl_cons]
    change msGetBit (setShapeBits numshapes rest _) i = true ↔ _
    by_cases valid : id ≥ 0 ∧ id < numshapes
    · rw [if_pos valid, ih (by rwa [capacity_set]), msGetBit_set _ _ (by omega)]
      grind
    · rw [if_neg valid, ih room, mem_cons]
      grind

theorem treeCollectSubnodes_eq {aoi : RectObj α} {numshapes : Nat} {subnode : List (TreeNodeObj α)}
    (collects : ∀ child ∈ subnode, ∀ status, treeCollectShapeIds aoi numshapes child status =
      setShapeBits numshapes (idsWhere (msRectOverlap · aoi) child) status) (status : BitArray) :
    treeCollectSubnodes aoi numshapes subnode status =
      setShapeBits numshapes (subnode.flatMap (idsWhere (msRectOverlap · aoi))) status := by
  induction subnode generalizing status with
  | nil => rfl
  | cons child rest ih =>
    rw [treeCollectSubnodes, collects child mem_cons_self,
      ih fun other member => collects other (mem_cons_of_mem _ member)]
    rw [flatMap_cons, setShapeBits_append]

theorem treeCollectShapeIds_eq (aoi : RectObj α) (numshapes : Nat) (node : TreeNodeObj α) (status : BitArray) :
    treeCollectShapeIds aoi numshapes node status =
      setShapeBits numshapes (idsWhere (msRectOverlap · aoi) node) status := by
  induction node generalizing status with
  | node rect ids subnode ih =>
    rw [treeCollectShapeIds, idsWhere_node]
    cases msRectOverlap rect aoi with
    | false => rfl
    | true => simp [treeCollectSubnodes_eq ih, setShapeBits_append]

theorem msGetBit_msSearchTree (tree : TreeObj α) (aoi : RectObj α) (i : Nat) :
    msGetBit (msSearchTree tree aoi) i = true ↔
      i < tree.numshapes ∧ (i : Int) ∈ idsWhere (msRectOverlap · aoi) tree.root := by
  rw [msSearchTree, treeCollectShapeIds_eq, msGetBit_setShapeBits (capacity_alloc _)]
  simp

end Search

section Build
variable {K : Type} [Field K] [LinearOrder K]

omit [Field K] in
theorem addToSubnode_some {add : TreeNodeObj K → TreeNodeObj K} {rect : RectObj K}
    {subnode added : List (TreeNodeObj K)} (found : addToSubnode add rect subnode = some added) :
    ∃ before child after, subnode = before ++ child :: after ∧
      msRectContained rect child.rect = true ∧ added = before ++ add child :: after := by
  induction subnode generalizing added with
  | nil => simp [addToSubnode] at found
  | cons first rest ih =>
    rw [addToSubnode] at found
    split at found
    · rename_i inside
      exact ⟨[], first, rest, rfl, inside, (Option.some.inj found).symm⟩
    · obtain ⟨tail, later, rfl⟩ := map_eq_some_iff.mp found
      obtain ⟨before, child, after, rfl, inside, rfl⟩ := ih later
      exact ⟨first :: before, child, after, rfl, inside, rfl⟩

omit [Field K] in
theorem addToSubnode_none {add : TreeNodeObj K → TreeNodeObj K} {rect : RectObj K}
    {subnode : List (TreeNodeObj K)} (absent : addToSubnode add rect subnode = none) :
    ∀ child ∈ subnode, msRectContained rect child.rect = false := by
  induction subnode with
  | nil => simp
  | cons first rest ih =>
    rw [addToSubnode] at absent
    split at absent
    · simp at absent
    · rename_i outside
      exact forall_mem_cons.mpr ⟨by simpa using outside, ih (map_eq_none_iff.mp absent)⟩

/-- What adding a shape does to a node: the id is put into the node's own list, or it is added to
one subnode that contains the shape. The subnodes are those of the node or four new quads. -/
theorem treeNodeAddShapeId_cases (id : Int) (rect : RectObj K) (depth : Nat) (node : TreeNodeObj K) :
    treeNodeAddShapeId id rect depth node = treeNodeAddId id node.subnode node ∨
    ∃ shallower < depth, ∃ before child after,
      (node.subnode = before ++ child :: after ∨
        (node.subnode = [] ∧ (treeSplitQuads node.rect).map treeNodeCreate = before ++ child :: after)) ∧
      msRectContained rect child.rect = true ∧
      treeNodeAddShapeId id rect depth node =
        .node node.rect node.ids (before ++ treeNodeAddShapeId id rect shallower child :: after) := by
  match depth with
  | 0 | 1 => exact .inl rfl
  | maxdepth + 2 =>
    rw [treeNodeAddShapeId]
    by_cases leaf : node.subnode = []
    · rw [if_neg (by simpa using leaf)]
      split
      · rename_i fits
        dsimp only
        split
        · rename_i found
          obtain ⟨before, child, after, quads, inside, rfl⟩ := addToSubnode_some found
          exact .inr ⟨_, Nat.lt_succ_self _, before, child, after, .inr ⟨leaf, quads⟩, inside, rfl⟩
        · rename_i absent
          -- One of the new quads contains the shape, so the loop over them does not run out.
          obtain ⟨quad, member, inside⟩ := List.any_eq_true.mp fits
          have outside := addToSubnode_none absent _ (List.mem_map_of_mem member)
          exact absurd inside (by simpa [treeNodeCreate] using outside)
      · exact .inl rfl
    · rw [if_pos leaf]
      dsimp only
      split
      · rename_i found
        obtain ⟨before, child, after, same, inside, rfl⟩ := addToSubnode_some found
        exact .inr ⟨_, Nat.lt_succ_self _, before, child, after, .inl same, inside, rfl⟩
      · exact .inl rfl

theorem rect_treeNodeAddShapeId (id : Int) (rect : RectObj K) (depth : Nat) (node : TreeNodeObj K) :
    (treeNodeAddShapeId id rect depth node).rect = node.rect := by
  rcases treeNodeAddShapeId_cases id rect depth node with same | ⟨_, _, _, _, _, _, _, same⟩
  all_goals rw [same]; rfl

/-- Adding a shape adds at most its id to a walk, and does add it when the walk enters the node and
every rectangle around the shape. -/
theorem idsWhere_treeNodeAddShapeId (p : RectObj K → Bool) (id : Int) (rect : RectObj K) (depth : Nat)
    (node : TreeNodeObj K) :
    ∃ placed, (placed = [] ∨ placed = [id]) ∧
      (idsWhere p (treeNodeAddShapeId id rect depth node)).Perm (placed ++ idsWhere p node) ∧
      ((∀ around, msRectContained rect around = true → p around = true) → p node.rect = true → placed = [id]) := by
  induction depth using Nat.strongRecOn generalizing node with
  | ind depth ih =>
    obtain ⟨bounds, ids, subnode⟩ := node
    by_cases enters : p bounds = true
    case neg =>
      refine ⟨[], .inl rfl, ?_, fun _ reached => absurd reached enters⟩
      rw [idsWhere_of_not (by rw [rect_treeNodeAddShapeId]; simpa using enters),
        idsWhere_of_not (by simpa using enters), append_nil]
    case pos =>
      rcases treeNodeAddShapeId_cases id rect depth (.node bounds ids subnode) with same | deeper
      · refine ⟨[id], .inr rfl, ?_, fun _ _ => rfl⟩
        simp only [same, treeNodeAddId, TreeNodeObj.rect_node, idsWhere_node, if_pos enters]
        simp [perm_middle]
      · obtain ⟨shallower, less, before, child, after, subnodes, inside, same⟩ := deeper
        obtain ⟨placed, few, perm, reaches⟩ := ih shallower less child
        refine ⟨placed, few, ?_, fun all _ => reaches all (all _ inside)⟩
        have old : subnode.flatMap (idsWhere p) = (before ++ child :: after).flatMap (idsWhere p) := by
          rcases subnodes with split | ⟨none, quads⟩
          · rw [← split]; rfl
          · rw [← quads, flatMap_idsWhere_create]
            simp only [TreeNodeObj.subnode_node] at none
            rw [none, flatMap_nil]
        simp only [same, TreeNodeObj.rect_node, idsWhere_node, if_pos enters, old]
        simp only [TreeNodeObj.ids_node, flatMap_append, flatMap_cons]
        rw [perm_iff_count] at perm ⊢
        intro other
        have moved := perm other
        simp only [count_append] at moved ⊢
        omega

theorem rect_addShape (tree : TreeObj K) (shape : Option (RectObj K) × Nat) :
    (addShape tree shape).root.rect = tree.root.rect := by
  obtain ⟨_ | bounds, i⟩ := shape
  · rfl
  · exact rect_treeNodeAddShapeId ..

def readableIds (shapes : List (Option (RectObj K) × Nat)) : List Int :=
  shapes.filterMap fun shape => shape.1.map fun _ => (shape.2 : Int)

theorem idsWhere_addShape (p : RectObj K → Bool) (tree : TreeObj K) (shape : Option (RectObj K) × Nat) :
    idsWhere p tree.root ⊆ idsWhere p (addShape tree shape).root := by
  obtain ⟨_ | bounds, i⟩ := shape
  · exact List.Subset.refl _
  · obtain ⟨placed, _, perm, _⟩ := idsWhere_treeNodeAddShapeId p i bounds tree.maxdepth.toNat tree.root
    exact fun id found => perm.mem_iff.mpr (mem_append_right _ found)

theorem idsWhere_addShapes (p : RectObj K → Bool) (shapes : List (Option (RectObj K) × Nat)) (tree : TreeObj K) :
    idsWhere p tree.root ⊆ idsWhere p (shapes.foldl addShape tree).root := by
  induction shapes generalizing tree with
  | nil => exact List.Subset.refl _
  | cons shape rest ih => exact List.Subset.trans (idsWhere_addShape p tree shape) (ih _)

theorem mem_idsWhere_addShapes {p : RectObj K → Bool} {shapes : List (Option (RectObj K) × Nat)}
    {tree : TreeObj K} {rect : RectObj K} {i : Nat} (member : (some rect, i) ∈ shapes)
    (inside : msRectContained rect tree.root.rect = true)
    (enters : ∀ around, msRectContained rect around = true → p around = true) :
    (i : Int) ∈ idsWhere p (shapes.foldl addShape tree).root := by
  induction shapes generalizing tree with
  | nil => simp at member
  | cons shape rest ih =>
    rw [foldl_cons]
    rcases mem_cons.mp member with rfl | member
    · obtain ⟨placed, _, perm, reaches⟩ :=
        idsWhere_treeNodeAddShapeId p i rect tree.maxdepth.toNat tree.root
      refine idsWhere_addShapes p rest _ (perm.mem_iff.mpr (mem_append_left _ ?_))
      rw [reaches enters (enters _ inside)]
      exact mem_singleton_self _
    · exact ih member (by rwa [rect_addShape])

theorem allIds_addShapes (shapes : List (Option (RectObj K) × Nat)) (tree : TreeObj K) :
    (allIds (shapes.foldl addShape tree).root).Perm
      (readableIds shapes ++ allIds tree.root) := by
  induction shapes generalizing tree with
  | nil => exact .refl _
  | cons shape rest ih =>
    rw [foldl_cons]
    refine (ih _).trans ?_
    obtain ⟨_ | bounds, i⟩ := shape
    · exact .refl _
    · obtain ⟨placed, _, perm, reaches⟩ :=
        idsWhere_treeNodeAddShapeId (fun _ => true) i bounds tree.maxdepth.toNat tree.root
      rw [reaches (fun _ _ => rfl) rfl] at perm
      exact (perm.append_left _).trans perm_middle

omit [Field K] [LinearOrder K] in
theorem readableIds_nodup (shapeBounds : List (Option (RectObj K))) :
    (readableIds shapeBounds.zipIdx).Nodup := by
  have distinct : (shapeBounds.zipIdx.map Prod.snd).Nodup := by
    rw [zipIdx_map_snd]
    exact nodup_range' ..
  refine List.Pairwise.filterMap _ ?_ (pairwise_map.mp distinct)
  intro first second differ i hi j hj same
  simp only [map_eq_some_iff] at hi hj
  obtain ⟨_, _, rfl⟩ := hi
  obtain ⟨_, _, rfl⟩ := hj
  exact differ (by exact_mod_cast same)

end Build

section Trim
variable {α : Type}

theorem treeNodeTrim_cases (rect : RectObj α) (ids : List Int) (subnode : List (TreeNodeObj α)) :
    (treeNodeTrim (.node rect ids subnode)).1 = .node rect ids (dropEmptySubnodes (treeTrimSubnodes subnode)) ∧
      ((dropEmptySubnodes (treeTrimSubnodes subnode)).length = 1 → ids ≠ []) ∨
    ∃ child, dropEmptySubnodes (treeTrimSubnodes subnode) = [child] ∧ ids = [] ∧
      (treeNodeTrim (.node rect ids subnode)).1 = child := by
  rw [treeNodeTrim]
  dsimp only [promoteSubnode]
  split
  · rename_i child only
    refine .inr ⟨child, only, rfl, ?_⟩
    cases child
    rfl
  · rename_i other
    refine .inl ⟨rfl, fun single none => ?_⟩
    obtain ⟨child, only⟩ := length_eq_one_iff.mp single
    exact other child only none

theorem treeTrimSubnodes_eq (subnode : List (TreeNodeObj α)) :
    treeTrimSubnodes subnode = subnode.map treeNodeTrim := by
  induction subnode with
  | nil => rfl
  | cons child rest ih => rw [treeTrimSubnodes, ih, map_cons]

theorem trimmed_flag (node : TreeNodeObj α) : (treeNodeTrim node).2 =
    ((treeNodeTrim node).1.subnode.isEmpty && (treeNodeTrim node).1.ids.isEmpty) := by
  cases node
  rw [treeNodeTrim]

theorem trimmed_empty {node : TreeNodeObj α} (empty : (treeNodeTrim node).2 = true) :
    ∃ rect, (treeNodeTrim node).1 = .node rect [] [] := by
  rw [trimmed_flag, Bool.and_eq_true, List.isEmpty_iff, List.isEmpty_iff] at empty
  generalize (treeNodeTrim node).1 = trimmed at empty ⊢
  obtain ⟨rect, ids, subnode⟩ := trimmed
  obtain ⟨rfl, rfl⟩ : subnode = [] ∧ ids = [] := empty
  exact ⟨rect, rfl⟩

theorem flatMap_dropEmptySubnodes {β : Type} (f : TreeNodeObj α → List β)
    (children : List (TreeNodeObj α × Bool)) (bare : ∀ child ∈ children, child.2 = true → f child.1 = []) :
    ((dropEmptySubnodes children).flatMap f).Perm (children.flatMap fun child => f child.1) := by
  induction children using dropEmptySubnodes.induct with
  | case1 => simp [dropEmptySubnodes]
  | case2 child rest ih =>
    rw [dropEmptySubnodes, flatMap_cons, flatMap_cons]
    exact (ih fun other member => bare other (mem_cons_of_mem _ member)).append_left _
  | case3 child rest ih =>
    have moved := moveLastFirst_perm rest
    rw [dropEmptySubnodes, flatMap_cons, bare (child, true) mem_cons_self rfl, nil_append]
    exact (ih fun other member => bare other (mem_cons_of_mem _ (moved.mem_iff.mp member))).trans
      (moved.flatMap_right _)

theorem flatMap_trimmed_subnodes {β : Type} (f : TreeNodeObj α → List β) (bare : ∀ rect, f (.node rect [] []) = [])
    (subnode : List (TreeNodeObj α)) :
    ((dropEmptySubnodes (treeTrimSubnodes subnode)).flatMap f).Perm
      (subnode.flatMap fun child => f (treeNodeTrim child).1) := by
  rw [treeTrimSubnodes_eq]
  refine (flatMap_dropEmptySubnodes f _ ?_).trans (by rw [flatMap_map])
  intro child member empty
  obtain ⟨node, _, rfl⟩ := List.mem_map.mp member
  obtain ⟨rect, same⟩ := trimmed_empty empty
  exact same ▸ bare rect

theorem idsWhere_trimmed_subnodes (p : RectObj α → Bool) (subnode : List (TreeNodeObj α)) :
    ((dropEmptySubnodes (treeTrimSubnodes subnode)).flatMap (idsWhere p)).Perm
      (subnode.flatMap fun child => idsWhere p (treeNodeTrim child).1) :=
  flatMap_trimmed_subnodes _ (fun rect => by simp [idsWhere_node]) subnode

theorem idsWhere_treeNodeTrim (p : RectObj α → Bool) (node : TreeNodeObj α) :
    idsWhere p node ⊆ idsWhere p (treeNodeTrim node).1 := by
  induction node with
  | node rect ids subnode ih =>
    have kept := idsWhere_trimmed_subnodes p subnode
    have below : subnode.flatMap (idsWhere p) ⊆
        (dropEmptySubnodes (treeTrimSubnodes subnode)).flatMap (idsWhere p) := by
      refine List.Subset.trans ?_ kept.symm.subset
      intro id found
      obtain ⟨child, member, found⟩ := mem_flatMap.mp found
      exact mem_flatMap.mpr ⟨child, member, ih child member found⟩
    by_cases enters : p rect = true
    · rw [idsWhere_node, if_pos enters]
      rcases treeNodeTrim_cases rect ids subnode with ⟨same, _⟩ | ⟨child, only, rfl, same⟩
      · rw [same, idsWhere_node, if_pos enters]
        exact append_subset.mpr
          ⟨subset_append_left .., List.Subset.trans below (subset_append_right ..)⟩
      · rw [same]
        rw [only] at below
        simpa using below
    · rw [idsWhere_node, if_neg enters]
      exact nil_subset _

theorem allIds_treeNodeTrim (node : TreeNodeObj α) : (allIds (treeNodeTrim node).1).Perm (allIds node) := by
  induction node with
  | node rect ids subnode ih =>
    have below : ((dropEmptySubnodes (treeTrimSubnodes subnode)).flatMap allIds).Perm (subnode.flatMap allIds) :=
      (idsWhere_trimmed_subnodes _ subnode).trans (Perm.flatMap_left _ ih)
    rw [allIds_node]
    rcases treeNodeTrim_cases rect ids subnode with ⟨same, _⟩ | ⟨child, only, rfl, same⟩
    · rw [same, allIds_node]
      exact below.append_left _
    · rw [same]
      rw [only] at below
      simpa using below

end Trim

theorem countP_mem_of_count_flatten {lists : List (List Int)} {id : Int} (once : lists.flatten.count id = 1) :
    lists.countP (fun ids => id ∈ ids) = 1 := by
  induction lists with
  | nil => simp at once
  | cons ids rest ih =>
    rw [flatten_cons, count_append] at once
    rw [List.countP_cons]
    by_cases here : id ∈ ids
    · have positive := count_pos_iff.mpr here
      have none : id ∉ rest.flatten := count_eq_zero.mp (by omega)
      have nowhere : rest.countP (fun ids => id ∈ ids) = 0 := by
        refine countP_eq_zero.mpr fun other member => ?_
        simpa using fun found => none (mem_flatten.mpr ⟨other, member, found⟩)
      rw [nowhere, if_pos (by simpa using here)]
    · rw [if_neg (by simpa using here)]
      exact ih (by rw [count_eq_zero.mpr here] at once; omega)

section Complete
variable {K : Type} [Field K] [LinearOrder K]

omit [Field K] [LinearOrder K] in
theorem mem_zipIdx_of_shape {shapefile : ShapefileObj K} {i : Nat} {rect : RectObj K}
    (shape : shapefile.shapeBounds[i]? = some (some rect)) :
    (some rect, i) ∈ shapefile.shapeBounds.zipIdx :=
  mem_zipIdx_iff_getElem?.mpr shape

theorem numshapes_foldl_addShape (shapes : List (Option (RectObj K) × Nat)) (tree : TreeObj K) :
    (shapes.foldl addShape tree).numshapes = tree.numshapes := by
  induction shapes generalizing tree with
  | nil => rfl
  | cons shape rest ih =>
    rw [foldl_cons, ih]
    obtain ⟨_ | bounds, i⟩ := shape <;> rfl

theorem numshapes_msCreateTree (shapefile : ShapefileObj K) (maxdepth : Int) :
    (msCreateTree shapefile maxdepth).numshapes = shapefile.numshapes :=
  numshapes_foldl_addShape ..

theorem allIds_msCreateTree (shapefile : ShapefileObj K) (maxdepth : Int) :
    (allIds (msCreateTree shapefile maxdepth).root).Perm
      (readableIds shapefile.shapeBounds.zipIdx) :=
  (allIds_addShapes _ _).trans (by simp [treeNodeCreate, allIds_node])

/-- Searching the tree of a shapefile finds every shape that overlaps the rectangle, before and after
trimming, and the id of every readable shape is in exactly one node. -/
theorem msCreateTree_complete (shapefile : ShapefileObj K) (maxdepth : Int)
    (contained : ∀ rect, some rect ∈ shapefile.shapeBounds → msRectContained rect shapefile.bounds = true) :
    (∀ (aoi : RectObj K) (i : Nat) (rect : RectObj K), shapefile.shapeBounds[i]? = some (some rect) → msRectOverlap rect aoi = true →
      msGetBit (msSearchTree (msCreateTree shapefile maxdepth) aoi) i = true ∧
      msGetBit (msSearchTree (msTreeTrim (msCreateTree shapefile maxdepth)) aoi) i = true) ∧
    (∀ (i : Nat) (rect : RectObj K), shapefile.shapeBounds[i]? = some (some rect) →
      (nodeIds (msCreateTree shapefile maxdepth).root).countP (fun ids => (i : Int) ∈ ids) = 1 ∧
      (nodeIds (msTreeTrim (msCreateTree shapefile maxdepth)).root).countP (fun ids => (i : Int) ∈ ids) = 1) := by
  constructor
  · intro aoi i rect shape meets
    have bound : i < shapefile.numshapes := (List.getElem?_eq_some_iff.mp shape).1
    have inside := contained rect (List.mem_of_getElem? shape)
    have found : (i : Int) ∈ idsWhere (msRectOverlap · aoi) (msCreateTree shapefile maxdepth).root :=
      mem_idsWhere_addShapes (mem_zipIdx_of_shape shape) inside
        fun around outer => overlap_of_contained outer meets
    refine ⟨(msGetBit_msSearchTree ..).mpr ⟨by rwa [numshapes_msCreateTree], found⟩,
      (msGetBit_msSearchTree ..).mpr ⟨?_, idsWhere_treeNodeTrim _ _ found⟩⟩
    change i < (msCreateTree shapefile maxdepth).numshapes
    rwa [numshapes_msCreateTree]
  · intro i rect shape
    have once : (allIds (msCreateTree shapefile maxdepth).root).count (i : Int) = 1 := by
      rw [(allIds_msCreateTree shapefile maxdepth).count_eq]
      refine List.count_eq_one_of_mem (readableIds_nodup _) (List.mem_filterMap.mpr ?_)
      exact ⟨_, mem_zipIdx_of_shape shape, rfl⟩
    exact ⟨countP_mem_of_count_flatten once,
      countP_mem_of_count_flatten (((allIds_treeNodeTrim _).count_eq _).trans once)⟩

def twoShapes : ShapefileObj ℚ where
  bounds := ⟨0, 0, 10, 10⟩
  shapeBounds := [some ⟨1, 1, 2, 2⟩, none, some ⟨4, 4, 6, 6⟩]

theorem msCreateTree_complete_twoShapes :
    msGetBit (msSearchTree (msTreeTrim (msCreateTree twoShapes 0)) ⟨5, 5, 7, 7⟩) 2 = true :=
  ((msCreateTree_complete twoShapes 0 (by simp [twoShapes]; decide)).1
    ⟨5, 5, 7, 7⟩ 2 ⟨4, 4, 6, 6⟩ rfl (by decide)).2

end Complete
end MapServer
