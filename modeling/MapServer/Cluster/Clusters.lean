import MapServer.Spatial.Tree
import MapServer.Text

/-!
`RebuildClusters` for `CLUSTER_ALGORITHM=SIMPLE` without a filter and without `CLUSTER_GET_ALL_SHAPES`, on exact coordinates.
-/

namespace MapServer

/-- A `clusterInfo` as far as a point goes. `index` stands for its address. -/
structure ClusterPoint (K : Type) where
  index : Nat
  x : K
  y : K
  avgx : K
  avgy : K
  shapeBounds : RectObj K
  bounds : RectObj K
  group : Option CString
  filter : Int
  deriving DecidableEq

/-- A `clusterInfo`. Its siblings have no siblings. -/
structure ClusterInfo (K : Type) extends ClusterPoint K where
  numsiblings : Nat
  siblings : List (ClusterPoint K)
  deriving DecidableEq

inductive ClusterTreeNode (K : Type) where
  | node (rect : RectObj K) (shapes : List (ClusterInfo K)) (subnode : List (ClusterTreeNode K))

namespace ClusterTreeNode
variable {K : Type}

def rect : ClusterTreeNode K → RectObj K
  | node rect _ _ => rect

@[elab_as_elim, induction_eliminator]
theorem induct {motive : ClusterTreeNode K → Prop}
    (node : ∀ rect shapes subnode, (∀ child ∈ subnode, motive child) → motive (.node rect shapes subnode))
    (root : ClusterTreeNode K) : motive root :=
  @ClusterTreeNode.rec K motive (fun children => ∀ child ∈ children, motive child)
    (fun rect shapes subnode ih => node rect shapes subnode ih) (by simp)
    (fun child rest ih ihs => List.forall_mem_cons.mpr ⟨ih, ihs⟩) root

end ClusterTreeNode

variable {K : Type} [Field K] [LinearOrder K]

def otherGroup (current other : ClusterPoint K) : Bool :=
  match current.group, other.group with
  | some one, some two => !sameIgnoringCase one two
  | _, _ => false

def CompareEllipseRegion (current other : ClusterPoint K) : Bool :=
  if otherGroup current other then false
  else if (other.x - current.x) * (other.x - current.x) /
        ((current.bounds.maxx - current.x) * (current.bounds.maxx - current.x)) +
      (other.y - current.y) * (other.y - current.y) /
        ((current.bounds.maxy - current.y) * (current.bounds.maxy - current.y)) > 1 then false
  else true

def CompareRectangleRegion (current other : ClusterPoint K) : Bool :=
  if otherGroup current other then false
  else if other.x < current.bounds.minx then false
  else if other.x > current.bounds.maxx then false
  else if other.y < current.bounds.miny then false
  else if other.y > current.bounds.maxy then false
  else true

def compareRegion (region : Option CString) : ClusterPoint K → ClusterPoint K → Bool :=
  match region with
  | some text => if sameIgnoringCase text (ascii "ellipse") then CompareEllipseRegion else CompareRectangleRegion
  | none => CompareRectangleRegion

def clusterTreeNodeCreate (rect : RectObj K) : ClusterTreeNode K := .node rect [] []

/-- The loop over the subnodes: `add` on the first one that contains `bounds`, if there is one. -/
def addToFirst (add : ClusterTreeNode K → ClusterTreeNode K) (bounds : RectObj K) :
    List (ClusterTreeNode K) → Option (List (ClusterTreeNode K))
  | [] => none
  | child :: rest =>
    if msRectContained bounds child.rect then some (add child :: rest) else (addToFirst add bounds rest).map (child :: ·)

def treeNodeAddShape (shape : ClusterInfo K) : Nat → ClusterTreeNode K → ClusterTreeNode K
  | 0, .node rect shapes subnode | 1, .node rect shapes subnode => .node rect (shape :: shapes) subnode
  | depth + 2, .node rect shapes subnode =>
    -- Without subnodes there are four new ones, if one of them contains the shape.
    let places := if subnode = [] then (treeSplitQuads rect).map clusterTreeNodeCreate else subnode
    match addToFirst (treeNodeAddShape shape (depth + 1)) shape.shapeBounds places with
    | some added => .node rect shapes added
    | none => .node rect (shape :: shapes) subnode

/-- The members `current` and `rank` of the layer info. -/
structure Ranked (K : Type) where
  current : Option (ClusterInfo K)
  rank : K

def squaredDistance (current s : ClusterPoint K) : K :=
  (current.x - s.x) * (current.x - s.x) + (current.y - s.y) * (current.y - s.y)

section Find
variable (fnCompare : ClusterPoint K → ClusterPoint K → Bool) (current : ClusterPoint K)

def findRelatedInNode : List (ClusterInfo K) → Ranked K → Ranked K × Bool
  | [], ranked => (ranked, false)
  | s :: rest, ranked =>
    if fnCompare s.toClusterPoint current then
      if ranked.rank > 0 then
        let r := squaredDistance current s.toClusterPoint
        findRelatedInNode rest (if r < ranked.rank then { current := some s, rank := r } else ranked)
      else ({ ranked with current := some s }, true)
    else findRelatedInNode rest ranked

mutual
def findRelatedShapes2 : ClusterTreeNode K → Ranked K → Ranked K
  | .node rect shapes subnode, ranked =>
    if !msRectOverlap rect current.bounds then ranked
    else
      match findRelatedInNode fnCompare current shapes ranked with
      | (ranked, true) => ranked
      | (ranked, false) => findRelatedInSubnodes subnode ranked

def findRelatedInSubnodes : List (ClusterTreeNode K) → Ranked K → Ranked K
  | [], ranked => ranked
  | child :: rest, ranked => findRelatedInSubnodes rest (findRelatedShapes2 child ranked)
end

end Find

def addSibling (current : ClusterPoint K) (s : ClusterInfo K) : ClusterInfo K :=
  { s with numsiblings := s.numsiblings + 1, siblings := current :: s.siblings }

mutual
/-- A change of the shape with the address `index`. -/
def changeShape (index : Nat) (change : ClusterInfo K → ClusterInfo K) : ClusterTreeNode K → ClusterTreeNode K
  | .node rect shapes subnode =>
    .node rect (shapes.map fun s => if s.index = index then change s else s) (changeInSubnodes index change subnode)

def changeInSubnodes (index : Nat) (change : ClusterInfo K → ClusterInfo K) : List (ClusterTreeNode K) → List (ClusterTreeNode K)
  | [] => []
  | child :: rest => changeShape index change child :: changeInSubnodes index change rest
end

structure MsClusterLayerInfo (K : Type) where
  root : ClusterTreeNode K
  finalized : List (ClusterInfo K)
  finalizedSiblings : List (ClusterPoint K)
  filtered : List (ClusterInfo K)

/-- The siblings get the position of their cluster. The filter of `s` is not 0 if there is none. -/
def collectShape (layerinfo : MsClusterLayerInfo K) (s : ClusterInfo K) : MsClusterLayerInfo K :=
  let s := { s with siblings := s.siblings.map fun current => { current with avgx := s.x, avgy := s.y } }
  if s.filter ≠ 0 then { layerinfo with finalized := s :: layerinfo.finalized }
  else { layerinfo with filtered := s :: layerinfo.filtered }

mutual
def collectClusterShapes2 : ClusterTreeNode K → MsClusterLayerInfo K → MsClusterLayerInfo K
  | .node _ shapes subnode, layerinfo => collectInSubnodes subnode (shapes.foldl collectShape layerinfo)

def collectInSubnodes : List (ClusterTreeNode K) → MsClusterLayerInfo K → MsClusterLayerInfo K
  | [], layerinfo => layerinfo
  | child :: rest, layerinfo => collectInSubnodes rest (collectClusterShapes2 child layerinfo)
end

/-- What `RebuildClusters` has read and computed before it retrieves the shapes. -/
structure ClusterSettings (K : Type) where
  searchrect : RectObj K
  cellSizeX : K
  cellSizeY : K
  maxdistance : K
  buffer : K
  region : Option CString
  depth : Nat

namespace ClusterSettings
variable (settings : ClusterSettings K)

def maxDistanceX : K := settings.maxdistance * settings.cellSizeX

def maxDistanceY : K := settings.maxdistance * settings.cellSizeY

def buffered : RectObj K where
  minx := settings.searchrect.minx - settings.buffer * settings.cellSizeX
  miny := settings.searchrect.miny - settings.buffer * settings.cellSizeY
  maxx := settings.searchrect.maxx + settings.buffer * settings.cellSizeX
  maxy := settings.searchrect.maxy + settings.buffer * settings.cellSizeY

def fnCompare : ClusterPoint K → ClusterPoint K → Bool := compareRegion settings.region

/-- The `clusterInfo` of a shape that has been read, with the text of its group. -/
def point (index : Nat) (shape : RectObj K × Option CString) : ClusterPoint K where
  index := index
  x := shape.1.minx
  y := shape.1.miny
  avgx := shape.1.minx
  avgy := shape.1.miny
  shapeBounds := shape.1
  bounds :=
    { minx := shape.1.minx - settings.maxDistanceX
      miny := shape.1.miny - settings.maxDistanceY
      maxx := shape.1.minx + settings.maxDistanceX
      maxy := shape.1.miny + settings.maxDistanceY }
  group := shape.2
  filter := -1

end ClusterSettings

def addPoint (settings : ClusterSettings K) (layerinfo : MsClusterLayerInfo K) (current : ClusterPoint K) : MsClusterLayerInfo K :=
  if !msRectOverlap settings.buffered current.bounds then layerinfo
  else
    match (findRelatedShapes2 settings.fnCompare current layerinfo.root { current := none, rank := 0 }).current with
    | some _ => { layerinfo with finalizedSiblings := current :: layerinfo.finalizedSiblings }
    | none =>
      { layerinfo with
        root := treeNodeAddShape { toClusterPoint := current, numsiblings := 0, siblings := [] } settings.depth layerinfo.root }

def assignPoint (settings : ClusterSettings K) (layerinfo : MsClusterLayerInfo K) (current : ClusterPoint K) :
    MsClusterLayerInfo K :=
  let rank := settings.maxDistanceX * settings.maxDistanceX + settings.maxDistanceY * settings.maxDistanceY
  match (findRelatedShapes2 settings.fnCompare current layerinfo.root { current := none, rank }).current with
  | some s => { layerinfo with root := changeShape s.index (addSibling current) layerinfo.root }
  | none =>
    { layerinfo with filtered := { toClusterPoint := current, numsiblings := 0, siblings := [] } :: layerinfo.filtered }

def RebuildClusters (settings : ClusterSettings K) (shapes : List (RectObj K × Option CString)) : MsClusterLayerInfo K :=
  let points := shapes.zipIdx.map fun (shape, index) => settings.point index shape
  let retrieved := points.foldl (addPoint settings)
    { root := clusterTreeNodeCreate settings.buffered, finalized := [], finalizedSiblings := [], filtered := [] }
  let assigned := retrieved.finalizedSiblings.foldl (assignPoint settings) { retrieved with finalizedSiblings := [] }
  collectClusterShapes2 assigned.root assigned

end MapServer
