import Mathlib.Algebra.Field.Defs
import Mathlib.Data.List.Induction
import MapServer.Bits
import MapServer.Spatial.Rect

namespace MapServer

/-- `treeNodeObj`. The counters `numshapes` and `numsubnodes` are the lengths of the two lists. -/
inductive TreeNodeObj (α : Type) where
  | node (rect : RectObj α) (ids : List Int) (subnode : List (TreeNodeObj α))

namespace TreeNodeObj
variable {α : Type}

def rect : TreeNodeObj α → RectObj α
  | node rect _ _ => rect

def ids : TreeNodeObj α → List Int
  | node _ ids _ => ids

def subnode : TreeNodeObj α → List (TreeNodeObj α)
  | node _ _ subnode => subnode

@[simp] theorem rect_node (rect : RectObj α) (ids : List Int) (subnode : List (TreeNodeObj α)) :
    (node rect ids subnode).rect = rect := rfl

@[simp] theorem ids_node (rect : RectObj α) (ids : List Int) (subnode : List (TreeNodeObj α)) :
    (node rect ids subnode).ids = ids := rfl

@[simp] theorem subnode_node (rect : RectObj α) (ids : List Int) (subnode : List (TreeNodeObj α)) :
    (node rect ids subnode).subnode = subnode := rfl

@[elab_as_elim, induction_eliminator]
theorem induct {motive : TreeNodeObj α → Prop}
    (node : ∀ rect ids subnode, (∀ child ∈ subnode, motive child) → motive (.node rect ids subnode))
    (root : TreeNodeObj α) : motive root :=
  @TreeNodeObj.rec α motive (fun children => ∀ child ∈ children, motive child)
    (fun rect ids subnode ih => node rect ids subnode ih) (by simp)
    (fun child rest ih ihs => List.forall_mem_cons.mpr ⟨ih, ihs⟩) root

end TreeNodeObj

/-- `treeObj`. -/
structure TreeObj (α : Type) where
  numshapes : Nat
  maxdepth : Int
  root : TreeNodeObj α

/-- What `msCreateTree` reads of a `shapefileObj`: the file bounds and, for each shape, the
rectangle of `msSHPReadBounds`, or `none` where that fails. -/
structure ShapefileObj (α : Type) where
  bounds : RectObj α
  shapeBounds : List (Option (RectObj α))

def ShapefileObj.numshapes {α : Type} (shapefile : ShapefileObj α) : Nat :=
  shapefile.shapeBounds.length

def treeNodeCreate {α : Type} (rect : RectObj α) : TreeNodeObj α := .node rect [] []

section Build
variable {K : Type} [Field K] [LinearOrder K]

def SPLITRATIO : K := 55 / 100

def treeSplitBounds (rect : RectObj K) : RectObj K × RectObj K :=
  if rect.maxx - rect.minx > rect.maxy - rect.miny then
    let range := rect.maxx - rect.minx
    ({ rect with maxx := rect.minx + range * SPLITRATIO },
      { rect with minx := rect.maxx - range * SPLITRATIO })
  else
    let range := rect.maxy - rect.miny
    ({ rect with maxy := rect.miny + range * SPLITRATIO },
      { rect with miny := rect.maxy - range * SPLITRATIO })

def treeSplitQuads (rect : RectObj K) : List (RectObj K) :=
  let (half1, half2) := treeSplitBounds rect
  let (quad1, quad2) := treeSplitBounds half1
  let (quad3, quad4) := treeSplitBounds half2
  [quad1, quad2, quad3, quad4]

/-- The loop over the subnodes: `add` on the first one that contains `rect`, if there is one. -/
def addToSubnode (add : TreeNodeObj K → TreeNodeObj K) (rect : RectObj K) :
    List (TreeNodeObj K) → Option (List (TreeNodeObj K))
  | [] => none
  | child :: rest =>
    if msRectContained rect child.rect then some (add child :: rest)
    else (addToSubnode add rect rest).map (child :: ·)

def treeNodeAddId (id : Int) (subnode : List (TreeNodeObj K)) (node : TreeNodeObj K) : TreeNodeObj K :=
  .node node.rect (node.ids ++ [id]) subnode

def treeNodeAddShapeId (id : Int) (rect : RectObj K) : Nat → TreeNodeObj K → TreeNodeObj K
  | 0, node | 1, node => treeNodeAddId id node.subnode node
  | maxdepth + 2, node =>
    let place (subnode : List (TreeNodeObj K)) : TreeNodeObj K :=
      match addToSubnode (treeNodeAddShapeId id rect (maxdepth + 1)) rect subnode with
      | some added => .node node.rect node.ids added
      | none => treeNodeAddId id subnode node
    if node.subnode ≠ [] then place node.subnode
    -- Recursing back on the node enters the branch above, now with the four new subnodes.
    else if (treeSplitQuads node.rect).any (msRectContained rect ·) then
      place ((treeSplitQuads node.rect).map treeNodeCreate)
    else treeNodeAddId id node.subnode node

def treeAddShapeId (tree : TreeObj K) (id : Int) (rect : RectObj K) : TreeObj K :=
  { tree with root := treeNodeAddShapeId id rect tree.maxdepth.toNat tree.root }

/-- The loop that picks a depth of about 8 shapes a node when none was given. An open shapefile has
at most 256000000 shapes, so no product leaves the range of an `int`. -/
def reasonableDepth (numshapes numnodes : Nat) (positive : 0 < numnodes) (maxdepth : Int) : Int :=
  if numnodes * 4 < numshapes then
    reasonableDepth numshapes (numnodes * 2) (by omega) (maxdepth + 1)
  else maxdepth
termination_by numshapes - numnodes

def addShape (tree : TreeObj K) : Option (RectObj K) × Nat → TreeObj K
  | (some bounds, i) => treeAddShapeId tree i bounds
  | (none, _) => tree

def msCreateTree (shapefile : ShapefileObj K) (maxdepth : Int) : TreeObj K :=
  let depth := if maxdepth = 0 then reasonableDepth shapefile.numshapes 1 Nat.one_pos maxdepth else maxdepth
  shapefile.shapeBounds.zipIdx.foldl addShape
    { numshapes := shapefile.numshapes, maxdepth := depth, root := treeNodeCreate shapefile.bounds }

end Build

section Search
variable {α : Type} [LT α] [DecidableLT α]

def setShapeBits (numshapes : Nat) (ids : List Int) (status : BitArray) : BitArray :=
  ids.foldl (fun status (id : Int) =>
    if id ≥ 0 ∧ id < numshapes then msSetBit status id.toNat true else status) status

mutual
def treeCollectShapeIds (aoi : RectObj α) (numshapes : Nat) : TreeNodeObj α → BitArray → BitArray
  | .node rect ids subnode, status =>
    if !msRectOverlap rect aoi then status
    else treeCollectSubnodes aoi numshapes subnode (setShapeBits numshapes ids status)

def treeCollectSubnodes (aoi : RectObj α) (numshapes : Nat) : List (TreeNodeObj α) → BitArray → BitArray
  | [], status => status
  | child :: rest, status =>
    treeCollectSubnodes aoi numshapes rest (treeCollectShapeIds aoi numshapes child status)
end

def msSearchTree (tree : TreeObj α) (aoi : RectObj α) : BitArray :=
  treeCollectShapeIds aoi tree.numshapes tree.root (msAllocBitArray tree.numshapes)

end Search

section Trim
variable {α : Type}

def moveLastFirst (rest : List (TreeNodeObj α × Bool)) : List (TreeNodeObj α × Bool) :=
  match rest.getLast? with
  | none => []
  | some last => last :: rest.dropLast

theorem moveLastFirst_perm (rest : List (TreeNodeObj α × Bool)) : (moveLastFirst rest).Perm rest := by
  unfold moveLastFirst
  cases rest using List.reverseRecOn with
  | nil => exact .refl _
  | append_singleton rest last =>
    simp only [List.getLast?_append, List.getLast?_singleton, Option.some_or, List.dropLast_concat]
    exact (List.perm_append_singleton last rest).symm

/-- The subnode array after the loop of `treeNodeTrim`, from the trimmed subnodes and whether each
came back empty. The entry moved up from the end is looked at next. -/
def dropEmptySubnodes : List (TreeNodeObj α × Bool) → List (TreeNodeObj α)
  | [] => []
  | (child, false) :: rest => child :: dropEmptySubnodes rest
  | (_, true) :: rest => dropEmptySubnodes (moveLastFirst rest)
termination_by children => children.length
decreasing_by
  · simp
  · simp [(moveLastFirst_perm rest).length_eq]

def promoteSubnode (rect : RectObj α) (ids : List Int) (subnode : List (TreeNodeObj α)) : TreeNodeObj α :=
  match subnode, ids with
  | [child], [] => .node child.rect child.ids child.subnode
  | subnode, ids => .node rect ids subnode

mutual
def treeNodeTrim : TreeNodeObj α → TreeNodeObj α × Bool
  | .node rect ids subnode =>
    -- Every subnode is trimmed once: those moved up from the end were not visited before.
    let node := promoteSubnode rect ids (dropEmptySubnodes (treeTrimSubnodes subnode))
    (node, node.subnode.isEmpty && node.ids.isEmpty)

def treeTrimSubnodes : List (TreeNodeObj α) → List (TreeNodeObj α × Bool)
  | [] => []
  | child :: rest => treeNodeTrim child :: treeTrimSubnodes rest
end

def msTreeTrim (tree : TreeObj α) : TreeObj α :=
  { tree with root := (treeNodeTrim tree.root).1 }

end Trim

end MapServer
