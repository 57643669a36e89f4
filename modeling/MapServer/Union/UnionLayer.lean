import MapServer.Text

/-!
`msUnionLayerOpen`, `msUnionLayerWhichShapes` and `msUnionLayerNextShape` of `mapunion.cpp`. `N` are the numbers of scales
and extents, `Rect` the search rectangles and `G` the geometries.
-/

namespace MapServer

structure UnionShape (G : Type) where
  geometry : G
  values : List (Option CString)
  tileindex : Nat
  deriving DecidableEq

/-- What is read of a class; `applies` is whether `msShapeGetNextClass` accepts it for a shape. -/
structure SourceClass (N G : Type) where
  group : Option CString
  minscaledenom : N
  maxscaledenom : N
  applies : UnionShape G → Bool

/-- A layer of the map. `whichShapes` is what a search finds, and `none` for `MS_DONE`. `reprojector` leads to the
projection of the union layer, unless `msProjectCreateReprojector` fails. -/
structure SourceLayer (N Rect G : Type) where
  name : Option CString
  group : Option CString
  type : Nat
  isOff : Bool
  minscaledenom : N
  maxscaledenom : N
  mingeowidth : N
  maxgeowidth : N
  classgroup : Option CString
  classes : List (SourceClass N G)
  transform : Bool
  project : Bool
  msProjectionsDiffer : Bool
  msProjectRect : Rect → Rect
  reprojector : Option (G → G)
  opens : Bool
  whichShapes : Rect → Option (List (UnionShape G))

structure UnionMap (N Rect G : Type) where
  scaledenom : N
  extentWidth : N
  layers : List (SourceLayer N Rect G)

/-- What `msUnionLayerInitItemInfo` notes for an item. -/
inductive UnionItem where
  | MSUNION_SOURCELAYERNAMEINDEX
  | MSUNION_SOURCELAYERGROUPINDEX
  | MSUNION_SOURCELAYERVISIBLEINDEX
  | item (index : Nat)

/-- A union layer with its processing keys. `filter` is `msEvalExpression` of its filter, where it has one. -/
structure UnionLayer (G : Type) where
  connection : Option CString
  type : Nat
  unionStatusCheck : Option CString
  unionScaleCheck : Option CString
  transform : Bool
  project : Bool
  styleitem : Bool
  numitems : Nat
  iteminfo : Option (List UnionItem)
  filter : Option (UnionShape G → Bool)

inductive SourceStatus where
  | MS_SUCCESS
  | MS_DONE
  deriving DecidableEq

/-- A copy of a source layer with its entry of `status`, what is left of its search, and its current `project`. -/
structure UnionSource (N Rect G : Type) where
  layer : SourceLayer N Rect G
  status : SourceStatus
  found : List (UnionShape G)
  project : Bool

/-- What is kept for the current source layer. `classified` are the calls of `msShapeGetClass` so far, latest first. -/
structure UnionCursor (G : Type) where
  classgroup : Option (List Nat)
  nclasses : Nat
  classIndex : Int
  reprojectorCurSrcLayer : Option Nat
  reprojectorSrcLayerToLayer : Option (G → G)
  classified : List (Nat × Option (List Nat) × Nat)

structure UnionLayerInfo (N Rect G : Type) where
  layerIndex : Nat
  layers : List (UnionSource N Rect G)
  cursor : UnionCursor G

variable {N Rect G : Type}

section Open
variable [LT N] [LE N] [Zero N] [DecidableLT N] [DecidableLE N]

def isScaleInRange (map : UnionMap N Rect G) (layer : SourceLayer N Rect G) : Bool :=
  if map.scaledenom > 0 then
    if layer.maxscaledenom > 0 ∧ map.scaledenom > layer.maxscaledenom then false
    else if layer.minscaledenom > 0 ∧ map.scaledenom ≤ layer.minscaledenom then false
    else if layer.classes ≠ [] ∧ ¬ layer.classes.any (fun c =>
        !(decide (c.maxscaledenom > 0) && decide (map.scaledenom > c.maxscaledenom)) &&
          !(decide (c.minscaledenom > 0) && decide (map.scaledenom ≤ c.minscaledenom))) then false
    else if layer.maxscaledenom ≤ 0 ∧ layer.minscaledenom ≤ 0 then
      !(decide (layer.maxgeowidth > 0) && decide (map.extentWidth > layer.maxgeowidth)) &&
        !(decide (layer.mingeowidth > 0) && decide (map.extentWidth < layer.mingeowidth))
    else true
  else true

def msGetLayerIndex (map : UnionMap N Rect G) (name : CString) : Option (SourceLayer N Rect G) :=
  map.layers.find? fun layer => layer.name = some name

/-- One source layer, or `none` for a failure. -/
def openSource (layer : UnionLayer G) (map : UnionMap N Rect G) (layerName : CString) : Option (UnionSource N Rect G) := do
  let srclayer ← msGetLayerIndex map layerName
  if srclayer.type ≠ layer.type then none
  else
    let status_check := layer.unionStatusCheck.any fun pkey => sameIgnoringCase pkey (ascii "true")
    let scale_check := !layer.unionScaleCheck.any fun pkey => sameIgnoringCase pkey (ascii "false")
    let source := { layer := srclayer, status := .MS_SUCCESS, found := [], project := srclayer.project }
    if status_check && srclayer.isOff then some { source with status := .MS_DONE }
    else if scale_check && !isScaleInRange map srclayer then some { source with status := .MS_DONE }
    else if srclayer.opens then some source
    else none

def msUnionLayerOpen (layer : UnionLayer G) (map : UnionMap N Rect G) : Option (UnionLayerInfo N Rect G) := do
  let connection ← layer.connection
  let layers ← (msStringSplit 44 connection).mapM (openSource layer map)
  some {
    layerIndex := 0, layers
    cursor := {
      classgroup := none, nclasses := 0, classIndex := 0, reprojectorCurSrcLayer := none
      reprojectorSrcLayerToLayer := none, classified := [] } }

end Open

def msAllocateValidClassGroups (layer : SourceLayer N Rect G) : Option (List Nat) × Nat :=
  match layer.classgroup with
  | none => (none, 0)
  | some classgroup =>
    let valid := (List.range layer.classes.length).filter fun i =>
      layer.classes[i]?.any fun c => c.group.any fun group => sameIgnoringCase group classgroup
    if valid = [] then (none, 0) else (some valid, valid.length)

def UnionCursor.setClassgroup (cursor : UnionCursor G) (layer : SourceLayer N Rect G) : UnionCursor G :=
  let (classgroup, nclasses) := msAllocateValidClassGroups layer
  { cursor with classgroup, nclasses }

def sourceRect (layer : UnionLayer G) (source : UnionSource N Rect G) (rect : Rect) : Rect :=
  if source.layer.transform && source.project && layer.transform && layer.project && source.layer.msProjectionsDiffer
  then source.layer.msProjectRect rect else rect

def searchSource (layer : UnionLayer G) (rect : Rect) (source : UnionSource N Rect G) : UnionSource N Rect G :=
  match source.status with
  | .MS_DONE => source
  | .MS_SUCCESS =>
    match source.layer.whichShapes (sourceRect layer source rect) with
    | none => { source with status := .MS_DONE }
    | some found => { source with found }

def msUnionLayerWhichShapes (layer : UnionLayer G) (rect : Rect) (info : UnionLayerInfo N Rect G) : UnionLayerInfo N Rect G :=
  let layers := info.layers.map (searchSource layer rect)
  { layerIndex := 0, layers
    cursor := match layers with
      | source :: _ => info.cursor.setClassgroup source.layer
      | [] => info.cursor }

def msShapeGetClass (layer : SourceLayer N Rect G) (shape : UnionShape G) (classgroup : Option (List Nat)) (numclasses : Nat) :
    Int :=
  let candidates := match classgroup with
    | some classgroup => if numclasses = 0 then classgroup.take layer.classes.length else classgroup.take numclasses
    | none => List.range layer.classes.length
  match candidates.find? fun iclass : Nat => layer.classes[iclass]?.any fun c => c.applies shape with
  | some iclass => (iclass : Nat)
  | none => -1

def BuildFeatureAttributes (iteminfo : List UnionItem) (srclayer : SourceLayer N Rect G) (shape : UnionShape G) : UnionShape G :=
  { shape with
    values := iteminfo.map fun
      | .MSUNION_SOURCELAYERNAMEINDEX => srclayer.name
      | .MSUNION_SOURCELAYERGROUPINDEX => srclayer.group
      | .MSUNION_SOURCELAYERVISIBLEINDEX => some (if srclayer.isOff then ascii "0" else ascii "1")
      | .item index => some ((shape.values[index]?.join).getD []) }

def updateReprojector (layerIndex : Nat) (source : UnionSource N Rect G) (cursor : UnionCursor G) :
    UnionSource N Rect G × UnionCursor G :=
  if cursor.reprojectorCurSrcLayer = some layerIndex then (source, cursor)
  else if source.project && source.layer.msProjectionsDiffer then
    (source, { cursor with
      reprojectorCurSrcLayer := some layerIndex, reprojectorSrcLayerToLayer := source.layer.reprojector })
  else
    ({ source with project := false }, { cursor with
      reprojectorCurSrcLayer := some layerIndex, reprojectorSrcLayerToLayer := none })

def isFiltered (layer : UnionLayer G) (shape : UnionShape G) : Bool :=
  match layer.filter with
  | some msEvalExpression => decide (layer.numitems > 0) && layer.iteminfo.isSome && !msEvalExpression shape
  | none => false

def classifyShape (layer : UnionLayer G) (layerIndex : Nat) (srclayer : SourceLayer N Rect G) (shape : UnionShape G)
    (cursor : UnionCursor G) : Bool × UnionCursor G :=
  if layer.styleitem then
    let classIndex := msShapeGetClass srclayer shape cursor.classgroup cursor.nclasses
    (!(decide (classIndex < 0) || decide (srclayer.classes.length ≤ classIndex)),
      { cursor with classIndex, classified := (layerIndex, cursor.classgroup, cursor.nclasses) :: cursor.classified })
  else (true, cursor)

def finishShape (layer : UnionLayer G) (layerIndex : Nat) (srclayer : SourceLayer N Rect G) (reprojector : Option (G → G))
    (shape : UnionShape G) : UnionShape G :=
  let geometry := match reprojector with
    | some msProjectShapeEx => msProjectShapeEx shape.geometry
    | none => shape.geometry
  let shape := { shape with geometry, tileindex := layerIndex }
  match layer.iteminfo with
  | some iteminfo => BuildFeatureAttributes iteminfo srclayer shape
  | none => shape

def nextOfSource (layer : UnionLayer G) (layerIndex : Nat) :
    List (UnionShape G) → UnionSource N Rect G → UnionCursor G → Option (UnionShape G) × UnionSource N Rect G × UnionCursor G
  | [], source, cursor => (none, { source with found := [] }, cursor)
  | shape :: found, source, cursor =>
    let (visible, cursor) := classifyShape layer layerIndex source.layer shape cursor
    if !visible then nextOfSource layer layerIndex found source cursor
    else
      let (source, cursor) := updateReprojector layerIndex source cursor
      let shape := finishShape layer layerIndex source.layer cursor.reprojectorSrcLayerToLayer shape
      if isFiltered layer shape then nextOfSource layer layerIndex found source cursor
      else (some shape, { source with found }, cursor)

def sourceTurn (layer : UnionLayer G) (layerIndex : Nat) (source : UnionSource N Rect G) (cursor : UnionCursor G) :
    Option (UnionShape G) × UnionSource N Rect G × UnionCursor G :=
  match source.status with
  | .MS_SUCCESS => nextOfSource layer layerIndex source.found source cursor
  | .MS_DONE => (none, source, cursor)

/-- The source layers from the current one on; `none` is `MS_DONE`. -/
def nextFrom (layer : UnionLayer G) : Nat → UnionLayerInfo N Rect G → Option (UnionShape G) × UnionLayerInfo N Rect G
  | 0, info => (none, info)
  | left + 1, info =>
    match info.layers[info.layerIndex]? with
    | none => (none, info)
    | some source =>
      let (shape, source, cursor) := sourceTurn layer info.layerIndex source info.cursor
      let layers := info.layers.set info.layerIndex source
      match shape with
      | some shape => (some shape, { info with layers, cursor })
      | none =>
        if info.layerIndex + 1 = layers.length then (none, { layerIndex := 0, layers, cursor })
        else
          -- `srclayer` is still the source layer that was left.
          nextFrom layer left { layerIndex := info.layerIndex + 1, layers, cursor := cursor.setClassgroup source.layer }

/-- `none` is `MS_FAILURE`, and a missing shape `MS_DONE`. -/
def msUnionLayerNextShape (layer : UnionLayer G) (info : UnionLayerInfo N Rect G) :
    Option (Option (UnionShape G) × UnionLayerInfo N Rect G) :=
  if info.layerIndex < info.layers.length then some (nextFrom layer (info.layers.length - info.layerIndex) info) else none

/-- The calls of `msUnionLayerNextShape` up to `MS_DONE`, with the shapes they give. -/
inductive Drains (layer : UnionLayer G) :
    UnionLayerInfo N Rect G → List (UnionShape G) → UnionLayerInfo N Rect G → Prop where
  | done {info after : UnionLayerInfo N Rect G} (call : msUnionLayerNextShape layer info = some (none, after)) :
      Drains layer info [] after
  | shape {info between after : UnionLayerInfo N Rect G} {shape : UnionShape G} {shapes : List (UnionShape G)}
      (call : msUnionLayerNextShape layer info = some (some shape, between)) (rest : Drains layer between shapes after) :
      Drains layer info (shape :: shapes) after

/-- Searches one after the other, each with the shapes it gives and the class groups that shapes were classified with. -/
inductive UnionSearches (layer : UnionLayer G) : UnionLayerInfo N Rect G → List Rect →
    List (List (UnionShape G) × List (Nat × Option (List Nat) × Nat)) → Prop where
  | nil {info : UnionLayerInfo N Rect G} : UnionSearches layer info [] []
  | cons {info after : UnionLayerInfo N Rect G} {rect : Rect} {rects : List Rect} {shapes : List (UnionShape G)}
      {classified : List (Nat × Option (List Nat) × Nat)} {results : List (List (UnionShape G) × List (Nat × Option (List Nat) × Nat))}
      (drains : Drains layer (msUnionLayerWhichShapes layer rect info) shapes after)
      (calls : after.cursor.classified = classified ++ info.cursor.classified) (rest : UnionSearches layer after rects results) :
      UnionSearches layer info (rect :: rects) ((shapes, classified) :: results)

end MapServer
