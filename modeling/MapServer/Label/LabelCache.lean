import MapServer.Primitive.PixelTransform

/-!
`msAddLabelGroup` and `msAddLabel` of `maplabel.c`. Coordinates and sizes are exact numbers, and `none` stands for a store
past the end of an array or an assertion that fails. Allocations succeed.
-/

namespace MapServer

attribute [local instance] two_atLeastTwo

def MS_MAX_LABEL_PRIORITY : Nat := 10

def MS_LABELCACHEINITSIZE : Nat := 100

def MS_LABELCACHEINCREMENT : Nat := 10

inductive MS_GEOMTRANSFORM_TYPE where
  | MS_GEOMTRANSFORM_NONE | MS_GEOMTRANSFORM_EXPRESSION | MS_GEOMTRANSFORM_START | MS_GEOMTRANSFORM_END
  | MS_GEOMTRANSFORM_VERTICES | MS_GEOMTRANSFORM_BBOX | MS_GEOMTRANSFORM_CENTROID | MS_GEOMTRANSFORM_BUFFER
  | MS_GEOMTRANSFORM_CONVEXHULL | MS_GEOMTRANSFORM_LABELPOINT | MS_GEOMTRANSFORM_LABELPOLY | MS_GEOMTRANSFORM_LABELCENTER
  deriving DecidableEq

/-- `definition` is what the status, the text and the layout of a label are made from. -/
structure LabelObj (τ : Type) where
  priority : Int
  autominfeaturesize : Bool
  styles : List MS_GEOMTRANSFORM_TYPE
  definition : τ
  deriving DecidableEq

structure TextPathObj (K : Type) where
  absolute : Bool
  glyphs : List (PointObj K)
  bbox : RectObj K
  deriving DecidableEq

/-- The label is a copy (`duplicate_always`). -/
structure TextSymbolObj (τ K : Type) where
  label : LabelObj τ
  annotext : Option String
  scalefactor : K
  resolutionfactor : K
  textpath : Option (TextPathObj K)
  deriving DecidableEq

structure LabelCacheMemberObj (τ K : Type) where
  textsymbols : List (TextSymbolObj τ K)
  layerindex : Int
  classindex : Nat
  status : Bool
  markerid : Int
  point : PointObj K
  deriving DecidableEq

structure MarkerCacheMemberObj (K : Type) where
  id : Nat
  bounds : RectObj K
  deriving DecidableEq

/-- The lists are the entries in use. `labels` has room for `cachesize` entries and `markers` for `markersRoom`. -/
structure LabelCacheSlotObj (τ K : Type) where
  labels : List (LabelCacheMemberObj τ K)
  cachesize : Nat
  markers : List (MarkerCacheMemberObj K)
  markercachesize : Nat
  markersRoom : Nat
  deriving DecidableEq

abbrev LabelCacheObj (τ K : Type) := Fin MS_MAX_LABEL_PRIORITY → LabelCacheSlotObj τ K

structure RasterBufferObj where
  width : Int
  height : Int
  a : Int → Int → UInt8

/-- `buffer` is what `getRasterBufferHandle` gives. -/
structure MaskImage where
  supports_pixel_buffer : Bool
  buffer : Option RasterBufferObj

structure LabelClassObj (τ σ : Type) where
  labels : List (LabelObj τ)
  styles : List σ
  leader : Bool

/-- `mask` has the `maskimage` of the layer that the mask names. -/
structure LabelLayerObj (τ σ K : Type) where
  index : Int
  name : String
  isPoint : Bool
  scalefactor : K
  mask : Option (Option MaskImage)
  classes : List (LabelClassObj τ σ)

/-- What the functions call for the shapes and styles of a layer, where `none` is `MS_FAILURE` or no text. -/
structure LabelServices (ψ τ σ K : Type) where
  msGetLabelStatus : ψ → LabelObj τ → Bool
  msShapeGetLabelAnnotation : ψ → LabelObj τ → Option String
  msComputeTextPath : TextSymbolObj τ K → Option (TextPathObj K)
  msGetMarkerSize : σ → K → Option (K × K)

inductive AddStatus where
  | MS_SUCCESS
  | MS_FAILURE
  deriving DecidableEq

structure AddOutcome (τ K : Type) where
  status : AddStatus
  error : Option ErrorObj
  cache : LabelCacheObj τ K

section Mask
variable {K : Type} [Field K] [LinearOrder K] [FloorRing K]

inductive MaskVerdict where
  | shown
  | hidden
  | failed
  | unsupported
  deriving DecidableEq

def RasterBufferObj.shows (rb : RasterBufferObj) (point : PointObj K) : Bool :=
  let x := MS_NINT point.x
  let y := MS_NINT point.y
  if x ≥ 0 ∧ x < rb.width ∧ y ≥ 0 ∧ y < rb.height then rb.a y x ≠ 0 else false

def checkMask (mask : Option (Option MaskImage)) (points : List (PointObj K)) : MaskVerdict :=
  match mask with
  | none => .shown
  | some none => .unsupported
  | some (some image) =>
    if image.supports_pixel_buffer then
      match image.buffer with
      | none => .failed
      | some rb => if points.all rb.shows then .shown else .hidden
    else .unsupported

end Mask

def maskError (name routine : String) : ErrorObj where
  code := .MS_MISCERR
  message := "Layer (" ++ name ++ ") references references a mask layer, but the selected renderer does not support them"
  routine := routine

section Slots
variable {τ K : Type}

def clampPriority (priority : Int) : Int :=
  if priority < 1 then 1 else if priority > MS_MAX_LABEL_PRIORITY then MS_MAX_LABEL_PRIORITY else priority

def slotIndex (priority : Int) : Fin MS_MAX_LABEL_PRIORITY :=
  ⟨(clampPriority priority - 1).toNat, by
    unfold clampPriority MS_MAX_LABEL_PRIORITY
    split
    · decide
    · split <;> omega⟩

def msInitLabelCacheSlot : LabelCacheSlotObj τ K where
  labels := []
  cachesize := MS_LABELCACHEINITSIZE
  markers := []
  markercachesize := MS_LABELCACHEINITSIZE
  markersRoom := MS_LABELCACHEINITSIZE

def msInitLabelCache : LabelCacheObj τ K := fun _ => msInitLabelCacheSlot

variable (slot : LabelCacheSlotObj τ K)

def LabelCacheSlotObj.growLabels : LabelCacheSlotObj τ K :=
  if slot.labels.length = slot.cachesize then { slot with cachesize := slot.cachesize + MS_LABELCACHEINCREMENT } else slot

/-- The markers get room for `cachesize + MS_LABELCACHEINCREMENT` entries. -/
def LabelCacheSlotObj.growMarkers : LabelCacheSlotObj τ K :=
  if slot.markers.length = slot.markercachesize then
    { slot with
      markersRoom := slot.cachesize + MS_LABELCACHEINCREMENT
      markercachesize := slot.markercachesize + MS_LABELCACHEINCREMENT }
  else slot

def LabelCacheSlotObj.storeMember (member : LabelCacheMemberObj τ K) : Option (LabelCacheSlotObj τ K) :=
  if slot.labels.length < slot.cachesize then some { slot with labels := slot.labels ++ [member] } else none

def LabelCacheSlotObj.storeMarker (marker : MarkerCacheMemberObj K) : Option (LabelCacheSlotObj τ K) :=
  if slot.markers.length < slot.markersRoom then some { slot with markers := slot.markers ++ [marker] } else none

end Slots

section Add
variable {ψ τ σ K : Type} [Field K] [LinearOrder K] [FloorRing K]

def markerBounds (point : PointObj K) (w h : K) : RectObj K :=
  let minx := point.x - 1 / 2 * w
  let miny := point.y - 1 / 2 * h
  { minx, miny, maxx := minx + (w - 1), maxy := miny + (h - 1) }

def hasLabelPoint (label : LabelObj τ) : Bool := label.styles.any (· = .MS_GEOMTRANSFORM_LABELPOINT)

variable (services : LabelServices ψ τ σ K) (resolutionfactor : K)

def msPopulateTextSymbolForLabelAndString (label : LabelObj τ) (string : Option String) (scalefactor : K) : TextSymbolObj τ K :=
  { label, annotext := string, scalefactor, resolutionfactor, textpath := none }

def groupSymbols (scalefactor : K) (shape : ψ) (featuresize : K) : List (LabelObj τ) → Option (List (TextSymbolObj τ K))
  | [] => some []
  | lbl :: labels =>
    if !services.msGetLabelStatus shape lbl then groupSymbols scalefactor shape featuresize labels
    else
      let annotext := services.msShapeGetLabelAnnotation shape lbl
      if annotext = none ∧ !hasLabelPoint lbl then groupSymbols scalefactor shape featuresize labels
      else
        let ts := msPopulateTextSymbolForLabelAndString resolutionfactor lbl annotext scalefactor
        if annotext ≠ none ∧ annotext ≠ some "" ∧ lbl.autominfeaturesize ∧ featuresize > 0 then do
          let textpath ← services.msComputeTextPath ts
          if featuresize < textpath.bbox.maxx - textpath.bbox.minx then groupSymbols scalefactor shape featuresize labels
          else
            let rest ← groupSymbols scalefactor shape featuresize labels
            some ({ ts with textpath := some textpath } :: rest)
        else do
          let rest ← groupSymbols scalefactor shape featuresize labels
          some (ts :: rest)

variable (cache : LabelCacheObj τ K) (layer : LabelLayerObj τ σ K) (classindex : Nat)

def newMember (textsymbols : List (TextSymbolObj τ K)) (point : PointObj K) : LabelCacheMemberObj τ K :=
  { textsymbols, layerindex := layer.index, classindex, status := false, markerid := -1, point }

def leaveSlot (status : AddStatus) (k : Fin MS_MAX_LABEL_PRIORITY) (slot : LabelCacheSlotObj τ K) : AddOutcome τ K :=
  { status, error := none, cache := Function.update cache k slot }

def leaveCache (status : AddStatus) : AddOutcome τ K := { status, error := none, cache }

def storeWithMarker (slot : LabelCacheSlotObj τ K) (member : LabelCacheMemberObj τ K) (w h : K) :
    Option (LabelCacheSlotObj τ K) := do
  let id := slot.labels.length
  let markerid := slot.markers.length
  let slot ← slot.storeMarker { id, bounds := markerBounds member.point w h }
  slot.storeMember { member with markerid }

/-- The end of `msAddLabelGroup`, which sizes a marker before there is room for it. -/
def storeGroup (styles : List σ) (k : Fin MS_MAX_LABEL_PRIORITY) (member : LabelCacheMemberObj τ K) : Option (AddOutcome τ K) :=
  let slot := (cache k).growLabels
  match layer.isPoint, styles with
  | true, style :: _ =>
    match services.msGetMarkerSize style layer.scalefactor with
    | none => some (leaveSlot cache .MS_FAILURE k slot)
    | some (w, h) => do
      let slot ← storeWithMarker slot.growMarkers member w h
      some (leaveSlot cache .MS_SUCCESS k slot)
  | _, _ => do
    let slot ← slot.storeMember member
    some (leaveSlot cache .MS_SUCCESS k slot)

/-- The end of `msAddLabel`, which makes room for a marker before it sizes it and then needs a point. -/
def storeSingle (styles : List σ) (point : Option (PointObj K)) (k : Fin MS_MAX_LABEL_PRIORITY) (member : LabelCacheMemberObj τ K) :
    Option (AddOutcome τ K) :=
  let slot := (cache k).growLabels
  match layer.isPoint, styles with
  | true, style :: _ =>
    let slot := slot.growMarkers
    match services.msGetMarkerSize style layer.scalefactor with
    | none => some (leaveSlot cache .MS_FAILURE k slot)
    | some (w, h) => do
      let _ ← point
      let slot ← storeWithMarker slot member w h
      some (leaveSlot cache .MS_SUCCESS k slot)
  | _, _ => do
    let slot ← slot.storeMember member
    some (leaveSlot cache .MS_SUCCESS k slot)

def msAddLabelGroup (shape : ψ) (point : PointObj K) (featuresize : K) : Option (AddOutcome τ K) := do
  let classPtr ← layer.classes[classindex]?
  match classPtr.labels with
  | [] => some (leaveCache cache .MS_SUCCESS)
  | first :: _ =>
    match checkMask layer.mask [point] with
    | .failed => some (leaveCache cache .MS_FAILURE)
    | .hidden => some (leaveCache cache .MS_SUCCESS)
    | .unsupported => some { leaveCache cache .MS_FAILURE with error := some (maskError layer.name "msAddLabelGroup()") }
    | .shown =>
      match groupSymbols services resolutionfactor layer.scalefactor shape featuresize classPtr.labels with
      | none => some (leaveCache cache .MS_FAILURE)
      | some [] => some (leaveCache cache .MS_SUCCESS)
      | some textsymbols =>
        storeGroup services cache layer classPtr.styles (slotIndex first.priority) (newMember layer classindex textsymbols point)

def labelText (label : LabelObj τ) (shape : Option ψ) (ts : Option (TextSymbolObj τ K)) : Option String :=
  match ts with
  | some ts => ts.annotext
  | none => shape.bind (services.msShapeGetLabelAnnotation · label)

def maskPoints (point : Option (PointObj K)) (ts : Option (TextSymbolObj τ K)) : List (PointObj K) :=
  match point with
  | some point => [point]
  | none => ((ts.bind TextSymbolObj.textpath).map TextPathObj.glyphs).getD []

def memberPoint (point : Option (PointObj K)) (ts : TextSymbolObj τ K) : Option (PointObj K) :=
  match point with
  | some point => some point
  | none => do
    let textpath ← ts.textpath
    if textpath.absolute then textpath.glyphs[textpath.glyphs.length / 2]? else none

def sizedSymbol (ts : TextSymbolObj τ K) (label : LabelObj τ) (featuresize : K) : Option (TextSymbolObj τ K) :=
  if ts.annotext ≠ none ∧ label.autominfeaturesize ∧ featuresize > 0 ∧ ts.textpath = none then do
    let textpath ← services.msComputeTextPath ts
    some { ts with textpath := some textpath }
  else some ts

/-- `label->priority` is set to its place among the slots, in the second component. -/
def msAddLabel (label : LabelObj τ) (shape : Option ψ) (point : Option (PointObj K)) (featuresize : K)
    (ts : Option (TextSymbolObj τ K)) : Option (AddOutcome τ K × LabelObj τ) := do
  let classPtr ← layer.classes[classindex]?
  let annotext := labelText services label shape ts
  if annotext = none ∧ !hasLabelPoint label then some (leaveCache cache .MS_SUCCESS, label)
  else if classPtr.leader ∧ ((ts.bind TextSymbolObj.textpath).any TextPathObj.absolute) then
    some ({ leaveCache cache .MS_FAILURE with
      error := some ⟨.MS_MISCERR, "LEADERs are not supported on ANGLE FOLLOW labels", "msAddLabel()"⟩ }, label)
  else
    match checkMask layer.mask (maskPoints point ts) with
    | .failed => some (leaveCache cache .MS_FAILURE, label)
    | .hidden => some (leaveCache cache .MS_SUCCESS, label)
    | .unsupported => some ({ leaveCache cache .MS_FAILURE with error := some (maskError layer.name "msAddLabel()") }, label)
    | .shown =>
      let ts := ts.getD (msPopulateTextSymbolForLabelAndString resolutionfactor label annotext layer.scalefactor)
      match sizedSymbol services ts label featuresize with
      | none => some (leaveCache cache .MS_FAILURE, label)
      | some ts =>
        if annotext ≠ none ∧ label.autominfeaturesize ∧ featuresize > 0 ∧
            (ts.textpath.any fun textpath => featuresize > textpath.bbox.maxx - textpath.bbox.minx) then
          some (leaveCache cache .MS_SUCCESS, label)
        else
          let label := { label with priority := clampPriority label.priority }
          let memberAt ← memberPoint point ts
          let outcome ← storeSingle services cache layer classPtr.styles point (slotIndex label.priority)
            (newMember layer classindex [ts] memberAt)
          some (outcome, label)

end Add

end MapServer
