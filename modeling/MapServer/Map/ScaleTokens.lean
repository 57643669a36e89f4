import Mathlib.Data.List.Infix
import MapServer.Mapfile.ExpressionString

/-!
`msLayerApplyScaletokens` and `msLayerRestoreFromScaletokens` of `maplayer.c`, with the address of every string they
allocate or free. `none` is the failed assertion that an entry is for the scale.
-/

namespace MapServer

structure CharPtr where
  address : Nat
  text : CString
  deriving DecidableEq

structure StringHeap where
  next : Nat
  freed : List Nat

namespace StringHeap

def msStrdup (text : CString) (heap : StringHeap) : CharPtr × StringHeap :=
  (⟨heap.next, text⟩, { heap with next := heap.next + 1 })

def msFree (string : Option CharPtr) (heap : StringHeap) : StringHeap :=
  { heap with freed := (string.map (·.address)).toList ++ heap.freed }

def duplicate (strings : List CharPtr) (heap : StringHeap) : List CharPtr × StringHeap :=
  (strings.mapIdx fun i string => ⟨heap.next + i, string.text⟩, { heap with next := heap.next + strings.length })

def destroy (strings : List CharPtr) (heap : StringHeap) : StringHeap :=
  { heap with freed := strings.map (·.address) ++ heap.freed }

end StringHeap

structure ScaleTokenEntryObj (α : Type) where
  minscale : α
  maxscale : α
  value : CString

structure ScaleTokenObj (α : Type) where
  name : CString
  tokens : List (ScaleTokenEntryObj α)

inductive LayerString where
  | data
  | tileindex
  | tileitem
  | filteritem
  deriving DecidableEq

structure OriginalScaleTokenStrings where
  strings : LayerString → Option CharPtr
  filter : Option CharPtr
  processing : Option (List CharPtr)

structure FilterExpression where
  type : ExpressionType
  string : Option CharPtr
  insensitive : Bool

structure ScaleLayer where
  strings : LayerString → Option CharPtr
  filter : FilterExpression
  processing : List CharPtr
  orig_st : Option OriginalScaleTokenStrings
  heap : StringHeap

def OriginalScaleTokenStrings.empty : OriginalScaleTokenStrings := ⟨fun _ => none, none, none⟩

def check_st_alloc (layer : ScaleLayer) : OriginalScaleTokenStrings := layer.orig_st.getD .empty

def strstr (text name : CString) : Bool := decide (name <:+: text)

def msLoadExpressionString (exp : FilterExpression) (value : CString) (heap : StringHeap) :
    Option (FilterExpression × StringHeap) := do
  let loaded ← loadExpressionString value
  let (string, heap) := (heap.msFree exp.string).msStrdup loaded.string
  some (⟨loaded.type, some string, loaded.insensitive⟩, heap)

def withParentheses (type : ExpressionType) (string : CString) : CString :=
  if type = .MS_EXPRESSION then [40] ++ string ++ [41] else string

def restoreString (saved : OriginalScaleTokenStrings) (layer : ScaleLayer) (field : LayerString) : ScaleLayer :=
  match saved.strings field with
  | some string =>
    { layer with
      strings := Function.update layer.strings field (some string)
      heap := layer.heap.msFree (layer.strings field) }
  | none => layer

def restoreFilter (saved : OriginalScaleTokenStrings) (layer : ScaleLayer) : Option ScaleLayer :=
  match saved.filter with
  | some string => do
    let value := if layer.filter.type = .MS_EXPRESSION
      then withParentheses .MS_EXPRESSION ((layer.filter.string.map (·.text)).getD []) else string.text
    let (filter, heap) ← msLoadExpressionString layer.filter value layer.heap
    some { layer with filter, heap := heap.msFree (some string) }
  | none => some layer

def restoreProcessing (saved : OriginalScaleTokenStrings) (layer : ScaleLayer) : ScaleLayer :=
  match saved.processing with
  | some processing => { layer with processing, heap := layer.heap.destroy layer.processing }
  | none => layer

section Layers
variable {α : Type} [LT α] [LE α] [Zero α] [DecidableLT α] [DecidableLE α]

def msLayerRestoreFromScaletokens (scaletokens : List (ScaleTokenObj α)) (layer : ScaleLayer) : Option ScaleLayer :=
  match layer.orig_st with
  | none => some layer
  | some saved =>
    if scaletokens.isEmpty then some layer
    else do
      let layer := [.data, .tileindex, .tileitem].foldl (restoreString saved) layer
      let layer ← restoreFilter saved layer
      let layer := restoreString saved layer .filteritem
      let layer := restoreProcessing saved layer
      some { layer with orig_st := none }

def tokenValue (scale : α) (st : ScaleTokenObj α) : Option CString :=
  if scale ≤ 0 then st.tokens.head?.map (·.value)
  else (st.tokens.find? fun ste => decide (scale < ste.maxscale) && decide (ste.minscale ≤ scale)).map (·.value)

def replaceString (name value : CString) (layer : ScaleLayer) (field : LayerString) : ScaleLayer :=
  match layer.strings field with
  | some string =>
    if strstr string.text name then
      let orig_st := check_st_alloc layer
      let (replaced, heap) := layer.heap.msStrdup (msReplaceSubstring name value string.text)
      { layer with
        strings := Function.update layer.strings field (some replaced)
        orig_st := some { orig_st with strings := Function.update orig_st.strings field (some string) }
        heap }
    else layer
  | none => layer

def replaceFilter (name value : CString) (layer : ScaleLayer) : Option ScaleLayer :=
  match layer.filter.string with
  | some string =>
    if strstr string.text name then do
      let orig_st := check_st_alloc layer
      let (copy, heap) := layer.heap.msStrdup string.text
      let tmpval := msReplaceSubstring name value (withParentheses layer.filter.type string.text)
      let (filter, heap) ← msLoadExpressionString layer.filter tmpval heap
      some { layer with filter, orig_st := some { orig_st with filter := some copy }, heap }
    else some layer
  | none => some layer

/-- The saved directives, or copies of them when none were saved yet. -/
def keptProcessing (layer : ScaleLayer) : List CharPtr × StringHeap :=
  match (check_st_alloc layer).processing with
  | some processing => (processing, layer.heap)
  | none => layer.heap.duplicate layer.processing

def replaceDirective (name value : CString) (layer : ScaleLayer) (p : Nat) : ScaleLayer :=
  match layer.processing[p]? with
  | some directive =>
    if strstr directive.text name then
      let (processing, heap) := keptProcessing layer
      let (replaced, heap) := (heap.msFree (some directive)).msStrdup (msReplaceSubstring name value directive.text)
      { layer with
        processing := layer.processing.set p replaced
        orig_st := some { check_st_alloc layer with processing := some processing }
        heap }
    else layer
  | none => layer

def applyToken (name value : CString) (layer : ScaleLayer) : Option ScaleLayer := do
  let layer := [.data, .tileindex, .tileitem, .filteritem].foldl (replaceString name value) layer
  let layer ← replaceFilter name value layer
  some ((List.range layer.processing.length).foldl (replaceDirective name value) layer)

def applyTokens (scale : α) (scaletokens : List (ScaleTokenObj α)) (layer : ScaleLayer) : Option ScaleLayer :=
  scaletokens.foldlM (fun layer st => (tokenValue scale st).bind fun value => applyToken st.name value layer) layer

def msLayerApplyScaletokens (scaletokens : List (ScaleTokenObj α)) (scale : α) (layer : ScaleLayer) : Option ScaleLayer :=
  if scaletokens.isEmpty then some layer
  else (msLayerRestoreFromScaletokens scaletokens layer).bind (applyTokens scale scaletokens)

inductive ScaleCall (α : Type) where
  | msLayerApplyScaletokens (scale : α)
  | msLayerRestoreFromScaletokens

def ScaleCall.run (scaletokens : List (ScaleTokenObj α)) : ScaleCall α → ScaleLayer → Option ScaleLayer
  | .msLayerApplyScaletokens scale => MapServer.msLayerApplyScaletokens scaletokens scale
  | .msLayerRestoreFromScaletokens => MapServer.msLayerRestoreFromScaletokens scaletokens

end Layers

end MapServer
