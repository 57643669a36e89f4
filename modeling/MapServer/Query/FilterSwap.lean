import MapServer.Map.ScaleTokens
import MapServer.Query.LayerQueries

/-!
`msQueryByFilter` of `mapquery.cpp` works with a filter of its own in `lp->filter` and puts the earlier one back, with
the copies and releases of `mapcopy.c` and `mapfile.c`. A layer starts with the filter that `msLayerOpen` leaves it,
its scale tokens replaced. What the items, the count and the shapes are is a part of the input.
-/

namespace MapServer.FilterSwap

/-- `memory` is the bound item, the string or the shape that the token owns. -/
structure TokenListNodeObj where
  address : Nat
  tokensrc : Option CharPtr
  memory : Option Nat

/-- `regex` is the memory of the regular expression, if it is `compiled`. -/
structure ExpressionObj where
  string : Option CharPtr
  type : ExpressionType
  flags : Nat
  tokens : List TokenListNodeObj
  regex : Option Nat
  native_string : Option CharPtr

def pointed (string : Option CharPtr) : List Nat := (string.map (·.address)).toList

def TokenListNodeObj.addresses (node : TokenListNodeObj) : List Nat :=
  pointed node.tokensrc ++ node.memory.toList ++ [node.address]

def ExpressionObj.addresses (exp : ExpressionObj) : List Nat :=
  pointed exp.string ++ pointed exp.native_string ++ exp.regex.toList ++ exp.tokens.flatMap (·.addresses)

def ExpressionObj.text (exp : ExpressionObj) : Option CString := exp.string.map (·.text)

def msInitExpression : ExpressionObj := ⟨none, .MS_STRING, 0, [], none, none⟩

def release (addresses : List Nat) (heap : StringHeap) : StringHeap := { heap with freed := addresses ++ heap.freed }

def msFreeExpressionTokens (exp : ExpressionObj) (heap : StringHeap) : ExpressionObj × StringHeap :=
  ({ exp with tokens := [] }, release (exp.tokens.flatMap (·.addresses)) heap)

def freeRegex (exp : ExpressionObj) (heap : StringHeap) : StringHeap :=
  if exp.type = .MS_REGEX then release exp.regex.toList heap else heap

def msFreeExpression (exp : ExpressionObj) (heap : StringHeap) : ExpressionObj × StringHeap :=
  let heap := (heap.msFree exp.string).msFree exp.native_string
  let heap := freeRegex exp heap
  (msInitExpression, (msFreeExpressionTokens exp heap).2)

def MS_COPYSTRING (dst src : Option CharPtr) (heap : StringHeap) : Option CharPtr × StringHeap :=
  let heap := heap.msFree dst
  match src with
  | some string =>
    let (copy, heap) := heap.msStrdup string.text
    (some copy, heap)
  | none => (none, heap)

def msCopyExpression (dst src : ExpressionObj) (heap : StringHeap) : ExpressionObj × StringHeap :=
  let heap := freeRegex dst heap
  let (string, heap) := MS_COPYSTRING dst.string src.string heap
  ({ dst with string, type := src.type, flags := src.flags, regex := none }, heap)

def MS_EXP_INSENSITIVE : Nat := 1

def translatedType : ExpressionType → LayerQueries.ExpressionType
  | .MS_EXPRESSION => .MS_EXPRESSION
  | .MS_REGEX => .MS_REGEX
  | .MS_STRING => .MS_STRING
  | .MS_LIST => .other

def filterTranslateToLogical (filter : ExpressionObj) (filteritem : Option CharPtr) : Option CString :=
  LayerQueries.filterTranslateToLogical
    ⟨filter.text, translatedType filter.type, decide (filter.flags &&& MS_EXP_INSENSITIVE ≠ 0)⟩ (filteritem.map (·.text))

def mergeFilters (filter1 : ExpressionObj) (filteritem1 : Option CharPtr) (filter2 : ExpressionObj)
    (filteritem2 : Option CharPtr) (heap : StringHeap) : ExpressionObj × StringHeap :=
  let filter := { msInitExpression with type := .MS_EXPRESSION }
  match filterTranslateToLogical filter1 filteritem1 with
  | none => (filter, heap)
  | some text1 =>
    let (tmpstr1, heap) := heap.msStrdup text1
    match filterTranslateToLogical filter2 filteritem2 with
    | none => (filter, heap.msFree (some tmpstr1))
    | some text2 =>
      let (tmpstr2, heap) := heap.msStrdup text2
      let (string, heap) := heap.msStrdup (text1 ++ ascii " AND " ++ text2)
      ({ filter with string := some string }, (heap.msFree (some tmpstr1)).msFree (some tmpstr2))

/-- The source text of a token, if it is kept, and whether the token owns its value. -/
structure TokenSource where
  tokensrc : Option CString
  owns : Bool

inductive FilterStep where
  | msFreeExpressionTokens
  | msTokenizeExpression (tokens : List TokenSource)
  | msLayerTranslateFilter (native_string : CString)
  | compileRegex
  /-- A driver frees the filter, and may load another one. -/
  | exchange (string : Option CString) (type : ExpressionType) (flags : Nat)

def newToken (source : TokenSource) (heap : StringHeap) : TokenListNodeObj × StringHeap :=
  let (tokensrc, heap) := match source.tokensrc with
    | some text => ((some (heap.msStrdup text).1 : Option CharPtr), (heap.msStrdup text).2)
    | none => (none, heap)
  let memory := if source.owns then some heap.next else none
  (⟨heap.next + 1, tokensrc, memory⟩, { heap with next := heap.next + 2 })

def newTokens : List TokenSource → StringHeap → List TokenListNodeObj × StringHeap
  | [], heap => ([], heap)
  | source :: rest, heap =>
    let (node, heap) := newToken source heap
    let (nodes, heap) := newTokens rest heap
    (node :: nodes, heap)

def FilterStep.run (step : FilterStep) (exp : ExpressionObj) (heap : StringHeap) : ExpressionObj × StringHeap :=
  match step with
  | .msFreeExpressionTokens => FilterSwap.msFreeExpressionTokens exp heap
  | .msTokenizeExpression tokens =>
    let (exp, heap) := FilterSwap.msFreeExpressionTokens exp heap
    let (tokens, heap) := newTokens tokens heap
    ({ exp with tokens }, heap)
  | .msLayerTranslateFilter native_string =>
    let (native_string, heap) := (heap.msFree exp.native_string).msStrdup native_string
    ({ exp with native_string := some native_string }, heap)
  | .compileRegex =>
    if exp.type = .MS_REGEX ∧ exp.regex = none then
      ({ exp with regex := some heap.next }, { heap with next := heap.next + 1 })
    else (exp, heap)
  | .exchange string type flags =>
    let (exp, heap) := msFreeExpression exp heap
    match string with
    | some text =>
      let (string, heap) := heap.msStrdup text
      ({ exp with string := some string, type, flags }, heap)
    | none => (exp, heap)

def runSteps (steps : List FilterStep) (exp : ExpressionObj) (heap : StringHeap) : ExpressionObj × StringHeap :=
  steps.foldl (fun (exp, heap) step => step.run exp heap) (exp, heap)

structure QueryObj where
  byFilter : Bool
  layer : Int
  maxfeatures : Int
  only_cache_result_count : Bool
  filter : ExpressionObj
  filteritem : Option CharPtr

inductive WhichShapes where
  | MS_SUCCESS
  | MS_DONE
  | MS_FAILURE

/-- A shape that is read. It may fail the tests of size, class and template, be skipped for the start index, and be the
last one that is wanted. -/
structure ShapeRead where
  steps : List FilterStep
  valid : Bool
  skipped : Bool
  last : Bool

/-- `shown` are the tests before the layer is opened, `malloc` whether there is memory for the result cache of a count.
`shapesEnd` is whether the reading ends with `MS_DONE`. -/
structure LayerObj where
  filter : ExpressionObj
  filteritem : Option CharPtr
  template : Option CString
  minfeaturesize : Int
  project : Bool
  shown : Bool
  msLayerOpen : Bool
  msLayerWhichItems : Bool × List FilterStep
  msLayerGetShapeCount : Int × List FilterStep
  malloc : Bool
  msLayerWhichShapes : WhichShapes × List FilterStep
  shapes : List ShapeRead
  shapesEnd : Bool × List FilterStep
  msProjectCreateReprojector : Bool

/-- A pass of the loop over the layers. `releases` counts the calls that free `old_filter`. -/
structure Pass where
  lp : LayerObj
  old_filteritem : Option CharPtr
  old_filter : ExpressionObj
  releases : Nat
  heap : StringHeap

def Pass.read (pass : Pass) (steps : List FilterStep) : Pass :=
  let (filter, heap) := runSteps steps pass.lp.filter pass.heap
  { pass with lp := { pass.lp with filter }, heap }

def Pass.msLayerClose (pass : Pass) : Pass := pass.read [.msFreeExpressionTokens]

def Pass.restore (pass : Pass) : Pass :=
  let lp := { pass.lp with filteritem := pass.old_filteritem }
  let (filter, heap) := msCopyExpression lp.filter pass.old_filter pass.heap
  let (old_filter, heap) := msFreeExpression pass.old_filter heap
  { pass with lp := { lp with filter }, old_filter, releases := pass.releases + 1, heap }

def saveFilter (lp : LayerObj) (heap : StringHeap) : Pass :=
  let (old_filter, heap) := msCopyExpression msInitExpression lp.filter heap
  ⟨lp, lp.filteritem, old_filter, 0, heap⟩

def applyFilter (query : QueryObj) (pass : Pass) : Pass :=
  let lp := { pass.lp with filteritem := query.filteritem }
  let (filter, heap) :=
    if pass.old_filter.string.isSome then
      let (_, heap) := msFreeExpression lp.filter pass.heap
      mergeFilters query.filter query.filteritem pass.old_filter pass.old_filteritem heap
    else msCopyExpression lp.filter query.filter pass.heap
  { pass with lp := { lp with filter }, heap }

/-- The loop over the shapes: whether it ends with `MS_DONE`, and the number of results. -/
def readShapes : List ShapeRead → Nat → Pass → Bool × Nat × Pass
  | [], numresults, pass => (pass.lp.shapesEnd.1, numresults, pass.read pass.lp.shapesEnd.2)
  | shape :: rest, numresults, pass =>
    let pass := pass.read shape.steps
    if !shape.valid then readShapes rest numresults pass
    else if pass.lp.project && !pass.lp.msProjectCreateReprojector then (false, numresults, pass)
    else if shape.skipped then readShapes rest numresults pass
    else if shape.last then (true, numresults + 1, pass)
    else readShapes rest (numresults + 1) pass

inductive Exit where
  | next
  | MS_FAILURE
  deriving DecidableEq

def queryShapes (query : QueryObj) (pass : Pass) : Exit × Pass :=
  let pass := pass.read pass.lp.msLayerWhichShapes.2
  match pass.lp.msLayerWhichShapes.1 with
  | .MS_DONE => (.next, pass.restore.msLayerClose)
  | .MS_FAILURE => (.MS_FAILURE, pass.restore.msLayerClose)
  | .MS_SUCCESS =>
    let (done, numresults, pass) := readShapes pass.lp.shapes 0 pass
    let pass := pass.restore
    if !done then (.MS_FAILURE, pass)
    else if !query.only_cache_result_count && numresults == 0 then (.next, pass.msLayerClose)
    else (.next, pass)

def countsAlone (query : QueryObj) (lp : LayerObj) : Bool :=
  query.only_cache_result_count && lp.template.isSome && decide (lp.minfeaturesize ≤ 0)

/-- `MS_CHECK_ALLOC` returns from between the two filters. -/
def queryItems (query : QueryObj) (pass : Pass) : Exit × Pass :=
  let pass := pass.read pass.lp.msLayerWhichItems.2
  if !pass.lp.msLayerWhichItems.1 then (.MS_FAILURE, pass.restore.msLayerClose)
  else if countsAlone query pass.lp then
    let pass := pass.read pass.lp.msLayerGetShapeCount.2
    if pass.lp.msLayerGetShapeCount.1 ≥ 0 then
      if !pass.lp.malloc then (.MS_FAILURE, pass) else (.next, pass.restore)
    else queryShapes query pass
  else queryShapes query pass

def queryFilter (query : QueryObj) (pass : Pass) : Exit × Pass :=
  let pass := applyFilter query pass
  if pass.old_filter.string.isSome && pass.lp.filter.string.isNone then (.MS_FAILURE, pass.restore.msLayerClose)
  else queryItems query pass

structure Visit where
  before : LayerObj
  saved : Option ExpressionObj
  releases : Nat
  lp : LayerObj
  exit : Exit
  heap : StringHeap

def visitLayer (query : QueryObj) (lp : LayerObj) (heap : StringHeap) : Visit :=
  if !lp.shown then ⟨lp, none, 0, lp, .next, heap⟩
  else if !lp.msLayerOpen then ⟨lp, none, 0, lp, .MS_FAILURE, heap⟩
  else
    let pass := saveFilter lp heap
    let (exit, left) := queryFilter query pass
    ⟨lp, some pass.old_filter, left.releases, left.lp, exit, left.heap⟩

def QueryObj.addresses (query : QueryObj) : List Nat := query.filter.addresses ++ pointed query.filteritem

def LayerObj.addresses (lp : LayerObj) : List Nat := lp.filter.addresses ++ pointed lp.filteritem

/-- Memory that is held or was freed has been allocated, and no layer holds memory of the query. -/
structure Separate (query : QueryObj) (layers : List LayerObj) (heap : StringHeap) : Prop where
  queried : ∀ a ∈ query.addresses, a < heap.next
  apart : ∀ lp ∈ layers, ∀ a ∈ lp.addresses, a < heap.next ∧ a ∉ query.addresses
  freed : ∀ a ∈ heap.freed, a < heap.next

structure MapObj where
  query : QueryObj
  layers : List LayerObj
  heap : StringHeap
  separate : Separate query layers heap

def visited (map : MapObj) : List Nat :=
  if map.query.layer < 0 ∨ map.query.layer ≥ map.layers.length then (List.range map.layers.length).reverse
  else [map.query.layer.toNat]

structure Run where
  success : Bool
  layers : List LayerObj
  heap : StringHeap
  visits : List Visit

def queryLayers (query : QueryObj) : List Nat → List LayerObj → StringHeap → Run
  | [], layers, heap => ⟨true, layers, heap, []⟩
  | l :: rest, layers, heap =>
    if query.maxfeatures = 0 then ⟨true, layers, heap, []⟩
    else match layers[l]? with
    | none => ⟨true, layers, heap, []⟩
    | some lp =>
      let visit := visitLayer query lp heap
      match visit.exit with
      | .MS_FAILURE => ⟨false, layers.set l visit.lp, visit.heap, [visit]⟩
      | .next =>
        let run := queryLayers query rest (layers.set l visit.lp) visit.heap
        { run with visits := visit :: run.visits }

def msQueryByFilter (map : MapObj) : Run :=
  if !map.query.byFilter || map.query.filter.string.isNone then ⟨false, map.layers, map.heap, []⟩
  else queryLayers map.query (visited map) map.layers map.heap

end MapServer.FilterSwap
