import MapServer.Text

/-! The layout of `resultObj` and `rectObj` is that of a 64-bit machine, in its byte order. Doubles are their bits. -/

namespace MapServer
open Lib.Bytes

/-- The last field is what the compiler puts behind `classindex`. -/
structure ResultObj where
  shape : BitVec 64
  shapeindex : BitVec 64
  tileindex : BitVec 32
  resultindex : BitVec 32
  classindex : BitVec 32
  padding : BitVec 32
  deriving DecidableEq

/-- The first `numresults` elements of `results`. -/
structure ResultCacheObj where
  results : List ResultObj
  bounds : RectObj (BitVec 64)
  deriving DecidableEq

structure QueryLayer where
  tileindex : Option CString
  resultcache : Option ResultCacheObj
  deriving DecidableEq

/-- A map whose layers and results are counted by an `int`, the slots for layers by 64. -/
structure QueryMap where
  layer : List QueryLayer
  numlayers : layer.length ≤ 2 ^ 31 - 64
  numresults : ∀ lp ∈ layer, ∀ cache ∈ lp.resultcache, cache.results.length < 2 ^ 31

section File
variable (bigEndian : Bool)

def resultBytes (result : ResultObj) : List UInt8 :=
  encode bigEndian 8 result.shape.toNat ++ encode bigEndian 8 result.shapeindex.toNat ++
  encode bigEndian 4 result.tileindex.toNat ++ encode bigEndian 4 result.resultindex.toNat ++
  encode bigEndian 4 result.classindex.toNat ++ encode bigEndian 4 result.padding.toNat

def boundsBytes (bounds : RectObj (BitVec 64)) : List UInt8 :=
  encode bigEndian 8 bounds.minx.toNat ++ encode bigEndian 8 bounds.miny.toNat ++
  encode bigEndian 8 bounds.maxx.toNat ++ encode bigEndian 8 bounds.maxy.toNat

def wordAt (bytes : List UInt8) (offset width : Nat) : Nat :=
  decode bigEndian ((bytes.drop offset).take width)

def resultOfBytes (bytes : List UInt8) : ResultObj where
  shape := .ofNat 64 (wordAt bigEndian bytes 0 8)
  shapeindex := .ofNat 64 (wordAt bigEndian bytes 8 8)
  tileindex := .ofNat 32 (wordAt bigEndian bytes 16 4)
  resultindex := .ofNat 32 (wordAt bigEndian bytes 20 4)
  classindex := .ofNat 32 (wordAt bigEndian bytes 24 4)
  padding := .ofNat 32 (wordAt bigEndian bytes 28 4)

def boundsOfBytes (bytes : List UInt8) : RectObj (BitVec 64) where
  minx := .ofNat 64 (wordAt bigEndian bytes 0 8)
  miny := .ofNat 64 (wordAt bigEndian bytes 8 8)
  maxx := .ofNat 64 (wordAt bigEndian bytes 16 8)
  maxy := .ofNat 64 (wordAt bigEndian bytes 24 8)

def cacheBytes (cache : ResultCacheObj) : List UInt8 :=
  encode bigEndian 4 cache.results.length ++ boundsBytes bigEndian cache.bounds ++ cache.results.flatMap (resultBytes bigEndian)

/-- The second loop of `saveQueryResults`, from layer `i` on. -/
def saveLayers (i : Nat) : List QueryLayer → List UInt8
  | [] => []
  | lp :: rest =>
    (match lp.resultcache with
      | none => []
      | some cache => encode bigEndian 4 i ++ cacheBytes bigEndian cache) ++ saveLayers (i + 1) rest

def MS_QUERY_RESULTS_MAGIC_STRING : CString := ascii "MapServer Query Results"

def MS_QUERY_PARAMS_MAGIC_STRING : CString := ascii "MapServer Query Params"

def saveQueryResults (layer : List QueryLayer) : List UInt8 :=
  MS_QUERY_RESULTS_MAGIC_STRING ++ ascii " - Generated by msSaveQuery()\n" ++
  encode bigEndian 4 (layer.countP fun lp => lp.resultcache.isSome) ++ saveLayers bigEndian 0 layer

def fread (count : Nat) (stream : List UInt8) : Option (List UInt8 × List UInt8) :=
  if count ≤ stream.length then some (stream.take count, stream.drop count) else none

def freadInt (stream : List UInt8) : Option (Int × List UInt8) :=
  (fread 4 stream).map fun (bytes, rest) => (decodeInt bigEndian bytes, rest)

def resetIndexes (tiled : Bool) (result : ResultObj) : ResultObj :=
  { result with tileindex := if tiled then result.tileindex else -1, resultindex := -1 }

def loadResults (tiled : Bool) : Nat → List UInt8 → Option (List ResultObj × List UInt8)
  | 0, stream => some ([], stream)
  | count + 1, stream => do
    let (bytes, stream) ← fread 32 stream
    let (rest, stream) ← loadResults tiled count stream
    some (resetIndexes tiled (resultOfBytes bigEndian bytes) :: rest, stream)

def loadCache (tiled : Bool) (stream : List UInt8) : Option (ResultCacheObj × List UInt8) := do
  let (numresults, stream) ← freadInt bigEndian stream
  if numresults < 0 then none
  else
    let (bounds, stream) ← fread 32 stream
    let (results, stream) ← loadResults bigEndian tiled numresults.toNat stream
    some (⟨results, boundsOfBytes bigEndian bounds⟩, stream)

def setCache (layer : List QueryLayer) (j : Nat) (cache : Option ResultCacheObj) : List QueryLayer :=
  layer.modify j fun lp => { lp with resultcache := cache }

/-- The loop of `loadQueryResults`. A layer whose results fail is left without a cache. -/
def loadLayers : Nat → List UInt8 → List QueryLayer → Bool × List QueryLayer
  | 0, _, layer => (true, layer)
  | n + 1, stream, layer =>
    match freadInt bigEndian stream with
    | none => (false, layer)
    | some (j, stream) =>
      if j < 0 then (false, layer)
      else match layer[j.toNat]? with
        | none => (false, layer)
        | some lp =>
          match loadCache bigEndian lp.tileindex.isSome stream with
          | none => (false, setCache layer j.toNat none)
          | some (cache, stream) => loadLayers n stream (setCache layer j.toNat (some cache))

def loadQueryResults (stream : List UInt8) (layer : List QueryLayer) : Bool × List QueryLayer :=
  match freadInt bigEndian stream with
  | none => (false, layer)
  | some (n, stream) => if n > INT_MAX - 1 then (false, layer) else loadLayers bigEndian n.toNat stream layer

def MS_BUFFER_LENGTH : Nat := 2048

def fgets (size : Nat) (stream : List UInt8) : List UInt8 × List UInt8 :=
  let line := ((stream.takeWhile fun c => c ≠ 10) ++ (stream.dropWhile fun c => c ≠ 10).take 1).take (size - 1)
  (line, stream.drop line.length)

/-- `strncasecmp(buffer, magic, strlen(magic)) == 0`. -/
def startsWith (buffer magic : CString) : Bool :=
  sameIgnoringCase (buffer.take magic.length) magic

def msLoadQuery (loadQueryParams : List UInt8 → List QueryLayer → Bool × List QueryLayer) (filename : CString)
    (file : Option (List UInt8)) (layer : List QueryLayer) : Bool × List QueryLayer :=
  if !(ascii ".qy").isSuffixOf filename then (false, layer)
  else match file with
    | none => (false, layer)
    | some content =>
      let (buffer, stream) := fgets MS_BUFFER_LENGTH content
      if buffer = [] then (false, layer)
      else if startsWith buffer MS_QUERY_RESULTS_MAGIC_STRING then loadQueryResults bigEndian stream layer
      else if startsWith buffer MS_QUERY_PARAMS_MAGIC_STRING then loadQueryParams stream layer
      else (false, layer)

end File

end MapServer
