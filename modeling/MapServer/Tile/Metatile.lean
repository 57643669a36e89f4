import Mathlib.Data.Int.Bitwise
import Mathlib.Data.Rat.Lemmas
import Mathlib.Algebra.Order.Ring.Rat
import MapServer.Runtime
import MapServer.Text

namespace MapServer

inductive TileModes where
  | TILE_GMAP
  | TILE_VE
  deriving DecidableEq

structure TileMetadata where
  tile_map_edge_buffer : Option CString
  tile_metatile_level : Option CString
  labelcache_map_edge_buffer : Option CString

/-- The parts of a `mapservObj` that the tile code uses. -/
structure MapservObj where
  metadata : TileMetadata
  TileMode : TileModes
  TileCoords : Option CString
  TileWidth : Int
  TileHeight : Int

inductive TileError where
  | reported (error : ErrorObj)
  /-- A null pointer is read. -/
  | fault
  deriving DecidableEq

def tileError (code : MsErrorCode) (message : String) : TileError :=
  .reported { code, message, routine := "msTileSetup()" }

def SPHEREMERC_GROUND_SIZE : ℚ := 20037508.34 * 2
def SPHEREMERC_IMAGE_SIZE : Int := 0x0100

structure TileParams where
  metatile_level : Nat
  tile_width : Int
  tile_height : Int
  map_edge_buffer : Int

def msTileResetMetatileLevel (msObj : MapservObj) : MapservObj :=
  { msObj with metadata := { msObj.metadata with tile_metatile_level := some (ascii "0") } }

def msTileGetGMapCoords (coordstring : Option CString) : Except TileError (Int × Int × Int) :=
  match coordstring with
  | none => .error (tileError .MS_WEBERR "Tile parameter not set.")
  | some text =>
    match msStringSplit 32 text with
    | [x, y, zoom] => .ok (int32 (strtol x), int32 (strtol y), int32 (strtol zoom))
    | _ => .error (tileError .MS_WEBERR "Invalid number of tile coordinates (should be three).")

def msTileGetParams (msObj : MapservObj) : TileParams where
  tile_width := if msObj.TileWidth < 0 then SPHEREMERC_IMAGE_SIZE else msObj.TileWidth
  tile_height := if msObj.TileHeight < 0 then SPHEREMERC_IMAGE_SIZE else msObj.TileHeight
  map_edge_buffer := (msObj.metadata.tile_map_edge_buffer.map atoi).getD 0
  -- Quietly force metatile_level to be sane
  metatile_level := (min 2 (max 0 ((msObj.metadata.tile_metatile_level.map atoi).getD 0))).toNat

def msTileSetup (msObj : MapservObj) : Except TileError MapservObj :=
  let params := msTileGetParams msObj
  match msObj.TileMode with
  | .TILE_GMAP => do
    let (x, y, zoom) ← msTileGetGMapCoords msObj.TileCoords
    let msObj := if params.metatile_level ≥ zoom then msTileResetMetatileLevel msObj else msObj
    let zoomfactor : ℚ := 2 ^ zoom
    if x ≥ zoomfactor ∨ y ≥ zoomfactor then
      .error (tileError .MS_CGIERR "GMap tile coordinates are too large for supplied zoom.")
    else if x < 0 ∨ y < 0 then
      .error (tileError .MS_CGIERR "GMap tile coordinates should not be less than zero.")
    else .ok msObj
  | .TILE_VE =>
    match msObj.TileCoords with
    | none => .error .fault
    | some coords =>
      if !coords.all (ascii "0123").contains then
        .error (tileError .MS_CGIERR "VE tile name should only include characters 0, 1, 2 and 3.")
      else if params.metatile_level ≥ coords.length then .ok (msTileResetMetatileLevel msObj)
      else .ok msObj

structure WalkState where
  minx : ℚ
  miny : ℚ
  maxx : ℚ
  maxy : ℚ
  zoom : ℚ

def walkStep (state : WalkState) (j : UInt8) : WalkState :=
  let tsize := SPHEREMERC_GROUND_SIZE / state.zoom
  { minx := if j = 49 ∨ j = 51 then state.minx + tsize else state.minx
    maxx := if j = 48 ∨ j = 50 then state.maxx - tsize else state.maxx
    maxy := if j = 50 ∨ j = 51 then state.maxy - tsize else state.maxy
    miny := if j = 48 ∨ j = 49 then state.miny + tsize else state.miny
    zoom := state.zoom * 2 }

def addressExtent (msObj : MapservObj) (metatile_level : Nat) : Except TileError (RectObj ℚ) :=
  match msObj.TileMode with
  | .TILE_GMAP => do
    let (x, y, zoom) ← msTileGetGMapCoords msObj.TileCoords
    -- the address of the metatile
    let zoom := if metatile_level > 0 then zoom - metatile_level else zoom
    let x := if metatile_level > 0 then x >>> metatile_level else x
    let y := if metatile_level > 0 then y >>> metatile_level else y
    let tilesize := SPHEREMERC_GROUND_SIZE / 2 ^ zoom
    .ok {
      minx := x * tilesize - SPHEREMERC_GROUND_SIZE / 2
      maxx := (x + 1) * tilesize - SPHEREMERC_GROUND_SIZE / 2
      miny := SPHEREMERC_GROUND_SIZE / 2 - (y + 1) * tilesize
      maxy := SPHEREMERC_GROUND_SIZE / 2 - y * tilesize }
  | .TILE_VE =>
    match msObj.TileCoords with
    | none => .error .fault
    | some coords =>
      let half := SPHEREMERC_GROUND_SIZE / 2
      let state := (coords.take (coords.length - metatile_level)).foldl walkStep ⟨-half, -half, half, half, 2⟩
      .ok ⟨state.minx, state.miny, state.maxx, state.maxy⟩

structure TileMap where
  extent : RectObj ℚ
  width : Int
  height : Int
  deriving DecidableEq

def addGutters (params : TileParams) (extent : RectObj ℚ) : TileMap :=
  let width := params.tile_width <<< params.metatile_level
  let height := params.tile_height <<< params.metatile_level
  let buffer := params.map_edge_buffer * (extent.maxx - extent.minx) / width
  { extent := ⟨extent.minx - buffer, extent.miny - buffer, extent.maxx + buffer, extent.maxy + buffer⟩
    width := width + 2 * params.map_edge_buffer
    height := height + 2 * params.map_edge_buffer }

def adjustInwards (map : TileMap) : TileMap :=
  let dx := (map.extent.maxx - map.extent.minx) / map.width
  let dy := (map.extent.maxy - map.extent.miny) / map.height
  { map with extent :=
      ⟨map.extent.minx + dx / 2, map.extent.miny + dy / 2, map.extent.maxx - dx / 2, map.extent.maxy - dy / 2⟩ }

def setLabelBuffer (params : TileParams) (metadata : TileMetadata) : TileMetadata :=
  let enlarged := { metadata with
    labelcache_map_edge_buffer := some (ascii ("-" ++ toString params.map_edge_buffer)) }
  if params.map_edge_buffer > 0 then
    match metadata.labelcache_map_edge_buffer with
    | none => enlarged
    | some value => if params.map_edge_buffer > |atoi value| then enlarged else metadata
  else metadata

def tileEdges (msObj : MapservObj) : Except TileError TileMap :=
  let params := msTileGetParams msObj
  (addressExtent msObj params.metatile_level).map (addGutters params)

def msTileSetExtent (msObj : MapservObj) : Except TileError (TileMap × MapservObj) := do
  let edges ← tileEdges msObj
  return (adjustInwards edges, { msObj with metadata := setLabelBuffer (msTileGetParams msObj) msObj.metadata })

structure SubTile where
  mini : Int
  minj : Int
  tile_width : Int
  tile_height : Int
  deriving DecidableEq

structure CutState where
  mini : Int
  minj : Int
  zoom : Int

def cutStep (width : Int) (state : CutState) (j : UInt8) : CutState :=
  let tsize := width.tdiv state.zoom
  { mini := if j = 49 ∨ j = 51 then state.mini + tsize else state.mini
    minj := if j = 50 ∨ j = 51 then state.minj + tsize else state.minj
    zoom := state.zoom * 2 }

def subTileMask (metatile_level : Nat) : Int := ((0xffff ^^^ (0xffff <<< metatile_level) : Nat) : Int)

/-- What is cut out of an image that is `imgWidth` pixels wide; nothing when the address is too short. -/
def msTileExtractSubTile (msObj : MapservObj) (imgWidth : Int) : Option SubTile :=
  let params := msTileGetParams msObj
  let width := imgWidth - 2 * params.map_edge_buffer
  let mini := params.map_edge_buffer
  let minj := params.map_edge_buffer
  match msObj.TileMode with
  | .TILE_GMAP =>
    match msTileGetGMapCoords msObj.TileCoords with
    | .error _ => none
    | .ok (x, y, _) =>
      -- The bottom N bits of the coordinates give us the subtile location relative to the metatile.
      let x := (subTileMask params.metatile_level).land x
      let y := (subTileMask params.metatile_level).land y
      some ⟨mini + x * params.tile_width, minj + y * params.tile_height, params.tile_width, params.tile_height⟩
  | .TILE_VE =>
    match msObj.TileCoords with
    | none => none
    | some coords =>
      if (coords.length : Int) - params.metatile_level < 0 then none
      else
        let state := (coords.drop (coords.length - params.metatile_level)).foldl (cutStep width) ⟨mini, minj, 2⟩
        some ⟨state.mini, state.minj, params.tile_width, params.tile_height⟩

end MapServer
