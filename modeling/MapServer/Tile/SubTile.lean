import Mathlib.Tactic.FieldSimp
import Mathlib.Tactic.IntervalCases
import Mathlib.Tactic.Linarith
import Mathlib.Tactic.LinearCombination
import Mathlib.Tactic.Positivity
import Mathlib.Tactic.Ring
import MapServer.Tile.Metatile

namespace MapServer
open List

/-- The ground of the cell in column `x` and row `y` of a grid of cells of size `size`. -/
def cellExtent (x y size : ℚ) : RectObj ℚ where
  minx := x * size - SPHEREMERC_GROUND_SIZE / 2
  maxx := (x + 1) * size - SPHEREMERC_GROUND_SIZE / 2
  miny := SPHEREMERC_GROUND_SIZE / 2 - (y + 1) * size
  maxy := SPHEREMERC_GROUND_SIZE / 2 - y * size

def groundOf (edges : TileMap) (part : SubTile) : RectObj ℚ :=
  let dx := (edges.extent.maxx - edges.extent.minx) / edges.width
  let dy := (edges.extent.maxy - edges.extent.miny) / edges.height
  { minx := edges.extent.minx + part.mini * dx
    maxx := edges.extent.minx + (part.mini + part.tile_width) * dx
    maxy := edges.extent.maxy - part.minj * dy
    miny := edges.extent.maxy - (part.minj + part.tile_height) * dy }

def singleTile (msObj : MapservObj) : MapservObj :=
  { msObj with metadata := { msObj.metadata with tile_map_edge_buffer := none, tile_metatile_level := none } }

section Gutters
variable {W H B k s : ℚ}

theorem gutter_pixelWidth (width : 0 < W) (scale : 0 < k) (buffer : 0 ≤ B) :
    (s + 2 * (B * s / (W * k))) / (W * k + 2 * B) = s / (W * k) := by
  field_simp

theorem gutter_rowHeight_iff (size : 0 < s) (width : 0 < W) (height : 0 < H) (scale : 0 < k) (buffer : 0 ≤ B) :
    (s + 2 * (B * s / (W * k))) / (H * k + 2 * B) = s / (H * k) ↔ W = H ∨ B = 0 := by
  have full : H * k ≠ 0 := by positivity
  have whole : H * k + 2 * B ≠ 0 := by positivity
  rw [div_eq_div_iff whole full]
  have expand : (s + 2 * (B * s / (W * k))) * (H * k) - s * (H * k + 2 * B) = 2 * s / W * ((H - W) * B) := by
    field_simp
    ring
  have factor : 2 * s / W ≠ 0 := by positivity
  rw [← sub_eq_zero, expand, mul_eq_zero, mul_eq_zero, sub_eq_zero]
  constructor
  · rintro (impossible | rfl | empty)
    · exact absurd impossible factor
    · exact Or.inl rfl
    · exact Or.inr empty
  · rintro (rfl | empty)
    · exact Or.inr (Or.inl rfl)
    · exact Or.inr (Or.inr empty)

theorem gutter_height (same : W = H ∨ B = 0) : B * s / (W * k) = B * (s / (H * k)) := by
  rcases same with rfl | empty
  · rw [mul_div_assoc]
  · rw [empty, zero_mul, zero_mul, zero_div]

end Gutters

theorem groundOf_addGutters_iff {params : TileParams} {x y size u v : ℚ} {p q : Int} (positive : 0 < size)
    (width : 0 < params.tile_width) (height : 0 < params.tile_height) (buffer : 0 ≤ params.map_edge_buffer) :
    groundOf (addGutters params (cellExtent x y size)) ⟨p, q, params.tile_width, params.tile_height⟩ =
        cellExtent (x * 2 ^ params.metatile_level + u) (y * 2 ^ params.metatile_level + v)
          (size / 2 ^ params.metatile_level) ↔
      (p - params.map_edge_buffer = u * params.tile_width ∧ q - params.map_edge_buffer = v * params.tile_height) ∧
        (params.tile_width = params.tile_height ∨ params.map_edge_buffer = 0) := by
  obtain ⟨level, w, h, b⟩ := params
  have widthQ : (0 : ℚ) < w := by exact_mod_cast width
  have heightQ : (0 : ℚ) < h := by exact_mod_cast height
  have bufferQ : (0 : ℚ) ≤ b := by exact_mod_cast buffer
  have scaleQ : (0 : ℚ) < 2 ^ level := by positivity
  have squareQ : (w = h ∨ b = 0) ↔ ((w : ℚ) = h ∨ (b : ℚ) = 0) := by norm_cast
  rw [squareQ]
  simp only [groundOf, addGutters, cellExtent, RectObj.mk.injEq, Int.shiftLeft_eq]
  push_cast
  generalize (w : ℚ) = W at *
  generalize (h : ℚ) = H at *
  generalize (b : ℚ) = B at *
  generalize (p : ℚ) = P at *
  generalize (q : ℚ) = Q at *
  generalize (2 : ℚ) ^ level = k at *
  generalize SPHEREMERC_GROUND_SIZE / 2 = G
  have across : (x + 1) * size - G - (x * size - G) = size := by ring
  rw [across]
  have columns : (x + 1) * size - G + B * size / (W * k) - (x * size - G - B * size / (W * k)) =
      size + 2 * (B * size / (W * k)) := by ring
  have rows : G - y * size + B * size / (W * k) - (G - (y + 1) * size - B * size / (W * k)) =
      size + 2 * (B * size / (W * k)) := by ring
  rw [columns, rows, gutter_pixelWidth widthQ scaleQ bufferQ]
  have square := gutter_rowHeight_iff positive widthQ heightQ scaleQ bufferQ
  generalize (size + 2 * (B * size / (W * k))) / (H * k + 2 * B) = row at square ⊢
  -- the columns, by the width `pixel` of one of them
  obtain ⟨pixel, pixelDef⟩ : ∃ pixel, pixel = size / (W * k) := ⟨_, rfl⟩
  have pixelPos : 0 < pixel := by rw [pixelDef]; positivity
  have sizeW : size = pixel * (W * k) := by rw [pixelDef]; field_simp
  have cellW : size / k = pixel * W := by rw [pixelDef]; field_simp
  have gutterW : B * size / (W * k) = B * pixel := by rw [pixelDef]; ring
  have left : x * size - G - B * pixel + P * pixel = (x * k + u) * (pixel * W) - G ↔ P - B = u * W := by
    rw [sizeW]
    constructor <;> intro equal
    · exact mul_left_cancel₀ pixelPos.ne' (by linear_combination equal)
    · linear_combination pixel * equal
  have right : x * size - G - B * pixel + (P + W) * pixel = (x * k + u + 1) * (pixel * W) - G ↔ P - B = u * W := by
    rw [sizeW]
    constructor <;> intro equal
    · exact mul_left_cancel₀ pixelPos.ne' (by linear_combination equal)
    · linear_combination pixel * equal
  rw [← pixelDef, gutterW, cellW, left, right]
  -- the rows, by the height of one of them
  have rowPos : 0 < size / (H * k) := by positivity
  have top (same : row = size / (H * k)) : G - y * size + B * pixel - Q * row = G - (y * k + v) * (pixel * W) ↔
      Q - B = v * H := by
    have gutterH : B * pixel = B * row := by rw [← gutterW, gutter_height (square.mp same), same]
    have sizeH : size = row * (H * k) := by rw [same]; field_simp
    have cellH : pixel * W = row * H := by rw [← cellW, same]; field_simp
    rw [gutterH, cellH, sizeH]
    constructor <;> intro equal
    · exact mul_left_cancel₀ (same ▸ rowPos.ne' : row ≠ 0) (by linear_combination -equal)
    · linear_combination -row * equal
  constructor
  · rintro ⟨column, low, _, high⟩
    have tall : H * row = pixel * W := by linear_combination high - low
    have same : row = size / (H * k) := by
      rw [eq_div_iff (by positivity), sizeW]
      linear_combination k * tall
    exact ⟨⟨column, (top same).mp high⟩, square.mp same⟩
  · rintro ⟨⟨column, down⟩, shape⟩
    have same := square.mpr shape
    have high := (top same).mpr down
    have cellH : H * row = pixel * W := by rw [← cellW, same]; field_simp
    exact ⟨column, by linear_combination high - cellH, column, high⟩

theorem shiftLeft_land (bits n : Nat) : bits <<< 16 &&& n = (bits &&& (n >>> 16)) <<< 16 := by
  apply Nat.eq_of_testBit_eq
  intro i
  by_cases high : 16 ≤ i
  · simp [high, Nat.testBit_shiftLeft, show 16 + (i - 16) = i by omega]
  · simp [high, Nat.testBit_shiftLeft]

theorem subTileMask_land {level n : Nat} (bound : level ≤ 2) :
    (subTileMask level).land n = n % 2 ^ level + 65536 * (n / 65536 % 2 ^ level) := by
  have mask : 0xffff ^^^ (0xffff <<< level) = (2 ^ level - 1) ||| ((2 ^ level - 1) <<< 16) := by
    interval_cases level <;> decide
  have low : n % 2 ^ level < 2 ^ 16 :=
    (Nat.mod_lt _ (Nat.two_pow_pos level)).trans_le (Nat.pow_le_pow_right (by decide) (by omega))
  have bits : (0xffff ^^^ (0xffff <<< level)) &&& n = n % 2 ^ level + 65536 * (n / 65536 % 2 ^ level) := by
    rw [mask, Nat.and_or_distrib_right, shiftLeft_land, Nat.and_comm, Nat.and_two_pow_sub_one_eq_mod,
      Nat.and_comm (2 ^ level - 1), Nat.and_two_pow_sub_one_eq_mod, Nat.or_comm, ← Nat.shiftLeft_add_eq_or_of_lt low,
      Nat.shiftLeft_eq, Nat.shiftRight_eq_div_pow]
    exact (Nat.add_comm _ _).trans (congrArg _ (Nat.mul_comm _ _))
  exact congrArg Int.ofNat bits

def quadCoord (farSide : UInt8 → Bool) (coords : CString) : Nat :=
  coords.foldl (fun coord j => 2 * coord + (farSide j).toNat) 0

def isEast (j : UInt8) : Bool := j = 49 ∨ j = 51

def isSouth (j : UInt8) : Bool := j = 50 ∨ j = 51

def IsQuadkey (coords : CString) : Prop := ∀ j ∈ coords, j = 48 ∨ j = 49 ∨ j = 50 ∨ j = 51

theorem quadCoord_snoc (farSide : UInt8 → Bool) (coords : CString) (j : UInt8) :
    quadCoord farSide (coords ++ [j]) = 2 * quadCoord farSide coords + (farSide j).toNat := by
  simp [quadCoord]

theorem quadCoord_append (farSide : UInt8 → Bool) (coords last : CString) :
    quadCoord farSide (coords ++ last) = quadCoord farSide coords * 2 ^ last.length + quadCoord farSide last := by
  induction last using reverseRecOn with
  | nil => simp [quadCoord]
  | append_singleton rest j ih =>
    rw [← append_assoc, quadCoord_snoc, ih, quadCoord_snoc, length_append, length_singleton, pow_succ]
    ring

theorem quadCoord_cons (farSide : UInt8 → Bool) (j : UInt8) (rest : CString) :
    quadCoord farSide (j :: rest) = (farSide j).toNat * 2 ^ rest.length + quadCoord farSide rest := by
  have split := quadCoord_append farSide [j] rest
  simpa [quadCoord] using split

theorem quadCoord_eq_zero_iff (farSide : UInt8 → Bool) (coords : CString) :
    quadCoord farSide coords = 0 ↔ ∀ j ∈ coords, farSide j = false := by
  induction coords with
  | nil => simp [quadCoord]
  | cons j rest ih =>
    rw [quadCoord_cons, Nat.add_eq_zero_iff, ih, forall_mem_cons]
    cases farSide j <;> simp

theorem foldl_walkStep {coords : CString} (valid : IsQuadkey coords) :
    let half := SPHEREMERC_GROUND_SIZE / 2
    let cell := cellExtent (quadCoord isEast coords) (quadCoord isSouth coords)
      (SPHEREMERC_GROUND_SIZE / 2 ^ coords.length)
    coords.foldl walkStep ⟨-half, -half, half, half, 2⟩ =
      ⟨cell.minx, cell.miny, cell.maxx, cell.maxy, 2 ^ (coords.length + 1)⟩ := by
  induction coords using reverseRecOn with
  | nil =>
    simp [cellExtent, quadCoord]
    constructor <;> ring
  | append_singleton rest j ih =>
    have before := ih fun digit member => valid digit (mem_append_left _ member)
    have digit := valid j (mem_append_right _ (mem_singleton.mpr rfl))
    dsimp only at before ⊢
    rw [foldl_append, before, foldl_cons, foldl_nil, quadCoord_snoc, quadCoord_snoc, length_append,
      length_singleton]
    rcases digit with rfl | rfl | rfl | rfl <;>
      simp [walkStep, cellExtent, isEast, isSouth, pow_succ] <;> refine ⟨?_, ?_, ?_, ?_⟩ <;> field_simp <;> ring

/-- The loop over the last digits of a quadkey finds the column and the row of the tile, both in tile widths. -/
theorem foldl_cutStep {coords : CString} {width tile zoom i j : Int} (positive : 0 < zoom)
    (fits : 2 * width = tile * zoom * 2 ^ coords.length) :
    coords.foldl (cutStep width) ⟨i, j, zoom⟩ =
      ⟨i + quadCoord isEast coords * tile, j + quadCoord isSouth coords * tile, zoom * 2 ^ coords.length⟩ := by
  induction coords generalizing i j zoom with
  | nil => simp [quadCoord]
  | cons digit rest ih =>
    have whole : width = zoom * (tile * 2 ^ rest.length) := by
      rw [length_cons, pow_succ] at fits
      linarith
    have tsize : width.tdiv zoom = tile * 2 ^ rest.length := by
      rw [whole, Int.mul_tdiv_cancel_left _ positive.ne']
    have next : 0 < zoom * 2 := by omega
    rw [foldl_cons, cutStep, tsize, ih next (by rw [whole]; ring), quadCoord_cons, quadCoord_cons,
      length_cons, pow_succ, CutState.mk.injEq]
    refine ⟨?_, ?_, by ring⟩
    · by_cases east : digit = 49 ∨ digit = 51
      · simp only [isEast, east, if_true, decide_true, Bool.toNat_true]
        push_cast
        ring
      · simp [isEast, east]
    · by_cases south : digit = 50 ∨ digit = 51
      · simp only [isSouth, south, if_true, decide_true, Bool.toNat_true]
        push_cast
        ring
      · simp [isSouth, south]

theorem metatile_level_le (msObj : MapservObj) : (msTileGetParams msObj).metatile_level ≤ 2 := by
  simp only [msTileGetParams]
  omega

@[simp] theorem reset_metatile_level (msObj : MapservObj) :
    (msTileGetParams (msTileResetMetatileLevel msObj)).metatile_level = 0 := by
  have zero : atoi (ascii "0") = 0 := by simp [ascii, atoi, strtol, digitsValue, isspace, isdigit, int32]
  simp [msTileGetParams, msTileResetMetatileLevel, zero]

inductive ValidTile (tile : MapservObj) : Prop where
  | gmap (mode : tile.TileMode = .TILE_GMAP) (x y : Nat) (zoom : Int)
      (address : msTileGetGMapCoords tile.TileCoords = .ok (x, y, zoom))
  | ve (mode : tile.TileMode = .TILE_VE) (coords : CString) (address : tile.TileCoords = some coords)
      (quadkey : IsQuadkey coords) (level : (msTileGetParams tile).metatile_level ≤ coords.length)

theorem isQuadkey_of_contains {coords : CString} (only : coords.all (ascii "0123").contains = true) :
    IsQuadkey coords := by
  intro j member
  have digit := List.all_eq_true.mp only j member
  simpa [ascii] using digit

theorem msTileSetup_valid {msObj tile : MapservObj} (setup : msTileSetup msObj = .ok tile) : ValidTile tile := by
  rw [msTileSetup] at setup
  split at setup
  · rename_i mode
    cases parsed : msTileGetGMapCoords msObj.TileCoords with
    | error _ =>
      rw [parsed] at setup
      cases setup
    | ok address =>
      obtain ⟨x, y, zoom⟩ := address
      rw [parsed] at setup
      dsimp only [Except.bind, bind] at setup
      split at setup
      · cases setup
      · split at setup
        · cases setup
        · rename_i small nonneg
          push Not at nonneg
          have same : tile.TileMode = .TILE_GMAP ∧ tile.TileCoords = msObj.TileCoords := by
            rw [← Except.ok.inj setup]
            split
            · exact ⟨mode, rfl⟩
            · exact ⟨mode, rfl⟩
          apply ValidTile.gmap same.1 x.toNat y.toNat zoom
          rw [same.2, parsed, Int.toNat_of_nonneg nonneg.1, Int.toNat_of_nonneg nonneg.2]
  · rename_i mode
    split at setup
    · cases setup
    · rename_i coords address
      split at setup
      · cases setup
      · rename_i only
        have quadkey := isQuadkey_of_contains (by simpa using only)
        split at setup
        · rw [← Except.ok.inj setup]
          exact .ve mode coords address quadkey (by rw [reset_metatile_level]; omega)
        · rename_i level
          rw [← Except.ok.inj setup]
          exact .ve mode coords address quadkey (by omega)

def CutsTile (tile : MapservObj) : Prop :=
  let params := msTileGetParams tile
  match tile.TileMode with
  | .TILE_GMAP =>
    match msTileGetGMapCoords tile.TileCoords with
    | .ok (x, y, _) => (x / 65536 % 2 ^ params.metatile_level = 0 ∧ y / 65536 % 2 ^ params.metatile_level = 0) ∧
        (params.tile_width = params.tile_height ∨ params.map_edge_buffer = 0)
    | .error _ => False
  | .TILE_VE =>
    match tile.TileCoords with
    | some coords => params.tile_width = params.tile_height ∨ params.map_edge_buffer = 0 ∧
        ∀ j ∈ coords.drop (coords.length - params.metatile_level), isSouth j = false
    | none => False

/-- The tile is cut out of the metatile `edges` as the part of it that is the ground of the tile `single`. -/
def CutsOut (tile : MapservObj) (P : Prop) : Prop :=
  ∃ edges single part, tileEdges tile = .ok edges ∧ tileEdges (singleTile tile) = .ok single ∧
    msTileExtractSubTile tile edges.width = some part ∧ (groundOf edges part = single.extent ↔ P)

theorem addGutters_single {tile : MapservObj} (extent : RectObj ℚ) :
    (addGutters (msTileGetParams (singleTile tile)) extent).extent = extent := by
  simp [addGutters, msTileGetParams, singleTile]

section Cut
variable {tile : MapservObj}

theorem addressExtent_gmap {x y : Nat} {zoom : Int} (mode : tile.TileMode = .TILE_GMAP)
    (address : msTileGetGMapCoords tile.TileCoords = .ok (x, y, zoom)) (level : Nat) :
    addressExtent tile level = .ok (cellExtent (x / 2 ^ level : Nat) (y / 2 ^ level : Nat)
      (SPHEREMERC_GROUND_SIZE / 2 ^ zoom * 2 ^ level)) := by
  have shift (n : Nat) : ((n : Int) >>> level : Int) = (n / 2 ^ level : Nat) := by
    rw [Int.shiftRight_eq_div_pow]
    norm_cast
  have size : SPHEREMERC_GROUND_SIZE / (2 : ℚ) ^ (zoom - level) = SPHEREMERC_GROUND_SIZE / 2 ^ zoom * 2 ^ level := by
    rw [zpow_sub₀ two_ne_zero, zpow_natCast, div_div_eq_mul_div, div_mul_eq_mul_div]
  simp only [addressExtent, mode, address, bind, Except.bind]
  by_cases positive : level > 0
  · simp only [if_pos positive, shift, size, cellExtent, Int.cast_natCast]
  · have zero : level = 0 := by omega
    subst zero
    simp [cellExtent]

theorem addressExtent_ve {coords : CString} (mode : tile.TileMode = .TILE_VE) (address : tile.TileCoords = some coords)
    (quadkey : IsQuadkey coords) (level : Nat) :
    let shorter := coords.take (coords.length - level)
    addressExtent tile level = .ok (cellExtent (quadCoord isEast shorter) (quadCoord isSouth shorter)
      (SPHEREMERC_GROUND_SIZE / 2 ^ shorter.length)) := by
  have valid : IsQuadkey (coords.take (coords.length - level)) := fun j member => quadkey j (mem_of_mem_take member)
  have walk := foldl_walkStep valid
  simp only [addressExtent, mode, address, walk]

theorem tileEdges_of_address {extent : RectObj ℚ}
    (address : addressExtent tile (msTileGetParams tile).metatile_level = .ok extent) :
    tileEdges tile = .ok (addGutters (msTileGetParams tile) extent) := by
  simp only [tileEdges, address, Except.map]

theorem cutsOut_of_cells {x y u v : Nat} {size : ℚ} {p q : Int} {P : Prop} (positive : 0 < size)
    (valid : 0 < (msTileGetParams tile).tile_width ∧ 0 < (msTileGetParams tile).tile_height ∧
      0 ≤ (msTileGetParams tile).map_edge_buffer)
    (metatile : addressExtent tile (msTileGetParams tile).metatile_level = .ok (cellExtent x y size))
    (single : addressExtent (singleTile tile) 0 =
      .ok (cellExtent (x * 2 ^ (msTileGetParams tile).metatile_level + u)
        (y * 2 ^ (msTileGetParams tile).metatile_level + v) (size / 2 ^ (msTileGetParams tile).metatile_level)))
    (part : msTileExtractSubTile tile ((msTileGetParams tile).tile_width <<< (msTileGetParams tile).metatile_level +
        2 * (msTileGetParams tile).map_edge_buffer) =
      some ⟨(msTileGetParams tile).map_edge_buffer + p, (msTileGetParams tile).map_edge_buffer + q,
        (msTileGetParams tile).tile_width, (msTileGetParams tile).tile_height⟩)
    (inside : ((p = u * (msTileGetParams tile).tile_width ∧ q = v * (msTileGetParams tile).tile_height) ∧
      ((msTileGetParams tile).tile_width = (msTileGetParams tile).tile_height ∨
        (msTileGetParams tile).map_edge_buffer = 0)) ↔ P) : CutsOut tile P := by
  refine ⟨_, _, _, tileEdges_of_address metatile, tileEdges_of_address single, part, ?_⟩
  rw [addGutters_single, groundOf_addGutters_iff positive valid.1 valid.2.1 valid.2.2, ← inside]
  push_cast
  rw [add_sub_cancel_left, add_sub_cancel_left]
  norm_cast

theorem ground_positive : 0 < SPHEREMERC_GROUND_SIZE := by
  norm_num [SPHEREMERC_GROUND_SIZE]

theorem masked_eq_iff {low high size : Int} (positive : 0 < size) :
    (low + 65536 * high) * size = low * size ↔ high = 0 := by
  constructor
  · intro equal
    have same := Int.eq_of_mul_eq_mul_right positive.ne' equal
    omega
  · rintro rfl
    rw [mul_zero, add_zero]

theorem cutsOut_gmap {x y : Nat} {zoom : Int} (mode : tile.TileMode = .TILE_GMAP)
    (address : msTileGetGMapCoords tile.TileCoords = .ok (x, y, zoom))
    (valid : 0 < (msTileGetParams tile).tile_width ∧ 0 < (msTileGetParams tile).tile_height ∧
      0 ≤ (msTileGetParams tile).map_edge_buffer) : CutsOut tile (CutsTile tile) := by
  have metatile := addressExtent_gmap mode address (msTileGetParams tile).metatile_level
  have single := @addressExtent_gmap (singleTile tile) _ _ _ mode address 0
  have masked (n : Nat) := @subTileMask_land _ n (metatile_level_le tile)
  have part : ∀ width, msTileExtractSubTile tile width =
      some ⟨(msTileGetParams tile).map_edge_buffer +
          (subTileMask (msTileGetParams tile).metatile_level).land x * (msTileGetParams tile).tile_width,
        (msTileGetParams tile).map_edge_buffer +
          (subTileMask (msTileGetParams tile).metatile_level).land y * (msTileGetParams tile).tile_height,
        (msTileGetParams tile).tile_width, (msTileGetParams tile).tile_height⟩ := by
    intro width
    simp only [msTileExtractSubTile, mode, address]
  have split (n : Nat) : ((n / 2 ^ (msTileGetParams tile).metatile_level : Nat) : ℚ) *
      2 ^ (msTileGetParams tile).metatile_level + (n % 2 ^ (msTileGetParams tile).metatile_level : Nat) = n := by
    exact_mod_cast Nat.div_add_mod' n (2 ^ (msTileGetParams tile).metatile_level)
  have positive : 0 < SPHEREMERC_GROUND_SIZE / 2 ^ zoom * 2 ^ (msTileGetParams tile).metatile_level :=
    mul_pos (div_pos ground_positive (zpow_pos two_pos _)) (pow_pos two_pos _)
  have inside (n : Nat) {size : Int} (sizePos : 0 < size) :
      (subTileMask (msTileGetParams tile).metatile_level).land n * size =
          (n % 2 ^ (msTileGetParams tile).metatile_level : Nat) * size ↔
        (n / 65536 % 2 ^ (msTileGetParams tile).metatile_level : Int) = 0 := by
    rw [masked, ← masked_eq_iff sizePos]
    rfl
  apply cutsOut_of_cells positive valid metatile _ (part _)
  · simp only [CutsTile, mode, address]
    rw [inside x valid.1, inside y valid.2.1]
  · rw [single, split, split]
    simp

theorem cutsOut_ve {coords : CString} (mode : tile.TileMode = .TILE_VE) (address : tile.TileCoords = some coords)
    (quadkey : IsQuadkey coords) (level : (msTileGetParams tile).metatile_level ≤ coords.length)
    (valid : 0 < (msTileGetParams tile).tile_width ∧ 0 < (msTileGetParams tile).tile_height ∧
      0 ≤ (msTileGetParams tile).map_edge_buffer) : CutsOut tile (CutsTile tile) := by
  have metatile := addressExtent_ve mode address quadkey (msTileGetParams tile).metatile_level
  have single := @addressExtent_ve (singleTile tile) _ mode address quadkey 0
  obtain ⟨first, firstDef⟩ : ∃ first, first = coords.take (coords.length - (msTileGetParams tile).metatile_level) :=
    ⟨_, rfl⟩
  obtain ⟨last, lastDef⟩ : ∃ last, last = coords.drop (coords.length - (msTileGetParams tile).metatile_level) :=
    ⟨_, rfl⟩
  have whole : coords = first ++ last := by rw [firstDef, lastDef, take_append_drop]
  have lastLength : last.length = (msTileGetParams tile).metatile_level := by
    rw [lastDef, length_drop]
    omega
  have fits : 2 * ((msTileGetParams tile).tile_width <<< (msTileGetParams tile).metatile_level) =
      (msTileGetParams tile).tile_width * 2 * 2 ^ last.length := by
    rw [lastLength, Int.shiftLeft_eq]
    ring
  have part : msTileExtractSubTile tile ((msTileGetParams tile).tile_width <<< (msTileGetParams tile).metatile_level +
      2 * (msTileGetParams tile).map_edge_buffer) =
      some ⟨(msTileGetParams tile).map_edge_buffer + quadCoord isEast last * (msTileGetParams tile).tile_width,
        (msTileGetParams tile).map_edge_buffer + quadCoord isSouth last * (msTileGetParams tile).tile_width,
        (msTileGetParams tile).tile_width, (msTileGetParams tile).tile_height⟩ := by
    simp only [msTileExtractSubTile, mode, address]
    rw [if_neg (by omega), add_sub_cancel_right, ← lastDef, foldl_cutStep two_pos fits]
  have cell : addressExtent (singleTile tile) 0 = .ok (cellExtent
      ((quadCoord isEast first : Nat) * 2 ^ (msTileGetParams tile).metatile_level + (quadCoord isEast last : Nat))
      ((quadCoord isSouth first : Nat) * 2 ^ (msTileGetParams tile).metatile_level + (quadCoord isSouth last : Nat))
      (SPHEREMERC_GROUND_SIZE / 2 ^ first.length / 2 ^ (msTileGetParams tile).metatile_level)) := by
    rw [single, Nat.sub_zero, take_length, whole, quadCoord_append, quadCoord_append, length_append, lastLength,
      pow_add, div_div]
    push_cast
    rfl
  have inside : (((quadCoord isEast last : Int) * (msTileGetParams tile).tile_width =
        (quadCoord isEast last : Nat) * (msTileGetParams tile).tile_width ∧
      (quadCoord isSouth last : Int) * (msTileGetParams tile).tile_width =
        (quadCoord isSouth last : Nat) * (msTileGetParams tile).tile_height) ∧
      ((msTileGetParams tile).tile_width = (msTileGetParams tile).tile_height ∨
        (msTileGetParams tile).map_edge_buffer = 0)) ↔ CutsTile tile := by
    simp only [CutsTile, mode, address, ← lastDef, ← quadCoord_eq_zero_iff, mul_eq_mul_left_iff, true_and]
    norm_cast
    tauto
  rw [← firstDef] at metatile
  exact cutsOut_of_cells (div_pos ground_positive (pow_pos two_pos _)) valid metatile cell part inside

end Cut

/-- For every tile request that is set up, the part cut out is the tile exactly when `CutsTile` says so. -/
theorem subTile_isTile_iff {msObj tile : MapservObj} (setup : msTileSetup msObj = .ok tile)
    (width : 0 < (msTileGetParams tile).tile_width) (height : 0 < (msTileGetParams tile).tile_height)
    (buffer : 0 ≤ (msTileGetParams tile).map_edge_buffer) :
    ∃ edges single part, tileEdges tile = .ok edges ∧ tileEdges (singleTile tile) = .ok single ∧
      msTileExtractSubTile tile edges.width = some part ∧
      (groundOf edges part = single.extent ↔ CutsTile tile) := by
  rcases msTileSetup_valid setup with ⟨mode, x, y, zoom, address⟩ | ⟨mode, coords, address, quadkey, level⟩
  · exact cutsOut_gmap mode address ⟨width, height, buffer⟩
  · exact cutsOut_ve mode address quadkey level ⟨width, height, buffer⟩

def quadTile : MapservObj where
  metadata := ⟨some (ascii "10"), some (ascii "1"), none⟩
  TileMode := .TILE_VE
  TileCoords := some (ascii "12")
  TileWidth := -1
  TileHeight := -1

theorem atoi_one : atoi (ascii "1") = 1 := by
  simp [ascii, atoi, strtol, digitsValue, isspace, isdigit, int32]

theorem atoi_ten : atoi (ascii "10") = 10 := by
  simp [ascii, atoi, strtol, digitsValue, isspace, isdigit, int32]

theorem quadTile_setup : msTileSetup quadTile = .ok quadTile := by
  have only : (ascii "12").all (ascii "0123").contains = true := by simp [ascii]
  have length : (ascii "12").length = 2 := by simp [ascii]
  simp [msTileSetup, msTileGetParams, quadTile, only, length, atoi_one]

theorem subTile_isTile_quadTile :
    ∃ edges single part, tileEdges quadTile = .ok edges ∧ tileEdges (singleTile quadTile) = .ok single ∧
      msTileExtractSubTile quadTile edges.width = some part ∧ groundOf edges part = single.extent := by
  obtain ⟨edges, single, part, drawn, tile, cut, iff⟩ := subTile_isTile_iff quadTile_setup (by decide) (by decide)
    (by simp [msTileGetParams, quadTile, atoi_ten])
  exact ⟨edges, single, part, drawn, tile, cut, iff.mpr (Or.inl rfl)⟩

def farTile : MapservObj where
  metadata := ⟨none, some (ascii "1"), none⟩
  TileMode := .TILE_GMAP
  TileCoords := some (ascii "65536 0 17")
  TileWidth := -1
  TileHeight := -1

theorem farTile_coords : msTileGetGMapCoords farTile.TileCoords = .ok ((65536 : Nat), (0 : Nat), 17) := by
  have tokens : msStringSplit 32 (ascii "65536 0 17") = [ascii "65536", ascii "0", ascii "17"] := by
    simp [msStringSplit, splitStep, ascii]
  have column : strtol (ascii "65536") = 65536 := by simp [ascii, strtol, digitsValue, isspace, isdigit]
  have row : strtol (ascii "0") = 0 := by simp [ascii, strtol, digitsValue, isspace, isdigit]
  have zoom : strtol (ascii "17") = 17 := by simp [ascii, strtol, digitsValue, isspace, isdigit]
  simp [msTileGetGMapCoords, farTile, tokens, column, row, zoom, int32]

theorem farTile_setup : msTileSetup farTile = .ok farTile := by
  have coords := farTile_coords
  simp only [msTileSetup, coords, show farTile.TileMode = .TILE_GMAP from rfl, bind, Except.bind]
  norm_num [msTileGetParams, farTile, atoi_one]

theorem subTile_isOther : msTileSetup farTile = .ok farTile ∧
    ∃ edges single part, tileEdges farTile = .ok edges ∧ tileEdges (singleTile farTile) = .ok single ∧
      msTileExtractSubTile farTile edges.width = some part ∧ groundOf edges part ≠ single.extent := by
  obtain ⟨edges, single, part, drawn, tile, cut, iff⟩ := cutsOut_gmap rfl farTile_coords
    (by simp [msTileGetParams, farTile, SPHEREMERC_IMAGE_SIZE])
  refine ⟨farTile_setup, edges, single, part, drawn, tile, cut, fun same => ?_⟩
  have cuts := iff.mp same
  simp only [CutsTile, farTile_coords, show farTile.TileMode = .TILE_GMAP from rfl] at cuts
  simp [msTileGetParams, farTile, atoi_one] at cuts

end MapServer
