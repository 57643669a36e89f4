import Mathlib.Data.List.TakeWhile
import MapServer.Decimal
import MapServer.Tile.SubTile

namespace MapServer
open List Option

theorem quadCoord_lt (farSide : UInt8 → Bool) (coords : CString) : quadCoord farSide coords < 2 ^ coords.length := by
  induction coords with
  | nil => simp [quadCoord]
  | cons j rest ih =>
    have bit : (farSide j).toNat ≤ 1 := Bool.toNat_le _
    have high : (farSide j).toNat * 2 ^ rest.length ≤ 1 * 2 ^ rest.length := Nat.mul_le_mul_right _ bit
    rw [quadCoord_cons, length_cons, pow_succ]
    omega

theorem quadCoord_take (farSide : UInt8 → Bool) {coords : CString} {level : Nat} (within : level ≤ coords.length) :
    quadCoord farSide (coords.take (coords.length - level)) = quadCoord farSide coords / 2 ^ level := by
  obtain ⟨first, firstDef⟩ : ∃ first, first = coords.take (coords.length - level) := ⟨_, rfl⟩
  obtain ⟨last, lastDef⟩ : ∃ last, last = coords.drop (coords.length - level) := ⟨_, rfl⟩
  have whole : coords = first ++ last := by rw [firstDef, lastDef, take_append_drop]
  have lastLength : last.length = level := by
    rw [lastDef, length_drop]
    omega
  have low := quadCoord_lt farSide last
  rw [← firstDef, whole, quadCoord_append, ← lastLength, Nat.mul_comm, Nat.mul_add_div (Nat.two_pow_pos _),
    Nat.div_eq_of_lt low, Nat.add_zero]

def gmapAddress (coords : CString) : CString :=
  natText (quadCoord isEast coords) ++ 32 :: (natText (quadCoord isSouth coords) ++ 32 :: natText coords.length)

theorem foldl_splitStep {ch : UInt8} {token : CString} (inside : ∀ c ∈ token, c ≠ ch) (state : SplitState) :
    token.foldl (splitStep ch) state =
      ⟨state.tokens, state.current ++ token, (token.getLast?).getD state.last_ch⟩ := by
  induction token generalizing state with
  | nil => simp
  | cons c rest ih =>
    rw [forall_mem_cons] at inside
    rw [foldl_cons, splitStep, if_neg inside.1, ih inside.2, append_assoc, singleton_append,
      getLast?_cons, getD_some]

theorem space_not_in_natText (n : Nat) : ∀ c ∈ natText n, c ≠ 32 := by
  rintro c member rfl
  have digit := isdigit_natText n _ member
  simp [isdigit] at digit

theorem msStringSplit_numbers (x y zoom : Nat) :
    msStringSplit 32 (natText x ++ 32 :: (natText y ++ 32 :: natText zoom)) = [natText x, natText y, natText zoom] := by
  have last (n : Nat) (before : UInt8) : ((natText n).getLast?).getD before ≠ 32 := by
    rw [getLast?_eq_some_getLast (natText_ne_nil n), getD_some]
    exact space_not_in_natText n _ (getLast_mem _)
  simp only [msStringSplit, foldl_append, foldl_cons, foldl_splitStep (space_not_in_natText _)]
  simp [splitStep, last]

theorem strtol_digits {digits : CString} (areDigits : ∀ c ∈ digits, isdigit c = true) :
    strtol digits = max (-9223372036854775808) (min 9223372036854775807 (digitsValue digits)) := by
  have all : digits.takeWhile isdigit = digits := takeWhile_eq_self_iff.mpr areDigits
  cases digits with
  | nil => rfl
  | cons first rest => rw [strtol_cons (areDigits first mem_cons_self), all]

theorem strtol_natText {n : Nat} (small : n < 2 ^ 31) : int32 (strtol (natText n)) = n := by
  rw [strtol_digits (isdigit_natText n), digitsValue_natText, int32_of_range (by omega) (by omega)]
  omega

theorem msTileGetGMapCoords_gmapAddress {coords : CString} (short : coords.length ≤ 31) :
    msTileGetGMapCoords (some (gmapAddress coords)) =
      .ok ((quadCoord isEast coords : Nat), (quadCoord isSouth coords : Nat), (coords.length : Nat)) := by
  have limit : 2 ^ coords.length ≤ 2 ^ 31 := Nat.pow_le_pow_right (by decide) short
  have column := quadCoord_lt isEast coords
  have row := quadCoord_lt isSouth coords
  rw [msTileGetGMapCoords, gmapAddress, msStringSplit_numbers]
  dsimp only
  rw [strtol_natText (by omega), strtol_natText (by omega), strtol_natText (by omega)]

theorem addressExtent_quadkey {ve gmap : MapservObj} {coords : CString} {level : Nat} (veMode : ve.TileMode = .TILE_VE)
    (key : ve.TileCoords = some coords) (quadkey : IsQuadkey coords) (gmapMode : gmap.TileMode = .TILE_GMAP)
    (address : msTileGetGMapCoords gmap.TileCoords =
      .ok ((quadCoord isEast coords : Nat), (quadCoord isSouth coords : Nat), (coords.length : Nat)))
    (within : level ≤ coords.length) : addressExtent ve level = addressExtent gmap level := by
  have walk := addressExtent_ve veMode key quadkey level
  have size : SPHEREMERC_GROUND_SIZE / 2 ^ (coords.length - level) =
      SPHEREMERC_GROUND_SIZE / 2 ^ (coords.length : Int) * 2 ^ level := by
    have whole : (2 : ℚ) ^ coords.length = 2 ^ (coords.length - level) * 2 ^ level := by
      rw [← pow_add, Nat.sub_add_cancel within]
    rw [zpow_natCast, whole]
    field_simp
  rw [walk, addressExtent_gmap gmapMode address, quadCoord_take isEast within, quadCoord_take isSouth within,
    length_take, Nat.min_eq_left (Nat.sub_le _ _), size]

theorem msTileSetExtent_of_edges {msObj : MapservObj} {edges : TileMap} (drawn : tileEdges msObj = .ok edges) :
    msTileSetExtent msObj =
      .ok (adjustInwards edges, { msObj with metadata := setLabelBuffer (msTileGetParams msObj) msObj.metadata }) := by
  simp only [msTileSetExtent, drawn]
  rfl

/-- A tile gets the same extent and the same image size by its quadkey as by its column, row and zoom level. -/
theorem msTileSetExtent_quadkey {ve gmap : MapservObj} {coords : CString} (veMode : ve.TileMode = .TILE_VE)
    (key : ve.TileCoords = some coords) (quadkey : IsQuadkey coords) (gmapMode : gmap.TileMode = .TILE_GMAP)
    (address : msTileGetGMapCoords gmap.TileCoords =
      .ok ((quadCoord isEast coords : Nat), (quadCoord isSouth coords : Nat), (coords.length : Nat)))
    (same : msTileGetParams gmap = msTileGetParams ve)
    (within : (msTileGetParams ve).metatile_level ≤ coords.length) :
    ∃ map veAfter gmapAfter, msTileSetExtent ve = .ok (map, veAfter) ∧ msTileSetExtent gmap = .ok (map, gmapAfter) := by
  have agree := addressExtent_quadkey veMode key quadkey gmapMode address within
  have drawn := addressExtent_gmap gmapMode address (msTileGetParams ve).metatile_level
  have gmapEdges := tileEdges_of_address (same ▸ drawn)
  have veEdges := tileEdges_of_address (agree.trans drawn)
  rw [same] at gmapEdges
  exact ⟨_, _, _, msTileSetExtent_of_edges veEdges, msTileSetExtent_of_edges gmapEdges⟩

def inOtherMode (ve : MapservObj) (coords : CString) : MapservObj :=
  { ve with TileMode := .TILE_GMAP, TileCoords := some (gmapAddress coords) }

theorem isQuadkey_quadTile : IsQuadkey (ascii "12") := isQuadkey_of_contains (by simp [ascii])

theorem msTileSetExtent_quadTile :
    ∃ map veAfter gmapAfter, msTileSetExtent quadTile = .ok (map, veAfter) ∧
      msTileSetExtent (inOtherMode quadTile (ascii "12")) = .ok (map, gmapAfter) := by
  have length : (ascii "12").length = 2 := by simp [ascii]
  have within : (msTileGetParams quadTile).metatile_level ≤ (ascii "12").length := by
    simp [msTileGetParams, quadTile, atoi_one, length]
  have veMode : quadTile.TileMode = .TILE_VE := rfl
  have gmapMode : (inOtherMode quadTile (ascii "12")).TileMode = .TILE_GMAP := rfl
  exact msTileSetExtent_quadkey veMode rfl isQuadkey_quadTile gmapMode
    (msTileGetGMapCoords_gmapAddress (by omega)) rfl within

def shortTile : MapservObj where
  metadata := ⟨none, some (ascii "2"), none⟩
  TileMode := .TILE_VE
  TileCoords := some (ascii "0")
  TileWidth := -1
  TileHeight := -1

theorem atoi_two : atoi (ascii "2") = 2 := by
  simp [ascii, atoi, strtol, digitsValue, isspace, isdigit, int32]

/-- Without the reset in `msTileSetup`, a key that is shorter than the metatile level stops at the whole world, while
the zoom level becomes negative. -/
theorem msTileSetExtent_shortTile :
    ¬∀ (ve gmap : MapservObj) (coords : CString), coords ≠ [] → ve.TileMode = .TILE_VE → ve.TileCoords = some coords →
      IsQuadkey coords → gmap.TileMode = .TILE_GMAP →
      msTileGetGMapCoords gmap.TileCoords =
        .ok ((quadCoord isEast coords : Nat), (quadCoord isSouth coords : Nat), (coords.length : Nat)) →
      msTileGetParams gmap = msTileGetParams ve →
      ∃ map veAfter gmapAfter, msTileSetExtent ve = .ok (map, veAfter) ∧ msTileSetExtent gmap = .ok (map, gmapAfter) := by
  intro agree
  have key : ascii "0" = [48] := by simp [ascii]
  have quadkey : IsQuadkey (ascii "0") := isQuadkey_of_contains (by simp [ascii])
  have veMode : shortTile.TileMode = .TILE_VE := rfl
  have gmapMode : (inOtherMode shortTile (ascii "0")).TileMode = .TILE_GMAP := rfl
  have address : msTileGetGMapCoords (inOtherMode shortTile (ascii "0")).TileCoords = _ :=
    msTileGetGMapCoords_gmapAddress (by simp [key])
  have sameParams : msTileGetParams (inOtherMode shortTile (ascii "0")) = msTileGetParams shortTile := rfl
  obtain ⟨map, veAfter, gmapAfter, veDrawn, gmapDrawn⟩ :=
    agree _ _ _ (by simp [key]) veMode rfl quadkey gmapMode address sameParams
  rw [msTileSetExtent_of_edges (tileEdges_of_address (addressExtent_ve veMode rfl quadkey _)), Except.ok.injEq,
    Prod.mk.injEq] at veDrawn
  rw [msTileSetExtent_of_edges (tileEdges_of_address (addressExtent_gmap gmapMode address _)), Except.ok.injEq,
    Prod.mk.injEq] at gmapDrawn
  have same := congrArg (·.extent.minx) (veDrawn.1.trans gmapDrawn.1.symm)
  have level : (msTileGetParams shortTile).metatile_level = 2 := by
    simp [msTileGetParams, shortTile, atoi_two]
  have noBuffer : (msTileGetParams shortTile).map_edge_buffer = 0 := rfl
  have width : (msTileGetParams shortTile).tile_width = 256 := rfl
  have west : (isEast 48).toNat = 0 := rfl
  rw [sameParams] at same
  norm_num [adjustInwards, addGutters, cellExtent, level, noBuffer, width, key, quadCoord, west, Int.shiftLeft_eq,
    SPHEREMERC_GROUND_SIZE] at same

end MapServer
