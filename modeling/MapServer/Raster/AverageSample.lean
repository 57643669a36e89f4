import MapServer.Bits
import MapServer.Lib.Loop
import MapServer.Lib.Slots
import MapServer.Lib.UnitCells
import Mathlib.Algebra.BigOperators.Pi
import Mathlib.Algebra.Order.BigOperators.Ring.Finset
import Mathlib.Data.Rat.Floor

/-! The sampler of the resampling by averages. `none` stands for an access outside an array. -/

namespace MapServer
open Lib Lib.UnitCells Finset

variable {K : Type} [Field K] [LinearOrder K] [FloorRing K]

/-- `img`, as `imagemode` says how to read it. -/
inductive RawPixels (K : Type)
  | raw_16bit (pixels : Slots Int16)
  | raw_float (pixels : Slots K)
  | raw_double (pixels : Slots K)
  | raw_byte (pixels : Slots UInt8)

def RawPixels.value : RawPixels K → Nat → Option K
  | .raw_16bit pixels, off => (pixels.load off).map fun value => (value.toInt : K)
  | .raw_float pixels, off => pixels.load off
  | .raw_double pixels, off => pixels.load off
  | .raw_byte pixels, off => (pixels.load off).map fun value => (value.toNat : K)

structure RawImage (K : Type) where
  width : Nat
  height : Nat
  bands : Nat
  img : RawPixels K
  img_mask : BitArray

structure RgbaArrayObj where
  r : Slots UInt8
  g : Slots UInt8
  b : Slots UInt8
  a : Option (Slots UInt8)
  pixel_step : Int
  row_step : Int

/-- What `renderer` says of the source. -/
inductive SourceImage (K : Type)
  | plugin (rgba : RgbaArrayObj)
  | rawdata (image : RawImage K)
  | other

def loadAt {α : Type} (slots : Slots α) (off : Int) : Option α := if off < 0 then none else slots.load off.toNat

/-- C does not say what `1 << count` is from 32 on; `wide` is what the machine makes of it. -/
def oneShifted (wide : Nat → BitVec 32) (count : Nat) : BitVec 32 := if count < 32 then 1#32 <<< count else wide count

def MS_GET_BIT (wide : Nat → BitVec 32) (array : BitArray) (i : Nat) : Option Bool :=
  (array[i / 32]?).map fun word => (word &&& oneShifted wide (i % 64)) != 0

/-- `padfPixelSum[iX] = change(padfPixelSum[iX])` -/
def changeAt (padfPixelSum : Slots K) (iX : Nat) (change : K → K) : Option (Slots K) := do
  padfPixelSum.store iX (change (← padfPixelSum.load iX))

def sampleBands (image : RawImage K) (dfWeight : K) : Nat → Nat → Nat → Slots K → Option (Slots K)
  | 0, _, _, padfPixelSum => some padfPixelSum
  | left + 1, band, src_off, padfPixelSum => do
    let value ← image.img.value src_off
    let padfPixelSum ← changeAt padfPixelSum band (· + dfWeight * value)
    sampleBands image dfWeight left (band + 1) (src_off + image.width * image.height) padfPixelSum

def sampleRgba (rgba : RgbaArrayObj) (rb_off : Int) (dfWeight : K) (padfPixelSum : Slots K) : Option (Slots K) := do
  let padfPixelSum ← changeAt padfPixelSum 0 (· + ((← loadAt rgba.r rb_off).toNat : K) * dfWeight)
  let padfPixelSum ← changeAt padfPixelSum 1 (· + ((← loadAt rgba.g rb_off).toNat : K) * dfWeight)
  changeAt padfPixelSum 2 (· + ((← loadAt rgba.b rb_off).toNat : K) * dfWeight)

def msSourceSample (wide : Nat → BitVec 32) (source : SourceImage K) (iSrcX iSrcY : Int) (padfPixelSum : Slots K)
    (dfWeight dfWeightSum : K) : Option (Slots K × K) :=
  match source with
  | .plugin rgba =>
    let rb_off := iSrcX * rgba.pixel_step + iSrcY * rgba.row_step
    match rgba.a with
    | none => do some (← sampleRgba rgba rb_off dfWeight padfPixelSum, dfWeightSum + dfWeight)
    | some a => do
      let alpha ← loadAt a rb_off
      if alpha > 1 then
        some (← sampleRgba rgba rb_off dfWeight padfPixelSum, dfWeightSum + dfWeight * ((alpha.toNat : K) / ((255 : Nat) : K)))
      else some (padfPixelSum, dfWeightSum)
  | .rawdata image => do
    let src_off := iSrcX + iSrcY * image.width
    if src_off < 0 then none
    else if ← MS_GET_BIT wide image.img_mask src_off.toNat then
      some (← sampleBands image dfWeight image.bands 0 src_off.toNat padfPixelSum, dfWeightSum + dfWeight)
    else some (padfPixelSum, dfWeightSum)
  | .other => some (padfPixelSum, dfWeightSum)

structure Window (K : Type) where
  dfXMin : K
  dfYMin : K
  dfXMax : K
  dfYMax : K

def toZero (x : K) : Int := if x < 0 then ⌈x⌉ else ⌊x⌋

def Window.columns (window : Window K) : List Int := cells (toZero window.dfXMin) ⌈window.dfXMax⌉

def Window.rows (window : Window K) : List Int := cells (toZero window.dfYMin) ⌈window.dfYMax⌉

structure Sums (K : Type) where
  padfPixelSum : Slots K
  dfWeightSum : K
  dfMaxWeight : K

def averageCell (wide : Nat → BitVec 32) (source : SourceImage K) (window : Window K) (iY : Int) (sums : Sums K) (iX : Int) :
    Option (Sums K) := do
  let dfYCellMin := max (iY : K) window.dfYMin
  let dfYCellMax := min ((iY : K) + 1) window.dfYMax
  let dfXCellMin := max (iX : K) window.dfXMin
  let dfXCellMax := min ((iX : K) + 1) window.dfXMax
  let dfWeight := (dfXCellMax - dfXCellMin) * (dfYCellMax - dfYCellMin)
  let (padfPixelSum, dfWeightSum) ← msSourceSample wide source iX iY sums.padfPixelSum dfWeight sums.dfWeightSum
  some { padfPixelSum, dfWeightSum, dfMaxWeight := sums.dfMaxWeight + dfWeight }

def averageRow (wide : Nat → BitVec 32) (source : SourceImage K) (window : Window K) (sums : Sums K) (iY : Int) : Option (Sums K) :=
  window.columns.foldlM (averageCell wide source window iY) sums

/-- What is returned, the sums and `*pdfAlpha01`. -/
def msAverageSample (wide : Nat → BitVec 32) (source : SourceImage K) (window : Window K) (padfPixelSum : Slots K) :
    Option (Bool × Slots K × K) := do
  let sums ← window.rows.foldlM (averageRow wide source window) { padfPixelSum, dfWeightSum := 0, dfMaxWeight := 0 }
  if sums.dfWeightSum = 0 then some (false, sums.padfPixelSum, 0)
  else
    let padfPixelSum ← (List.range 4).foldlM (fun padfPixelSum iX => changeAt padfPixelSum iX (· / sums.dfWeightSum)) sums.padfPixelSum
    some (true, padfPixelSum, sums.dfWeightSum / sums.dfMaxWeight)

structure Corners (K : Type) where
  x1 : K
  y1 : K
  x1next : K
  y1next : K
  x2 : K
  y2 : K
  x2next : K
  y2next : K

def clampedWindow (width height : Nat) (corners : Corners K) : Window K :=
  let dfXMin := min (min corners.x1 corners.x1next) (min corners.x2 corners.x2next)
  let dfYMin := min (min corners.y1 corners.y1next) (min corners.y2 corners.y2next)
  let dfXMax := max (max corners.x1 corners.x1next) (max corners.x2 corners.x2next)
  let dfYMax := max (max corners.y1 corners.y1next) (max corners.y2 corners.y2next)
  { dfXMin := min (max dfXMin 0) ((width + 1 : Nat) : K)
    dfYMin := min (max dfYMin 0) ((height + 1 : Nat) : K)
    dfXMax := min (max (-1) dfXMax) (width : K)
    dfYMax := min (max (-1) dfYMax) (height : K) }

def RawPixels.size : RawPixels K → Nat
  | .raw_16bit pixels => pixels.size
  | .raw_float pixels => pixels.size
  | .raw_double pixels => pixels.size
  | .raw_byte pixels => pixels.size

structure RawImage.Allocated (image : RawImage K) : Prop where
  pixels : image.bands * (image.width * image.height) ≤ image.img.size
  mask : image.width * image.height ≤ image.img_mask.capacity

def RawImage.offset (image : RawImage K) (x y : Nat) : Nat := x + y * image.width

def RawImage.unmasked (wide : Nat → BitVec 32) (image : RawImage K) (x y : Nat) : Bool :=
  (MS_GET_BIT wide image.img_mask (image.offset x y)).getD false

def RawImage.sample (image : RawImage K) (x y band : Nat) : K :=
  (image.img.value (image.offset x y + band * (image.width * image.height))).getD 0

section Cell
omit [LinearOrder K] [FloorRing K]
variable {wide : Nat → BitVec 32} {image : RawImage K} {padfPixelSum : Slots K}

theorem RawPixels.value_eq {img : RawPixels K} {off : Nat} (inside : off < img.size) : img.value off = some ((img.value off).getD 0) := by
  cases img <;> simp only [value] <;> rw [Slots.load_eq (by exact inside)] <;> rfl

omit [Field K] in
theorem changeAt_spec {iX : Nat} (inside : iX < padfPixelSum.size) (change : K → K) :
    ∃ after, changeAt padfPixelSum iX change = some after ∧ after.size = padfPixelSum.size ∧
      after.get iX = change (padfPixelSum.get iX) ∧ ∀ b, b ≠ iX → after.get b = padfPixelSum.get b := by
  refine ⟨{ padfPixelSum with get := Function.update padfPixelSum.get iX (change (padfPixelSum.get iX)) }, ?_, rfl,
    Function.update_self .., fun b other => Function.update_of_ne other ..⟩
  unfold changeAt
  simp only [Option.bind_eq_bind]
  rw [Slots.load_eq inside, Option.bind_some, Slots.store_eq inside]

theorem sampleBands_spec (dfWeight : K) {left band src_off : Nat} (room : band + left ≤ padfPixelSum.size)
    (inside : ∀ k < left, src_off + k * (image.width * image.height) < image.img.size) :
    ∃ after, sampleBands image dfWeight left band src_off padfPixelSum = some after ∧ after.size = padfPixelSum.size ∧
      ∀ b, after.get b = padfPixelSum.get b + if band ≤ b ∧ b < band + left then
        dfWeight * (image.img.value (src_off + (b - band) * (image.width * image.height))).getD 0 else 0 := by
  induction left generalizing band src_off padfPixelSum with
  | zero => exact ⟨padfPixelSum, rfl, rfl, fun b => by rw [if_neg (by omega), add_zero]⟩
  | succ left ih =>
    have later (k : Nat) (bound : k < left) :
        src_off + image.width * image.height + k * (image.width * image.height) < image.img.size := by
      have next := inside (k + 1) (by omega)
      rw [Nat.succ_mul] at next
      omega
    have here := inside 0 (by omega)
    rw [Nat.zero_mul, Nat.add_zero] at here
    obtain ⟨stored, store, storedSize, storedHere, others⟩ := @changeAt_spec K padfPixelSum band (by omega)
      (· + dfWeight * (image.img.value src_off).getD 0)
    obtain ⟨after, run, size, sums⟩ := @ih stored (band + 1) (src_off + image.width * image.height) (by omega) later
    refine ⟨after, ?_, size.trans storedSize, fun b => ?_⟩
    · unfold sampleBands
      simp only [Option.bind_eq_bind]
      rw [RawPixels.value_eq here, Option.bind_some, store, Option.bind_some]
      exact run
    · rw [sums]
      rcases Nat.lt_trichotomy b band with below | rfl | above
      · rw [if_neg (by omega), if_neg (by omega), others b (by omega)]
      · rw [if_neg (by omega), if_pos (by omega), storedHere, Nat.sub_self, Nat.zero_mul, Nat.add_zero, add_zero]
      · obtain ⟨k, rfl⟩ : ∃ k, b = band + 1 + k := ⟨b - (band + 1), by omega⟩
        have offset : src_off + image.width * image.height + (band + 1 + k - (band + 1)) * (image.width * image.height) =
            src_off + (band + 1 + k - band) * (image.width * image.height) := by
          rw [show band + 1 + k - band = k + 1 by omega, show band + 1 + k - (band + 1) = k by omega, Nat.succ_mul]
          omega
        rw [others _ (by omega), offset]
        exact congrArg _ (if_congr (by omega) rfl rfl)

omit [Field K] in
theorem RawImage.offset_lt {x y : Nat} (column : x < image.width) (row : y < image.height) :
    image.offset x y < image.width * image.height :=
  calc x + y * image.width < (y + 1) * image.width := by rw [Nat.succ_mul]; omega
    _ ≤ image.width * image.height := by rw [Nat.mul_comm]; exact Nat.mul_le_mul_left _ row

theorem msSourceSample_spec (allocated : image.Allocated) {x y : Nat} (column : x < image.width) (row : y < image.height)
    (room : image.bands ≤ padfPixelSum.size) (dfWeight dfWeightSum : K) :
    ∃ after, msSourceSample wide (.rawdata image) x y padfPixelSum dfWeight dfWeightSum =
        some (after, dfWeightSum + if image.unmasked wide x y then dfWeight else 0) ∧ after.size = padfPixelSum.size ∧
      ∀ b < image.bands, after.get b = padfPixelSum.get b + if image.unmasked wide x y then dfWeight * image.sample x y b else 0 := by
  have bound := image.offset_lt column row
  have offset : (x : Int) + (y : Int) * (image.width : Int) = (image.offset x y : Nat) := by
    rfl
  have notNegative : ¬ ((image.offset x y : Nat) : Int) < 0 := by omega
  have wordInside : image.offset x y / 32 < image.img_mask.length := by
    have capacity := allocated.mask
    unfold BitArray.capacity MS_ARRAY_BIT at capacity
    omega
  obtain ⟨bit, isBit⟩ : ∃ bit, MS_GET_BIT wide image.img_mask (image.offset x y) = some bit := by
    unfold MS_GET_BIT
    rw [List.getElem?_eq_getElem wordInside]
    exact ⟨_, rfl⟩
  have unmasked : image.unmasked wide x y = bit := by rw [RawImage.unmasked, isBit, Option.getD_some]
  unfold msSourceSample
  simp only [Option.bind_eq_bind]
  rw [offset, if_neg notNegative, Int.toNat_natCast, isBit, Option.bind_some, unmasked]
  cases bit with
  | false => exact ⟨padfPixelSum, by simp, rfl, by simp⟩
  | true =>
    obtain ⟨after, run, size, sums⟩ := @sampleBands_spec K _ image padfPixelSum dfWeight image.bands 0 (image.offset x y)
      (by omega) fun k below => by
        have pixels := allocated.pixels
        have bands : (k + 1) * (image.width * image.height) ≤ image.bands * (image.width * image.height) := Nat.mul_le_mul_right _ below
        rw [Nat.succ_mul] at bands
        omega
    refine ⟨after, ?_, size, fun b below => ?_⟩
    · rw [if_pos rfl, if_pos rfl, run, Option.bind_some]
    · rw [sums, if_pos (by omega), if_pos rfl, Nat.sub_zero]
      rfl

omit [Field K] in
theorem normalise_spec {padfPixelSum : Slots K} {count : Nat} (room : count ≤ padfPixelSum.size) (change : K → K) :
    ∃ after, (List.range count).foldlM (fun padfPixelSum iX => changeAt padfPixelSum iX change) padfPixelSum = some after ∧
      after.size = padfPixelSum.size ∧ ∀ b, after.get b = if b < count then change (padfPixelSum.get b) else padfPixelSum.get b := by
  induction count with
  | zero => exact ⟨padfPixelSum, rfl, rfl, fun b => rfl⟩
  | succ count ih =>
    obtain ⟨between, run, size, entries⟩ := ih (by omega)
    obtain ⟨after, last, sizeA, here, others⟩ := @changeAt_spec K between count (by omega) change
    refine ⟨after, ?_, sizeA.trans size, fun b => ?_⟩
    · rw [List.range_succ, List.foldlM_append, run]
      simp only [Option.bind_eq_bind, Option.bind_some, List.foldlM_cons, List.foldlM_nil]
      rw [last]
      rfl
    · by_cases same : b = count
      · rw [same, here, entries, if_neg (Nat.lt_irrefl _), if_pos (Nat.lt_succ_self _)]
      · rw [others b same, entries]
        exact if_congr (by omega) rfl rfl

end Cell

structure Window.Inside (window : Window K) (width height : Nat) : Prop where
  left : 0 ≤ window.dfXMin
  columns : window.dfXMin ≤ window.dfXMax
  right : window.dfXMax ≤ width
  bottom : 0 ≤ window.dfYMin
  rows : window.dfYMin ≤ window.dfYMax
  top : window.dfYMax ≤ height

def Window.share (window : Window K) (iX iY : Int) : K :=
  overlap window.dfXMin window.dfXMax iX * overlap window.dfYMin window.dfYMax iY

def Window.area (window : Window K) : K := (window.dfXMax - window.dfXMin) * (window.dfYMax - window.dfYMin)

def unmaskedArea (wide : Nat → BitVec 32) (image : RawImage K) (window : Window K) : K :=
  ∑ y ∈ range image.height, ∑ x ∈ range image.width, if image.unmasked wide x y then window.share x y else 0

def weightedSum (wide : Nat → BitVec 32) (image : RawImage K) (window : Window K) (band : Nat) : K :=
  ∑ y ∈ range image.height, ∑ x ∈ range image.width,
    if image.unmasked wide x y then window.share x y * image.sample x y band else 0

def cellGain (wide : Nat → BitVec 32) (image : RawImage K) (window : Window K) (iY iX : Int) : (Fin image.bands → K) × K × K :=
  (fun band => if image.unmasked wide iX.toNat iY.toNat then window.share iX iY * image.sample iX.toNat iY.toNat band else 0,
    if image.unmasked wide iX.toNat iY.toNat then window.share iX iY else 0, window.share iX iY)

def Sums.read (bands : Nat) (sums : Sums K) : (Fin bands → K) × K × K :=
  (fun band => sums.padfPixelSum.get band, sums.dfWeightSum, sums.dfMaxWeight)

section Sampled
variable {wide : Nat → BitVec 32} {image : RawImage K} {window : Window K}

theorem toZero_eq {x : K} (nonneg : 0 ≤ x) : toZero x = ⌊x⌋ := if_neg (not_lt.mpr nonneg)

theorem Window.Inside.ceil_right (inside : window.Inside image.width image.height) : ⌈window.dfXMax⌉ ≤ image.width :=
  Int.ceil_le.mpr (by rw [Int.cast_natCast]; exact inside.right)

theorem Window.Inside.ceil_top (inside : window.Inside image.width image.height) : ⌈window.dfYMax⌉ ≤ image.height :=
  Int.ceil_le.mpr (by rw [Int.cast_natCast]; exact inside.top)

theorem mem_columns (inside : window.Inside image.width image.height) {iX : Int} :
    iX ∈ window.columns ↔ ⌊window.dfXMin⌋ ≤ iX ∧ iX < ⌈window.dfXMax⌉ := by
  rw [Window.columns, toZero_eq inside.left, mem_cells]

theorem mem_rows (inside : window.Inside image.width image.height) {iY : Int} :
    iY ∈ window.rows ↔ ⌊window.dfYMin⌋ ≤ iY ∧ iY < ⌈window.dfYMax⌉ := by
  rw [Window.rows, toZero_eq inside.bottom, mem_cells]

omit [FloorRing K] in
theorem cellGain_outside {iX iY : Int} (outside : window.share iX iY = 0) : cellGain wide image window iY iX = 0 := by
  refine Prod.ext (funext fun band => ?_) (Prod.ext ?_ outside) <;>
  · dsimp only [cellGain]
    rw [outside]
    simp

omit [FloorRing K] in
theorem sum_cellGain : ∑ y ∈ range image.height, ∑ x ∈ range image.width, cellGain wide image window y x =
    (fun band : Fin image.bands => weightedSum wide image window band, unmaskedArea wide image window,
      ∑ y ∈ range image.height, ∑ x ∈ range image.width, window.share x y) := by
  refine Prod.ext (funext fun band => ?_) (Prod.ext ?_ ?_)
  · simp only [Prod.fst_sum, Finset.sum_apply]
    rfl
  · simp only [Prod.snd_sum, Prod.fst_sum]
    rfl
  · simp only [Prod.snd_sum]
    rfl

end Sampled

section Averaged
variable [IsStrictOrderedRing K] {wide : Nat → BitVec 32} {image : RawImage K} {window : Window K}

theorem averageCell_spec (allocated : image.Allocated) (inside : window.Inside image.width image.height) {iX iY : Int}
    (column : iX ∈ window.columns) (row : iY ∈ window.rows) {sums : Sums K} (room : image.bands ≤ sums.padfPixelSum.size) :
    ∃ after, averageCell wide (.rawdata image) window iY sums iX = some after ∧
      after.padfPixelSum.size = sums.padfPixelSum.size ∧
      after.read image.bands = sums.read image.bands + cellGain wide image window iY iX := by
  rw [mem_columns inside] at column
  rw [mem_rows inside] at row
  have left : 0 ≤ iX := (Int.floor_nonneg.mpr inside.left).trans column.1
  have bottom : 0 ≤ iY := (Int.floor_nonneg.mpr inside.bottom).trans row.1
  have right : iX < image.width := column.2.trans_le inside.ceil_right
  have top : iY < image.height := row.2.trans_le inside.ceil_top
  obtain ⟨x, rfl⟩ := Int.eq_ofNat_of_zero_le left
  obtain ⟨y, rfl⟩ := Int.eq_ofNat_of_zero_le bottom
  obtain ⟨after, run, size, gains⟩ := @msSourceSample_spec K _ wide image sums.padfPixelSum allocated x y (by omega) (by omega) room
    (window.share x y) sums.dfWeightSum
  refine ⟨{ padfPixelSum := after
            dfWeightSum := sums.dfWeightSum + if image.unmasked wide x y then window.share x y else 0
            dfMaxWeight := sums.dfMaxWeight + window.share x y }, ?_, size, ?_⟩
  · unfold averageCell
    simp only [Option.bind_eq_bind]
    rw [overlap_inside inside.columns column.1 column.2, overlap_inside inside.rows row.1 row.2]
    exact congrArg (Option.bind · _) run
  · refine Prod.ext (funext fun band => ?_) rfl
    exact gains band band.isLt

theorem averageRows_spec (allocated : image.Allocated) (inside : window.Inside image.width image.height) {sums : Sums K}
    (room : image.bands ≤ sums.padfPixelSum.size) :
    ∃ after, window.rows.foldlM (averageRow wide (.rawdata image) window) sums = some after ∧
      after.padfPixelSum.size = sums.padfPixelSum.size ∧
      after.read image.bands = sums.read image.bands +
        ∑ y ∈ range image.height, ∑ x ∈ range image.width, cellGain wide image window y x := by
  have total (iY : Int) : (window.columns.map (cellGain wide image window iY)).sum =
      ∑ x ∈ range image.width, cellGain wide image window iY x := by
    rw [Window.columns, toZero_eq inside.left]
    refine sum_cells _ (Int.floor_nonneg.mpr inside.left) inside.ceil_right fun iX outside => cellGain_outside ?_
    rw [Window.share, overlap_outside outside, zero_mul]
  have all : (window.rows.map fun iY => (window.columns.map (cellGain wide image window iY)).sum).sum =
      ∑ y ∈ range image.height, ∑ x ∈ range image.width, cellGain wide image window y x := by
    simp only [total]
    rw [Window.rows, toZero_eq inside.bottom]
    refine sum_cells (fun iY => ∑ x ∈ range image.width, cellGain wide image window iY x) (Int.floor_nonneg.mpr inside.bottom)
      inside.ceil_top fun iY outside => sum_eq_zero fun x _ => cellGain_outside ?_
    rw [Window.share, overlap_outside outside, mul_zero]
  rw [← all]
  refine Loop.foldlM_adds (fun after : Sums K => after.padfPixelSum.size = sums.padfPixelSum.size) (Sums.read image.bands) _ ?_ rfl
  intro iY row between size
  refine Loop.foldlM_adds (fun after : Sums K => after.padfPixelSum.size = sums.padfPixelSum.size) (Sums.read image.bands) _ ?_ size
  intro iX column between size
  obtain ⟨after, run, sizeA, gain⟩ := @averageCell_spec K _ _ _ _ wide image window allocated inside iX iY column row between
    (size ▸ room)
  exact ⟨after, run, sizeA.trans size, gain⟩

omit [FloorRing K] in
theorem sum_share (inside : window.Inside image.width image.height) :
    ∑ y ∈ range image.height, ∑ x ∈ range image.width, window.share x y = window.area := by
  have row (y : Nat) : ∑ x ∈ range image.width, window.share x y =
      (window.dfXMax - window.dfXMin) * overlap window.dfYMin window.dfYMax y := by
    rw [← sum_overlap inside.left inside.columns inside.right, sum_mul]
    rfl
  rw [sum_congr rfl fun y _ => row y, ← mul_sum, sum_overlap inside.bottom inside.rows inside.top]
  rfl

/-- `msAverageRasterResampler` clears the sums before each pixel. -/
def clearedSums (bands : Nat) : Slots K := { size := max 4 bands, get := fun _ => 0 }

theorem msAverageSample_spec (allocated : image.Allocated) (inside : window.Inside image.width image.height) :
    ∃ padfPixelSum alpha, msAverageSample wide (.rawdata image) window (clearedSums image.bands) =
        some (decide (unmaskedArea wide image window ≠ 0), padfPixelSum, alpha) ∧
      (unmaskedArea wide image window ≠ 0 → alpha = unmaskedArea wide image window / window.area ∧ ∀ b < image.bands,
        padfPixelSum.get b =
          if b < 4 then weightedSum wide image window b / unmaskedArea wide image window else weightedSum wide image window b) := by
  obtain ⟨sums, run, size, reads⟩ := @averageRows_spec K _ _ _ _ wide image window allocated inside
    { padfPixelSum := clearedSums image.bands, dfWeightSum := 0, dfMaxWeight := 0 } (le_max_right _ _)
  rw [sum_cellGain, sum_share inside] at reads
  have weight : sums.dfWeightSum = unmaskedArea wide image window := (congrArg (fun read => read.2.1) reads).trans (zero_add _)
  have most : sums.dfMaxWeight = window.area := (congrArg (fun read => read.2.2) reads).trans (zero_add _)
  have bands (b : Nat) (bound : b < image.bands) : sums.padfPixelSum.get b = weightedSum wide image window b :=
    (congrArg (fun read => read.1 ⟨b, bound⟩) reads).trans (zero_add _)
  have room : 4 ≤ sums.padfPixelSum.size := size ▸ le_max_left _ _
  obtain ⟨divided, division, -, entries⟩ := normalise_spec room (· / sums.dfWeightSum)
  unfold msAverageSample
  simp only [Option.bind_eq_bind]
  rw [run, Option.bind_some, division]
  by_cases empty : unmaskedArea wide image window = 0
  · refine ⟨sums.padfPixelSum, 0, ?_, fun notEmpty => absurd empty notEmpty⟩
    rw [if_pos (weight.trans empty), decide_eq_false (not_not.mpr empty)]
  · refine ⟨divided, sums.dfWeightSum / sums.dfMaxWeight, ?_, fun _ => ⟨by rw [weight, most], fun b bound => ?_⟩⟩
    · rw [if_neg (weight ▸ empty), decide_eq_true empty]
      rfl
    · rw [entries, bands b bound, weight]

/-- Every band is the mean of the unmasked values, weighted by the areas, and lies between any bounds of them. -/
structure AveragesBands (wide : Nat → BitVec 32) (image : RawImage K) (window : Window K) (found : Bool) (padfPixelSum : Slots K)
    (alpha : K) : Prop where
  found_iff : found = false ↔ unmaskedArea wide image window = 0
  alpha_eq : found = true → alpha = unmaskedArea wide image window / window.area
  mean : found = true → ∀ b < image.bands, padfPixelSum.get b = weightedSum wide image window b / unmaskedArea wide image window
  between : found = true → ∀ b < image.bands, ∀ least most : K,
    (∀ x < image.width, ∀ y < image.height, image.unmasked wide x y = true → 0 < window.share x y →
      least ≤ image.sample x y b ∧ image.sample x y b ≤ most) → least ≤ padfPixelSum.get b ∧ padfPixelSum.get b ≤ most

omit [FloorRing K] in
theorem share_nonneg (x y : Int) : 0 ≤ window.share x y := mul_nonneg overlap_nonneg overlap_nonneg

omit [FloorRing K] in
theorem unmaskedArea_nonneg : 0 ≤ unmaskedArea wide image window := by
  refine sum_nonneg fun y _ => sum_nonneg fun x _ => ?_
  by_cases unmasked : image.unmasked wide x y = true
  · rw [if_pos unmasked]
    exact share_nonneg x y
  · rw [if_neg unmasked]

omit [FloorRing K] in
theorem mean_between {band : Nat} {least most : K} (some_ : unmaskedArea wide image window ≠ 0)
    (bounds : ∀ x < image.width, ∀ y < image.height, image.unmasked wide x y = true → 0 < window.share x y →
      least ≤ image.sample x y band ∧ image.sample x y band ≤ most) :
    least ≤ weightedSum wide image window band / unmaskedArea wide image window ∧
      weightedSum wide image window band / unmaskedArea wide image window ≤ most := by
  have positive : 0 < unmaskedArea wide image window := unmaskedArea_nonneg.lt_of_ne some_.symm
  rw [le_div_iff₀ positive, div_le_iff₀ positive, unmaskedArea, mul_sum, mul_sum, weightedSum]
  constructor <;> refine sum_le_sum fun y row => ?_ <;> rw [mul_sum] <;> refine sum_le_sum fun x column => ?_
  all_goals
    by_cases unmasked : image.unmasked wide x y = true
    · rw [if_pos unmasked, if_pos unmasked]
      rcases (@share_nonneg K _ _ _ window x y).eq_or_lt with empty | touched
      · rw [← empty, mul_zero, zero_mul]
      · have bound := bounds x (mem_range.mp column) y (mem_range.mp row) unmasked touched
        rw [mul_comm]
        gcongr
        first | exact bound.1 | exact bound.2
    · rw [if_neg unmasked, if_neg unmasked, mul_zero]

theorem mem_clampedWindow {width height : Nat} {corners : Corners K} {iX iY : Int}
    (column : iX ∈ (clampedWindow width height corners).columns) (row : iY ∈ (clampedWindow width height corners).rows) :
    (0 ≤ iX ∧ iX < width) ∧ 0 ≤ iY ∧ iY < height := by
  have within {least most : K} {n : Nat} {cell : Int} (member : cell ∈ cells (toZero (min (max least 0) ((n + 1 : Nat) : K)))
      ⌈min (max (-1) most) (n : K)⌉) : 0 ≤ cell ∧ cell < n := by
    have nonneg : (0 : K) ≤ min (max least 0) ((n + 1 : Nat) : K) := le_min (le_max_right _ _) (Nat.cast_nonneg _)
    rw [toZero_eq nonneg, mem_cells] at member
    have most : ⌈min (max (-1) most) (n : K)⌉ ≤ (n : Int) := Int.ceil_le.mpr (by rw [Int.cast_natCast]; exact min_le_right _ _)
    exact ⟨(Int.floor_nonneg.mpr nonneg).trans member.1, member.2.trans_le most⟩
  exact ⟨within column, within row⟩

/-- All bands are averages if the unmasked part has the area 1 or none, or if nothing adds up in the bands after the fourth: only
four sums are divided. The cells of all windows that are clamped are inside. -/
theorem msAverageSample_averages_iff (wide : Nat → BitVec 32) (image : RawImage K) (allocated : image.Allocated) :
    (∀ window : Window K, window.Inside image.width image.height →
      ((∃ found padfPixelSum alpha,
          msAverageSample wide (.rawdata image) window (clearedSums image.bands) = some (found, padfPixelSum, alpha) ∧
          AveragesBands wide image window found padfPixelSum alpha) ↔
        unmaskedArea wide image window = 0 ∨ unmaskedArea wide image window = 1 ∨
          ∀ b, 4 ≤ b → b < image.bands → weightedSum wide image window b = 0)) ∧
    ∀ corners : Corners K, ∀ iY ∈ (clampedWindow image.width image.height corners).rows,
      ∀ iX ∈ (clampedWindow image.width image.height corners).columns, (0 ≤ iX ∧ iX < image.width) ∧ 0 ≤ iY ∧ iY < image.height := by
  refine ⟨fun window inside => ?_, fun corners iY row iX column => mem_clampedWindow column row⟩
  obtain ⟨sums, alpha, run, returned⟩ := @msAverageSample_spec K _ _ _ _ wide image window allocated inside
  constructor
  · rintro ⟨found, padfPixelSum, same, run', averages⟩
    rw [run, Option.some.injEq, Prod.mk.injEq, Prod.mk.injEq] at run'
    obtain ⟨rfl, rfl, rfl⟩ := run'
    by_cases empty : unmaskedArea wide image window = 0
    · exact .inl empty
    · refine .inr (or_iff_not_imp_left.mpr fun notOne b late bound => ?_)
      have mean := averages.mean (decide_eq_true empty) b bound
      rw [(returned empty).2 b bound, if_neg (Nat.not_lt.mpr late), eq_div_iff empty] at mean
      exact (mul_right_eq_self₀.mp mean).resolve_left notOne
  · intro condition
    have mean : decide (unmaskedArea wide image window ≠ 0) = true → ∀ b < image.bands,
        sums.get b = weightedSum wide image window b / unmaskedArea wide image window := by
      intro found b bound
      have some_ := of_decide_eq_true found
      rw [(returned some_).2 b bound]
      by_cases early : b < 4
      · rw [if_pos early]
      · rw [if_neg early]
        rcases condition.resolve_left some_ with one | zero
        · rw [one, div_one]
        · rw [zero b (Nat.not_lt.mp early) bound, zero_div]
    refine ⟨_, sums, alpha, run, ?_, fun found => (returned (of_decide_eq_true found)).1, mean, ?_⟩
    · rw [decide_eq_false_iff_not, not_not]
    · intro found b bound least most bounds
      rw [mean found b bound]
      exact mean_between (of_decide_eq_true found) bounds

end Averaged

def onesImage : RawImage ℚ :=
  { width := 2, height := 1, bands := 5, img := .raw_byte { size := 10, get := fun _ => 1 }, img_mask := [3] }

theorem onesImage_allocated : onesImage.Allocated := ⟨by decide, by decide⟩

theorem msAverageSample_averages_iff_ones : ∃ found padfPixelSum alpha,
    msAverageSample (fun _ => 0) (.rawdata onesImage) ⟨0, 0, 1, 1⟩ (clearedSums 5) = some (found, padfPixelSum, alpha) ∧
      AveragesBands (fun _ => 0) onesImage ⟨0, 0, 1, 1⟩ found padfPixelSum alpha := by
  refine ((msAverageSample_averages_iff (fun _ => 0) onesImage onesImage_allocated).1 ⟨0, 0, 1, 1⟩ ?_).mpr (.inr (.inl ?_))
  · exact ⟨by decide +kernel, by decide +kernel, by decide +kernel, by decide +kernel, by decide +kernel, by decide +kernel⟩
  · decide +kernel

theorem msAverageSample_averages_fails : ¬ ∃ found padfPixelSum alpha,
    msAverageSample (fun _ => 0) (.rawdata onesImage) ⟨0, 0, 2, 1⟩ (clearedSums 5) = some (found, padfPixelSum, alpha) ∧
      AveragesBands (fun _ => 0) onesImage ⟨0, 0, 2, 1⟩ found padfPixelSum alpha := by
  rintro ⟨found, padfPixelSum, alpha, run, averages⟩
  have returned : (msAverageSample (fun _ => 0) (.rawdata onesImage) ⟨0, 0, 2, 1⟩ (clearedSums 5)).map
      (fun result => (result.1, result.2.1.get 4)) = some (true, 2) := by decide +kernel
  rw [run, Option.map_some, Option.some.injEq, Prod.mk.injEq] at returned
  have mean := averages.mean returned.1 4 (by decide)
  rw [returned.2] at mean
  exact absurd mean (by decide +kernel)

end MapServer
