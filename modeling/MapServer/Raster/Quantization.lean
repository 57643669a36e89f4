import MapServer.Words

/-!
`msQuantizeRasterBuffer` and `msClassifyRasterBuffer` of `mapquantization.c`, with the histogram of the colours and the
median cut. Sizes and counts are exact.
-/

namespace MapServer.Quantization

structure RgbaPixel where
  b : UInt8
  g : UInt8
  r : UInt8
  a : UInt8
  deriving DecidableEq

/-- A raster of at least one pixel. `row_step` is in pixels, and `pixels` is what stands at an offset. -/
structure RasterBufferObj where
  width : Nat
  height : Nat
  row_step : Nat
  pixels : Nat → RgbaPixel
  some_ : 0 < width ∧ 0 < height
  apart : width ≤ row_step

def RasterBufferObj.offset (rb : RasterBufferObj) (row col : Nat) : Nat := row * rb.row_step + col

def RasterBufferObj.positions (rb : RasterBufferObj) : List (Nat × Nat) :=
  (List.range rb.height).flatMap fun row => (List.range rb.width).map fun col => (row, col)

def RasterBufferObj.offsets (rb : RasterBufferObj) : List Nat := rb.positions.map fun (row, col) => rb.offset row col

def RasterBufferObj.image (rb : RasterBufferObj) : List RgbaPixel := rb.offsets.map rb.pixels

/-- `qsort` orders by a comparison, and leaves the order of what compares equal open. -/
structure Qsort where
  sort {α : Type} : (α → α → Int) → List α → List α
  perm {α : Type} (compare : α → α → Int) (list : List α) : (sort compare list).Perm list
  ordered {α : Type} (compare : α → α → Int) (list : List α)
    (total : ∀ x y, compare x y ≤ 0 ∨ compare y x ≤ 0)
    (trans : ∀ x y z, compare x y ≤ 0 → compare y z ≤ 0 → compare x z ≤ 0) :
    (sort compare list).Pairwise fun x y => compare x y ≤ 0

def MAXCOLORS : Nat := 32767
def HASH_SIZE : Nat := 20023

structure AcolorhistItem where
  acolor : RgbaPixel
  value : Int

abbrev AcolorhashTable := Nat → List AcolorhistItem

def pam_hashapixel (p : RgbaPixel) : Nat :=
  ((p.r.toNat * 33023 + p.g.toNat * 30013 + p.b.toNat * 27011 + p.a.toNat * 24007) &&& 0x7fffffff) % HASH_SIZE

def pam_allocacolorhash : AcolorhashTable := fun _ => []

def increment (p : RgbaPixel) : List AcolorhistItem → Option (List AcolorhistItem)
  | [] => none
  | item :: rest =>
    if item.acolor = p then some ({ item with value := item.value + 1 } :: rest) else (increment p rest).map (item :: ·)

def countPixel (maxacolors : Nat) (state : AcolorhashTable × Nat) (p : RgbaPixel) : Option (AcolorhashTable × Nat) :=
  let (acht, acolors) := state
  let hash := pam_hashapixel p
  match increment p (acht hash) with
  | some list => some (Function.update acht hash list, acolors)
  | none =>
    if acolors + 1 > maxacolors then none
    else some (Function.update acht hash (⟨p, 1⟩ :: acht hash), acolors + 1)

def pam_computeacolorhash (image : List RgbaPixel) (maxacolors : Nat) : Option (AcolorhashTable × Nat) :=
  image.foldlM (countPixel maxacolors) (pam_allocacolorhash, 0)

def pam_acolorhashtoacolorhist (acht : AcolorhashTable) : List AcolorhistItem := (List.range HASH_SIZE).flatMap acht

def pam_computeacolorhist (image : List RgbaPixel) (maxacolors : Nat) : Option (List AcolorhistItem × Nat) :=
  (pam_computeacolorhash image maxacolors).map fun (acht, acolors) => (pam_acolorhashtoacolorhist acht, acolors)

def PAM_DEPTH (p : RgbaPixel) (oldmaxval newmaxval : Nat) : RgbaPixel :=
  let scaled (v : UInt8) : UInt8 := UInt8.ofNat ((v.toNat * newmaxval + oldmaxval / 2) / oldmaxval)
  ⟨scaled p.b, scaled p.g, scaled p.r, scaled p.a⟩

def lowerDepth (rb : RasterBufferObj) (oldmaxval newmaxval : Nat) : RasterBufferObj :=
  { rb with
    pixels := rb.offsets.foldl
      (fun pixels offset => Function.update pixels offset (PAM_DEPTH (pixels offset) oldmaxval newmaxval)) rb.pixels }

structure Histogram where
  achv : List AcolorhistItem
  colors : Nat
  rb : RasterBufferObj
  maxval : Nat

def makeHistogram : Nat → RasterBufferObj → Nat → Option Histogram
  | 0, _, _ => none
  | rounds + 1, rb, maxval =>
    match pam_computeacolorhist rb.image MAXCOLORS with
    | some (achv, colors) => some ⟨achv, colors, rb, maxval⟩
    | none => makeHistogram rounds (lowerDepth rb maxval (maxval / 2)) (maxval / 2)

structure Box where
  ind : Nat
  colors : Nat
  sum : Int

def sumcompare (b1 b2 : Box) : Int := b2.sum - b1.sum

def channelcompare (channel : RgbaPixel → UInt8) (ch1 ch2 : AcolorhistItem) : Int :=
  (channel ch1.acolor).toNat - (channel ch2.acolor).toNat

def alphacompare := channelcompare RgbaPixel.a
def redcompare := channelcompare RgbaPixel.r
def greencompare := channelcompare RgbaPixel.g
def bluecompare := channelcompare RgbaPixel.b

def extent (channel : RgbaPixel → UInt8) (items : List AcolorhistItem) : Int :=
  let values := items.map fun item => ((channel item.acolor).toNat : Int)
  values.tail.foldl max (values.headD 0) - values.tail.foldl min (values.headD 0)

def largestcompare (items : List AcolorhistItem) : AcolorhistItem → AcolorhistItem → Int :=
  let a := extent RgbaPixel.a items
  let r := extent RgbaPixel.r items
  let g := extent RgbaPixel.g items
  let b := extent RgbaPixel.b items
  if a ≥ r ∧ a ≥ g ∧ a ≥ b then alphacompare
  else if r ≥ g ∧ r ≥ b then redcompare
  else if g ≥ b then greencompare
  else bluecompare

def boxItems (achv : List AcolorhistItem) (box : Box) : List AcolorhistItem := (achv.drop box.ind).take box.colors

def median (halfsum : Int) : List AcolorhistItem → Nat → Int → Nat × Int
  | [], i, lowersum => (i, lowersum)
  | item :: rest, i, lowersum =>
    if lowersum ≥ halfsum then (i, lowersum) else median halfsum rest (i + 1) (lowersum + item.value)

def halves (box : Box) (items : List AcolorhistItem) : Box × Box :=
  let (i, lowersum) := median (box.sum.tdiv 2) ((items.drop 1).take (box.colors - 2)) 1 ((items.map (·.value)).headD 0)
  (⟨box.ind, i, lowersum⟩, ⟨box.ind + i, box.colors - i, box.sum - lowersum⟩)

def splitBox (qsort : Qsort) (state : List AcolorhistItem × List Box) : Option (List AcolorhistItem × List Box) := do
  let (achv, bv) := state
  let bi ← bv.findIdx? fun box => decide (box.colors ≥ 2)
  let box ← bv[bi]?
  let items := boxItems achv box
  let items := qsort.sort (largestcompare items) items
  let achv := achv.take box.ind ++ items ++ achv.drop (box.ind + box.colors)
  let (lower, upper) := halves box items
  some (achv, qsort.sort sumcompare (bv.set bi lower ++ [upper]))

def splitBoxes (qsort : Qsort) : Nat → List AcolorhistItem × List Box → List AcolorhistItem × List Box
  | 0, state => state
  | rounds + 1, state =>
    match splitBox qsort state with
    | some state => splitBoxes qsort rounds state
    | none => state

def average (channel : RgbaPixel → UInt8) (maxval : Nat) (items : List AcolorhistItem) : UInt8 :=
  let total := (items.map fun item => ((channel item.acolor).toNat : Int) * item.value).sum
  let sum := (items.map (·.value)).sum
  UInt8.ofInt (if sum > 0 then (if total.tdiv sum > maxval then maxval else total.tdiv sum) else maxval)

def representative (maxval : Nat) (items : List AcolorhistItem) : RgbaPixel :=
  ⟨average RgbaPixel.b maxval items, average RgbaPixel.g maxval items, average RgbaPixel.r maxval items,
    average RgbaPixel.a maxval items⟩

def firstBoxes (achv : List AcolorhistItem) (colors : Nat) (sum : Int) : List AcolorhistItem × List Box :=
  (achv, [⟨0, colors, sum⟩])

def mediancut (qsort : Qsort) (achv : List AcolorhistItem) (colors : Nat) (sum : Int) (maxval newcolors : Nat) :
    List RgbaPixel :=
  let (achv, bv) := splitBoxes qsort (newcolors - 1) (firstBoxes achv colors sum)
  bv.map (fun box => representative maxval (boxItems achv box)) ++ List.replicate (newcolors - bv.length) ⟨0, 0, 0, 0⟩

structure Quantized where
  histogram : Histogram
  palette : List RgbaPixel
  reqcolors : Nat

def msQuantizeRasterBuffer (qsort : Qsort) (rounds : Nat) (rb : RasterBufferObj) (reqcolors : Nat) : Option Quantized := do
  let histogram ← makeHistogram rounds rb 255
  let newcolors := min histogram.colors reqcolors
  let palette := mediancut qsort histogram.achv histogram.colors (rb.width * rb.height) histogram.maxval newcolors
  some ⟨histogram, palette, newcolors⟩

def squaredDifference (v1 v2 : UInt8) : Int := ((v1.toNat : Int) - v2.toNat) * (v1.toNat - v2.toNat)

def distance (p entry : RgbaPixel) : Int :=
  squaredDifference p.r entry.r + squaredDifference p.g entry.g + squaredDifference p.b entry.b +
    squaredDifference p.a entry.a

def searchPalette (p : RgbaPixel) : List RgbaPixel → Int → Int → Int → Int × Int
  | [], _, ind, dist => (ind, dist)
  | entry :: rest, i, ind, dist =>
    let newdist := distance p entry
    if newdist < dist then searchPalette p rest (i + 1) i newdist else searchPalette p rest (i + 1) ind dist

def pam_addtoacolorhash (acht : AcolorhashTable) (p : RgbaPixel) (value : Int) : AcolorhashTable :=
  let hash := pam_hashapixel p
  Function.update acht hash (⟨p, value⟩ :: acht hash)

def pam_lookupacolor (acht : AcolorhashTable) (p : RgbaPixel) : Int :=
  (((acht (pam_hashapixel p)).find? fun item => decide (item.acolor = p)).map (·.value)).getD (-1)

def classifyPixel (rb : RasterBufferObj) (palette : List RgbaPixel) (state : AcolorhashTable × (Nat → UInt8))
    (position : Nat × Nat) : AcolorhashTable × (Nat → UInt8) :=
  let (acht, pixels) := state
  let (row, col) := position
  let p := rb.pixels (rb.offset row col)
  let known := pam_lookupacolor acht p
  let ind := if known = -1 then (searchPalette p palette 0 (-1) 2000000000).1 else known
  let acht := if known = -1 then pam_addtoacolorhash acht p ind else acht
  (acht, Function.update pixels (row * rb.width + col) (UInt8.ofInt ind))

def msClassifyRasterBuffer (rb : RasterBufferObj) (palette : List RgbaPixel) (pixels : Nat → UInt8) : Nat → UInt8 :=
  (rb.positions.foldl (classifyPixel rb palette) (pam_allocacolorhash, pixels)).2

end MapServer.Quantization
