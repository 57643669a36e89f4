import Mathlib.Tactic.Linarith
import MapServer.Raster.ColorBoxes
import MapServer.Raster.ColorHistogram

namespace MapServer.Quantization
open List Function

def Nearest (palette : List RgbaPixel) (p : RgbaPixel) (ind : Int) : Prop :=
  ∃ (i : Nat) (entry : RgbaPixel), ind = i ∧ palette[i]? = some entry ∧ ∀ other ∈ palette, distance p entry ≤ distance p other

theorem squaredDifference_bound (v1 v2 : UInt8) : 0 ≤ squaredDifference v1 v2 ∧ squaredDifference v1 v2 < 70000 := by
  have := v1.toNat_lt
  have := v2.toNat_lt
  refine ⟨mul_self_nonneg _, ?_⟩
  have high : ((v1.toNat : Int) - v2.toNat) ≤ 256 := by omega
  have low : -256 ≤ ((v1.toNat : Int) - v2.toNat) := by omega
  rw [squaredDifference]
  nlinarith only [high, low]

theorem distance_bound (p entry : RgbaPixel) : distance p entry < 2000000000 := by
  have r := (squaredDifference_bound p.r entry.r).2
  have g := (squaredDifference_bound p.g entry.g).2
  have b := (squaredDifference_bound p.b entry.b).2
  have a := (squaredDifference_bound p.a entry.a).2
  rw [distance]
  omega

theorem searchPalette_from {p : RgbaPixel} {before rest : List RgbaPixel} {i : Nat} {entry : RgbaPixel}
    (here : before[i]? = some entry) (least : ∀ other ∈ before, distance p entry ≤ distance p other) :
    Nearest (before ++ rest) p (searchPalette p rest before.length i (distance p entry)).1 := by
  induction rest generalizing before i entry with
  | nil =>
    rw [append_nil]
    exact ⟨i, entry, rfl, here, least⟩
  | cons next rest ih =>
    rw [append_cons, searchPalette]
    have length : (before.length : Int) + 1 = ((before ++ [next]).length : Nat) := by
      rw [length_append, length_singleton]
      rfl
    rw [length]
    split
    · rename_i nearer
      refine ih (getElem?_concat_length ..) fun other has => ?_
      rcases mem_append.mp has with earlier | last
      · exact nearer.le.trans (least other earlier)
      · exact (mem_singleton.mp last ▸ le_rfl)
    · rename_i farther
      have inside : i < before.length := (List.getElem?_eq_some_iff.mp here).1
      refine ih (by rw [getElem?_append_left inside]; exact here) fun other has => ?_
      rcases mem_append.mp has with earlier | last
      · exact least other earlier
      · exact mem_singleton.mp last ▸ not_lt.mp farther

theorem searchPalette_nearest {palette : List RgbaPixel} (some_ : palette ≠ []) (p : RgbaPixel) :
    Nearest palette p (searchPalette p palette 0 (-1) 2000000000).1 := by
  obtain ⟨first, rest, rfl⟩ := exists_cons_of_ne_nil some_
  rw [searchPalette, if_pos (distance_bound p first)]
  have alone : ∀ other ∈ [first], distance p first ≤ distance p other :=
    fun other has => mem_singleton.mp has ▸ le_rfl
  exact @searchPalette_from p [first] rest 0 first rfl alone

theorem distance_self (p : RgbaPixel) : distance p p = 0 := by
  simp [distance, squaredDifference]

theorem eq_of_squaredDifference {v1 v2 : UInt8} (none : squaredDifference v1 v2 = 0) : v1 = v2 := by
  have same : (v1.toNat : Int) - v2.toNat = 0 := mul_self_eq_zero.mp none
  exact UInt8.toNat_inj.mp (by omega)

theorem eq_of_distance {p entry : RgbaPixel} (none : distance p entry ≤ 0) : entry = p := by
  have r := (squaredDifference_bound p.r entry.r).1
  have g := (squaredDifference_bound p.g entry.g).1
  have b := (squaredDifference_bound p.b entry.b).1
  have a := (squaredDifference_bound p.a entry.a).1
  rw [distance] at none
  have red := eq_of_squaredDifference (by omega : squaredDifference p.r entry.r = 0)
  have green := eq_of_squaredDifference (by omega : squaredDifference p.g entry.g = 0)
  have blue := eq_of_squaredDifference (by omega : squaredDifference p.b entry.b = 0)
  have alpha := eq_of_squaredDifference (by omega : squaredDifference p.a entry.a = 0)
  cases p
  cases entry
  simp only [RgbaPixel.mk.injEq] at *
  exact ⟨blue.symm, green.symm, red.symm, alpha.symm⟩

def searched (palette : List RgbaPixel) (p : RgbaPixel) : Int := (searchPalette p palette 0 (-1) 2000000000).1

def Known (palette : List RgbaPixel) (acht : AcolorhashTable) : Prop :=
  ∀ hash, ∀ item ∈ acht hash, item.value = searched palette item.acolor

section Classes
variable {rb : RasterBufferObj} {palette : List RgbaPixel}

theorem lookup_known {acht : AcolorhashTable} (known : Known palette acht) (p : RgbaPixel) :
    pam_lookupacolor acht p = -1 ∨ pam_lookupacolor acht p = searched palette p := by
  unfold pam_lookupacolor
  cases found : (acht (pam_hashapixel p)).find? fun item => decide (item.acolor = p) with
  | none => exact .inl rfl
  | some item =>
    right
    have color : item.acolor = p := by simpa using find?_some found
    rw [← color]
    exact known _ item (mem_of_find?_eq_some found)

theorem classifyPixel_spec (rb : RasterBufferObj) {acht : AcolorhashTable} (known : Known palette acht) (pixels : Nat → UInt8) (row col : Nat) :
    Known palette (classifyPixel rb palette (acht, pixels) (row, col)).1 ∧
      (classifyPixel rb palette (acht, pixels) (row, col)).2 = update pixels (row * rb.width + col)
        (UInt8.ofInt (searched palette (rb.pixels (rb.offset row col)))) := by
  unfold classifyPixel
  dsimp only
  generalize rb.pixels (rb.offset row col) = p
  by_cases missing : pam_lookupacolor acht p = -1
  · rw [if_pos missing, if_pos missing]
    refine ⟨fun hash item has => ?_, rfl⟩
    unfold pam_addtoacolorhash at has
    by_cases here : hash = pam_hashapixel p
    · subst here
      rw [update_self] at has
      rcases mem_cons.mp has with rfl | before
      · rfl
      · exact known _ item before
    · rw [update_of_ne here] at has
      exact known hash item has
  · rw [if_neg missing, if_neg missing, (lookup_known known p).resolve_left missing]
    exact ⟨known, rfl⟩

theorem classify_fold {positions : List (Nat × Nat)} (distinct : positions.Nodup)
    (across : ∀ position ∈ positions, position.2 < rb.width) {acht : AcolorhashTable} (known : Known palette acht)
    (pixels : Nat → UInt8) {row col : Nat} (inside : col < rb.width) :
    (positions.foldl (classifyPixel rb palette) (acht, pixels)).2 (row * rb.width + col) =
      if (row, col) ∈ positions then UInt8.ofInt (searched palette (rb.pixels (rb.offset row col)))
      else pixels (row * rb.width + col) := by
  induction positions generalizing acht pixels with
  | nil => rfl
  | cons position rest ih =>
    obtain ⟨row', col'⟩ := position
    obtain ⟨apart, distinct⟩ := nodup_cons.mp distinct
    obtain ⟨still, written⟩ := classifyPixel_spec rb known pixels row' col'
    have first := across _ mem_cons_self
    rw [foldl_cons, ← Prod.mk.eta (p := classifyPixel rb palette (acht, pixels) (row', col')),
      ih distinct (fun position has => across position (mem_cons_of_mem _ has)) still, written]
    by_cases here : (row, col) = (row', col')
    · obtain ⟨rfl, rfl⟩ := Prod.mk.inj here
      rw [if_neg apart, update_self, if_pos mem_cons_self]
    · have elsewhere : row * rb.width + col ≠ row' * rb.width + col' := by
        intro same
        obtain ⟨rfl, rfl⟩ := place_injective inside first same
        exact here rfl
      rw [update_of_ne elsewhere]
      simp only [mem_cons, here, false_or]

theorem msClassifyRasterBuffer_nearest (some_ : palette ≠ []) (most : palette.length ≤ 256) (pixels : Nat → UInt8)
    {row col : Nat} (down : row < rb.height) (across : col < rb.width) :
    Nearest palette (rb.pixels (rb.offset row col)) (msClassifyRasterBuffer rb palette pixels (row * rb.width + col)).toNat := by
  have all : ∀ position ∈ rb.positions, position.2 < rb.width := fun position has => (mem_positions.mp has).2
  have nothing : Known palette pam_allocacolorhash := fun _ _ has => absurd has not_mem_nil
  rw [msClassifyRasterBuffer, classify_fold (positions_nodup rb) all nothing pixels across, if_pos (mem_positions.mpr ⟨down, across⟩)]
  obtain ⟨i, entry, index, here, least⟩ := searchPalette_nearest some_ (rb.pixels (rb.offset row col))
  have inside : i < palette.length := (List.getElem?_eq_some_iff.mp here).1
  refine ⟨i, entry, ?_, here, least⟩
  rw [searched, index]
  have same : ((i : Int) % 2 ^ 8).toNat = i := by omega
  rw [UInt8.ofInt, same]
  exact congrArg Nat.cast (Nat.mod_eq_of_lt (by omega))

theorem msClassifyRasterBuffer_exact (some_ : palette ≠ []) (most : palette.length ≤ 256) (pixels : Nat → UInt8)
    {row col : Nat} (down : row < rb.height) (across : col < rb.width) (has : rb.pixels (rb.offset row col) ∈ palette) :
    palette[(msClassifyRasterBuffer rb palette pixels (row * rb.width + col)).toNat]? = some (rb.pixels (rb.offset row col)) := by
  obtain ⟨i, entry, index, here, least⟩ := msClassifyRasterBuffer_nearest some_ most pixels down across
  have same := eq_of_distance ((least _ has).trans (distance_self _).le)
  rw [Int.natCast_inj.mp index, here, same]

end Classes

/-- The boxes are ranges of the colours of an image that have every colour once, none of them empty, and the sum of each
is the number of pixels in it. -/
structure Partitions (image : List RgbaPixel) (state : List AcolorhistItem × List Box) : Prop where
  distinct : (state.1.map (·.acolor)).Nodup
  members : ∀ p, p ∈ state.1.map (·.acolor) ↔ p ∈ image
  ranges : (state.2.flatMap Box.range).Perm (List.range state.1.length)
  nonempty : ∀ box ∈ state.2, 1 ≤ box.colors
  sums : ∀ box ∈ state.2, box.sum = image.countP fun p => decide (p ∈ (boxItems state.1 box).map (·.acolor))

theorem countP_cons {image colors : List RgbaPixel} {p : RgbaPixel} (absent : p ∉ colors) :
    image.countP (fun q => decide (q ∈ p :: colors)) = image.count p + image.countP fun q => decide (q ∈ colors) := by
  induction image with
  | nil => rfl
  | cons q rest ih =>
    rw [List.countP_cons, List.countP_cons, count_cons, ih]
    by_cases here : q = p
    · subst here
      simp [absent]
      omega
    · simp [here]
      omega

theorem values_eq_countP {image : List RgbaPixel} {items : List AcolorhistItem} (distinct : (items.map (·.acolor)).Nodup)
    (counts : ∀ item ∈ items, item.value = image.count item.acolor) :
    values items = image.countP fun p => decide (p ∈ items.map (·.acolor)) := by
  induction items with
  | nil => simp [values]
  | cons item rest ih =>
    obtain ⟨absent, distinct⟩ := nodup_cons.mp distinct
    have others := ih distinct fun other has => counts other (mem_cons_of_mem _ has)
    rw [map_cons, countP_cons absent, Nat.cast_add, ← others, ← counts item mem_cons_self]
    rfl

theorem HistogramOf.values {image : List RgbaPixel} {achv : List AcolorhistItem} (histogram : HistogramOf image achv) :
    Quantization.values achv = image.length := by
  rw [values_eq_countP histogram.distinct histogram.counts, countP_eq_length.mpr]
  intro p has
  exact decide_eq_true ((histogram.members p).mpr has)

theorem Boxed.partitions {image : List RgbaPixel} {achv : List AcolorhistItem} {state : List AcolorhistItem × List Box}
    (boxed : Boxed achv state) (histogram : HistogramOf image achv) : Partitions image state where
  distinct := (boxed.perm.map _).nodup_iff.mpr histogram.distinct
  members p := (boxed.perm.map _).mem_iff.trans (histogram.members p)
  ranges := by
    rw [boxed.length]
    exact boxed.ranges
  nonempty := boxed.nonempty
  sums box has := by
    have part : (boxItems state.1 box).Sublist state.1 := (take_sublist _ _).trans (drop_sublist _ _)
    rw [boxed.sums box has]
    refine values_eq_countP ?_ fun item inside => histogram.counts item (boxed.perm.mem_iff.mp (part.subset inside))
    exact ((boxed.perm.map _).nodup_iff.mpr histogram.distinct).sublist (part.map _)

theorem image_ne_nil (rb : RasterBufferObj) : rb.image ≠ [] := by
  have pixels := Nat.mul_pos rb.some_.2 rb.some_.1
  rw [← length_image] at pixels
  exact length_pos_iff.mp pixels

theorem mem_image {rb : RasterBufferObj} {row col : Nat} (down : row < rb.height) (across : col < rb.width) :
    rb.pixels (rb.offset row col) ∈ rb.image :=
  List.mem_map_of_mem (List.mem_map.mpr ⟨(row, col), mem_positions.mpr ⟨down, across⟩, rfl⟩)

theorem within_byte (p : RgbaPixel) : Within 255 p :=
  ⟨Nat.le_of_lt_succ p.b.toNat_lt, Nat.le_of_lt_succ p.g.toNat_lt, Nat.le_of_lt_succ p.r.toNat_lt, Nat.le_of_lt_succ p.a.toNat_lt⟩

structure QuantizedWell (rb : RasterBufferObj) (reqcolors : Nat) (quantized : Quantized) : Prop where
  some_ : 1 ≤ quantized.reqcolors
  most : quantized.reqcolors ≤ reqcolors
  entries : quantized.palette.length = quantized.reqcolors
  lossless : rb.image.toFinset.card ≤ reqcolors → quantized.histogram.maxval = 255 ∧ quantized.histogram.rb = rb ∧
    quantized.palette.Nodup ∧ (∀ p, p ∈ quantized.palette ↔ p ∈ rb.image) ∧
      ∀ pixels row col, row < rb.height → col < rb.width →
        quantized.palette[(msClassifyRasterBuffer rb quantized.palette pixels (row * rb.width + col)).toNat]? =
          some (rb.pixels (rb.offset row col))
  nearest : ∀ pixels row col, row < rb.height → col < rb.width →
    Nearest quantized.palette (quantized.histogram.rb.pixels (quantized.histogram.rb.offset row col))
      (msClassifyRasterBuffer quantized.histogram.rb quantized.palette pixels (row * rb.width + col)).toNat
  boxes : ∀ (qsort : Qsort) (rounds : Nat), Partitions quantized.histogram.rb.image (splitBoxes qsort rounds
    (firstBoxes quantized.histogram.achv quantized.histogram.colors (rb.width * rb.height)))

/-- Quantising comes to an end with a palette of the wanted size at most, which is the colours of the image if they are
few enough, and every pixel is mapped to the nearest entry. -/
theorem msQuantizeRasterBuffer_well (qsort : Qsort) (rb : RasterBufferObj) {reqcolors : Nat} (least : 1 ≤ reqcolors)
    (most : reqcolors ≤ 256) :
    ∃ quantized, (∀ rounds ≥ 6, msQuantizeRasterBuffer qsort rounds rb reqcolors = some quantized) ∧
      QuantizedWell rb reqcolors quantized := by
  obtain ⟨histogram, found, counted, colors, width, height, kept⟩ :=
    @makeHistogram_found rb 255 5 (fun p _ => within_byte p) (by decide)
  have sum : (rb.width * rb.height : Int) = values histogram.achv := by
    rw [counted.values, length_image, width, height, Nat.cast_mul, Int.mul_comm]
  have present : histogram.achv ≠ [] := by
    intro none
    have length := counted.values
    rw [none] at length
    exact image_ne_nil _ (List.length_eq_zero_iff.mp (Int.natCast_eq_zero.mp length.symm))
  have some_ : 1 ≤ min histogram.colors reqcolors := le_min (colors ▸ List.length_pos_iff.mpr present) least
  have enough : min histogram.colors reqcolors ≤ histogram.achv.length := colors ▸ min_le_left _ _
  have length : (mediancut qsort histogram.achv histogram.colors (rb.width * rb.height) histogram.maxval
      (min histogram.colors reqcolors)).length = min histogram.colors reqcolors := by
    rw [sum, colors]
    exact length_mediancut histogram.maxval (colors ▸ some_) (colors ▸ enough)
  generalize palette : mediancut qsort histogram.achv histogram.colors (rb.width * rb.height) histogram.maxval
    (min histogram.colors reqcolors) = entries at length
  have filled : entries ≠ [] := List.length_pos_iff.mp (by omega)
  have short : entries.length ≤ 256 := by omega
  refine ⟨⟨histogram, entries, min histogram.colors reqcolors⟩, fun rounds enough => ?_, some_, min_le_right _ _, length,
    fun few => ?_, fun pixels row col down across => ?_, fun qsort rounds => ?_⟩
  · rw [msQuantizeRasterBuffer, makeHistogram_more found enough, ← palette]
    rfl
  · obtain ⟨same, depth⟩ := kept (few.trans (most.trans (by decide)))
    have exactly : histogram.achv.length = rb.image.toFinset.card := same ▸ counted.length
    have all : min histogram.colors reqcolors = histogram.achv.length := by omega
    have colored : entries.Perm (histogram.achv.map (·.acolor)) := by
      rw [← palette, sum, all, colors, depth]
      refine mediancut_perm present fun item has => ?_
      rw [counted.counts item has, Int.natCast_pos, List.count_pos_iff, ← counted.members]
      exact List.mem_map_of_mem has
    have members : ∀ p, p ∈ entries ↔ p ∈ rb.image := fun p => colored.mem_iff.trans (same ▸ counted.members p)
    refine ⟨depth, same, colored.nodup_iff.mpr counted.distinct, members, fun pixels row col down across => ?_⟩
    exact msClassifyRasterBuffer_exact filled short pixels down across ((members _).mpr (mem_image down across))
  · rw [← width]
    exact msClassifyRasterBuffer_nearest filled short pixels (height ▸ down) (width ▸ across)
  · rw [sum, colors]
    exact ((Boxed.first histogram.achv present).rounds rounds).partitions counted

def mergeSort : Qsort where
  sort compare list := list.mergeSort fun x y => decide (compare x y ≤ 0)
  perm compare list := list.mergeSort_perm _
  ordered compare list total trans := by
    have sorted := @List.pairwise_mergeSort _ (fun x y => decide (compare x y ≤ 0))
      (fun x y z first second => decide_eq_true (trans x y z (of_decide_eq_true first) (of_decide_eq_true second)))
      (fun x y => by simpa using total x y) list
    exact sorted.imp of_decide_eq_true

def blackAndWhite : RasterBufferObj where
  width := 2
  height := 1
  row_step := 2
  pixels offset := if offset = 0 then ⟨0, 0, 0, 255⟩ else ⟨255, 255, 255, 255⟩
  some_ := by decide
  apart := le_rfl

theorem msQuantizeRasterBuffer_well_pair :
    ∃ quantized, (∀ rounds ≥ 6, msQuantizeRasterBuffer mergeSort rounds blackAndWhite 2 = some quantized) ∧
      QuantizedWell blackAndWhite 2 quantized :=
  msQuantizeRasterBuffer_well mergeSort blackAndWhite (by decide) (by decide)

end MapServer.Quantization
