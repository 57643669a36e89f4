import Mathlib.Data.Finset.Prod
import MapServer.Raster.Quantization

namespace MapServer.Quantization
open List Function

structure HistogramOf (image : List RgbaPixel) (achv : List AcolorhistItem) : Prop where
  distinct : (achv.map (·.acolor)).Nodup
  members : ∀ p, p ∈ achv.map (·.acolor) ↔ p ∈ image
  counts : ∀ item ∈ achv, item.value = image.count item.acolor

structure Counted (image : List RgbaPixel) (acht : AcolorhashTable) : Prop where
  placed : ∀ hash, ∀ item ∈ acht hash, pam_hashapixel item.acolor = hash
  distinct : ∀ hash, ((acht hash).map (·.acolor)).Nodup
  members : ∀ p, p ∈ (acht (pam_hashapixel p)).map (·.acolor) ↔ p ∈ image
  counts : ∀ hash, ∀ item ∈ acht hash, item.value = image.count item.acolor

theorem increment_none {p : RgbaPixel} {list : List AcolorhistItem} (absent : p ∉ list.map (·.acolor)) :
    increment p list = none := by
  induction list with
  | nil => rfl
  | cons item rest ih =>
    obtain ⟨other, absent⟩ := not_or.mp fun has => absent (mem_cons.mpr has)
    rw [increment, if_neg (Ne.symm other), ih absent]
    rfl

def incrementItem (p : RgbaPixel) (item : AcolorhistItem) : AcolorhistItem :=
  if item.acolor = p then { item with value := item.value + 1 } else item

theorem incrementItem_acolor (p : RgbaPixel) (item : AcolorhistItem) : (incrementItem p item).acolor = item.acolor := by
  unfold incrementItem
  split <;> rfl

theorem increment_some {p : RgbaPixel} {list : List AcolorhistItem} (distinct : (list.map (·.acolor)).Nodup)
    (present : p ∈ list.map (·.acolor)) : increment p list = some (list.map (incrementItem p)) := by
  induction list with
  | nil => exact absurd present not_mem_nil
  | cons item rest ih =>
    obtain ⟨apart, distinct⟩ := nodup_cons.mp distinct
    by_cases here : item.acolor = p
    · have others : rest.map (incrementItem p) = rest := by
        refine (map_congr_left fun other has => ?_).trans (List.map_id rest)
        exact if_neg fun same => apart (List.mem_map.mpr ⟨other, has, same.trans here.symm⟩)
      rw [increment, if_pos here, map_cons, others, incrementItem, if_pos here]
    · have later : p ∈ rest.map (·.acolor) := (mem_cons.mp present).resolve_left (Ne.symm here)
      rw [increment, if_neg here, ih distinct later, map_cons, incrementItem, if_neg here]
      rfl

theorem count_snoc (image : List RgbaPixel) (p q : RgbaPixel) :
    (((image ++ [p]).count q : Nat) : Int) = image.count q + if q = p then 1 else 0 := by
  rw [count_append, count_singleton]
  by_cases same : q = p
  · simp [same]
  · simp [same, Ne.symm same]

section Pixels
variable {image : List RgbaPixel} {acht : AcolorhashTable} {p : RgbaPixel}

theorem Counted.again (counted : Counted image acht) (present : p ∈ image) : Counted (image ++ [p])
    (update acht (pam_hashapixel p) ((acht (pam_hashapixel p)).map (incrementItem p))) := by
  have colors (hash : Nat) : (update acht (pam_hashapixel p) ((acht (pam_hashapixel p)).map (incrementItem p)) hash).map
      (·.acolor) = (acht hash).map (·.acolor) := by
    by_cases here : hash = pam_hashapixel p
    · subst here
      rw [update_self, List.map_map]
      exact map_congr_left fun item _ => incrementItem_acolor p item
    · rw [update_of_ne here]
  refine ⟨fun hash item has => ?_, fun hash => ?_, fun q => ?_, fun hash item has => ?_⟩
  · have color : item.acolor ∈ (acht hash).map (·.acolor) := colors hash ▸ List.mem_map_of_mem has
    obtain ⟨older, before, same⟩ := List.mem_map.mp color
    exact same ▸ counted.placed hash older before
  · rw [colors]
    exact counted.distinct hash
  · rw [colors, counted.members, mem_append, mem_singleton]
    exact ⟨.inl, fun has => has.elim id fun same => same ▸ present⟩
  · rw [count_snoc]
    by_cases here : hash = pam_hashapixel p
    · subst here
      rw [update_self] at has
      obtain ⟨older, before, rfl⟩ := List.mem_map.mp has
      rw [incrementItem_acolor, ← counted.counts _ older before]
      unfold incrementItem
      split
      · rfl
      · exact (add_zero _).symm
    · rw [update_of_ne here] at has
      have other : item.acolor ≠ p := fun same => here (same ▸ counted.placed hash item has).symm
      rw [if_neg other, add_zero]
      exact counted.counts hash item has

theorem Counted.new (counted : Counted image acht) (absent : p ∉ image) : Counted (image ++ [p])
    (update acht (pam_hashapixel p) (⟨p, 1⟩ :: acht (pam_hashapixel p))) := by
  have unlisted : p ∉ (acht (pam_hashapixel p)).map (·.acolor) := fun has => absent ((counted.members p).mp has)
  refine ⟨fun hash item has => ?_, fun hash => ?_, fun q => ?_, fun hash item has => ?_⟩
  · by_cases here : hash = pam_hashapixel p
    · subst here
      rw [update_self] at has
      rcases mem_cons.mp has with rfl | before
      · rfl
      · exact counted.placed _ item before
    · rw [update_of_ne here] at has
      exact counted.placed hash item has
  · by_cases here : hash = pam_hashapixel p
    · subst here
      rw [update_self]
      exact nodup_cons.mpr ⟨unlisted, counted.distinct _⟩
    · rw [update_of_ne here]
      exact counted.distinct hash
  · rw [mem_append, mem_singleton, ← counted.members]
    by_cases here : pam_hashapixel q = pam_hashapixel p
    · rw [here, update_self, map_cons, mem_cons, or_comm]
    · rw [update_of_ne here]
      exact ⟨.inl, fun has => has.elim id fun same => absurd (congrArg pam_hashapixel same) here⟩
  · rw [count_snoc]
    have older (before : item ∈ acht hash) : item.value = image.count item.acolor + if item.acolor = p then 1 else 0 := by
      have listed : item.acolor ∈ image := by
        rw [← counted.members, counted.placed hash item before]
        exact List.mem_map_of_mem before
      have other : item.acolor ≠ p := fun same => absent (same ▸ listed)
      rw [if_neg other, add_zero]
      exact counted.counts hash item before
    by_cases here : hash = pam_hashapixel p
    · subst here
      rw [update_self] at has
      rcases mem_cons.mp has with rfl | before
      · rw [if_pos rfl, count_eq_zero.mpr absent]
        rfl
      · exact older before
    · rw [update_of_ne here] at has
      exact older has

end Pixels

theorem card_snoc_old {image : List RgbaPixel} {p : RgbaPixel} (present : p ∈ image) :
    (image ++ [p]).toFinset.card = image.toFinset.card := by
  congr 1
  ext q
  simp only [List.mem_toFinset, mem_append, mem_singleton]
  exact ⟨fun has => has.elim id fun same => same ▸ present, .inl⟩

theorem card_snoc_new {image : List RgbaPixel} {p : RgbaPixel} (absent : p ∉ image) :
    (image ++ [p]).toFinset.card = image.toFinset.card + 1 := by
  rw [toFinset_append, toFinset_cons, toFinset_nil, insert_empty_eq, Finset.union_singleton,
    Finset.card_insert_of_notMem (by rwa [List.mem_toFinset])]

variable {maxacolors : Nat} {rb : RasterBufferObj}

theorem countPixels_few {image rest : List RgbaPixel} {acht : AcolorhashTable} (counted : Counted image acht)
    (few : (image ++ rest).toFinset.card ≤ maxacolors) :
    ∃ table, rest.foldlM (countPixel maxacolors) (acht, image.toFinset.card) = some (table, (image ++ rest).toFinset.card) ∧
      Counted (image ++ rest) table := by
  induction rest generalizing image acht with
  | nil => exact ⟨acht, by rw [append_nil]; rfl, by rwa [append_nil]⟩
  | cons p rest ih =>
    rw [append_cons] at few ⊢
    rw [foldlM_cons, countPixel]
    by_cases present : p ∈ image
    · rw [increment_some (counted.distinct _) ((counted.members p).mpr present), ← card_snoc_old present]
      exact ih (counted.again present) few
    · have room : ¬ image.toFinset.card + 1 > maxacolors := by
        have part : (image ++ [p]).toFinset.card ≤ (image ++ [p] ++ rest).toFinset.card :=
          Finset.card_le_card fun q has => by
            rw [List.mem_toFinset] at has ⊢
            exact mem_append_left _ has
        rw [card_snoc_new present] at part
        omega
      rw [increment_none fun has => present ((counted.members p).mp has)]
      rw [if_neg room, ← card_snoc_new present]
      exact ih (counted.new present) few

theorem countPixels_many {image rest : List RgbaPixel} {acht : AcolorhashTable} (counted : Counted image acht)
    (start : image.toFinset.card ≤ maxacolors) (many : maxacolors < (image ++ rest).toFinset.card) :
    rest.foldlM (countPixel maxacolors) (acht, image.toFinset.card) = none := by
  induction rest generalizing image acht with
  | nil =>
    rw [append_nil] at many
    omega
  | cons p rest ih =>
    rw [append_cons] at many
    rw [foldlM_cons, countPixel]
    by_cases present : p ∈ image
    · rw [increment_some (counted.distinct _) ((counted.members p).mpr present), ← card_snoc_old present]
      exact ih (counted.again present) (by rwa [card_snoc_old present]) many
    · rw [increment_none fun has => present ((counted.members p).mp has)]
      by_cases room : image.toFinset.card + 1 > maxacolors
      · rw [if_pos room]
        rfl
      · rw [if_neg room, ← card_snoc_new present]
        exact ih (counted.new present) (by rw [card_snoc_new present]; omega) many

theorem Counted.none : Counted [] pam_allocacolorhash :=
  ⟨fun _ _ has => absurd has not_mem_nil, fun _ => nodup_nil, fun _ => by rfl,
    fun _ _ has => absurd has not_mem_nil⟩

theorem Counted.histogram {image : List RgbaPixel} {acht : AcolorhashTable} (counted : Counted image acht) :
    HistogramOf image (pam_acolorhashtoacolorhist acht) := by
  have listed (item : AcolorhistItem) : item ∈ pam_acolorhashtoacolorhist acht ↔ item ∈ acht (pam_hashapixel item.acolor) := by
    rw [pam_acolorhashtoacolorhist, mem_flatMap]
    constructor
    · rintro ⟨hash, _, has⟩
      rwa [counted.placed hash item has]
    · intro has
      exact ⟨_, mem_range.mpr (Nat.mod_lt _ (by decide)), has⟩
  refine ⟨?_, fun p => ?_, fun item has => counted.counts _ item (listed item |>.mp has)⟩
  · rw [pam_acolorhashtoacolorhist, map_flatMap]
    refine nodup_flatMap.mpr ⟨fun hash _ => counted.distinct hash, nodup_range.imp fun {first second} other => ?_⟩
    intro p here there
    obtain ⟨item, has, color⟩ := List.mem_map.mp here
    obtain ⟨item', has', color'⟩ := List.mem_map.mp there
    have placed : pam_hashapixel p = first := color ▸ counted.placed first item has
    have placed' : pam_hashapixel p = second := color' ▸ counted.placed second item' has'
    exact other (placed.symm.trans placed')
  · rw [← counted.members]
    constructor
    · intro has
      obtain ⟨item, inside, rfl⟩ := List.mem_map.mp has
      exact List.mem_map.mpr ⟨item, (listed item).mp inside, rfl⟩
    · intro has
      obtain ⟨item, inside, rfl⟩ := List.mem_map.mp has
      exact List.mem_map.mpr ⟨item, (listed item).mpr inside, rfl⟩

theorem HistogramOf.length {image : List RgbaPixel} {achv : List AcolorhistItem} (histogram : HistogramOf image achv) :
    achv.length = image.toFinset.card := by
  have same : (achv.map (·.acolor)).toFinset = image.toFinset := by
    ext p
    rw [List.mem_toFinset, List.mem_toFinset, histogram.members]
  rw [← same, toFinset_card_of_nodup histogram.distinct, length_map]

theorem pam_computeacolorhist_few {image : List RgbaPixel} (few : image.toFinset.card ≤ maxacolors) :
    ∃ achv, pam_computeacolorhist image maxacolors = some (achv, achv.length) ∧ HistogramOf image achv := by
  obtain ⟨table, run, counted⟩ := countPixels_few Counted.none few
  refine ⟨pam_acolorhashtoacolorhist table, ?_, counted.histogram⟩
  rw [counted.histogram.length, pam_computeacolorhist, pam_computeacolorhash]
  exact congrArg (Option.map _) run

theorem pam_computeacolorhist_many {image : List RgbaPixel} (many : maxacolors < image.toFinset.card) :
    pam_computeacolorhist image maxacolors = none := by
  rw [pam_computeacolorhist, pam_computeacolorhash]
  exact congrArg (Option.map _) (countPixels_many Counted.none (Nat.zero_le _) many)

def Within (maxval : Nat) (p : RgbaPixel) : Prop :=
  p.b.toNat ≤ maxval ∧ p.g.toNat ≤ maxval ∧ p.r.toNat ≤ maxval ∧ p.a.toNat ≤ maxval

theorem card_within {image : List RgbaPixel} {maxval : Nat} (within : ∀ p ∈ image, Within maxval p) :
    image.toFinset.card ≤ (maxval + 1) * (maxval + 1) * ((maxval + 1) * (maxval + 1)) := by
  let channels (p : RgbaPixel) : (Nat × Nat) × Nat × Nat := ((p.b.toNat, p.g.toNat), p.r.toNat, p.a.toNat)
  let levels := Finset.range (maxval + 1)
  have inside : ∀ p ∈ image.toFinset, channels p ∈ (levels ×ˢ levels) ×ˢ (levels ×ˢ levels) := by
    intro p has
    obtain ⟨b, g, r, a⟩ := within p (List.mem_toFinset.mp has)
    simp only [levels, channels, Finset.mem_product, Finset.mem_range, Nat.lt_succ_iff]
    exact ⟨⟨b, g⟩, r, a⟩
  have injective : ∀ p ∈ image.toFinset, ∀ q ∈ image.toFinset, channels p = channels q → p = q := by
    intro ⟨b, g, r, a⟩ _ ⟨b', g', r', a'⟩ _ same
    simp only [channels, Prod.mk.injEq, UInt8.toNat_inj] at same
    obtain ⟨⟨rfl, rfl⟩, rfl, rfl⟩ := same
    rfl
  have bound := Finset.card_le_card_of_injOn channels inside injective
  rwa [Finset.card_product, Finset.card_product, Finset.card_range] at bound

theorem PAM_DEPTH_within {p : RgbaPixel} {oldmaxval newmaxval : Nat} (positive : 0 < oldmaxval) (within : Within oldmaxval p) :
    Within newmaxval (PAM_DEPTH p oldmaxval newmaxval) := by
  have scaled (v : UInt8) (low : v.toNat ≤ oldmaxval) :
      (UInt8.ofNat ((v.toNat * newmaxval + oldmaxval / 2) / oldmaxval)).toNat ≤ newmaxval := by
    have product := Nat.mul_le_mul_right newmaxval low
    have quotient : (v.toNat * newmaxval + oldmaxval / 2) / oldmaxval ≤ newmaxval := by
      rw [Nat.div_le_iff_le_mul_add_pred positive]
      omega
    exact (Nat.mod_le _ _).trans quotient
  obtain ⟨b, g, r, a⟩ := within
  exact ⟨scaled p.b b, scaled p.g g, scaled p.r r, scaled p.a a⟩

theorem foldl_update {α : Type} (f : α → α) {places : List Nat} (distinct : places.Nodup) (content : Nat → α) (o : Nat) :
    places.foldl (fun content place => update content place (f (content place))) content o =
      if o ∈ places then f (content o) else content o := by
  induction places generalizing content with
  | nil => rfl
  | cons place rest ih =>
    obtain ⟨apart, distinct⟩ := nodup_cons.mp distinct
    rw [foldl_cons, ih distinct]
    by_cases here : o = place
    · subst here
      rw [if_neg apart, update_self, if_pos mem_cons_self]
    · rw [update_of_ne here]
      simp only [mem_cons, here, false_or]

theorem mem_positions {row col : Nat} : (row, col) ∈ rb.positions ↔ row < rb.height ∧ col < rb.width := by
  simp only [RasterBufferObj.positions, mem_flatMap, List.mem_map, mem_range, Prod.mk.injEq]
  constructor
  · rintro ⟨_, inside, _, across, rfl, rfl⟩
    exact ⟨inside, across⟩
  · rintro ⟨inside, across⟩
    exact ⟨row, inside, col, across, rfl, rfl⟩

theorem positions_nodup (rb : RasterBufferObj) : rb.positions.Nodup := by
  refine nodup_flatMap.mpr ⟨fun row _ => ?_, nodup_range.imp fun {first second} other => ?_⟩
  · exact nodup_range.map fun _ _ same => (Prod.mk.inj same).2
  · rintro ⟨row, col⟩ here there
    obtain ⟨_, _, mine⟩ := List.mem_map.mp here
    obtain ⟨_, _, yours⟩ := List.mem_map.mp there
    exact other ((Prod.mk.inj mine).1.trans (Prod.mk.inj yours).1.symm)

theorem place_injective {step row col row' col' : Nat} (short : col < step) (short' : col' < step)
    (same : row * step + col = row' * step + col') : row = row' ∧ col = col' := by
  have rows := congrArg (· / step) same
  have cols := congrArg (· % step) same
  simp only [Nat.mul_comm _ step, Nat.mul_add_div (Nat.zero_lt_of_lt short), Nat.mul_add_mod, Nat.div_eq_of_lt short,
    Nat.div_eq_of_lt short', Nat.mod_eq_of_lt short, Nat.mod_eq_of_lt short', Nat.add_zero] at rows cols
  exact ⟨rows, cols⟩

theorem offsets_nodup (rb : RasterBufferObj) : rb.offsets.Nodup := by
  refine (positions_nodup rb).map_on fun (row, col) first (row', col') second same => ?_
  have apart := rb.apart
  obtain ⟨rfl, rfl⟩ := place_injective (by have := (mem_positions.mp first).2; omega)
    (by have := (mem_positions.mp second).2; omega) same
  rfl

theorem lowerDepth_image (rb : RasterBufferObj) (oldmaxval newmaxval : Nat) :
    (lowerDepth rb oldmaxval newmaxval).image = rb.image.map fun p => PAM_DEPTH p oldmaxval newmaxval := by
  rw [RasterBufferObj.image, RasterBufferObj.image, List.map_map]
  refine map_congr_left fun o has => ?_
  exact (foldl_update (fun p => PAM_DEPTH p oldmaxval newmaxval) (offsets_nodup rb) rb.pixels o).trans (if_pos has)

theorem length_image (rb : RasterBufferObj) : rb.image.length = rb.height * rb.width := by
  rw [RasterBufferObj.image, RasterBufferObj.offsets, length_map, length_map, RasterBufferObj.positions,
    length_flatMap]
  simp

/-- A histogram of the raster, which is the given one unless that has too many colours. -/
structure HistogramFrom (rb : RasterBufferObj) (maxval : Nat) (histogram : Histogram) : Prop where
  counted : HistogramOf histogram.rb.image histogram.achv
  colors : histogram.colors = histogram.achv.length
  width : histogram.rb.width = rb.width
  height : histogram.rb.height = rb.height
  kept : rb.image.toFinset.card ≤ MAXCOLORS → histogram.rb = rb ∧ histogram.maxval = maxval

theorem makeHistogram_found {maxval rounds : Nat} (within : ∀ p ∈ rb.image, Within maxval p)
    (low : maxval < 2 ^ (rounds + 3)) :
    ∃ histogram, makeHistogram (rounds + 1) rb maxval = some histogram ∧ HistogramFrom rb maxval histogram := by
  induction rounds generalizing rb maxval with
  | zero =>
    have few : rb.image.toFinset.card ≤ MAXCOLORS := by
      have small : maxval + 1 ≤ 8 := low
      have square : (maxval + 1) * (maxval + 1) ≤ 8 * 8 := Nat.mul_le_mul small small
      exact (card_within within).trans ((Nat.mul_le_mul square square).trans (by decide))
    obtain ⟨achv, found, histogram⟩ := pam_computeacolorhist_few few
    refine ⟨⟨achv, achv.length, rb, maxval⟩, ?_, histogram, rfl, rfl, rfl, fun _ => ⟨rfl, rfl⟩⟩
    rw [makeHistogram, found]
  | succ rounds ih =>
    by_cases few : rb.image.toFinset.card ≤ MAXCOLORS
    · obtain ⟨achv, found, histogram⟩ := pam_computeacolorhist_few few
      refine ⟨⟨achv, achv.length, rb, maxval⟩, ?_, histogram, rfl, rfl, rfl, fun _ => ⟨rfl, rfl⟩⟩
      rw [makeHistogram, found]
    · have positive : 0 < maxval := by
        by_contra zero
        have none : maxval = 0 := by omega
        subst none
        exact few ((card_within within).trans (by decide))
      have half : ∀ p ∈ (lowerDepth rb maxval (maxval / 2)).image, Within (maxval / 2) p := by
        intro p has
        rw [lowerDepth_image] at has
        obtain ⟨q, inside, rfl⟩ := List.mem_map.mp has
        exact PAM_DEPTH_within positive (within q inside)
      obtain ⟨histogram, found, from_⟩ := ih half (by rw [Nat.pow_succ] at low; omega)
      refine ⟨histogram, ?_, from_.counted, from_.colors, from_.width, from_.height, fun few' => absurd few' few⟩
      rw [makeHistogram, pam_computeacolorhist_many (by omega)]
      exact found

theorem makeHistogram_more {maxval rounds more : Nat} {histogram : Histogram}
    (found : makeHistogram rounds rb maxval = some histogram) (enough : rounds ≤ more) :
    makeHistogram more rb maxval = some histogram := by
  induction rounds generalizing more rb maxval with
  | zero => exact absurd found nofun
  | succ rounds ih =>
    obtain ⟨more, rfl⟩ : ∃ k, more = k + 1 := ⟨more - 1, by omega⟩
    rw [makeHistogram] at found ⊢
    cases computed : pam_computeacolorhist rb.image MAXCOLORS with
    | some result =>
      rw [computed] at found
      exact found
    | none =>
      rw [computed] at found
      exact ih found (by omega)

end MapServer.Quantization
