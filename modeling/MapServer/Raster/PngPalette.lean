import Mathlib.Data.Rat.Floor
import MapServer.Lib.Loop
import MapServer.Raster.Quantization

/-!
`remapPaletteForPNG` of `mapimageio.c`. A product of doubles is the exact one, rounded; `none` stands for a division by zero,
a number that no byte holds, or a pixel past the entries.
-/

namespace MapServer.Quantization
open Lib.Loop List Function

structure RgbPixel where
  r : UInt8
  g : UInt8
  b : UInt8
  deriving DecidableEq

structure Rounding (K : Type) [Field K] [LinearOrder K] where
  round : K → K
  near : ∀ x, x = 0 ∨ 1 / 2 ≤ x ∧ x ≤ 2 ^ 16 → |round x - x| ≤ x / 2 ^ 53

section Model
variable {K : Type} [Field K] [LinearOrder K] [FloorRing K]

def toByte (x : K) : Option UInt8 := if -1 < x ∧ x < 256 then some (UInt8.ofNat ⌊x⌋.toNat) else none

/-- The loop that fills `remap`, with `top_idx` and `bot_idx` after it. -/
def remapEntries (maxval : Nat) : List RgbaPixel → Int → Int → List Int × Int × Int
  | [], top_idx, bot_idx => ([], top_idx, bot_idx)
  | entry :: rest, top_idx, bot_idx =>
    if entry.a.toNat = maxval then
      let (remap, ends) := remapEntries maxval rest (top_idx - 1) bot_idx
      (top_idx :: remap, ends)
    else
      let (remap, ends) := remapEntries maxval rest top_idx (bot_idx + 1)
      (bot_idx :: remap, ends)

def rescaleByte (maxval : Nat) (c : UInt8) : UInt8 :=
  if maxval = 255 then c else UInt8.ofNat ((c.toNat * 255 + (maxval >>> 1)) / maxval)

variable (doubles : Rounding K)

def unpremultiply (a c : UInt8) : Option UInt8 :=
  if a = 0 then none
  else
    let da := doubles.round (255 / (a.toNat : K))
    toByte (doubles.round ((c.toNat : K) * da))

/-- What the last loop puts into `rgb` and `a` for an entry. -/
def pngEntry (maxval : Nat) (entry : RgbaPixel) : Option (RgbPixel × UInt8) := do
  let a := rescaleByte maxval entry.a
  if a ≠ 255 then
    let r ← unpremultiply doubles a (rescaleByte maxval entry.r)
    let g ← unpremultiply doubles a (rescaleByte maxval entry.g)
    let b ← unpremultiply doubles a (rescaleByte maxval entry.b)
    some (⟨r, g, b⟩, a)
  else some (⟨rescaleByte maxval entry.r, rescaleByte maxval entry.g, rescaleByte maxval entry.b⟩, a)

/-- `pixels` of the raster, and the arrays `rgb` and `a` in one. -/
structure PngPalette where
  pixels : List UInt8
  entries : Nat → RgbPixel × UInt8
  num_a : Int

def storeEntries (values : List (Int × RgbPixel × UInt8)) (entries : Nat → RgbPixel × UInt8) : Nat → RgbPixel × UInt8 :=
  values.foldl (fun entries value => update entries value.1.toNat value.2) entries

/-- `some none` is `MS_FAILURE`. The palette has the first `num_entries` entries. -/
def remapPaletteForPNG (maxval : Nat) (palette : List RgbaPixel) (pixels : List UInt8)
    (entries : Nat → RgbPixel × UInt8) : Option (Option PngPalette) :=
  let (remap, top_idx, bot_idx) := remapEntries maxval palette (palette.length - 1) 0
  if bot_idx ≠ top_idx + 1 then some none
  else do
    let pixels ← pixels.mapM fun pixel => remap[pixel.toNat]?.map fun index => UInt8.ofNat index.toNat
    let values ← palette.mapM (pngEntry doubles maxval)
    some (some { pixels, entries := storeEntries (remap.zip values) entries, num_a := bot_idx })

end Model

def rescaled (maxval : Nat) (c : UInt8) : Nat := (c.toNat * 255 + maxval / 2) / maxval

/-- A byte is the quotient `255 * c / a` without its fraction, or one less than an exact quotient, as doubles have it. -/
def IsQuotient (a c : Nat) (value : UInt8) : Prop := a * value.toNat ≤ 255 * c ∧ 255 * c ≤ a * (value.toNat + 1)

def HoldsColour (maxval : Nat) (entry : RgbaPixel) (value : RgbPixel × UInt8) : Prop :=
  value.2.toNat = rescaled maxval entry.a ∧
    IsQuotient (rescaled maxval entry.a) (rescaled maxval entry.r) value.1.r ∧
    IsQuotient (rescaled maxval entry.a) (rescaled maxval entry.g) value.1.g ∧
    IsQuotient (rescaled maxval entry.a) (rescaled maxval entry.b) value.1.b

def Premultiplied (maxval : Nat) (entry : RgbaPixel) : Prop :=
  (entry.r ≤ entry.a ∧ entry.g ≤ entry.a ∧ entry.b ≤ entry.a) ∧ entry.a.toNat ≤ maxval

structure KeepsPicture (maxval : Nat) (palette : List RgbaPixel) (pixels : List UInt8) (remap : List Nat)
    (after : PngPalette) : Prop where
  permutation : remap.Perm (List.range palette.length)
  below : ∀ (x i : Nat) (entry : RgbaPixel), palette[x]? = some entry → remap[x]? = some i →
    ((i : Int) < after.num_a ↔ entry.a.toNat < maxval)
  pixels : Forall₂ (fun pixel new => remap[pixel.toNat]? = some new.toNat) pixels after.pixels
  colours : ∀ (x i : Nat) (entry : RgbaPixel), palette[x]? = some entry → remap[x]? = some i →
    HoldsColour maxval entry (after.entries i)

section Division
variable {K : Type} [Field K] [LinearOrder K] [IsStrictOrderedRing K] [FloorRing K] (doubles : Rounding K)

theorem abs_product_lt {a c : Nat} (some_ : 1 ≤ a) (byte : a < 255) (less : c ≤ a) :
    |(a : K) * doubles.round (c * doubles.round (255 / a)) - 255 * c| < 1 := by
  have one : (1 : K) ≤ a := by exact_mod_cast some_
  have top : (a : K) ≤ 255 := by exact_mod_cast byte.le
  have positive : (0 : K) < a := by linarith
  have whole : (a : K) * (255 / a) = 255 := mul_div_cancel₀ 255 positive.ne'
  have low : (1 : K) ≤ 255 / a := (one_le_div positive).mpr top
  have high : 255 / (a : K) ≤ 255 := div_le_self (by norm_num) one
  have first := abs_le.mp (doubles.near (255 / a) (.inr ⟨by linarith, by linarith⟩))
  generalize 255 / (a : K) = x at *
  generalize doubles.round x = d at *
  rcases Nat.eq_zero_or_pos c with rfl | some_c
  · have zero := doubles.near 0 (.inl rfl)
    rw [zero_div, sub_zero] at zero
    have nothing : doubles.round 0 = 0 := abs_eq_zero.mp (le_antisymm zero (abs_nonneg _))
    simp [nothing]
  have oneC : (1 : K) ≤ c := by exact_mod_cast some_c
  have lessC : (c : K) ≤ a := by exact_mod_cast less
  have dLow : 255 - 255 / 1000000 ≤ a * d := by nlinarith
  have dHigh : (a : K) * d ≤ 255 + 255 / 1000000 := by nlinarith
  have yLow : 1 / 2 ≤ c * d := by nlinarith
  have yHigh : c * d ≤ 256 := by nlinarith
  have second := abs_le.mp (doubles.near (c * d) (.inr ⟨yLow, by linarith⟩))
  generalize doubles.round (c * d) = p at *
  have up : a * p ≤ a * (c * d + c * d / 1000000) := mul_le_mul_of_nonneg_left (by linarith) positive.le
  have down : a * (c * d - c * d / 1000000) ≤ a * p := mul_le_mul_of_nonneg_left (by linarith) positive.le
  have cUp : c * (a * d) ≤ c * (255 + 255 / 1000000) := mul_le_mul_of_nonneg_left dHigh (by linarith)
  have cDown : c * (255 - 255 / 1000000) ≤ c * (a * d) := mul_le_mul_of_nonneg_left dLow (by linarith)
  rw [show a * (c * d + c * d / 1000000) = c * (a * d) + c * (a * d) / 1000000 by ring] at up
  rw [show a * (c * d - c * d / 1000000) = c * (a * d) - c * (a * d) / 1000000 by ring] at down
  rw [abs_lt]
  constructor <;> linarith

theorem unpremultiply_spec {a c : UInt8} (some_ : a ≠ 0) (byte : a ≠ 255) (less : c ≤ a) :
    ∃ value, unpremultiply doubles a c = some value ∧ IsQuotient a.toNat c.toNat value := by
  have positive : 1 ≤ a.toNat := Nat.one_le_iff_ne_zero.mpr fun zero => some_ (UInt8.toNat_inj.mp zero)
  have top : a.toNat < 255 := by
    have differs : a.toNat ≠ 255 := fun same => byte (UInt8.toNat_inj.mp same)
    have := a.toNat_lt
    omega
  have lessNat : c.toNat ≤ a.toNat := UInt8.le_iff_toNat_le.mp less
  have near := abs_lt.mp (abs_product_lt doubles positive top lessNat)
  unfold unpremultiply
  rw [if_neg some_]
  dsimp only
  generalize doubles.round (c.toNat * doubles.round (255 / a.toNat)) = p at near ⊢
  have one : (1 : K) ≤ a.toNat := by exact_mod_cast positive
  have room : (c.toNat : K) ≤ a.toNat := by exact_mod_cast lessNat
  have low : -1 < p := by nlinarith
  have high : p < 256 := by nlinarith
  rw [toByte, if_pos ⟨low, high⟩]
  refine ⟨_, rfl, ?_⟩
  have floor := Int.floor_le p
  have next := Int.lt_floor_add_one p
  have above : -1 ≤ ⌊p⌋ := Int.le_floor.mpr (by push_cast; exact low.le)
  have below : ⌊p⌋ < 256 := Int.floor_lt.mpr (by exact_mod_cast high)
  have first : (a.toNat : Int) * ⌊p⌋ < 255 * c.toNat + 1 := by
    have scaled : (a.toNat : K) * ⌊p⌋ ≤ a.toNat * p := mul_le_mul_of_nonneg_left floor (by linarith)
    exact_mod_cast (show (a.toNat : K) * ⌊p⌋ < 255 * c.toNat + 1 by linarith)
  have second : 255 * (c.toNat : Int) - 1 < a.toNat * (⌊p⌋ + 1) := by
    have scaled : (a.toNat : K) * p < a.toNat * (⌊p⌋ + 1) := mul_lt_mul_of_pos_left next (by linarith)
    exact_mod_cast (show 255 * (c.toNat : K) - 1 < a.toNat * (⌊p⌋ + 1) by linarith)
  have value : (UInt8.ofNat ⌊p⌋.toNat).toNat = ⌊p⌋.toNat := UInt8.toNat_ofNat_of_lt' (by simp; omega)
  rw [IsQuotient, value]
  rcases Int.eq_ofNat_of_zero_le (show 0 ≤ ⌊p⌋ + 1 by omega) with ⟨k, isNext⟩
  rw [isNext] at second
  rw [show ⌊p⌋ = k - 1 by omega] at first ⊢
  cases k with
  | zero =>
    have : c.toNat = 0 := by push_cast at second; omega
    simp [this]
  | succ k =>
    simp only [Nat.cast_add, Nat.cast_one, add_sub_cancel_right, Int.toNat_natCast] at first second ⊢
    exact ⟨by exact_mod_cast Int.lt_add_one_iff.mp first, by exact_mod_cast Int.sub_one_lt_iff.mp second⟩

end Division

section Remap
variable {maxval : Nat} {palette : List RgbaPixel} {remap : List Nat} {values : List (RgbPixel × UInt8)}

theorem remapEntries_spec (maxval : Nat) (palette : List RgbaPixel) (bot : Nat) : ∃ (remap : List Nat) (last : Nat),
    remapEntries maxval palette (bot + palette.length - 1 : Int) bot = (remap.map Nat.cast, (last : Int) - 1, (last : Int)) ∧
      remap.Perm (List.range' bot palette.length) ∧ bot ≤ last ∧ last ≤ bot + palette.length ∧
      ∀ (x i : Nat) (entry : RgbaPixel), palette[x]? = some entry → remap[x]? = some i →
        (i < last ↔ entry.a.toNat ≠ maxval) := by
  induction palette generalizing bot with
  | nil => exact ⟨[], bot, by simp [remapEntries], .refl _, le_rfl, le_rfl, fun x i entry here => by simp at here⟩
  | cons entry rest ih =>
    by_cases isOpaque : entry.a.toNat = maxval
    · obtain ⟨remap, last, run, perm, low, high, below⟩ := ih bot
      have top : (bot : Int) + (entry :: rest).length - 1 = (bot + rest.length : Nat) := by
        push_cast [length_cons]
        ring
      refine ⟨(bot + rest.length) :: remap, last, ?_, ?_, low, by rw [length_cons]; omega, ?_⟩
      · rw [remapEntries, if_pos isOpaque, top, Nat.cast_add, run]
        rfl
      · rw [length_cons, range'_1_concat]
        exact (perm.cons _).trans (perm_append_singleton ..).symm
      · intro x i other there new
        cases x with
        | zero =>
          cases there
          cases new
          exact iff_of_false (by omega) (not_not.mpr isOpaque)
        | succ x => exact below x i other there new
    · obtain ⟨remap, last, run, perm, low, high, below⟩ := ih (bot + 1)
      have top : (bot : Int) + (entry :: rest).length - 1 = (bot + 1 : Nat) + rest.length - 1 := by
        push_cast [length_cons]
        ring
      refine ⟨bot :: remap, last, ?_, ?_, by omega, by rw [length_cons]; omega, ?_⟩
      · rw [remapEntries, if_neg isOpaque, top, show (bot : Int) + 1 = (bot + 1 : Nat) by simp, run]
        rfl
      · rw [length_cons, range'_succ]
        exact perm.cons bot
      · intro x i other there new
        cases x with
        | zero =>
          cases there
          cases new
          exact iff_of_true (by omega) isOpaque
        | succ x => exact below x i other there new

theorem storeEntries_other {i : Nat} (other : i ∉ remap) (entries : Nat → RgbPixel × UInt8) :
    storeEntries ((remap.map Nat.cast).zip values) entries i = entries i := by
  induction remap generalizing values entries with
  | nil => rfl
  | cons first remap ih =>
    rw [mem_cons, not_or] at other
    cases values with
    | nil => rfl
    | cons value values =>
      exact (ih other.2 (update entries first value)).trans (update_of_ne other.1 ..)

theorem storeEntries_here (distinct : remap.Nodup) {x i : Nat} {value : RgbPixel × UInt8} (new : remap[x]? = some i)
    (isValue : values[x]? = some value) (entries : Nat → RgbPixel × UInt8) :
    storeEntries ((remap.map Nat.cast).zip values) entries i = value := by
  induction remap generalizing values entries x with
  | nil => cases new
  | cons first remap ih =>
    cases values with
    | nil => cases isValue
    | cons head values =>
      rw [nodup_cons] at distinct
      cases x with
      | zero =>
        cases new
        cases isValue
        exact (storeEntries_other distinct.1 _).trans (update_self ..)
      | succ x => exact ih distinct.2 new isValue _

end Remap

section Rescale
variable {maxval : Nat} (scale : 1 ≤ maxval ∧ maxval ≤ 255)
include scale

theorem rescaleByte_toNat {c : UInt8} (bound : c.toNat ≤ maxval) : (rescaleByte maxval c).toNat = rescaled maxval c := by
  unfold rescaleByte rescaled
  split
  next top =>
    subst top
    omega
  next =>
    refine UInt8.toNat_ofNat_of_lt' ?_
    rw [Nat.shiftRight_one, UInt8.size, Nat.div_lt_iff_lt_mul scale.1]
    omega

theorem rescaled_pos {c : UInt8} (some_ : c ≠ 0) : 0 < rescaled maxval c := by
  have positive : c.toNat ≠ 0 := fun zero => some_ (UInt8.toNat_inj.mp zero)
  exact Nat.div_pos (by omega) scale.1

theorem rescaleByte_le {c a : UInt8} (less : c ≤ a) (bound : a.toNat ≤ maxval) :
    rescaleByte maxval c ≤ rescaleByte maxval a := by
  have lessNat : c.toNat ≤ a.toNat := UInt8.le_iff_toNat_le.mp less
  rw [UInt8.le_iff_toNat_le, rescaleByte_toNat scale bound, rescaleByte_toNat scale (lessNat.trans bound)]
  exact Nat.div_le_div_right (by omega)

variable {K : Type} [Field K] [LinearOrder K] [FloorRing K] (doubles : Rounding K) {entry : RgbaPixel}

theorem pngEntry_none (transparent : entry.a = 0) : pngEntry doubles maxval entry = none := by
  have nothing : rescaleByte maxval entry.a = 0 := by
    rw [transparent, ← UInt8.toNat_inj, rescaleByte_toNat scale (Nat.zero_le _)]
    exact Nat.div_eq_of_lt (by simp; omega)
  rw [pngEntry, nothing]
  rfl

variable [IsStrictOrderedRing K]

theorem pngEntry_spec (premultiplied : Premultiplied maxval entry) (shows : entry.a ≠ 0) :
    ∃ value, pngEntry doubles maxval entry = some value ∧ HoldsColour maxval entry value := by
  obtain ⟨⟨lessR, lessG, lessB⟩, bound⟩ := premultiplied
  have toNat : ∀ {c : UInt8}, c ≤ entry.a → (rescaleByte maxval c).toNat = rescaled maxval c := fun less =>
    rescaleByte_toNat scale ((UInt8.le_iff_toNat_le.mp less).trans bound)
  have alpha := toNat (UInt8.le_refl entry.a)
  rw [pngEntry]
  by_cases full : rescaleByte maxval entry.a = 255
  · rw [if_neg (not_not.mpr full)]
    refine ⟨_, rfl, alpha, ?_⟩
    rw [full] at alpha
    rw [← alpha]
    have exact_ : ∀ {c : UInt8}, c ≤ entry.a → IsQuotient 255 (rescaled maxval c) (rescaleByte maxval c) := fun less => by
      rw [IsQuotient, toNat less]
      omega
    exact ⟨exact_ lessR, exact_ lessG, exact_ lessB⟩
  · rw [if_pos full]
    have some_ : rescaleByte maxval entry.a ≠ 0 := fun zero => by
      rw [zero] at alpha
      exact (rescaled_pos scale shows).ne alpha
    have quotient : ∀ {c : UInt8}, c ≤ entry.a →
        ∃ value, unpremultiply doubles (rescaleByte maxval entry.a) (rescaleByte maxval c) = some value ∧
          IsQuotient (rescaled maxval entry.a) (rescaled maxval c) value := fun less => by
      rw [← alpha, ← toNat less]
      exact unpremultiply_spec doubles some_ full (rescaleByte_le scale less bound)
    obtain ⟨r, isR, holdsR⟩ := quotient lessR
    obtain ⟨g, isG, holdsG⟩ := quotient lessG
    obtain ⟨b, isB, holdsB⟩ := quotient lessB
    exact ⟨_, by rw [isR, isG, isB]; rfl, alpha, holdsR, holdsG, holdsB⟩

end Rescale

section Palette
variable {K : Type} [Field K] [LinearOrder K] [IsStrictOrderedRing K] [FloorRing K] (doubles : Rounding K)

/-- The picture is kept if and only if no entry is fully transparent: for such an entry 255 is divided by zero. -/
theorem remapPaletteForPNG_iff {maxval : Nat} (scale : 1 ≤ maxval ∧ maxval ≤ 255) {palette : List RgbaPixel}
    (size : 1 ≤ palette.length ∧ palette.length ≤ 256) (premultiplied : ∀ entry ∈ palette, Premultiplied maxval entry)
    {pixels : List UInt8} (inside : ∀ pixel ∈ pixels, pixel.toNat < palette.length) (entries : Nat → RgbPixel × UInt8) :
    (∃ remap after, remapPaletteForPNG doubles maxval palette pixels entries = some (some after) ∧
      KeepsPicture maxval palette pixels remap after) ↔ ∀ entry ∈ palette, entry.a ≠ 0 := by
  obtain ⟨remap, last, run, perm, -, -, below⟩ := remapEntries_spec maxval palette 0
  rw [Nat.cast_zero, zero_add] at run
  rw [← range_eq_range'] at perm
  have length : remap.length = palette.length := perm.length_eq.trans length_range
  have moved : ∀ pixel ∈ pixels,
      ∃ new, ((remap.map Nat.cast : List Int)[pixel.toNat]?.map fun index => UInt8.ofNat index.toNat) = some new ∧
        remap[pixel.toNat]? = some new.toNat := fun pixel member => by
    have here : pixel.toNat < remap.length := length ▸ inside pixel member
    have small : remap[pixel.toNat] < palette.length := mem_range.mp (perm.mem_iff.mp (getElem_mem here))
    refine ⟨UInt8.ofNat remap[pixel.toNat], ?_, ?_⟩
    · rw [getElem?_map, getElem?_eq_getElem here]
      rfl
    · rw [getElem?_eq_getElem here, UInt8.toNat_ofNat_of_lt' (show _ < 256 by omega)]
  obtain ⟨newPixels, isPixels, allMoved⟩ := mapM_parts moved
  unfold remapPaletteForPNG
  simp only [run, ne_eq, sub_add_cancel, not_true_eq_false, if_false, isPixels]
  constructor
  · rintro ⟨_, after, isAfter, -⟩ entry member transparent
    rw [mapM_none member (pngEntry_none scale doubles transparent)] at isAfter
    cases isAfter
  · intro shows
    obtain ⟨values, isValues, allHold⟩ :=
      mapM_parts fun entry member => pngEntry_spec scale doubles (premultiplied entry member) (shows entry member)
    rw [isValues]
    refine ⟨remap, _, rfl, perm, fun x i entry there new => ?_, allMoved, fun x i entry there new => ?_⟩
    · have bound := (premultiplied entry (mem_of_getElem? there)).2
      have side := below x i entry there new
      simp only [Nat.cast_lt]
      omega
    · obtain ⟨value, isValue, holds⟩ := forall₂_getElem? allHold there
      dsimp only
      rwa [storeEntries_here (perm.nodup_iff.mpr nodup_range) new isValue]

end Palette

def exactly : Rounding ℚ := ⟨id, fun x range => by
  have notNegative : 0 ≤ x := by
    rcases range with rfl | ⟨low, -⟩
    · rfl
    · linarith
  rw [id, sub_self, abs_zero]
  positivity⟩

def twoEntries : List RgbaPixel := [⟨4, 2, 0, 8⟩, ⟨1, 2, 15, 15⟩]

theorem remapPaletteForPNG_iff_twoEntries : ∃ remap after,
    remapPaletteForPNG exactly 15 twoEntries [1, 0, 0] (fun _ => (⟨0, 0, 0⟩, 0)) = some (some after) ∧
      KeepsPicture 15 twoEntries [1, 0, 0] remap after :=
  (remapPaletteForPNG_iff exactly (by decide) (by decide) (by unfold Premultiplied; decide) (by simp [twoEntries]) _).mpr (by decide)

theorem remapPaletteForPNG_clear : (∀ entry ∈ [RgbaPixel.mk 0 0 0 0], Premultiplied 255 entry) ∧
    remapPaletteForPNG exactly 255 [⟨0, 0, 0, 0⟩] [0] (fun _ => (⟨0, 0, 0⟩, 0)) = none := by
  constructor
  · unfold Premultiplied
    decide
  · rfl

end MapServer.Quantization
