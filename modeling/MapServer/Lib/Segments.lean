import Mathlib.Analysis.Convex.Segment
import Mathlib.Tactic.FieldSimp
import Mathlib.Tactic.Linarith

namespace Lib.Segments
variable {K : Type} [Field K]

/-- The point at `t` on the line from `a` to `b`. -/
def along (a b : K × K) (t : K) : K × K := (a.1 + t * (b.1 - a.1), a.2 + t * (b.2 - a.2))

@[simp] theorem along_zero (a b : K × K) : along a b 0 = a := by simp [along]

@[simp] theorem along_one (a b : K × K) : along a b 1 = b := by simp [along]

theorem along_swap (a b : K × K) (t : K) : (along a b t).swap = along a.swap b.swap t := rfl

theorem along_along (a b : K × K) (s t u : K) : along (along a b s) (along a b t) u = along a b (s + u * (t - s)) := by
  ext <;> simp only [along] <;> ring

theorem along_edge {a b : K × K} (slanted : b.1 - a.1 ≠ 0) (edge : K) :
    along a b ((edge - a.1) / (b.1 - a.1)) = (edge, a.2 + (edge - a.1) * ((b.2 - a.2) / (b.1 - a.1))) := by
  ext
  · simp only [along, div_mul_cancel₀ _ slanted, add_sub_cancel]
  · simp only [along, div_mul_eq_mul_div, mul_div_assoc]

/-- Twice the area of the triangle from `c` to `d` and the shift `v` of `c`. -/
def cross (v w : K × K) : K := v.1 * w.2 - v.2 * w.1

variable [LinearOrder K] [IsStrictOrderedRing K] {a b c d p : K × K}

theorem mem_segment_iff : p ∈ segment K a b ↔ ∃ t, 0 ≤ t ∧ t ≤ 1 ∧ along a b t = p := by
  have same (t : K) : (1 - t) • a + t • b = along a b t := by
    ext <;> simp only [along, Prod.fst_add, Prod.snd_add, Prod.smul_fst, Prod.smul_snd, smul_eq_mul] <;> ring
  rw [segment_eq_image]
  simp only [Set.mem_image, Set.mem_Icc, same, and_assoc]

theorem along_mem {t : K} (low : 0 ≤ t) (high : t ≤ 1) : along a b t ∈ segment K a b := mem_segment_iff.mpr ⟨t, low, high, rfl⟩

theorem mem_segment_along {s t : K} (order : s ≤ t) :
    p ∈ segment K (along a b s) (along a b t) ↔ ∃ u, s ≤ u ∧ u ≤ t ∧ along a b u = p := by
  rw [mem_segment_iff]
  constructor
  · rintro ⟨u, low, high, rfl⟩
    have room : 0 ≤ t - s := sub_nonneg.mpr order
    refine ⟨s + u * (t - s), ?_, ?_, (along_along ..).symm⟩
    · linarith [mul_nonneg low room]
    · linarith [mul_le_mul_of_nonneg_right high room]
  · rintro ⟨u, low, high, rfl⟩
    rcases order.eq_or_lt with rfl | less
    · exact ⟨0, le_rfl, zero_le_one, by rw [along_zero, le_antisymm low high]⟩
    · have room : 0 < t - s := sub_pos.mpr less
      refine ⟨(u - s) / (t - s), div_nonneg (sub_nonneg.mpr low) room.le, ?_, ?_⟩
      · rw [div_le_one room]
        linarith
      · rw [along_along, div_mul_cancel₀ _ room.ne', add_sub_cancel]

theorem mem_segment_self : p ∈ segment K a a ↔ p = a := by
  rw [segment_same, Set.mem_singleton_iff]

def Meet (a b c d : K × K) : Prop := (segment K a b ∩ segment K c d).Nonempty

theorem along_eq_iff (crossing : cross (b - a) (d - c) ≠ 0) (r s : K) :
    along a b r = along c d s ↔
      r = cross (d - c) (a - c) / cross (b - a) (d - c) ∧ s = cross (b - a) (a - c) / cross (b - a) (d - c) := by
  have split : along a b r = along c d s ↔
      a.1 + r * (b.1 - a.1) = c.1 + s * (d.1 - c.1) ∧ a.2 + r * (b.2 - a.2) = c.2 + s * (d.2 - c.2) := Prod.ext_iff
  rw [split, eq_div_iff crossing, eq_div_iff crossing]
  simp only [cross, Prod.fst_sub, Prod.snd_sub] at crossing ⊢
  constructor
  · rintro ⟨across, up⟩
    exact ⟨by linear_combination (d.2 - c.2) * across - (d.1 - c.1) * up,
      by linear_combination (b.2 - a.2) * across - (b.1 - a.1) * up⟩
  · rintro ⟨first, second⟩
    constructor
    · apply mul_right_cancel₀ crossing
      linear_combination (b.1 - a.1) * first - (d.1 - c.1) * second
    · apply mul_right_cancel₀ crossing
      linear_combination (b.2 - a.2) * first - (d.2 - c.2) * second

theorem meet_iff_of_crossing (crossing : cross (b - a) (d - c) ≠ 0) {r s : K}
    (isR : r = cross (d - c) (a - c) / cross (b - a) (d - c)) (isS : s = cross (b - a) (a - c) / cross (b - a) (d - c)) :
    Meet a b c d ↔ (0 ≤ r ∧ r ≤ 1) ∧ 0 ≤ s ∧ s ≤ 1 := by
  constructor
  · rintro ⟨p, onFirst, onSecond⟩
    obtain ⟨u, lowU, highU, atU⟩ := mem_segment_iff.mp onFirst
    obtain ⟨v, lowV, highV, atV⟩ := mem_segment_iff.mp onSecond
    obtain ⟨rfl, rfl⟩ := (along_eq_iff crossing u v).mp (atU.trans atV.symm)
    rw [isR, isS]
    exact ⟨⟨lowU, highU⟩, lowV, highV⟩
  · rintro ⟨⟨lowR, highR⟩, lowS, highS⟩
    refine ⟨along a b r, along_mem lowR highR, ?_⟩
    rw [(along_eq_iff crossing r s).mpr ⟨isR, isS⟩]
    exact along_mem lowS highS

theorem not_meet_of_parallel (parallel : cross (b - a) (d - c) = 0) (apart : cross (d - c) (a - c) ≠ 0) :
    ¬ Meet a b c d := by
  rintro ⟨p, onFirst, onSecond⟩
  obtain ⟨u, -, -, atU⟩ := mem_segment_iff.mp onFirst
  obtain ⟨v, -, -, atV⟩ := mem_segment_iff.mp onSecond
  have same := atU.trans atV.symm
  have across : a.1 + u * (b.1 - a.1) = c.1 + v * (d.1 - c.1) := congrArg Prod.fst same
  have up : a.2 + u * (b.2 - a.2) = c.2 + v * (d.2 - c.2) := congrArg Prod.snd same
  apply apart
  simp only [cross, Prod.fst_sub, Prod.snd_sub] at parallel ⊢
  linear_combination u * parallel - (d.2 - c.2) * across + (d.1 - c.1) * up

theorem exists_along (differ : c ≠ d) (collinear : cross (d - c) (p - c) = 0) : ∃ t, along c d t = p := by
  simp only [cross, Prod.fst_sub, Prod.snd_sub] at collinear
  by_cases across : d.1 - c.1 = 0
  · have up : d.2 - c.2 ≠ 0 := by
      intro up
      exact differ (Prod.ext (sub_eq_zero.mp across).symm (sub_eq_zero.mp up).symm)
    refine ⟨(p.2 - c.2) / (d.2 - c.2), Prod.ext ?_ ?_⟩
    · rw [across, zero_mul, zero_sub, neg_eq_zero, mul_eq_zero, or_iff_right up, sub_eq_zero] at collinear
      simp [along, across, collinear]
    · simp only [along]
      rw [div_mul_cancel₀ _ up]
      ring
  · refine ⟨(p.1 - c.1) / (d.1 - c.1), Prod.ext ?_ ?_⟩
    · simp only [along]
      rw [div_mul_cancel₀ _ across]
      ring
    · simp only [along]
      field_simp
      linear_combination -collinear

theorem along_injective (differ : c ≠ d) : Function.Injective (along c d) := by
  intro s t same
  have across : c.1 + s * (d.1 - c.1) = c.1 + t * (d.1 - c.1) := congrArg Prod.fst same
  have up : c.2 + s * (d.2 - c.2) = c.2 + t * (d.2 - c.2) := congrArg Prod.snd same
  by_contra other
  have apart : s - t ≠ 0 := sub_ne_zero.mpr other
  apply differ
  ext
  · apply (mul_left_cancel₀ apart _)
    linear_combination -across
  · apply (mul_left_cancel₀ apart _)
    linear_combination -up

theorem along_mem_iff (differ : c ≠ d) {t : K} : along c d t ∈ segment K c d ↔ 0 ≤ t ∧ t ≤ 1 := by
  rw [mem_segment_iff]
  constructor
  · rintro ⟨u, low, high, same⟩
    rw [← along_injective differ same]
    exact ⟨low, high⟩
  · rintro ⟨low, high⟩
    exact ⟨t, low, high, rfl⟩

/-- Segments on one line meet at an end of the first one, or the first one covers the second. -/
theorem meet_iff_of_collinear (differ : c ≠ d) (lineA : cross (d - c) (a - c) = 0) (lineB : cross (d - c) (b - c) = 0) :
    Meet a b c d ↔ a ∈ segment K c d ∨ b ∈ segment K c d ∨ c ∈ segment K a b ∧ d ∈ segment K a b := by
  obtain ⟨s, rfl⟩ := exists_along differ lineA
  obtain ⟨t, rfl⟩ := exists_along differ lineB
  have start : along c d 0 = c := along_zero c d
  have stop : along c d 1 = d := along_one c d
  constructor
  · rintro ⟨p, onFirst, onSecond⟩
    obtain ⟨v, low, high, rfl⟩ := mem_segment_iff.mp onSecond
    by_contra none
    rw [not_or, not_or, along_mem_iff differ, along_mem_iff differ] at none
    obtain ⟨outA, outB, notBoth⟩ := none
    apply notBoth
    rcases le_total s t with order | order
    · obtain ⟨u, above, below, same⟩ := (mem_segment_along order).mp onFirst
      obtain rfl := along_injective differ same
      have before : s < 0 := not_le.mp fun positive => outA ⟨positive, above.trans high⟩
      have behind : 1 < t := not_le.mp fun small => outB ⟨low.trans below, small⟩
      exact ⟨(mem_segment_along order).mpr ⟨0, before.le, (low.trans below), start⟩,
        (mem_segment_along order).mpr ⟨1, (above.trans high), behind.le, stop⟩⟩
    · rw [segment_symm] at onFirst
      obtain ⟨u, above, below, same⟩ := (mem_segment_along order).mp onFirst
      obtain rfl := along_injective differ same
      have before : t < 0 := not_le.mp fun positive => outB ⟨positive, above.trans high⟩
      have behind : 1 < s := not_le.mp fun small => outA ⟨low.trans below, small⟩
      rw [segment_symm K (along c d s)]
      exact ⟨(mem_segment_along order).mpr ⟨0, before.le, (low.trans below), start⟩,
        (mem_segment_along order).mpr ⟨1, (above.trans high), behind.le, stop⟩⟩
  · rintro (inA | inB | ⟨inC, -⟩)
    · exact ⟨_, left_mem_segment K _ _, inA⟩
    · exact ⟨_, right_mem_segment K _ _, inB⟩
    · exact ⟨c, inC, left_mem_segment K _ _⟩

theorem cross_of_mem (inC : c ∈ segment K a b) (inD : d ∈ segment K a b) :
    cross (b - a) (d - c) = 0 ∧ cross (d - c) (a - c) = 0 := by
  obtain ⟨u, -, -, rfl⟩ := mem_segment_iff.mp inC
  obtain ⟨v, -, -, rfl⟩ := mem_segment_iff.mp inD
  constructor <;> simp only [cross, along, Prod.fst_sub, Prod.snd_sub] <;> ring

structure Cut (region : Set (K × K)) (a b a' b' : K × K) : Prop where
  same : segment K a' b' = segment K a b ∩ region
  order : ∃ s t, 0 ≤ s ∧ s ≤ t ∧ t ≤ 1 ∧ a' = along a b s ∧ b' = along a b t

variable {region other : Set (K × K)} {a' b' a'' b'' : K × K}

theorem Cut.of_params {s t : K} (low : 0 ≤ s) (order : s ≤ t) (high : t ≤ 1)
    (inside : ∀ u, 0 ≤ u → u ≤ 1 → (along a b u ∈ region ↔ s ≤ u ∧ u ≤ t)) : Cut region a b (along a b s) (along a b t) := by
  refine ⟨?_, s, t, low, order, high, rfl, rfl⟩
  ext p
  rw [mem_segment_along order, Set.mem_inter_iff, mem_segment_iff]
  constructor
  · rintro ⟨u, above, below, rfl⟩
    have first := low.trans above
    have second := below.trans high
    exact ⟨⟨u, first, second, rfl⟩, (inside u first second).mpr ⟨above, below⟩⟩
  · rintro ⟨⟨u, first, second, rfl⟩, member⟩
    obtain ⟨above, below⟩ := (inside u first second).mp member
    exact ⟨u, above, below, rfl⟩

theorem Cut.trans (one : Cut region a b a' b') (two : Cut other a' b' a'' b'') : Cut (region ∩ other) a b a'' b'' := by
  refine ⟨by rw [two.same, one.same, Set.inter_assoc], ?_⟩
  obtain ⟨s, t, low, order, high, rfl, rfl⟩ := one.order
  obtain ⟨u, v, lowU, orderU, highV, rfl, rfl⟩ := two.order
  have room : 0 ≤ t - s := sub_nonneg.mpr order
  refine ⟨s + u * (t - s), s + v * (t - s), ?_, ?_, ?_, along_along .., along_along ..⟩
  · linarith [mul_nonneg lowU room]
  · linarith [mul_le_mul_of_nonneg_right orderU room]
  · linarith [mul_le_mul_of_nonneg_right highV room]

theorem Cut.ends (cut : Cut region a b a' b') : a' ∈ region ∧ b' ∈ region := by
  constructor
  · exact (cut.same ▸ left_mem_segment K a' b' : a' ∈ segment K a b ∩ region).2
  · exact (cut.same ▸ right_mem_segment K a' b' : b' ∈ segment K a b ∩ region).2

theorem Cut.start (cut : Cut region a b a' b') (inside : a ∈ region) : a' = a := by
  have kept : a ∈ segment K a' b' := cut.same ▸ ⟨left_mem_segment K a b, inside⟩
  obtain ⟨s, t, low, order, high, rfl, rfl⟩ := cut.order
  obtain ⟨u, above, below, same⟩ := (mem_segment_along order).mp kept
  rcases eq_or_ne a b with rfl | differ
  · simp [along]
  · obtain rfl := along_injective differ (same.trans (along_zero a b).symm)
    rw [le_antisymm above low, along_zero]

theorem mem_segment_swap : p.swap ∈ segment K a.swap b.swap ↔ p ∈ segment K a b := by
  rw [mem_segment_iff, mem_segment_iff]
  refine exists_congr fun t => and_congr_right fun _ => and_congr_right fun _ => ?_
  rw [← along_swap]
  exact Prod.swap_injective.eq_iff

theorem Cut.swap (cut : Cut region a b a' b') : Cut (Set.preimage Prod.swap region) a.swap b.swap a'.swap b'.swap := by
  constructor
  · ext p
    have here := Set.ext_iff.mp cut.same p.swap
    rw [← mem_segment_swap, Set.mem_inter_iff, ← mem_segment_swap (a := a), Prod.swap_swap] at here
    exact here
  · obtain ⟨s, t, low, order, high, rfl, rfl⟩ := cut.order
    exact ⟨s, t, low, order, high, rfl, rfl⟩

def sideOf (sign edge : K) : Set (K × K) := {p | 0 ≤ sign * (p.1 - edge)}

theorem Cut.whole {sign edge : K} (inA : a ∈ sideOf sign edge) (inB : b ∈ sideOf sign edge) :
    Cut (sideOf sign edge) a b a b := by
  have cut : Cut (sideOf sign edge) a b _ _ := Cut.of_params le_rfl zero_le_one le_rfl fun u low high => by
    refine iff_of_true ?_ ⟨low, high⟩
    have split : sign * ((along a b u).1 - edge) = (1 - u) * (sign * (a.1 - edge)) + u * (sign * (b.1 - edge)) := by
      simp only [along]
      ring
    change 0 ≤ sign * ((along a b u).1 - edge)
    rw [split]
    exact add_nonneg (mul_nonneg (sub_nonneg.mpr high) inA) (mul_nonneg low inB)
  rwa [along_zero, along_one] at cut

theorem Cut.enter {sign edge : K} (notA : a ∉ sideOf sign edge) (inB : b ∈ sideOf sign edge) :
    Cut (sideOf sign edge) a b (edge, a.2 + (edge - a.1) * ((b.2 - a.2) / (b.1 - a.1))) b := by
  have outA : sign * (a.1 - edge) < 0 := not_le.mp notA
  have inB : 0 ≤ sign * (b.1 - edge) := inB
  have rises : 0 < sign * (b.1 - a.1) := by linarith
  have slanted : b.1 - a.1 ≠ 0 := right_ne_zero_of_mul rises.ne'
  have atEdge : (edge - a.1) / (b.1 - a.1) * (sign * (b.1 - a.1)) = sign * (edge - a.1) := by
    field_simp
  have inside (u : K) : along a b u ∈ sideOf sign edge ↔ (edge - a.1) / (b.1 - a.1) ≤ u := by
    have split : sign * ((along a b u).1 - edge) = u * (sign * (b.1 - a.1)) - sign * (edge - a.1) := by
      simp only [along]
      ring
    change 0 ≤ sign * ((along a b u).1 - edge) ↔ _
    rw [split, ← atEdge, sub_nonneg, mul_le_mul_iff_left₀ rises]
  have low : 0 ≤ (edge - a.1) / (b.1 - a.1) := by
    by_contra negative
    have start := (inside 0).mpr (not_le.mp negative).le
    rw [along_zero] at start
    exact notA start
  have high : (edge - a.1) / (b.1 - a.1) ≤ 1 := by
    rw [← inside, along_one]
    exact inB
  have cut : Cut (sideOf sign edge) a b _ _ := Cut.of_params low high le_rfl fun u _ below =>
    (inside u).trans (and_iff_left below).symm
  rwa [along_one, along_edge slanted] at cut

theorem Cut.leave {sign edge : K} (inA : a ∈ sideOf sign edge) (notB : b ∉ sideOf sign edge) :
    Cut (sideOf sign edge) a b a (edge, a.2 + (edge - a.1) * ((b.2 - a.2) / (b.1 - a.1))) := by
  have inA : 0 ≤ sign * (a.1 - edge) := inA
  have outB : sign * (b.1 - edge) < 0 := not_le.mp notB
  have falls : 0 < -sign * (b.1 - a.1) := by linarith
  have slanted : b.1 - a.1 ≠ 0 := right_ne_zero_of_mul falls.ne'
  have atEdge : (edge - a.1) / (b.1 - a.1) * (-sign * (b.1 - a.1)) = -sign * (edge - a.1) := by
    field_simp
  have inside (u : K) : along a b u ∈ sideOf sign edge ↔ u ≤ (edge - a.1) / (b.1 - a.1) := by
    have split : sign * ((along a b u).1 - edge) = -sign * (edge - a.1) - u * (-sign * (b.1 - a.1)) := by
      simp only [along]
      ring
    change 0 ≤ sign * ((along a b u).1 - edge) ↔ _
    rw [split, ← atEdge, sub_nonneg, mul_le_mul_iff_left₀ falls]
  have low : 0 ≤ (edge - a.1) / (b.1 - a.1) := by
    rw [← inside, along_zero]
    exact inA
  have high : (edge - a.1) / (b.1 - a.1) ≤ 1 := by
    by_contra more
    have stop := (inside 1).mpr (not_le.mp more).le
    rw [along_one] at stop
    exact notB stop
  have cut : Cut (sideOf sign edge) a b _ _ := Cut.of_params le_rfl low high fun u above _ =>
    (inside u).trans (and_iff_right above).symm
  rwa [along_zero, along_edge slanted] at cut

end Lib.Segments
