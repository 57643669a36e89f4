import MapServer.Lib.EvenOdd
import MapServer.Lib.Segments

/-!
The crossings of a path depend on neither its direction nor on further points along its edges, and a ring may be read
from any of its vertices. On one side of a point a path may take any way.
-/

namespace Lib.EvenOdd
open List
open Lib.Segments (along along_zero along_one)

variable {K : Type} [Field K] [LinearOrder K] {a b c p : K × K}

theorem crosses_self (a p : K × K) : crosses a a p = false := by simp [crosses]

theorem parity_append (p prev : K × K) (first : List (K × K)) (a : K × K) (rest : List (K × K)) :
    parity p prev (first ++ a :: rest) = (parity p prev (first ++ [a]) ^^ parity p a rest) := by
  induction first generalizing prev with
  | nil => simp [parity]
  | cons b first ih => simp only [cons_append, parity, ih, Bool.xor_assoc]

theorem inside_cons (a : K × K) (rest : List (K × K)) (p : K × K) : inside (a :: rest) p = parity p a (rest ++ [a]) := by
  rcases rest.eq_nil_or_concat with rfl | ⟨front, last, rfl⟩
  · simp [inside, parity]
  · have closing : parity p a (front ++ [last] ++ [a]) = (parity p a (front ++ [last]) ^^ crosses a last p) := by
      rw [append_assoc, singleton_append, parity_append]
      simp [parity]
    rw [concat_eq_append, closing, inside, ← cons_append, getLast?_concat, Option.any_some, cons_append,
      parity, Bool.xor_comm]

theorem inside_rotate (first second : List (K × K)) (p : K × K) : inside (first ++ second) p = inside (second ++ first) p := by
  cases first with
  | nil => rw [nil_append, append_nil]
  | cons a first =>
    cases second with
    | nil => rw [nil_append, append_nil]
    | cons b second =>
      have forth : parity p a (first ++ b :: second ++ [a]) =
          (parity p a (first ++ [b]) ^^ parity p b (second ++ [a])) := by
        rw [append_assoc, cons_append, parity_append]
      have back : parity p b (second ++ a :: first ++ [b]) =
          (parity p b (second ++ [a]) ^^ parity p a (first ++ [b])) := by
        rw [append_assoc, cons_append, parity_append]
      rw [cons_append, cons_append, inside_cons, inside_cons, forth, back, Bool.xor_comm]

theorem inside_closed (a : K × K) (rest : List (K × K)) (p : K × K) : inside (a :: (rest ++ [a])) p = inside (a :: rest) p := by
  rw [inside_cons, inside_cons, append_assoc, singleton_append, parity_append]
  simp [parity, crosses_self]

omit [LinearOrder K] in
theorem crossingX_comm (slanted : a.2 ≠ b.2) (p : K × K) : crossingX a b p = crossingX b a p := by
  have forth : b.2 - a.2 ≠ 0 := sub_ne_zero.mpr slanted.symm
  have back : a.2 - b.2 ≠ 0 := sub_ne_zero.mpr slanted
  unfold crossingX
  rw [div_add' _ _ _ forth, div_add' _ _ _ back, div_eq_div_iff forth back]
  ring

theorem crosses_comm (a b p : K × K) : crosses a b p = crosses b a p := by
  rcases eq_or_ne a.2 b.2 with level | slanted
  · simp [crosses, reaches, level]
  · rw [crosses, crosses, crossingX_comm slanted, bne_comm]

theorem parity_reverse (p a : K × K) (rest : List (K × K)) (b : K × K) :
    parity p b (rest.reverse ++ [a]) = parity p a (rest ++ [b]) := by
  induction rest generalizing a with
  | nil => simp [parity, crosses_comm]
  | cons c rest ih =>
    rw [reverse_cons, append_assoc, singleton_append, parity_append, ih c, cons_append, parity,
      Bool.xor_comm]
    simp [parity, crosses_comm]

theorem inside_reverse (ring : List (K × K)) (p : K × K) : inside ring.reverse p = inside ring p := by
  cases ring with
  | nil => rfl
  | cons a rest => rw [reverse_cons, inside_rotate, singleton_append, inside_cons, inside_cons, parity_reverse]

theorem inside_chord (before : List (K × K)) (a : K × K) (between : List (K × K)) (b : K × K) (after : List (K × K))
    (p : K × K) :
    inside (before ++ a :: between ++ b :: after) p =
      (inside (a :: between ++ [b]) p ^^ inside (b :: after ++ before ++ [a]) p) := by
  have whole : inside (before ++ a :: between ++ b :: after) p =
      (parity p a (between ++ [b]) ^^ parity p b (after ++ before ++ [a])) := by
    rw [append_assoc, inside_rotate, cons_append, cons_append, inside_cons, append_assoc,
      append_assoc, cons_append, parity_append, append_assoc]
  have one : inside (a :: between ++ [b]) p = (parity p a (between ++ [b]) ^^ crosses a b p) := by
    rw [cons_append, inside_cons, append_assoc, singleton_append, parity_append]
    simp [parity]
  have two : inside (b :: after ++ before ++ [a]) p = (parity p b (after ++ before ++ [a]) ^^ crosses b a p) := by
    rw [cons_append, cons_append, inside_cons, append_assoc (after ++ before), singleton_append,
      parity_append]
    simp [parity]
  rw [whole, one, two, crosses_comm b a]
  generalize parity p a (between ++ [b]) = first, parity p b (after ++ before ++ [a]) = second, crosses a b p = chord
  revert first second chord
  decide

section Ordered
variable [IsStrictOrderedRing K]

theorem crossingX_along (slanted : a.2 ≠ b.2) {s t : K} (differ : s ≠ t) (p : K × K) :
    crossingX (along a b s) (along a b t) p = crossingX a b p := by
  have height : b.2 - a.2 ≠ 0 := sub_ne_zero.mpr slanted.symm
  have part : t - s ≠ 0 := sub_ne_zero.mpr differ.symm
  have partHeight : a.2 + t * (b.2 - a.2) - (a.2 + s * (b.2 - a.2)) ≠ 0 := by
    have same : a.2 + t * (b.2 - a.2) - (a.2 + s * (b.2 - a.2)) = (t - s) * (b.2 - a.2) := by ring
    rw [same]
    exact mul_ne_zero part height
  unfold crossingX along
  rw [div_add' _ _ _ partHeight, div_add' _ _ _ height, div_eq_div_iff partHeight height]
  ring

theorem reaches_along {t : K} (low : 0 ≤ t) (high : t ≤ 1) (same : reaches a p = reaches b p) :
    reaches (along a b t) p = reaches a p := by
  have room : 0 ≤ 1 - t := sub_nonneg.mpr high
  have mean : (along a b t).2 = (1 - t) * a.2 + t * b.2 := by
    simp only [along]
    ring
  unfold reaches at *
  rw [decide_eq_decide] at same ⊢
  rw [mean]
  by_cases below : a.2 ≤ p.2
  · refine iff_of_true ?_ below
    have first := mul_le_mul_of_nonneg_left below room
    have second := mul_le_mul_of_nonneg_left (same.mp below) low
    linarith
  · refine iff_of_false ?_ below
    have above := not_le.mp below
    have above' := not_le.mp (same.not.mp below)
    rw [not_le]
    rcases low.eq_or_lt with rfl | positive
    · linarith
    · have first := mul_le_mul_of_nonneg_left above.le room
      have second := mul_lt_mul_of_pos_left above' positive
      linarith

theorem crosses_along {t : K} (low : 0 ≤ t) (high : t ≤ 1) :
    crosses a b p = (crosses a (along a b t) p ^^ crosses (along a b t) b p) := by
  by_cases same : reaches a p = reaches b p
  · have middle := reaches_along low high same
    simp [crosses, middle, same]
  · have slanted : a.2 ≠ b.2 := by
      intro level
      apply same
      rw [reaches, reaches, level]
    have first : t ≠ 0 → crossingX a (along a b t) p = crossingX a b p := by
      intro differ
      have part := crossingX_along slanted differ.symm p
      rwa [along_zero] at part
    have second : t ≠ 1 → crossingX (along a b t) b p = crossingX a b p := by
      intro differ
      have part := crossingX_along slanted differ p
      rwa [along_one] at part
    rcases eq_or_ne t 0 with rfl | notStart
    · rw [along_zero, crosses_self, Bool.false_xor]
    rcases eq_or_ne t 1 with rfl | notEnd
    · rw [along_one, crosses_self, Bool.xor_false]
    · rw [crosses, crosses, crosses, first notStart, second notEnd]
      generalize reaches a p = ra at same ⊢
      generalize reaches b p = rb at same ⊢
      generalize reaches (along a b t) p = rm, decide (p.1 < crossingX a b p) = right
      revert same
      revert ra rb rm right
      decide

inductive Side where
  | left | right | below | above

def onSide (p : K × K) : Side → Set (K × K)
  | .left => {a | a.1 < p.1}
  | .right => {a | p.1 < a.1}
  | .below => {a | a.2 < p.2}
  | .above => {a | p.2 < a.2}

theorem exists_at_height (differ : reaches a p ≠ reaches b p) :
    ∃ t, 0 ≤ t ∧ t ≤ 1 ∧ along a b t = (crossingX a b p, p.2) := by
  have heights : a.2 ≤ p.2 ∧ p.2 < b.2 ∨ b.2 ≤ p.2 ∧ p.2 < a.2 := by
    by_cases first : a.2 ≤ p.2 <;> by_cases second : b.2 ≤ p.2
    · simp [reaches, first, second] at differ
    · exact .inl ⟨first, not_le.mp second⟩
    · exact .inr ⟨second, not_le.mp first⟩
    · simp [reaches, first, second] at differ
  have slanted : b.2 - a.2 ≠ 0 := by
    rcases heights with ⟨low, high⟩ | ⟨low, high⟩ <;> intro level <;> linarith
  refine ⟨(p.2 - a.2) / (b.2 - a.2), ?_, ?_, ?_⟩
  · rcases heights with ⟨low, high⟩ | ⟨low, high⟩
    · exact div_nonneg (by linarith) (by linarith)
    · exact div_nonneg_of_nonpos (by linarith) (by linarith)
  · rcases heights with ⟨low, high⟩ | ⟨low, high⟩
    · rw [div_le_one (by linarith)]
      linarith
    · rw [div_le_one_of_neg (by linarith)]
      linarith
  · rw [crossingX, along, div_mul_cancel₀ _ slanted, add_sub_cancel]
    congr 1
    ring

theorem crossingX_between (differ : reaches a p ≠ reaches b p) :
    ∃ t, 0 ≤ t ∧ t ≤ 1 ∧ crossingX a b p = (along a b t).1 := by
  obtain ⟨t, low, high, meets⟩ := exists_at_height differ
  exact ⟨t, low, high, by rw [meets]⟩

omit [IsStrictOrderedRing K] in
theorem exists_passed {prev : K × K} {path : List (K × K)} (odd : parity p prev path = true) :
    ∃ a ∈ prev :: path, ∃ b ∈ prev :: path, reaches a p ≠ reaches b p ∧ p.1 < crossingX a b p := by
  induction path generalizing prev with
  | nil => cases odd
  | cons a rest ih =>
    by_cases passed : crosses a prev p = true
    · rw [crosses, Bool.and_eq_true, bne_iff_ne, decide_eq_true_iff] at passed
      exact ⟨a, by simp, prev, by simp, passed⟩
    · rw [parity, Bool.eq_false_of_not_eq_true passed, Bool.false_xor] at odd
      obtain ⟨b, inB, c, inC, found⟩ := ih odd
      exact ⟨b, mem_cons_of_mem _ inB, c, mem_cons_of_mem _ inC, found⟩

omit [IsStrictOrderedRing K] in
theorem exists_beside {prev : K × K} {path : List (K × K)} {last : K × K}
    (uneven : parity p prev (path ++ [last]) ≠ (reaches prev p != reaches last p)) :
    ∃ a ∈ prev :: path ++ [last], ∃ b ∈ prev :: path ++ [last], reaches a p ≠ reaches b p ∧ crossingX a b p ≤ p.1 := by
  have here (a b : K × K) (other : crosses b a p ≠ (reaches a p != reaches b p)) : reaches b p ≠ reaches a p ∧ crossingX b a p ≤ p.1 := by
    rw [crosses] at other
    refine ⟨fun same => other (by simp [same]), le_of_not_gt fun passed => other ?_⟩
    rw [decide_eq_true passed, Bool.and_true, bne_comm]
  induction path generalizing prev with
  | nil =>
    rw [nil_append, parity, parity, Bool.xor_false] at uneven
    exact ⟨last, by simp, prev, by simp, here prev last uneven⟩
  | cons a rest ih =>
    by_cases same : crosses a prev p = (reaches prev p != reaches a p)
    · rw [cons_append, parity, same] at uneven
      have later : parity p a (rest ++ [last]) ≠ (reaches a p != reaches last p) := by
        intro even
        rw [even] at uneven
        revert uneven
        cases reaches prev p <;> cases reaches a p <;> cases reaches last p <;> decide
      obtain ⟨b, inB, c, inC, found⟩ := ih later
      exact ⟨b, mem_cons_of_mem _ inB, c, mem_cons_of_mem _ inC, found⟩
    · exact ⟨a, by simp, prev, by simp, here prev a same⟩

theorem mem_convexHull_of_inside {ring : List (K × K)} (isInside : inside ring p = true) : p ∈ convexHull K {a | a ∈ ring} := by
  obtain _ | ⟨first, rest⟩ := ring
  · cases isInside
  rw [inside_cons] at isInside
  have vertex : ∀ a ∈ first :: rest ++ [first], a ∈ convexHull K {a | a ∈ first :: rest} := by
    intro a member
    apply subset_convexHull K
    have inRing : a ∈ first :: rest := by
      simpa [or_comm, or_assoc, or_left_comm] using member
    exact inRing
  have onEdge : ∀ a ∈ first :: rest ++ [first], ∀ b ∈ first :: rest ++ [first], reaches a p ≠ reaches b p →
      (crossingX a b p, p.2) ∈ convexHull K {a | a ∈ first :: rest} := by
    intro a inA b inB differ
    obtain ⟨t, low, high, meets⟩ := exists_at_height differ
    rw [← meets]
    exact (convex_convexHull K _).segment_subset (vertex a inA) (vertex b inB) (Segments.along_mem low high)
  obtain ⟨a, inA, b, inB, differ, right⟩ := exists_passed isInside
  have uneven : parity p first (rest ++ [first]) ≠ (reaches first p != reaches first p) := by
    rw [isInside]
    simp
  obtain ⟨c, inC, d, inD, differ', left⟩ := exists_beside uneven
  have between : p ∈ segment K (crossingX c d p, p.2) (crossingX a b p, p.2) := by
    have room : 0 < crossingX a b p - crossingX c d p := by linarith
    rw [Segments.mem_segment_iff]
    refine ⟨(p.1 - crossingX c d p) / (crossingX a b p - crossingX c d p), div_nonneg (by linarith) room.le, ?_, ?_⟩
    · rw [div_le_one room]
      linarith
    · ext
      · rw [along, div_mul_cancel₀ _ room.ne', add_sub_cancel]
      · rw [along, sub_self, mul_zero, add_zero]
  exact (convex_convexHull K _).segment_subset (onEdge c inC d inD differ') (onEdge a inA b inB differ) between

theorem along_side {side : Side} (first : a ∈ onSide p side) (second : b ∈ onSide p side) {t : K} (low : 0 ≤ t) (high : t ≤ 1) :
    along a b t ∈ onSide p side := by
  have room : 0 ≤ 1 - t := sub_nonneg.mpr high
  have mean (x y bound : K) (one : x < bound) (two : y < bound) : x + t * (y - x) < bound := by
    rcases low.eq_or_lt with rfl | positive
    · linarith
    · have lower := mul_le_mul_of_nonneg_left one.le room
      have upper := mul_lt_mul_of_pos_left two positive
      linarith
  have mean' (x y bound : K) (one : bound < x) (two : bound < y) : bound < x + t * (y - x) := by
    have other := mean (-x) (-y) (-bound) (neg_lt_neg one) (neg_lt_neg two)
    linarith
  cases side with
  | left => exact mean _ _ _ first second
  | right => exact mean' _ _ _ first second
  | below => exact mean _ _ _ first second
  | above => exact mean' _ _ _ first second

def Side.isPassed : Side → Bool
  | .right => true
  | _ => false

theorem crosses_side {side : Side} (first : a ∈ onSide p side) (second : b ∈ onSide p side) :
    crosses a b p = ((reaches a p != reaches b p) && side.isPassed) := by
  by_cases same : reaches a p = reaches b p
  · simp [crosses, same]
  obtain ⟨t, low, high, meets⟩ := crossingX_between same
  have here := along_side first second low high
  rw [crosses, meets]
  congr 1
  cases side with
  | left => exact decide_eq_false (not_lt.mpr here.le)
  | right => exact decide_eq_true here
  | below =>
    refine absurd ?_ same
    rw [reaches, reaches, decide_eq_true first.le, decide_eq_true second.le]
  | above =>
    refine absurd ?_ same
    rw [reaches, reaches, decide_eq_false (not_le.mpr first), decide_eq_false (not_le.mpr second)]

theorem crosses_triangle {side : Side} (first : a ∈ onSide p side) (second : b ∈ onSide p side) (third : c ∈ onSide p side) :
    crosses a c p = (crosses a b p ^^ crosses b c p) := by
  rw [crosses_side first third, crosses_side first second, crosses_side second third]
  generalize reaches a p = ra, reaches b p = rb, reaches c p = rc, side.isPassed = passed
  revert ra rb rc passed
  decide

end Ordered
end Lib.EvenOdd
