import Mathlib.Analysis.SpecialFunctions.Complex.Arg
import MapServer.Label.LineLengths

namespace MapServer
open Lib.ArcLength Lib.Distances Lib.Loop Lib.Segments List Option

attribute [local instance] two_atLeastTwo

section Lengths
variable {K : Type} [Field K] [LinearOrder K] {sqrt : K → K}

structure SegmentsMeasured (ll : LineLengths K) (max : K) (done : List K) : Prop where
  lengths : ll.segment_lengths = done
  total : ll.total_length = done.sum
  longest : done = [] ∧ max = -1 ∨
    1 ≤ ll.longest_segment_index ∧ done[ll.longest_segment_index - 1]? = some max ∧ ∀ other ∈ done, other ≤ max

omit [LinearOrder K] in
theorem segmentLength_eq (p q : PointObj K) :
    sqrt ((q.x - p.x) * (q.x - p.x) + (q.y - p.y) * (q.y - p.y)) = distance sqrt p.xy q.xy := by
  rw [distance, squareDistance]
  congr 1
  simp only [PointObj.xy]
  ring

variable [IsStrictOrderedRing K]

theorem addSegments_measured (exact : ExactSqrt sqrt) (rest : LineObj K) (p : PointObj K) {ll : LineLengths K} {max : K}
    {done : List K} (measured : SegmentsMeasured ll max done) :
    ∃ max', SegmentsMeasured (addSegments sqrt (p :: rest) (done.length + 1) (ll, max)).1 max'
      (done ++ pathLengths sqrt ((p :: rest).map PointObj.xy)) := by
  induction rest generalizing p ll max done with
  | nil => exact ⟨max, by simpa [pathLengths, addSegments] using measured⟩
  | cons q rest ih =>
    obtain ⟨lengths, total, longest⟩ := measured
    have isLength := @segmentLength_eq K _ sqrt p q
    have nonneg : 0 ≤ distance sqrt p.xy q.xy := distance_nonneg exact _ _
    rw [addSegments, isLength, map_cons, map_cons, pathLengths]
    rw [append_cons]
    split
    case isTrue more =>
      have next := @ih q { ll with
        total_length := ll.total_length + distance sqrt p.xy q.xy
        segment_lengths := ll.segment_lengths ++ [distance sqrt p.xy q.xy]
        longest_segment_index := done.length + 1 } (distance sqrt p.xy q.xy) (done ++ [distance sqrt p.xy q.xy])
        ⟨by rw [lengths], by rw [total, sum_append, sum_singleton], Or.inr ⟨Nat.le_add_left 1 _, by simp, ?_⟩⟩
      · simpa using next
      · intro other member
        rcases mem_append.mp member with old | new
        · rcases longest with ⟨rfl, -⟩ | ⟨-, -, most⟩
          · cases old
          · exact (most other old).trans more.le
        · rw [mem_singleton.mp new]
    case isFalse less =>
      have next := @ih q { ll with
        total_length := ll.total_length + distance sqrt p.xy q.xy
        segment_lengths := ll.segment_lengths ++ [distance sqrt p.xy q.xy] } max (done ++ [distance sqrt p.xy q.xy])
        ⟨by rw [lengths], by rw [total, sum_append, sum_singleton], Or.inr ?_⟩
      · simpa using next
      · rcases longest with ⟨-, rfl⟩ | ⟨index, found, most⟩
        · exact absurd (lt_of_lt_of_le (by norm_num) nonneg) less
        · refine ⟨index, by rw [getElem?_append_left (List.getElem?_eq_some_iff.mp found).1]; exact found, ?_⟩
          intro other member
          rcases mem_append.mp member with old | new
          · exact most other old
          · rw [mem_singleton.mp new]
            exact not_lt.mp less

structure LineMeasured (sqrt : K → K) (line : LineObj K) (ll : LineLengths K) : Prop where
  lengths : ll.segment_lengths = pathLengths sqrt (line.map PointObj.xy)
  total : ll.total_length = ll.segment_lengths.sum
  longest : ∃ max, 1 ≤ ll.longest_segment_index ∧ ll.segment_lengths[ll.longest_segment_index - 1]? = some max ∧
    ∀ other ∈ ll.segment_lengths, other ≤ max

theorem lineLengths_measured (exact : ExactSqrt sqrt) (memory : Nat) {line : LineObj K} (two : 2 ≤ line.length) :
    LineMeasured sqrt line (lineLengths sqrt memory line) := by
  obtain ⟨p, q, rest, rfl⟩ : ∃ p q rest, line = p :: q :: rest := by
    match line, two with
    | p :: q :: rest, _ => exact ⟨p, q, rest, rfl⟩
  obtain ⟨max, lengths, total, longest⟩ := @addSegments_measured K _ _ sqrt _ exact (q :: rest) p
    ⟨0, [], memory⟩ (-1) [] ⟨rfl, rfl, Or.inl ⟨rfl, rfl⟩⟩
  rw [nil_append] at lengths total longest
  refine ⟨lengths, ?_, max, ?_⟩
  · exact total.trans (congrArg List.sum lengths.symm)
  · rcases longest with ⟨none_, -⟩ | found
    · cases none_
    · exact lengths ▸ found

end Lengths

def Added {K : Type} (lar lar' : LabelAutoResult K) (points : List (K × K)) : Prop :=
  ∃ angles, lar' = ⟨lar.angles ++ angles, lar.label_points ++ points⟩ ∧ angles.length = points.length

theorem Added.refl {K : Type} (lar : LabelAutoResult K) : Added lar lar [] := ⟨[], by simp, rfl⟩

theorem Added.trans {K : Type} {first second third : LabelAutoResult K} {points more : List (K × K)}
    (left : Added first second points) (right : Added second third more) : Added first third (points ++ more) := by
  obtain ⟨angles, rfl, count⟩ := left
  obtain ⟨others, rfl, rest⟩ := right
  exact ⟨angles ++ others, by simp, by simp [count, rest]⟩

section Points
variable {K : Type} [Field K] [LinearOrder K] {sqrt : K → K} {angles : Angles K}
variable {p : LineObj K} {ll : LineLengths K} {label ts : Option (LineLabel K)}

theorem LineMeasured.segment (measured : LineMeasured sqrt p ll) {j : Nat} {length : K}
    (found : ll.segment_lengths[j]? = some length) :
    ∃ a b, p[j]? = some a ∧ p[j + 1]? = some b ∧ length = distance sqrt a.xy b.xy := by
  obtain ⟨a, b, first, second, eq⟩ := getElem?_pathLengths (measured.lengths ▸ found)
  rw [getElem?_map] at first second
  obtain ⟨a, here, rfl⟩ := map_eq_some_iff.mp first
  obtain ⟨b, next, rfl⟩ := map_eq_some_iff.mp second
  exact ⟨a, b, here, next, eq⟩

theorem placeLabelPoint_single (measured : LineMeasured sqrt p ll) (position : K) (lar : LabelAutoResult K) :
    ∃ (lar' : LabelAutoResult K) (j : Nat) (a b : PointObj K), placeLabelPoint angles p ll label ts 1 position lar = some lar' ∧
      p[j]? = some a ∧ p[j + 1]? = some b ∧ (∀ other ∈ ll.segment_lengths, other ≤ distance sqrt a.xy b.xy) ∧
      Added lar lar' [((a.x + b.x) / 2, (a.y + b.y) / 2)] := by
  obtain ⟨max, index, found, most⟩ := measured.longest
  obtain ⟨a, b, first, second, rfl⟩ := measured.segment found
  rw [Nat.sub_add_cancel index] at second
  refine ⟨_, ll.longest_segment_index - 1, a, b, ?_, first, by rwa [Nat.sub_add_cancel index], most, [labelAngle angles label ts a b],
    rfl, rfl⟩
  simp [placeLabelPoint, first, second, Nat.ne_of_gt index]

variable [IsStrictOrderedRing K]

theorem placeLabelPoint_at (measured : LineMeasured sqrt p ll) {point_repeat : Int} (several : point_repeat ≠ 1) {position : K}
    (positive : 0 < position) (inside : position ≤ ll.total_length) (lar : LabelAutoResult K) :
    ∃ (lar' : LabelAutoResult K) (point : K × K),
      placeLabelPoint angles p ll label ts point_repeat position lar = some lar' ∧
      AtArc sqrt (p.map PointObj.xy) position point ∧ Added lar lar' [point] := by
  obtain ⟨j, length, run, found, short, enough⟩ := scan_pos positive (measured.total ▸ inside)
  obtain ⟨a, b, first, second, rfl⟩ := measured.segment found
  have long : 0 < distance sqrt a.xy b.xy := by linarith
  refine ⟨_, along a.xy b.xy (1 - ((ll.segment_lengths.take j).sum + distance sqrt a.xy b.xy - position) / distance sqrt a.xy b.xy), ?_,
    ⟨j, a.xy, b.xy, _, by simp [first], by simp [second], ?_, ?_, rfl, ?_⟩, [labelAngle angles label ts a b], rfl, rfl⟩
  · simp only [placeLabelPoint, several, if_false, run, found, first, second, along, PointObj.xy, Nat.add_sub_cancel, bind_eq_bind,
      bind_some, Nat.succ_ne_zero]
    congr 4
    exact Prod.ext (add_comm _ _) (add_comm _ _)
  · rw [sub_nonneg, div_le_one long]
    linarith
  · rw [sub_le_self_iff]
    exact div_nonneg (by linarith) long.le
  · rw [← measured.lengths, sub_mul, div_mul_cancel₀ _ long.ne']
    ring

def place (total : K) (k i : Nat) : K := total * (2 * i + 1) / (2 * k)

/-- The order of the first `l` steps to `2 * h + 1` points. -/
def placeOrder (h l : Nat) : List Nat := (List.range l).flatMap fun i => if i = h then [h] else [2 * h - i, i]

theorem placeOrder_succ (h l : Nat) : placeOrder h (l + 1) = placeOrder h l ++ if l = h then [h] else [2 * h - l, l] := by
  rw [placeOrder, range_succ, flatMap_append, flatMap_singleton]
  rfl

theorem length_placeOrder {h l : Nat} (bound : l ≤ h) : (placeOrder h l).length = 2 * l := by
  induction l with
  | zero => rfl
  | succ l ih =>
    rw [placeOrder_succ, if_neg (by omega), length_append, ih (by omega)]
    simp only [length_cons, length_nil]
    omega

theorem mem_placeOrder {h i : Nat} (bound : i < 2 * h + 1) : i ∈ placeOrder h (h + 1) := by
  rw [placeOrder, mem_flatMap]
  rcases Nat.lt_trichotomy i h with less | rfl | more
  · exact ⟨i, mem_range.mpr (by omega), by simp [less.ne]⟩
  · exact ⟨i, mem_range.mpr (by omega), by simp⟩
  · refine ⟨2 * h - i, mem_range.mpr (by omega), ?_⟩
    rw [if_neg (by omega), Nat.sub_sub_self (by omega)]
    exact mem_cons_self

theorem placeOrder_perm (h : Nat) : (placeOrder h (h + 1)).Perm (List.range (2 * h + 1)) := by
  have all : List.range (2 * h + 1) ⊆ placeOrder h (h + 1) := fun i member => mem_placeOrder (mem_range.mp member)
  refine ((subperm_of_subset nodup_range all).perm_of_length_le ?_).symm
  rw [placeOrder_succ, if_pos rfl, length_append, length_placeOrder (Nat.le_refl h), length_range, length_singleton]

/-- The state before the step `l`. -/
structure PlacedSteps (sqrt : K → K) (p : LineObj K) (total : K) (h : Nat) (lar : LabelAutoResult K) (l : Nat) (state : RepeatState K) :
    Prop where
  left : state.left = place total (2 * h + 1) l
  right : state.right = total - place total (2 * h + 1) l
  points : ∃ points, Added lar state.lar points ∧
    List.Forall₂ (fun i point => AtArc sqrt (p.map PointObj.xy) (place total (2 * h + 1) i) point) (placeOrder h l) points

omit [LinearOrder K] [IsStrictOrderedRing K] in
theorem place_succ (total : K) (k i : Nat) [CharZero K] : place total k (i + 1) = place total k i + total / k := by
  rcases Nat.eq_zero_or_pos k with rfl | positive
  · simp [place]
  · have nonzero : (k : K) ≠ 0 := Nat.cast_ne_zero.mpr positive.ne'
    unfold place
    push_cast
    field_simp
    ring

theorem place_mirror (total : K) {h i : Nat} (bound : i ≤ 2 * h) :
    total - place total (2 * h + 1) i = place total (2 * h + 1) (2 * h - i) := by
  unfold place
  push_cast [Nat.cast_sub bound]
  field_simp
  ring

theorem place_center (total : K) (h : Nat) : place total (2 * h + 1) h = total / 2 := by
  unfold place
  push_cast
  field_simp

theorem place_pos {total : K} (positive : 0 < total) {k : Nat} (some_ : 0 < k) (i : Nat) : 0 < place total k i := by
  unfold place
  positivity

theorem place_le {total : K} (positive : 0 < total) {h i : Nat} (bound : i ≤ 2 * h) : place total (2 * h + 1) i ≤ total := by
  have other := place_pos positive (Nat.succ_pos (2 * h)) (2 * h - i)
  rw [← place_mirror total bound] at other
  linarith

theorem placePair_step (measured : LineMeasured sqrt p ll) (positive : 0 < ll.total_length) {h l : Nat} (several : 1 ≤ h) (bound : l ≤ h)
    {lar : LabelAutoResult K} {state : RepeatState K} (before : PlacedSteps sqrt p ll.total_length h lar l state) :
    ∃ state', placePair angles p ll label ts (h + 1) (ll.total_length / 2) (ll.total_length / (2 * h + 1 : Nat)) l state = some state' ∧
      PlacedSteps sqrt p ll.total_length h lar (l + 1) state' := by
  obtain ⟨left, right, points, added, placed⟩ := before
  have many : ((h : Int) + 1) ≠ 1 := by omega
  have here : ∀ i ≤ 2 * h, ∀ lar, ∃ (lar' : LabelAutoResult K) (point : K × K),
      placeLabelPoint angles p ll label ts (h + 1) (place ll.total_length (2 * h + 1) i) lar = some lar' ∧
      AtArc sqrt (p.map PointObj.xy) (place ll.total_length (2 * h + 1) i) point ∧ Added lar lar' [point] := fun i inside lar =>
    placeLabelPoint_at measured many (place_pos positive (Nat.succ_pos _) i) (place_le positive inside) lar
  have leftNext : state.left + ll.total_length / (2 * h + 1 : Nat) = place ll.total_length (2 * h + 1) (l + 1) := by
    rw [left, place_succ]
  have rightNext : state.right - ll.total_length / (2 * h + 1 : Nat) = ll.total_length - place ll.total_length (2 * h + 1) (l + 1) := by
    rw [right, place_succ, sub_sub]
  by_cases last : l = h
  · obtain ⟨lar', point, run, isAt, more⟩ := here h (by omega) state.lar
    rw [place_center] at run
    refine ⟨⟨lar', _, _⟩, ?_, leftNext, rightNext, points ++ [point], added.trans more, ?_⟩
    · have final : ((l : Int) = h + 1 - 1) := by omega
      simp [placePair, final, forUp, run]
    · rw [placeOrder_succ, if_pos last]
      exact rel_append placed (.cons isAt .nil)
  · obtain ⟨first, point, run, isAt, more⟩ := here (2 * h - l) (by omega) state.lar
    obtain ⟨second, other, run', isAt', more'⟩ := here l (by omega) first
    rw [← place_mirror _ (by omega), ← right] at run
    rw [← left] at run'
    refine ⟨⟨second, _, _⟩, ?_, leftNext, rightNext, points ++ [point, other], added.trans (more.trans more'), ?_⟩
    · simp [placePair, last, forUp, run, run']
    · rw [placeOrder_succ, if_neg last]
      exact rel_append placed (.cons isAt (.cons isAt' .nil))

theorem loop_several (measured : LineMeasured sqrt p ll) (positive : 0 < ll.total_length) {h : Nat} (several : 1 ≤ h)
    (lar : LabelAutoResult K) :
    ∃ state points, forUp (placePair angles p ll label ts (h + 1) (ll.total_length / 2) (ll.total_length / (2 * h + 1 : Nat))) 0 (h + 1)
        ⟨lar, place ll.total_length (2 * h + 1) 0, ll.total_length - place ll.total_length (2 * h + 1) 0⟩ = some state ∧
      Added lar state.lar points ∧
      Forall₂ (fun i point => AtArc sqrt (p.map PointObj.xy) (place ll.total_length (2 * h + 1) i) point)
        (placeOrder h (h + 1)) points := by
  obtain ⟨state, run, done⟩ := forUp_invariant
    (placePair angles p ll label ts (h + 1) (ll.total_length / 2) (ll.total_length / (2 * h + 1 : Nat))) 0 (h + 1)
    (PlacedSteps sqrt p ll.total_length h lar) (s := ⟨lar, place ll.total_length (2 * h + 1) 0,
      ll.total_length - place ll.total_length (2 * h + 1) 0⟩) ⟨rfl, rfl, [], Added.refl lar, .nil⟩
    (fun l state _ bound before => placePair_step measured positive several (by omega) before)
  rw [Nat.zero_add] at done
  obtain ⟨points, added, placed⟩ := done.points
  exact ⟨state, points, run, added, placed⟩

omit [IsStrictOrderedRing K] in
theorem loop_single (measured : LineMeasured sqrt p ll) (center point_distance : K) (state : RepeatState K) :
    ∃ (state' : RepeatState K) (j : Nat) (a b : PointObj K),
      forUp (placePair angles p ll label ts 1 center point_distance) 0 1 state = some state' ∧ p[j]? = some a ∧ p[j + 1]? = some b ∧
      (∀ other ∈ ll.segment_lengths, other ≤ distance sqrt a.xy b.xy) ∧
      Added state.lar state'.lar [((a.x + b.x) / 2, (a.y + b.y) / 2)] := by
  obtain ⟨lar', j, a, b, run, first, second, most, added⟩ :=
    @placeLabelPoint_single _ _ _ sqrt angles p ll label ts measured center state.lar
  exact ⟨⟨lar', state.left + point_distance, state.right - point_distance⟩, j, a, b, by simp [forUp, placePair, run], first, second, most,
    added⟩

section Count
variable [FloorRing K]

omit [IsStrictOrderedRing K] in
theorem truncToInt_floor {x : K} (nonneg : 0 ≤ x) (fits : x < 2147483648) : truncToInt x = some ⌊x⌋ := by
  have above : ⌊x⌋ < 2147483648 := Int.floor_lt.mpr (by exact_mod_cast fits)
  rw [truncToInt, if_neg (not_lt.mpr nonneg), checkedInt_of_range]
  · have below : 0 ≤ ⌊x⌋ := Int.floor_nonneg.mpr nonneg
    omega
  · unfold INT_MAX
    omega

theorem labelRepeat_several {total d : K} (distance_ : 0 < d) (many : 3 ≤ total / d) (fits : total / d < 2147483648) :
    ∃ h : Nat, 1 ≤ h ∧ ((2 * h + 1 : Nat) : Int) ≤ ⌊total / d⌋ ∧ ⌊total / d⌋ < 2 * h + 3 ∧
      labelRepeat total d = some ⟨h + 1, total / (2 * h + 1 : Nat), place total (2 * h + 1) 0, total - place total (2 * h + 1) 0⟩ := by
  have floor : 3 ≤ ⌊total / d⌋ := Int.le_floor.mpr (by exact_mod_cast many)
  obtain ⟨h, odd⟩ : ∃ h : Nat, (if ⌊total / d⌋ % 2 = 0 then ⌊total / d⌋ - 1 else ⌊total / d⌋) = 2 * (h : Int) + 1 := by
    refine ⟨((⌊total / d⌋ - 1) / 2).toNat, ?_⟩
    split <;> omega
  refine ⟨h, ?_, ?_, ?_, ?_⟩
  · split at odd <;> omega
  · split at odd <;> omega
  · split at odd <;> omega
  · have half : (2 * (h : Int) + 1 - 1) / 2 = h := by omega
    simp only [labelRepeat, distance_, truncToInt_floor (le_trans (by norm_num) many) fits, bind_eq_bind, bind_some, odd, half,
      if_true]
    rw [if_pos (by omega)]
    congr 2
    · push_cast
      rfl
    · unfold place
      push_cast
      field_simp
      ring
    · unfold place
      push_cast
      field_simp
      ring

theorem labelRepeat_single {total d : K} (distance_ : 0 < d) (nonneg : 0 ≤ total) (few : total / d < 3) :
    labelRepeat total d = some ⟨1, 0, total / 2, total / 2⟩ ∨
      labelRepeat total d = some ⟨1, total / 1, total / 2, total / 2⟩ := by
  have floor : ⌊total / d⌋ < 3 := Int.floor_lt.mpr (by exact_mod_cast few)
  have run := truncToInt_floor (div_nonneg nonneg distance_.le) (few.trans (by norm_num))
  simp only [labelRepeat, distance_, run, bind_eq_bind, bind_some, if_true]
  by_cases two : ⌊total / d⌋ > 1
  · right
    rw [if_pos two, show ⌊total / d⌋ = 2 by omega]
    simp
  · left
    rw [if_neg two]

/-- The points that a line gets at the distance `d`. -/
structure Spread (sqrt : K → K) (p : LineObj K) (ll : LineLengths K) (d : K) (lar lar' : LabelAutoResult K) : Prop where
  several : 3 ≤ ll.total_length / d → ∃ (k : Nat) (order : List Nat) (points : List (K × K)),
    IsGreatest {m : Nat | Odd m ∧ (m : Int) ≤ ⌊ll.total_length / d⌋} k ∧ order.Perm (List.range k) ∧ Added lar lar' points ∧
    List.Forall₂ (fun i point => AtArc sqrt (p.map PointObj.xy) (place ll.total_length k i) point) order points ∧
    ∀ i, place ll.total_length k i + d ≤ place ll.total_length k (i + 1)
  single : ll.total_length / d < 3 → ∃ (j : Nat) (a b : PointObj K), p[j]? = some a ∧ p[j + 1]? = some b ∧
    (∀ other ∈ ll.segment_lengths, other ≤ distance sqrt a.xy b.xy) ∧ Added lar lar' [((a.x + b.x) / 2, (a.y + b.y) / 2)]

theorem largest_odd {h : Nat} {n : Int} (low : ((2 * h + 1 : Nat) : Int) ≤ n) (high : n < 2 * h + 3) :
    IsGreatest {m : Nat | Odd m ∧ (m : Int) ≤ n} (2 * h + 1) := by
  refine ⟨⟨odd_two_mul_add_one h, low⟩, ?_⟩
  rintro m ⟨⟨half, rfl⟩, bound⟩
  omega

/-- A label that is repeated is spread evenly, or is in the middle of a longest segment. -/
theorem msLineLabelPoint_spread (exact : ExactSqrt sqrt) (angles : Angles K) (memory : Nat) {p : LineObj K} (two : 2 ≤ p.length)
    (label : LineLabel K) (ts : Option (LineLabel K)) {resolutionfactor : K} (lar : LabelAutoResult K)
    (positive : 0 < (lineLengths sqrt memory p).total_length) (repeated : 0 < label.repeatdistance * resolutionfactor)
    (fits : (lineLengths sqrt memory p).total_length / (label.repeatdistance * resolutionfactor) < 2147483648) :
    ∃ lar', msLineLabelPoint angles p (lineLengths sqrt memory p) (some label) ts resolutionfactor lar = some (some lar') ∧
      Spread sqrt p (lineLengths sqrt memory p) (label.repeatdistance * resolutionfactor) lar lar' := by
  have measured := lineLengths_measured exact memory two
  generalize lineLengths sqrt memory p = ll at measured positive fits ⊢
  rw [msLineLabelPoint, if_neg (by omega)]
  rcases le_or_gt 3 (ll.total_length / (label.repeatdistance * resolutionfactor)) with many | few
  · obtain ⟨h, several, low, high, start⟩ := labelRepeat_several repeated many fits
    obtain ⟨state, points, run, added, placed⟩ :=
      @loop_several _ _ _ sqrt angles p ll (some label) ts _ measured positive _ several lar
    refine ⟨state.lar, ?_, fun _ => ⟨2 * h + 1, _, points, largest_odd low high, placeOrder_perm h, added, placed, fun i => ?_⟩,
      fun few => absurd many (not_le.mpr few)⟩
    · simp only [start, Option.bind_eq_bind, Option.bind_some]
      rw [show ((h : Int) + 1).toNat = h + 1 by omega, run]
      rfl
    · have enough : ((2 * h + 1 : Nat) : K) ≤ ll.total_length / (label.repeatdistance * resolutionfactor) := by
        exact_mod_cast Int.le_floor.mp low
      rw [place_succ, add_le_add_iff_left, le_div_iff₀ (Nat.cast_pos.mpr (Nat.succ_pos _)), mul_comm]
      exact (le_div_iff₀ repeated).mp enough
  · obtain ⟨start, once, run⟩ : ∃ start : LabelRepeat K, start.point_repeat = 1 ∧
        labelRepeat ll.total_length (label.repeatdistance * resolutionfactor) = some start := by
      rcases labelRepeat_single repeated positive.le few with run | run <;> exact ⟨_, rfl, run⟩
    obtain ⟨state, j, a, b, loop, first, second, most, added⟩ := @loop_single _ _ _ sqrt angles p ll (some label) ts measured
      (ll.total_length / 2) start.point_distance ⟨lar, start.left, start.right⟩
    refine ⟨state.lar, ?_, fun many => absurd many (not_le.mpr few), fun _ => ⟨j, a, b, first, second, most, added⟩⟩
    simp only [run, once, Option.bind_eq_bind, Option.bind_some]
    rw [show (1 : Int).toNat = 1 from rfl, loop]
    rfl

end Count

end Points

noncomputable section Lines

def realAngles : Angles ℝ := ⟨fun y x => Complex.arg ⟨x, y⟩, Real.pi / 2, Real.pi / 180⟩

def straightLine (length : ℝ) : LineObj ℝ := [⟨0, 0, 0, 0⟩, ⟨length, 0, 0, 0⟩]

def eachUnit : LineLabel ℝ := ⟨1, .MS_AUTO, 0⟩

theorem straightLine_total {length : ℝ} (nonneg : 0 ≤ length) : (lineLengths Real.sqrt 0 (straightLine length)).total_length = length := by
  simp only [lineLengths, straightLine, addSegments, sub_zero, mul_zero, add_zero, Real.sqrt_mul_self nonneg, zero_add]
  split <;> rfl

theorem msLineLabelPoint_spread_ten :
    ∃ lar', msLineLabelPoint realAngles (straightLine 10) (lineLengths Real.sqrt 0 (straightLine 10)) (some eachUnit) (some eachUnit) 2
        ⟨[], []⟩ = some (some lar') ∧
      Spread Real.sqrt (straightLine 10) (lineLengths Real.sqrt 0 (straightLine 10)) (eachUnit.repeatdistance * 2) ⟨[], []⟩ lar' := by
  have total := @straightLine_total 10 (by norm_num)
  apply msLineLabelPoint_spread realSqrt_exact realAngles 0 (p := straightLine 10) (Nat.le_refl 2) eachUnit (some eachUnit)
  · rw [total]
    norm_num
  · norm_num [eachUnit]
  · rw [total]
    norm_num [eachUnit]

theorem msLineLabelPoint_tooMany :
    3 ≤ (lineLengths Real.sqrt 0 (straightLine 6442450944)).total_length / (eachUnit.repeatdistance * 1) ∧
      msLineLabelPoint realAngles (straightLine 6442450944) (lineLengths Real.sqrt 0 (straightLine 6442450944)) (some eachUnit)
        (some eachUnit) 1 ⟨[], []⟩ = none := by
  have total := @straightLine_total 6442450944 (by norm_num)
  refine ⟨by rw [total]; norm_num [eachUnit], ?_⟩
  rw [msLineLabelPoint, if_neg (by decide), total]
  simp [labelRepeat, truncToInt, eachUnit, checkedInt, INT_MAX]

end Lines

end MapServer
