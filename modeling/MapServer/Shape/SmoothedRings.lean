import Mathlib.Data.Int.ModEq
import Mathlib.Data.List.GetD
import Mathlib.Data.List.Rotate
import MapServer.Shape.Smoothing

namespace MapServer
open List Option

section Windows
variable {numpoints pos : Int}

/-- The index that is `k` points before a position, as the window of a ring has it. -/
def windowPrevious (numpoints pos : Int) (k : Nat) : Int := if pos - k < 0 then numpoints - (k + 1) else pos - k

def windowNext (numpoints pos : Int) (k : Nat) : Int := if pos + k ≥ numpoints then 1 + (pos + k - numpoints) else pos + k

theorem nextLineWindow_ring (inside : 0 ≤ pos ∧ pos < numpoints) {index : Nat} (fits : 2 * (index : Int) < numpoints) :
    ∃ points, nextLineWindow numpoints true pos index = some points ∧ points.length = 2 * index + 1 ∧
      ∀ k ≤ index, points[index + k]? = some (windowNext numpoints pos k) ∧
        points[index - k]? = some (windowPrevious numpoints pos k) := by
  induction index with
  | zero =>
    refine ⟨[pos], rfl, rfl, ?_⟩
    intro k least
    obtain rfl := Nat.le_zero.mp least
    constructor <;> simp [windowNext, windowPrevious] <;> omega
  | succ i ih =>
    obtain ⟨points, isPoints, length, places⟩ := ih (by omega)
    have isNext : (if pos + (i + 1) ≥ numpoints ∧ true = true then 1 + (pos + (i + 1) - numpoints) else pos + (i + 1)) =
        windowNext numpoints pos (i + 1) := by
      simp [windowNext]
    have isPrevious : (if pos - (i + 1) < 0 ∧ true = true then numpoints - (i + 2) else pos - (i + 1)) =
        windowPrevious numpoints pos (i + 1) := by
      simp only [windowPrevious, and_true]
      split_ifs <;> omega
    have valid : ¬ (windowPrevious numpoints pos (i + 1) < 0 ∨ windowNext numpoints pos (i + 1) ≥ numpoints) := by
      unfold windowPrevious windowNext
      split_ifs <;> omega
    refine ⟨windowPrevious numpoints pos (i + 1) :: points ++ [windowNext numpoints pos (i + 1)], ?_, ?_, ?_⟩
    · rw [nextLineWindow, isPoints]
      dsimp only [bind_eq_bind, bind_some]
      rw [isNext, isPrevious, if_neg valid]
    · simp [length]
      omega
    · intro k most
      rcases most.eq_or_lt with rfl | less
      · constructor
        · have last : i + 1 + (i + 1) = points.length + 1 := by omega
          rw [last, cons_append, getElem?_cons_succ, getElem?_concat_length]
        · rw [Nat.sub_self, cons_append, getElem?_cons_zero]
      · obtain ⟨next, previous⟩ := places k (by omega)
        have after : i + 1 + k = i + k + 1 := by omega
        have before : i + 1 - k = i - k + 1 := by omega
        rw [after, before, cons_append, getElem?_cons_succ, getElem?_cons_succ,
          getElem?_append_left (by omega), getElem?_append_left (by omega)]
        exact ⟨next, previous⟩

def WindowsCyclic (numpoints : Int) (lineIsRing : Bool) (index : Nat) : Prop :=
  ∀ pos, 0 ≤ pos → pos < numpoints → ∃ points, nextLineWindow numpoints lineIsRing pos index = some points ∧
    ∀ k ≤ index, (∃ next, points[index + k]? = some next ∧ next ≡ pos + k [ZMOD numpoints - 1]) ∧
      ∃ previous, points[index - k]? = some previous ∧ previous ≡ pos - k [ZMOD numpoints - 1]

theorem windowNext_cyclic (pos : Int) (k : Nat) : windowNext numpoints pos k ≡ pos + k [ZMOD numpoints - 1] := by
  unfold windowNext
  split
  · apply Int.modEq_iff_dvd.mpr
    exact ⟨1, by ring⟩
  · exact Int.ModEq.refl _

theorem windowPrevious_cyclic {k : Nat} (near : k ≤ 1) (inside : 0 ≤ pos) :
    windowPrevious numpoints pos k ≡ pos - k [ZMOD numpoints - 1] := by
  unfold windowPrevious
  split
  · have start : pos = 0 := by omega
    apply Int.modEq_iff_dvd.mpr
    exact ⟨-1, by rw [start]; ring⟩
  · exact Int.ModEq.refl _

theorem windowsCyclic_iff (points : 4 ≤ numpoints) {index : Nat} (fits : 2 * (index : Int) < numpoints) :
    WindowsCyclic numpoints true index ↔ index ≤ 1 := by
  constructor
  · intro cyclic
    by_contra wide
    obtain ⟨window, isWindow, places⟩ := cyclic 1 zero_le_one (by omega)
    obtain ⟨window', isWindow', -, indices⟩ := @nextLineWindow_ring numpoints 1 ⟨zero_le_one, by omega⟩ index fits
    rw [isWindow] at isWindow'
    cases isWindow'
    -- two points before the second one
    obtain ⟨-, previous, isPrevious, same⟩ := places 2 (by omega)
    rw [(indices 2 (by omega)).2, Option.some.injEq] at isPrevious
    subst isPrevious
    have wrong : windowPrevious numpoints 1 2 = numpoints - 3 := by
      unfold windowPrevious
      norm_num
    rw [wrong] at same
    have divides := Int.ModEq.dvd same.symm
    have far : numpoints - 3 - (1 - ((2 : Nat) : Int)) = numpoints - 2 := by
      ring
    rw [far] at divides
    have bound := Int.le_of_dvd (by omega) divides
    omega
  · intro near pos low high
    obtain ⟨window, isWindow, -, indices⟩ := nextLineWindow_ring ⟨low, high⟩ fits
    refine ⟨window, isWindow, ?_⟩
    intro k most
    obtain ⟨next, previous⟩ := indices k most
    exact ⟨⟨_, next, windowNext_cyclic pos k⟩, _, previous, windowPrevious_cyclic (most.trans near) low⟩

end Windows

def smoothIndex (ss numpoints : Int) : Nat := (lineWindowSize (if ss < 3 then 3 else ss) numpoints / 2).toNat

theorem smoothIndex_fits {numpoints : Int} (points : 4 ≤ numpoints) (ss : Int) :
    1 ≤ smoothIndex ss numpoints ∧ 2 * (smoothIndex ss numpoints : Int) < numpoints := by
  unfold smoothIndex lineWindowSize
  dsimp only
  split_ifs <;> omega

theorem smoothIndex_small {numpoints : Int} (points : 4 ≤ numpoints) (ss : Int) :
    smoothIndex ss numpoints ≤ 1 ↔ ss ≤ 4 ∨ numpoints ≤ 5 := by
  unfold smoothIndex lineWindowSize
  dsimp only
  split_ifs <;> omega

variable {K : Type}

def withFirstAgain (vertices : LineObj K) : LineObj K := vertices ++ vertices.head?.toList

def rotateRing (s : Nat) (ring : LineObj K) : LineObj K := withFirstAgain (ring.dropLast.rotate s)

section Rings
variable {ring : LineObj K} {N : Nat} {ss : Int}

theorem length_rotateRing (length : ring.length = N + 1) (positive : 0 < N) (s : Nat) : (rotateRing s ring).length = N + 1 := by
  have vertices : (ring.dropLast.rotate s).length = N := by simp [length]
  unfold rotateRing withFirstAgain
  cases rotated : ring.dropLast.rotate s with
  | nil =>
    rw [rotated] at vertices
    simp at vertices
    omega
  | cons a rest =>
    rw [rotated] at vertices
    simpa using vertices

structure NarrowRing (ss : Int) (N : Nat) (ring : LineObj K) : Prop where
  length : ring.length = N + 1
  long : 3 ≤ N
  closed : ring.head? = ring.getLast?
  narrow : (lineWindowSize ss ((N + 1 : Nat) : Int) / 2).toNat = 1

theorem NarrowRing.reversed (narrow : NarrowRing ss N ring) : NarrowRing ss N ring.reverse where
  length := by rw [length_reverse, narrow.length]
  long := narrow.long
  closed := by rw [head?_reverse, getLast?_reverse, narrow.closed]
  narrow := narrow.narrow

variable [Field K]

def pointNumber (line : LineObj K) (i : Nat) : PointObj K := line.getD i ⟨0, 0, 0, 0⟩

theorem ext_points {first second : LineObj K} (length : first.length = second.length)
    (points : ∀ p < first.length, pointNumber first p = pointNumber second p) : first = second := by
  apply ext_getElem length
  intro p inFirst inSecond
  have same := points p inFirst
  rwa [pointNumber, pointNumber, getD_eq_getElem _ _ inFirst, getD_eq_getElem _ _ inSecond] at same

theorem pointNumber_map (f : Nat → PointObj K) {n p : Nat} (inside : p < n) : pointNumber ((List.range n).map f) p = f p := by
  rw [pointNumber, getD_eq_getElem _ _ (by simpa using inside)]
  simp

def numberBefore (N p : Nat) : Nat := if p = 0 then N - 1 else p - 1

def numberAfter (N p : Nat) : Nat := if p = N then 1 else p + 1

theorem numberBefore_mod {N : Nat} (positive : 0 < N) (b : Nat) : numberBefore N ((b + 1) % N) = b % N := by
  have small := Nat.mod_lt b positive
  rw [← Nat.mod_add_mod]
  generalize b % N = r at *
  rcases Nat.lt_or_ge (r + 1) N with less | last
  · rw [Nat.mod_eq_of_lt less]
    rfl
  · have whole : r + 1 = N := by omega
    rw [whole, Nat.mod_self, numberBefore, if_pos rfl]
    omega

theorem numberBefore_shift {N : Nat} (positive : 0 < N) (p s : Nat) :
    (numberBefore N p + s) % N = numberBefore N ((p + s) % N) := by
  have round : (numberBefore N p + s + 1) % N = (p + s) % N := by
    unfold numberBefore
    split
    · have shifted : N - 1 + s + 1 = p + s + N := by omega
      rw [shifted, Nat.add_mod_right]
    · have shifted : p - 1 + s + 1 = p + s := by omega
      rw [shifted]
  rw [← numberBefore_mod positive, round]

theorem numberAfter_shift {N p : Nat} (s : Nat) : (numberAfter N p + s) % N = ((p + s) % N + 1) % N := by
  rw [Nat.mod_add_mod]
  unfold numberAfter
  split
  · rename_i last
    have round : p + s + 1 = 1 + s + N := by omega
    rw [round, Nat.add_mod_right]
  · congr 1
    omega

theorem pointNumber_closed (length : ring.length = N + 1) (closed : ring.head? = ring.getLast?) :
    pointNumber ring 0 = pointNumber ring N := by
  rw [getLast?_eq_getElem?, length, Nat.add_sub_cancel, head?_eq_getElem?] at closed
  rw [pointNumber, pointNumber, getD_eq_getElem?_getD, getD_eq_getElem?_getD, closed]

theorem closed_of_pointNumber (length : ring.length = N + 1) (same : pointNumber ring 0 = pointNumber ring N) :
    ring.head? = ring.getLast? := by
  rw [pointNumber, pointNumber, getD_eq_getElem _ _ (by omega), getD_eq_getElem _ _ (by omega)] at same
  rw [getLast?_eq_getElem?, length, Nat.add_sub_cancel, head?_eq_getElem?, getElem?_eq_getElem (by omega),
    getElem?_eq_getElem (by omega), same]

theorem pointNumber_rotateRing (length : ring.length = N + 1) (positive : 0 < N) (s : Nat) {p : Nat} (inside : p ≤ N) :
    pointNumber (rotateRing s ring) p = pointNumber ring ((p + s) % N) := by
  have vertices : ring.dropLast.length = N := by simp [length]
  have rotated : (ring.dropLast.rotate s).length = N := by rw [length_rotate, vertices]
  have vertex {q : Nat} (before : q < N) : pointNumber (rotateRing s ring) q = pointNumber ring ((q + s) % N) := by
    have within := Nat.mod_lt (q + s) positive
    rw [pointNumber, pointNumber, rotateRing, withFirstAgain, getD_append _ _ _ _ (by omega),
      getD_eq_getElem _ _ (by omega), getElem_rotate, getElem_dropLast, getD_eq_getElem _ _ (by omega)]
    simp only [vertices]
  rcases inside.lt_or_eq with before | rfl
  · exact vertex before
  · have first := vertex positive
    rw [zero_add] at first
    rw [Nat.add_mod_left, ← first]
    symm
    apply pointNumber_closed (length_rotateRing length positive s)
    unfold rotateRing withFirstAgain
    cases ring.dropLast.rotate s with
    | nil => rfl
    | cons a rest =>
      rw [head?_cons, toList_some, getLast?_concat]
      rfl

theorem NarrowRing.rotated (narrow : NarrowRing ss N ring) (s : Nat) : NarrowRing ss N (rotateRing s ring) := by
  have long := narrow.long
  have length := length_rotateRing narrow.length (by omega) s
  refine ⟨length, long, closed_of_pointNumber length ?_, narrow.narrow⟩
  rw [pointNumber_rotateRing narrow.length (by omega) s (Nat.zero_le N), pointNumber_rotateRing narrow.length (by omega) s le_rfl,
    zero_add, Nat.add_mod_left]

theorem pointNumber_reverse (length : ring.length = N + 1) {p : Nat} (inside : p ≤ N) :
    pointNumber ring.reverse p = pointNumber ring (N - p) := by
  rw [pointNumber, pointNumber, getD_eq_getElem _ _ (by rw [length_reverse]; omega), getElem_reverse,
    getD_eq_getElem _ _ (by omega)]
  congr 1
  omega

variable [LinearOrder K]

theorem smoothLine_ring {ss : Int} (length : ring.length = N + 1) (long : 3 ≤ N) (isRing : lineIsRing ring = true)
    (near : (lineWindowSize ss ring.length / 2).toNat = 1) {p : Nat} (inside : p ≤ N) :
    pointNumber (smoothLine ss ring) p = smoothPoint 1
      [pointNumber ring (numberBefore N p), pointNumber ring p, pointNumber ring (numberAfter N p)] := by
  have window : nextLineWindow ring.length true p 1 = some [(numberBefore N p : Int), (p : Int), (numberAfter N p : Int)] := by
    have previous : windowPrevious ring.length p 1 = numberBefore N p := by
      unfold windowPrevious numberBefore
      split_ifs <;> omega
    have next : windowNext ring.length p 1 = numberAfter N p := by
      unfold windowNext numberAfter
      split_ifs <;> omega
    have middle : windowNext ring.length p 0 = p := by
      unfold windowNext
      split_ifs <;> omega
    obtain ⟨points, isPoints, three, indices⟩ := @nextLineWindow_ring ring.length p ⟨by omega, by omega⟩ 1 (by omega)
    obtain ⟨last, first⟩ := indices 1 le_rfl
    have centre := (indices 0 (by omega)).1
    match points, three with
    | [a, b, c], _ =>
      simp only [Nat.reduceAdd, Nat.sub_self, getElem?_cons_succ, getElem?_cons_zero, Option.some.injEq] at first last centre
      rw [isPoints, first, last, centre, previous, next, middle]
  unfold smoothLine
  rw [if_neg (by omega), near, isRing]
  rw [pointNumber_map _ (by omega), window]
  rfl

variable [IsStrictOrderedRing K]

theorem lineIsRing_closed (length : 2 ≤ ring.length) (closed : ring.head? = ring.getLast?) : lineIsRing ring = true := by
  obtain _ | ⟨first, rest⟩ := ring
  · simp at length
  · have tolerance : (0 : K) < 1 / ((10 ^ 12 : Nat) : K) := by positivity
    rw [lineIsRing, ← closed, head?_cons]
    simp only [FP_EQ, sub_self, abs_zero, decide_eq_true tolerance, Bool.and_self, Bool.and_true, decide_eq_true_iff]
    exact length

namespace NarrowRing

theorem point (narrow : NarrowRing ss N ring) {p : Nat} (inside : p ≤ N) : pointNumber (smoothLine ss ring) p = smoothPoint 1
    [pointNumber ring (numberBefore N p), pointNumber ring p, pointNumber ring (numberAfter N p)] := by
  have length := narrow.length
  have long := narrow.long
  refine smoothLine_ring length long (lineIsRing_closed (by omega) narrow.closed) ?_ inside
  rw [length]
  exact narrow.narrow

theorem smooth_closed (narrow : NarrowRing ss N ring) : (smoothLine ss ring).head? = (smoothLine ss ring).getLast? := by
  have before : numberBefore N 0 = numberBefore N N := by
    unfold numberBefore
    split_ifs <;> omega
  have after : numberAfter N 0 = numberAfter N N := by
    unfold numberAfter
    split_ifs <;> omega
  apply closed_of_pointNumber ((length_smoothLine ss ring).trans narrow.length)
  rw [narrow.point (Nat.zero_le N), narrow.point le_rfl, before, after, pointNumber_closed narrow.length narrow.closed]

theorem smooth_rotate (narrow : NarrowRing ss N ring) (s : Nat) :
    smoothLine ss (rotateRing s ring) = rotateRing s (smoothLine ss ring) := by
  have long := narrow.long
  have positive : 0 < N := by omega
  have length := narrow.length
  have smooth : (smoothLine ss ring).length = N + 1 := (length_smoothLine ss ring).trans length
  have lengths := length_rotateRing length positive s
  apply ext_points
  · rw [length_smoothLine, lengths, length_rotateRing smooth positive s]
  · intro p inside
    rw [length_smoothLine, lengths] at inside
    have within : p ≤ N := by omega
    have small := Nat.mod_lt (p + s) positive
    have wrap : pointNumber ring (((p + s) % N + 1) % N) = pointNumber ring (numberAfter N ((p + s) % N)) := by
      rw [numberAfter, if_neg small.ne]
      rcases Nat.lt_or_ge ((p + s) % N + 1) N with less | last
      · rw [Nat.mod_eq_of_lt less]
      · have whole : (p + s) % N + 1 = N := by omega
        rw [whole, Nat.mod_self, pointNumber_closed length narrow.closed]
    have before : numberBefore N p ≤ N := by
      unfold numberBefore
      split <;> omega
    have after : numberAfter N p ≤ N := by
      unfold numberAfter
      split <;> omega
    rw [(narrow.rotated s).point within, pointNumber_rotateRing smooth positive s within, narrow.point small.le,
      pointNumber_rotateRing length positive s before, pointNumber_rotateRing length positive s within,
      pointNumber_rotateRing length positive s after, numberBefore_shift positive, numberAfter_shift, wrap]

end NarrowRing

theorem smoothPoint_swap (a b c : PointObj K) : smoothPoint 1 [a, b, c] = smoothPoint 1 [c, b, a] := by
  simp [smoothPoint, smoothCoeff]
  constructor <;> ring

theorem NarrowRing.smooth_reverse (narrow : NarrowRing ss N ring) : smoothLine ss ring.reverse = (smoothLine ss ring).reverse := by
  have long := narrow.long
  have length := narrow.length
  have smooth : (smoothLine ss ring).length = N + 1 := (length_smoothLine ss ring).trans length
  apply ext_points
  · rw [length_smoothLine, length_reverse, length_reverse, length_smoothLine]
  · intro p inside
    rw [length_smoothLine, length_reverse, length] at inside
    have within : p ≤ N := by omega
    have before : numberBefore N p ≤ N ∧ N - numberBefore N p = numberAfter N (N - p) := by
      unfold numberBefore numberAfter
      split_ifs <;> omega
    have after : numberAfter N p ≤ N ∧ N - numberAfter N p = numberBefore N (N - p) := by
      unfold numberBefore numberAfter
      split_ifs <;> omega
    rw [narrow.reversed.point within, pointNumber_reverse smooth within, narrow.point (Nat.sub_le N p),
      pointNumber_reverse length before.1, pointNumber_reverse length within, pointNumber_reverse length after.1, before.2, after.2,
      smoothPoint_swap]

/-- The result follows the ring wherever it starts and whichever way it goes, and the windows have the neighbours. -/
structure SmoothsCyclically (ss : Int) (ring : LineObj K) : Prop where
  rotates : ∀ s, (msSmoothShapeSIA [rotateRing s ring] ss 1).2 = (msSmoothShapeSIA [ring] ss 1).2.map (rotateRing s)
  reverses : (msSmoothShapeSIA [ring.reverse] ss 1).2 = (msSmoothShapeSIA [ring] ss 1).2.map List.reverse
  closed : ∀ line ∈ (msSmoothShapeSIA [ring] ss 1).2, line.head? = line.getLast?
  windows : WindowsCyclic ring.length (lineIsRing ring) (smoothIndex ss ring.length)

theorem msSmoothShapeSIA_cyclic_iff (ss : Int) (long : 4 ≤ ring.length) (closed : ring.head? = ring.getLast?) :
    SmoothsCyclically ss ring ↔ ss ≤ 4 ∨ ring.length ≤ 5 := by
  have points : 4 ≤ (ring.length : Int) := by omega
  obtain ⟨some_, fits⟩ := smoothIndex_fits points ss
  have isRing := lineIsRing_closed (by omega) closed
  have small := smoothIndex_small points ss
  have windows := windowsCyclic_iff points fits
  constructor
  · intro cyclic
    have near := cyclic.windows
    rw [isRing, windows, small] at near
    omega
  · intro condition
    have near : smoothIndex ss ring.length ≤ 1 := small.mpr (by omega)
    have one : smoothIndex ss ring.length = 1 := by omega
    have narrow : NarrowRing (if ss < 3 then 3 else ss) (ring.length - 1) ring := by
      have length : ring.length = ring.length - 1 + 1 := by omega
      refine ⟨length, by omega, closed, ?_⟩
      rw [← length]
      exact one
    refine ⟨?_, ?_, ?_, ?_⟩
    · intro s
      simp only [msSmoothShapeSIA_one, smoothRound, List.map_singleton, narrow.smooth_rotate s]
    · simp only [msSmoothShapeSIA_one, smoothRound, List.map_singleton, narrow.smooth_reverse]
    · simp only [msSmoothShapeSIA_one, smoothRound, List.map_singleton, List.forall_mem_singleton]
      exact narrow.smooth_closed
    · rw [isRing]
      exact windows.mpr near

end Rings

def unevenRing : LineObj ℚ := [⟨0, 0, 0, 0⟩, ⟨4, 0, 0, 0⟩, ⟨6, 4, 0, 0⟩, ⟨2, 8, 0, 0⟩, ⟨-2, 4, 0, 0⟩, ⟨0, 0, 0, 0⟩]

theorem msSmoothShapeSIA_cyclic_iff_uneven : SmoothsCyclically 3 unevenRing ↔ (3 : Int) ≤ 4 ∨ unevenRing.length ≤ 5 :=
  msSmoothShapeSIA_cyclic_iff 3 (by decide) rfl

theorem msSmoothShapeSIA_cyclic_fails : ¬ SmoothsCyclically 5 unevenRing := by
  intro cyclic
  have rotated : (msSmoothShapeSIA [rotateRing 1 unevenRing] 5 1).2 = (msSmoothShapeSIA [unevenRing] 5 1).2.map (rotateRing 1) :=
    cyclic.rotates 1
  revert rotated
  decide +kernel

end MapServer
