import Mathlib.Algebra.Order.Field.Basic
import Mathlib.Tactic.NormNum
import Mathlib.Tactic.Ring
import MapServer.Shape.Record

/-!
`msSmoothShapeSIA` of `mapsmoothing.c` without preprocessing, on exact coordinates. A window has the indices of its points.
-/

namespace MapServer
open List Function

attribute [local instance] two_atLeastTwo

section Model
variable {K : Type} [Field K] [LinearOrder K]

def FP_EQ (a b : K) : Bool := decide (|a - b| < 1 / ((10 ^ 12 : Nat) : K))

def lineIsRing (line : LineObj K) : Bool :=
  match line.head?, line.getLast? with
  | some first, some last => decide (line.length ≥ 2) && (FP_EQ first.x last.x && FP_EQ first.y last.y)
  | _, _ => false

/-- `points` from `index - i` to `index + i` at a position. `none` is a window that is not valid. -/
def nextLineWindow (numpoints : Int) (lineIsRing : Bool) (pos : Int) : Nat → Option (List Int)
  | 0 => some [pos]
  | i + 1 => do
    let points ← nextLineWindow numpoints lineIsRing pos i
    let r := pos - (i + 1)
    let l := pos + (i + 1)
    let r := if r < 0 ∧ lineIsRing = true then numpoints - (i + 2) else r
    let l := if l ≥ numpoints ∧ lineIsRing = true then 1 + (l - numpoints) else l
    if r < 0 ∨ l ≥ numpoints then none else some (r :: points ++ [l])

def smoothCoeff : Nat → List K
  | 0 => [1]
  | k + 1 => ((smoothCoeff k).getLast?.getD 0 / 2) :: smoothCoeff k ++ [(smoothCoeff k).head?.getD 0 / 2]

def smoothPoint (index : Nat) (points : List (PointObj K)) : PointObj K :=
  let coeff := smoothCoeff index
  let p := (points.zip coeff).mapIdx fun k (point, c) =>
    if k = index then point else { point with x := point.x * c, y := point.y * c }
  ⟨(p.map PointObj.x).sum / coeff.sum, (p.map PointObj.y).sum / coeff.sum, 0, 0⟩

/-- The window size for a line, of at most `ss` points. -/
def lineWindowSize (ss numpoints : Int) : Int :=
  let ws := if ss ≥ numpoints then numpoints - 1 else ss
  let ws := if ws < 1 then 1 else ws
  if ws % 2 = 0 then ws - 1 else ws

def pointAtIndex (line : LineObj K) (i : Int) : PointObj K := line.getD i.toNat ⟨0, 0, 0, 0⟩

def smoothLine (ss : Int) (line : LineObj K) : LineObj K :=
  if line.length < 3 then line
  else
    let index := (lineWindowSize ss line.length / 2).toNat
    (List.range line.length).map fun (pos : Nat) =>
      match nextLineWindow line.length (lineIsRing line) pos index with
      | none => pointAtIndex line pos
      | some points => smoothPoint index (points.map (pointAtIndex line))

/-- The lines of the shape that is given and of `newShape`, and whether `shape` points to `newShape`. -/
structure SmoothState (K : Type) where
  given : List (LineObj K)
  newShape : List (LineObj K)
  readsNew : Bool
  deriving DecidableEq

def SmoothState.shape (s : SmoothState K) : List (LineObj K) := if s.readsNew then s.newShape else s.given

/-- An iteration. From the second one on, `shape` is copied and `newShape` is emptied. -/
def smoothIteration (ss si : Int) (s : SmoothState K) (i : Nat) : SmoothState K :=
  let initialShape := s.shape
  let newShape := if si > 1 ∧ i > 0 then [] else s.newShape
  let newShape := newShape ++ initialShape.map (smoothLine ss)
  { s with newShape, readsNew := decide (i > 0) || s.readsNew }

def msSmoothShapeSIA (shape : List (LineObj K)) (ss si : Int) : List (LineObj K) × List (LineObj K) :=
  let ss := if ss < 3 then 3 else ss
  let si := if si < 1 then 1 else si
  let final := (List.range si.toNat).foldl (smoothIteration ss si) ⟨shape, [], false⟩
  (final.given, final.newShape)

end Model

variable {K : Type} [Field K] [LinearOrder K]

@[simp] theorem length_smoothLine (ss : Int) (line : LineObj K) : (smoothLine ss line).length = line.length := by
  unfold smoothLine
  split
  · rfl
  · simp

def smoothRound (ss : Int) (lines : List (LineObj K)) : List (LineObj K) := lines.map (smoothLine (if ss < 3 then 3 else ss))

theorem lengths_smoothRound (ss : Int) (lines : List (LineObj K)) :
    (smoothRound ss lines).map List.length = lines.map List.length := by
  simp [smoothRound, comp_def]

theorem lengths_iterate (ss : Int) (lines : List (LineObj K)) (n : Nat) :
    ((smoothRound ss)^[n] lines).map List.length = lines.map List.length := by
  induction n with
  | zero => rfl
  | succ n ih => rw [iterate_succ_apply', lengths_smoothRound, ih]

theorem iterations_eq {ss si : Int} (several : 1 < si) (shape : List (LineObj K)) (n : Nat) :
    (List.range (n + 2)).foldl (smoothIteration (if ss < 3 then 3 else ss) si) ⟨shape, [], false⟩ =
      ⟨shape, (smoothRound ss)^[n + 1] shape, true⟩ := by
  induction n with
  | zero => simp [range_succ, smoothIteration, SmoothState.shape, smoothRound, several]
  | succ n ih =>
    rw [range_succ, foldl_append, ih, foldl_cons, foldl_nil, iterate_succ_apply' _ (n + 1)]
    have later : n + 2 > 0 := Nat.succ_pos _
    simp only [smoothIteration, SmoothState.shape, several, later, and_self, if_true, nil_append, decide_true, Bool.true_or]
    rfl

theorem msSmoothShapeSIA_one (shape : List (LineObj K)) (ss : Int) : msSmoothShapeSIA shape ss 1 = (shape, smoothRound ss shape) := by
  simp [msSmoothShapeSIA, smoothIteration, SmoothState.shape, smoothRound]

theorem msSmoothShapeSIA_several (shape : List (LineObj K)) (ss : Int) (n : Nat) :
    msSmoothShapeSIA shape ss (n + 2 : Nat) = (shape, (smoothRound ss)^[n + 1] shape) := by
  have several : (1 : Int) < ((n + 2 : Nat) : Int) := by omega
  unfold msSmoothShapeSIA
  dsimp only
  rw [if_neg several.le.not_gt, Int.toNat_natCast, iterations_eq several]

def SmoothsInTurns (ss si : Int) (shape : List (LineObj K)) : Prop :=
  (msSmoothShapeSIA shape ss si).2 = (fun s => (msSmoothShapeSIA s ss 1).2)^[si.toNat] shape ∧
    (msSmoothShapeSIA shape ss si).2.map List.length = shape.map List.length ∧ (msSmoothShapeSIA shape ss si).1 = shape

/-- One more round after `n` of them changes nothing. -/
def RestsAfter (ss : Int) (n : Nat) (shape : List (LineObj K)) : Prop :=
  (smoothRound ss)^[n + 1] shape = (smoothRound ss)^[n] shape

theorem smoothsInTurns_iff {ss si : Int} (once : 1 ≤ si) (shape : List (LineObj K)) :
    SmoothsInTurns ss si shape ↔ si = 1 ∨ RestsAfter ss (si - 1).toNat shape := by
  have single : (fun s => (msSmoothShapeSIA s ss 1).2) = smoothRound (K := K) ss := by
    funext s
    rw [msSmoothShapeSIA_one]
  unfold SmoothsInTurns
  rw [single]
  rcases once.eq_or_lt with rfl | several
  · rw [msSmoothShapeSIA_one]
    exact iff_of_true ⟨rfl, lengths_smoothRound ss shape, rfl⟩ (.inl rfl)
  · obtain ⟨n, rfl⟩ : ∃ n : Nat, si = (n + 2 : Nat) := ⟨(si - 2).toNat, by omega⟩
    have before : (((n + 2 : Nat) : Int) - 1).toNat = n + 1 := by omega
    rw [msSmoothShapeSIA_several, Int.toNat_natCast, before, or_iff_right (by omega), RestsAfter]
    constructor
    · rintro ⟨same, -⟩
      exact same.symm
    · intro same
      exact ⟨same.symm, lengths_iterate ss shape (n + 1), rfl⟩

variable [IsStrictOrderedRing K]

def peakLine (height : K) : LineObj K := [⟨0, 0, 0, 0⟩, ⟨1, height, 0, 0⟩, ⟨2, height, 0, 0⟩, ⟨((3 : Nat) : K), 0, 0, 0⟩]

theorem smoothLine_peak {ss : Int} (window : 3 ≤ ss) (height : K) :
    smoothLine ss (peakLine height) = peakLine (((3 : Nat) : K) / ((4 : Nat) : K) * height) := by
  have four : (peakLine height).length = 4 := rfl
  have size : lineWindowSize ss 4 = 3 := by
    unfold lineWindowSize
    dsimp only
    split_ifs <;> omega
  have notRing : lineIsRing (peakLine height) = false := by
    simp only [lineIsRing, peakLine, FP_EQ, head?_cons, getLast?_cons_cons, getLast?_singleton, zero_sub, abs_neg,
      Nat.abs_cast, Bool.and_eq_false_iff, decide_eq_false_iff_not]
    right
    left
    rw [not_lt, div_le_iff₀ (by positivity)]
    norm_num
  unfold smoothLine
  rw [notRing, four, if_neg (by decide)]
  simp only [Nat.cast_ofNat, size]
  simp [range_succ, nextLineWindow, pointAtIndex, smoothPoint, smoothCoeff, peakLine]
  refine ⟨⟨?_, ?_⟩, ?_, ?_⟩
  · norm_num
  · ring
  · norm_num
  · ring

theorem not_restsAfter_peak (ss : Int) (n : Nat) : ¬ RestsAfter ss n [peakLine (1 : K)] := by
  have round (height : K) : smoothRound ss [peakLine height] = [peakLine (((3 : Nat) : K) / ((4 : Nat) : K) * height)] := by
    unfold smoothRound
    rw [map_singleton, smoothLine_peak (by split <;> omega)]
  have rounds (n : Nat) : (smoothRound ss)^[n] [peakLine (1 : K)] = [peakLine ((((3 : Nat) : K) / ((4 : Nat) : K)) ^ n)] := by
    induction n with
    | zero => rw [pow_zero, iterate_zero_apply]
    | succ n ih => rw [iterate_succ_apply', ih, round, pow_succ']
  intro rests
  rw [RestsAfter, rounds, rounds, pow_succ] at rests
  have same : (((3 : Nat) : K) / ((4 : Nat) : K)) ^ n * (((3 : Nat) : K) / ((4 : Nat) : K)) =
      (((3 : Nat) : K) / ((4 : Nat) : K)) ^ n := by
    simp only [peakLine, List.cons.injEq, PointObj.mk.injEq, and_true, true_and] at rests
    exact rests.1
  have positive : (0 : K) < (((3 : Nat) : K) / ((4 : Nat) : K)) ^ n := by positivity
  have whole := mul_left_cancel₀ positive.ne' (same.trans (mul_one _).symm)
  norm_num at whole

/-- Several iterations lose a round, which only a shape at rest does not show. -/
theorem msSmoothShapeSIA_turns_iff {ss si : Int} (once : 1 ≤ si) :
    (∀ shape : List (LineObj K), SmoothsInTurns ss si shape ↔ si = 1 ∨ RestsAfter ss (si - 1).toNat shape) ∧
      ((∀ shape : List (LineObj K), SmoothsInTurns ss si shape) ↔ si = 1) := by
  refine ⟨smoothsInTurns_iff once, ?_⟩
  constructor
  · intro turns
    exact ((smoothsInTurns_iff once _).mp (turns [peakLine 1])).resolve_right (not_restsAfter_peak ss _)
  · intro single shape
    exact (smoothsInTurns_iff once shape).mpr (.inl single)

theorem msSmoothShapeSIA_turns_iff_two :
    (∀ shape : List (LineObj ℚ), SmoothsInTurns 3 2 shape ↔ (2 : Int) = 1 ∨ RestsAfter 3 (2 - 1 : Int).toNat shape) ∧
      ((∀ shape : List (LineObj ℚ), SmoothsInTurns 3 2 shape) ↔ (2 : Int) = 1) :=
  msSmoothShapeSIA_turns_iff (by decide)

theorem msSmoothShapeSIA_turns_fails : ¬ SmoothsInTurns 3 2 [peakLine (4 : ℚ)] := by
  intro turns
  have once : (msSmoothShapeSIA [peakLine (4 : ℚ)] 3 2).2 = (fun s => (msSmoothShapeSIA s 3 1).2)^[2] [peakLine 4] := turns.1
  revert once
  decide +kernel

end MapServer
