import MapServer.Lib.Loop
import Mathlib.Algebra.Field.Rat
import Mathlib.Algebra.Order.Field.Basic
import Mathlib.Algebra.Order.Ring.Rat

namespace MapServer
open Lib.Loop

/-- One index of the arrays `x`, `y` and `panSuccess`. -/
structure ScanPoint (K : Type) where
  x : K
  y : K
  panSuccess : Bool
  deriving DecidableEq

/-- What is returned, and what the arrays hold afterwards. -/
abbrev SimpleTransformer (K : Type) := List (ScanPoint K) → Bool × List (ScanPoint K)

section Transformers
variable {K : Type} [Field K]

variable [LinearOrder K]

structure Chord (K : Type) where
  x2 : K
  y2 : K
  dfDeltaX : K
  dfDeltaY : K

/-- Through the transformed ends of the line from `first` to `last`. -/
def chord (first last start finish : ScanPoint K) : Chord K :=
  ⟨start.x, start.y, (finish.x - start.x) / (last.x - first.x), (finish.y - start.y) / (last.x - first.x)⟩

def Chord.at (line : Chord K) (dfDist : K) : ScanPoint K :=
  ⟨line.x2 + line.dfDeltaX * dfDist, line.y2 + line.dfDeltaY * dfDist, true⟩

def Chord.dfError (line : Chord K) (first middle transformed : ScanPoint K) : K :=
  |(line.at (middle.x - first.x)).x - transformed.x| + |(line.at (middle.x - first.x)).y - transformed.y|

/-- One step of the last loop, which reads `x[0]` anew. -/
def interpolateStep (line : Chord K) (i : Nat) (points : List (ScanPoint K)) : Option (List (ScanPoint K)) :=
  match points[i - 1]?, points[0]? with
  | some p, some first => some (points.set (i - 1) (line.at (p.x - first.x)))
  | _, _ => none

def transformsAll (dfMaxError : K) (nPoints : Nat) (first middle last : ScanPoint K) : Bool :=
  first.y ≠ last.y || first.y ≠ middle.y || first.x = last.x || first.x = middle.x || dfMaxError = 0 || nPoints ≤ 5

def msApproxTransformer (pfnBaseTransformer : SimpleTransformer K) (dfMaxError : K) (points : List (ScanPoint K)) :
    Bool × List (ScanPoint K) :=
  let nPoints := points.length
  let nMiddle := (nPoints - 1) / 2
  match points[0]?, points[nMiddle]?, points[nPoints - 1]? with
  | some first, some middle, some last =>
    if _bail : transformsAll dfMaxError nPoints first middle last then pfnBaseTransformer points
    else
      match pfnBaseTransformer [first, middle, last] with
      | (true, [start, transformed, finish]) =>
        if !start.panSuccess || !transformed.panSuccess || !finish.panSuccess then pfnBaseTransformer points
        else
          let line := chord first last start finish
          if line.dfError first middle transformed > dfMaxError then
            match msApproxTransformer pfnBaseTransformer dfMaxError (points.take nMiddle) with
            | (false, left) => pfnBaseTransformer (left ++ points.drop nMiddle)
            | (true, left) =>
              match msApproxTransformer pfnBaseTransformer dfMaxError (points.drop nMiddle) with
              | (false, right) => pfnBaseTransformer (left ++ right)
              | (true, right) => (true, left ++ right)
          else (true, (forDown (interpolateStep line) 0 nPoints points).getD points)
      | _ => pfnBaseTransformer points
  | _, _, _ => (true, points)
termination_by points.length
decreasing_by
  all_goals
    simp only [transformsAll, Bool.or_eq_true, decide_eq_true_eq, not_or, not_le] at _bail
    simp only [List.length_take, List.length_drop]
    omega

end Transformers

end MapServer

namespace MapServer
open Lib.Loop

section Approximation
variable {K : Type} [Field K] [LinearOrder K]

def Pointwise (base : SimpleTransformer K) (transform : ScanPoint K → ScanPoint K) : Prop :=
  ∀ points, base points = (true, points.map transform)

def Interpolated (transform : ScanPoint K → ScanPoint K) (dfMaxError : K) (points : List (ScanPoint K)) (i : Nat)
    (p result : ScanPoint K) : Prop :=
  ∃ a b first middle last, a ≤ i ∧ i ≤ b ∧ points[a]? = some first ∧ points[a + (b - a) / 2]? = some middle ∧
    points[b]? = some last ∧ (transform first).panSuccess = true ∧ (transform last).panSuccess = true ∧
    (chord first last (transform first) (transform last)).dfError first middle (transform middle) ≤ dfMaxError ∧
    result = (chord first last (transform first) (transform last)).at (p.x - first.x)

def Approximates (transform : ScanPoint K → ScanPoint K) (dfMaxError : K) (points results : List (ScanPoint K)) : Prop :=
  results.length = points.length ∧ ∀ (i : Nat) (p result : ScanPoint K), points[i]? = some p → results[i]? = some result →
    result = transform p ∨ Interpolated transform dfMaxError points i p result

variable {dfMaxError : K} {points : List (ScanPoint K)} {transform : ScanPoint K → ScanPoint K}

theorem Interpolated.append_right {i : Nat} {p result : ScanPoint K} (others : List (ScanPoint K))
    (interpolated : Interpolated transform dfMaxError points i p result) :
    Interpolated transform dfMaxError (points ++ others) i p result := by
  obtain ⟨a, b, first, middle, last, low, high, isFirst, isMiddle, isLast, rest⟩ := interpolated
  have inside {k : Nat} {q : ScanPoint K} (found : points[k]? = some q) : (points ++ others)[k]? = some q := by
    obtain ⟨bound, _⟩ := List.getElem?_eq_some_iff.mp found
    rwa [List.getElem?_append_left bound]
  exact ⟨a, b, first, middle, last, low, high, inside isFirst, inside isMiddle, inside isLast, rest⟩

theorem Interpolated.append_left {i : Nat} {p result : ScanPoint K} (others : List (ScanPoint K))
    (interpolated : Interpolated transform dfMaxError points i p result) :
    Interpolated transform dfMaxError (others ++ points) (others.length + i) p result := by
  obtain ⟨a, b, first, middle, last, low, high, isFirst, isMiddle, isLast, rest⟩ := interpolated
  have shifted {k : Nat} {q : ScanPoint K} (found : points[k]? = some q) : (others ++ points)[others.length + k]? = some q := by
    rwa [List.getElem?_append_right (Nat.le_add_right _ _), Nat.add_sub_cancel_left]
  have between : others.length + a + (others.length + b - (others.length + a)) / 2 = others.length + (a + (b - a) / 2) := by
    rw [Nat.add_sub_add_left, Nat.add_assoc]
  refine ⟨others.length + a, others.length + b, first, middle, last, by omega, by omega, shifted isFirst, ?_,
    shifted isLast, rest⟩
  rw [between]
  exact shifted isMiddle

theorem Approximates.append {left right leftResults rightResults : List (ScanPoint K)}
    (first : Approximates transform dfMaxError left leftResults)
    (second : Approximates transform dfMaxError right rightResults) :
    Approximates transform dfMaxError (left ++ right) (leftResults ++ rightResults) := by
  refine ⟨by rw [List.length_append, List.length_append, first.1, second.1], ?_⟩
  intro i p result isPoint isResult
  by_cases inLeft : i < left.length
  · rw [List.getElem?_append_left inLeft] at isPoint
    rw [List.getElem?_append_left (by rw [first.1]; exact inLeft)] at isResult
    rcases first.2 i p result isPoint isResult with exact_ | interpolated
    · exact Or.inl exact_
    · exact Or.inr (interpolated.append_right right)
  · have above : left.length ≤ i := Nat.le_of_not_lt inLeft
    rw [List.getElem?_append_right above] at isPoint
    rw [List.getElem?_append_right (by rw [first.1]; exact above), first.1] at isResult
    rcases second.2 _ p result isPoint isResult with exact_ | interpolated
    · exact Or.inl exact_
    · have shifted := interpolated.append_left left
      rw [Nat.add_sub_cancel' above] at shifted
      exact Or.inr shifted

theorem Approximates.of_base {base : SimpleTransformer K} (pointwise : Pointwise base transform) (dfMaxError : K)
    (points : List (ScanPoint K)) : (base points).1 = true ∧ Approximates transform dfMaxError points (base points).2 := by
  rw [pointwise]
  refine ⟨rfl, List.length_map _, ?_⟩
  intro i p result isPoint isResult
  rw [List.getElem?_map, isPoint, Option.map_some, Option.some.injEq] at isResult
  exact Or.inl isResult.symm

omit [LinearOrder K] in
theorem interpolateLoop (line : Chord K) {first : ScanPoint K} (isFirst : points[0]? = some first) :
    forDown (interpolateStep line) 0 points.length points = some (points.map fun p => line.at (p.x - first.x)) := by
  let value (p : ScanPoint K) : ScanPoint K := line.at (p.x - first.x)
  have start : points = points.take (0 + points.length) ++ (points.drop (0 + points.length)).map value := by simp
  have step (i : Nat) (results : List (ScanPoint K)) (_ : 0 ≤ i) (bound : i < 0 + points.length)
      (same : results = points.take (i + 1) ++ (points.drop (i + 1)).map value) :
      ∃ next, interpolateStep line (i + 1) results = some next ∧ next = points.take i ++ (points.drop i).map value := by
    rw [Nat.zero_add] at bound
    have length : (points.take i).length = i := by
      rw [List.length_take]
      omega
    have split : results = points.take i ++ points[i] :: (points.drop (i + 1)).map value := by
      rw [same, List.take_succ_eq_append_getElem bound, List.append_assoc, List.singleton_append]
    have isPoint : results[i]? = some points[i] := by
      rw [split, List.getElem?_append_right (by omega), length, Nat.sub_self, List.getElem?_cons_zero]
    have stillFirst : results[0]? = some first := by
      rw [same, List.getElem?_append_left (by rw [List.length_take]; omega), List.getElem?_take_of_lt (Nat.succ_pos i), isFirst]
    refine ⟨results.set i (value points[i]), ?_, ?_⟩
    · rw [interpolateStep, Nat.add_sub_cancel, isPoint, stillFirst]
    · rw [split, List.set_append_right _ _ (by omega), length, Nat.sub_self, List.set_cons_zero, List.drop_eq_getElem_cons bound,
        List.map_cons]
  obtain ⟨results, run, written⟩ := forDown_invariant (interpolateStep line) 0 points.length
    (fun i results => results = points.take i ++ (points.drop i).map value) start step
  rw [run, written]
  simp [value]

theorem Approximates.of_chord {first middle last : ScanPoint K} (isFirst : points[0]? = some first)
    (isMiddle : points[(points.length - 1) / 2]? = some middle) (isLast : points[points.length - 1]? = some last)
    (firstGood : (transform first).panSuccess = true) (lastGood : (transform last).panSuccess = true)
    (close : (chord first last (transform first) (transform last)).dfError first middle (transform middle) ≤ dfMaxError) :
    Approximates transform dfMaxError points
      (points.map fun p => (chord first last (transform first) (transform last)).at (p.x - first.x)) := by
  refine ⟨List.length_map _, ?_⟩
  intro i p result isPoint isResult
  rw [List.getElem?_map, isPoint, Option.map_some, Option.some.injEq] at isResult
  obtain ⟨bound, _⟩ := List.getElem?_eq_some_iff.mp isPoint
  exact Or.inr ⟨0, points.length - 1, first, middle, last, Nat.zero_le i, by omega, isFirst, by rwa [Nat.zero_add, Nat.sub_zero],
    isLast, firstGood, lastGood, close, isResult.symm⟩

/-- Every point of a scanline gets its own base result or an interpolated one, and the batch succeeds. -/
theorem msApproxTransformer_approximates {base : SimpleTransformer K} {transform : ScanPoint K → ScanPoint K}
    (pointwise : Pointwise base transform) (dfMaxError : K) (points : List (ScanPoint K)) :
    (msApproxTransformer base dfMaxError points).1 = true ∧
      Approximates transform dfMaxError points (msApproxTransformer base dfMaxError points).2 := by
  induction size : points.length using Nat.strong_induction_on generalizing points with
  | _ size ih =>
    have whole := Approximates.of_base pointwise dfMaxError points
    rw [msApproxTransformer]
    split
    · rename_i first middle last isFirst isMiddle isLast
      split
      · exact whole
      · rename_i bail
        have long : 5 < points.length := by
          simp only [transformsAll, Bool.or_eq_true, decide_eq_true_eq, not_or, not_le] at bail
          exact bail.2
        have ends : base [first, middle, last] = (true, [transform first, transform middle, transform last]) := pointwise _
        rw [ends]
        dsimp only
        split
        · exact whole
        · rename_i good
          simp only [Bool.or_eq_true, Bool.not_eq_true', not_or, Bool.not_eq_false] at good
          split
          · -- the halves do not overlap, and no later step reads what the first one has overwritten
            have left := ih (points.take ((points.length - 1) / 2)).length (by rw [List.length_take]; omega) _ rfl
            have right := ih (points.drop ((points.length - 1) / 2)).length (by rw [List.length_drop]; omega) _ rfl
            split
            · rename_i failed
              rw [failed] at left
              cases left.1
            · rename_i leftResults isLeft
              rw [isLeft] at left
              split
              · rename_i failed
                rw [failed] at right
                cases right.1
              · rename_i rightResults isRight
                rw [isRight] at right
                have both := left.2.append right.2
                rw [List.take_append_drop] at both
                exact ⟨rfl, both⟩
          · rename_i close
            rw [interpolateLoop _ isFirst, Option.getD_some]
            exact ⟨rfl, Approximates.of_chord isFirst isMiddle isLast good.1.1 good.2 (not_lt.mp close)⟩
    · rename_i noPoints
      have empty : points = [] := by
        cases points with
        | nil => rfl
        | cons p rest =>
          have inside (i : Nat) (bound : i < (p :: rest).length) : (p :: rest)[i]? = some (p :: rest)[i] :=
            List.getElem?_eq_getElem bound
          have positive : 0 < (p :: rest).length := Nat.succ_pos _
          exact (noPoints _ _ _ (inside 0 positive) (inside _ (by omega)) (inside _ (by omega))).elim
      subst empty
      rw [pointwise] at whole
      exact whole

def sevenPoints : List (ScanPoint ℚ) := (List.range 7).map fun (i : Nat) => ⟨i, 0, false⟩

def squared (p : ScanPoint ℚ) : ScanPoint ℚ := ⟨p.x * p.x, p.y, true⟩

theorem msApproxTransformer_approximates_squared :
    (msApproxTransformer (fun points => (true, points.map squared)) 1 sevenPoints).1 = true ∧
      Approximates squared 1 sevenPoints (msApproxTransformer (fun points => (true, points.map squared)) 1 sevenPoints).2 :=
  msApproxTransformer_approximates (fun _ => rfl) 1 sevenPoints

end Approximation

end MapServer
