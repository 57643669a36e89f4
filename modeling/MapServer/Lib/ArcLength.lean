import MapServer.Lib.Segments
import Mathlib.Analysis.Real.Sqrt

namespace Lib.Distances
open Lib.Segments
variable {K : Type} [Field K] [LinearOrder K] [IsStrictOrderedRing K] {sqrt : K → K}

structure ExactSqrt (sqrt : K → K) : Prop where
  nonneg : ∀ x, 0 ≤ x → 0 ≤ sqrt x
  square : ∀ x, 0 ≤ x → sqrt x * sqrt x = x

def squareDistance (a b : K × K) : K := (a.1 - b.1) * (a.1 - b.1) + (a.2 - b.2) * (a.2 - b.2)

def distance (sqrt : K → K) (a b : K × K) : K := sqrt (squareDistance a b)

theorem squareDistance_nonneg (a b : K × K) : 0 ≤ squareDistance a b :=
  add_nonneg (mul_self_nonneg _) (mul_self_nonneg _)

theorem ExactSqrt.eq (exact : ExactSqrt sqrt) {x y : K} (nonneg : 0 ≤ y) (square : y * y = x) : sqrt x = y := by
  have sum : 0 ≤ x := square ▸ mul_self_nonneg y
  exact (mul_self_inj (exact.nonneg x sum) nonneg).mp ((exact.square x sum).trans square.symm)

theorem distance_nonneg (exact : ExactSqrt sqrt) (a b : K × K) : 0 ≤ distance sqrt a b :=
  exact.nonneg _ (squareDistance_nonneg a b)

omit [LinearOrder K] [IsStrictOrderedRing K] in
theorem squareDistance_along (a b : K × K) (s t : K) :
    squareDistance (along a b s) (along a b t) = (s - t) * (s - t) * squareDistance a b := by
  simp only [squareDistance, along]
  ring

theorem distance_along (exact : ExactSqrt sqrt) (a b : K × K) (s t : K) :
    distance sqrt (along a b s) (along a b t) = |s - t| * distance sqrt a b := by
  apply exact.eq (mul_nonneg (abs_nonneg _) (distance_nonneg exact a b))
  have root : distance sqrt a b * distance sqrt a b = squareDistance a b := exact.square _ (squareDistance_nonneg a b)
  rw [squareDistance_along, mul_mul_mul_comm, abs_mul_abs_self, root]

theorem realSqrt_exact : ExactSqrt Real.sqrt where
  nonneg := fun x _ => Real.sqrt_nonneg x
  square := fun _ nonneg => Real.mul_self_sqrt nonneg

end Lib.Distances

namespace Lib.ArcLength
open Lib.Segments Lib.Distances

section Scan
variable {K : Type} [Field K] [LinearOrder K]

def scanFrom (target : K) : List K → Nat → K → Option (Nat × K)
  | [], j, done => if done < target then none else some (j, done)
  | length :: rest, j, done => if done < target then scanFrom target rest (j + 1) (done + length) else some (j, done)

/-- `j = 0; done = 0; while (done < target) done += lengths[j++];`, with no outcome behind the last length. -/
def scan (lengths : List K) (target : K) : Option (Nat × K) := scanFrom target lengths 0 0

theorem scanFrom_spec (target : K) (rest before : List K) (least : ∀ i < before.length, (before.take i).sum < target)
    (reached : target ≤ (before ++ rest).sum ∨ target ≤ before.sum) :
    ∃ j, scanFrom target rest before.length before.sum = some (j, ((before ++ rest).take j).sum) ∧
      j ≤ (before ++ rest).length ∧ target ≤ ((before ++ rest).take j).sum ∧
      ∀ i < j, ((before ++ rest).take i).sum < target := by
  induction rest generalizing before with
  | nil =>
    rw [List.append_nil, or_self] at reached
    refine ⟨before.length, ?_, by simp, by simpa using reached, by simpa using least⟩
    rw [scanFrom, if_neg (not_lt.mpr reached), List.append_nil, List.take_length]
  | cons length rest ih =>
    by_cases early : before.sum < target
    · have next := ih (before ++ [length]) (by
        intro i less
        rw [List.length_append, List.length_singleton] at less
        rcases Nat.lt_or_ge i before.length with old | new
        · rw [List.take_append_of_le_length old.le]
          exact least i old
        · rw [show i = before.length by omega, List.take_left]
          exact early) (Or.inl (by simpa using reached.resolve_right (not_le.mpr early)))
      rw [List.append_assoc, List.singleton_append, List.length_append, List.length_singleton, List.sum_append,
        List.sum_singleton] at next
      rw [scanFrom, if_pos early]
      exact next
    · refine ⟨before.length, ?_, by simp, by simpa using early, ?_⟩
      · rw [scanFrom, if_neg early, List.take_left]
      · intro i less
        rw [List.take_append_of_le_length less.le]
        exact least i less

variable {lengths : List K} {target : K}

theorem scan_spec (reached : target ≤ lengths.sum) :
    ∃ j, scan lengths target = some (j, (lengths.take j).sum) ∧ j ≤ lengths.length ∧ target ≤ (lengths.take j).sum ∧
      ∀ i < j, (lengths.take i).sum < target := scanFrom_spec target lengths [] (by simp) (Or.inl reached)

theorem scan_pos (positive : 0 < target) (reached : target ≤ lengths.sum) :
    ∃ j length, scan lengths target = some (j + 1, (lengths.take j).sum + length) ∧ lengths[j]? = some length ∧
      (lengths.take j).sum < target ∧ target ≤ (lengths.take j).sum + length := by
  obtain ⟨count, run, bound, enough, least⟩ := scan_spec reached
  cases count with
  | zero =>
    rw [List.take_zero, List.sum_nil] at enough
    exact absurd positive (not_lt.mpr enough)
  | succ j =>
    have inside : j < lengths.length := bound
    rw [List.take_succ_eq_append_getElem inside, List.sum_append, List.sum_singleton] at run enough
    exact ⟨j, lengths[j], run, List.getElem?_eq_getElem inside, least j (Nat.lt_succ_self j), enough⟩

theorem scan_zero (start : target ≤ 0) : scan lengths target = some (0, 0) := by
  unfold scan
  cases lengths <;> rw [scanFrom, if_neg (not_lt.mpr start)]

theorem scanFrom_none [IsStrictOrderedRing K] (rest : List K) (nonneg : ∀ length ∈ rest, 0 ≤ length) (j : Nat) (done : K)
    (far : done + rest.sum < target) : scanFrom target rest j done = none := by
  induction rest generalizing j done with
  | nil => rw [scanFrom, if_pos (by simpa using far)]
  | cons length rest ih =>
    rw [List.forall_mem_cons] at nonneg
    rw [List.sum_cons, ← add_assoc] at far
    have early : done < target :=
      lt_of_le_of_lt ((le_add_of_nonneg_right nonneg.1).trans (le_add_of_nonneg_right (List.sum_nonneg nonneg.2))) far
    rw [scanFrom, if_pos early]
    exact ih nonneg.2 (j + 1) (done + length) far

theorem scan_none [IsStrictOrderedRing K] (nonneg : ∀ length ∈ lengths, 0 ≤ length) (far : lengths.sum < target) :
    scan lengths target = none :=
  scanFrom_none lengths nonneg 0 0 (by rwa [zero_add])

end Scan

section Places
variable {K : Type} [Field K] {sqrt : K → K}

def pathLengths (sqrt : K → K) : List (K × K) → List K
  | a :: b :: rest => distance sqrt a b :: pathLengths sqrt (b :: rest)
  | _ => []

theorem length_pathLengths (a : K × K) (rest : List (K × K)) : (pathLengths sqrt (a :: rest)).length = rest.length := by
  induction rest generalizing a with
  | nil => rfl
  | cons b rest ih => rw [pathLengths, List.length_cons, List.length_cons, ih]

theorem getElem?_pathLengths {path : List (K × K)} {j : Nat} {length : K} (found : (pathLengths sqrt path)[j]? = some length) :
    ∃ a b, path[j]? = some a ∧ path[j + 1]? = some b ∧ length = distance sqrt a b := by
  induction path generalizing j with
  | nil => simp [pathLengths] at found
  | cons a rest ih =>
    cases rest with
    | nil => simp [pathLengths] at found
    | cons b rest =>
      cases j with
      | zero =>
        rw [pathLengths, List.getElem?_cons_zero, Option.some.injEq] at found
        exact ⟨a, b, rfl, rfl, found.symm⟩
      | succ j =>
        rw [pathLengths, List.getElem?_cons_succ] at found
        exact ih found

/-- The point `p` is on the path at the length `s` from its start. -/
def AtArc [LE K] (sqrt : K → K) (path : List (K × K)) (s : K) (p : K × K) : Prop :=
  ∃ (j : Nat) (a b : K × K) (t : K), path[j]? = some a ∧ path[j + 1]? = some b ∧ 0 ≤ t ∧ t ≤ 1 ∧ p = along a b t ∧
    s = ((pathLengths sqrt path).take j).sum + t * distance sqrt a b

end Places

end Lib.ArcLength
