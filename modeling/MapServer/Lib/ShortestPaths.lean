import Mathlib.Algebra.Order.Monoid.WithTop
import Mathlib.Data.List.Nodup

/-!
A label is the length of a walk. The labels are least when no edge can lower one, and those of settled nodes already tell how far
the others are.
-/

namespace Lib.ShortestPaths
open List Option Function
variable {V K : Type} [AddCommMonoid K] (edge : V → V → K → Prop) (src : V)

/-- A walk from `src` with its nodes, the last one first, and its length. -/
inductive Walk : V → List V → K → Prop
  | start : Walk src [src] 0
  | step {u v : V} {via : List V} {length weight : K} :
      Walk u via length → edge u v weight → Walk v (v :: via) (length + weight)

/-- The way back from a node along `prev`, with its length. -/
inductive Traced (prev : V → V → Prop) : V → K → Prop
  | source : Traced prev src 0
  | link {u v : V} {length weight : K} :
      prev v u → edge u v weight → Traced prev u length → Traced prev v (length + weight)

/-- Labels that are not `⊤` come from settled nodes. -/
structure Labelling (settled : V → Prop) (rank : V → Nat) (prev : V → V → Prop) (label : V → WithTop K) : Prop where
  source : label src = 0
  linked : ∀ v (length : K), label v = length → v ≠ src → ∃ u weight, ∃ before : K, prev v u ∧ edge u v weight ∧ label u = before ∧
    before + weight = length ∧ settled u ∧ rank u < rank v

variable {edge src} {settled : V → Prop} {rank : V → Nat} {prev : V → V → Prop} {label : V → WithTop K} {v : V} {via : List V}
  {length : K}

theorem Walk.all_nodes {P : V → Prop} (source : P src) (edges : ∀ u v weight, edge u v weight → P v)
    (walk : Walk edge src v via length) : ∀ u ∈ via, P u := by
  induction walk with
  | start => simpa using source
  | step _ isEdge ih => exact forall_mem_cons.mpr ⟨edges _ _ _ isEdge, ih⟩

theorem Walk.via_cons (walk : Walk edge src v via length) : ∃ others, via = v :: others := by
  cases walk with
  | start => exact ⟨[], rfl⟩
  | step => exact ⟨_, rfl⟩

theorem Walk.mem (walk : Walk edge src v via length) : v ∈ via := by
  obtain ⟨others, rfl⟩ := walk.via_cons
  exact mem_cons_self

theorem Walk.last (walk : Walk edge src v via length) : via.getLast? = some src := by
  induction walk with
  | start => rfl
  | step _ _ ih => rw [getLast?_cons, ih, getD_some]

theorem Labelling.traced (labelling : Labelling edge src settled rank prev label) (isLabel : label v = length) :
    Traced edge src prev v length := by
  obtain ⟨bound, isBound⟩ : ∃ bound, rank v = bound := ⟨_, rfl⟩
  induction bound using Nat.strongRecOn generalizing v length with
  | ind bound ih =>
    by_cases isSource : v = src
    · subst isSource
      obtain rfl : (0 : K) = length := WithTop.coe_injective (labelling.source.symm.trans isLabel)
      exact .source
    · obtain ⟨u, weight, before, isPrev, isEdge, isBefore, rfl, -, lower⟩ := labelling.linked v length isLabel isSource
      exact .link isPrev isEdge (ih (rank u) (isBound ▸ lower) isBefore rfl)

theorem Labelling.walk_linked (labelling : Labelling edge src settled rank prev label) (isLabel : label v = length) :
    ∃ via, Walk edge src v via length ∧ via.Nodup ∧ (∀ u ∈ via, rank u ≤ rank v) ∧ via.IsChain prev := by
  obtain ⟨bound, isBound⟩ : ∃ bound, rank v = bound := ⟨_, rfl⟩
  induction bound using Nat.strongRecOn generalizing v length with
  | ind bound ih =>
    by_cases isSource : v = src
    · subst isSource
      obtain rfl : (0 : K) = length := WithTop.coe_injective (labelling.source.symm.trans isLabel)
      exact ⟨[v], .start, nodup_singleton v, by simp, .singleton v⟩
    · obtain ⟨u, weight, before, isPrev, isEdge, isBefore, rfl, -, lower⟩ := labelling.linked v length isLabel isSource
      obtain ⟨via, walk, simple, ranks, linked⟩ := ih (rank u) (isBound ▸ lower) isBefore rfl
      refine ⟨v :: via, .step walk isEdge, nodup_cons.mpr ⟨?_, simple⟩, ?_, ?_⟩
      · intro member
        exact absurd (ranks v member) (Nat.not_le.mpr lower)
      · intro w member
        rcases mem_cons.mp member with rfl | member
        · exact Nat.le_refl _
        · exact (ranks w member).trans lower.le
      · obtain ⟨others, rfl⟩ := walk.via_cons
        exact isChain_cons_cons.mpr ⟨isPrev, linked⟩

theorem Labelling.walk (labelling : Labelling edge src settled rank prev label) (isLabel : label v = length) :
    ∃ via, Walk edge src v via length ∧ via.Nodup ∧ ∀ u ∈ via, rank u ≤ rank v := by
  obtain ⟨via, walk, simple, ranks, -⟩ := labelling.walk_linked isLabel
  exact ⟨via, walk, simple, ranks⟩

theorem Labelling.settle (labelling : Labelling edge src settled rank prev label) {settled' : V → Prop} {rank' : V → Nat}
    (grows : ∀ u, settled u → settled' u) (stays : ∀ u, settled u → rank' u = rank u)
    (above : ∀ u v, settled u → rank u < rank v → rank u < rank' v) : Labelling edge src settled' rank' prev label where
  source := labelling.source
  linked v length isLabel notSource := by
    obtain ⟨u, weight, before, isPrev, isEdge, isBefore, sum, isSettled, lower⟩ := labelling.linked v length isLabel notSource
    exact ⟨u, weight, before, isPrev, isEdge, isBefore, sum, grows u isSettled, stays u isSettled ▸ above u v isSettled lower⟩

theorem Labelling.relax [DecidableEq V] (labelling : Labelling edge src settled rank prev label) {u : V} {before weight : K}
    (isSettled : settled u) (unsettled : ¬ settled v) (isEdge : edge u v weight) (isBefore : label u = before)
    (lower : rank u < rank v) (notSource : v ≠ src) {prev' : V → V → Prop} (here : prev' v u)
    (others : ∀ w, w ≠ v → ∀ x, prev w x → prev' w x) :
    Labelling edge src settled rank prev' (update label v ((before + weight : K) : WithTop K)) where
  source := by
    rw [update_of_ne notSource.symm]
    exact labelling.source
  linked w length isLabel notSource := by
    by_cases same : w = v
    · rw [same, update_self] at isLabel
      have apart : u ≠ v := fun same => unsettled (same ▸ isSettled)
      refine ⟨u, weight, before, same ▸ here, same ▸ isEdge, ?_, WithTop.coe_injective isLabel, isSettled, same ▸ lower⟩
      rw [update_of_ne apart, isBefore]
    · rw [update_of_ne same] at isLabel
      obtain ⟨x, weight, before, isPrev, isEdge, isBefore, sum, isSettled, lower⟩ := labelling.linked w length isLabel notSource
      have apart : x ≠ v := fun same => unsettled (same ▸ isSettled)
      refine ⟨x, weight, before, others w same x isPrev, isEdge, ?_, sum, isSettled, lower⟩
      rw [update_of_ne apart, isBefore]

section Ordered
variable [LinearOrder K] [IsOrderedAddMonoid K]

theorem Walk.nonneg (nonneg : ∀ u v weight, edge u v weight → 0 ≤ weight) (walk : Walk edge src v via length) : 0 ≤ length := by
  induction walk with
  | start => exact le_rfl
  | step _ isEdge ih => exact add_nonneg ih (nonneg _ _ _ isEdge)

theorem Walk.length_le {most : K} (weights : ∀ u v weight, edge u v weight → weight ≤ most) (walk : Walk edge src v via length) :
    length + most ≤ via.length • most := by
  induction walk with
  | start => rw [zero_add, length_singleton, one_nsmul]
  | @step u v via length weight _ isEdge ih =>
    calc length + weight + most = length + most + weight := add_right_comm ..
      _ ≤ via.length • most + most := add_le_add ih (weights u v weight isEdge)
      _ = (v :: via).length • most := (succ_nsmul ..).symm

theorem Walk.label_le (source : label src = 0) (relaxed : ∀ u v weight, edge u v weight → label v ≤ label u + weight)
    (walk : Walk edge src v via length) : label v ≤ length := by
  induction walk with
  | start => exact source.le
  | @step u v via length weight _ isEdge ih =>
    calc label v ≤ label u + weight := relaxed u v weight isEdge
      _ ≤ length + weight := by gcongr
      _ = ((length + weight : K) : WithTop K) := (WithTop.coe_add ..).symm

/-- A walk to a node that is not settled leaves the settled nodes at a node with a label that is no longer than the walk. -/
theorem Walk.frontier (source : label src = 0)
    (exact_ : ∀ u, settled u → ∀ via (length : K), Walk edge src u via length → label u ≤ length)
    (relaxed : ∀ u v weight, settled u → ¬ settled v → edge u v weight → label v ≤ label u + weight)
    (nonneg : ∀ u v weight, edge u v weight → 0 ≤ weight) (walk : Walk edge src v via length) (unsettled : ¬ settled v) :
    ∃ y, ¬ settled y ∧ label y ≤ length := by
  induction walk with
  | start => exact ⟨src, unsettled, source.le⟩
  | @step u v via length weight walk isEdge ih =>
    have longer : length ≤ length + weight := le_add_of_nonneg_right (nonneg u v weight isEdge)
    by_cases here : settled u
    · refine ⟨v, unsettled, ?_⟩
      calc label v ≤ label u + weight := relaxed u v weight here unsettled isEdge
        _ ≤ length + weight := by
          gcongr
          exact exact_ u here _ _ walk
        _ = ((length + weight : K) : WithTop K) := (WithTop.coe_add ..).symm
    · obtain ⟨y, unsettledY, bound⟩ := ih here
      exact ⟨y, unsettledY, bound.trans (WithTop.coe_le_coe.mpr longer)⟩

end Ordered
end Lib.ShortestPaths
