import Mathlib.Algebra.Order.BigOperators.Group.Finset
import MapServer.Label.CachedLabels

namespace MapServer
open List Option Function

variable {ψ τ σ K : Type} {cache middle after : LabelCacheObj τ K}

/-- What is in the cache keeps its place, and at most so many labels come behind it. -/
structure CacheExtends (cache after : LabelCacheObj τ K) (most : Nat) : Prop where
  labels : ∀ k, (cache k).labels <+: (after k).labels
  markers : ∀ k, (cache k).markers <+: (after k).markers
  added : ∑ k, (after k).labels.length ≤ (∑ k, (cache k).labels.length) + most

theorem cacheExtends_refl (cache : LabelCacheObj τ K) (most : Nat) : CacheExtends cache cache most :=
  ⟨fun _ => prefix_rfl, fun _ => prefix_rfl, Nat.le_add_right _ _⟩

theorem CacheExtends.trans {first second : Nat} (left : CacheExtends cache middle first) (right : CacheExtends middle after second) :
    CacheExtends cache after (first + second) where
  labels k := (left.labels k).trans (right.labels k)
  markers k := (left.markers k).trans (right.markers k)
  added := by
    have := left.added
    have := right.added
    omega

variable [Field K]

/-- Each marker is around the point of the label that its id names. -/
def MarkersAround (cache : LabelCacheObj τ K) : Prop :=
  ∀ k, ∀ marker ∈ (cache k).markers, ∃ member w h, (cache k).labels[marker.id]? = some member ∧
    marker.bounds = markerBounds member.point w h

theorem planDone_extends {call : LabelCall ψ τ σ K} {plan : Option (LabelPlan τ K)} (done : PlanDone call cache after plan) :
    CacheExtends cache after 1 := by
  cases plan with
  | none =>
    refine ⟨fun k => ?_, fun k => ?_, ?_⟩
    · rw [(done k).1]
    · rw [(done k).2]
    · simp [fun k => (done k).1]
  | some plan =>
    have same (k : Fin MS_MAX_LABEL_PRIORITY) (other : k ≠ plan.k) : after k = cache k := done.others k other
    refine ⟨fun k => ?_, fun k => ?_, ?_⟩
    · rcases eq_or_ne k plan.k with rfl | other
      · exact ⟨_, done.labels.symm⟩
      · rw [same k other]
    · rcases eq_or_ne k plan.k with rfl | other
      · exact ⟨_, done.markers.symm⟩
      · rw [same k other]
    · have others : ∑ k ∈ Finset.univ.erase plan.k, (after k).labels.length = ∑ k ∈ Finset.univ.erase plan.k, (cache k).labels.length :=
        Finset.sum_congr rfl fun k among => by rw [same k (Finset.ne_of_mem_erase among)]
      rw [← Finset.sum_erase_add _ _ (Finset.mem_univ plan.k), others, done.labels, length_append, length_singleton, ← Nat.add_assoc,
        Finset.sum_erase_add _ (fun k => (cache k).labels.length) (Finset.mem_univ plan.k)]

theorem planDone_around {call : LabelCall ψ τ σ K} {plan : Option (LabelPlan τ K)} (around : MarkersAround cache)
    (done : PlanDone call cache after plan) : MarkersAround after := by
  have extended := planDone_extends done
  have kept : ∀ k, ∀ marker ∈ (cache k).markers, ∃ member w h, (after k).labels[marker.id]? = some member ∧
      marker.bounds = markerBounds member.point w h := by
    intro k marker among
    obtain ⟨member, w, h, found, bounds⟩ := around k marker among
    obtain ⟨new, isAppend⟩ := extended.labels k
    refine ⟨member, w, h, ?_, bounds⟩
    rw [← isAppend, getElem?_append_left (List.getElem?_eq_some_iff.mp found).1]
    exact found
  intro k marker among
  cases plan with
  | none => exact kept k marker ((done k).2 ▸ among)
  | some plan =>
    rcases eq_or_ne k plan.k with rfl | other
    · rw [done.markers] at among
      rcases mem_append.mp among with among | new
      · exact kept plan.k marker among
      · obtain ⟨size, isSize, rfl⟩ := map_eq_some_iff.mp (mem_toList.mp new)
        refine ⟨call.member (cache plan.k) plan, size.1, size.2, ?_, rfl⟩
        rw [done.labels]
        exact getElem?_concat_length ..
    · exact kept k marker (done.others k other ▸ among)

variable [LinearOrder K] [FloorRing K]

theorem addCall_extends (sound : CacheSound cache) (around : MarkersAround cache) (call : AddCall ψ τ σ K) :
    ∃ after, call.run cache = some after ∧ CacheSound after ∧ MarkersAround after ∧ CacheExtends cache after 1 := by
  cases call with
  | group call =>
    obtain ⟨outcome, run, holds, done⟩ := group_spec call sound
    exact ⟨outcome.cache, by rw [AddCall.run, run]; rfl, holds, planDone_around around done, planDone_extends done⟩
  | single call label ts =>
    obtain ⟨outcome, _, run, holds, done⟩ := single_spec call sound label ts
    exact ⟨outcome.cache, by rw [AddCall.run, run]; rfl, holds, planDone_around around done, planDone_extends done⟩

theorem runCalls_extends (sound : CacheSound cache) (around : MarkersAround cache) (calls : List (AddCall ψ τ σ K)) :
    ∃ after, runCalls cache calls = some after ∧ CacheSound after ∧ MarkersAround after ∧ CacheExtends cache after calls.length := by
  induction calls generalizing cache with
  | nil => exact ⟨cache, rfl, sound, around, cacheExtends_refl cache 0⟩
  | cons call calls ih =>
    obtain ⟨next, run, holds, places, step⟩ := addCall_extends sound around call
    obtain ⟨after, rest, final, placed, steps⟩ := ih holds places
    refine ⟨after, by rw [runCalls, run, bind_some, rest], final, placed, ?_⟩
    rw [length_cons, Nat.add_comm]
    exact step.trans steps

/-- After any calls from an empty cache, any further calls leave the labels and markers in their places, add a label each
at most, and every marker is around the label that it is linked with. -/
theorem labelCache_appends (calls further : List (AddCall ψ τ σ K)) :
    ∃ cache after, runCalls msInitLabelCache calls = some cache ∧ runCalls cache further = some after ∧ CacheSound after ∧
      MarkersAround after ∧ CacheExtends cache after further.length := by
  have nowhere : MarkersAround (msInitLabelCache : LabelCacheObj τ K) := by
    intro k marker among
    cases among
  obtain ⟨cache, run, sound, around, -⟩ := runCalls_extends cacheSound_initial nowhere calls
  obtain ⟨after, rest, final, placed, extended⟩ := runCalls_extends sound around further
  exact ⟨cache, after, run, rest, final, placed, extended⟩

end MapServer
