import Mathlib.Algebra.BigOperators.Group.List.Basic

/-! Counting loops whose body may have no defined outcome, and the rules of their invariants. -/

namespace Lib.Loop
open List Option
variable {σ : Type}

def forUp (body : Nat → σ → Option σ) (lo : Nat) : Nat → σ → Option σ
  | 0, s => some s
  | count + 1, s => (body lo s).bind (forUp body (lo + 1) count)

def forDown (body : Nat → σ → Option σ) (lo : Nat) : Nat → σ → Option σ
  | 0, s => some s
  | count + 1, s => (body (lo + count + 1) s).bind (forDown body lo count)

variable (body : Nat → σ → Option σ)

theorem forUp_invariant (lo count : Nat) (P : Nat → σ → Prop) {s : σ} (start : P lo s)
    (step : ∀ i s, lo ≤ i → i < lo + count → P i s → ∃ s', body i s = some s' ∧ P (i + 1) s') :
    ∃ s', forUp body lo count s = some s' ∧ P (lo + count) s' := by
  induction count generalizing lo s with
  | zero => exact ⟨s, rfl, start⟩
  | succ count ih =>
    obtain ⟨next, run, holds⟩ := step lo s (Nat.le_refl lo) (by omega) start
    obtain ⟨last, rest, final⟩ := ih (lo + 1) holds fun i s low high => step i s (by omega) (by omega)
    refine ⟨last, ?_, ?_⟩
    · rw [forUp, run, bind_some, rest]
    · rwa [Nat.add_right_comm] at final

theorem forDown_invariant (lo count : Nat) (P : Nat → σ → Prop) {s : σ} (start : P (lo + count) s)
    (step : ∀ i s, lo ≤ i → i < lo + count → P (i + 1) s → ∃ s', body (i + 1) s = some s' ∧ P i s') :
    ∃ s', forDown body lo count s = some s' ∧ P lo s' := by
  induction count generalizing s with
  | zero => exact ⟨s, rfl, start⟩
  | succ count ih =>
    obtain ⟨next, run, holds⟩ := step (lo + count) s (by omega) (by omega) start
    obtain ⟨last, rest, final⟩ := ih holds fun i s low high => step i s low (by omega)
    exact ⟨last, by rw [forDown, run, bind_some, rest], final⟩

section Elements
variable {α β : Type} {f : α → Option β} {list : List α}

theorem mapM_parts {R : α → β → Prop} (each : ∀ part ∈ list, ∃ left, f part = some left ∧ R part left) :
    ∃ after, list.mapM f = some after ∧ Forall₂ R list after := by
  induction list with
  | nil => exact ⟨[], rfl, Forall₂.nil⟩
  | cons part list ih =>
    rw [forall_mem_cons] at each
    obtain ⟨left, here, holds⟩ := each.1
    obtain ⟨after, rest, others⟩ := ih each.2
    exact ⟨left :: after, by rw [mapM_cons, here, rest]; rfl, Forall₂.cons holds others⟩

theorem mapM_none {part : α} (member : part ∈ list) (fails : f part = none) : list.mapM f = none := by
  induction list with
  | nil => cases member
  | cons other list ih =>
    rw [mapM_cons]
    rcases mem_cons.mp member with rfl | member
    · rw [fails]
      rfl
    · rw [ih member]
      cases f other <;> rfl

theorem mapM_each {after : List β} (run : list.mapM f = some after) :
    Forall₂ (fun part left => f part = some left) list after := by
  induction list generalizing after with
  | nil =>
    cases run
    exact .nil
  | cons part list ih =>
    rw [mapM_cons] at run
    obtain ⟨left, here, run⟩ := bind_eq_some_iff.mp run
    obtain ⟨rest, others, run⟩ := bind_eq_some_iff.mp run
    cases run
    exact .cons here (ih others)

theorem forall₂_getElem? {R : α → β → Prop} {after : List β} (all : Forall₂ R list after) {i : Nat} {part : α}
    (here : list[i]? = some part) : ∃ left, after[i]? = some left ∧ R part left := by
  induction all generalizing i with
  | nil => cases here
  | cons holds _ ih =>
    cases i with
    | zero =>
      cases here
      exact ⟨_, rfl, holds⟩
    | succ i => exact ih here

theorem mapM_range {count : Nat} {entry : Nat → Option β} {R : Nat → β → Prop}
    (each : ∀ i < count, ∃ b, entry i = some b ∧ R i b) :
    ∃ after, (List.range count).mapM entry = some after ∧ ∀ i < count, ∃ b, after[i]? = some b ∧ R i b := by
  obtain ⟨after, filled, all⟩ := mapM_parts fun i member => each i (mem_range.mp member)
  exact ⟨after, filled, fun i bound => forall₂_getElem? all (getElem?_range bound)⟩

theorem mapM_mapped {γ : Type} (g : β → γ) : list.mapM (fun part => (f part).map g) = (list.mapM f).map (List.map g) := by
  induction list with
  | nil => rfl
  | cons part list ih =>
    rw [mapM_cons, mapM_cons, ih]
    cases f part with
    | none => rfl
    | some left => cases list.mapM f <;> rfl

theorem mapM_total {γ : Type} {h : γ → α} {g : γ → β} {others : List γ} (each : ∀ x ∈ others, f (h x) = some (g x)) :
    (others.map h).mapM f = some (others.map g) := by
  induction others with
  | nil => rfl
  | cons other others ih =>
    rw [forall_mem_cons] at each
    rw [map_cons, mapM_cons, each.1, ih each.2]
    rfl

end Elements

theorem foldlM_adds {α M : Type} [AddMonoid M] {step : σ → α → Option σ} {list : List α} (P : σ → Prop) (reads : σ → M) (gain : α → M)
    (each : ∀ part ∈ list, ∀ s, P s → ∃ s', step s part = some s' ∧ P s' ∧ reads s' = reads s + gain part) {s : σ} (start : P s) :
    ∃ s', list.foldlM step s = some s' ∧ P s' ∧ reads s' = reads s + (list.map gain).sum := by
  induction list generalizing s with
  | nil => exact ⟨s, rfl, start, (add_zero _).symm⟩
  | cons part list ih =>
    rw [forall_mem_cons] at each
    obtain ⟨next, run, holds, adds⟩ := each.1 s start
    obtain ⟨last, rest, final, total⟩ := ih each.2 holds
    refine ⟨last, ?_, final, ?_⟩
    · rw [foldlM_cons, run]
      exact rest
    · rw [total, adds, map_cons, sum_cons, add_assoc]

end Lib.Loop
