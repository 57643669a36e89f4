import Mathlib.Data.List.Basic

/-! A value is made for the first entry with a key, and the later entries with this key get the index of that value. -/

namespace Lib.Interning
open List Option
variable {E K V : Type} [BEq K] (key : E → K) (make : E → V)

structure Pool (K V : Type) where
  values : List V
  cache : List (K × Nat)

def intern (pool : Pool K V) (entry : E) : Nat × Pool K V :=
  match pool.cache.lookup (key entry) with
  | some index => (index, pool)
  | none => (pool.values.length, ⟨pool.values ++ [make entry], (key entry, pool.values.length) :: pool.cache⟩)

def firstWith (all : List E) (k : K) : Option E := all.find? fun entry => key entry == k

/-- After the entries `done` of `all`, the cache knows their keys and leads to the values of the first entries. -/
structure Holds (all done : List E) (pool : Pool K V) : Prop where
  cached (k : K) (index : Nat) (found : pool.cache.lookup k = some index) :
    ∃ first, firstWith key all k = some first ∧ pool.values[index]? = some (make first)
  known (entry : E) (member : entry ∈ done) : pool.cache.lookup (key entry) ≠ none

theorem holds_empty (all : List E) : Holds key make all [] ⟨[], []⟩ where
  cached k index found := by cases found
  known entry member := by cases member

variable [LawfulBEq K] {key make} {all done rest : List E} {entry : E} {pool : Pool K V}

theorem firstWith_of_new (split : all = done ++ entry :: rest) (new : ∀ other ∈ done, key other ≠ key entry) :
    firstWith key all (key entry) = some entry := by
  have none : done.find? (fun other => key other == key entry) = none := by
    rw [find?_eq_none]
    intro other member
    simpa using new other member
  rw [firstWith, split, find?_append, none, none_or, find?_cons_of_pos (by simp)]

omit [LawfulBEq K] in
variable (key make) in
theorem intern_values_prefix (pool : Pool K V) (entry : E) : pool.values <+: (intern key make pool entry).2.values := by
  rw [intern]
  split
  · exact prefix_refl _
  · exact prefix_append _ _

theorem intern_holds (holds : Holds key make all done pool) (split : all = done ++ entry :: rest) :
    Holds key make all (done ++ [entry]) (intern key make pool entry).2 ∧
      ∃ first, firstWith key all (key entry) = some first ∧
        (intern key make pool entry).2.values[(intern key make pool entry).1]? = some (make first) := by
  rw [intern]
  cases hit : pool.cache.lookup (key entry) with
  | some index =>
    refine ⟨⟨holds.cached, ?_⟩, holds.cached _ _ hit⟩
    intro other member
    rcases mem_append.mp member with before | last
    · exact holds.known other before
    · rw [mem_singleton.mp last, hit]
      exact some_ne_none _
  | none =>
    have new : firstWith key all (key entry) = some entry := by
      apply firstWith_of_new split
      intro other member same
      exact holds.known other member (by rw [same, hit])
    have stored : (pool.values ++ [make entry])[pool.values.length]? = some (make entry) := by
      rw [getElem?_append_right (Nat.le_refl _), Nat.sub_self, getElem?_cons_zero]
    refine ⟨⟨?_, ?_⟩, entry, new, stored⟩
    · intro k index found
      rw [lookup_cons] at found
      split at found
      · rename_i same
        rw [beq_iff_eq] at same
        cases Option.some.inj found
        exact ⟨entry, by rw [same, new], stored⟩
      · obtain ⟨first, isFirst, value⟩ := holds.cached k index found
        refine ⟨first, isFirst, ?_⟩
        rw [getElem?_append_left (List.getElem?_eq_some_iff.mp value).1, value]
    · intro other member
      rw [lookup_cons]
      split
      · exact some_ne_none _
      · rename_i different
        rcases mem_append.mp member with before | last
        · exact holds.known other before
        · rw [mem_singleton.mp last, beq_self_eq_true] at different
          cases different

end Lib.Interning
