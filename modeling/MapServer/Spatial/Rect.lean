import Mathlib.Algebra.Order.Ring.Int

namespace MapServer

theorem two_atLeastTwo : Nat.AtLeastTwo 2 := inferInstance

theorem ten_atLeastTwo : Nat.AtLeastTwo 10 := inferInstance

/-- `rectObj`, over the type of its coordinates. -/
structure RectObj (α : Type) where
  minx : α
  miny : α
  maxx : α
  maxy : α
  deriving DecidableEq

section Comparisons
variable {α : Type} [LE α] [LT α] [DecidableLE α] [DecidableLT α]

def msRectOverlap (a b : RectObj α) : Bool :=
  if a.minx > b.maxx then false
  else if a.maxx < b.minx then false
  else if a.miny > b.maxy then false
  else if a.maxy < b.miny then false
  else true

def msRectContained (a b : RectObj α) : Bool :=
  if a.minx ≥ b.minx ∧ a.maxx ≤ b.maxx then
    if a.miny ≥ b.miny ∧ a.maxy ≤ b.maxy then true else false
  else false

end Comparisons

variable {α : Type} [LinearOrder α] {a b c : RectObj α}

theorem msRectOverlap_iff :
    msRectOverlap a b = true ↔
      a.minx ≤ b.maxx ∧ b.minx ≤ a.maxx ∧ a.miny ≤ b.maxy ∧ b.miny ≤ a.maxy := by
  unfold msRectOverlap
  split_ifs with left right low high
  · exact iff_of_false not_false fun meets => left.not_ge meets.1
  · exact iff_of_false not_false fun meets => right.not_ge meets.2.1
  · exact iff_of_false not_false fun meets => low.not_ge meets.2.2.1
  · exact iff_of_false not_false fun meets => high.not_ge meets.2.2.2
  · exact iff_of_true rfl ⟨not_lt.mp left, not_lt.mp right, not_lt.mp low, not_lt.mp high⟩

theorem msRectContained_iff :
    msRectContained a b = true ↔
      b.minx ≤ a.minx ∧ a.maxx ≤ b.maxx ∧ b.miny ≤ a.miny ∧ a.maxy ≤ b.maxy := by
  unfold msRectContained
  split_ifs with across along
  · exact iff_of_true rfl ⟨across.1, across.2, along.1, along.2⟩
  · exact iff_of_false not_false fun inside => along inside.2.2
  · exact iff_of_false not_false fun inside => across ⟨inside.1, inside.2.1⟩

theorem overlap_of_contained (inside : msRectContained a b = true) (meets : msRectOverlap a c = true) :
    msRectOverlap b c = true := by
  rw [msRectContained_iff] at inside
  rw [msRectOverlap_iff] at meets ⊢
  obtain ⟨left, right, low, high⟩ := inside
  exact ⟨left.trans meets.1, meets.2.1.trans right, low.trans meets.2.2.1, meets.2.2.2.trans high⟩

end MapServer
