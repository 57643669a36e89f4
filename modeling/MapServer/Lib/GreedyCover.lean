import Mathlib.Data.List.Induction
import Mathlib.Data.List.Perm.Basic

/-! The elements of a list are taken in their order. One that an earlier leader covers follows, and any other leads. -/

namespace Lib.GreedyCover
variable {α : Type} (covers : α → α → Bool)

structure Cover (α : Type) where
  leaders : List α
  followers : List α
  deriving DecidableEq

def takeNext (cover : Cover α) (next : α) : Cover α :=
  if cover.leaders.any (covers · next) then { cover with followers := next :: cover.followers }
  else { cover with leaders := next :: cover.leaders }

def greedyCover (elements : List α) : Cover α := elements.foldl (takeNext covers) { leaders := [], followers := [] }

theorem greedyCover_concat (elements : List α) (next : α) :
    greedyCover covers (elements ++ [next]) = takeNext covers (greedyCover covers elements) next :=
  List.foldl_concat ..

theorem greedyCover_perm (elements : List α) :
    ((greedyCover covers elements).leaders ++ (greedyCover covers elements).followers).Perm elements := by
  induction elements using List.reverseRecOn with
  | nil => exact .refl _
  | append_singleton elements next ih =>
    rw [greedyCover_concat, takeNext]
    have added := (ih.cons next).trans (List.perm_append_singleton next elements).symm
    split
    · exact List.perm_middle.trans added
    · exact added

end Lib.GreedyCover
