import Mathlib.Data.List.Nodup

namespace Lib.FirstMatches
open List
variable {α β : Type}

def limited (limit : Option Nat) (list : List β) : List β :=
  match limit with
  | none => list
  | some most => list.take most

def limitedCount (limit : Option Nat) (count : Nat) : Nat := limit.elim count (min · count)

theorem length_limited (limit : Option Nat) (list : List β) : (limited limit list).length = limitedCount limit list.length := by
  cases limit with
  | none => rfl
  | some most => exact length_take

def HasRoom (limit : Option Nat) (count : Nat) : Prop := ∀ most ∈ limit, count < most

def lessOne (limit : Option Nat) : Option Nat := limit.map (· - 1)

theorem limited_nil (limit : Option Nat) : limited limit ([] : List β) = [] := by
  cases limit with
  | none => rfl
  | some most => exact take_nil

theorem limited_cons {limit : Option Nat} (room : HasRoom limit 0) (value : β) (rest : List β) :
    limited limit (value :: rest) = value :: limited (lessOne limit) rest := by
  cases limit with
  | none => rfl
  | some most =>
    have positive := room most rfl
    show (value :: rest).take most = value :: rest.take (most - 1)
    rw [← take_succ_cons, Nat.sub_add_cancel positive]

end Lib.FirstMatches
