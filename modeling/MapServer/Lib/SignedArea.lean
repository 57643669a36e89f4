import Mathlib.Data.List.Basic
import Mathlib.Tactic.Ring

namespace Lib.SignedArea
open List
variable {R : Type} [CommRing R]

def cross (a b : R × R) : R := a.1 * b.2 - b.1 * a.2

def crossSum : List (R × R) → R
  | a :: b :: rest => cross a b + crossSum (b :: rest)
  | _ => 0

end Lib.SignedArea
