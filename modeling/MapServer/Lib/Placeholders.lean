import Mathlib.Data.List.Induction

/-!
A text cut at its delimiters is a segment and the segments after it. A segment between two delimiters is a placeholder where a
value is given for it, and replacing it takes the delimiters away.
-/

namespace Lib.Placeholders
open List Option
variable {α : Type}

def collapse (given : List α → Option (List α)) : List α → List (List α) → List (List α)
  | head, name :: next :: rest =>
    match given name with
    | some value => collapse given (head ++ value ++ next) rest
    | none => head :: collapse given name (next :: rest)
  | head, rest => head :: rest

def merges (given : List α → Option (List α)) : List α → List (List α) → List (List α)
  | head, name :: next :: rest =>
    match given name with
    | some value => (if rest = [] then [] else [head ++ value ++ next]) ++ merges given (head ++ value ++ next) rest
    | none => []
  | _, _ => []

def enclosed (rest : List (List α)) : List (List α) := rest.dropLast

def Apart (given : List α → Option (List α)) : List (List α) → Prop
  | [] => True
  | name :: rest =>
    (given name ≠ none → ∀ next ∈ (enclosed rest).head?, given next = none) ∧ (∀ made ∈ merges given name rest, given made = none) ∧
      Apart given rest

variable {given : List α → Option (List α)}

variable {head : List α} {rest : List (List α)}

section Texts
variable [BEq α] [LawfulBEq α] (delimiter : α)

def replaced (given : List α → Option (List α)) (text : List α) : List α :=
  match text.splitOn delimiter with
  | [] => text
  | head :: rest => [delimiter].intercalate (collapse given head rest)

variable {delimiter} {text : List α}

theorem front_unique {front other rest others : List α} (free : delimiter ∉ front) (otherFree : delimiter ∉ other)
    (same : front ++ delimiter :: rest = other ++ delimiter :: others) : front = other := by
  have parts := congrArg (splitOn delimiter) same
  rw [splitOn_append_cons_self_of_not_mem free, splitOn_append_cons_self_of_not_mem otherFree] at parts
  exact (List.cons.inj parts).1

end Texts

end Lib.Placeholders
