import Mathlib.Algebra.Order.BigOperators.Group.List
import Mathlib.Algebra.Order.Group.Nat

/-!
Two patterns that accept the same words have the same letters and the same single characters in the same order: the shortest
words that a pattern accepts determine them.
-/

namespace Lib.Wildcards
open List
variable {α : Type}

inductive Item (α : Type) where
  | letter (c : α)
  | one
  | any
  deriving DecidableEq

def Item.isFixed : Item α → Bool
  | .letter _ => true
  | .one => true
  | .any => false

def core (items : List (Item α)) : List (Item α) := items.filter Item.isFixed

theorem core_fixed {item : Item α} (isFixed : item.isFixed = true) (items : List (Item α)) :
    core (item :: items) = item :: core items := filter_cons_of_pos isFixed

theorem core_any (items : List (Item α)) : core (.any :: items) = core items := rfl

theorem core_flatMap {β : Type} (pieces : β → List (Item α)) (parts : List β) :
    core (parts.flatMap pieces) = parts.flatMap fun part => core (pieces part) := filter_flatMap

def Item.Accepts : Item α → α → Prop
  | .letter c, d => d = c
  | .one, _ => True
  | .any, _ => False

/-- A character that an item accepts, `x` where it is free. -/
def Item.sample (x : α) : Item α → α
  | .letter c => c
  | _ => x

variable {x : α} {first second items : List (Item α)} {allowed : α → Prop}

theorem eq_of_accepts {first second : Item α} {y : α} (different : x ≠ y)
    (inSecond : second.Accepts (first.sample x) ∧ second.Accepts (first.sample y))
    (inFirst : first.Accepts (second.sample x) ∧ first.Accepts (second.sample y)) : first = second := by
  cases first <;> cases second <;> simp_all [Item.Accepts, Item.sample]

theorem eq_of_forall_accepts {y : α} (different : x ≠ y)
    (inSecond : ∀ z, z = x ∨ z = y → Forall₂ Item.Accepts second (first.map (Item.sample z)))
    (inFirst : ∀ z, z = x ∨ z = y → Forall₂ Item.Accepts first (second.map (Item.sample z))) : first = second := by
  induction first generalizing second with
  | nil =>
    cases second with
    | nil => rfl
    | cons item second => cases inSecond x (Or.inl rfl)
  | cons item first ih =>
    cases second with
    | nil => cases inFirst x (Or.inl rfl)
    | cons other second =>
      simp only [List.map_cons, forall₂_cons] at inSecond inFirst
      have head := eq_of_accepts different ⟨(inSecond x (Or.inl rfl)).1, (inSecond y (Or.inr rfl)).1⟩
        ⟨(inFirst x (Or.inl rfl)).1, (inFirst y (Or.inr rfl)).1⟩
      rw [head, ih (fun z which => (inSecond z which).2) fun z which => (inFirst z which).2]

/-- A word of a pattern, with `x` where it is free, and `count` times in place of any number of characters. -/
def filled (x : α) (count : Nat) (items : List (Item α)) : List α :=
  items.flatMap fun item => if item.isFixed then [item.sample x] else List.replicate count x

theorem filled_zero (x : α) (items : List (Item α)) : filled x 0 items = (core items).map (Item.sample x) := by
  induction items with
  | nil => rfl
  | cons item items ih =>
    rw [filled, List.flatMap_cons, ← filled, ih]
    cases item with
    | any => rfl
    | letter c => rfl
    | one => rfl

theorem length_filled (x : α) (count : Nat) (hasAny : .any ∈ items) : count ≤ (filled x count items).length := by
  obtain ⟨front, rest, rfl⟩ := append_of_mem hasAny
  simp only [filled, flatMap_append, List.flatMap_cons, length_append, Item.isFixed, Bool.false_eq_true, if_false,
    length_replicate]
  omega

def LettersIn (allowed : α → Prop) (items : List (Item α)) : Prop := ∀ c, .letter c ∈ items → allowed c

theorem filled_allowed (free : allowed x) (count : Nat) (letters : LettersIn allowed items) :
    ∀ c ∈ filled x count items, allowed c := by
  intro c member
  obtain ⟨item, isItem, inItem⟩ := mem_flatMap.mp member
  cases item with
  | letter d =>
    obtain rfl : c = d := by simpa [Item.isFixed, Item.sample] using inItem
    exact letters c isItem
  | one =>
    obtain rfl : c = x := by simpa [Item.isFixed, Item.sample] using inItem
    exact free
  | any =>
    obtain rfl : c = x := eq_of_mem_replicate (by simpa [Item.isFixed] using inItem)
    exact free

variable [DecidableEq α]

def matchItems : List (Item α) → List α → Bool
  | [], word => word.isEmpty
  | .any :: items, word => (List.range (word.length + 1)).any fun count => matchItems items (word.drop count)
  | .letter _ :: _, [] => false
  | .letter c :: items, d :: word => decide (d = c) && matchItems items word
  | .one :: _, [] => false
  | .one :: items, _ :: word => matchItems items word

variable {word : List α}

theorem matchItems_any :
    matchItems (.any :: items) word = true ↔ ∃ front rest, word = front ++ rest ∧ matchItems items rest = true := by
  rw [matchItems, List.any_eq_true]
  constructor
  · rintro ⟨count, _, accepted⟩
    exact ⟨word.take count, word.drop count, (take_append_drop count word).symm, accepted⟩
  · rintro ⟨front, rest, rfl, accepted⟩
    refine ⟨front.length, ?_, ?_⟩
    · rw [List.mem_range, length_append]
      omega
    · rwa [drop_left]

theorem matchItems_fixed {item : Item α} (isFixed : item.isFixed = true) :
    matchItems (item :: items) word = true ↔ ∃ c rest, word = c :: rest ∧ item.Accepts c ∧ matchItems items rest = true := by
  cases item with
  | any => cases isFixed
  | letter c => cases word <;> simp [matchItems, Item.Accepts]
  | one => cases word <;> simp [matchItems, Item.Accepts]

theorem length_core_le (accepted : matchItems items word = true) : (core items).length ≤ word.length := by
  induction items generalizing word with
  | nil => exact Nat.zero_le _
  | cons item items ih =>
    by_cases isFixed : item.isFixed = true
    · obtain ⟨c, rest, rfl, _, accepted⟩ := (matchItems_fixed isFixed).mp accepted
      rw [core_fixed isFixed]
      exact Nat.succ_le_succ (ih accepted)
    · obtain rfl : item = .any := by cases item <;> simp_all [Item.isFixed]
      obtain ⟨front, rest, rfl, tail⟩ := matchItems_any.mp accepted
      rw [core_any, length_append]
      exact (ih tail).trans (Nat.le_add_left ..)

theorem accepts_core (accepted : matchItems items word = true) (shortest : word.length = (core items).length) :
    Forall₂ Item.Accepts (core items) word := by
  induction items generalizing word with
  | nil =>
    rw [length_eq_zero_iff.mp shortest]
    exact Forall₂.nil
  | cons item items ih =>
    by_cases isFixed : item.isFixed = true
    · obtain ⟨c, rest, rfl, accepts, accepted⟩ := (matchItems_fixed isFixed).mp accepted
      rw [core_fixed isFixed] at shortest ⊢
      exact Forall₂.cons accepts (ih accepted (Nat.succ.inj shortest))
    · obtain rfl : item = .any := by cases item <;> simp_all [Item.isFixed]
      obtain ⟨front, rest, rfl, tail⟩ := matchItems_any.mp accepted
      have least := length_core_le tail
      rw [core_any] at shortest ⊢
      rw [length_append] at shortest
      obtain rfl : front = [] := length_eq_zero_iff.mp (by omega)
      exact ih tail (by simpa using shortest)

theorem length_eq_of_fixed (noAny : .any ∉ items) (accepted : matchItems items word = true) :
    word.length = items.length := by
  induction items generalizing word with
  | nil => exact length_eq_zero_iff.mpr (List.isEmpty_iff.mp accepted)
  | cons item items ih =>
    rw [mem_cons, not_or] at noAny
    have isFixed : item.isFixed = true := by cases item <;> simp_all [Item.isFixed]
    obtain ⟨c, rest, rfl, _, accepted⟩ := (matchItems_fixed isFixed).mp accepted
    exact congrArg Nat.succ (ih noAny.2 accepted)

theorem matchItems_filled (x : α) (count : Nat) (items : List (Item α)) : matchItems items (filled x count items) = true := by
  induction items with
  | nil => rfl
  | cons item items ih =>
    cases item with
    | any => exact matchItems_any.mpr ⟨replicate count x, filled x count items, rfl, ih⟩
    | letter c => exact (matchItems_fixed rfl).mpr ⟨c, filled x count items, rfl, rfl, ih⟩
    | one => exact (matchItems_fixed rfl).mpr ⟨x, filled x count items, rfl, trivial, ih⟩

def Agree (allowed : α → Prop) (first second : List (Item α)) : Prop :=
  ∀ word, (∀ c ∈ word, allowed c) → matchItems first word = matchItems second word

theorem Agree.symm (agree : Agree allowed first second) :
    Agree allowed second first := fun word inside => (agree word inside).symm

theorem Agree.length_core_le (agree : Agree allowed first second) (free : allowed x) (letters : LettersIn allowed first) :
    (core second).length ≤ (core first).length := by
  have accepted := matchItems_filled x 0 first
  rw [agree _ (filled_allowed free 0 letters)] at accepted
  have bound := Lib.Wildcards.length_core_le accepted
  rwa [filled_zero, length_map] at bound

theorem Agree.accepts (agree : Agree allowed first second) (free : allowed x) (letters : LettersIn allowed first)
    (same : (core first).length = (core second).length) :
    Forall₂ Item.Accepts (core second) ((core first).map (Item.sample x)) := by
  have accepted := matchItems_filled x 0 first
  rw [agree _ (filled_allowed free 0 letters), filled_zero] at accepted
  exact accepts_core accepted (by rw [length_map, same])

theorem Agree.core_eq (agree : Agree allowed first second) {y : α} (different : x ≠ y)
    (free : ∀ z, z = x ∨ z = y → allowed z) (firstLetters : LettersIn allowed first)
    (secondLetters : LettersIn allowed second) : core first = core second := by
  have isFree := free x (Or.inl rfl)
  have same : (core first).length = (core second).length :=
    le_antisymm (agree.symm.length_core_le isFree secondLetters) (agree.length_core_le isFree firstLetters)
  apply eq_of_forall_accepts different
  · exact fun z which => agree.accepts (free z which) firstLetters same
  · exact fun z which => agree.symm.accepts (free z which) secondLetters same.symm

theorem Agree.any_mem (agree : Agree allowed first second) (free : allowed x) (letters : LettersIn allowed first)
    (hasAny : .any ∈ first) : .any ∈ second := by
  by_contra noAny
  have accepted := matchItems_filled x (second.length + 1) first
  rw [agree _ (filled_allowed free _ letters)] at accepted
  have long := length_filled x (second.length + 1) hasAny
  have lengths := length_eq_of_fixed noAny accepted
  omega

theorem pieces_eq {β γ : Type} {first second : β → List γ} {parts : List β}
    (short : ∀ part ∈ parts, (second part).length ≤ (first part).length)
    (same : parts.flatMap first = parts.flatMap second) : ∀ part ∈ parts, first part = second part := by
  induction parts with
  | nil => simp
  | cons part parts ih =>
    rw [forall_mem_cons] at short
    rw [List.flatMap_cons, List.flatMap_cons] at same
    have rest : (parts.flatMap second).length ≤ (parts.flatMap first).length := by
      rw [length_flatMap, length_flatMap]
      exact sum_le_sum short.2
    have lengths := congrArg List.length same
    rw [length_append, length_append] at lengths
    obtain ⟨head, tail⟩ := append_inj same (by have head := short.1; omega)
    rw [forall_mem_cons]
    exact ⟨head, ih short.2 tail⟩

theorem Agree.pieces {β : Type} {first second : β → List (Item α)} {parts : List β}
    (agree : Agree allowed (parts.flatMap first) (parts.flatMap second)) {y : α} (different : x ≠ y)
    (free : ∀ z, z = x ∨ z = y → allowed z) (firstLetters : LettersIn allowed (parts.flatMap first))
    (secondLetters : LettersIn allowed (parts.flatMap second))
    (short : ∀ part ∈ parts, (core (second part)).length ≤ (core (first part)).length) :
    ∀ part ∈ parts, core (first part) = core (second part) := by
  have same := agree.core_eq different free firstLetters secondLetters
  rw [core_flatMap, core_flatMap] at same
  exact pieces_eq short same

end Lib.Wildcards

/-!
Regular expressions without alternatives: anchors, single characters, and these any number of times. An expression with
both anchors that repeats nothing but free characters accepts what a pattern with wildcards does.
-/

namespace Lib.RegexSearch
open Lib.Wildcards

inductive Atom (α : Type) where
  | char (c : α)
  | point
  deriving DecidableEq

inductive RegexToken (α : Type) where
  | start
  | finish
  | atom (atom : Atom α)
  | star
  deriving DecidableEq

inductive Piece (α : Type) where
  | start
  | finish
  | once (atom : Atom α)
  | many (atom : Atom α)
  deriving DecidableEq

variable {α : Type}

def group : List (RegexToken α) → Option (List (Piece α))
  | [] => some []
  | .start :: rest => (group rest).map (.start :: ·)
  | .finish :: rest => (group rest).map (.finish :: ·)
  | .star :: _ => none
  | .atom atom :: .star :: rest => (group rest).map (.many atom :: ·)
  | .atom atom :: rest => (group rest).map (.once atom :: ·)

section Search
variable [DecidableEq α]

def Atom.accepts : Atom α → α → Bool
  | .char c, d => decide (d = c)
  | .point, _ => true

def matchFrom : List (Piece α) → Bool → List α → Bool
  | [], _, _ => true
  | .start :: pieces, atStart, text => atStart && matchFrom pieces atStart text
  | .finish :: pieces, atStart, text => text.isEmpty && matchFrom pieces atStart text
  | .once _ :: _, _, [] => false
  | .once atom :: pieces, _, c :: text => atom.accepts c && matchFrom pieces false text
  | .many atom :: pieces, atStart, text =>
    (List.range (text.length + 1)).any fun count =>
      (text.take count).all atom.accepts && matchFrom pieces (atStart && count == 0) (text.drop count)

def search (pieces : List (Piece α)) (text : List α) : Bool :=
  (List.range (text.length + 1)).any fun count => matchFrom pieces (count == 0) (text.drop count)

end Search

def itemTokens : Item α → List (RegexToken α)
  | .letter c => [.atom (.char c)]
  | .one => [.atom .point]
  | .any => [.atom .point, .star]

def itemPiece : Item α → Piece α
  | .letter c => .once (.char c)
  | .one => .once .point
  | .any => .many .point

theorem group_once {atom : Atom α} {rest : List (RegexToken α)} (noStar : rest.head? ≠ some .star) :
    group (.atom atom :: rest) = (group rest).map (.once atom :: ·) := by
  cases rest with
  | nil => rfl
  | cons token rest =>
    cases token with
    | star => exact absurd rfl noStar
    | start => rfl
    | finish => rfl
    | atom next => rfl

theorem head_items (items : List (Item α)) : (items.flatMap itemTokens ++ [RegexToken.finish]).head? ≠ some .star := by
  cases items with
  | nil => simp
  | cons item items => cases item <;> simp [itemTokens]

theorem group_items (items : List (Item α)) :
    group (.start :: (items.flatMap itemTokens ++ [.finish])) = some (.start :: (items.map itemPiece ++ [.finish])) := by
  have rest : group (items.flatMap itemTokens ++ [.finish]) = some (items.map itemPiece ++ [.finish]) := by
    induction items with
    | nil => rfl
    | cons item items ih =>
      rw [List.flatMap_cons, List.append_assoc]
      cases item with
      | letter c =>
        change group (.atom (.char c) :: (items.flatMap itemTokens ++ [.finish])) = _
        rw [group_once (head_items items), ih]
        rfl
      | one =>
        change group (.atom .point :: (items.flatMap itemTokens ++ [.finish])) = _
        rw [group_once (head_items items), ih]
        rfl
      | any =>
        change group (.atom .point :: .star :: (items.flatMap itemTokens ++ [.finish])) = _
        rw [group, ih]
        rfl
  rw [group, rest]
  rfl

section Search
variable [DecidableEq α]

theorem matchFrom_items (items : List (Item α)) (atStart : Bool) (text : List α) :
    matchFrom (items.map itemPiece ++ [.finish]) atStart text = matchItems items text := by
  induction items generalizing atStart text with
  | nil => simp [matchFrom, matchItems]
  | cons item items ih =>
    rw [List.map_cons, List.cons_append]
    cases item with
    | letter c =>
      cases text with
      | nil => rfl
      | cons d text => rw [itemPiece, matchFrom, ih, matchItems, Atom.accepts]
    | one =>
      cases text with
      | nil => rfl
      | cons d text => rw [itemPiece, matchFrom, ih, matchItems, Atom.accepts, Bool.true_and]
    | any =>
      have free (front : List α) : front.all Atom.point.accepts = true := List.all_eq_true.mpr fun _ _ => rfl
      simp only [itemPiece, matchFrom, ih, matchItems, free, Bool.true_and]

theorem search_items (items : List (Item α)) (text : List α) :
    search (.start :: (items.map itemPiece ++ [.finish])) text = matchItems items text := by
  have atFront (count : Nat) : matchFrom (.start :: (items.map itemPiece ++ [.finish])) (count == 0) (text.drop count) =
      (count == 0 && matchItems items (text.drop count)) := by rw [matchFrom, matchFrom_items]
  rw [search, Bool.eq_iff_iff, List.any_eq_true]
  constructor
  · rintro ⟨count, _, accepted⟩
    rw [atFront, Bool.and_eq_true, beq_iff_eq] at accepted
    obtain ⟨rfl, accepted⟩ := accepted
    exact accepted
  · intro accepted
    refine ⟨0, List.mem_range.mpr (Nat.succ_pos _), ?_⟩
    rw [atFront]
    exact accepted

end Search

end Lib.RegexSearch
