import Mathlib.Data.List.Infix

/-!
Marks are words that start with a character they do not have again, none of them at the start of another. What stands between the
marks of a text can be told from the text.
-/

namespace Lib.Marks
open List Option Function

structure MarkSet (α : Type) where
  words : List (List α)
  head : α
  starts : ∀ word ∈ words, ∃ tail, word = head :: tail ∧ head ∉ tail
  apart : ∀ first ∈ words, ∀ second ∈ words, first <+: second → first = second

section Cuts
variable {α : Type}

def MarkSet.Foreign (marks : MarkSet α) (c : α) : Prop := ∀ word ∈ marks.words, c ∉ word.tail

def MarkSet.Cut (marks : MarkSet α) (text : List α) : Prop := ∀ c rest, text = c :: rest → marks.Foreign c

variable {marks : MarkSet α}

theorem MarkSet.foreign_head : marks.Foreign marks.head := by
  intro word member
  obtain ⟨tail, rfl, absent⟩ := marks.starts word member
  exact absent

theorem MarkSet.cut_nil : marks.Cut [] := fun _ _ impossible => by cases impossible

theorem MarkSet.cut_cons {c : α} (foreign : marks.Foreign c) (rest : List α) : marks.Cut (c :: rest) := by
  intro d others same
  rwa [← head_eq_of_cons_eq same]

theorem MarkSet.cut_word {word : List α} (member : word ∈ marks.words) (rest : List α) : marks.Cut (word ++ rest) := by
  obtain ⟨tail, rfl, -⟩ := marks.starts word member
  exact marks.cut_cons marks.foreign_head _

theorem MarkSet.isPrefix_cut {word front text : List α} (member : word ∈ marks.words) (some_ : front ≠ []) (cut : marks.Cut text)
    (isPrefix : word <+: front ++ text) : word <+: front := by
  rcases prefix_or_prefix_of_prefix isPrefix (prefix_append front text) with inside | ⟨reach, rfl⟩
  · exact inside
  · cases reach with
    | nil => rw [append_nil]
    | cons c reach =>
      obtain ⟨rest, rfl⟩ := (prefix_append_right_inj front).mp isPrefix
      obtain ⟨d, front, rfl⟩ := exists_cons_of_ne_nil some_
      exact absurd (by simp) (cut c _ rfl _ member)

end Cuts

variable {α : Type} [DecidableEq α]

def MarkSet.startsIn (marks : MarkSet α) (text : List α) : Bool := marks.words.any fun word => word.isPrefixOf text

def MarkSet.count (marks : MarkSet α) : List α → Nat
  | [] => 0
  | c :: rest => (if marks.startsIn (c :: rest) then 1 else 0) + marks.count rest

def find (word : List α) : List α → Option Nat
  | [] => if word = [] then some 0 else none
  | c :: rest => if word.isPrefixOf (c :: rest) then some 0 else (find word rest).map (· + 1)

def join : List (List α × List α) → List α
  | [] => []
  | (word, text) :: parts => word ++ (text ++ join parts)

variable {marks : MarkSet α}

theorem MarkSet.startsIn_iff {text : List α} : marks.startsIn text = true ↔ ∃ word ∈ marks.words, word <+: text := by
  simp [startsIn]

theorem MarkSet.startsIn_append {text : List α} (starts : marks.startsIn text = true) (rest : List α) :
    marks.startsIn (text ++ rest) = true := by
  obtain ⟨word, member, isPrefix⟩ := startsIn_iff.mp starts
  exact startsIn_iff.mpr ⟨word, member, isPrefix.trans (prefix_append _ _)⟩

theorem MarkSet.startsIn_plain {c : α} (plain : c ≠ marks.head) (rest : List α) : marks.startsIn (c :: rest) = false := by
  by_contra starts
  rw [Bool.not_eq_false] at starts
  obtain ⟨word, member, isPrefix⟩ := startsIn_iff.mp starts
  obtain ⟨tail, rfl, -⟩ := marks.starts word member
  exact plain (cons_prefix_cons.mp isPrefix).1.symm

theorem MarkSet.startsIn_cut {front text : List α} (some_ : front ≠ []) (cut : marks.Cut text) :
    marks.startsIn (front ++ text) = marks.startsIn front := by
  rw [Bool.eq_iff_iff]
  refine ⟨fun starts => ?_, fun starts => marks.startsIn_append starts text⟩
  obtain ⟨word, member, isPrefix⟩ := startsIn_iff.mp starts
  exact startsIn_iff.mpr ⟨word, member, marks.isPrefix_cut member some_ cut isPrefix⟩

theorem MarkSet.count_append_le (front text : List α) : marks.count front + marks.count text ≤ marks.count (front ++ text) := by
  induction front with
  | nil => simp [count]
  | cons c front ih =>
    rw [cons_append, count, count]
    by_cases starts : marks.startsIn (c :: front) = true
    · have longer := marks.startsIn_append starts text
      rw [cons_append] at longer
      rw [if_pos starts, if_pos longer]
      omega
    · rw [if_neg starts]
      omega

theorem MarkSet.count_cut (front : List α) {text : List α} (cut : marks.Cut text) :
    marks.count (front ++ text) = marks.count front + marks.count text := by
  induction front with
  | nil => simp [count]
  | cons c front ih =>
    have starts := @startsIn_cut _ _ marks (c :: front) text (cons_ne_nil _ _) cut
    rw [cons_append] at starts ⊢
    rw [count, count, starts, ih, Nat.add_assoc]

theorem MarkSet.count_plain {front : List α} (plain : marks.head ∉ front) (text : List α) : marks.count (front ++ text) = marks.count text := by
  induction front with
  | nil => rfl
  | cons c front ih =>
    rw [mem_cons, not_or] at plain
    rw [cons_append, count, marks.startsIn_plain (Ne.symm plain.1), if_neg Bool.false_ne_true, ih plain.2, Nat.zero_add]

theorem MarkSet.count_word {word : List α} (member : word ∈ marks.words) (text : List α) :
    marks.count (word ++ text) = 1 + marks.count text := by
  obtain ⟨tail, rfl, absent⟩ := marks.starts word member
  have starts : marks.startsIn (marks.head :: (tail ++ text)) = true := startsIn_iff.mpr ⟨_, member, prefix_append _ _⟩
  rw [cons_append, count, if_pos starts, marks.count_plain absent]

def MarkSet.Clean (marks : MarkSet α) (parts : List (List α × List α)) : Prop := ∀ part ∈ parts, part.1 ∈ marks.words ∧ marks.count part.2 = 0

theorem MarkSet.cut_join {parts : List (List α × List α)} (clean : marks.Clean parts) : marks.Cut (join parts) := by
  cases parts with
  | nil => exact marks.cut_nil
  | cons part parts => exact marks.cut_word (clean part mem_cons_self).1 _

theorem MarkSet.count_join {parts : List (List α × List α)} (clean : marks.Clean parts) : marks.count (join parts) = parts.length := by
  induction parts with
  | nil => rfl
  | cons part parts ih =>
    obtain ⟨here, later⟩ := forall_mem_cons.mp clean
    rw [join, marks.count_word here.1, marks.count_cut _ (marks.cut_join later), here.2, ih later, length_cons]
    omega

theorem MarkSet.front_unique {front other : List α} {parts others : List (List α × List α)} (isFront : marks.count other = 0)
    (clean : marks.Clean parts) (cleanOthers : marks.Clean others) (same : front ++ join parts = other ++ join others)
    (short : front.length ≤ other.length) : front = other := by
  obtain ⟨more, rfl⟩ : front <+: other :=
    prefix_of_prefix_length_le ⟨_, same⟩ (prefix_append other (join others)) short
  cases more with
  | nil => rw [append_nil]
  | cons c more =>
    rw [append_assoc, append_cancel_left_eq] at same
    cases parts with
    | nil => cases same
    | cons part parts =>
      -- The first mark would be in the longer one.
      have starts : marks.startsIn (c :: more ++ join others) = true :=
        startsIn_iff.mpr ⟨part.1, (clean part mem_cons_self).1, same ▸ prefix_append _ _⟩
      rw [marks.startsIn_cut (cons_ne_nil _ _) (marks.cut_join cleanOthers)] at starts
      have bound := @MarkSet.count_append_le _ _ marks front (c :: more)
      rw [isFront, count, if_pos starts] at bound
      omega

theorem MarkSet.join_injective {front other : List α} {parts others : List (List α × List α)} (isFront : marks.count front = 0)
    (isOther : marks.count other = 0) (clean : marks.Clean parts) (cleanOthers : marks.Clean others)
    (same : front ++ join parts = other ++ join others) : front = other ∧ parts = others := by
  induction parts generalizing front other others with
  | nil =>
    have counts := congrArg marks.count same
    rw [marks.count_cut _ (marks.cut_join clean), marks.count_cut _ (marks.cut_join cleanOthers), isFront, isOther,
      marks.count_join clean, marks.count_join cleanOthers, length_nil] at counts
    obtain rfl : others = [] := length_eq_zero_iff.mp (by omega)
    exact ⟨by simpa [join] using same, rfl⟩
  | cons part parts ih =>
    have isSame : front = other := by
      rcases Nat.le_total front.length other.length with short | short
      · exact marks.front_unique isOther clean cleanOthers same short
      · exact (marks.front_unique isFront cleanOthers clean same.symm short).symm
    subst isSame
    rw [append_cancel_left_eq] at same
    cases others with
    | nil =>
      have counts := congrArg marks.count same
      rw [marks.count_join clean, marks.count_join cleanOthers] at counts
      cases counts
    | cons second others =>
      obtain ⟨word, text⟩ := part
      obtain ⟨otherWord, otherText⟩ := second
      obtain ⟨here, later⟩ := forall_mem_cons.mp clean
      obtain ⟨otherHere, otherLater⟩ := forall_mem_cons.mp cleanOthers
      have isWord : word = otherWord := by
        have prefixes : word <+: join ((otherWord, otherText) :: others) := same ▸ prefix_append _ _
        rcases prefix_or_prefix_of_prefix prefixes (prefix_append _ _) with inside | inside
        · exact marks.apart word here.1 otherWord otherHere.1 inside
        · exact (marks.apart otherWord otherHere.1 word here.1 inside).symm
      subst isWord
      rw [join, join, append_cancel_left_eq] at same
      obtain ⟨rfl, rfl⟩ := ih here.2 otherHere.2 later otherLater same
      exact ⟨rfl, rfl⟩

theorem find_le {word text : List α} {place : Nat} (found : find word text = some place) : place ≤ text.length := by
  induction text generalizing place with
  | nil =>
    rw [find] at found
    split at found <;> cases found
    exact Nat.le_refl _
  | cons c text ih =>
    rw [find] at found
    split at found
    · cases found
      exact Nat.zero_le _
    · obtain ⟨later, isLater, rfl⟩ := map_eq_some_iff.mp found
      exact Nat.succ_le_succ (ih isLater)

theorem find_here (word text : List α) : find word (word ++ text) = some 0 := by
  cases word with
  | nil => cases text <;> simp [find]
  | cons c word => rw [cons_append, find, if_pos (by simp)]

theorem MarkSet.find_clean {word front text : List α} (member : word ∈ marks.words) (clean : marks.count front = 0)
    (cut : marks.Cut text) : find word (front ++ text) = (find word text).map (front.length + ·) := by
  induction front with
  | nil => simp
  | cons c front ih =>
    rw [count] at clean
    have notHere : ¬ word <+: c :: (front ++ text) := by
      intro isPrefix
      have inside := @MarkSet.isPrefix_cut _ marks word (c :: front) text member (cons_ne_nil _ _) cut isPrefix
      rw [if_pos (startsIn_iff.mpr ⟨word, member, inside⟩)] at clean
      omega
    rw [cons_append, find, if_neg (by simpa using notHere), ih (by omega), Option.map_map]
    congr 1
    funext place
    simp only [comp_apply, length_cons]
    omega

theorem MarkSet.find_plain {word front : List α} (member : word ∈ marks.words) (plain : marks.head ∉ front) (text : List α) :
    find word (front ++ text) = (find word text).map (front.length + ·) := by
  induction front with
  | nil => simp
  | cons c front ih =>
    rw [mem_cons, not_or] at plain
    have notHere : ¬ word <+: c :: (front ++ text) := by
      intro isPrefix
      obtain ⟨tail, rfl, -⟩ := marks.starts word member
      exact plain.1 (cons_prefix_cons.mp isPrefix).1
    rw [cons_append, find, if_neg (by simpa using notHere), ih plain.2, Option.map_map]
    congr 1
    funext place
    simp only [comp_apply, length_cons]
    omega

theorem MarkSet.find_other {word other : List α} (member : word ∈ marks.words) (isOther : other ∈ marks.words) (differ : word ≠ other)
    (text : List α) : find word (other ++ text) = (find word text).map (other.length + ·) := by
  have notHere : ¬ word <+: other ++ text := by
    intro isPrefix
    rcases prefix_or_prefix_of_prefix isPrefix (prefix_append _ _) with inside | inside
    · exact differ (marks.apart word member other isOther inside)
    · exact differ (marks.apart other isOther word member inside).symm
  obtain ⟨tail, rfl, absent⟩ := marks.starts other isOther
  rw [cons_append] at notHere ⊢
  rw [find, if_neg (by simpa using notHere), marks.find_plain member absent, Option.map_map]
  congr 1
  funext place
  simp only [comp_apply, length_cons]
  omega

theorem MarkSet.find_join {word front : List α} {parts later : List (List α × List α)} (member : word ∈ marks.words)
    (isFront : marks.count front = 0) (clean : marks.Clean (parts ++ later)) (others : ∀ part ∈ parts, part.1 ≠ word) :
    find word (front ++ join (parts ++ later)) = (find word (join later)).map ((front ++ join parts).length + ·) := by
  induction parts generalizing front with
  | nil =>
    rw [nil_append] at clean ⊢
    rw [join, append_nil, marks.find_clean member isFront (marks.cut_join clean)]
  | cons part parts ih =>
    obtain ⟨here, rest⟩ := forall_mem_cons.mp clean
    obtain ⟨differ, distinct⟩ := forall_mem_cons.mp others
    rw [marks.find_clean member isFront (marks.cut_join clean), cons_append, join,
      marks.find_other member here.1 (Ne.symm differ), ih here.2 rest distinct, Option.map_map, Option.map_map, join]
    congr 1
    funext place
    simp only [comp_apply, length_append]
    omega

end Lib.Marks
