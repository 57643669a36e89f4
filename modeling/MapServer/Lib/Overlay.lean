import Mathlib.Data.List.DropRight

/-! A value that is stored in a cell of a fixed width replaces as many characters as it has. What is behind it stays. -/

namespace Lib.Overlay
open List Option
variable {α : Type}

def overlay (cell value : List α) : List α := value.take cell.length ++ cell.drop value.length

def content (blank : α) (width : Nat) (values : List (List α)) : List α :=
  values.foldl overlay (List.replicate width blank)

def trim [DecidableEq α] (blank : α) (text : List α) : List α := text.rdropWhile (· == blank)

def latest (values : List (List α)) : List α := values.getLast?.getD []

def NothingStale (blank : α) (width : Nat) (values : List (List α)) : Prop :=
  ∀ earlier value later, values = earlier ++ value :: later → later ≠ [] →
    ∀ (j : Nat) (c : α), j < width → value[j]? = some c → c ≠ blank → ∃ newer ∈ later, j < newer.length

variable {blank : α} {width : Nat}

@[simp] theorem length_overlay (cell value : List α) : (overlay cell value).length = cell.length := by
  unfold overlay
  rw [length_append, length_take, length_drop]
  omega

@[simp] theorem length_content (values : List (List α)) : (content blank width values).length = width := by
  induction values using reverseRecOn with
  | nil => exact length_replicate
  | append_singleton values value ih =>
    rw [content, foldl_append]
    exact (length_overlay _ _).trans ih

theorem content_append (values : List (List α)) (value : List α) :
    content blank width (values ++ [value]) = overlay (content blank width values) value := by
  rw [content, foldl_append]
  rfl

theorem mem_content {values : List (List α)} {c : α} (member : c ∈ content blank width values) :
    c = blank ∨ ∃ value ∈ values, c ∈ value := by
  induction values using reverseRecOn with
  | nil => exact .inl (eq_of_mem_replicate member)
  | append_singleton values value ih =>
    rw [content_append] at member
    rcases mem_append.mp member with new | old
    · exact .inr ⟨value, mem_append_right _ (mem_singleton_self _), mem_of_mem_take new⟩
    · rcases ih (mem_of_mem_drop old) with white | ⟨older, isOlder, inside⟩
      · exact .inl white
      · exact .inr ⟨older, mem_append_left _ isOlder, inside⟩

theorem overlay_get (cell value : List α) {j : Nat} (inside : j < cell.length) :
    (overlay cell value)[j]? = if j < value.length then value[j]? else cell[j]? := by
  unfold overlay
  rw [getElem?_append, length_take]
  by_cases covered : j < value.length
  · rw [if_pos covered, if_pos (by omega), getElem?_take_of_lt inside]
  · rw [if_neg covered, if_neg (by omega), getElem?_drop]
    congr 1
    omega

theorem content_get (values : List (List α)) {j : Nat} (inside : j < width) {c : α} (shown : c ≠ blank) :
    (content blank width values)[j]? = some c ↔ ∃ earlier value later, values = earlier ++ value :: later ∧
      value[j]? = some c ∧ ∀ newer ∈ later, newer.length ≤ j := by
  induction values using reverseRecOn with
  | nil =>
    apply iff_of_false
    · intro found
      rw [content, foldl_nil, getElem?_replicate_of_lt inside] at found
      exact shown (Option.some.inj found).symm
    · rintro ⟨earlier, value, later, impossible, -⟩
      exact absurd impossible (by simp)
  | append_singleton values last ih =>
    rw [content_append, overlay_get _ _ (by rwa [length_content])]
    by_cases covered : j < last.length
    · rw [if_pos covered]
      constructor
      · intro found
        exact ⟨values, last, [], rfl, found, fun newer member => absurd member not_mem_nil⟩
      · rintro ⟨earlier, value, later, split, found, uncovered⟩
        rcases eq_nil_or_concat' later with rfl | ⟨front, final, rfl⟩
        · obtain ⟨-, same⟩ := append_inj' split rfl
          rw [singleton_inj.mp same]
          exact found
        · rw [← cons_append, ← append_assoc] at split
          obtain ⟨-, same⟩ := append_inj' split rfl
          have short := uncovered final (mem_append_right _ (mem_singleton_self _))
          rw [← singleton_inj.mp same] at short
          omega
    · rw [if_neg covered, ih]
      constructor
      · rintro ⟨earlier, value, later, rfl, found, uncovered⟩
        refine ⟨earlier, value, later ++ [last], by simp, found, ?_⟩
        intro newer member
        rcases mem_append.mp member with old | new
        · exact uncovered newer old
        · rw [mem_singleton.mp new]
          omega
      · rintro ⟨earlier, value, later, split, found, uncovered⟩
        rcases eq_nil_or_concat' later with rfl | ⟨front, final, rfl⟩
        · obtain ⟨-, same⟩ := append_inj' split rfl
          rw [← singleton_inj.mp same] at found
          rw [getElem?_eq_none (by omega)] at found
          cases found
        · rw [← cons_append, ← append_assoc] at split
          obtain ⟨rfl, -⟩ := append_inj' split rfl
          exact ⟨earlier, value, front, rfl, found, fun newer member =>
            uncovered newer (mem_append_left _ member)⟩

variable [DecidableEq α]

theorem trim_append_iff (text rest : List α) : trim blank (text ++ rest) = trim blank text ↔ ∀ c ∈ rest, c = blank := by
  induction rest using reverseRecOn with
  | nil => simp
  | append_singleton rest last ih =>
    rw [← append_assoc, trim, rdropWhile_concat]
    by_cases white : last = blank
    · rw [if_pos (by simpa using white)]
      refine ih.trans ⟨fun all c member => ?_, fun all c member => all c (mem_append_left _ member)⟩
      rcases mem_append.mp member with old | new
      · exact all c old
      · rw [mem_singleton.mp new, white]
    · rw [if_neg (by simpa using white)]
      apply iff_of_false
      · intro same
        have short := (List.rdropWhile_prefix (· == blank) text).length_le
        rw [trim] at same
        rw [← same] at short
        simp only [length_append, length_singleton] at short
        omega
      · intro all
        exact white (all last (mem_append_right _ (mem_singleton_self _)))

/-- A cell shows its latest value exactly when nothing of an older one is left behind it. -/
theorem trim_content_iff (values : List (List α)) :
    trim blank (content blank width values) = trim blank ((latest values).take width) ↔
      NothingStale blank width values := by
  rcases eq_nil_or_concat' values with rfl | ⟨front, last, rfl⟩
  · apply iff_of_true
    · have blanks : trim blank (content blank width []) = [] := by
        rw [trim, rdropWhile_eq_nil_iff]
        intro c member
        rw [eq_of_mem_replicate member]
        exact beq_self_eq_true blank
      rw [blanks, latest, getLast?_nil, getD_none, take_nil, trim, rdropWhile_nil]
    · intro earlier value later impossible
      exact absurd impossible (by simp)
  · have newest : latest (front ++ [last]) = last := by
      rw [latest, getLast?_append, getLast?_singleton]
      rfl
    rw [newest, content_append, overlay, length_content, trim_append_iff]
    constructor
    · intro white earlier value later split some_later j c inside found shown
      obtain ⟨middle, final, rfl⟩ := (eq_nil_or_concat' later).resolve_left some_later
      rw [← cons_append, ← append_assoc] at split
      obtain ⟨rfl, same⟩ := append_inj' split rfl
      obtain rfl := singleton_inj.mp same
      by_contra uncovered
      push Not at uncovered
      have short := uncovered last (mem_append_right _ (mem_singleton_self _))
      have visible := (content_get (earlier ++ value :: middle) inside shown).mpr
        ⟨earlier, value, middle, rfl, found, fun newer member => uncovered newer (mem_append_left _ member)⟩
      apply shown
      apply white c
      rw [mem_iff_getElem?]
      refine ⟨j - last.length, ?_⟩
      rw [getElem?_drop, Nat.add_sub_cancel' short]
      exact visible
    · intro fresh c member
      by_contra shown
      obtain ⟨k, found⟩ := mem_iff_getElem?.mp member
      rw [getElem?_drop] at found
      have inside : last.length + k < width := by
        have := (List.getElem?_eq_some_iff.mp found).1
        rwa [length_content] at this
      obtain ⟨earlier, value, later, rfl, visible, uncovered⟩ := (content_get front inside shown).mp found
      obtain ⟨newer, member, covers⟩ := fresh earlier value (later ++ [last]) (by simp) (by simp) _ c inside visible shown
      rcases mem_append.mp member with old | new
      · have short := uncovered newer old
        omega
      · rw [mem_singleton.mp new] at covers
        omega

end Lib.Overlay
