import Mathlib.Data.List.DropRight
import Mathlib.Data.Nat.Find
import Mathlib.Order.WellFounded

namespace Lib.GrowingBuffer
open List Option

structure Item (α : Type) where
  value : α
  checked : Bool

structure Buffer (α : Type) where
  contents : List α
  level : Nat

section Appending
variable {α : Type} (size : Nat → Nat) (slack : Nat)

/-- A checked append keeps more than the slack free; `none` is a store outside of the buffer. -/
def append (buffer : Buffer α) (item : Item α) : Option (Buffer α) :=
  let level :=
    if item.checked ∧ size buffer.level ≤ buffer.contents.length + slack then buffer.level + 1 else buffer.level
  if buffer.contents.length < size level then some ⟨buffer.contents ++ [item.value], level⟩ else none

def appendAll (buffer : Buffer α) (items : List (Item α)) : Option (Buffer α) := items.foldlM (append size slack) buffer

end Appending

section Sizes
variable {size : Nat → Nat} (grows : StrictMono size)

def levelFor (need : Nat) : Nat := Nat.find (⟨need, grows.le_apply⟩ : ∃ level, need ≤ size level)

def roomFor (need : Nat) : Nat := size (levelFor grows need)

theorem le_roomFor (need : Nat) : need ≤ roomFor grows need :=
  Nat.find_spec (⟨need, grows.le_apply⟩ : ∃ level, need ≤ size level)

theorem levelFor_le {need level : Nat} (enough : need ≤ size level) : levelFor grows need ≤ level := Nat.find_min' _ enough

theorem lt_levelFor {need level : Nat} (short : size level < need) : level < levelFor grows need := by
  by_contra notLess
  have enough := (le_roomFor grows need).trans (grows.monotone (Nat.le_of_not_lt notLess))
  omega

theorem levelFor_mono {need more : Nat} (le : need ≤ more) : levelFor grows need ≤ levelFor grows more :=
  levelFor_le grows (le.trans (le_roomFor grows more))

theorem levelFor_next {slack : Nat} (jumps : ∀ level, size level + slack < size (level + 1)) {need place : Nat}
    (inside : place ≤ roomFor grows need) :
    levelFor grows (max need (place + slack + 1)) =
      if size (levelFor grows need) ≤ place + slack then levelFor grows need + 1 else levelFor grows need := by
  have enough := le_roomFor grows need
  have more := jumps (levelFor grows need)
  rw [roomFor] at inside enough
  apply Nat.le_antisymm
  · apply levelFor_le
    split <;> omega
  · split
    · apply lt_levelFor
      omega
    · exact levelFor_mono grows (Nat.le_max_left _ _)

end Sizes

section Room
variable {α : Type} {size : Nat → Nat} (grows : StrictMono size) (slack : Nat)

def needOf (items : List (Item α)) : Nat := (items.rdropWhile fun item => !item.checked).length + slack

def Room (need : Nat) (items : List (Item α)) : Prop :=
  ∀ before item after, items = before ++ item :: after → item.checked = false →
    before.length < roomFor grows (max need (needOf slack before))

theorem needOf_concat (items : List (Item α)) (item : Item α) :
    needOf slack (items ++ [item]) = if item.checked then items.length + 1 + slack else needOf slack items := by
  cases checked : item.checked with
  | true =>
    rw [needOf, rdropWhile_concat_neg _ _ _ (by simp [checked]), if_pos rfl]
    simp
  | false => rw [needOf, rdropWhile_concat_pos _ _ _ (by simp [checked]), if_neg Bool.false_ne_true, needOf]

theorem needOf_le (items : List (Item α)) : needOf slack items ≤ items.length + slack :=
  Nat.add_le_add_right (List.rdropWhile_prefix _ _).length_le slack

theorem room_concat {need : Nat} {items : List (Item α)} {item : Item α} :
    Room grows slack need (items ++ [item]) ↔
      Room grows slack need items ∧ (item.checked = false → items.length < roomFor grows (max need (needOf slack items))) := by
  constructor
  · intro room
    refine ⟨fun before other after same unchecked => ?_, fun unchecked => room items item [] rfl unchecked⟩
    exact room before other (after ++ [item]) (by rw [same, append_assoc, cons_append]) unchecked
  · rintro ⟨room, last⟩ before other after same unchecked
    rcases eq_nil_or_concat after with rfl | ⟨others, final, rfl⟩
    · obtain ⟨rfl, isLast⟩ := append_inj' same rfl
      obtain rfl := (List.cons.inj isLast).1
      exact last unchecked
    · rw [concat_eq_append, ← cons_append, ← append_assoc] at same
      exact room before other others (append_inj' same rfl).1 unchecked

theorem length_le_room {need : Nat} {items : List (Item α)} (room : Room grows slack need items) :
    items.length ≤ roomFor grows (max need (needOf slack items)) := by
  rcases eq_nil_or_concat items with rfl | ⟨before, item, rfl⟩
  · exact Nat.zero_le _
  · rw [concat_eq_append] at room ⊢
    have last := ((room_concat grows slack).mp room).2
    rw [needOf_concat, length_append, length_singleton]
    cases checked : item.checked with
    | true =>
      rw [if_pos rfl]
      have enough := le_roomFor grows (max need (before.length + 1 + slack))
      omega
    | false =>
      rw [if_neg Bool.false_ne_true]
      exact last checked

theorem append_eq (jumps : ∀ level, size level + slack < size (level + 1)) {need : Nat} {contents : List α}
    (inside : contents.length ≤ roomFor grows need) (item : Item α) :
    append size slack ⟨contents, levelFor grows need⟩ item =
      if item.checked then some ⟨contents ++ [item.value], levelFor grows (max need (contents.length + slack + 1))⟩
      else if contents.length < roomFor grows need then some ⟨contents ++ [item.value], levelFor grows need⟩
      else none := by
  rw [append]
  cases checked : item.checked with
  | true =>
    have enough := le_roomFor grows (max need (contents.length + slack + 1))
    rw [roomFor] at enough
    rw [if_pos rfl]
    simp only [true_and]
    rw [← levelFor_next grows jumps inside, if_pos (by omega)]
  | false =>
    rw [if_neg Bool.false_ne_true]
    rfl

/-- The appends are all inside the buffer exactly when there is room, and the buffer is then as large as the checks ask for. -/
theorem appendAll_eq_some_iff (jumps : ∀ level, size level + slack < size (level + 1)) {need : Nat} (atLeast : slack ≤ need)
    (items : List (Item α)) (buffer : Buffer α) :
    appendAll size slack ⟨[], levelFor grows need⟩ items = some buffer ↔
      Room grows slack need items ∧ buffer = ⟨items.map Item.value, levelFor grows (max need (needOf slack items))⟩ := by
  induction items using reverseRecOn generalizing buffer with
  | nil =>
    have start : max need (needOf slack ([] : List (Item α))) = need :=
      Nat.max_eq_left ((needOf_le slack []).trans (by simpa using atLeast))
    rw [start]
    have empty : Room grows slack need ([] : List (Item α)) := by
      intro before item after same
      cases before <;> cases same
    rw [appendAll, foldlM_nil, Option.pure_def, Option.some.injEq, eq_comm, and_iff_right empty, map_nil]
  | append_singleton items item ih =>
    have steps : appendAll size slack ⟨[], levelFor grows need⟩ (items ++ [item]) = some buffer ↔
        Room grows slack need items ∧
          append size slack ⟨items.map Item.value, levelFor grows (max need (needOf slack items))⟩ item = some buffer := by
      rw [appendAll, foldlM_append, bind_eq_bind, bind_eq_some_iff]
      constructor
      · rintro ⟨middle, first, last⟩
        obtain ⟨room, rfl⟩ := (ih middle).mp first
        exact ⟨room, by simpa using last⟩
      · rintro ⟨room, last⟩
        exact ⟨_, (ih _).mpr ⟨room, rfl⟩, by simpa using last⟩
    rw [steps, room_concat, and_assoc]
    refine and_congr_right fun room => ?_
    rw [append_eq grows slack jumps (by rw [length_map]; exact length_le_room grows slack room), needOf_concat,
      length_map, map_append]
    cases checked : item.checked with
    | true =>
      have further : max (max need (needOf slack items)) (items.length + slack + 1) = max need (items.length + 1 + slack) := by
        have le := needOf_le slack items
        omega
      simp [further, eq_comm]
    | false => simp [eq_comm]

end Room

end Lib.GrowingBuffer
