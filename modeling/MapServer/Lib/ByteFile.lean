import Mathlib.Data.List.Basic

/-! Files and buffers as lists of bytes, read and written at a position. -/

namespace Lib.ByteFile
open List

/-- A read of `count` bytes fails when the file ends before them. -/
def readAt (file : List UInt8) (pos count : Nat) : Option (List UInt8) :=
  if pos + count ≤ file.length then some ((file.drop pos).take count) else none

def writeAt (file : List UInt8) (pos : Nat) (bytes : List UInt8) : List UInt8 :=
  (file ++ List.replicate (pos - file.length) 0).take pos ++ bytes ++ file.drop (pos + bytes.length)

def storeAt (buffer : List UInt8) (pos : Nat) (bytes : List UInt8) : Option (List UInt8) :=
  if pos + bytes.length ≤ buffer.length then
    some (buffer.take pos ++ bytes ++ buffer.drop (pos + bytes.length))
  else none

def Holds (file : List UInt8) (pos : Nat) (bytes : List UInt8) : Prop :=
  ∃ before after, file = before ++ bytes ++ after ∧ before.length = pos

variable {bytes file first second buffer : List UInt8} {count pos : Nat}

theorem readAt_of_holds (holds : Holds file pos bytes) (length : bytes.length = count) :
    readAt file pos count = some bytes := by
  obtain ⟨before, after, rfl, rfl⟩ := holds
  simp [readAt, ← length]

theorem take_drop_of_holds (holds : Holds file pos bytes) (length : bytes.length = count) :
    (file.drop pos).take count = bytes := by
  obtain ⟨before, after, rfl, rfl⟩ := holds
  simp [← length]

theorem holds_append : Holds file pos (first ++ second) → Holds file pos first ∧ Holds file (pos + first.length) second := by
  rintro ⟨before, after, rfl, rfl⟩
  exact ⟨⟨before, second ++ after, by simp, rfl⟩, ⟨before ++ first, after, by simp, by simp⟩⟩

theorem holds_of_append (one : Holds file pos first) (two : Holds file (pos + first.length) second) :
    Holds file pos (first ++ second) := by
  obtain ⟨before, after, rfl, rfl⟩ := one
  obtain ⟨start, rest, same, length⟩ := two
  have prefixes : before ++ first = start := by
    apply (append_inj (same.trans (append_assoc ..)) _).1
    rw [length, length_append]
  subst prefixes
  exact ⟨before, rest, by rw [same]; simp only [append_assoc], rfl⟩

theorem holds_append_right (holds : Holds file pos bytes) (rest : List UInt8) : Holds (file ++ rest) pos bytes := by
  obtain ⟨before, after, rfl, rfl⟩ := holds
  exact ⟨before, after ++ rest, by simp only [append_assoc], rfl⟩

theorem holds_flatMap {β : Type} {encode : β → List UInt8} {width : Nat} {table : List β}
    (even : ∀ entry, (encode entry).length = width) (holds : Holds file pos (table.flatMap encode)) {i : Nat}
    (inside : i < table.length) : Holds file (pos + width * i) (encode table[i]) := by
  induction table generalizing pos i with
  | nil => cases inside
  | cons entry rest ih =>
    obtain ⟨here, later⟩ := holds_append holds
    cases i with
    | zero => exact here
    | succ i =>
      rw [even] at later
      have found := ih later (Nat.lt_of_succ_lt_succ inside)
      rwa [Nat.add_assoc, Nat.add_comm width, ← Nat.mul_succ] at found

theorem holds_length (holds : Holds file pos bytes) : pos + bytes.length ≤ file.length := by
  obtain ⟨before, after, rfl, rfl⟩ := holds
  simp

theorem holds_take (holds : Holds file pos bytes) (inside : pos + bytes.length ≤ count) :
    Holds (file.take count) pos bytes := by
  obtain ⟨before, after, rfl, rfl⟩ := holds
  refine ⟨before, after.take (count - (before ++ bytes).length), ?_, rfl⟩
  rw [take_append, take_of_length_le (by simpa using inside)]

theorem holds_of_readAt (reads : readAt file pos count = some bytes) : Holds file pos bytes ∧ bytes.length = count := by
  unfold readAt at reads
  split at reads
  · rename_i inside
    obtain rfl := Option.some.inj reads
    have split : file.take pos ++ (file.drop pos).take count ++ (file.drop pos).drop count = file := by
      rw [append_assoc, take_append_drop, take_append_drop]
    exact ⟨⟨_, _, split.symm, by rw [length_take]; omega⟩, by rw [length_take, length_drop]; omega⟩
  · cases reads

theorem holds_writeAt (file : List UInt8) (pos : Nat) (bytes : List UInt8) : Holds (writeAt file pos bytes) pos bytes := by
  refine ⟨_, _, rfl, ?_⟩
  rw [length_take, length_append, length_replicate]
  omega

theorem writeAt_beside {other : List UInt8} {place : Nat}
    (apart : place + other.length ≤ pos ∨ pos + bytes.length ≤ place) (holds : Holds file place other) :
    Holds (writeAt file pos bytes) place other := by
  obtain ⟨before, rest, rfl, rfl⟩ := holds
  unfold writeAt
  rcases apart with below | above
  · refine ⟨before, (rest ++ replicate (pos - (before ++ other ++ rest).length) 0).take
        (pos - (before ++ other).length) ++ bytes ++ (before ++ other ++ rest).drop (pos + bytes.length), ?_, rfl⟩
    rw [append_assoc (before ++ other), take_append,
      take_of_length_le (by simpa using below)]
    simp only [append_assoc]
  · refine ⟨(before ++ other ++ rest ++ replicate (pos - (before ++ other ++ rest).length) 0).take pos ++ bytes ++
        before.drop (pos + bytes.length), rest, ?_, ?_⟩
    · rw [append_assoc before other rest, drop_append_of_le_length above]
      simp only [append_assoc]
    · simp only [length_append, length_take, length_replicate, length_drop]
      omega

theorem writeAt_tail {start rest : List UInt8} (covers : rest.length ≤ bytes.length) :
    writeAt (start ++ rest) start.length bytes = start ++ bytes := by
  unfold writeAt
  rw [append_assoc start, take_left' rfl, drop_eq_nil_of_le, append_nil]
  rw [length_append]
  omega

theorem writeAt_start {start rest : List UInt8} (length : bytes.length = start.length) :
    writeAt (start ++ rest) 0 bytes = bytes ++ rest := by
  unfold writeAt
  rw [take_zero, nil_append, Nat.zero_add, length, drop_left' rfl]

structure Stored (buffer : List UInt8) (pos : Nat) (bytes after : List UInt8) : Prop where
  length : after.length = buffer.length
  here : Holds after pos bytes
  beside : ∀ {place other}, place + other.length ≤ pos ∨ pos + bytes.length ≤ place →
    Holds buffer place other → Holds after place other

theorem storeAt_stored (buffer : List UInt8) (pos : Nat) (bytes : List UInt8) (inside : pos + bytes.length ≤ buffer.length) :
    ∃ after, storeAt buffer pos bytes = some after ∧ Stored buffer pos bytes after := by
  have start : (buffer.take pos).length = pos := by
    rw [length_take]
    omega
  refine ⟨_, if_pos inside, ?_, ⟨_, _, rfl, start⟩, ?_⟩
  · simp only [length_append, start, length_drop]
    omega
  · rintro place other apart ⟨before, rest, rfl, rfl⟩
    rcases apart with below | above
    · refine ⟨before, rest.take (pos - (before ++ other).length) ++ bytes ++
        (before ++ other ++ rest).drop (pos + bytes.length), ?_, rfl⟩
      rw [take_append, take_of_length_le (by simpa using below)]
      simp only [append_assoc]
    · refine ⟨(before ++ other ++ rest).take pos ++ bytes ++ before.drop (pos + bytes.length), rest, ?_, ?_⟩
      · rw [append_assoc before, drop_append_of_le_length above]
        simp only [append_assoc]
      · rw [length_append, length_append, start, length_drop]
        omega

theorem length_of_storeAt {after : List UInt8} (stores : storeAt buffer pos bytes = some after) :
    after.length = buffer.length := by
  by_cases inside : pos + bytes.length ≤ buffer.length
  · obtain ⟨same, stored, kept⟩ := storeAt_stored buffer pos bytes inside
    obtain rfl := Option.some.inj (stored.symm.trans stores)
    exact kept.length
  · rw [storeAt, if_neg inside] at stores
    cases stores

theorem Stored.trans {middle after : List UInt8} (one : Stored buffer pos first middle)
    (two : Stored middle (pos + first.length) second after) : Stored buffer pos (first ++ second) after := by
  refine ⟨two.length.trans one.length, ?_, fun {place other} apart holds => ?_⟩
  · apply holds_of_append (two.beside (.inl (Nat.le_refl _)) one.here) two.here
  · rw [length_append] at apart
    apply two.beside (by omega)
    exact one.beside (by omega) holds

theorem stored_nil (inside : pos ≤ buffer.length) : Stored buffer pos [] buffer :=
  ⟨rfl, ⟨buffer.take pos, buffer.drop pos, by simp, length_take_of_le inside⟩, fun _ holds => holds⟩

end Lib.ByteFile
