import MapServer.Lib.ByteFile

/-! A text in a buffer runs up to its first zero. `none` is an access outside of the buffer. -/

namespace Lib.TerminatedText
open ByteFile List Option

def textOf (buffer : List UInt8) : List UInt8 := buffer.takeWhile (· != 0)

/-- How many bytes from `pos` on have a property; the scan reads the first that has not. -/
def spanAt (p : UInt8 → Bool) (buffer : List UInt8) (pos : Nat) : Option Nat := (buffer.drop pos).findIdx? fun c => !p c

def strlenAt (buffer : List UInt8) (pos : Nat) : Option Nat := spanAt (· != 0) buffer pos

def moveAt (buffer : List UInt8) (target source count : Nat) : Option (List UInt8) := do
  let bytes ← readAt buffer source count
  storeAt buffer target bytes

/-- `realloc`; nothing is known of the bytes that come to the buffer. -/
def resize (fresh : Nat → UInt8) (buffer : List UInt8) (size : Nat) : List UInt8 :=
  buffer.take size ++ (List.range (size - buffer.length)).map fresh

variable {p : UInt8 → Bool} {c : UInt8} {text : List UInt8}

theorem textOf_append (ended : 0 ∉ text) (rest : List UInt8) : textOf (text ++ 0 :: rest) = text := by
  have run : ∀ c ∈ text, (c != 0) = true := by
    intro c member
    rw [bne_iff_ne]
    exact ne_of_mem_of_not_mem member ended
  rw [textOf, takeWhile_append_of_pos run, takeWhile_cons_of_neg (by simp), append_nil]

theorem spanAt_eq (run : ∀ c ∈ text, p c = true) (stops : p c = false) (before after : List UInt8) :
    spanAt p (before ++ (text ++ c :: after)) before.length = some text.length := by
  rw [spanAt, drop_left]
  induction text with
  | nil => rw [nil_append, findIdx?_cons, stops]; rfl
  | cons d text ih =>
    rw [forall_mem_cons] at run
    rw [cons_append, findIdx?_cons, run.1, ih run.2]
    rfl

theorem strlenAt_eq (ended : 0 ∉ text) (before after : List UInt8) :
    strlenAt (before ++ (text ++ 0 :: after)) before.length = some text.length := by
  apply spanAt_eq _ rfl
  intro c member
  rw [bne_iff_ne]
  exact ne_of_mem_of_not_mem member ended

theorem strlenAt_start (ended : 0 ∉ text) (after : List UInt8) : strlenAt (text ++ 0 :: after) 0 = some text.length :=
  strlenAt_eq ended [] after

theorem storeAt_after {before old after bytes : List UInt8} (length : bytes.length = old.length) :
    storeAt (before ++ (old ++ after)) before.length bytes = some (before ++ (bytes ++ after)) := by
  rw [storeAt, if_pos (by simp [length]), take_left, append_assoc, length, ← append_assoc before old after,
    ← length_append, drop_left]

theorem storeAt_byte (before : List UInt8) (old c : UInt8) (after : List UInt8) :
    storeAt (before ++ old :: after) before.length [c] = some (before ++ c :: after) :=
  @storeAt_after before [old] after [c] rfl

theorem readAt_append (before bytes after : List UInt8) :
    readAt (before ++ (bytes ++ after)) before.length bytes.length = some bytes :=
  readAt_of_holds ⟨before, after, by rw [append_assoc], rfl⟩ rfl

/-- What follows a part of the buffer is moved to another distance from the front; nothing else is known of the end. -/
theorem moveAt_tail {before old kept after : List UInt8} {room : Nat} (inside : room ≤ old.length + after.length) :
    ∃ gap rest, moveAt (before ++ (old ++ (kept ++ after))) (before.length + room) (before.length + old.length) kept.length =
      some (before ++ (gap ++ (kept ++ rest))) ∧ gap.length = room ∧ room + rest.length = old.length + after.length := by
  have read : readAt (before ++ (old ++ (kept ++ after))) (before.length + old.length) kept.length = some kept := by
    have at_ := readAt_append (before ++ old) kept after
    rwa [append_assoc, length_append] at at_
  obtain ⟨tail, isTail⟩ : ∃ tail, tail = old ++ (kept ++ after) := ⟨_, rfl⟩
  have length : tail.length = old.length + (kept.length + after.length) := by
    rw [isTail, length_append, length_append]
  refine ⟨tail.take room, tail.drop (room + kept.length), ?_, ?_, ?_⟩
  · rw [moveAt, read, ← isTail]
    simp only [bind_eq_bind, bind_some]
    rw [storeAt, if_pos (by rw [length_append, length]; omega), take_length_add_append, Nat.add_assoc,
      drop_length_add_append]
    simp only [append_assoc]
  · rw [length_take]
    omega
  · rw [length_drop]
    omega

theorem resize_append (fresh : Nat → UInt8) {text : List UInt8} {size : Nat} (fits : text.length ≤ size) (after : List UInt8) :
    ∃ added, resize fresh (text ++ after) size = text ++ added ∧ text.length + added.length = size := by
  refine ⟨after.take (size - text.length) ++ (List.range (size - (text ++ after).length)).map fresh, ?_, ?_⟩
  · rw [resize, take_append, take_of_length_le fits, append_assoc]
  · simp only [length_append, length_take, length_map, length_range]
    omega

end Lib.TerminatedText
