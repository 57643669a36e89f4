import MapServer.Label.Glyphs
import MapServer.Lib.Slots

/-!
`msGetNextGlyph` and `msGetUnicodeEntity` of `mapstring.cpp`, byte by byte. A pointer is the list of the bytes from it up to
the terminating zero; nothing is the outcome of a read behind that zero, and of a store outside a buffer.
-/

namespace MapServer.GlyphSplit
open Lib List Option Function

variable (mapentities : List (CString × Nat))

def MAP_ENTITY_NAME_LENGTH_MAX : Nat := 8

structure DigitScan where
  inp : CString
  l : Nat
  val : Nat
  deriving DecidableEq

def scanDigits (isDigit : UInt8 → Bool) (base : Nat) : Nat → DigitScan → Option DigitScan
  | 0, scan => some scan
  | rounds + 1, scan => do
    let byte ← scan.inp.head?
    if isDigit byte then
      scanDigits isDigit base rounds ⟨scan.inp.tail, scan.l + 1, scan.val * base + xdigitValue byte⟩
    else return scan

/-- The end of an entity in digits, which are counted from `first` on. -/
def numberEnd (first : Nat) (scan : DigitScan) : Option (Option (Nat × Nat)) := do
  let byte ← scan.inp.head?
  return if byte = 59 ∧ scan.l > first then some (scan.l + 1, scan.val) else none

/-- The loop over the name of an entity, with the bytes that are in `entity_name_buf`. -/
def scanName : Nat → Nat → CString → CString → Option (Option (Nat × Nat))
  | 0, _, _, _ => some none
  | rounds + 1, l, name, inp => do
    let byte ← inp.head?
    if byte = 0 then return none -- end of string before possible entity
    else if name.length ≥ MAP_ENTITY_NAME_LENGTH_MAX + 1 then none
    else if byte = 59 then
      return (mapentities.find? fun entity => entity.1 = name).map fun entity => (l + 1, entity.2)
    else scanName rounds (l + 1) (name ++ [byte]) inp.tail

def msGetUnicodeEntity (inptr : CString) : Option (Option (Nat × Nat)) := do
  let first ← inptr.head?
  if first ≠ 38 then return none
  let inp := inptr.tail
  let second ← inp.head?
  if second ≠ 35 then scanName mapentities (MAP_ENTITY_NAME_LENGTH_MAX + 1) 1 [] inp
  else
    let inp := inp.tail
    let third ← inp.head?
    if third = 120 ∨ third = 88 then numberEnd 3 (← scanDigits isxdigit 16 5 ⟨inp.tail, 3, 0⟩)
    else numberEnd 2 (← scanDigits isdigit 10 6 ⟨inp, 2, 0⟩)

/-- The result of a call: the number of bytes or -1, the pointer, and the buffer if there is one. -/
structure GlyphStep where
  result : Int
  in_ptr : CString
  out_string : Option (Slots UInt8)

def readBytes (in_ptr : CString) (first count : Nat) : Option CString :=
  if first + count ≤ in_ptr.length then some ((in_ptr.drop first).take count) else none

def storeBytes (out : Slots UInt8) (i : Nat) : CString → Option (Slots UInt8)
  | [] => some out
  | byte :: rest => do storeBytes (← out.store i byte) (i + 1) rest

/-- `count` bytes at the pointer and a zero, if there is a buffer. -/
def copyGlyph (in_ptr : CString) (count : Nat) : Option (Slots UInt8) → Option (Option (Slots UInt8))
  | none => some none
  | some out => do
    let bytes ← readBytes in_ptr 0 count
    let out ← storeBytes out 0 (bytes ++ [0])
    return some out

def rawGlyph (in_ptr : CString) (out_string : Option (Slots UInt8)) : Option GlyphStep := do
  let out ← copyGlyph in_ptr 1 out_string
  return ⟨1, in_ptr.drop 1, out⟩

/-- `count` bytes behind the pointer are trail bytes; the first other byte ends the test. -/
def isContinued (in_ptr : CString) : Nat → Nat → Option Bool
  | _, 0 => some true
  | i, count + 1 => do
    let byte ← in_ptr[i]?
    if byte &&& 0xC0 = 0x80 then isContinued in_ptr (i + 1) count else return false

/-- A sequence of `count` bytes, or the raw byte where it is not continued. -/
def sequenceGlyph (count : Nat) (in_ptr : CString) (out_string : Option (Slots UInt8)) : Option GlyphStep := do
  if ← isContinued in_ptr 1 (count - 1) then
    let out ← copyGlyph in_ptr count out_string
    return ⟨count, in_ptr.drop count, out⟩
  else rawGlyph in_ptr out_string

/-- The sequence of three bytes, where the pointer is moved by `numbytes` between the stores. -/
def threeBytes (numbytes : Nat) (in_ptr : CString) (out_string : Option (Slots UInt8)) : Option GlyphStep := do
  if ← isContinued in_ptr 1 2 then
    match out_string with
    | none => return ⟨3, in_ptr.drop 3, none⟩
    | some out =>
      let lead ← readBytes in_ptr 0 1
      let in_ptr := in_ptr.drop numbytes
      let trail ← readBytes in_ptr 1 2
      let out ← storeBytes out 0 (lead ++ trail ++ [0])
      return ⟨3, in_ptr.drop 3, some out⟩
  else rawGlyph in_ptr out_string

def msGetNextGlyph (in_ptr : CString) (out_string : Option (Slots UInt8)) : Option GlyphStep := do
  let byte ← in_ptr.head?
  if byte = 0 then return ⟨-1, in_ptr, out_string⟩ -- empty string
  match ← msGetUnicodeEntity mapentities in_ptr with
  | some (numbytes, _) =>
    let out ← copyGlyph in_ptr numbytes out_string
    return ⟨numbytes, in_ptr.drop numbytes, out⟩
  | none =>
    let numbytes := 0
    if byte < 0xC0 then rawGlyph in_ptr out_string
    else if byte < 0xE0 then sequenceGlyph 2 in_ptr out_string
    else if byte < 0xF0 then threeBytes numbytes in_ptr out_string
    else if byte < 0xF8 then sequenceGlyph 4 in_ptr out_string
    else if byte < 0xFC then sequenceGlyph 5 in_ptr out_string
    else if byte < 0xFE then sequenceGlyph 6 in_ptr out_string
    else rawGlyph in_ptr out_string

/-- The loop of `msGetNumGlyphs`; nothing when it has not ended after some rounds. -/
def msGetNumGlyphs : Nat → CString → Option Nat
  | 0, _ => none
  | rounds + 1, in_ptr => do
    let glyph ← msGetNextGlyph mapentities in_ptr none
    if glyph.result = -1 then return 0 else return (← msGetNumGlyphs rounds glyph.in_ptr) + 1

def cString (out : Slots UInt8) : CString := (out.front out.size).takeWhile (· ≠ 0)

def glyphs : Nat → CString → Slots UInt8 → Option (List CString)
  | 0, _, _ => none
  | rounds + 1, in_ptr, out => do
    let glyph ← msGetNextGlyph mapentities in_ptr (some out)
    if glyph.result = -1 then return []
    else
      let out ← glyph.out_string
      return cString out :: (← glyphs rounds glyph.in_ptr out)

theorem head?_terminated (text : CString) : (text ++ [0]).head? = some (text.head?.getD 0) := by
  cases text <;> rfl

theorem scanDigits_terminated (isDigit : UInt8 → Bool) (zero : isDigit 0 = false) (base rounds : Nat) (text : CString)
    (l val : Nat) :
    let digits := (text.take rounds).takeWhile isDigit
    scanDigits isDigit base rounds ⟨text ++ [0], l, val⟩ =
      some ⟨text.drop digits.length ++ [0], l + digits.length,
        digits.foldl (fun val c => val * base + xdigitValue c) val⟩ := by
  induction rounds generalizing text l val with
  | zero => simp [scanDigits]
  | succ rounds ih =>
    cases text with
    | nil => simp [scanDigits, zero]
    | cons byte rest =>
      cases isDigit_byte : isDigit byte with
      | true =>
        have others := ih rest (l + 1) (val * base + xdigitValue byte)
        simp [scanDigits, isDigit_byte, others, Nat.add_assoc, Nat.add_comm 1]
      | false => simp [scanDigits, isDigit_byte]

theorem numberEnd_terminated (front base : Nat) (digits after : CString) :
    numberEnd front ⟨after ++ [0], front + digits.length, digits.foldl (fun val c => val * base + xdigitValue c) 0⟩ =
      some (entityNumber front base digits after) := by
  have some_digits : front + digits.length > front ↔ digits ≠ [] := by
    rw [← length_pos_iff]
    omega
  have semicolon : after.head?.getD 0 = 59 ↔ after.head? = some 59 := by
    cases after <;> simp
  simp [numberEnd, entityNumber, some_digits, semicolon, and_comm]

theorem scanName_terminated {mapentities : List (CString × Nat)} {rounds l : Nat} {name text : CString}
    (noZero : (0 : UInt8) ∉ text) (room : name.length + rounds = MAP_ENTITY_NAME_LENGTH_MAX + 1) :
    let more := text.takeWhile (· ≠ 59)
    scanName mapentities rounds l name (text ++ [0]) =
      some (if more.length < rounds ∧ more.length < text.length then
        (mapentities.find? fun entity => entity.1 = name ++ more).map fun entity => (l + more.length + 1, entity.2)
      else none) := by
  induction rounds generalizing l name text with
  | zero => simp [scanName]
  | succ rounds ih =>
    cases text with
    | nil => simp [scanName]
    | cons byte rest =>
      rw [mem_cons, not_or] at noZero
      have within : ¬name.length ≥ MAP_ENTITY_NAME_LENGTH_MAX + 1 := by omega
      have zero : byte ≠ 0 := fun same => noZero.1 same.symm
      by_cases semicolon : byte = 59
      · subst semicolon
        simp [scanName, within]
      · have shorter : (name ++ [byte]).length + rounds = MAP_ENTITY_NAME_LENGTH_MAX + 1 := by
          rw [length_append, length_singleton]
          omega
        have others := @ih (l + 1) _ _ noZero.2 shorter
        simp only [scanName, cons_append, head?_cons, bind_eq_bind, bind_some, zero, within,
          semicolon, if_false, tail_cons]
        rw [others]
        simp [semicolon, Nat.add_assoc, Nat.add_comm 1]

theorem notEntity {mapentities : List (CString × Nat)} {byte : UInt8} (other : byte ≠ 38) (rest : CString) :
    MapServer.msGetUnicodeEntity mapentities (byte :: rest) = none := by
  unfold MapServer.msGetUnicodeEntity
  split
  · rename_i same
    cases same
    exact absurd rfl other
  · rename_i same
    cases same
    exact absurd rfl other
  · rfl

theorem namedEntity {mapentities : List (CString × Nat)} {rest : CString} (named : rest.head? ≠ some 35) :
    let name := rest.takeWhile (· ≠ 59)
    MapServer.msGetUnicodeEntity mapentities (38 :: rest) =
      if name.length ≤ 8 ∧ name.length < rest.length then
        (mapentities.find? fun entity => entity.1 = name).map fun entity => (name.length + 2, entity.2)
      else none := by
  intro name
  unfold MapServer.msGetUnicodeEntity
  split
  · rename_i same
    cases same
    exact absurd rfl named
  · rename_i same
    cases same
    rfl
  · rename_i other
    exact absurd rfl (other rest)

theorem msGetUnicodeEntity_terminated {mapentities : List (CString × Nat)} {text : CString} (noZero : (0 : UInt8) ∉ text) :
    msGetUnicodeEntity mapentities (text ++ [0]) = some (MapServer.msGetUnicodeEntity mapentities text) := by
  cases text with
  | nil => rfl
  | cons first rest =>
    rw [mem_cons, not_or] at noZero
    rw [msGetUnicodeEntity, cons_append, head?_cons, bind_eq_bind, bind_some]
    by_cases ampersand : first = 38
    · subst ampersand
      rw [if_neg (not_not_intro rfl), tail_cons]
      dsimp only
      rw [head?_terminated, bind_some]
      by_cases number : rest.head? = some 35
      · obtain ⟨after, rfl⟩ := head?_eq_some_iff.mp number
        rw [number, getD_some, if_neg (not_not_intro rfl), cons_append, tail_cons, head?_terminated,
          bind_some]
        by_cases hexadecimal : after.head? = some 120 ∨ after.head? = some 88
        · obtain ⟨x, more, rfl⟩ : ∃ x more, after = x :: more := by
            cases after with
            | nil => simp at hexadecimal
            | cons x more => exact ⟨x, more, rfl⟩
          have isX : x = 120 ∨ x = 88 := by simpa using hexadecimal
          have scan := scanDigits_terminated isxdigit rfl 16 5 more 3 0
          rw [head?_cons, getD_some, if_pos isX, cons_append, tail_cons, scan,
            bind_eq_bind, bind_some, numberEnd_terminated, MapServer.msGetUnicodeEntity, if_pos hexadecimal]
          rfl
        · have third : ¬(after.head?.getD 0 = 120 ∨ after.head?.getD 0 = 88) := by
            cases after with
            | nil => decide
            | cons x more => simpa using hexadecimal
          have scan := scanDigits_terminated isdigit rfl 10 6 after 2 0
          dsimp only at scan
          rw [if_neg third, scan, bind_eq_bind, bind_some, numberEnd_terminated,
            MapServer.msGetUnicodeEntity, if_neg hexadecimal]
      · have second : rest.head?.getD 0 ≠ 35 := by
          cases rest with
          | nil => decide
          | cons byte after => simpa using number
        have scan : scanName mapentities (MAP_ENTITY_NAME_LENGTH_MAX + 1) 1 [] (rest ++ [0]) = _ :=
          scanName_terminated noZero.2 rfl
        rw [if_pos second, scan, namedEntity number]
        simp only [nil_append, MAP_ENTITY_NAME_LENGTH_MAX, Nat.lt_succ_iff, Nat.add_comm 1]
    · rw [if_pos ampersand, notEntity ampersand]
      rfl

theorem entityNumber_bounds {front base : Nat} {digits after : CString} {found : Nat × Nat}
    (run : entityNumber front base digits after = some found) :
    found.1 = front + digits.length + 1 ∧ after ≠ [] := by
  unfold entityNumber at run
  split at run
  · rename_i ends
    cases run
    refine ⟨rfl, ?_⟩
    rintro rfl
    cases ends.2
  · cases run

theorem msGetUnicodeEntity_bounds {mapentities : List (CString × Nat)} {text : CString} {found : Nat × Nat}
    (entity : MapServer.msGetUnicodeEntity mapentities text = some found) : found.1 ≤ 10 ∧ found.1 ≤ text.length := by
  unfold MapServer.msGetUnicodeEntity at entity
  split at entity
  · rename_i rest
    split at entity
    · rename_i hexadecimal
      obtain ⟨length, ends⟩ := entityNumber_bounds entity
      have few : ((rest.tail.take 5).takeWhile isxdigit).length ≤ 5 :=
        (List.takeWhile_prefix _).length_le.trans (length_take_le _ _)
      have inside := length_pos_iff.mpr ends
      rw [length_drop, length_tail] at inside
      simp only [length_cons]
      omega
    · obtain ⟨length, ends⟩ := entityNumber_bounds entity
      have few : ((rest.take 6).takeWhile isdigit).length ≤ 6 :=
        (List.takeWhile_prefix _).length_le.trans (length_take_le _ _)
      have inside := length_pos_iff.mpr ends
      rw [length_drop] at inside
      simp only [length_cons]
      omega
  · dsimp only at entity
    split at entity
    · rename_i rest _ fits
      obtain ⟨_, _, rfl⟩ := map_eq_some_iff.mp entity
      simp only [length_cons]
      omega
    · cases entity
  · cases entity

def Roomy : Option (Slots UInt8) → Prop
  | none => True
  | some out => 11 ≤ out.size

def Copied (bytes : CString) : Option (Slots UInt8) → Option (Slots UInt8) → Prop
  | none, none => True
  | some out, some after => after.size = out.size ∧ cString after = bytes
  | _, _ => False

theorem storeBytes_front {bytes : CString} {i : Nat} {out : Slots UInt8} (room : i + bytes.length ≤ out.size) :
    ∃ after, storeBytes out i bytes = some after ∧ after.size = out.size ∧
      after.front (i + bytes.length) = out.front i ++ bytes := by
  induction bytes generalizing i out with
  | nil => exact ⟨out, rfl, rfl, (append_nil _).symm⟩
  | cons byte rest ih =>
    rw [length_cons] at room
    have here := Slots.store_eq (show i < out.size by omega) byte
    obtain ⟨after, stores, size, front⟩ := @ih (i + 1) { out with get := update out.get i byte } (by
      dsimp only
      omega)
    refine ⟨after, by rw [storeBytes, here, bind_eq_bind, bind_some, stores], size, ?_⟩
    rw [length_cons, ← Nat.add_assoc, Nat.add_right_comm, front, Slots.front_succ,
      Slots.front_update_later _ (Nat.le_refl _), append_assoc, singleton_append]
    dsimp only
    rw [update_self]

theorem cString_of_front {out : Slots UInt8} {bytes : CString} (noZero : (0 : UInt8) ∉ bytes)
    (front : out.front (bytes.length + 1) = bytes ++ [0]) (room : bytes.length + 1 ≤ out.size) : cString out = bytes := by
  have split : out.front out.size = bytes ++ 0 :: (out.front out.size).drop (bytes.length + 1) := by
    have start : (out.front out.size).take (bytes.length + 1) = out.front (bytes.length + 1) := by
      rw [Slots.front, ← map_take, take_range, Nat.min_eq_left room]
      rfl
    conv_lhs => rw [← take_append_drop (bytes.length + 1) (out.front out.size), start, front]
    simp
  have dry : ∀ c ∈ bytes, decide (c ≠ 0) = true := by
    intro c member
    rw [decide_eq_true_eq]
    rintro rfl
    exact noZero member
  rw [cString, split, takeWhile_append_of_pos dry]
  simp

theorem storeGlyph {bytes : CString} (noZero : (0 : UInt8) ∉ bytes) (short : bytes.length ≤ 10) {out : Slots UInt8}
    (room : 11 ≤ out.size) :
    ∃ after, storeBytes out 0 (bytes ++ [0]) = some after ∧ after.size = out.size ∧ cString after = bytes := by
  have length : (bytes ++ [0]).length = bytes.length + 1 := by rw [length_append, length_singleton]
  obtain ⟨after, stores, size, front⟩ := storeBytes_front (show 0 + (bytes ++ [0]).length ≤ out.size by omega)
  rw [Nat.zero_add, length] at front
  exact ⟨after, stores, size, cString_of_front noZero front (by omega)⟩

theorem readBytes_terminated {text : CString} {first count : Nat} (inside : first + count ≤ text.length) :
    readBytes (text ++ [0]) first count = some ((text.drop first).take count) := by
  have longer : first + count ≤ (text ++ [0]).length := by
    rw [length_append]
    omega
  rw [readBytes, if_pos longer, drop_append_of_le_length (by omega),
    take_append_of_le_length (by rw [length_drop]; omega)]

/-- A call takes `n` bytes of the text, whatever the buffer is. -/
def TakesGlyph (call : Option (Slots UInt8) → Option GlyphStep) (text : CString) (n : Nat) : Prop :=
  (0 < n ∧ n ≤ 10 ∧ n ≤ text.length) ∧ ∀ out_string, Roomy out_string →
    ∃ after, call out_string = some ⟨n, text.drop n ++ [0], after⟩ ∧ Copied (text.take n) out_string after

section Glyph
variable {text : CString} (noZero : (0 : UInt8) ∉ text) {n : Nat}
include noZero

theorem copyGlyph_terminated (short : n ≤ 10) (inside : n ≤ text.length) {out_string : Option (Slots UInt8)}
    (room : Roomy out_string) :
    ∃ after, copyGlyph (text ++ [0]) n out_string = some after ∧ Copied (text.take n) out_string after := by
  cases out_string with
  | none => exact ⟨none, rfl, trivial⟩
  | some out =>
    have clean : (0 : UInt8) ∉ text.take n := fun member => noZero (mem_of_mem_take member)
    obtain ⟨after, stores, size, content⟩ := storeGlyph clean (by rw [length_take]; omega) room
    refine ⟨some after, ?_, size, content⟩
    rw [copyGlyph, readBytes_terminated (by omega), drop_zero, bind_eq_bind, bind_some, stores]
    rfl

theorem takesGlyph_of_copy (positive : 0 < n) (short : n ≤ 10) (inside : n ≤ text.length) :
    TakesGlyph (fun out_string => do
      let out ← copyGlyph (text ++ [0]) n out_string
      return ⟨n, (text ++ [0]).drop n, out⟩) text n := by
  refine ⟨⟨positive, short, inside⟩, fun out_string room => ?_⟩
  obtain ⟨after, copies, content⟩ := copyGlyph_terminated noZero short inside room
  refine ⟨after, ?_, content⟩
  dsimp only
  rw [copies, drop_append_of_le_length inside]
  rfl

theorem rawGlyph_takes (some_text : text ≠ []) : TakesGlyph (rawGlyph (text ++ [0])) text 1 :=
  takesGlyph_of_copy noZero Nat.one_pos (by decide) (length_pos_iff.mpr some_text)

omit noZero in
theorem isContinued_terminated {i : Nat} (inside : i ≤ text.length) (count : Nat) :
    ∃ continued, isContinued (text ++ [0]) i count = some continued ∧ (continued = true → i + count ≤ text.length) := by
  induction count generalizing i with
  | zero => exact ⟨true, rfl, fun _ => inside⟩
  | succ count ih =>
    rcases Nat.lt_or_eq_of_le inside with before | rfl
    · have byte : (text ++ [0])[i]? = some (text.get ⟨i, before⟩) := by
        rw [getElem?_append_left before, getElem?_eq_getElem before]
        rfl
      rw [isContinued, byte, bind_eq_bind, bind_some]
      split
      · obtain ⟨continued, run, within⟩ := ih (i := i + 1) before
        exact ⟨continued, run, fun all => by have := within all; omega⟩
      · exact ⟨false, rfl, fun impossible => by cases impossible⟩
    · have zero : (text ++ [0])[text.length]? = some 0 := by simp
      rw [isContinued, zero]
      exact ⟨false, rfl, fun impossible => by cases impossible⟩

theorem sequenceGlyph_takes (some_text : text ≠ []) {count : Nat} (short : 0 < count ∧ count ≤ 10) :
    ∃ n, TakesGlyph (sequenceGlyph count (text ++ [0])) text n := by
  have start : 1 ≤ text.length := length_pos_iff.mpr some_text
  obtain ⟨continued, test, within⟩ := isContinued_terminated start (count - 1)
  cases continued with
  | true =>
    have inside := within rfl
    have copies : sequenceGlyph count (text ++ [0]) = fun out_string => do
        let out ← copyGlyph (text ++ [0]) count out_string
        return ⟨count, (text ++ [0]).drop count, out⟩ := by
      funext out_string
      rw [sequenceGlyph, test, bind_eq_bind, bind_some, if_pos rfl]
    rw [copies]
    exact ⟨count, takesGlyph_of_copy noZero short.1 short.2 (by omega)⟩
  | false =>
    have raw : sequenceGlyph count (text ++ [0]) = rawGlyph (text ++ [0]) := by
      funext out_string
      rw [sequenceGlyph, test, bind_eq_bind, bind_some, if_neg Bool.false_ne_true]
    rw [raw]
    exact ⟨1, rawGlyph_takes noZero some_text⟩

theorem threeBytes_takes (some_text : text ≠ []) : ∃ n, TakesGlyph (threeBytes 0 (text ++ [0])) text n := by
  have same : threeBytes 0 (text ++ [0]) = sequenceGlyph 3 (text ++ [0]) := by
    funext out_string
    have start : 1 ≤ text.length := length_pos_iff.mpr some_text
    obtain ⟨continued, test, within⟩ := isContinued_terminated start 2
    rw [threeBytes.eq_def, sequenceGlyph, test, bind_eq_bind, bind_some]
    cases continued with
    | true =>
      have inside := within rfl
      cases out_string with
      | none => rfl
      | some out =>
        have bytes : text.take 3 = text.take 1 ++ (text.drop 1).take 2 := by rw [← take_add]
        have lead := readBytes_terminated (show 0 + 1 ≤ text.length by omega)
        have trail := readBytes_terminated inside
        have all := readBytes_terminated (show 0 + 3 ≤ text.length by omega)
        simp only [copyGlyph, drop_zero, lead, trail, all, bind_eq_bind, bind_some, bytes, if_true]
        cases storeBytes out 0 (text.take 1 ++ (text.drop 1).take 2 ++ [0]) <;> rfl
    | false => rfl
  rw [same]
  exact sequenceGlyph_takes noZero some_text (by decide)

theorem msGetNextGlyph_takes (mapentities : List (CString × Nat)) (some_text : text ≠ []) :
    ∃ n, TakesGlyph (msGetNextGlyph mapentities (text ++ [0])) text n := by
  obtain ⟨byte, rest, rfl⟩ := exists_cons_of_ne_nil some_text
  have positive : byte ≠ 0 := by
    rintro rfl
    exact noZero mem_cons_self
  have entity := @msGetUnicodeEntity_terminated mapentities _ noZero
  cases found : MapServer.msGetUnicodeEntity mapentities (byte :: rest) with
  | some entityFound =>
    have bounds := msGetUnicodeEntity_bounds found
    refine ⟨entityFound.1, ?_⟩
    have copies : msGetNextGlyph mapentities (byte :: rest ++ [0]) = fun out_string => do
        let out ← copyGlyph (byte :: rest ++ [0]) entityFound.1 out_string
        return ⟨entityFound.1, (byte :: rest ++ [0]).drop entityFound.1, out⟩ := by
      funext out_string
      simp only [msGetNextGlyph, cons_append, head?_cons, bind_eq_bind, bind_some, positive, if_false]
      rw [← cons_append, entity, found]
      rfl
    rw [copies]
    exact takesGlyph_of_copy noZero (msGetUnicodeEntity_pos found) bounds.1 bounds.2
  | none =>
    have decodes (out_string : Option (Slots UInt8)) : msGetNextGlyph mapentities (byte :: rest ++ [0]) out_string =
        if byte < 0xC0 then rawGlyph (byte :: rest ++ [0]) out_string
        else if byte < 0xE0 then sequenceGlyph 2 (byte :: rest ++ [0]) out_string
        else if byte < 0xF0 then threeBytes 0 (byte :: rest ++ [0]) out_string
        else if byte < 0xF8 then sequenceGlyph 4 (byte :: rest ++ [0]) out_string
        else if byte < 0xFC then sequenceGlyph 5 (byte :: rest ++ [0]) out_string
        else if byte < 0xFE then sequenceGlyph 6 (byte :: rest ++ [0]) out_string
        else rawGlyph (byte :: rest ++ [0]) out_string := by
      simp only [msGetNextGlyph, cons_append, head?_cons, bind_eq_bind, bind_some, positive, if_false]
      rw [← cons_append, entity, found]
      rfl
    rw [funext decodes]
    by_cases single : byte < 0xC0
    · simp only [single, if_true]
      exact ⟨1, rawGlyph_takes noZero some_text⟩
    by_cases two : byte < 0xE0
    · simp only [single, two, if_true, if_false]
      exact sequenceGlyph_takes noZero some_text (by decide)
    by_cases three : byte < 0xF0
    · simp only [single, two, three, if_true, if_false]
      exact threeBytes_takes noZero some_text
    by_cases four : byte < 0xF8
    · simp only [single, two, three, four, if_true, if_false]
      exact sequenceGlyph_takes noZero some_text (by decide)
    by_cases five : byte < 0xFC
    · simp only [single, two, three, four, five, if_true, if_false]
      exact sequenceGlyph_takes noZero some_text (by decide)
    by_cases six : byte < 0xFE
    · simp only [single, two, three, four, five, six, if_true, if_false]
      exact sequenceGlyph_takes noZero some_text (by decide)
    · simp only [single, two, three, four, five, six, if_false]
      exact ⟨1, rawGlyph_takes noZero some_text⟩

end Glyph

theorem msGetNextGlyph_null (mapentities : List (CString × Nat)) {text : CString} (noZero : (0 : UInt8) ∉ text)
    {out : Slots UInt8} (room : 11 ≤ out.size) :
    (msGetNextGlyph mapentities (text ++ [0]) none).map (fun glyph => (glyph.result, glyph.in_ptr)) =
      (msGetNextGlyph mapentities (text ++ [0]) (some out)).map fun glyph => (glyph.result, glyph.in_ptr) := by
  by_cases some_text : text = []
  · subst some_text
    rfl
  · obtain ⟨n, _, call⟩ := msGetNextGlyph_takes noZero mapentities some_text
    obtain ⟨_, without, _⟩ := call none trivial
    obtain ⟨_, withBuffer, _⟩ := call (some out) room
    rw [without, withBuffer]
    rfl

theorem glyphs_parts (mapentities : List (CString × Nat)) {rounds : Nat} {text : CString} (noZero : (0 : UInt8) ∉ text)
    (enough : text.length < rounds) {out : Slots UInt8} (room : 11 ≤ out.size) :
    ∃ parts, glyphs mapentities rounds (text ++ [0]) out = some parts ∧ parts.flatten = text ∧
      (∀ part ∈ parts, part ≠ [] ∧ part.length + 1 ≤ 11) ∧
      msGetNumGlyphs mapentities rounds (text ++ [0]) = some parts.length := by
  induction rounds generalizing text out with
  | zero => exact absurd enough (Nat.not_lt_zero _)
  | succ rounds ih =>
    by_cases some_text : text = []
    · subst some_text
      exact ⟨[], rfl, rfl, by simp, rfl⟩
    · obtain ⟨n, ⟨positive, short, inside⟩, call⟩ := msGetNextGlyph_takes noZero mapentities some_text
      obtain ⟨after, withBuffer, copied⟩ := call (some out) room
      obtain ⟨_, without, _⟩ := call none trivial
      cases after with
      | none => exact copied.elim
      | some after =>
        obtain ⟨size, content⟩ := copied
        have rest : (0 : UInt8) ∉ text.drop n := fun member => noZero (mem_of_mem_drop member)
        obtain ⟨parts, others, whole, each, count⟩ := ih rest (by rw [length_drop]; omega) (size ▸ room)
        have notEnd : ¬(n : Int) = -1 := by omega
        refine ⟨text.take n :: parts, ?_, ?_, ?_, ?_⟩
        · rw [glyphs, withBuffer, bind_eq_bind, bind_some]
          rw [if_neg notEnd, bind_eq_bind, bind_some, others, content]
          rfl
        · rw [flatten_cons, whole, take_append_drop]
        · rw [forall_mem_cons]
          refine ⟨⟨?_, ?_⟩, each⟩
          · rw [← length_pos_iff, length_take]
            omega
          · rw [length_take]
            omega
        · rw [msGetNumGlyphs, without, bind_eq_bind, bind_some]
          dsimp only
          rw [if_neg notEnd, count]
          rfl

/-- Repeated calls end, stay inside the string and the buffer, and split the string into its glyphs. -/
theorem msGetNextGlyph_splits (mapentities : List (CString × Nat)) {text : CString} (noZero : (0 : UInt8) ∉ text)
    {out : Slots UInt8} (room : 11 ≤ out.size) :
    (∃ parts, glyphs mapentities (text.length + 1) (text ++ [0]) out = some parts ∧ parts.flatten = text ∧
      (∀ part ∈ parts, part ≠ [] ∧ part.length + 1 ≤ 11) ∧
      msGetNumGlyphs mapentities (text.length + 1) (text ++ [0]) = some parts.length) ∧
    ∀ before rest, text = before ++ rest →
      (msGetNextGlyph mapentities (rest ++ [0]) none).map (fun glyph => (glyph.result, glyph.in_ptr)) =
        (msGetNextGlyph mapentities (rest ++ [0]) (some out)).map fun glyph => (glyph.result, glyph.in_ptr) := by
  refine ⟨glyphs_parts mapentities noZero (Nat.lt_succ_self _) room, ?_⟩
  rintro before rest rfl
  exact msGetNextGlyph_null mapentities (fun member => noZero (List.mem_append_right _ member)) room

def mixedText : CString := [97, 38, 35, 52, 59, 0xC3, 0xA9, 0xE2, 0x82]

theorem msGetNextGlyph_splits_mixedText :
    let out : Slots UInt8 := ⟨11, fun _ => 0⟩
    (∃ parts, glyphs [] (mixedText.length + 1) (mixedText ++ [0]) out = some parts ∧ parts.flatten = mixedText ∧
      (∀ part ∈ parts, part ≠ [] ∧ part.length + 1 ≤ 11) ∧
      msGetNumGlyphs [] (mixedText.length + 1) (mixedText ++ [0]) = some parts.length) ∧
    ∀ before rest, mixedText = before ++ rest →
      (msGetNextGlyph [] (rest ++ [0]) none).map (fun glyph => (glyph.result, glyph.in_ptr)) =
        (msGetNextGlyph [] (rest ++ [0]) (some out)).map fun glyph => (glyph.result, glyph.in_ptr) :=
  msGetNextGlyph_splits [] (by decide) (by decide)

end MapServer.GlyphSplit
