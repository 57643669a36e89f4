import Mathlib.Data.List.DropRight
import MapServer.Lib.TerminatedText
import MapServer.Text

/-!
# The trim functions

Each is there twice, for a C string in a buffer and for a `std::string`. Lengths are below the limit of `int`.
-/

namespace MapServer
open Lib.ByteFile Lib.TerminatedText List Option

namespace CharBuffer

def stepBackwards (string : List UInt8) : Nat → Option (List UInt8)
  | 0 => some string
  | i + 1 => do
    if (← string[i]?) ≠ 32 then storeAt string (i + 1) [0] else stepBackwards string i

def moveToFront (str : List UInt8) : Option (List UInt8) := do
  let i ← spanAt (· == 32) str 0
  if i ≠ 0 then moveAt str 0 i ((← strlenAt str 0) - i + 1) else some str

def msStringTrim (str : List UInt8) : Option (List UInt8) := do
  let str ← moveToFront str
  let length ← strlenAt str 0
  if length = 0 then some str else stepBackwards str length

def skipSpaces (string : List UInt8) : Nat → Nat → Option Nat
  | 0, read => some read
  | turns + 1, read => do
    if isspace (← string[read]?) then skipSpaces string turns (read + 1) else some read

def shiftLeft : Nat → List UInt8 → Nat → Nat → Option (List UInt8)
  | 0, _, _, _ => none
  | turns + 1, string, read, write => do
    let c ← string[read]?
    if c ≠ 0 then shiftLeft turns (← storeAt string write [c]) (read + 1) (write + 1) else storeAt string write [0]

def msStringTrimLeft (string : List UInt8) : Option (List UInt8) := do
  let length ← strlenAt string 0
  if 0 < length then
    let read ← skipSpaces string length 0
    if 0 < read then shiftLeft string.length string read 0 else some string
  else some string

def msStringTrimBlanks (string : List UInt8) : Option (List UInt8) := do
  let n ← strlenAt string 0
  stepBackwards string n

end CharBuffer

namespace StdString

def find_first_not_of (string : CString) (c : UInt8) : Option Nat := string.findIdx? (· != c)

def find_last_not_of (string : CString) (c : UInt8) : Option Nat :=
  (string.reverse.findIdx? (· != c)).map fun fromEnd => string.length - 1 - fromEnd

def erase (string : CString) (pos len : Nat) : CString := string.take pos ++ string.drop (pos + len)

def msStringTrimBlanks (string : CString) : CString :=
  match find_last_not_of string 32 with
  | some npos => string.take (npos + 1)
  | none => string

def msStringTrim (string : CString) : CString :=
  match find_first_not_of string 32 with
  | some npos => msStringTrimBlanks (erase string 0 npos)
  | none => msStringTrimBlanks string

def msStringTrimLeft (string : CString) : CString :=
  match string.findIdx? fun c => !isspace c with
  | some i => if 0 < i then erase string 0 (i - 1) else string
  | none => []

end StdString

def isBlankByte (c : UInt8) : Bool := c == 32

def withoutLastBlanks (text : CString) : CString := if text.all isBlankByte = true then text else text.rdropWhile isBlankByte

theorem withoutLastBlanks_blanks {text : CString} (blanks : ∀ c ∈ text, isBlankByte c = true) : withoutLastBlanks text = text :=
  if_pos (List.all_eq_true.mpr blanks)

theorem withoutLastBlanks_append (text : CString) {c : UInt8} (notBlank : isBlankByte c = false) {blanks : CString}
    (all : ∀ c ∈ blanks, isBlankByte c = true) : withoutLastBlanks (text ++ c :: blanks) = text ++ [c] := by
  have some_ : ¬ (text ++ c :: blanks).all isBlankByte = true := fun every => by
    rw [List.all_eq_true.mp every c (by simp)] at notBlank
    cases notBlank
  rw [withoutLastBlanks, if_neg some_, rdropWhile, reverse_append, reverse_cons, append_assoc,
    dropWhile_append_of_pos (fun d member => all d (mem_reverse.mp member)), singleton_append,
    dropWhile_cons_of_neg (by simp [notBlank]), reverse_cons, reverse_reverse]

theorem blank_or_last (text : CString) : (∀ c ∈ text, isBlankByte c = true) ∨
    ∃ front c blanks, text = front ++ c :: blanks ∧ isBlankByte c = false ∧ ∀ d ∈ blanks, isBlankByte d = true := by
  induction text using reverseRecOn with
  | nil => exact .inl nofun
  | append_singleton text c ih =>
    cases isLast : isBlankByte c with
    | false => exact .inr ⟨text, c, [], rfl, isLast, nofun⟩
    | true =>
      rcases ih with all | ⟨front, d, blanks, rfl, notBlank, all⟩
      · left
        intro d member
        rcases mem_append.mp member with before | here
        · exact all d before
        · rw [mem_singleton.mp here, isLast]
      · refine .inr ⟨front, d, blanks ++ [c], by simp, notBlank, ?_⟩
        intro e member
        rcases mem_append.mp member with before | here
        · exact all e before
        · rw [mem_singleton.mp here, isLast]

theorem withoutLastBlanks_idempotent (text : CString) : withoutLastBlanks (withoutLastBlanks text) = withoutLastBlanks text := by
  rcases blank_or_last text with all | ⟨front, c, blanks, rfl, notBlank, all⟩
  · rw [withoutLastBlanks_blanks all, withoutLastBlanks_blanks all]
  · rw [withoutLastBlanks_append front notBlank all]
    exact withoutLastBlanks_append front notBlank nofun

/-- On each text in a buffer, `function` leaves what `left` says. -/
def Leaves (function : List UInt8 → Option (List UInt8)) (left : CString → CString) : Prop :=
  ∀ text, 0 ∉ text → 0 ∉ left text ∧ ∀ rest, ∃ stale, function (text ++ 0 :: rest) = some (left text ++ 0 :: stale)

section Buffer
variable {text : CString}

theorem stepBackwards_blanks {blanks : CString} (all : ∀ c ∈ blanks, isBlankByte c = true) (front after : List UInt8) :
    CharBuffer.stepBackwards (front ++ (blanks ++ after)) (front.length + blanks.length) =
      CharBuffer.stepBackwards (front ++ (blanks ++ after)) front.length := by
  induction blanks using reverseRecOn generalizing after with
  | nil => rfl
  | append_singleton blanks c ih =>
    have isLast : c = 32 := eq_of_beq (all c (by simp))
    have here : (front ++ (blanks ++ (c :: after)))[front.length + blanks.length]? = some c := by
      rw [← append_assoc, ← length_append, getElem?_append_right (Nat.le_refl _), Nat.sub_self]
      rfl
    rw [append_assoc, singleton_append, length_append, length_singleton, ← Nat.add_assoc,
      CharBuffer.stepBackwards, here, ← ih (fun d member => all d (mem_append_left _ member)) (c :: after)]
    simp [isLast]

theorem stepBackwards_stops (front : List UInt8) {c : UInt8} (notBlank : isBlankByte c = false) (d : UInt8) (after : List UInt8) :
    CharBuffer.stepBackwards (front ++ c :: d :: after) (front.length + 1) = some (front ++ c :: 0 :: after) := by
  have store := storeAt_byte (front ++ [c]) d 0 after
  rw [append_assoc, append_assoc, length_append] at store
  rw [CharBuffer.stepBackwards, getElem?_append_right (Nat.le_refl _), Nat.sub_self, getElem?_cons_zero]
  simp only [bind_eq_bind, bind_some]
  rw [if_pos (by simpa [isBlankByte] using notBlank)]
  exact store

theorem stepBackwards_text (text : CString) (rest : List UInt8) :
    ∃ stale, CharBuffer.stepBackwards (text ++ 0 :: rest) text.length = some (withoutLastBlanks text ++ 0 :: stale) := by
  rcases blank_or_last text with all | ⟨front, c, blanks, rfl, notBlank, all⟩
  · have whole := stepBackwards_blanks all [] (0 :: rest)
    rw [nil_append, length_nil, Nat.zero_add] at whole
    rw [withoutLastBlanks_blanks all]
    exact ⟨rest, whole⟩
  · have whole := stepBackwards_blanks all (front ++ [c]) (0 :: rest)
    rw [length_append, length_singleton, append_assoc, singleton_append] at whole
    rw [withoutLastBlanks_append front notBlank all, append_assoc, cons_append, length_append, length_cons,
      Nat.add_comm blanks.length, ← Nat.add_assoc, whole]
    cases blanks with
    | nil => exact ⟨rest, by rw [nil_append, stepBackwards_stops front notBlank, append_assoc]; rfl⟩
    | cons d blanks =>
      exact ⟨blanks ++ 0 :: rest, by rw [cons_append, stepBackwards_stops front notBlank, append_assoc]; rfl⟩

theorem not_mem_withoutLastBlanks (ended : 0 ∉ text) : 0 ∉ withoutLastBlanks text := by
  unfold withoutLastBlanks
  split
  · exact ended
  · exact fun member => ended ((List.rdropWhile_prefix _ _).subset member)

theorem msStringTrimBlanks_leaves : Leaves CharBuffer.msStringTrimBlanks withoutLastBlanks := by
  intro text ended
  refine ⟨not_mem_withoutLastBlanks ended, fun rest => ?_⟩
  obtain ⟨stale, run⟩ := stepBackwards_text text rest
  refine ⟨stale, ?_⟩
  rw [CharBuffer.msStringTrimBlanks, strlenAt_start ended]
  exact run

theorem dropWhile_stops (p : UInt8 → Bool) (text : CString) : ∀ c ∈ (text.dropWhile p).head?, p c = false := by
  intro c isHead
  have head := head?_dropWhile_not p text
  rw [mem_def.mp isHead] at head
  simpa using head

theorem spanAt_start (p : UInt8 → Bool) (zeroStops : p 0 = false) (text : CString) (rest : List UInt8) :
    spanAt p (text ++ 0 :: rest) 0 = some (text.takeWhile p).length := by
  have run : ∀ c ∈ text.takeWhile p, p c = true := fun c member => mem_takeWhile_imp member
  nth_rw 1 [← @List.takeWhile_append_dropWhile _ p text]
  rw [append_assoc]
  cases isBody : text.dropWhile p with
  | nil => exact spanAt_eq run zeroStops [] rest
  | cons c body =>
    have stops := dropWhile_stops p text
    rw [isBody] at stops
    exact spanAt_eq run (stops c rfl) [] (body ++ 0 :: rest)

theorem moveToFront_eq (ended : 0 ∉ text) (rest : List UInt8) :
    ∃ after, CharBuffer.moveToFront (text ++ 0 :: rest) = some (text.dropWhile isBlankByte ++ 0 :: after) := by
  have parts := @List.takeWhile_append_dropWhile _ isBlankByte text
  have length := congrArg List.length parts
  rw [length_append] at length
  have start : spanAt (· == 32) (text ++ 0 :: rest) 0 = some (text.takeWhile isBlankByte).length := spanAt_start isBlankByte rfl text rest
  unfold CharBuffer.moveToFront
  rw [start]
  simp only [bind_eq_bind, bind_some]
  rw [strlenAt_start ended, bind_some]
  by_cases none_ : (text.takeWhile isBlankByte).length = 0
  · rw [eq_nil_of_length_eq_zero none_, nil_append] at parts
    rw [if_neg (not_not.mpr none_), parts]
    exact ⟨rest, rfl⟩
  · obtain ⟨gap, after, run, isEmpty, -⟩ :=
      @moveAt_tail [] (text.takeWhile isBlankByte) (text.dropWhile isBlankByte ++ [0]) rest 0 (Nat.zero_le _)
    rw [eq_nil_of_length_eq_zero isEmpty, nil_append, nil_append, nil_append, append_assoc,
      append_assoc, ← append_assoc (text.takeWhile isBlankByte), parts, length_append,
      length_singleton, length_nil, Nat.zero_add, Nat.zero_add] at run
    rw [if_pos none_, show text.length - (text.takeWhile isBlankByte).length = (text.dropWhile isBlankByte).length by omega]
    exact ⟨after, run⟩

theorem msStringTrim_leaves : Leaves CharBuffer.msStringTrim fun text => withoutLastBlanks (text.dropWhile isBlankByte) := by
  intro text ended
  have endedBody : 0 ∉ text.dropWhile isBlankByte := fun member => ended ((dropWhile_suffix _).subset member)
  refine ⟨not_mem_withoutLastBlanks endedBody, fun rest => ?_⟩
  obtain ⟨after, moved⟩ := moveToFront_eq ended rest
  obtain ⟨stale, steps⟩ := stepBackwards_text (text.dropWhile isBlankByte) after
  unfold CharBuffer.msStringTrim
  rw [moved]
  simp only [bind_eq_bind, bind_some]
  rw [strlenAt_start endedBody, bind_some]
  by_cases none_ : (text.dropWhile isBlankByte).length = 0
  · rw [if_pos none_, eq_nil_of_length_eq_zero none_]
    exact ⟨after, rfl⟩
  · rw [if_neg none_]
    exact ⟨stale, steps⟩

theorem skipSpaces_eq (before : CString) (all : ∀ c ∈ before, isspace c = true) (after : CString)
    (stops : ∀ c ∈ after.head?, isspace c = false) (front rest : List UInt8) :
    CharBuffer.skipSpaces (front ++ (before ++ (after ++ rest))) (before.length + after.length) front.length =
      some (front.length + before.length) := by
  induction before generalizing front with
  | nil =>
    cases after with
    | nil => rfl
    | cons c after =>
      have here : (front ++ ([] ++ (c :: after ++ rest)))[front.length]? = some c := by
        rw [getElem?_append_right (Nat.le_refl _), Nat.sub_self]
        rfl
      rw [length_nil, Nat.zero_add, length_cons, CharBuffer.skipSpaces, here]
      simp only [bind_eq_bind, bind_some]
      rw [if_neg (by rw [stops c rfl]; exact Bool.false_ne_true)]
      rfl
  | cons c before ih =>
    rw [forall_mem_cons] at all
    have here : (front ++ (c :: before ++ (after ++ rest)))[front.length]? = some c := by
      rw [getElem?_append_right (Nat.le_refl _), Nat.sub_self]
      rfl
    have later := ih all.2 (front ++ [c])
    rw [length_append, length_singleton, append_assoc, singleton_append] at later
    rw [length_cons, Nat.add_right_comm, CharBuffer.skipSpaces, here]
    simp only [bind_eq_bind, bind_some]
    rw [if_pos all.1, Nat.add_comm before.length 1, ← Nat.add_assoc]
    exact later

theorem shiftLeft_eq (ended : 0 ∉ text) (front gap rest : List UInt8) (some_ : gap ≠ []) {turns : Nat} (enough : text.length < turns) :
    ∃ stale, CharBuffer.shiftLeft turns (front ++ (gap ++ (text ++ 0 :: rest))) (front.length + gap.length) front.length =
      some (front ++ (text ++ 0 :: stale)) := by
  induction text generalizing front gap turns with
  | nil =>
    obtain ⟨turns, rfl⟩ := Nat.exists_eq_succ_of_ne_zero (Nat.ne_of_gt enough)
    obtain ⟨d, others, rfl⟩ := exists_cons_of_ne_nil some_
    have here : (front ++ (d :: others ++ ([] ++ 0 :: rest)))[front.length + (d :: others).length]? = some 0 := by
      rw [← append_assoc, ← length_append, getElem?_append_right (Nat.le_refl _), Nat.sub_self]
      rfl
    refine ⟨others ++ ([] ++ 0 :: rest), ?_⟩
    rw [CharBuffer.shiftLeft, here]
    simp only [bind_eq_bind, bind_some]
    rw [if_neg (not_not.mpr rfl)]
    exact storeAt_byte front d 0 _
  | cons c text ih =>
    obtain ⟨turns, rfl⟩ := Nat.exists_eq_succ_of_ne_zero (Nat.ne_of_gt (Nat.zero_lt_of_lt enough))
    obtain ⟨d, others, rfl⟩ := exists_cons_of_ne_nil some_
    rw [mem_cons, not_or] at ended
    have here : (front ++ (d :: others ++ (c :: text ++ 0 :: rest)))[front.length + (d :: others).length]? = some c := by
      rw [← append_assoc, ← length_append, getElem?_append_right (Nat.le_refl _), Nat.sub_self]
      rfl
    have later := ih ended.2 (front ++ [c]) (others ++ [c]) (by simp) (Nat.lt_of_succ_lt_succ enough)
    rw [length_append, length_append, length_singleton, append_assoc, append_assoc] at later
    obtain ⟨stale, run⟩ := later
    refine ⟨stale, ?_⟩
    rw [CharBuffer.shiftLeft, here]
    simp only [bind_eq_bind, bind_some]
    rw [if_pos (Ne.symm ended.1), cons_append, storeAt_byte, bind_some, length_cons]
    rw [Nat.add_right_comm, append_assoc] at run
    exact run

theorem msStringTrimLeft_leaves : Leaves CharBuffer.msStringTrimLeft fun text => text.dropWhile isspace := by
  intro text ended
  have endedBody : 0 ∉ text.dropWhile isspace := fun member => ended ((dropWhile_suffix _).subset member)
  refine ⟨endedBody, fun rest => ?_⟩
  have parts := @List.takeWhile_append_dropWhile _ isspace text
  have length := congrArg List.length parts
  rw [length_append] at length
  unfold CharBuffer.msStringTrimLeft
  rw [strlenAt_start ended]
  simp only [bind_eq_bind, bind_some]
  by_cases none_ : text = []
  · rw [none_, length_nil, if_neg (Nat.lt_irrefl 0)]
    exact ⟨rest, rfl⟩
  · have skip := skipSpaces_eq (text.takeWhile isspace) (fun c member => mem_takeWhile_imp member) (text.dropWhile isspace)
      (dropWhile_stops isspace text) [] (0 :: rest)
    rw [nil_append, ← append_assoc, parts, length, length_nil, Nat.zero_add] at skip
    rw [if_pos (length_pos_iff.mpr none_), skip, bind_some]
    by_cases noSpace : text.takeWhile isspace = []
    · rw [noSpace, nil_append] at parts
      rw [noSpace, length_nil, if_neg (Nat.lt_irrefl 0), parts]
      exact ⟨rest, rfl⟩
    · have enough : (text.dropWhile isspace).length < (text ++ 0 :: rest).length := by
        rw [length_append, length_cons]
        omega
      have shift := shiftLeft_eq endedBody [] (text.takeWhile isspace) rest noSpace enough
      rw [nil_append, length_nil, Nat.zero_add, ← append_assoc, parts] at shift
      rw [if_pos (length_pos_iff.mpr noSpace)]
      exact shift

end Buffer

section Strings
variable (text : CString)

theorem string_msStringTrimBlanks : StdString.msStringTrimBlanks text = withoutLastBlanks text := by
  unfold StdString.msStringTrimBlanks StdString.find_last_not_of
  rcases blank_or_last text with all | ⟨front, c, blanks, rfl, notBlank, all⟩
  · have nowhere : text.reverse.findIdx? (· != 32) = none := by
      rw [findIdx?_eq_none_iff]
      intro c member
      have isBlank_ := all c (mem_reverse.mp member)
      simpa [isBlankByte] using isBlank_
    rw [nowhere, map_none, withoutLastBlanks_blanks all]
  · have found : (front ++ c :: blanks).reverse.findIdx? (· != 32) = some blanks.reverse.length := by
      have scan := @spanAt_eq isBlankByte c blanks.reverse (fun d member => all d (mem_reverse.mp member)) notBlank [] front.reverse
      rw [reverse_append, reverse_cons, append_assoc, singleton_append]
      exact scan
    have place : (front ++ c :: blanks).length - 1 - blanks.reverse.length + 1 = (front ++ [c]).length := by
      rw [length_append, length_cons, length_reverse, length_append, length_singleton]
      omega
    rw [found, map_some, withoutLastBlanks_append front notBlank all]
    dsimp only
    rw [place, show front ++ c :: blanks = (front ++ [c]) ++ blanks by simp, take_left]

theorem findIdx_cases (p : UInt8 → Bool) : (text.findIdx? fun c => !p c) =
    if text.dropWhile p = [] then none else some (text.takeWhile p).length := by
  induction text with
  | nil => rfl
  | cons c text ih =>
    cases here : p c with
    | false => simp [findIdx?_cons, here]
    | true =>
      rw [findIdx?_cons, here, ih, dropWhile_cons_of_pos here, takeWhile_cons_of_pos here]
      by_cases none_ : text.dropWhile p = [] <;> simp [none_]

theorem erase_takeWhile (p : UInt8 → Bool) : StdString.erase text 0 (text.takeWhile p).length = text.dropWhile p := by
  have parts := @List.takeWhile_append_dropWhile _ p text
  rw [StdString.erase, take_zero, nil_append, Nat.zero_add]
  nth_rw 2 [← parts]
  rw [drop_left]

theorem string_msStringTrim :
    StdString.msStringTrim text = if text.dropWhile isBlankByte = [] then text else withoutLastBlanks (text.dropWhile isBlankByte) := by
  have first : StdString.find_first_not_of text 32 = _ := findIdx_cases text isBlankByte
  unfold StdString.msStringTrim
  rw [first]
  by_cases none_ : text.dropWhile isBlankByte = []
  · rw [if_pos none_, if_pos none_]
    rw [string_msStringTrimBlanks, withoutLastBlanks_blanks (dropWhile_eq_nil_iff.mp none_)]
  · rw [if_neg none_, if_neg none_]
    dsimp only
    rw [erase_takeWhile, string_msStringTrimBlanks]

theorem string_msStringTrimLeft : StdString.msStringTrimLeft text = if text.dropWhile isspace = [] then []
    else text.drop ((text.takeWhile isspace).length - 1) := by
  unfold StdString.msStringTrimLeft
  rw [findIdx_cases]
  by_cases none_ : text.dropWhile isspace = []
  · rw [if_pos none_, if_pos none_]
  · rw [if_neg none_, if_neg none_]
    dsimp only
    by_cases some_ : 0 < (text.takeWhile isspace).length
    · rw [if_pos some_, StdString.erase, take_zero, nil_append, Nat.zero_add]
    · rw [if_neg some_, Nat.eq_zero_of_not_pos some_, drop_zero]

end Strings

def leftBy (function : List UInt8 → Option (List UInt8)) (text : CString) (rest : List UInt8) : Option CString :=
  (function (text ++ 0 :: rest)).map textOf

/-- The function on a buffer leaves the text that the function on a `std::string` leaves, and another call changes nothing. -/
structure Agrees (inBuffer : List UInt8 → Option (List UInt8)) (ofString : CString → CString) (text : CString) : Prop where
  same : ∀ rest, leftBy inBuffer text rest = some (ofString text)
  bufferAgain : ∀ rest, leftBy (fun buffer => (inBuffer buffer).bind inBuffer) text rest = leftBy inBuffer text rest
  stringAgain : ofString (ofString text) = ofString text

structure TrimsAgree (text : CString) : Prop where
  msStringTrim : Agrees CharBuffer.msStringTrim StdString.msStringTrim text
  msStringTrimLeft : Agrees CharBuffer.msStringTrimLeft StdString.msStringTrimLeft text
  msStringTrimBlanks : Agrees CharBuffer.msStringTrimBlanks StdString.msStringTrimBlanks text

section Agreement
variable {function : List UInt8 → Option (List UInt8)} {left : CString → CString} {text : CString}

theorem Leaves.leftBy (leaves : Leaves function left) (ended : 0 ∉ text) (rest : List UInt8) :
    leftBy function text rest = some (left text) := by
  obtain ⟨stale, run⟩ := (leaves text ended).2 rest
  rw [MapServer.leftBy, run, map_some, textOf_append (leaves text ended).1]

theorem Leaves.again (leaves : Leaves function left) (ended : 0 ∉ text) (rest : List UInt8) :
    MapServer.leftBy (fun buffer => (function buffer).bind function) text rest = some (left (left text)) := by
  obtain ⟨stale, run⟩ := (leaves text ended).2 rest
  have second := leaves.leftBy (leaves text ended).1 stale
  rw [MapServer.leftBy] at second ⊢
  rw [run, bind_some, second]

theorem Leaves.agrees_iff (leaves : Leaves function left) (idempotent : left (left text) = left text) {ofString : CString → CString}
    (again : ofString (ofString text) = ofString text) (ended : 0 ∉ text) :
    Agrees function ofString text ↔ left text = ofString text := by
  constructor
  · intro agrees
    have same := agrees.same []
    rw [leaves.leftBy ended] at same
    exact Option.some.inj same
  · intro same
    refine ⟨fun rest => ?_, fun rest => ?_, again⟩
    · rw [leaves.leftBy ended, same]
    · rw [leaves.again ended, leaves.leftBy ended, idempotent]

theorem dropWhile_withoutLastBlanks (text : CString) :
    (withoutLastBlanks (text.dropWhile isBlankByte)).dropWhile isBlankByte = withoutLastBlanks (text.dropWhile isBlankByte) := by
  rcases blank_or_last (text.dropWhile isBlankByte) with all | ⟨front, c, blanks, isBody, notBlank, all⟩
  · rw [withoutLastBlanks_blanks all, dropWhile_idempotent]
  · have first := dropWhile_idempotent (p := isBlankByte) (l := text)
    rw [isBody] at first ⊢
    rw [withoutLastBlanks_append front notBlank all]
    cases front with
    | nil => exact dropWhile_cons_of_neg (by simp [notBlank])
    | cons d front =>
      have stops : isBlankByte d = false := by
        cases isBlank_ : isBlankByte d with
        | false => rfl
        | true =>
          rw [cons_append, dropWhile_cons_of_pos isBlank_] at first
          have shorter := (dropWhile_suffix (l := front ++ c :: blanks) isBlankByte).length_le
          rw [first, length_cons] at shorter
          omega
      exact dropWhile_cons_of_neg (by simp [stops])

theorem msStringTrim_agrees_iff (ended : 0 ∉ text) :
    Agrees CharBuffer.msStringTrim StdString.msStringTrim text ↔ text = [] ∨ ∃ c ∈ text, c ≠ 32 := by
  have first := string_msStringTrim text
  by_cases blanks : text.dropWhile isBlankByte = []
  · rw [if_pos blanks] at first
    have all := dropWhile_eq_nil_iff.mp blanks
    rw [msStringTrim_leaves.agrees_iff _ (by rw [first, first]) ended, first, blanks, show withoutLastBlanks [] = [] from rfl, eq_comm]
    · refine (or_iff_left ?_).symm
      rintro ⟨c, member, notBlank⟩
      exact notBlank (eq_of_beq (all c member))
    · rw [dropWhile_withoutLastBlanks, withoutLastBlanks_idempotent]
  · rw [if_neg blanks] at first
    have again : StdString.msStringTrim (StdString.msStringTrim text) = StdString.msStringTrim text := by
      rw [first, string_msStringTrim, dropWhile_withoutLastBlanks, withoutLastBlanks_idempotent, ite_self]
    rw [msStringTrim_leaves.agrees_iff _ again ended, first]
    · refine iff_of_true rfl (.inr ?_)
      by_contra none_
      push Not at none_
      exact blanks (dropWhile_eq_nil_iff.mpr fun c member => beq_iff_eq.mpr (none_ c member))
    · rw [dropWhile_withoutLastBlanks, withoutLastBlanks_idempotent]

theorem string_msStringTrimLeft_space {spaces body : CString} (all : ∀ c ∈ spaces, isspace c = true)
    (stops : ∀ c ∈ body.head?, isspace c = false) (some_ : body ≠ []) : StdString.msStringTrimLeft (spaces ++ body) = spaces.drop (spaces.length - 1) ++ body := by
  obtain ⟨c, rest, rfl⟩ := exists_cons_of_ne_nil some_
  have notSpace := stops c rfl
  have isBody : (spaces ++ c :: rest).dropWhile isspace = c :: rest := by
    rw [dropWhile_append_of_pos all, dropWhile_cons_of_neg (by simp [notSpace])]
  have isSpaces : (spaces ++ c :: rest).takeWhile isspace = spaces := by
    rw [takeWhile_append_of_pos all, takeWhile_cons_of_neg (by simp [notSpace]), append_nil]
  rw [string_msStringTrimLeft, isBody, if_neg some_, isSpaces, drop_append_of_le_length (Nat.sub_le _ _)]

theorem msStringTrimLeft_agrees_iff (ended : 0 ∉ text) : Agrees CharBuffer.msStringTrimLeft StdString.msStringTrimLeft text ↔
    (∀ c ∈ text.head?, isspace c = false) ∨ ∀ c ∈ text, isspace c = true := by
  have idempotent : (text.dropWhile isspace).dropWhile isspace = text.dropWhile isspace := dropWhile_idempotent _ _
  by_cases none_ : text.dropWhile isspace = []
  · have first := string_msStringTrimLeft text
    rw [if_pos none_] at first
    have again : StdString.msStringTrimLeft (StdString.msStringTrimLeft text) = StdString.msStringTrimLeft text := by
      rw [first]
      rfl
    rw [msStringTrimLeft_leaves.agrees_iff idempotent again ended, first]
    exact iff_of_true none_ (.inr (dropWhile_eq_nil_iff.mp none_))
  · have parts := @List.takeWhile_append_dropWhile _ isspace text
    have all : ∀ c ∈ text.takeWhile isspace, isspace c = true := fun c member => mem_takeWhile_imp member
    have stops := dropWhile_stops isspace text
    generalize text.takeWhile isspace = spaces at parts all
    generalize text.dropWhile isspace = body at parts stops none_ idempotent
    subst parts
    have first := string_msStringTrimLeft_space all stops none_
    have again : StdString.msStringTrimLeft (StdString.msStringTrimLeft (spaces ++ body)) =
        StdString.msStringTrimLeft (spaces ++ body) := by
      have fewer : (spaces.drop (spaces.length - 1)).length - 1 = 0 := by
        rw [length_drop]
        omega
      rw [first, string_msStringTrimLeft_space (fun c member => all c (mem_of_mem_drop member)) stops none_, fewer, drop_zero]
    obtain ⟨c, rest, rfl⟩ := exists_cons_of_ne_nil none_
    have notSpace := stops c rfl
    rw [msStringTrimLeft_leaves.agrees_iff (dropWhile_idempotent _ _) again ended, first, dropWhile_append_of_pos all,
      dropWhile_cons_of_neg (by simp [notSpace])]
    cases spaces with
    | nil =>
      refine iff_of_true rfl (.inl ?_)
      exact stops
    | cons d spaces =>
      rw [forall_mem_cons] at all
      refine iff_of_false ?_ ?_
      · intro same
        have length := congrArg List.length same
        simp only [length_append, length_drop, length_cons] at length
        omega
      · rintro (head | every)
        · rw [head d rfl] at all
          exact Bool.false_ne_true all.1
        · rw [every c (by simp)] at notSpace
          cases notSpace

theorem msStringTrimBlanks_agrees (ended : 0 ∉ text) : Agrees CharBuffer.msStringTrimBlanks StdString.msStringTrimBlanks text := by
  have same (text : CString) := string_msStringTrimBlanks text
  rw [msStringTrimBlanks_leaves.agrees_iff (withoutLastBlanks_idempotent text) (by simp only [same, withoutLastBlanks_idempotent]) ended]
  exact (same text).symm

/-- The two versions agree on a text that is empty or has a byte other than a blank, and that starts with no white space or has
nothing else. -/
theorem trimsAgree_iff (ended : 0 ∉ text) : TrimsAgree text ↔ (text = [] ∨ ∃ c ∈ text, c ≠ 32) ∧
    ((∀ c ∈ text.head?, isspace c = false) ∨ ∀ c ∈ text, isspace c = true) := by
  rw [← msStringTrim_agrees_iff ended, ← msStringTrimLeft_agrees_iff ended]
  constructor
  · intro agree
    exact ⟨agree.msStringTrim, agree.msStringTrimLeft⟩
  · rintro ⟨trim, trimLeft⟩
    exact ⟨trim, trimLeft, msStringTrimBlanks_agrees ended⟩

theorem trimsAgree_iff_word : TrimsAgree (ascii "a ") := by
  apply (trimsAgree_iff (by decide)).mpr
  refine ⟨.inr ⟨97, by decide, by decide⟩, .inl ?_⟩
  rintro c ⟨⟩
  rfl

theorem trimsAgree_fails : ¬ ∀ text : CString, 0 ∉ text → TrimsAgree text := by
  intro all
  have same := (all (ascii " a") (by decide)).msStringTrimLeft.same []
  revert same
  decide

end Agreement

end MapServer
