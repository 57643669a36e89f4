import MapServer.Expr.QuotedStrings
import MapServer.Lib.Marks

namespace MapServer
open Lib.Marks List

def stopsValue (chStringSep chOptionDelimiter c : UInt8) : Bool :=
  c == 13 || c == 10 || c == if chStringSep = 0 then chOptionDelimiter else chStringSep

/-- The loop over the text from `ptr` on: the first character that is redacted, and where the loop stops. -/
def redactLoop (chStringSep chOptionDelimiter : UInt8) : CString → Nat → Option Nat → Option Nat × Nat
  | [], ptr, ptr_first_redacted_char => (ptr_first_redacted_char, ptr)
  | [c], ptr, ptr_first_redacted_char =>
    if stopsValue chStringSep chOptionDelimiter c then (ptr_first_redacted_char, ptr)
    else (ptr_first_redacted_char.or (some ptr), ptr + 1)
  | c :: d :: rest, ptr, ptr_first_redacted_char =>
    if stopsValue chStringSep chOptionDelimiter c then (ptr_first_redacted_char, ptr)
    else if chStringSep ≠ 0 ∧ c = 92 ∧ d = chStringSep then
      redactLoop chStringSep chOptionDelimiter rest (ptr + 2) (ptr_first_redacted_char.or (some (ptr + 1)))
    else redactLoop chStringSep chOptionDelimiter (d :: rest) (ptr + 1) (ptr_first_redacted_char.or (some ptr))

def msRedactString (str keyword : CString) : CString :=
  match find keyword str with
  | none => str
  | some password =>
    let chOptionDelimiter := if password > 0 then str.getD (password - 1) 0 else 0
    let ptr := password + keyword.length
    let (chStringSep, ptr) :=
      if str.getD ptr 0 = 39 ∨ str.getD ptr 0 = 34 then (str.getD ptr 0, ptr + 1)
      else if chOptionDelimiter = 59 ∧ str.getD ptr 0 = 123 ∧ keyword = ascii "pwd=" then (125, ptr + 1)
      else (0, ptr)
    match redactLoop chStringSep chOptionDelimiter (str.drop ptr) ptr none with
    | (some ptr_first_redacted_char, ptr) => str.take ptr_first_redacted_char ++ 42 :: str.drop ptr
    | (none, _) => str

def msRedactCredentials (str : CString) : CString := msRedactString (msRedactString str (ascii "password=")) (ascii "pwd=")

def scannedLength (chStringSep chOptionDelimiter : UInt8) : CString → Nat
  | [] => 0
  | [c] => if stopsValue chStringSep chOptionDelimiter c then 0 else 1
  | c :: d :: rest =>
    if stopsValue chStringSep chOptionDelimiter c then 0
    else if chStringSep ≠ 0 ∧ c = 92 ∧ d = chStringSep then scannedLength chStringSep chOptionDelimiter rest + 2
    else scannedLength chStringSep chOptionDelimiter (d :: rest) + 1

def startsEscaped (chStringSep : UInt8) (text : CString) : Bool := chStringSep != 0 && [92, chStringSep].isPrefixOf text

def keptEscape (chStringSep : UInt8) (text : CString) : CString := if startsEscaped chStringSep text then [92] else []

section Loop
variable (chStringSep chOptionDelimiter : UInt8)

theorem redactLoop_eq (text : CString) (ptr : Nat) (first : Option Nat) :
    redactLoop chStringSep chOptionDelimiter text ptr first =
      (first.or (if scannedLength chStringSep chOptionDelimiter text = 0 then none else some (ptr + (keptEscape chStringSep text).length)),
        ptr + scannedLength chStringSep chOptionDelimiter text) := by
  induction text using scannedLength.induct chStringSep chOptionDelimiter generalizing ptr first with
  | case1 => simp [redactLoop, scannedLength]
  | case2 c stops => simp [redactLoop, scannedLength, stops]
  | case3 c goesOn => simp [redactLoop, scannedLength, goesOn, keptEscape, startsEscaped]
  | case4 c d rest stops => simp [redactLoop, scannedLength, stops]
  | case5 c d rest goesOn escaped ih =>
    rw [redactLoop, if_neg goesOn, if_pos escaped, ih, scannedLength, if_neg goesOn, if_pos escaped]
    simp [keptEscape, startsEscaped, escaped.1, escaped.2.1, escaped.2.2]
    omega
  | case6 c d rest goesOn plain ih =>
    rw [redactLoop, if_neg goesOn, if_neg plain, ih, scannedLength, if_neg goesOn, if_neg plain]
    have notEscaped : startsEscaped chStringSep (c :: d :: rest) = false := by
      by_contra escaped
      rw [Bool.not_eq_false] at escaped
      simp only [startsEscaped, Bool.and_eq_true, bne_iff_ne, isPrefixOf_cons_cons, beq_iff_eq] at escaped
      exact plain ⟨escaped.1, escaped.2.1.symm, escaped.2.2.1.symm⟩
    simp [keptEscape, notEscaped]
    omega

theorem scanned_plain {front text : CString} (goesOn : ∀ c ∈ front, stopsValue 0 chOptionDelimiter c = false)
    (ends : ∀ c ∈ text.head?, stopsValue 0 chOptionDelimiter c = true) : scannedLength 0 chOptionDelimiter (front ++ text) = front.length := by
  have atEnd : scannedLength 0 chOptionDelimiter text = 0 := by
    cases text with
    | nil => rfl
    | cons c text =>
      have stops := ends c rfl
      cases text <;> simp [scannedLength, stops]
  induction front with
  | nil => exact atEnd
  | cons c front ih =>
    obtain ⟨here, later⟩ := forall_mem_cons.mp goesOn
    have step (rest : CString) : scannedLength 0 chOptionDelimiter (c :: rest) = scannedLength 0 chOptionDelimiter rest + 1 := by
      cases rest <;> simp [scannedLength, here]
    rw [cons_append, step, ih later, length_cons]

end Loop

def SeparatorsEscaped (chStringSep : UInt8) : CString → Prop
  | [] => True
  | [c] => c ≠ chStringSep
  | c :: d :: rest => c ≠ chStringSep ∧ if c = 92 ∧ d = chStringSep then SeparatorsEscaped chStringSep rest else SeparatorsEscaped chStringSep (d :: rest)

def BreaksLine (text : CString) : Prop := 13 ∈ text ∨ 10 ∈ text

instance (text : CString) : Decidable (BreaksLine text) := inferInstanceAs (Decidable (13 ∈ text ∨ 10 ∈ text))

theorem not_breaksLine_cons {c : UInt8} {text : CString} : ¬ BreaksLine (c :: text) ↔ c ≠ 13 ∧ c ≠ 10 ∧ ¬ BreaksLine text := by
  simp only [BreaksLine, mem_cons, not_or]
  constructor
  · rintro ⟨⟨isReturn, noReturn⟩, isNewline, noNewline⟩
    exact ⟨Ne.symm isReturn, Ne.symm isNewline, noReturn, noNewline⟩
  · rintro ⟨isReturn, isNewline, noReturn, noNewline⟩
    exact ⟨⟨Ne.symm isReturn, noReturn⟩, Ne.symm isNewline, noNewline⟩

section Separated
variable {chStringSep : UInt8} (isSep : chStringSep = 39 ∨ chStringSep = 34 ∨ chStringSep = 125) (chOptionDelimiter : UInt8)
include isSep

theorem stopsValue_iff {c : UInt8} : stopsValue chStringSep chOptionDelimiter c = true ↔ c = 13 ∨ c = 10 ∨ c = chStringSep := by
  have notNull : chStringSep ≠ 0 := by
    rcases isSep with rfl | rfl | rfl <;> decide
  simp [stopsValue, notNull, or_assoc]

/-- The loop goes over a text without line ends, and over the separator behind it as well if a backslash is in front of that. -/
theorem scanned_covered {text : CString} (covered : SeparatorsEscaped chStringSep text) (line : ¬ BreaksLine text) (rest : CString) :
    scannedLength chStringSep chOptionDelimiter (text ++ chStringSep :: rest) = text.length +
      if text.getLast? = some 92 then scannedLength chStringSep chOptionDelimiter rest + 1 else 0 := by
  have notNull : chStringSep ≠ 0 := by
    rcases isSep with rfl | rfl | rfl <;> decide
  have stops := (stopsValue_iff isSep chOptionDelimiter).mpr (Or.inr (Or.inr rfl))
  induction text using SeparatorsEscaped.induct with
  | case1 => cases rest <;> simp [scannedLength, stops]
  | case2 c =>
    rw [not_breaksLine_cons] at line
    have goesOn : ¬ stopsValue chStringSep chOptionDelimiter c = true := by
      rw [stopsValue_iff isSep]
      exact fun ends => ends.elim line.1 fun ends => ends.elim line.2.1 covered
    rw [singleton_append, scannedLength, if_neg goesOn]
    by_cases backslash : c = 92
    · rw [if_pos ⟨notNull, backslash, rfl⟩, backslash]
      simp only [getLast?_singleton, if_true, length_singleton]
      omega
    · rw [if_neg (fun both => backslash both.2.1)]
      cases rest <;> simp [scannedLength, stops, backslash]
  | case3 c d text ihEscaped ihPlain =>
    have goesOn (own : c ≠ chStringSep) (line : ¬ BreaksLine (c :: d :: text)) : ¬ stopsValue chStringSep chOptionDelimiter c = true := by
      rw [not_breaksLine_cons] at line
      rw [stopsValue_iff isSep]
      exact fun ends => ends.elim line.1 fun ends => ends.elim line.2.1 own
    rw [cons_append, cons_append, scannedLength, if_neg (goesOn covered.1 line)]
    by_cases escaped : c = 92 ∧ d = chStringSep
    · rw [SeparatorsEscaped, if_pos escaped] at covered
      rw [not_breaksLine_cons, not_breaksLine_cons] at line
      have notBackslash : chStringSep ≠ 92 := by
        rcases isSep with rfl | rfl | rfl <;> decide
      have last : (c :: d :: text).getLast? = some 92 ↔ text.getLast? = some 92 := by
        rw [escaped.2]
        cases text with
        | nil => simp [notBackslash]
        | cons e text => simp
      rw [if_pos ⟨notNull, escaped⟩, ihEscaped covered.2 line.2.2.2.2]
      simp only [last, length_cons]
      omega
    · rw [SeparatorsEscaped, if_neg escaped] at covered
      have inner := ihPlain covered.2 (not_breaksLine_cons.mp line).2.2
      rw [cons_append] at inner
      rw [if_neg (fun both => escaped both.2), inner, getLast?_cons_cons]
      simp only [length_cons]
      omega

theorem scanned_breaksLine {text : CString} (covered : SeparatorsEscaped chStringSep text) (breaks : BreaksLine text) (rest : CString) :
    scannedLength chStringSep chOptionDelimiter (text ++ rest) < text.length := by
  induction text using SeparatorsEscaped.induct with
  | case1 => simp [BreaksLine] at breaks
  | case2 c =>
    have stops : stopsValue chStringSep chOptionDelimiter c = true := by
      rw [stopsValue_iff isSep]
      simp only [BreaksLine, mem_singleton] at breaks
      exact breaks.imp Eq.symm fun newline => Or.inl newline.symm
    cases rest <;> simp [scannedLength, stops]
  | case3 c d text ihEscaped ihPlain =>
    rw [cons_append, cons_append, scannedLength]
    split
    · simp
    · rename_i goesOn
      rw [stopsValue_iff isSep, not_or, not_or] at goesOn
      have later : BreaksLine (d :: text) := by
        by_contra line
        exact not_breaksLine_cons.mpr ⟨goesOn.1, goesOn.2.1, line⟩ breaks
      by_cases escaped : c = 92 ∧ d = chStringSep
      · have notNull : chStringSep ≠ 0 := by
          rcases isSep with rfl | rfl | rfl <;> decide
        have notEnd : d ≠ 13 ∧ d ≠ 10 := by
          rw [escaped.2]
          rcases isSep with rfl | rfl | rfl <;> decide
        have inner : BreaksLine text := by
          by_contra line
          exact not_breaksLine_cons.mpr ⟨notEnd.1, notEnd.2, line⟩ later
        rw [SeparatorsEscaped, if_pos escaped] at covered
        have shorter := ihEscaped covered.2 inner
        rw [if_pos ⟨notNull, escaped⟩]
        simp only [length_cons]
        omega
      · rw [SeparatorsEscaped, if_neg escaped] at covered
        have shorter := ihPlain covered.2 later
        rw [cons_append] at shorter
        rw [if_neg (fun both => escaped both.2)]
        simp only [length_cons] at shorter ⊢
        omega

end Separated

theorem scanned_stops (chStringSep chOptionDelimiter : UInt8) (text : CString) :
    ∀ c ∈ (text.drop (scannedLength chStringSep chOptionDelimiter text)).head?, stopsValue chStringSep chOptionDelimiter c = true := by
  induction text using scannedLength.induct chStringSep chOptionDelimiter with
  | case1 => simp
  | case2 c stops => simp [scannedLength, stops]
  | case3 c goesOn => simp [scannedLength, goesOn]
  | case4 c d rest stops => simp [scannedLength, stops]
  | case5 c d rest goesOn escaped ih =>
    rw [scannedLength, if_neg goesOn, if_pos escaped]
    simpa using ih
  | case6 c d rest goesOn plain ih =>
    rw [scannedLength, if_neg goesOn, if_neg plain]
    simpa using ih

theorem scanned_le (chStringSep chOptionDelimiter : UInt8) (text : CString) :
    scannedLength chStringSep chOptionDelimiter text ≤ text.length := by
  induction text using scannedLength.induct chStringSep chOptionDelimiter with
  | case1 => simp [scannedLength]
  | case2 c stops => simp [scannedLength, stops]
  | case3 c goesOn => simp [scannedLength, goesOn]
  | case4 c d rest stops => simp [scannedLength, stops]
  | case5 c d rest goesOn escaped ih =>
    rw [scannedLength, if_neg goesOn, if_pos escaped]
    simpa using ih
  | case6 c d rest goesOn plain ih =>
    rw [scannedLength, if_neg goesOn, if_neg plain]
    simpa using ih

def valueStart (keyword : CString) (chOptionDelimiter : UInt8) (text : CString) : UInt8 × Nat :=
  if text.headD 0 = 39 ∨ text.headD 0 = 34 then (text.headD 0, 1)
  else if chOptionDelimiter = 59 ∧ text.headD 0 = 123 ∧ keyword = ascii "pwd=" then (125, 1)
  else (0, 0)

def redactText (chStringSep chOptionDelimiter : UInt8) (text : CString) : CString :=
  if scannedLength chStringSep chOptionDelimiter text = 0 then text
  else keptEscape chStringSep text ++ 42 :: text.drop (scannedLength chStringSep chOptionDelimiter text)

def redactValue (keyword : CString) (chOptionDelimiter : UInt8) (text : CString) : CString :=
  let (chStringSep, start) := valueStart keyword chOptionDelimiter text
  text.take start ++ redactText chStringSep chOptionDelimiter (text.drop start)

def redactFrom (keyword : CString) (last : UInt8) (str : CString) : CString :=
  match find keyword str with
  | none => str
  | some password => str.take (password + keyword.length) ++
      redactValue keyword ((str.take password).getLastD last) (str.drop (password + keyword.length))

theorem keptEscape_take (chStringSep : UInt8) (text : CString) :
    text.take (keptEscape chStringSep text).length = keptEscape chStringSep text := by
  rw [keptEscape]
  split
  · rename_i escaped
    simp only [startsEscaped, Bool.and_eq_true, isPrefixOf_iff_prefix] at escaped
    obtain ⟨rest, rfl⟩ := escaped.2
    rfl
  · rfl

theorem chOptionDelimiter_eq {str : CString} {password : Nat} (inside : password ≤ str.length) :
    (if password > 0 then str.getD (password - 1) 0 else 0) = (str.take password).getLastD 0 := by
  cases password with
  | zero => rfl
  | succ before =>
    rw [if_pos (Nat.succ_pos _), Nat.add_sub_cancel, getLastD_eq_getLast?, getLast?_eq_getElem?, length_take,
      Nat.min_eq_left inside, Nat.add_sub_cancel, getElem?_take_of_lt (Nat.lt_succ_self _), getD_eq_getElem?_getD]

theorem msRedactString_eq (str keyword : CString) : msRedactString str keyword = redactFrom keyword 0 str := by
  rw [msRedactString, redactFrom]
  cases found : find keyword str with
  | none => rfl
  | some password =>
    have first : str.getD (password + keyword.length) 0 = (str.drop (password + keyword.length)).headD 0 := by
      rw [getD_eq_getElem?_getD, headD_eq_head?_getD, head?_drop]
    dsimp only
    rw [chOptionDelimiter_eq (find_le found), first, redactValue]
    have same : (if (str.drop (password + keyword.length)).headD 0 = 39 ∨ (str.drop (password + keyword.length)).headD 0 = 34 then
          ((str.drop (password + keyword.length)).headD 0, password + keyword.length + 1)
        else if (str.take password).getLastD 0 = 59 ∧ (str.drop (password + keyword.length)).headD 0 = 123 ∧ keyword = ascii "pwd=" then
          (125, password + keyword.length + 1)
        else (0, password + keyword.length)) =
        ((valueStart keyword ((str.take password).getLastD 0) (str.drop (password + keyword.length))).1, password + keyword.length +
          (valueStart keyword ((str.take password).getLastD 0) (str.drop (password + keyword.length))).2) := by
      rw [valueStart]
      split
      · rfl
      · split <;> rfl
    rw [same]
    generalize valueStart keyword ((str.take password).getLastD 0) (str.drop (password + keyword.length)) = start
    dsimp only
    have parts : str.take (password + keyword.length) ++ (str.drop (password + keyword.length)).take start.2 =
        str.take (password + keyword.length + start.2) := take_add.symm
    rw [redactLoop_eq, redactText, drop_drop, ← append_assoc, parts]
    by_cases none_ : scannedLength start.1 ((str.take password).getLastD 0) (str.drop (password + keyword.length + start.2)) = 0
    · rw [if_pos none_, if_pos none_, take_append_drop]
      rfl
    · rw [if_neg none_, if_neg none_, Option.none_or]
      dsimp only
      rw [take_add, keptEscape_take, drop_drop, append_assoc]

theorem redactFrom_skip {keyword front rest : CString} (found : find keyword (front ++ rest) = (find keyword rest).map (front.length + ·))
    (last : UInt8) : redactFrom keyword last (front ++ rest) = front ++ redactFrom keyword (front.getLastD last) rest := by
  rw [redactFrom, redactFrom, found]
  cases find keyword rest with
  | none => rfl
  | some password =>
    have before : ((front ++ rest).take (front.length + password)).getLastD last = (rest.take password).getLastD (front.getLastD last) := by
      rw [take_length_add_append]
      simp only [getLastD_eq_getLast?, getLast?_append]
      cases (rest.take password).getLast? <;> rfl
    dsimp only [Option.map_some]
    rw [before, Nat.add_assoc, take_length_add_append, drop_length_add_append, append_assoc]

theorem redactFrom_here (keyword rest : CString) (last : UInt8) :
    redactFrom keyword last (keyword ++ rest) = keyword ++ redactValue keyword last rest := by
  rw [redactFrom, find_here]
  simp

end MapServer
