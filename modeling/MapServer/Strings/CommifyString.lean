import Mathlib.Data.List.Induction
import MapServer.Lib.TerminatedText
import MapServer.Text

namespace MapServer
open Lib.ByteFile Lib.TerminatedText List Option

structure CommaLoop where
  str : List UInt8
  num_commas : Nat
  add_commas : Bool
  j : Nat

def CommaLoop.shifted (state : CommaLoop) (i : Nat) : Option UInt8 :=
  if state.num_commas ≤ i then state.str[i - state.num_commas]? else none

def commifyTurn (num_decimal_points i : Nat) (state : CommaLoop) : Option CommaLoop :=
  if num_decimal_points = 1 ∧ state.add_commas = false then do
    let c ← state.shifted i
    some { state with str := ← storeAt state.str i [c], add_commas := c == 46 }
  else if state.add_commas = true ∧ 2 < state.j then do
    some { state with str := ← storeAt state.str i [44], num_commas := state.num_commas - 1, j := 0 }
  else do
    let c ← state.shifted i
    some { state with str := ← storeAt state.str i [c], j := state.j + 1 }

def commifyLoop (num_decimal_points : Nat) : Nat → CommaLoop → Option CommaLoop
  | 0, state => some state
  | i + 1, state => do
    let state ← commifyTurn num_decimal_points i state
    if state.num_commas = 0 then some state else commifyLoop num_decimal_points i state

/-- Without digits in front of the point the difference of the lengths is too large for an `int`. -/
def commaNumber (text : CString) : Option Nat :=
  if text.count 46 = 0 then some ((text.length - 1) / 3)
  else
    match (text.takeWhile (· != 46)).length with
    | 0 => none
    | last + 1 => some (last / 3)

def msCommifyString (fresh : Nat → UInt8) (str : List UInt8) : Option (List UInt8) := do
  let old_length ← strlenAt str 0
  let num_decimal_points := (textOf str).count 46
  if 1 < num_decimal_points then some str
  else
    let num_commas ← commaNumber (textOf str)
    if num_commas < 1 then some str
    else
      let new_length := old_length + num_commas
      let str ← storeAt (resize fresh str (new_length + 1)) new_length [0]
      let state ← commifyLoop num_decimal_points new_length { str, num_commas, add_commas := num_decimal_points == 0, j := 0 }
      some state.str

def groupBack : CString → CString
  | a :: b :: c :: d :: rest => a :: b :: c :: 44 :: groupBack (d :: rest)
  | digits => digits

def grouped (digits : CString) : CString := (groupBack digits.reverse).reverse

theorem grouped_group {front : CString} (some_ : front ≠ []) (a b c : UInt8) :
    grouped (front ++ [a, b, c]) = grouped front ++ [44, a, b, c] := by
  obtain ⟨d, rest, isFront⟩ := exists_cons_of_ne_nil (mt reverse_eq_nil_iff.mp some_)
  rw [grouped, grouped, reverse_append, isFront]
  simp [groupBack]

theorem grouped_short {digits : CString} (short : digits.length ≤ 3) : grouped digits = digits := by
  rw [grouped]
  match digits, short with
  | [], _ => rfl
  | [a], _ => rfl
  | [a, b], _ => rfl
  | [a, b, c], _ => rfl

theorem short_or_group (digits : CString) : digits.length ≤ 3 ∨ ∃ front a b c, front ≠ [] ∧ digits = front ++ [a, b, c] := by
  match isBack : digits.reverse with
  | c :: b :: a :: d :: rest =>
    refine .inr ⟨(d :: rest).reverse, a, b, c, by simp, ?_⟩
    rw [← reverse_reverse digits, isBack]
    simp
  | [] | [_] | [_, _] | [_, _, _] =>
    left
    rw [← length_reverse, isBack]
    simp

theorem filter_grouped {digits : CString} (free : 44 ∉ digits) : (grouped digits).filter (· != 44) = digits := by
  induction length : digits.length using Nat.strong_induction_on generalizing digits with
  | _ n ih =>
    have stays {part : CString} (free : 44 ∉ part) : part.filter (· != 44) = part := by
      rw [filter_eq_self]
      intro c member
      rw [bne_iff_ne]
      exact ne_of_mem_of_not_mem member free
    rcases short_or_group digits with short | ⟨front, a, b, c, some_, rfl⟩
    · rw [grouped_short short, stays free]
    · rw [mem_append, not_or] at free
      rw [length_append] at length
      rw [grouped_group some_, filter_append, ih front.length (by rw [← length]; simp) free.1 rfl,
        show ([44, a, b, c] : CString) = [44] ++ [a, b, c] from rfl, filter_append, stays free.2]
      rfl

theorem mem_grouped {digits : CString} (free : 44 ∉ digits) {c : UInt8} (member : c ∈ grouped digits) : c = 44 ∨ c ∈ digits := by
  by_cases comma : c = 44
  · exact .inl comma
  · rw [← filter_grouped free, mem_filter]
    exact .inr ⟨member, bne_iff_ne.mpr comma⟩

theorem grouped_cons (c : UInt8) {digits : CString} (some_ : digits ≠ []) :
    grouped (c :: digits) = c :: (if digits.length % 3 = 0 then [44] else []) ++ grouped digits := by
  induction length : digits.length using Nat.strong_induction_on generalizing digits with
  | _ n ih =>
    rcases short_or_group digits with short | ⟨front, x, y, z, someFront, rfl⟩
    · have pos := length_pos_iff.mpr some_
      by_cases full : digits.length = 3
      · obtain ⟨x, y, z, rfl⟩ := length_eq_three.mp full
        simp [← length, grouped, groupBack]
      · rw [grouped_short (show (c :: digits).length ≤ 3 by rw [length_cons]; omega), grouped_short short, if_neg (by omega)]
        rfl
    · rw [length_append] at length
      simp only [length_cons, length_nil] at length
      rw [← cons_append, grouped_group (cons_ne_nil _ _), ih front.length (by omega) someFront rfl, grouped_group someFront,
        show n % 3 = front.length % 3 by omega, append_assoc]

section Loop
variable {number turns : Nat} {src gap out : List UInt8} {c : UInt8} {j : Nat}

theorem shift_byte (src gap out : List UInt8) (c : UInt8) : ∃ gap', gap'.length = gap.length ∧
    storeAt (src ++ c :: (gap ++ out)) (src.length + gap.length) [c] = some (src ++ (gap' ++ c :: out)) := by
  obtain ⟨front, d, isGap⟩ : ∃ front d, c :: gap = front ++ [d] := by
    rcases eq_nil_or_concat (c :: gap) with none_ | ⟨front, d, isGap⟩
    · cases none_
    · exact ⟨front, d, isGap.trans concat_eq_append⟩
  have length := congrArg List.length isGap
  rw [length_append, length_cons, length_singleton] at length
  refine ⟨front, by omega, ?_⟩
  have store := storeAt_byte (src ++ front) d c out
  rw [length_append, ← Nat.add_right_cancel length, append_assoc, append_assoc, append_cons front, ← isGap] at store
  exact store

theorem shifted_eq (src gap out : List UInt8) (c : UInt8) (add_commas : Bool) (j : Nat) :
    CommaLoop.shifted ⟨src ++ c :: (gap ++ out), gap.length, add_commas, j⟩ (src.length + gap.length) = some c := by
  unfold CommaLoop.shifted
  rw [if_pos (Nat.le_add_left _ _), Nat.add_sub_cancel, getElem?_append_right (Nat.le_refl _), Nat.sub_self,
    getElem?_cons_zero]

theorem commifyTurn_fraction (src gap out : List UInt8) (c : UInt8) (j : Nat) : ∃ gap', gap'.length = gap.length ∧
    commifyTurn 1 (src.length + gap.length) ⟨src ++ c :: (gap ++ out), gap.length, false, j⟩ =
      some ⟨src ++ (gap' ++ c :: out), gap.length, c == 46, j⟩ := by
  obtain ⟨gap', length, store⟩ := shift_byte src gap out c
  refine ⟨gap', length, ?_⟩
  rw [commifyTurn, if_pos ⟨rfl, rfl⟩, shifted_eq]
  simp only [bind_eq_bind, bind_some]
  rw [store, bind_some]

theorem commifyTurn_digit (number : Nat) (src gap out : List UInt8) (c : UInt8) {j : Nat} (few : j ≤ 2) :
    ∃ gap', gap'.length = gap.length ∧
    commifyTurn number (src.length + gap.length) ⟨src ++ c :: (gap ++ out), gap.length, true, j⟩ =
      some ⟨src ++ (gap' ++ c :: out), gap.length, true, j + 1⟩ := by
  obtain ⟨gap', length, store⟩ := shift_byte src gap out c
  refine ⟨gap', length, ?_⟩
  rw [commifyTurn, if_neg fun fraction => Bool.noConfusion fraction.2, if_neg fun full => Nat.not_lt_of_le few full.2, shifted_eq]
  simp only [bind_eq_bind, bind_some]
  rw [store, bind_some]

theorem commifyTurn_comma (number : Nat) (src gap out : List UInt8) (d : UInt8) {j : Nat} (full : 2 < j) :
    commifyTurn number (src.length + gap.length) ⟨src ++ (gap ++ d :: out), gap.length + 1, true, j⟩ =
      some ⟨src ++ (gap ++ 44 :: out), gap.length, true, 0⟩ := by
  have store := storeAt_byte (src ++ gap) d 44 out
  rw [append_assoc, append_assoc, length_append] at store
  rw [commifyTurn, if_neg fun fraction => Bool.noConfusion fraction.2, if_pos ⟨rfl, full⟩, store]
  rfl

theorem commifyLoop_succ {state after : CommaLoop} (turn : commifyTurn number turns state = some after) (more : after.num_commas ≠ 0) :
    commifyLoop number (turns + 1) state = commifyLoop number turns after := by
  rw [commifyLoop, turn]
  simp only [bind_eq_bind, bind_some]
  rw [if_neg more]

theorem commifyLoop_fraction (src : List UInt8) {digits : CString} (free : 46 ∉ digits) (gap out : List UInt8) (some_ : gap ≠ [])
    (j : Nat) :
    ∃ gap', gap'.length = gap.length ∧
      commifyLoop 1 (src.length + (46 :: digits).length + gap.length) ⟨src ++ (46 :: digits ++ (gap ++ out)), gap.length, false, j⟩ =
        commifyLoop 1 (src.length + gap.length) ⟨src ++ (gap' ++ (46 :: digits ++ out)), gap.length, true, j⟩ := by
  have more : gap.length ≠ 0 := fun none_ => some_ (eq_nil_of_length_eq_zero none_)
  induction digits using reverseRecOn generalizing gap out with
  | nil =>
    obtain ⟨gap', length, turn⟩ := commifyTurn_fraction src gap out 46 j
    refine ⟨gap', length, ?_⟩
    rw [length_singleton, Nat.add_right_comm]
    exact commifyLoop_succ turn more
  | append_singleton digits c ih =>
    rw [mem_append, not_or] at free
    obtain ⟨gap', length, turn⟩ := commifyTurn_fraction (src ++ 46 :: digits) gap out c j
    have notPoint : (c == 46) = false := beq_eq_false_iff_ne.mpr fun same => free.2 (by rw [same]; simp)
    rw [notPoint, append_assoc, length_append, append_assoc] at turn
    have notEmpty : gap' ≠ [] := fun none_ => more (by rw [← length, none_]; rfl)
    obtain ⟨gap'', length', run⟩ := ih free.1 gap' (c :: out) notEmpty (length ▸ more)
    refine ⟨gap'', length'.trans length, ?_⟩
    have step := commifyLoop_succ turn more
    rw [length] at run
    rw [← cons_append, append_assoc, append_assoc, singleton_append, singleton_append, length_append,
      length_singleton, ← Nat.add_assoc, Nat.add_right_comm, ← run]
    exact step

theorem commifyLoop_groups (number : Nat) {src gap out : List UInt8} (some_ : gap ≠ []) (isLength : (src.length - 1) / 3 = gap.length) :
    commifyLoop number (src.length + gap.length) ⟨src ++ (gap ++ out), gap.length, true, 0⟩ =
      some ⟨grouped src ++ out, 0, true, 0⟩ := by
  induction isGap : gap.length generalizing src gap out with
  | zero => exact absurd (eq_nil_of_length_eq_zero isGap) some_
  | succ commas ih =>
    rcases short_or_group src with short | ⟨front, a, b, c, someFront, rfl⟩
    · omega
    · have more : gap.length ≠ 0 := by omega
      obtain ⟨first, length1, turn1⟩ := commifyTurn_digit number (front ++ [a, b]) gap out c (Nat.zero_le 2)
      obtain ⟨second, length2, turn2⟩ := commifyTurn_digit number (front ++ [a]) first (c :: out) b (Nat.le_succ 1)
      obtain ⟨third, length3, turn3⟩ := commifyTurn_digit number front second (b :: c :: out) a (Nat.le_refl 2)
      obtain ⟨rest, d, isThird⟩ : ∃ rest d, third = rest ++ [d] := by
        rcases eq_nil_or_concat third with none_ | ⟨rest, d, isThird⟩
        · rw [none_, length_nil] at length3
          omega
        · exact ⟨rest, d, isThird.trans concat_eq_append⟩
      have turn4 := commifyTurn_comma number front rest (a :: b :: c :: out) d (Nat.lt_succ_self 2)
      have restLength : rest.length = commas := by
        rw [isThird, length_append, length_singleton] at length3
        omega
      rw [length1] at turn2 length2
      rw [length2] at turn3 length3
      have step1 := commifyLoop_succ turn1 more
      have step2 := commifyLoop_succ turn2 more
      have step3 := commifyLoop_succ turn3 more
      simp only [isThird, append_assoc, cons_append, nil_append, length_append, length_cons, length_nil,
        isGap] at step1 step2 step3 ⊢
      rw [show front.length + (0 + 1 + 1 + 1) + (commas + 1) = front.length + (0 + 1 + 1) + (commas + 1) + 1 by omega, step1,
        show front.length + (0 + 1 + 1) + (commas + 1) = front.length + (0 + 1) + (commas + 1) + 1 by omega, step2,
        show front.length + (0 + 1) + (commas + 1) = front.length + (commas + 1) + 1 by omega, step3, ← Nat.add_assoc]
      rw [restLength] at turn4
      rw [commifyLoop, turn4]
      simp only [bind_eq_bind, bind_some]
      rw [length_append] at isLength
      simp only [length_cons, length_nil] at isLength
      by_cases last : commas = 0
      · subst last
        rw [if_pos rfl, grouped_group someFront, grouped_short (by omega), eq_nil_of_length_eq_zero restLength]
        simp
      · have notEmpty : rest ≠ [] := fun none_ => last (by rw [← restLength, none_]; rfl)
        have later := @ih front rest (44 :: a :: b :: c :: out) notEmpty (by omega) restLength
        rw [if_neg last, later, grouped_group someFront]
        simp

end Loop

structure NumericText where
  isNegative : Bool
  whole : CString
  fraction : Option CString
  some_ : whole ≠ []
  wholeDigits : ∀ c ∈ whole, isdigit c = true
  fractionDigits : ∀ digits ∈ fraction, digits ≠ [] ∧ ∀ c ∈ digits, isdigit c = true

namespace NumericText

def sign (number : NumericText) : CString := if number.isNegative then [45] else []

def tail (number : NumericText) : CString := (number.fraction.map fun digits => 46 :: digits).getD []

def text (number : NumericText) : CString := number.sign ++ number.whole ++ number.tail

def withCommas (number : NumericText) : CString := number.sign ++ grouped number.whole ++ number.tail

end NumericText

def GetsCommas (number : NumericText) : Prop :=
  ∀ fresh rest, ∃ after, msCommifyString fresh (number.text ++ 0 :: rest) = some after ∧
    textOf after = number.withCommas ∧ (textOf after).filter (· != 44) = number.text

section Numbers
variable (number : NumericText)

theorem isdigit_cases {c : UInt8} (digit : isdigit c = true) : c ≠ 0 ∧ c ≠ 44 ∧ c ≠ 46 := by
  refine ⟨?_, ?_, ?_⟩
  all_goals
    rintro rfl
    cases digit

theorem mem_front {c : UInt8} (member : c ∈ number.sign ++ number.whole) : c ≠ 0 ∧ c ≠ 44 ∧ c ≠ 46 := by
  rcases mem_append.mp member with isSign | digit
  · unfold NumericText.sign at isSign
    split at isSign
    · rw [mem_singleton.mp isSign]
      decide
    · cases isSign
  · exact isdigit_cases (number.wholeDigits c digit)

theorem tail_cases : number.tail = [] ∨ ∃ digits, number.tail = 46 :: digits ∧ ∀ c ∈ digits, c ≠ 0 ∧ c ≠ 44 ∧ c ≠ 46 := by
  unfold NumericText.tail
  cases isFraction : number.fraction with
  | none => exact .inl rfl
  | some digits => exact .inr ⟨digits, rfl, fun c member => isdigit_cases ((number.fractionDigits digits isFraction).2 c member)⟩

theorem count_text : number.text.count 46 = if number.tail = [] then 0 else 1 := by
  have noPoint : (number.sign ++ number.whole).count 46 = 0 := count_eq_zero.mpr fun member => (mem_front number member).2.2 rfl
  rw [NumericText.text, count_append, noPoint, Nat.zero_add]
  rcases tail_cases number with isTail | ⟨digits, isTail, free⟩
  · rw [isTail]
    rfl
  · have noOther : digits.count 46 = 0 := count_eq_zero.mpr fun member => (free 46 member).2.2 rfl
    rw [isTail, count_cons_self, noOther]
    rfl

theorem commaNumber_text : commaNumber number.text = some (((number.sign ++ number.whole).length - 1) / 3) := by
  unfold commaNumber
  rw [count_text]
  rcases tail_cases number with isTail | ⟨digits, isTail, free⟩
  · rw [if_pos isTail, if_pos rfl, NumericText.text, isTail, append_nil]
  · have front : number.text.takeWhile (· != 46) = number.sign ++ number.whole := by
      have free : ∀ c ∈ number.sign ++ number.whole, (c != 46) = true := fun c member => bne_iff_ne.mpr (mem_front number member).2.2
      rw [NumericText.text, isTail, takeWhile_append_of_pos free, takeWhile_cons_of_neg (by simp), append_nil]
    have some_ : (number.sign ++ number.whole).length ≠ 0 := fun none_ =>
      number.some_ (append_eq_nil_iff.mp (eq_nil_of_length_eq_zero none_)).2
    obtain ⟨last, isLength⟩ := Nat.exists_eq_succ_of_ne_zero some_
    rw [if_neg (by rw [isTail]; nofun), front, isLength]
    rfl

theorem commifyLoop_number {gap : List UInt8} (some_ : gap ≠ []) (commas : ((number.sign ++ number.whole).length - 1) / 3 = gap.length) :
    commifyLoop (number.text.count 46) (number.text.length + gap.length)
        ⟨number.text ++ (gap ++ [0]), gap.length, number.text.count 46 == 0, 0⟩ =
      some ⟨grouped (number.sign ++ number.whole) ++ number.tail ++ [0], 0, true, 0⟩ := by
  rw [count_text]
  rcases tail_cases number with isTail | ⟨digits, isTail, free⟩
  · rw [if_pos isTail, NumericText.text, isTail, append_nil, append_nil]
    exact commifyLoop_groups 0 some_ commas
  · have noPoint : 46 ∉ digits := fun member => (free 46 member).2.2 rfl
    obtain ⟨gap', length, shift⟩ := commifyLoop_fraction (number.sign ++ number.whole) noPoint gap [0] some_ 0
    have notEmpty : gap' ≠ [] := fun none_ => by
      rw [none_] at length
      exact some_ (eq_nil_of_length_eq_zero length.symm)
    rw [← length] at commas
    have groups := @commifyLoop_groups 1 _ gap' (46 :: digits ++ [0]) notEmpty commas
    rw [length, ← shift] at groups
    rw [if_neg (by rw [isTail]; nofun), NumericText.text, isTail, length_append, append_assoc _ (46 :: digits),
      append_assoc _ (46 :: digits)]
    exact groups

theorem storeAt_resize (fresh : Nat → UInt8) (text rest : List UInt8) (commas : Nat) : ∃ gap, gap.length = commas ∧
    storeAt (resize fresh (text ++ rest) (text.length + commas + 1)) (text.length + commas) [0] = some (text ++ (gap ++ [0])) := by
  obtain ⟨added, resized, length⟩ := @resize_append fresh text (text.length + commas + 1) (by omega) rest
  obtain ⟨gap, d, isAdded⟩ : ∃ gap d, added = gap ++ [d] := by
    rcases eq_nil_or_concat added with none_ | ⟨gap, d, isAdded⟩
    · rw [none_, length_nil] at length
      omega
    · exact ⟨gap, d, isAdded.trans concat_eq_append⟩
  have isCommas : gap.length = commas := by
    rw [isAdded, length_append, length_singleton] at length
    omega
  refine ⟨gap, isCommas, ?_⟩
  have store := storeAt_byte (text ++ gap) d 0 []
  rw [length_append, append_assoc, append_assoc, isCommas] at store
  rw [resized, isAdded]
  exact store

theorem msCommifyString_run (fresh : Nat → UInt8) (rest : List UInt8) :
    ∃ stale, msCommifyString fresh (number.text ++ 0 :: rest) =
      some (grouped (number.sign ++ number.whole) ++ number.tail ++ 0 :: stale) := by
  have ended : 0 ∉ number.text := by
    unfold NumericText.text
    rw [mem_append, not_or]
    refine ⟨fun member => (mem_front number member).1 rfl, ?_⟩
    rcases tail_cases number with isTail | ⟨digits, isTail, free⟩
    · rw [isTail]
      nofun
    · rw [isTail, mem_cons, not_or]
      exact ⟨by decide, fun member => (free 0 member).1 rfl⟩
  have points : ¬ 1 < number.text.count 46 := by
    rw [count_text]
    split <;> decide
  obtain ⟨gap, isCommas, store⟩ := storeAt_resize fresh number.text (0 :: rest) (((number.sign ++ number.whole).length - 1) / 3)
  unfold msCommifyString
  rw [strlenAt_start ended, textOf_append ended]
  simp only [bind_eq_bind, bind_some]
  rw [if_neg points, commaNumber_text, bind_some, store, bind_some]
  by_cases none_ : ((number.sign ++ number.whole).length - 1) / 3 < 1
  · rw [if_pos none_, grouped_short (by omega)]
    exact ⟨rest, rfl⟩
  · have some_ : gap ≠ [] := fun isEmpty => none_ (by rw [← isCommas, isEmpty]; decide)
    have loop := commifyLoop_number number some_ isCommas.symm
    rw [if_neg none_, ← isCommas, loop]
    exact ⟨[], rfl⟩

/-- The groups come out right unless the sign makes a group of its own. -/
theorem getsCommas_iff : GetsCommas number ↔ number.isNegative = false ∨ number.whole.length % 3 ≠ 0 := by
  have front := fun c => @mem_front number c
  have noComma : 44 ∉ number.sign ++ number.whole := fun member => (front 44 member).2.1 rfl
  have tailFree : 0 ∉ number.tail ∧ 44 ∉ number.tail := by
    rcases tail_cases number with isTail | ⟨digits, isTail, free⟩
    · rw [isTail]
      exact ⟨nofun, nofun⟩
    · rw [isTail, List.mem_cons, not_or, List.mem_cons, not_or]
      exact ⟨⟨by decide, fun member => (free 0 member).1 rfl⟩, by decide, fun member => (free 44 member).2.1 rfl⟩
  have ended : 0 ∉ grouped (number.sign ++ number.whole) ++ number.tail := by
    rw [List.mem_append, not_or]
    refine ⟨fun member => ?_, tailFree.1⟩
    rcases mem_grouped noComma member with comma | here
    · cases comma
    · exact (front 0 here).1 rfl
  have removed : (grouped (number.sign ++ number.whole) ++ number.tail).filter (· != 44) = number.text := by
    have stays : number.tail.filter (· != 44) = number.tail := by
      rw [List.filter_eq_self]
      intro c member
      rw [bne_iff_ne]
      exact ne_of_mem_of_not_mem member tailFree.2
    rw [List.filter_append, filter_grouped noComma, stays, NumericText.text]
  have same : GetsCommas number ↔ grouped (number.sign ++ number.whole) = number.sign ++ grouped number.whole := by
    constructor
    · intro gets
      obtain ⟨after, run, isText, -⟩ := gets (fun _ => 0) []
      obtain ⟨stale, run'⟩ := msCommifyString_run number (fun _ => 0) []
      rw [run'] at run
      rw [← Option.some.inj run, textOf_append ended] at isText
      exact List.append_cancel_right isText
    · intro groups fresh rest
      obtain ⟨stale, run⟩ := msCommifyString_run number fresh rest
      refine ⟨_, run, ?_⟩
      rw [textOf_append ended]
      exact ⟨by rw [groups, NumericText.withCommas], removed⟩
  rw [same]
  unfold NumericText.sign
  cases number.isNegative with
  | false => exact iff_of_true rfl (.inl rfl)
  | true =>
    rw [if_pos rfl, List.singleton_append, grouped_cons 45 number.some_]
    by_cases full : number.whole.length % 3 = 0
    · rw [if_pos full]
      refine iff_of_false (fun equal => ?_) (by simp [full])
      have length := congrArg List.length equal
      simp only [List.length_append, List.length_cons, List.length_nil] at length
      omega
    · rw [if_neg full]
      exact iff_of_true rfl (.inr full)

theorem getsCommas_fails : ¬ ∀ number, GetsCommas number := by
  intro all
  have digits : (ascii "123").all isdigit = true := rfl
  obtain ⟨after, run, isText, -⟩ := all ⟨true, ascii "123", none, by decide, List.all_eq_true.mp digits, nofun⟩ (fun _ => 0) []
  have isRun : msCommifyString (fun _ => 0) (ascii "-123" ++ [0]) = some (ascii "-,123" ++ [0]) := by decide
  have same : _ = after := Option.some.inj (isRun.symm.trans run)
  rw [← same] at isText
  cases isText

end Numbers

end MapServer
