import MapServer.Lib.TerminatedText
import MapServer.Mapfile.StringRoundTrip
import MapServer.Mapfile.Substitutions

namespace MapServer
open Lib.ByteFile Lib.TerminatedText List Option

def firstMatch (found : CString → Bool) : CString → Option Nat
  | [] => if found [] then some 0 else none
  | c :: text => if found (c :: text) then some 0 else (firstMatch found text).map (· + 1)

namespace CharBuffer

def searchFrom (found : CString → Bool) (str : List UInt8) (pos : Nat) : Option (Option Nat) := do
  let length ← strlenAt str pos
  some ((firstMatch found ((str.drop pos).take length)).map (pos + ·))

def makeRoom (old_len new_len : Nat) (str : List UInt8) (tmp_ptr : Nat) : Option (List UInt8) :=
  if old_len ≠ new_len then do
    moveAt str (tmp_ptr + new_len) (tmp_ptr + old_len) ((← strlenAt str tmp_ptr) - old_len + 1)
  else some str

section Replacing
variable (fresh : Nat → UInt8) (found : CString → Bool) (old_len : Nat) (newstr : CString)

def grow (str : List UInt8) (str_len : Nat) : List UInt8 × Nat :=
  if old_len < newstr.length then
    (resize fresh str (str_len - old_len + newstr.length + 1), str_len - old_len + newstr.length)
  else (str, str_len)

def replaceLoop : Nat → List UInt8 → Nat → Option Nat → Option (List UInt8)
  | _, str, _, none => some str
  | 0, _, _, some _ => none
  | turns + 1, str, str_len, some tmp_ptr => do
    let (str, str_len) := grow fresh old_len newstr str str_len
    let str ← makeRoom old_len newstr.length str tmp_ptr
    let str ← storeAt str tmp_ptr newstr
    let next ← searchFrom found str (tmp_ptr + newstr.length)
    replaceLoop turns str str_len next

def replaceAll (turns : Nat) (str : List UInt8) : Option (List UInt8) := do
  let tmp_ptr ← searchFrom found str 0
  let str_len ← strlenAt str 0
  replaceLoop fresh found old_len newstr turns str str_len tmp_ptr

end Replacing

/-- Without `newstr` the old text is taken out. -/
def msReplaceSubstring (fresh : Nat → UInt8) (turns : Nat) (str : List UInt8) (old : CString) (newstr : Option CString) :
    Option (List UInt8) :=
  replaceAll fresh (fun text => old.isPrefixOf text) old.length (newstr.getD []) turns str

def msCaseReplaceSubstring (fresh : Nat → UInt8) (turns : Nat) (str : List UInt8) (old : CString) (newstr : Option CString) :
    Option (List UInt8) :=
  replaceAll fresh (fun text => (old.map tolower).isPrefixOf (text.map tolower)) old.length (newstr.getD []) turns str

end CharBuffer

/-- The leftmost occurrences, which do not overlap, are replaced; what is put in is not searched again. -/
inductive Replaced (found : CString → Bool) (old_len : Nat) (newstr : CString) : CString → CString → Prop
  | none {text : CString} : (∀ before after, text = before ++ after → found after = false) → Replaced found old_len newstr text text
  | next {before old after result : CString} : found (old ++ after) = true → old.length = old_len →
      (∀ front back, before = front ++ back → back ≠ [] → found (back ++ (old ++ after)) = false) →
      Replaced found old_len newstr after result →
      Replaced found old_len newstr (before ++ (old ++ after)) (before ++ (newstr ++ result))

section Search
variable {found : CString → Bool} {text : CString}

theorem firstMatch_none (none_ : firstMatch found text = none) (before after : CString) (parts : text = before ++ after) :
    found after = false := by
  induction text generalizing before with
  | nil =>
    obtain ⟨rfl, rfl⟩ := append_eq_nil_iff.mp parts.symm
    rw [firstMatch] at none_
    cases here : found [] with
    | false => rfl
    | true =>
      rw [here] at none_
      cases none_
  | cons c text ih =>
    cases here : found (c :: text) with
    | true =>
      rw [firstMatch, here] at none_
      cases none_
    | false =>
      rw [firstMatch, here] at none_
      cases before with
      | nil =>
        rw [nil_append] at parts
        rw [← parts, here]
      | cons d before =>
        rw [cons_append, List.cons.injEq] at parts
        exact ih (map_eq_none_iff.mp none_) before parts.2

theorem firstMatch_some {place : Nat} (first : firstMatch found text = some place) : ∃ before after, text = before ++ after ∧
    before.length = place ∧ found after = true ∧
    ∀ front back, before = front ++ back → back ≠ [] → found (back ++ after) = false := by
  induction text generalizing place with
  | nil =>
    cases here : found [] with
    | false =>
      rw [firstMatch, here] at first
      cases first
    | true =>
      rw [firstMatch, here] at first
      refine ⟨[], [], rfl, Option.some.inj first, here, fun front back parts some_ => ?_⟩
      exact absurd (append_eq_nil_iff.mp parts.symm).2 some_
  | cons c text ih =>
    cases here : found (c :: text) with
    | true =>
      rw [firstMatch, here] at first
      refine ⟨[], c :: text, rfl, Option.some.inj first, here, fun front back parts some_ => ?_⟩
      exact absurd (append_eq_nil_iff.mp parts.symm).2 some_
    | false =>
      rw [firstMatch, here] at first
      obtain ⟨before_, isFirst, rfl⟩ := map_eq_some_iff.mp first
      obtain ⟨before, after, rfl, length, isFound, earlier⟩ := ih isFirst
      refine ⟨c :: before, after, rfl, by rw [length_cons, length], isFound, fun front back parts some_ => ?_⟩
      cases front with
      | nil =>
        rw [nil_append] at parts
        rw [← parts]
        exact here
      | cons d front => exact earlier front back (List.cons.inj parts).2 some_

theorem searchFrom_eq (ended : 0 ∉ text) (before after : List UInt8) :
    CharBuffer.searchFrom found (before ++ (text ++ 0 :: after)) before.length =
      some ((firstMatch found text).map (before.length + ·)) := by
  unfold CharBuffer.searchFrom
  rw [strlenAt_eq ended, drop_left]
  simp only [bind_eq_bind, bind_some]
  rw [take_left]

end Search

section Loop
variable {fresh : Nat → UInt8} {found : CString → Bool} {old_len : Nat} {newstr : CString}

theorem makeRoom_store {head old after junk : List UInt8} (isLength : old.length = old_len) (ended : 0 ∉ old ++ after)
    (fits : newstr.length ≤ old.length + junk.length) :
    ∃ stale, (CharBuffer.makeRoom old_len newstr.length (head ++ (old ++ after ++ 0 :: junk)) head.length).bind
      (storeAt · head.length newstr) = some (head ++ (newstr ++ (after ++ 0 :: stale))) := by
  subst isLength
  unfold CharBuffer.makeRoom
  by_cases same : old.length = newstr.length
  · refine ⟨junk, ?_⟩
    rw [if_neg (not_not.mpr same), bind_some, append_assoc]
    exact storeAt_after same.symm
  · obtain ⟨gap, stale, run, length, -⟩ := @moveAt_tail head old (after ++ [0]) junk newstr.length fits
    refine ⟨stale, ?_⟩
    have count : (old ++ after).length - old.length + 1 = (after ++ [0]).length := by
      rw [length_append, length_append, length_singleton]
      omega
    rw [append_assoc after, append_assoc after, singleton_append, singleton_append] at run
    rw [if_pos same, strlenAt_eq ended]
    simp only [bind_eq_bind, bind_some]
    rw [count, append_assoc old, run, bind_some, storeAt_after length.symm]

theorem replace_once {head old after junk : List UInt8} (isLength : old.length = old_len) (ended : 0 ∉ old ++ after) {str_len : Nat}
    (tracked : old_len < newstr.length → str_len = head.length + (old ++ after).length) :
    ∃ str len stale, CharBuffer.grow fresh old_len newstr (head ++ (old ++ after ++ 0 :: junk)) str_len = (str, len) ∧
      (CharBuffer.makeRoom old_len newstr.length str head.length).bind (storeAt · head.length newstr) =
        some (head ++ (newstr ++ (after ++ 0 :: stale))) ∧
      (old_len < newstr.length → len = (head ++ newstr).length + after.length) := by
  by_cases grows : old_len < newstr.length
  · have isLen := tracked grows
    rw [length_append] at isLen
    obtain ⟨added, resized, length⟩ := @resize_append fresh (head ++ (old ++ after ++ [0])) (str_len - old_len + newstr.length + 1)
      (by simp only [length_append, length_singleton]; omega) junk
    simp only [append_assoc, singleton_append] at resized
    simp only [length_append, length_singleton] at length
    obtain ⟨stale, run⟩ := @makeRoom_store old_len newstr head old after added isLength ended (by omega)
    refine ⟨_, _, stale, if_pos grows, ?_, fun _ => ?_⟩
    · rw [append_assoc] at run ⊢
      rw [resized]
      exact run
    · rw [length_append]
      omega
  · obtain ⟨stale, run⟩ := @makeRoom_store old_len newstr head old after junk isLength ended (by omega)
    exact ⟨_, _, stale, if_neg grows, run, fun more => absurd more grows⟩

def Occurs (found : CString → Bool) (old_len : Nat) : Prop := 0 < old_len ∧ ∀ text, found text = true → old_len ≤ text.length

theorem replaceLoop_eq (occurs : Occurs found old_len) {rest : CString} (ended : 0 ∉ rest) (head junk : List UInt8) {str_len turns : Nat}
    (tracked : old_len < newstr.length → str_len = head.length + rest.length) (enough : rest.length ≤ turns) :
    ∃ result stale, Replaced found old_len newstr rest result ∧
      CharBuffer.replaceLoop fresh found old_len newstr turns (head ++ (rest ++ 0 :: junk)) str_len
        ((firstMatch found rest).map (head.length + ·)) = some (head ++ (result ++ 0 :: stale)) := by
  induction turns generalizing rest head junk str_len with
  | zero =>
    obtain rfl := eq_nil_of_length_eq_zero (Nat.le_zero.mp enough)
    have none_ : firstMatch found [] = none := if_neg fun here => Nat.not_le_of_lt occurs.1 (occurs.2 [] here)
    refine ⟨[], junk, .none (firstMatch_none none_), ?_⟩
    rw [none_, map_none, CharBuffer.replaceLoop]
  | succ turns ih =>
    cases first : firstMatch found rest with
    | none =>
      refine ⟨rest, junk, .none (firstMatch_none first), ?_⟩
      rw [map_none, CharBuffer.replaceLoop]
    | some place =>
      obtain ⟨before, tail, rfl, rfl, isFound, earlier⟩ := firstMatch_some first
      obtain ⟨old, after, rfl, isLength⟩ : ∃ old after, tail = old ++ after ∧ old.length = old_len := by
        refine ⟨tail.take old_len, tail.drop old_len, (take_append_drop _ _).symm, ?_⟩
        rw [length_take, Nat.min_eq_left (occurs.2 tail isFound)]
      rw [mem_append, not_or] at ended
      have endedAfter : 0 ∉ after := fun member => ended.2 (mem_append_right _ member)
      have pos := occurs.1
      simp only [length_append] at enough tracked
      obtain ⟨str, len, stale, grown, once, trackedNext⟩ := @replace_once fresh old_len newstr (head ++ before) old after junk isLength
        ended.2 str_len (fun grows => by rw [tracked grows]; simp only [length_append]; omega)
      obtain ⟨result, stale', replaced, run⟩ := @ih after endedAfter (head ++ before ++ newstr) stale len trackedNext (by omega)
      refine ⟨before ++ (newstr ++ result), stale', .next isFound isLength earlier replaced, ?_⟩
      obtain ⟨room, isRoom, stored⟩ := bind_eq_some_iff.mp once
      have search := @searchFrom_eq found after endedAfter (head ++ before ++ newstr) stale
      simp only [append_assoc, length_append] at grown isRoom stored search run ⊢
      rw [map_some, CharBuffer.replaceLoop, grown]
      simp only [bind_eq_bind]
      rw [isRoom, bind_some, stored, bind_some, Nat.add_assoc, search, bind_some, run]

end Loop

section Functions
variable {old text : CString}

theorem occurs_start (some_ : old ≠ []) : Occurs (fun text => old.isPrefixOf text) old.length :=
  ⟨length_pos_iff.mpr some_, fun _ here => (List.isPrefixOf_iff_prefix.mp here).length_le⟩

theorem occurs_ignoringCase (some_ : old ≠ []) : Occurs (fun text => (old.map tolower).isPrefixOf (text.map tolower)) old.length := by
  refine ⟨length_pos_iff.mpr some_, fun text here => ?_⟩
  have length := (List.isPrefixOf_iff_prefix.mp here).length_le
  rwa [length_map, length_map] at length

theorem replaceAll_eq {found : CString → Bool} {old_len : Nat} (occurs : Occurs found old_len) (fresh : Nat → UInt8) (newstr : CString)
    (ended : 0 ∉ text) {turns : Nat} (enough : text.length ≤ turns) :
    ∃ result stale, Replaced found old_len newstr text result ∧
      CharBuffer.replaceAll fresh found old_len newstr turns (text ++ [0]) = some (result ++ 0 :: stale) := by
  obtain ⟨result, stale, replaced, run⟩ := @replaceLoop_eq fresh found old_len newstr occurs text ended [] [] text.length turns
    (fun _ => (Nat.zero_add _).symm) enough
  have search := @searchFrom_eq found text ended [] []
  refine ⟨result, stale, replaced, ?_⟩
  unfold CharBuffer.replaceAll
  rw [nil_append, length_nil] at search
  rw [search, strlenAt_start ended]
  exact run

theorem msReplaceSubstring_none {newstr : CString} (none_ : ∀ before after, text = before ++ after → old.isPrefixOf after = false) :
    msReplaceSubstring old newstr text = text := by
  induction text with
  | nil => rw [msReplaceSubstring]
  | cons c text ih =>
    have later := ih fun before after parts => none_ (c :: before) after (congrArg _ parts)
    rw [msReplaceSubstring, none_ [] (c :: text) rfl, if_neg Bool.false_ne_true, later]

theorem msReplaceSubstring_next {newstr before tail : CString} (some_ : old ≠ []) (isFound : old.isPrefixOf tail = true)
    (earlier : ∀ front back, before = front ++ back → back ≠ [] → old.isPrefixOf (back ++ tail) = false) :
    msReplaceSubstring old newstr (before ++ tail) = before ++ (newstr ++ msReplaceSubstring old newstr (tail.drop old.length)) := by
  induction before with
  | nil =>
    obtain ⟨d, others, rfl⟩ := exists_cons_of_ne_nil some_
    cases tail with
    | nil => cases isFound
    | cons c tail =>
      rw [nil_append, msReplaceSubstring, if_pos isFound]
      rfl
  | cons c before ih =>
    have later := ih fun front back parts => earlier (c :: front) back (congrArg _ parts)
    rw [cons_append, msReplaceSubstring, ← cons_append, earlier [] (c :: before) rfl (cons_ne_nil _ _),
      if_neg Bool.false_ne_true, later]
    rfl

theorem Replaced.eq_msReplaceSubstring {newstr result : CString} (some_ : old ≠ [])
    (replaced : Replaced (fun text => old.isPrefixOf text) old.length newstr text result) :
    result = msReplaceSubstring old newstr text := by
  induction replaced with
  | none none_ => exact (msReplaceSubstring_none none_).symm
  | next isFound length earlier _ ih => rw [msReplaceSubstring_next some_ isFound earlier, ← length, drop_left, ih]

theorem strcasestr_none (none_ : ∀ before after, text = before ++ after → (old.map tolower).isPrefixOf (after.map tolower) = false) :
    strcasestr old text = none := by
  induction text with
  | nil =>
    refine if_neg fun isEmpty => ?_
    have here := none_ [] [] rfl
    rw [isEmpty] at here
    cases here
  | cons c text ih =>
    have later := ih fun before after parts => none_ (c :: before) after (congrArg _ parts)
    rw [strcasestr, none_ [] (c :: text) rfl, if_neg Bool.false_ne_true, later]
    rfl

theorem strcasestr_some {before tail : CString} (some_ : tail ≠ []) (isFound : (old.map tolower).isPrefixOf (tail.map tolower) = true)
    (earlier : ∀ front back, before = front ++ back → back ≠ [] →
      (old.map tolower).isPrefixOf ((back ++ tail).map tolower) = false) :
    strcasestr old (before ++ tail) = some (before, tail) := by
  induction before with
  | nil =>
    obtain ⟨c, rest, rfl⟩ := exists_cons_of_ne_nil some_
    rw [nil_append, strcasestr, if_pos isFound]
  | cons c before ih =>
    have later := ih fun front back parts => earlier (c :: front) back (congrArg _ parts)
    have here := earlier [] (c :: before) rfl (cons_ne_nil _ _)
    rw [cons_append] at here ⊢
    rw [strcasestr, here, if_neg Bool.false_ne_true, later]
    rfl

theorem Replaced.eq_replaceFrom {newstr result : CString} (some_ : old ≠ [])
    (replaced : Replaced (fun text => (old.map tolower).isPrefixOf (text.map tolower)) old.length newstr text result) {fuel : Nat}
    (enough : text.length ≤ fuel) : result = replaceFrom old newstr fuel text := by
  have pos := length_pos_iff.mpr some_
  induction replaced generalizing fuel with
  | none none_ =>
    cases fuel with
    | zero => rfl
    | succ fuel => rw [replaceFrom, strcasestr_none none_]
  | @next before found after result isFound length earlier _ ih =>
    simp only [length_append] at enough
    obtain ⟨fuel, rfl⟩ : ∃ less, fuel = less + 1 := ⟨fuel - 1, by omega⟩
    have notEmpty : found ++ after ≠ [] := fun isEmpty => by
      rw [(append_eq_nil_iff.mp isEmpty).1, length_nil] at length
      omega
    rw [replaceFrom, strcasestr_some notEmpty isFound earlier]
    dsimp only
    rw [← length, drop_left, ← ih (by omega), append_assoc]

theorem Replaced.ended {found : CString → Bool} {old_len : Nat} {newstr result : CString}
    (replaced : Replaced found old_len newstr text result) (ended : 0 ∉ text) (newEnded : 0 ∉ newstr) : 0 ∉ result := by
  induction replaced with
  | none none_ => exact ended
  | next isFound length earlier _ ih =>
    simp only [mem_append, not_or] at ended ⊢
    exact ⟨ended.1, newEnded, ih ended.2.2⟩

/-- A replacement in a buffer ends with all accesses inside of it, and leaves the one text in which the occurrences are replaced. -/
structure ReplacesExactly (found : CString → Bool) (old_len : Nat) (newstr text whole : CString) (run : Nat → Option (List UInt8)) :
    Prop where
  ends : ∀ turns, text.length ≤ turns → ∃ after, run turns = some after ∧ textOf after = whole
  replaced : ∀ result, Replaced found old_len newstr text result ↔ result = whole

theorem replacesExactly_of {found : CString → Bool} {old_len : Nat} {newstr whole : CString} (occurs : Occurs found old_len)
    (fresh : Nat → UInt8) (ended : 0 ∉ text) (newEnded : 0 ∉ newstr)
    (isWhole : ∀ result, Replaced found old_len newstr text result → result = whole) :
    ReplacesExactly found old_len newstr text whole fun turns => CharBuffer.replaceAll fresh found old_len newstr turns (text ++ [0]) := by
  constructor
  · intro turns enough
    obtain ⟨result, stale, replaced, run⟩ := replaceAll_eq occurs fresh newstr ended enough
    refine ⟨_, run, ?_⟩
    rw [textOf_append (replaced.ended ended newEnded), isWhole result replaced]
  · intro result
    refine ⟨isWhole result, ?_⟩
    rintro rfl
    obtain ⟨result, stale, replaced, run⟩ := replaceAll_eq occurs fresh newstr ended (Nat.le_refl text.length)
    rwa [isWhole result replaced] at replaced

theorem replaceSubstrings_exact (fresh : Nat → UInt8) (old text : CString) (newstr : Option CString) (some_ : old ≠ [])
    (ended : 0 ∉ text) (newEnded : 0 ∉ newstr.getD []) :
    ReplacesExactly (fun text => old.isPrefixOf text) old.length (newstr.getD []) text
      (msReplaceSubstring old (newstr.getD []) text)
      (fun turns => CharBuffer.msReplaceSubstring fresh turns (text ++ [0]) old newstr) ∧
    ReplacesExactly (fun text => (old.map tolower).isPrefixOf (text.map tolower)) old.length (newstr.getD []) text
      (msCaseReplaceSubstring old (newstr.getD []) text)
      (fun turns => CharBuffer.msCaseReplaceSubstring fresh turns (text ++ [0]) old newstr) :=
  ⟨replacesExactly_of (occurs_start some_) fresh ended newEnded fun _ replaced => replaced.eq_msReplaceSubstring some_,
    replacesExactly_of (occurs_ignoringCase some_) fresh ended newEnded fun _ replaced => replaced.eq_replaceFrom some_ (Nat.le_refl _)⟩

theorem replaceSubstrings_exact_overlap :
    ReplacesExactly (fun text => (ascii "aa").isPrefixOf text) 2 (ascii "baab") (ascii "aaaA")
      (msReplaceSubstring (ascii "aa") (ascii "baab") (ascii "aaaA"))
      (fun turns => CharBuffer.msReplaceSubstring (fun _ => 0) turns (ascii "aaaA" ++ [0]) (ascii "aa") (some (ascii "baab"))) ∧
    ReplacesExactly (fun text => ((ascii "aa").map tolower).isPrefixOf (text.map tolower)) 2 (ascii "baab") (ascii "aaaA")
      (msCaseReplaceSubstring (ascii "aa") (ascii "baab") (ascii "aaaA"))
      (fun turns => CharBuffer.msCaseReplaceSubstring (fun _ => 0) turns (ascii "aaaA" ++ [0]) (ascii "aa") (some (ascii "baab"))) :=
  replaceSubstrings_exact (fun _ => 0) (ascii "aa") (ascii "aaaA") (some (ascii "baab")) (by decide) (by decide) (by decide)

end Functions

end MapServer
