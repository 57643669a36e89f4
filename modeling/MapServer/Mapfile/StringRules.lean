import MapServer.Mapfile.Lexer

namespace MapServer
open Lib.ByteFile Lib.Scanner List Option

theorem isLetterI_iff (c : UInt8) : isLetterI c = true ↔ tolower c = 105 := by
  rw [isLetterI, beq_iff_eq]

theorem stringRules_quote {c : UInt8} (isQuote : stringQuote c = true) (rest : CString) :
    chosen stringRules (c :: rest) = some (if rest.head?.any isLetterI then (2, .quote ((c :: rest).take 2)) else (1, .quote [c])) := by
  have notBackslash : c ≠ 92 := backslash_not_quote isQuote
  have noEscape : longestEscape (c :: rest) = none := by
    unfold longestEscape
    split <;> simp_all
  have noRun : someOf isRun (c :: rest) = none := by
    simp [someOf, isRun, isQuote]
  have quote : longestQuote (c :: rest) = some (if rest.head?.any isLetterI then 2 else 1) := by
    cases rest with
    | nil => simp [longestQuote, isQuote]
    | cons i rest =>
      rw [longestQuote, if_pos isQuote]
      rfl
  simp only [stringRules, chosen, Rule.found, noEscape, noRun, quote, map_none, map_some, better_none]
  split <;> rfl

theorem stringRules_escape (rest : CString) :
    chosen stringRules (92 :: rest) = some (if rest.head?.any (fun c => stringQuote c || c == 92)
      then (2, .escape ((92 :: rest).take 2)) else (1, .escape [92])) := by
  have noQuote : longestQuote (92 :: rest) = none := by
    cases rest <;> rfl
  have noRun : someOf isRun (92 :: rest) = none := rfl
  have escape : longestEscape (92 :: rest) = some (if rest.head?.any (fun c => stringQuote c || c == 92) then 2 else 1) := by
    cases rest with
    | nil => rfl
    | cons c rest => simp [longestEscape]
  simp only [stringRules, chosen, Rule.found, noQuote, noRun, escape, map_none, map_some, better_none, none_better]
  split <;> rfl

theorem stringRules_run {c : UInt8} (run : isRun c = true) (rest : CString) :
    chosen stringRules (c :: rest) =
      some (((c :: rest).takeWhile isRun).length, .run ((c :: rest).takeWhile isRun)) := by
  simp only [isRun, Bool.and_eq_true, bne_iff_ne, Bool.not_eq_true'] at run
  have noQuote : longestQuote (c :: rest) = none := by
    cases rest <;> simp [longestQuote, run.2]
  have noEscape : longestEscape (c :: rest) = none := by
    unfold longestEscape
    split <;> simp_all
  have isOne : isRun c = true := by simp [isRun, run]
  have someRun : someOf isRun (c :: rest) = some ((c :: rest).takeWhile isRun).length := by
    rw [someOf, if_neg (by simp [isOne])]
  have text : (c :: rest).take ((c :: rest).takeWhile isRun).length = (c :: rest).takeWhile isRun :=
    (prefix_iff_eq_take.mp (List.takeWhile_prefix _)).symm
  simp only [stringRules, chosen, Rule.found, noQuote, noEscape, someRun, map_none, map_some, none_better,
    better_none, text]

def ReadsString (msyystring_begin : UInt8) (before text : CString) (outcome : Option Nat) (buffer : TokenBuffer)
    (after : CString) : Prop :=
  (readString msyystring_begin text = none ∧ outcome = none) ∨
    ∃ value tail, readString msyystring_begin text = some (value, skipI tail) ∧ buffer.Text (before ++ value) ∧
      tail <:+ text ∧ after = skipI tail ∧ outcome = some (if tail.head?.any isLetterI then 2 else 1)

theorem ReadsString.prepend {msyystring_begin : UInt8} {before consumed chunk text after : CString} {outcome : Option Nat}
    {buffer : TokenBuffer} (reads : ReadsString msyystring_begin (before ++ chunk) text outcome buffer after)
    (step : readString msyystring_begin (consumed ++ text) =
      (readString msyystring_begin text).map fun read => (chunk ++ read.1, read.2)) :
    ReadsString msyystring_begin before (consumed ++ text) outcome buffer after := by
  rcases reads with ⟨isNone, ended⟩ | ⟨value, tail, isSome, stored, isTail, rest, outcomes⟩
  · exact Or.inl ⟨by rw [step, isNone]; rfl, ended⟩
  · refine Or.inr ⟨chunk ++ value, tail, by rw [step, isSome]; rfl, ?_, ?_, rest, outcomes⟩
    · rwa [← append_assoc]
    · exact isTail.trans (suffix_append _ _)

theorem readString_run {quote : UInt8} {run : CString} (isQuote : stringQuote quote = true)
    (plain : ∀ c ∈ run, isRun c = true) (rest : CString) :
    readString quote (run ++ rest) = (readString quote rest).map fun read => (run ++ read.1, read.2) := by
  induction run with
  | nil => simp
  | cons c run ih =>
    rw [forall_mem_cons] at plain
    have isPlain := plain.1
    simp only [isRun, Bool.and_eq_true, bne_iff_ne, Bool.not_eq_true'] at isPlain
    have notQuote : c ≠ quote := by
      intro same
      rw [same, isQuote] at isPlain
      cases isPlain.2
    rw [cons_append, readString_plain isPlain.1 notQuote, ih plain.2, Option.map_map]
    rfl

theorem head_of_any {property : UInt8 → Bool} {text : CString} (any : text.head?.any property = true) :
    ∃ c rest, text = c :: rest := by
  cases text with
  | nil => cases any
  | cons c rest => exact ⟨c, rest, rfl⟩

theorem isRun_letter {c : UInt8} (letter : isLetterI c = true) : isRun c = true := by
  rw [isRun, stringQuote, Bool.and_eq_true, bne_iff_ne, Bool.not_eq_true', Bool.or_eq_false_iff, beq_eq_false_iff_ne,
    beq_eq_false_iff_ne]
  refine ⟨?_, ?_, ?_⟩ <;> (rintro rfl; cases letter)

theorem drop_quote (c : UInt8) (rest : CString) :
    (c :: rest).drop (if rest.head?.any isLetterI then 2 else 1) = skipI rest := by
  cases rest with
  | nil => rfl
  | cons i rest =>
    rw [skipI, head?_cons, any_some]
    by_cases letter : tolower i = 105
    · rw [if_pos letter, if_pos ((isLetterI_iff i).mpr letter)]
      rfl
    · rw [if_neg letter, if_neg (mt (isLetterI_iff i).mp letter)]
      rfl

theorem readString_single {quote : UInt8} (isQuote : stringQuote quote = true) {rest : CString}
    (single : rest.head?.any (fun c => stringQuote c || c == 92) = false) :
    readString quote (92 :: rest) = (readString quote rest).map fun read => (92 :: read.1, read.2) := by
  cases rest with
  | nil =>
    have differs : (92 : UInt8) ≠ quote := Ne.symm (backslash_not_quote isQuote)
    simp [readString, differs]
  | cons c rest =>
    rw [head?_cons, any_some] at single
    exact readString_backslash single rest

variable (malloc : Nat → UInt8)

theorem readMsString_reads {msyystring_begin : UInt8} (isQuote : stringQuote msyystring_begin = true) {fuel : Nat} {text : CString}
    (enough : text.length < fuel) {buffer : TokenBuffer} (fits : buffer.Fits) {before : CString} (holds : buffer.Text before) :
    ∃ outcome next after, readMsString malloc msyystring_begin fuel buffer before.length text = some (outcome, next, after) ∧
      next.Fits ∧ ReadsString msyystring_begin before text outcome next after := by
  induction fuel generalizing text buffer before with
  | zero => cases enough
  | succ fuel ih =>
    -- A match that stores `chunk` and leaves `rest` is one step of the string that is read.
    have goesOn (consumed chunk rest : CString) (isText : text = consumed ++ rest) (some_ : consumed ≠ [])
        (step : readString msyystring_begin (consumed ++ rest) =
          (readString msyystring_begin rest).map fun read => (chunk ++ read.1, read.2)) :
        ∃ outcome next after, ((appendToken malloc before.length chunk buffer).bind fun buffer =>
            readMsString malloc msyystring_begin fuel buffer (before.length + chunk.length) rest) = some (outcome, next, after) ∧
          next.Fits ∧ ReadsString msyystring_begin before text outcome next after := by
      obtain ⟨stored, isStored, storedFits, storedText⟩ := appendToken_text malloc fits holds chunk
      have positive := length_pos_iff.mpr some_
      obtain ⟨outcome, next, after, run, nextFits, reads⟩ := @ih rest (by
        rw [isText, length_append] at enough
        omega) stored storedFits (before ++ chunk) storedText
      rw [length_append] at run
      refine ⟨outcome, next, after, by rw [isStored, bind_some, run], nextFits, ?_⟩
      rw [isText]
      exact reads.prepend step
    cases text with
    | nil => exact ⟨none, buffer, [], rfl, fits, Or.inl ⟨rfl, rfl⟩⟩
    | cons c rest =>
      by_cases quoted : stringQuote c = true
      · rw [readMsString, stringRules_quote quoted]
        by_cases same : msyystring_begin = c
        · subst c
          refine ⟨some (if rest.head?.any isLetterI then 2 else 1), buffer, skipI rest, ?_, fits,
            Or.inr ⟨[], rest, readString_quote isQuote rest, by rwa [append_nil], suffix_cons _ _, rfl, rfl⟩⟩
          rw [← drop_quote msyystring_begin rest]
          cases letter : rest.head?.any isLetterI with
          | true =>
            obtain ⟨i, others, rfl⟩ := head_of_any letter
            simp
          | false => simp
        · have plain := readString_plain (backslash_not_quote quoted) (Ne.symm same)
          by_cases letter : rest.head?.any isLetterI = true
          · obtain ⟨i, others, rfl⟩ := head_of_any letter
            have runs : ∀ d ∈ [i], isRun d = true := by
              intro d member
              rw [mem_singleton.mp member]
              exact isRun_letter letter
            rw [if_pos letter]
            simp only [take_succ_cons, take_zero, headD_cons, if_neg same, drop_succ_cons, drop_zero]
            apply goesOn [c, i] [c, i] others rfl (by simp)
            have next := readString_run isQuote runs others
            rw [cons_append] at next
            rw [cons_append, plain, cons_append, next, Option.map_map]
            rfl
          · rw [if_neg letter]
            simp only [headD_cons, if_neg same, drop_succ_cons, drop_zero]
            exact goesOn [c] [c] rest rfl (by simp) (plain rest)
      · by_cases backslash : c = 92
        · subst c
          rw [readMsString, stringRules_escape]
          cases pair : rest.head?.any (fun c => stringQuote c || c == 92) with
          | true =>
            obtain ⟨d, others, rfl⟩ := head_of_any pair
            exact goesOn [92, d] [d] others rfl (by simp) (readString_pair pair others)
          | false => exact goesOn [92] [92] rest rfl (by simp) (readString_single isQuote pair)
        · have run : isRun c = true := by simp [isRun, quoted, backslash]
          rw [readMsString, stringRules_run run]
          have front := prefix_iff_eq_take.mp (List.takeWhile_prefix isRun (l := c :: rest))
          have parts := take_append_drop ((c :: rest).takeWhile isRun).length (c :: rest)
          rw [← front] at parts
          exact goesOn _ _ _ parts.symm (by simp [run]) (readString_run isQuote (fun d member => mem_takeWhile_imp member) _)

end MapServer
