import MapServer.Mapfile.StringRoundTrip

/-!
`loadExpressionString` of `mapfile.c`, over a lexer whose every rule matches some text and copies no more than it matched.
-/

namespace MapServer
open Lib.ByteFile Lib.Scanner List Option

section Rules
variable {α : Type} (atof : CString → α)

/-- A match is not empty, what is copied is part of it, and a string begins with a quote. -/
structure SoundRule (rule : Rule UInt8 (MapAction α)) : Prop where
  progress : ∀ text count, rule.longest text = some count → 0 < count
  copies : ∀ msyytext token msyyleng text, rule.action msyytext = .returns token msyyleng text → text.length ≤ msyyleng
  quotes : ∀ text count quote, rule.longest text = some count → rule.action (text.take count) = .beginString quote →
    stringQuote quote = true

theorem returnRule_sound {longest : CString → Option Nat} (progress : ∀ text count, longest text = some count → 0 < count)
    (token : CString → MapToken α) : SoundRule (returnRule longest token) := by
  refine ⟨progress, ?_, ?_⟩
  · intro msyytext token msyyleng text same
    cases same
    exact Nat.le_refl _
  · intro text count quote _ impossible
    cases impossible

theorem innerRule_sound {longest : CString → Option Nat} (progress : ∀ text count, longest text = some count → 0 < count)
    (token : MapToken α) (front back : Nat) : SoundRule (innerRule longest token front back) := by
  refine ⟨progress, ?_, ?_⟩
  · intro msyytext token msyyleng text same
    cases same
    rw [length_take, length_drop]
    omega
  · intro text count quote _ impossible
    cases impossible

theorem plainRule_sound {longest : CString → Option Nat} (progress : ∀ text count, longest text = some count → 0 < count)
    {action : MapAction α} (plain : action ∈ [.skip, .comment, .beginComment, .beginInclude]) :
    SoundRule ⟨longest, fun _ => action⟩ := by
  refine ⟨progress, ?_, ?_⟩
  · intro msyytext token msyyleng text same
    subst same
    simp at plain
  · intro text count quote _ same
    subst same
    simp at plain

theorem oneOf_some {isOne : UInt8 → Bool} {text : CString} {count : Nat} (isMatch : oneOf isOne text = some count) :
    count = 1 ∧ ∃ c rest, text = c :: rest ∧ isOne c = true := by
  cases text with
  | nil => cases isMatch
  | cons c rest =>
    rw [oneOf] at isMatch
    split at isMatch
    · rename_i isOne
      cases isMatch
      exact ⟨rfl, c, rest, rfl, isOne⟩
    · cases isMatch

theorem longestWord_progress {word : CString} (some_ : word ≠ []) (text : CString) (count : Nat)
    (isMatch : longestWord word text = some count) : 0 < count := by
  rw [longestWord] at isMatch
  split at isMatch
  · cases isMatch
    exact length_pos_iff.mpr some_
  · cases isMatch

theorem pattern_progress (text : CString) (count : Nat)
    (isMatch : longestComment text = some count ∨ longestMapBinding text = some count ∨ longestRegex text = some count ∨
      longestIRegex text = some count ∨ (∃ opening closing, longestBracketed opening closing text = some count) ∨
      longestMapWord text = some count) : 0 < count := by
  rcases isMatch with comment | binding | regex | iregex | ⟨opening, closing, bracketed⟩ | word
  · unfold longestComment at comment
    split at comment <;> cases comment <;> exact Nat.succ_pos _
  · unfold longestMapBinding at binding
    split at binding
    · split at binding <;> cases binding
      exact Nat.succ_pos _
    · cases binding
  · unfold longestRegex at regex
    split at regex
    · split at regex <;> cases regex
      exact Nat.succ_pos _
    · cases regex
  · obtain ⟨inner, _, isCount⟩ := bind_eq_some_iff.mp iregex
    split at isCount <;> cases isCount
    exact Nat.succ_pos _
  · unfold longestBracketed at bracketed
    split at bracketed
    · dsimp only at bracketed
      split at bracketed <;> cases bracketed
      exact Nat.succ_pos _
    · cases bracketed
  · unfold longestMapWord at word
    split at word
    · split at word <;> cases word
      exact Nat.succ_pos _
    · cases word

theorem initialRules_sound : ∀ rule ∈ initialRules atof, SoundRule rule := by
  have single {isOne : UInt8 → Bool} (text : CString) (count : Nat) (isMatch : oneOf isOne text = some count) : 0 < count := by
    rw [(oneOf_some isMatch).1]
    exact Nat.one_pos
  have blanks (text : CString) (count : Nat) (isMatch : someOf isBlank text = some count) : 0 < count := by
    rw [someOf] at isMatch
    split at isMatch
    · cases isMatch
    · rename_i some_
      cases isMatch
      exact length_pos_iff.mpr some_
  simp only [initialRules, openingRules, mapPatternRules, forall_mem_append, forall_mem_cons, List.forall_mem_map]
  refine ⟨⟨plainRule_sound blanks (by simp),
    plainRule_sound (fun text count found => pattern_progress text count (Or.inl found)) (by simp),
    plainRule_sound (longestWord_progress (by decide)) (by simp), by simp⟩, ?_,
    returnRule_sound (longestWord_progress (by decide)) _,
    plainRule_sound (longestWord_progress (by decide)) (by simp),
    innerRule_sound (fun text count found => pattern_progress text count (Or.inr (Or.inl found))) _ _ _,
    returnRule_sound (fun text count found => (longestNumber_progress found).1) _,
    innerRule_sound (fun text count found => pattern_progress text count (Or.inr (Or.inr (Or.inr (Or.inl found))))) _ _ _,
    innerRule_sound (fun text count found => pattern_progress text count (Or.inr (Or.inr (Or.inl found)))) _ _ _,
    innerRule_sound (fun text count found => pattern_progress text count (Or.inr (Or.inr (Or.inr (Or.inr (Or.inl ⟨_, _, found⟩)))))) _ _ _,
    innerRule_sound (fun text count found => pattern_progress text count (Or.inr (Or.inr (Or.inr (Or.inr (Or.inl ⟨_, _, found⟩)))))) _ _ _,
    ⟨single, ?_, ?_⟩,
    returnRule_sound (fun text count found => pattern_progress text count (Or.inr (Or.inr (Or.inr (Or.inr (Or.inr found)))))) _,
    plainRule_sound single (by simp), returnRule_sound single _, by simp⟩
  · intro word member
    apply returnRule_sound (longestWord_progress _)
    intro empty
    have letter := List.all_eq_true.mp mapKeywords_letters word member
    rw [empty] at letter
    cases letter
  · intro msyytext token msyyleng text impossible
    cases impossible
  · intro text count quote isMatch same
    obtain ⟨rfl, c, rest, rfl, isQuote⟩ := oneOf_some isMatch
    cases same
    exact isQuote

theorem skipMultilineComment_suffix : ∀ text : CString, skipMultilineComment text <:+ text
  | [] => suffix_refl _
  | c :: rest => by
    have suffix := (skipMultilineComment_suffix rest).trans (suffix_cons c rest)
    unfold skipMultilineComment
    split
    · rename_i same
      cases same
      exact (suffix_cons _ _).trans (suffix_cons _ _)
    · rename_i same
      cases same
      exact suffix
    · exact nil_suffix

end Rules

inductive ExpressionType where
  | MS_EXPRESSION
  | MS_REGEX
  | MS_STRING
  | MS_LIST
  deriving DecidableEq

/-- The type, the string and the flag `MS_EXP_INSENSITIVE` of an `expressionObj`. -/
structure ExpressionValue where
  type : ExpressionType
  string : CString
  insensitive : Bool
  deriving DecidableEq

def firstToken (malloc : Nat → UInt8) (buffer : TokenBuffer) (value : CString) : Option (MapToken Unit × CString) :=
  (msyylexInitial (fun _ => ()) malloc ⟨buffer, true, false⟩ value).map fun (token, state, _) =>
    (token, state.buffer.data.takeWhile (· ≠ 0))

/-- `none` when the text starts with an `INCLUDE`, whose file the lexer goes on to read. -/
def loadExpressionStringIn (malloc : Nat → UInt8) (buffer : TokenBuffer) (value : CString) : Option ExpressionValue := do
  let (token, msyystring_buffer) ← firstToken malloc buffer value
  match token with
  | .INCLUDE => none
  | .MS_EXPRESSION => some ⟨.MS_EXPRESSION, msyystring_buffer, false⟩
  | .MS_REGEX => some ⟨.MS_REGEX, msyystring_buffer, false⟩
  | .MS_IREGEX => some ⟨.MS_REGEX, msyystring_buffer, true⟩
  | .MS_ISTRING => some ⟨.MS_STRING, msyystring_buffer, true⟩
  | .MS_LIST => some ⟨.MS_LIST, msyystring_buffer, false⟩
  | _ => some ⟨.MS_STRING, if value.length = msyystring_buffer.length + 2 then msyystring_buffer else value, false⟩

def loadExpressionString (value : CString) : Option ExpressionValue := loadExpressionStringIn (fun _ => 0) ⟨[], 0⟩ value

theorem takeWhile_text {buffer : TokenBuffer} {text : CString} (holds : buffer.Text text) :
    buffer.data.takeWhile (· ≠ 0) = text.takeWhile (· ≠ 0) := by
  obtain ⟨rest, data⟩ := holds
  rw [data, List.takeWhile_append]
  split
  · rename_i whole
    rw [List.takeWhile_cons_of_neg (by simp), List.append_nil]
    exact (List.takeWhile_prefix _).eq_of_length whole |>.symm
  · rfl

end MapServer
