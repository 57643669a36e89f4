import MapServer.Errors.Redaction

namespace MapServer
open Lib.Marks List

inductive CredentialKeyword where
  | password
  | pwd
  deriving DecidableEq

def CredentialKeyword.text : CredentialKeyword → CString
  | .password => ascii "password="
  | .pwd => ascii "pwd="

def credentialMarks : MarkSet UInt8 where
  words := [CredentialKeyword.password.text, CredentialKeyword.pwd.text]
  head := 112
  starts := by
    simp only [List.forall_mem_cons]
    exact ⟨⟨_, rfl, by decide⟩, ⟨_, rfl, by decide⟩, by simp⟩
  apart := by decide

theorem keywordText_ne {first second : CredentialKeyword} (differ : first ≠ second) : first.text ≠ second.text := by
  cases first <;> cases second <;> first | exact absurd rfl differ | decide

theorem credentialMarks_words (keyword : CredentialKeyword) : keyword.text ∈ credentialMarks.words := by
  cases keyword <;> decide

inductive CredentialValue where
  | plain (inner : CString)
  | quoted (quote : UInt8) (inner : CString)
  | braced (inner : CString)

def CredentialValue.inner : CredentialValue → CString
  | plain inner => inner
  | quoted _ inner => inner
  | braced inner => inner

def CredentialValue.opening : CredentialValue → CString
  | plain _ => []
  | quoted quote _ => [quote]
  | braced _ => [123]

def CredentialValue.closing : CredentialValue → CString
  | plain _ => []
  | quoted quote _ => [quote]
  | braced _ => [125]

structure CredentialOption where
  keyword : CredentialKeyword
  value : CredentialValue
  after : CString

def CredentialOption.textWith (option : CredentialOption) (inner : CString) : CString :=
  option.value.opening ++ (inner ++ (option.value.closing ++ option.after))

def CredentialOption.text (option : CredentialOption) : CString := option.textWith option.value.inner

def CredentialOption.redactedText (option : CredentialOption) : CString :=
  option.textWith (if option.value.inner = [] then [] else [42])

structure CredentialText where
  front : CString
  options : List CredentialOption

def CredentialText.text (text : CredentialText) : CString :=
  text.front ++ join (text.options.map fun option => (option.keyword.text, option.text))

def CredentialText.redacted (text : CredentialText) : CString :=
  text.front ++ join (text.options.map fun option => (option.keyword.text, option.redactedText))

def Escapes (quote : UInt8) : CString → Prop
  | [] => True
  | [c] => c ≠ 92 ∧ c ≠ quote
  | c :: d :: rest => if c = 92 then Escapes quote rest else c ≠ quote ∧ Escapes quote (d :: rest)

def CredentialOption.Formed (delimiter : UInt8) (option : CredentialOption) : Prop :=
  match option.value with
  | .plain inner =>
    (∀ c ∈ inner, stopsValue 0 delimiter c = false) ∧ (∀ c ∈ option.after.head?, stopsValue 0 delimiter c = true) ∧
      ∀ c ∈ (inner ++ option.after).head?, stringQuote c = false ∧ ¬ (delimiter = 59 ∧ c = 123 ∧ option.keyword = .pwd)
  | .quoted quote inner => stringQuote quote = true ∧ Escapes quote inner
  | .braced inner => delimiter = 59 ∧ option.keyword = .pwd ∧ 125 ∉ inner

def OptionsFormed : UInt8 → List CredentialOption → Prop
  | _, [] => True
  | delimiter, option :: options =>
    option.Formed delimiter ∧ credentialMarks.count option.text = 0 ∧ (options ≠ [] → option.after ≠ []) ∧
      OptionsFormed (option.after.getLastD 0) options

structure CredentialText.Formed (text : CredentialText) : Prop where
  front : credentialMarks.count text.front = 0
  options : OptionsFormed (text.front.getLastD 0) text.options

def CredentialValue.separator : CredentialValue → UInt8
  | plain _ => 0
  | quoted quote _ => quote
  | braced _ => 125

def CredentialOption.ReadsWhole (option : CredentialOption) : Prop :=
  match option.value with
  | .plain _ => True
  | .quoted quote inner => ¬ BreaksLine inner ∧ inner.getLast? ≠ some 92 ∧ ¬ [92, quote] <+: inner
  | .braced inner => ¬ BreaksLine inner ∧ inner.getLast? ≠ some 92

theorem escapes_covered {quote : UInt8} (isQuote : stringQuote quote = true) {inner : CString} (escapes : Escapes quote inner) :
    SeparatorsEscaped quote inner ∧ inner.head? ≠ some quote := by
  have notBackslash : quote ≠ 92 := by
    rintro rfl
    cases isQuote
  induction inner using Escapes.induct with
  | case1 => exact ⟨trivial, by simp⟩
  | case2 c => exact ⟨escapes.2, by simpa using escapes.2⟩
  | case3 d rest ih =>
    rw [Escapes, if_pos rfl] at escapes
    obtain ⟨covered, notFirst⟩ := ih escapes
    refine ⟨⟨Ne.symm notBackslash, ?_⟩, by simpa using Ne.symm notBackslash⟩
    by_cases escaped : d = quote
    · rw [if_pos ⟨rfl, escaped⟩]
      exact covered
    · rw [if_neg (fun both => escaped both.2)]
      cases rest with
      | nil => exact escaped
      | cons e rest =>
        refine ⟨escaped, ?_⟩
        rw [if_neg]
        · exact covered
        · rintro ⟨-, rfl⟩
          exact notFirst rfl
  | case4 c d rest plain ih =>
    rw [Escapes, if_neg plain] at escapes
    refine ⟨⟨escapes.1, ?_⟩, by simpa using escapes.1⟩
    rw [if_neg (fun both => plain both.1)]
    exact (ih escapes.2).1

theorem covered_of_not_mem {chStringSep : UInt8} {inner : CString} (absent : chStringSep ∉ inner) : SeparatorsEscaped chStringSep inner := by
  induction inner using SeparatorsEscaped.induct with
  | case1 => trivial
  | case2 c => simpa [SeparatorsEscaped, eq_comm] using absent
  | case3 c d rest _ ih =>
    rw [mem_cons, not_or] at absent
    refine ⟨Ne.symm absent.1, ?_⟩
    rw [if_neg (by
      rintro ⟨-, rfl⟩
      exact absent.2 mem_cons_self)]
    exact ih absent.2

theorem formed_separated {delimiter : UInt8} {option : CredentialOption} (formed : option.Formed delimiter)
    (separated : option.value.separator ≠ 0) :
    (option.value.separator = 39 ∨ option.value.separator = 34 ∨ option.value.separator = 125) ∧
      SeparatorsEscaped option.value.separator option.value.inner ∧ option.value.closing = [option.value.separator] ∧
      (option.ReadsWhole ↔ ¬ BreaksLine option.value.inner ∧ option.value.inner.getLast? ≠ some 92 ∧
        ¬ [92, option.value.separator] <+: option.value.inner) := by
  obtain ⟨keyword, value, after⟩ := option
  cases value with
  | plain inner => exact absurd rfl separated
  | quoted quote inner =>
    obtain ⟨isQuote, escapes⟩ := formed
    have kinds : quote = 34 ∨ quote = 39 := by simpa [stringQuote] using isQuote
    exact ⟨kinds.elim (fun double => Or.inr (Or.inl double)) Or.inl, (escapes_covered isQuote escapes).1, rfl, Iff.rfl⟩
  | braced inner =>
    obtain ⟨-, -, absent⟩ := formed
    refine ⟨Or.inr (Or.inr rfl), covered_of_not_mem absent, rfl, ?_⟩
    constructor
    · rintro ⟨line, last⟩
      exact ⟨line, last, fun escaped => absent (escaped.subset (mem_cons_of_mem _ (mem_singleton_self _)))⟩
    · rintro ⟨line, last, -⟩
      exact ⟨line, last⟩

theorem valueStart_formed {delimiter : UInt8} {option : CredentialOption} (formed : option.Formed delimiter) {inner rest : CString}
    (isInner : inner = option.value.inner ∨ inner.head? = some 42) (ends : inner ++ option.after = [] → rest = []) :
    valueStart option.keyword.text delimiter (option.textWith inner ++ rest) = (option.value.separator, option.value.opening.length) := by
  obtain ⟨keyword, value, after⟩ := option
  cases value with
  | plain own =>
    obtain ⟨-, -, first⟩ := formed
    have plainHead : ∀ c ∈ (inner ++ after).head?, stringQuote c = false ∧ ¬ (delimiter = 59 ∧ c = 123 ∧ keyword = .pwd) := by
      rcases isInner with rfl | isStar
      · exact first
      · intro c isHead
        rw [head?_append, isStar] at isHead
        cases isHead
        exact ⟨rfl, fun brace => by cases brace.2.1⟩
    have isText : CredentialOption.textWith ⟨keyword, .plain own, after⟩ inner ++ rest = inner ++ after ++ rest := rfl
    rw [isText]
    cases parts : inner ++ after with
    | nil =>
      rw [ends parts, valueStart, if_neg (by decide), if_neg (fun brace => by cases brace.2.1)]
      rfl
    | cons c others =>
      have notQuote := (plainHead c (by rw [parts]; rfl)).1
      simp only [stringQuote, Bool.or_eq_false_iff, beq_eq_false_iff_ne] at notQuote
      rw [valueStart, cons_append, headD_cons, if_neg, if_neg]
      · rfl
      · rintro ⟨isDelimiter, isBrace, isKeyword⟩
        refine (plainHead c (by rw [parts]; rfl)).2 ⟨isDelimiter, isBrace, ?_⟩
        cases keyword with
        | password => cases isKeyword
        | pwd => rfl
      · exact fun quotes => quotes.elim notQuote.2 notQuote.1
  | quoted quote own =>
    obtain ⟨isQuote, -⟩ := formed
    have kinds : quote = 34 ∨ quote = 39 := by simpa [stringQuote] using isQuote
    exact if_pos kinds.symm
  | braced own =>
    obtain ⟨isDelimiter, isKeyword, -⟩ := formed
    rw [isDelimiter, isKeyword]
    rfl

theorem count_opening {option : CredentialOption} {delimiter : UInt8} (formed : option.Formed delimiter) {kept : CString}
    (isKept : kept = [] ∨ kept = [92]) (rest : CString) :
    credentialMarks.count (option.value.opening ++ (kept ++ 42 :: rest)) = credentialMarks.count rest := by
  have plain : 112 ∉ option.value.opening ++ (kept ++ [42]) := by
    have noOpening : 112 ∉ option.value.opening := by
      obtain ⟨keyword, value, after⟩ := option
      cases value with
      | plain inner => exact not_mem_nil
      | quoted quote inner =>
        have kinds : quote = 34 ∨ quote = 39 := by simpa [stringQuote] using formed.1
        show 112 ∉ [quote]
        rcases kinds with rfl | rfl <;> decide
      | braced inner =>
        show 112 ∉ [123]
        decide
    rcases isKept with rfl | rfl <;> simp [noOpening]
  have same : option.value.opening ++ (kept ++ 42 :: rest) = option.value.opening ++ (kept ++ [42]) ++ rest := by simp
  rw [same]
  exact credentialMarks.count_plain plain rest

theorem keyword_goesOn {option : CredentialOption} {delimiter : UInt8} (formed : option.Formed delimiter)
    (separated : option.value.separator ≠ 0) {word : CString} (member : word ∈ credentialMarks.words) :
    ∀ c ∈ word, stopsValue option.value.separator delimiter c = false := by
  obtain ⟨kinds, -⟩ := formed_separated formed separated
  intro c isChar
  rw [← Bool.not_eq_true, stopsValue_iff kinds]
  simp only [credentialMarks, CredentialKeyword.text, mem_cons, not_mem_nil, or_false] at member
  have noStop : (word.all fun c => c != 13 && c != 10 && c != 39 && c != 34 && c != 125) = true := by
    rcases member with rfl | rfl <;> rfl
  have others := List.all_eq_true.mp noStop c isChar
  simp only [Bool.and_eq_true, bne_iff_ne] at others
  obtain ⟨⟨⟨⟨isReturn, isNewline⟩, single⟩, double⟩, brace⟩ := others
  rintro (same | same | same)
  · exact isReturn same
  · exact isNewline same
  · rw [same] at single double brace
    exact kinds.elim single fun others => others.elim double brace

theorem plain_ends {delimiter : UInt8} {option : CredentialOption} (formed : option.Formed delimiter)
    {parts : List (CString × CString)} (followed : parts ≠ [] → option.after ≠ []) (isPlain : option.value.separator = 0) :
    ∀ c ∈ (option.value.closing ++ option.after ++ join parts).head?, stopsValue 0 delimiter c = true := by
  obtain ⟨keyword, value, after⟩ := option
  cases value with
  | plain inner =>
    obtain ⟨-, ends, -⟩ := formed
    intro c isHead
    rw [CredentialValue.closing, nil_append, head?_append] at isHead
    cases isAfter : after.head? with
    | some d =>
      rw [isAfter] at isHead
      cases isHead
      exact ends c isAfter
    | none =>
      rw [isAfter, Option.none_or] at isHead
      have noParts : parts = [] := by
        by_contra some_
        exact followed some_ (head?_eq_none_iff.mp isAfter)
      rw [noParts] at isHead
      cases isHead
  | quoted quote inner =>
    have kinds : quote = 34 ∨ quote = 39 := by simpa [stringQuote] using formed.1
    rcases kinds with rfl | rfl <;> cases isPlain
  | braced inner => cases isPlain

theorem scanned_plainOption {delimiter : UInt8} {option : CredentialOption} (formed : option.Formed delimiter)
    {parts : List (CString × CString)} (followed : parts ≠ [] → option.after ≠ []) (isPlain : option.value.separator = 0) :
    scannedLength 0 delimiter (option.value.inner ++ (option.value.closing ++ option.after) ++ join parts) = option.value.inner.length := by
  have ends := plain_ends formed followed isPlain
  rw [append_assoc]
  refine scanned_plain delimiter ?_ ends
  obtain ⟨keyword, value, after⟩ := option
  cases value with
  | plain inner => exact formed.1
  | quoted quote inner =>
    have kinds : quote = 34 ∨ quote = 39 := by simpa [stringQuote] using formed.1
    rcases kinds with rfl | rfl <;> cases isPlain
  | braced inner => cases isPlain

section Option
variable {delimiter : UInt8} {option : CredentialOption} (formed : option.Formed delimiter) {parts : List (CString × CString)}
  (followed : parts ≠ [] → option.after ≠ [])
include formed followed

theorem scanned_option (clean : credentialMarks.Clean parts) {body : CString}
    (isBody : body = option.value.inner ++ (option.value.closing ++ option.after)) :
    (scannedLength option.value.separator delimiter (body ++ join parts) ≤ body.length ∧
      (parts ≠ [] → scannedLength option.value.separator delimiter (body ++ join parts) < body.length)) ∨
    ∃ word text others, parts = (word, text) :: others ∧
      body.length + word.length ≤ scannedLength option.value.separator delimiter (body ++ join parts) := by
  by_cases separated : option.value.separator = 0
  · have isScanned := scanned_plainOption formed followed separated
    rw [← isBody] at isScanned
    rw [separated, isScanned, isBody]
    refine Or.inl ⟨by simp, fun some_ => ?_⟩
    have positive := length_pos_iff.mpr (followed some_)
    simp only [length_append]
    omega
  · cases parts with
    | nil =>
      refine Or.inl ⟨?_, fun impossible => absurd rfl impossible⟩
      have bound := scanned_le option.value.separator delimiter (body ++ join [])
      simpa [join] using bound
    | cons part others =>
      obtain ⟨word, text⟩ := part
      have member := (clean _ mem_cons_self).1
      by_cases inside : scannedLength option.value.separator delimiter (body ++ join ((word, text) :: others)) < body.length
      · exact Or.inl ⟨Nat.le_of_lt inside, fun _ => inside⟩
      · refine Or.inr ⟨word, text, others, rfl, ?_⟩
        by_contra short
        have stops := scanned_stops option.value.separator delimiter (body ++ join ((word, text) :: others))
        generalize scannedLength option.value.separator delimiter (body ++ join ((word, text) :: others)) = count at inside short stops
        obtain ⟨more, rfl⟩ := Nat.exists_eq_add_of_le (Nat.not_lt.mp inside)
        have inWord : more < word.length := by omega
        rw [drop_length_add_append, join, drop_append_of_le_length (Nat.le_of_lt inWord),
          drop_eq_getElem_cons inWord] at stops
        have stopped := stops _ rfl
        rw [keyword_goesOn formed separated member _ (getElem_mem inWord)] at stopped
        cases stopped

theorem redactValue_formed {inner : CString} (isInner : inner = option.value.inner ∨ inner.head? = some 42) :
    redactValue option.keyword.text delimiter (option.textWith inner ++ join parts) =
      option.value.opening ++ redactText option.value.separator delimiter (inner ++ (option.value.closing ++ option.after) ++ join parts) := by
  have noParts (empty : inner ++ option.after = []) : join parts = [] := by
    have noAfter := (append_eq_nil_iff.mp empty).2
    have none_ : parts = [] := by
      by_contra some_
      exact followed some_ noAfter
    rw [none_]
    rfl
  rw [redactValue, valueStart_formed formed isInner noParts, CredentialOption.textWith, append_assoc]
  dsimp only
  rw [take_left, drop_left]

end Option

theorem keptEscape_cases (chStringSep : UInt8) (text : CString) : keptEscape chStringSep text = [] ∨ keptEscape chStringSep text = [92] := by
  rw [keptEscape]
  split
  · exact Or.inr rfl
  · exact Or.inl rfl

def partRedacted (option : CredentialOption) (delimiter : UInt8) (behind : CString) : CString :=
  let body := option.value.inner ++ (option.value.closing ++ option.after)
  let count := scannedLength option.value.separator delimiter (body ++ behind)
  option.value.opening ++
    if count = 0 then body else keptEscape option.value.separator (body ++ behind) ++ 42 :: body.drop count

theorem redactedText_eq (option : CredentialOption) : option.redactedText =
    option.value.opening ++ ((if option.value.inner = [] then [] else [42]) ++ (option.value.closing ++ option.after)) := rfl

theorem startsEscaped_iff {chStringSep : UInt8} (notNull : chStringSep ≠ 0) {inner rest : CString} (last : inner.getLast? ≠ some 92)
    (some_ : inner ≠ []) : startsEscaped chStringSep (inner ++ rest) = true ↔ [92, chStringSep] <+: inner := by
  simp only [startsEscaped, bne_iff_ne, ne_eq, notNull, not_false_eq_true, Bool.and_eq_true, true_and, isPrefixOf_iff_prefix]
  refine ⟨fun starts => ?_, fun starts => starts.trans (prefix_append _ _)⟩
  rcases prefix_or_prefix_of_prefix starts (prefix_append inner rest) with inside | shorter
  · exact inside
  · -- Otherwise the backslash would be all of the value.
    cases inner with
    | nil => exact absurd rfl some_
    | cons c inner =>
      obtain ⟨isBackslash, others⟩ := cons_prefix_cons.mp shorter
      cases inner with
      | nil => exact absurd (by rw [isBackslash]; rfl) last
      | cons d inner =>
        obtain ⟨isSep, -⟩ := cons_prefix_cons.mp others
        rw [isBackslash, isSep]
        exact ⟨inner, rfl⟩

/-- Between separators, the loop leaves one `*` where no line end, no backslash at the end and no escaped separator at the start
gets in its way. -/
theorem separated_iff {chStringSep delimiter : UInt8} (isSep : chStringSep = 39 ∨ chStringSep = 34 ∨ chStringSep = 125)
    {inner after behind : CString} (covered : SeparatorsEscaped chStringSep inner)
    (inside : scannedLength chStringSep delimiter (inner ++ ([chStringSep] ++ after) ++ behind) ≤ (inner ++ ([chStringSep] ++ after)).length) :
    (if scannedLength chStringSep delimiter (inner ++ ([chStringSep] ++ after) ++ behind) = 0 then inner ++ ([chStringSep] ++ after)
      else keptEscape chStringSep (inner ++ ([chStringSep] ++ after) ++ behind) ++
        42 :: (inner ++ ([chStringSep] ++ after)).drop (scannedLength chStringSep delimiter (inner ++ ([chStringSep] ++ after) ++ behind))) =
      (if inner = [] then [] else [42]) ++ ([chStringSep] ++ after) ↔
    ¬ BreaksLine inner ∧ inner.getLast? ≠ some 92 ∧ ¬ [92, chStringSep] <+: inner := by
  have notNull : chStringSep ≠ 0 := by
    rcases isSep with rfl | rfl | rfl <;> decide
  have isText : inner ++ ([chStringSep] ++ after) ++ behind = inner ++ chStringSep :: (after ++ behind) := by simp
  have reads (line : ¬ BreaksLine inner) := scanned_covered isSep delimiter covered line (after ++ behind)
  by_cases empty : inner = []
  · subst empty
    have stops := reads (by simp [BreaksLine])
    rw [← isText] at stops
    rw [stops]
    exact iff_of_true rfl ⟨by simp [BreaksLine], by simp, by simp⟩
  · rw [if_neg empty]
    constructor
    · intro same
      by_cases none_ : scannedLength chStringSep delimiter (inner ++ ([chStringSep] ++ after) ++ behind) = 0
      · rw [if_pos none_, append_cancel_right_eq] at same
        rw [same]
        exact ⟨by simp [BreaksLine], by simp, by simp⟩
      · rw [if_neg none_] at same
        have noEscape : keptEscape chStringSep (inner ++ ([chStringSep] ++ after) ++ behind) = [] := by
          refine (keptEscape_cases _ _).resolve_right fun kept => ?_
          rw [kept] at same
          cases head_eq_of_cons_eq same
        rw [noEscape, nil_append] at same
        have others : drop _ _ = [chStringSep] ++ after := tail_eq_of_cons_eq same
        have lengths := congrArg List.length others
        rw [length_drop] at lengths
        simp only [length_append, length_singleton] at lengths inside
        rw [isText] at lengths inside noEscape
        have line : ¬ BreaksLine inner := by
          intro breaks
          have shorter := scanned_breaksLine isSep delimiter covered breaks (chStringSep :: (after ++ behind))
          omega
        have last : inner.getLast? ≠ some 92 := by
          intro backslash
          have longer := reads line
          rw [if_pos backslash] at longer
          omega
        refine ⟨line, last, fun escaped => ?_⟩
        rw [keptEscape, if_pos ((startsEscaped_iff notNull last empty).mpr escaped)] at noEscape
        cases noEscape
    · rintro ⟨line, last, plain⟩
      have isScanned := reads line
      rw [if_neg last, Nat.add_zero, ← isText] at isScanned
      have noEscape : keptEscape chStringSep (inner ++ ([chStringSep] ++ after) ++ behind) = [] := by
        rw [isText, keptEscape, if_neg (mt (startsEscaped_iff notNull last empty).mp plain)]
      rw [isScanned, if_neg (mt length_eq_zero_iff.mp empty), noEscape, drop_left]
      rfl

theorem partRedacted_iff {delimiter : UInt8} {option : CredentialOption} (formed : option.Formed delimiter)
    {parts : List (CString × CString)} (followed : parts ≠ [] → option.after ≠ [])
    (inside : scannedLength option.value.separator delimiter (option.value.inner ++ (option.value.closing ++ option.after) ++ join parts) ≤
      (option.value.inner ++ (option.value.closing ++ option.after)).length) :
    partRedacted option delimiter (join parts) = option.redactedText ↔ option.ReadsWhole := by
  rw [partRedacted, redactedText_eq, append_cancel_left_eq]
  by_cases separated : option.value.separator = 0
  · have isScanned := scanned_plainOption formed followed separated
    have whole : option.ReadsWhole := by
      obtain ⟨keyword, value, after⟩ := option
      cases value with
      | plain inner => trivial
      | quoted quote inner =>
        have kinds : quote = 34 ∨ quote = 39 := by simpa [stringQuote] using formed.1
        rcases kinds with rfl | rfl <;> cases separated
      | braced inner => cases separated
    rw [separated, isScanned]
    refine iff_of_true ?_ whole
    by_cases empty : option.value.inner = []
    · rw [empty]
      rfl
    · rw [if_neg (mt length_eq_zero_iff.mp empty), if_neg empty, drop_left]
      rfl
  · obtain ⟨kinds, covered, isClosing, isWhole⟩ := formed_separated formed separated
    rw [isClosing] at inside ⊢
    rw [isWhole]
    exact separated_iff kinds covered inside

theorem scanned_whole {delimiter : UInt8} {option : CredentialOption} (formed : option.Formed delimiter)
    {parts : List (CString × CString)} (followed : parts ≠ [] → option.after ≠ []) (whole : option.ReadsWhole) :
    scannedLength option.value.separator delimiter (option.value.inner ++ (option.value.closing ++ option.after) ++ join parts) =
      option.value.inner.length := by
  by_cases separated : option.value.separator = 0
  · rw [separated, scanned_plainOption formed followed separated]
  · obtain ⟨kinds, covered, isClosing, isWhole⟩ := formed_separated formed separated
    obtain ⟨line, last, -⟩ := isWhole.mp whole
    have isScanned := scanned_covered kinds delimiter covered line (option.after ++ join parts)
    rw [if_neg last] at isScanned
    rw [isClosing, ← Nat.add_zero option.value.inner.length, ← isScanned]
    simp

theorem getLastD_append {back : CString} (some_ : back ≠ []) (front : CString) (c : UInt8) : (front ++ back).getLastD c = back.getLastD 0 := by
  rw [getLastD_eq_getLast?, getLast?_append_of_ne_nil _ some_, getLastD_eq_getLast?, getLast?_eq_some_getLast some_]
  rfl

/-- What the loop leaves: it goes over a keyword behind the option, or nothing behind the option changes. -/
theorem redactValue_option {delimiter : UInt8} {option : CredentialOption} (formed : option.Formed delimiter)
    {parts : List (CString × CString)} (clean : credentialMarks.Clean parts) (followed : parts ≠ [] → option.after ≠ [])
    (own : credentialMarks.count option.text = 0) :
    (credentialMarks.count (redactValue option.keyword.text delimiter (option.text ++ join parts)) < parts.length ∧
      ¬ option.ReadsWhole) ∨
    ∃ text, redactValue option.keyword.text delimiter (option.text ++ join parts) = text ++ join parts ∧
      credentialMarks.count text = 0 ∧ (parts ≠ [] → text ≠ [] ∧ text.getLastD 0 = option.after.getLastD 0) ∧
      (text = option.redactedText ↔ option.ReadsWhole) := by
  have isValue := redactValue_formed formed followed (Or.inl rfl)
  rw [CredentialOption.text, isValue, redactText]
  generalize isBody : option.value.inner ++ (option.value.closing ++ option.after) = body
  have isOwn : option.text = option.value.opening ++ body := by rw [← isBody]; rfl
  rcases scanned_option formed followed clean isBody.symm with ⟨inside, strictly⟩ | ⟨word, behind, others, rfl, beyond⟩
  · refine Or.inr ⟨partRedacted option delimiter (join parts), ?_, ?_, ?_, partRedacted_iff formed followed (by rwa [isBody])⟩
    · rw [partRedacted, isBody]
      split
      · rw [append_assoc]
      · rw [drop_append_of_le_length inside]
        simp
    · rw [partRedacted, isBody]
      split
      · rw [← isOwn, own]
      · rw [count_opening formed (keptEscape_cases _ _)]
        generalize scannedLength option.value.separator delimiter (body ++ join parts) = count
        have bound := @MarkSet.count_append_le _ _ credentialMarks (option.value.opening ++ body.take count) (body.drop count)
        rw [append_assoc, take_append_drop, ← isOwn, own] at bound
        omega
    · intro some_
      have last : body.getLastD 0 = option.after.getLastD 0 := by
        rw [← isBody, ← append_assoc, getLastD_append (followed some_)]
      have someBody : body ≠ [] := by
        rw [← isBody]
        simp [followed some_]
      rw [partRedacted, isBody]
      split
      · exact ⟨by simp [someBody], by rw [getLastD_append someBody, last]⟩
      · refine ⟨by simp, ?_⟩
        have someLeft : body.drop (scannedLength option.value.separator delimiter (body ++ join parts)) ≠ [] := by
          rw [Ne, drop_eq_nil_iff]
          exact Nat.not_le.mpr (strictly some_)
        have whole := getLastD_append someLeft (body.take (scannedLength option.value.separator delimiter (body ++ join parts))) 0
        rw [take_append_drop] at whole
        rw [← append_assoc, getLastD_append (cons_ne_nil _ _), ← last, whole]
        exact getLastD_append someLeft [42] 0
  · left
    obtain ⟨here, later⟩ := forall_mem_cons.mp clean
    have positive : scannedLength option.value.separator delimiter (body ++ join ((word, behind) :: others)) ≠ 0 := by
      obtain ⟨tail, rfl, -⟩ := credentialMarks.starts word here.1
      simp only [length_cons] at beyond
      omega
    obtain ⟨more, isCount⟩ := Nat.exists_eq_add_of_le beyond
    rw [if_neg positive, isCount, count_opening formed (keptEscape_cases _ _), Nat.add_assoc, drop_length_add_append, join,
      drop_length_add_append]
    have bound := @MarkSet.count_append_le _ _ credentialMarks ((behind ++ join others).take more) ((behind ++ join others).drop more)
    rw [take_append_drop, credentialMarks.count_cut _ (credentialMarks.cut_join later), here.2, credentialMarks.count_join later] at bound
    refine ⟨by rw [length_cons]; omega, fun whole => ?_⟩
    have isScanned := scanned_whole formed followed whole
    rw [isBody] at isScanned
    rw [isScanned, ← isBody] at beyond
    simp only [length_append] at beyond
    have someWord : 0 < word.length := by
      obtain ⟨tail, rfl, -⟩ := credentialMarks.starts word here.1
      exact Nat.succ_pos _
    omega

/-- The first option of each keyword is read whole, and the value of every other one is empty or `*` already. -/
def RedactsAll : List CredentialKeyword → List CredentialOption → Prop
  | _, [] => True
  | seen, option :: options =>
    (if option.keyword ∈ seen then option.value.inner = [] ∨ option.value.inner = [42] else option.ReadsWhole) ∧
      RedactsAll (option.keyword :: seen) options

def Redacted (done : List CredentialKeyword) : List CredentialKeyword → List CredentialOption → List (CString × CString) → Prop
  | _, [], [] => True
  | seen, option :: options, part :: parts =>
    part.1 = option.keyword.text ∧ credentialMarks.count part.2 = 0 ∧
      (if option.keyword ∈ done ∧ option.keyword ∉ seen then (part.2 = option.redactedText ↔ option.ReadsWhole)
        else part.2 = option.text) ∧
      (options ≠ [] → part.2 ≠ [] ∧ part.2.getLastD 0 = option.after.getLastD 0) ∧
      Redacted done (option.keyword :: seen) options parts
  | _, _, _ => False

theorem Redacted.clean {done seen : List CredentialKeyword} {options : List CredentialOption} {parts : List (CString × CString)}
    (redacted : Redacted done seen options parts) : credentialMarks.Clean parts ∧ parts.length = options.length := by
  induction options generalizing seen parts with
  | nil =>
    cases parts with
    | nil => exact ⟨by simp [MarkSet.Clean], rfl⟩
    | cons part parts => exact redacted.elim
  | cons option options ih =>
    cases parts with
    | nil => exact redacted.elim
    | cons part parts =>
      obtain ⟨isWord, isClean, -, -, later⟩ := redacted
      obtain ⟨clean, length⟩ := ih later
      refine ⟨forall_mem_cons.mpr ⟨⟨?_, isClean⟩, clean⟩, by rw [length_cons, length_cons, length]⟩
      rw [isWord]
      exact credentialMarks_words _

theorem Redacted.add {done seen : List CredentialKeyword} {keyword : CredentialKeyword} (member : keyword ∈ seen)
    {options : List CredentialOption} {parts : List (CString × CString)} (redacted : Redacted done seen options parts) :
    Redacted (keyword :: done) seen options parts := by
  induction options generalizing seen parts with
  | nil =>
    cases parts with
    | nil => trivial
    | cons part parts => exact redacted.elim
  | cons option options ih =>
    cases parts with
    | nil => exact redacted.elim
    | cons part parts =>
      obtain ⟨isWord, isClean, outcome, last, later⟩ := redacted
      refine ⟨isWord, isClean, ?_, last, ih (mem_cons_of_mem _ member) later⟩
      have same : option.keyword ∈ keyword :: done ∧ option.keyword ∉ seen ↔ option.keyword ∈ done ∧ option.keyword ∉ seen := by
        rw [mem_cons]
        refine ⟨fun both => ⟨both.1.resolve_left fun isKeyword => both.2 (isKeyword ▸ member), both.2⟩, fun both => ⟨Or.inr both.1, both.2⟩⟩
      rwa [if_congr same rfl rfl]

theorem redacted_text {delimiter : UInt8} {options : List CredentialOption} (formed : OptionsFormed delimiter options)
    (seen : List CredentialKeyword) : Redacted [] seen options (options.map fun option => (option.keyword.text, option.text)) := by
  induction options generalizing delimiter seen with
  | nil => trivial
  | cons option options ih =>
    obtain ⟨-, isClean, followed, later⟩ := formed
    refine ⟨rfl, isClean, by simp, fun some_ => ?_, ih later _⟩
    have isText : option.text = option.value.opening ++ (option.value.inner ++ option.value.closing) ++ option.after := by
      simp [CredentialOption.text, CredentialOption.textWith]
    dsimp only
    rw [isText, getLastD_append (followed some_)]
    exact ⟨by simp [followed some_], rfl⟩

theorem redactFrom_cut (keyword : CredentialKeyword) (last : UInt8) {parts : List (CString × CString)}
    (clean : credentialMarks.Clean parts) : credentialMarks.Cut (redactFrom keyword.text last (join parts)) := by
  have some_ : 0 < keyword.text.length := by
    cases keyword <;> decide
  rw [redactFrom]
  cases found : find keyword.text (join parts) with
  | none => exact credentialMarks.cut_join clean
  | some password =>
    cases isText : join parts with
    | nil =>
      rw [isText] at found
      cases keyword <;> cases found
    | cons c rest =>
      obtain ⟨count, isCount⟩ := Nat.exists_eq_succ_of_ne_zero (Nat.ne_of_gt (Nat.add_pos_right password some_))
      dsimp only
      rw [isCount, take_succ_cons, cons_append]
      exact credentialMarks.cut_cons (credentialMarks.cut_join clean c rest isText) _

theorem redactFrom_other {keyword other : CredentialKeyword} (differ : other ≠ keyword) {text : CString}
    {parts : List (CString × CString)} (clean : credentialMarks.Clean ((other.text, text) :: parts)) (last : UInt8) :
    redactFrom keyword.text last (join ((other.text, text) :: parts)) =
      other.text ++ text ++ redactFrom keyword.text ((other.text ++ text).getLastD last) (join parts) := by
  have distinct : ∀ part ∈ [(other.text, text)], part.1 ≠ keyword.text := by
    intro part member
    rw [mem_singleton.mp member]
    exact keywordText_ne differ
  have found := @MarkSet.find_join _ _ credentialMarks keyword.text [] [(other.text, text)] parts (credentialMarks_words _) rfl clean distinct
  rw [join, ← append_assoc]
  exact redactFrom_skip (by simpa [join] using found) last

theorem redactFrom_options {keyword : CredentialKeyword} {done seen : List CredentialKeyword} (notDone : keyword ∉ done)
    (notSeen : keyword ∉ seen) {delimiter : UInt8} {options : List CredentialOption} (formed : OptionsFormed delimiter options)
    {parts : List (CString × CString)} (redacted : Redacted done seen options parts) :
    (credentialMarks.count (redactFrom keyword.text delimiter (join parts)) < parts.length ∧ ¬ RedactsAll seen options) ∨
    ∃ after, redactFrom keyword.text delimiter (join parts) = join after ∧ Redacted (keyword :: done) seen options after := by
  induction options generalizing delimiter seen parts with
  | nil =>
    cases parts with
    | nil =>
      refine Or.inr ⟨[], ?_, trivial⟩
      cases keyword <;> rfl
    | cons part parts => exact redacted.elim
  | cons option options ih =>
    cases parts with
    | nil => exact redacted.elim
    | cons part parts =>
      obtain ⟨word, text⟩ := part
      have clean := redacted.clean.1
      obtain ⟨isWord, isClean, outcome, last, later⟩ := redacted
      obtain ⟨isFormed, own, followed, laterFormed⟩ := formed
      obtain ⟨-, laterClean⟩ := forall_mem_cons.mp clean
      have sameLength := later.clean.2
      have some_ : parts ≠ [] ↔ options ≠ [] := by
        rw [← length_pos_iff, ← length_pos_iff, sameLength]
      subst isWord
      by_cases same : option.keyword = keyword
      · subst same
        rw [if_neg (fun both => notDone both.1)] at outcome
        subst outcome
        rw [join, redactFrom_here]
        rcases redactValue_option isFormed laterClean (fun parts_ => followed (some_.mp parts_)) own with
          ⟨fewer, notWhole⟩ | ⟨left, isLeft, leftClean, leftLast, whole⟩
        · left
          rw [credentialMarks.count_word (credentialMarks_words _), length_cons]
          refine ⟨by omega, fun all => notWhole ?_⟩
          rw [RedactsAll, if_neg notSeen] at all
          exact all.1
        · refine Or.inr ⟨(option.keyword.text, left) :: parts, by rw [isLeft, join], rfl, leftClean, ?_,
            fun options_ => leftLast (some_.mpr options_), later.add mem_cons_self⟩
          rw [if_pos ⟨mem_cons_self, notSeen⟩]
          exact whole
      · have nextFormed : OptionsFormed ((option.keyword.text ++ text).getLastD delimiter) options := by
          cases options with
          | nil => trivial
          | cons next options =>
            obtain ⟨someText, isLast⟩ := last (cons_ne_nil _ _)
            rw [getLastD_append someText, isLast]
            exact laterFormed
        have notNext : keyword ∉ option.keyword :: seen := by
          rw [mem_cons, not_or]
          exact ⟨Ne.symm same, notSeen⟩
        rw [redactFrom_other same clean]
        rcases ih notNext nextFormed later with ⟨fewer, notAll⟩ | ⟨after, isAfter, next⟩
        · left
          refine ⟨?_, fun all => notAll all.2⟩
          rw [append_assoc, credentialMarks.count_word (credentialMarks_words _),
            credentialMarks.count_cut _ (redactFrom_cut _ _ laterClean), isClean, length_cons]
          omega
        · refine Or.inr ⟨(option.keyword.text, text) :: after, by rw [isAfter, join, append_assoc], rfl, isClean, ?_, last, next⟩
          have notThis : ¬ option.keyword = keyword := same
          simpa only [mem_cons, notThis, false_or] using outcome

theorem count_redactFrom (keyword : CString) (last : UInt8) (str : CString) :
    credentialMarks.count (redactFrom keyword last str) ≤ credentialMarks.count str := by
  rw [redactFrom]
  cases find keyword str with
  | none => exact Nat.le_refl _
  | some password =>
    dsimp only
    generalize (str.take password).getLastD last = delimiter
    rw [redactValue]
    obtain ⟨separator, start⟩ := valueStart keyword delimiter (str.drop (password + keyword.length))
    dsimp only
    rw [redactText, drop_drop, ← append_assoc, take_add.symm]
    generalize password + keyword.length + start = place
    split
    · rw [take_append_drop]
    · rename_i some_
      generalize isCount : scannedLength separator delimiter (str.drop place) = count at some_
      have enough : (keptEscape separator (str.drop place)).length ≤ count := by
        rcases keptEscape_cases separator (str.drop place) with kept | kept <;> rw [kept]
        · exact Nat.zero_le _
        · exact Nat.one_le_iff_ne_zero.mpr some_
      have parts : str.take place ++ keptEscape separator (str.drop place) = str.take (place + (keptEscape separator (str.drop place)).length) := by
        rw [take_add, keptEscape_take]
      rw [← append_assoc, parts, drop_drop]
      generalize (keptEscape separator (str.drop place)).length = kept at enough
      have cut : credentialMarks.Cut (42 :: str.drop (place + count)) := by
        refine credentialMarks.cut_cons ?_ _
        rw [MarkSet.Foreign]
        decide
      have plain := @MarkSet.count_plain _ _ credentialMarks [42] (by decide) (str.drop (place + count))
      rw [singleton_append] at plain
      rw [credentialMarks.count_cut _ cut, plain]
      have whole := @MarkSet.count_append_le _ _ credentialMarks (str.take (place + kept)) (str.drop (place + kept))
      have behind := @MarkSet.count_append_le _ _ credentialMarks ((str.drop (place + kept)).take (count - kept))
        ((str.drop (place + kept)).drop (count - kept))
      rw [take_append_drop] at whole
      rw [take_append_drop, drop_drop, show place + kept + (count - kept) = place + count by omega] at behind
      omega

theorem text_eq_redactedText_iff (option : CredentialOption) :
    option.text = option.redactedText ↔ option.value.inner = [] ∨ option.value.inner = [42] := by
  rw [CredentialOption.text, CredentialOption.redactedText, CredentialOption.textWith, CredentialOption.textWith,
    append_cancel_left_eq, append_cancel_right_eq]
  by_cases empty : option.value.inner = []
  · simp [empty]
  · simp [empty]

def redactedParts (options : List CredentialOption) : List (CString × CString) :=
  options.map fun option => (option.keyword.text, option.redactedText)

theorem redactedParts_clean {delimiter : UInt8} {options : List CredentialOption} (formed : OptionsFormed delimiter options) :
    credentialMarks.Clean (redactedParts options) := by
  induction options generalizing delimiter with
  | nil => simp [redactedParts, MarkSet.Clean]
  | cons option options ih =>
    obtain ⟨isFormed, own, -, later⟩ := formed
    refine forall_mem_cons.mpr ⟨⟨credentialMarks_words _, ?_⟩, ih later⟩
    dsimp only
    by_cases empty : option.value.inner = []
    · rw [← (text_eq_redactedText_iff option).mpr (Or.inl empty), own]
    · have isText : option.redactedText = option.value.opening ++ ([] ++ 42 :: (option.value.closing ++ option.after)) := by
        rw [redactedText_eq, if_neg empty]
        rfl
      have bound := @MarkSet.count_append_le _ _ credentialMarks (option.value.opening ++ option.value.inner)
        (option.value.closing ++ option.after)
      rw [append_assoc] at bound
      rw [isText, count_opening isFormed (Or.inl rfl)]
      exact Nat.le_zero.mp ((Nat.le_add_left _ _).trans (bound.trans (Nat.le_of_eq own)))

theorem redactText_redacted {delimiter : UInt8} {option : CredentialOption} (formed : option.Formed delimiter)
    {parts : List (CString × CString)} (followed : parts ≠ [] → option.after ≠ []) {inner : CString} (isInner : inner = [] ∨ inner = [42]) :
    redactText option.value.separator delimiter (inner ++ (option.value.closing ++ option.after) ++ join parts) =
      inner ++ (option.value.closing ++ option.after) ++ join parts := by
  have noEscape (rest : CString) : keptEscape option.value.separator ([42] ++ rest) = [] := by
    rw [keptEscape, if_neg]
    simp [startsEscaped]
  -- The loop stops at once, or behind the `*`.
  have outcome : scannedLength option.value.separator delimiter (inner ++ (option.value.closing ++ option.after) ++ join parts) = 0 ∨
      inner = [42] ∧ scannedLength option.value.separator delimiter (inner ++ (option.value.closing ++ option.after) ++ join parts) = 1 := by
    by_cases separated : option.value.separator = 0
    · have ends := plain_ends formed followed separated
      rw [separated, append_assoc]
      rcases isInner with rfl | rfl
      · exact Or.inl (scanned_plain delimiter (by simp) ends)
      · cases stops : stopsValue 0 delimiter 42 with
        | true => exact Or.inl (@scanned_plain delimiter [] _ (by simp) (by simpa using stops))
        | false => exact Or.inr ⟨rfl, scanned_plain delimiter (by simpa using stops) ends⟩
    · obtain ⟨kinds, -, isClosing, -⟩ := formed_separated formed separated
      have isText : inner ++ (option.value.closing ++ option.after) ++ join parts =
          inner ++ option.value.separator :: (option.after ++ join parts) := by
        rw [isClosing]
        simp
      have notStar : (42 : UInt8) ≠ option.value.separator := by
        rcases kinds with kind | kind | kind <;> rw [kind] <;> decide
      rw [isText]
      rcases isInner with rfl | rfl
      · exact Or.inl (@scanned_covered _ kinds delimiter [] trivial (by simp [BreaksLine]) _)
      · exact Or.inr ⟨rfl, @scanned_covered _ kinds delimiter [42] notStar (by simp [BreaksLine]) _⟩
  rw [redactText]
  rcases outcome with none_ | ⟨rfl, one⟩
  · rw [if_pos none_]
  · rw [one, if_neg Nat.one_ne_zero, append_assoc, noEscape]
    rfl

theorem redacted_eq_iff {seen : List CredentialKeyword} {options : List CredentialOption} {parts : List (CString × CString)}
    (redacted : Redacted [.pwd, .password] seen options parts) : parts = redactedParts options ↔ RedactsAll seen options := by
  induction options generalizing seen parts with
  | nil =>
    cases parts with
    | nil => exact iff_of_true rfl trivial
    | cons part parts => exact redacted.elim
  | cons option options ih =>
    cases parts with
    | nil => exact redacted.elim
    | cons part parts =>
      obtain ⟨word, text⟩ := part
      obtain ⟨isWord, -, outcome, -, later⟩ := redacted
      dsimp only at isWord outcome
      have every : option.keyword ∈ [CredentialKeyword.pwd, .password] := by
        cases option.keyword <;> decide
      rw [redactedParts, map_cons, List.cons.injEq, Prod.mk.injEq, ← redactedParts, ih later, RedactsAll]
      refine and_congr_left' ?_
      rw [and_iff_right isWord]
      by_cases member : option.keyword ∈ seen
      · rw [if_neg (fun both => both.2 member)] at outcome
        rw [if_pos member, outcome, text_eq_redactedText_iff]
      · rw [if_pos ⟨every, member⟩] at outcome
        rw [if_neg member, outcome]

theorem redactFrom_redacted (keyword : CredentialKeyword) {delimiter : UInt8} {options : List CredentialOption}
    (formed : OptionsFormed delimiter options) :
    redactFrom keyword.text delimiter (join (redactedParts options)) = join (redactedParts options) := by
  induction options generalizing delimiter with
  | nil => cases keyword <;> rfl
  | cons option options ih =>
    have clean := redactedParts_clean formed
    obtain ⟨isFormed, -, followed, later⟩ := formed
    have some_ (parts : redactedParts options ≠ []) : option.after ≠ [] := by
      refine followed fun empty => parts ?_
      rw [empty]
      rfl
    have isJoin : join (redactedParts (option :: options)) = option.keyword.text ++ (option.redactedText ++ join (redactedParts options)) := rfl
    by_cases same : option.keyword = keyword
    · subst same
      have isInner : (if option.value.inner = [] then [] else [42]) = option.value.inner ∨
          (if option.value.inner = [] then ([] : CString) else [42]).head? = some 42 := by
        split
        · rename_i empty
          exact Or.inl empty.symm
        · exact Or.inr rfl
      have left := redactText_redacted isFormed some_ (ite_eq_or_eq (option.value.inner = []) [] [42])
      rw [isJoin, redactFrom_here, CredentialOption.redactedText, redactValue_formed isFormed some_ isInner, left]
      simp [CredentialOption.textWith]
    · have nextFormed : OptionsFormed ((option.keyword.text ++ option.redactedText).getLastD delimiter) options := by
        cases options with
        | nil => trivial
        | cons next options =>
          have isText : option.keyword.text ++ option.redactedText = option.keyword.text ++ (option.value.opening ++
              ((if option.value.inner = [] then [] else [42]) ++ option.value.closing)) ++ option.after := by
            rw [redactedText_eq]
            simp
          rw [isText, getLastD_append (followed (cons_ne_nil _ _))]
          exact later
      have other := redactFrom_other same clean delimiter
      rw [← redactedParts, ih nextFormed, append_assoc, ← isJoin] at other
      exact other

theorem msRedactString_front {front : CString} (isFront : credentialMarks.count front = 0) (keyword : CredentialKeyword)
    {parts : List (CString × CString)} (clean : credentialMarks.Clean parts) :
    msRedactString (front ++ join parts) keyword.text = front ++ redactFrom keyword.text (front.getLastD 0) (join parts) := by
  rw [msRedactString_eq, redactFrom_skip (credentialMarks.find_clean (credentialMarks_words _) isFront (credentialMarks.cut_join clean))]

theorem msRedactCredentials_redacted {text : CredentialText} (formed : text.Formed) :
    msRedactCredentials text.redacted = text.redacted := by
  have clean := redactedParts_clean formed.options
  have isText : text.redacted = text.front ++ join (redactedParts text.options) := rfl
  have once (keyword : CredentialKeyword) : msRedactString text.redacted keyword.text = text.redacted := by
    rw [isText, msRedactString_front formed.front keyword clean, redactFrom_redacted keyword formed.options]
  exact (congrArg (msRedactString · CredentialKeyword.pwd.text) (once .password)).trans (once .pwd)

/-- The two calls leave the text that is meant just where each of them reads its option whole and no other option needs one. -/
theorem msRedactCredentials_eq_iff {text : CredentialText} (formed : text.Formed) :
    msRedactCredentials text.text = text.redacted ↔ RedactsAll [] text.options := by
  have start := redacted_text formed.options []
  have cleanStart := start.clean.1
  have cleanEnd := redactedParts_clean formed.options
  have isText : text.text = text.front ++ join (text.options.map fun option => (option.keyword.text, option.text)) := rfl
  have isRedacted : text.redacted = text.front ++ join (redactedParts text.options) := rfl
  have isCount {parts : List (CString × CString)} (clean : credentialMarks.Clean parts) :
      credentialMarks.count (text.front ++ join parts) = parts.length := by
    rw [credentialMarks.count_cut _ (credentialMarks.cut_join clean), formed.front, credentialMarks.count_join clean, Nat.zero_add]
  have sameLength : (redactedParts text.options).length = text.options.length := length_map _
  -- Where a keyword is lost the text that is meant is out of reach.
  have lost {str : CString} (fewer : credentialMarks.count str < text.options.length) (notAll : ¬ RedactsAll [] text.options) :
      str = text.redacted ↔ RedactsAll [] text.options := by
    refine iff_of_false (fun same => ?_) notAll
    rw [same, isRedacted, isCount cleanEnd, sameLength] at fewer
    exact Nat.lt_irrefl _ fewer
  have isFront (keyword : CredentialKeyword) (rest : List (CString × CString)) (clean : credentialMarks.Clean rest) :
      credentialMarks.count (text.front ++ redactFrom keyword.text (text.front.getLastD 0) (join rest)) =
        credentialMarks.count (redactFrom keyword.text (text.front.getLastD 0) (join rest)) := by
    rw [credentialMarks.count_cut _ (redactFrom_cut keyword _ clean), formed.front, Nat.zero_add]
  have first := msRedactString_front formed.front .password cleanStart
  rw [← isText] at first
  rw [show msRedactCredentials text.text =
    msRedactString (msRedactString text.text CredentialKeyword.password.text) CredentialKeyword.pwd.text from rfl, first]
  rcases redactFrom_options not_mem_nil not_mem_nil formed.options start with ⟨fewer, notAll⟩ | ⟨parts, isParts, once⟩
  · rw [msRedactString_eq]
    refine lost (Nat.lt_of_le_of_lt (count_redactFrom _ _ _) ?_) notAll
    rwa [isFront _ _ cleanStart, ← start.clean.2]
  · rw [isParts, msRedactString_front formed.front .pwd once.clean.1]
    rcases @redactFrom_options .pwd _ _ (by decide) not_mem_nil _ _ formed.options _ once with ⟨fewer, notAll⟩ | ⟨last, isLast, twice⟩
    · refine lost ?_ notAll
      rwa [isFront _ _ once.clean.1, ← once.clean.2]
    · rw [isLast, isRedacted, ← redacted_eq_iff twice]
      constructor
      · exact fun same => (credentialMarks.join_injective formed.front formed.front twice.clean.1 cleanEnd same).2
      · rintro rfl
        rfl

/-- Every value that is not empty is one `*` after it, all other text stays, and a second call changes nothing. -/
theorem msRedactCredentials_iff {text : CredentialText} (formed : text.Formed) :
    (msRedactCredentials text.text = text.redacted ∧
      msRedactCredentials (msRedactCredentials text.text) = msRedactCredentials text.text) ↔ RedactsAll [] text.options := by
  rw [← msRedactCredentials_eq_iff formed]
  refine ⟨fun both => both.1, fun same => ⟨same, ?_⟩⟩
  rw [same, msRedactCredentials_redacted formed]

theorem msRedactCredentials_iff_both :
    msRedactCredentials (ascii "host=h password='a b' user=u;pwd=\x7bd;e\x7d;uid=f") = ascii "host=h password='*' user=u;pwd=\x7b*\x7d;uid=f" ∧
      msRedactCredentials (ascii "host=h password='*' user=u;pwd=\x7b*\x7d;uid=f") = ascii "host=h password='*' user=u;pwd=\x7b*\x7d;uid=f" := by
  have formed : CredentialText.Formed ⟨ascii "host=h ", [⟨.password, .quoted 39 (ascii "a b"), ascii " user=u;"⟩,
      ⟨.pwd, .braced (ascii "d;e"), ascii ";uid=f"⟩]⟩ :=
    ⟨by decide, ⟨rfl, by simp [Escapes, ascii]⟩, by decide, by decide, ⟨rfl, rfl, by decide⟩, by decide, by decide, trivial⟩
  exact (msRedactCredentials_iff formed).mpr ⟨⟨by decide, by decide, by decide⟩, ⟨by decide, by decide⟩, trivial⟩

theorem msRedactCredentials_second :
    ∃ text : CredentialText, text.Formed ∧ text.text = ascii "host=a password=one host=b password=two" ∧
      msRedactCredentials text.text = ascii "host=a password=* host=b password=two" ∧ msRedactCredentials text.text ≠ text.redacted := by
  refine ⟨⟨ascii "host=a ", [⟨.password, .plain (ascii "one"), ascii " host=b "⟩, ⟨.password, .plain (ascii "two"), []⟩]⟩,
    ⟨by decide, ⟨by simp [stopsValue, ascii], by simp [stopsValue, ascii], by simp [stringQuote, ascii]⟩, by decide, by decide,
      ⟨by simp [stopsValue, ascii], by simp, by simp [stringQuote, ascii]⟩, by decide, by decide, trivial⟩,
    by decide, by decide, by decide⟩

end MapServer
