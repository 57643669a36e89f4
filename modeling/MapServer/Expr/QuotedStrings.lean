import MapServer.Expr.LexerSteps

namespace MapServer
open Lib.Scanner List Option
open Lib.Quoting (encode)

def escaped (escapes : UInt8 → Bool) (text : CString) : CString :=
  text.flatMap fun c => if escapes c then [92, c] else [c]

def StaysQuoted (quote : UInt8) (escapes : UInt8 → Bool) (text : CString) : Prop :=
  (quote ∈ text → escapes quote = true) ∧ ∀ front back, text = front ++ 92 :: back →
    ∃ c rest, back = c :: rest ∧ c ≠ 92 ∧ c ≠ quote ∧ (stringQuote c = true → escapes c = true)

def FollowsBackslash (quote : UInt8) (escapes : UInt8 → Bool) (text : CString) : Prop :=
  ∃ c rest, text = c :: rest ∧ c ≠ 92 ∧ c ≠ quote ∧ (stringQuote c = true → escapes c = true)

section Strings
variable {quote : UInt8} {escapes : UInt8 → Bool}

theorem staysQuoted_nil : StaysQuoted quote escapes [] := by
  constructor
  · intro member
    cases member
  · intro front back parts
    cases front <;> cases parts

variable {c : UInt8} {text : CString}

theorem staysQuoted_cons : StaysQuoted quote escapes (c :: text) ↔
    (c = quote → escapes quote = true) ∧ (c = 92 → FollowsBackslash quote escapes text) ∧
      StaysQuoted quote escapes text := by
  constructor
  · rintro ⟨noQuote, backslashes⟩
    refine ⟨fun same => noQuote (same ▸ mem_cons_self), ?_, fun member => noQuote (mem_cons_of_mem _ member), ?_⟩
    · rintro rfl
      exact backslashes [] text rfl
    · intro front back parts
      exact backslashes (c :: front) back (by rw [parts]; rfl)
  · rintro ⟨first, follows, noQuote, backslashes⟩
    constructor
    · intro member
      rcases mem_cons.mp member with rfl | inText
      · exact first rfl
      · exact noQuote inText
    · intro front back parts
      cases front with
      | nil =>
        cases parts
        exact follows rfl
      | cons d front =>
        rw [cons_append] at parts
        exact backslashes front back (tail_eq_of_cons_eq parts)

theorem escaped_cons (c : UInt8) (text : CString) :
    escaped escapes (c :: text) = (if escapes c then [92, c] else [c]) ++ escaped escapes text := rfl

theorem escaped_cons_of_escapes (isEscaped : escapes c = true) (text : CString) :
    escaped escapes (c :: text) = 92 :: c :: escaped escapes text := by
  rw [escaped_cons, if_pos isEscaped]
  rfl

theorem escaped_cons_of_not (notEscaped : escapes c = false) (text : CString) :
    escaped escapes (c :: text) = c :: escaped escapes text := by
  rw [escaped_cons, notEscaped]
  rfl

theorem escaped_none (text : CString) : escaped (fun _ => false) text = text := by
  simp [escaped]

theorem readString_quote (isQuote : stringQuote quote = true) (rest : CString) :
    readString quote (quote :: rest) = some ([], skipI rest) := by
  have notBackslash : quote ≠ 92 := by
    rintro rfl
    cases isQuote
  rw [readString, if_pos rfl]
  intro _ _ same
  exact absurd same notBackslash

theorem readString_plain (notBackslash : c ≠ 92) (notQuote : c ≠ quote) (rest : CString) :
    readString quote (c :: rest) = (readString quote rest).map fun read => (c :: read.1, read.2) := by
  rw [readString, if_neg notQuote]
  intro _ _ same
  exact absurd same notBackslash

theorem readString_pair (pair : (stringQuote c || c == 92) = true) (rest : CString) :
    readString quote (92 :: c :: rest) = (readString quote rest).map fun read => (c :: read.1, read.2) := by
  rw [readString, if_pos pair]

theorem readString_backslash (single : (stringQuote c || c == 92) = false) (rest : CString) :
    readString quote (92 :: c :: rest) = (readString quote (c :: rest)).map fun read => (92 :: read.1, read.2) := by
  rw [readString, single, if_neg Bool.false_ne_true]

theorem prepend_eq_some {read : Option (CString × CString)} {rest : CString}
    (same : (read.map fun read => (c :: read.1, read.2)) = some (text, rest)) :
    ∃ others, text = c :: others ∧ read = some (others, rest) := by
  obtain ⟨⟨value, after⟩, rfl, equal⟩ := map_eq_some_iff.mp same
  cases equal
  exact ⟨value, rfl, rfl⟩

variable (isQuote : stringQuote quote = true) (onlyQuotes : ∀ c, escapes c = true → stringQuote c = true)

theorem backslash_not_quote (isQuote : stringQuote c = true) : c ≠ 92 := by
  rintro rfl
  cases isQuote

include isQuote onlyQuotes

theorem readString_staysQuoted (tail : CString) : ∀ text, StaysQuoted quote escapes text →
    readString quote (escaped escapes text ++ quote :: tail) = some (text, skipI tail)
  | [], _ => readString_quote isQuote tail
  | c :: text, stays => by
    obtain ⟨noQuote, follows, staysText⟩ := staysQuoted_cons.mp stays
    have others := readString_staysQuoted tail text staysText
    cases isEscaped : escapes c with
    | true =>
      rw [escaped_cons_of_escapes isEscaped, cons_append, cons_append,
        readString_pair (by rw [onlyQuotes c isEscaped]; rfl), others]
      rfl
    | false =>
      rw [escaped_cons_of_not isEscaped, cons_append]
      by_cases backslash : c = 92
      · subst c
        obtain ⟨d, rest, rfl, notBackslash, notQuote, escapesQuotes⟩ := follows rfl
        cases nextEscaped : escapes d with
        | true =>
          have after := readString_staysQuoted tail rest (staysQuoted_cons.mp staysText).2.2
          rw [escaped_cons_of_escapes nextEscaped, cons_append, cons_append, readString_pair rfl,
            readString_plain notBackslash notQuote, after]
          rfl
        | false =>
          have single : (stringQuote d || d == 92) = false := by
            cases quoted : stringQuote d with
            | true => rw [escapesQuotes quoted] at nextEscaped; cases nextEscaped
            | false => simp [notBackslash]
          rw [escaped_cons_of_not nextEscaped, cons_append] at others ⊢
          rw [readString_backslash single, others]
          rfl
      · have notQuote : c ≠ quote := by
          rintro rfl
          rw [noQuote rfl] at isEscaped
          cases isEscaped
        rw [readString_plain backslash notQuote, others]
        rfl

theorem readString_length (tail : CString) : ∀ (text : CString) (read : CString × CString),
    readString quote (escaped escapes text ++ quote :: tail) = some read → read.1.count quote = text.count quote →
      read.1.length ≤ text.length
  | [], read, isRead, _ => by
    have closed : readString quote (quote :: tail) = some read := isRead
    rw [readString_quote isQuote] at closed
    cases closed
    exact Nat.le_refl _
  | c :: text, read, isRead, counts => by
    cases isEscaped : escapes c with
    | true =>
      rw [escaped_cons_of_escapes isEscaped, cons_append, cons_append,
        readString_pair (by rw [onlyQuotes c isEscaped]; rfl)] at isRead
      obtain ⟨inner, isInner, rfl⟩ := map_eq_some_iff.mp isRead
      rw [count_cons, count_cons] at counts
      exact Nat.succ_le_succ (readString_length tail text inner isInner (by omega))
    | false =>
      rw [escaped_cons_of_not isEscaped, cons_append] at isRead
      by_cases backslash : c = 92
      · subst c
        have other : (92 == quote) = false := beq_false_of_ne (Ne.symm (backslash_not_quote isQuote))
        cases text with
        | nil =>
          have closed : readString quote (92 :: quote :: tail) = some read := isRead
          rw [readString_pair (by rw [isQuote]; rfl)] at closed
          obtain ⟨inner, _, rfl⟩ := map_eq_some_iff.mp closed
          rw [count_cons_self, count_cons, other] at counts
          simp at counts
        | cons d text =>
          rw [count_cons, other] at counts
          cases nextEscaped : escapes d with
          | true =>
            rw [escaped_cons_of_escapes nextEscaped, cons_append, cons_append, readString_pair rfl] at isRead
            obtain ⟨inner, isInner, rfl⟩ := map_eq_some_iff.mp isRead
            by_cases closes : d = quote
            · subst d
              rw [readString_quote isQuote] at isInner
              cases isInner
              simp
            · rw [readString_plain (backslash_not_quote (onlyQuotes d nextEscaped)) closes] at isInner
              obtain ⟨last, isLast, rfl⟩ := map_eq_some_iff.mp isInner
              simp only [count_cons, other] at counts
              have bound := readString_length tail text last isLast (by simp only [Bool.false_eq_true, if_false] at counts; omega)
              simp only [length_cons]
              omega
          | false =>
            rw [escaped_cons_of_not nextEscaped, cons_append] at isRead
            cases single : stringQuote d || d == 92 with
            | true =>
              rw [readString_pair single] at isRead
              obtain ⟨inner, isInner, rfl⟩ := map_eq_some_iff.mp isRead
              simp only [count_cons, Bool.false_eq_true, if_false, Nat.add_zero] at counts
              have bound := readString_length tail text inner isInner (by omega)
              simp only [length_cons]
              omega
            | false =>
              rw [readString_backslash single] at isRead
              obtain ⟨inner, isInner, rfl⟩ := map_eq_some_iff.mp isRead
              rw [count_cons, other] at counts
              have bound := readString_length tail (d :: text) inner
                (by rw [escaped_cons_of_not nextEscaped, cons_append]; exact isInner)
                (by simpa only [Bool.false_eq_true, if_false, Nat.add_zero] using counts)
              exact Nat.succ_le_succ bound
      · by_cases closes : c = quote
        · subst c
          rw [readString_quote isQuote] at isRead
          cases isRead
          exact Nat.zero_le _
        · rw [readString_plain backslash closes] at isRead
          obtain ⟨inner, isInner, rfl⟩ := map_eq_some_iff.mp isRead
          rw [count_cons, count_cons] at counts
          exact Nat.succ_le_succ (readString_length tail text inner isInner (by omega))

theorem staysQuoted_of_readString (tail : CString) : ∀ text rest,
    readString quote (escaped escapes text ++ quote :: tail) = some (text, rest) → StaysQuoted quote escapes text
  | [], _, _ => staysQuoted_nil
  | c :: text, rest, isRead => by
    rw [staysQuoted_cons]
    cases isEscaped : escapes c with
    | true =>
      rw [escaped_cons_of_escapes isEscaped, cons_append, cons_append,
        readString_pair (by rw [onlyQuotes c isEscaped]; rfl)] at isRead
      obtain ⟨_, same, isInner⟩ := prepend_eq_some isRead
      cases same
      refine ⟨fun same => same ▸ isEscaped, ?_, staysQuoted_of_readString tail text rest isInner⟩
      rintro rfl
      cases onlyQuotes 92 isEscaped
    | false =>
      rw [escaped_cons_of_not isEscaped, cons_append] at isRead
      by_cases backslash : c = 92
      · subst c
        have notQuote : (92 : UInt8) ≠ quote := Ne.symm (backslash_not_quote isQuote)
        refine ⟨fun same => absurd same notQuote, ?_⟩
        cases text with
        | nil =>
          have closed : readString quote (92 :: quote :: tail) = some ([92], rest) := isRead
          rw [readString_pair (by rw [isQuote]; rfl)] at closed
          obtain ⟨_, same, _⟩ := prepend_eq_some closed
          exact absurd (head_eq_of_cons_eq same) notQuote
        | cons d text =>
          cases nextEscaped : escapes d with
          | true =>
            rw [escaped_cons_of_escapes nextEscaped, cons_append, cons_append, readString_pair rfl] at isRead
            obtain ⟨_, same, isInner⟩ := prepend_eq_some isRead
            cases same
            have isOther := onlyQuotes d nextEscaped
            have stays : d ≠ quote := by
              rintro rfl
              rw [readString_quote isQuote] at isInner
              cases isInner
            rw [readString_plain (backslash_not_quote isOther) stays] at isInner
            obtain ⟨_, same, isLast⟩ := prepend_eq_some isInner
            cases same
            refine ⟨fun _ => ⟨d, text, rfl, backslash_not_quote isOther, stays, fun _ => nextEscaped⟩, ?_⟩
            rw [staysQuoted_cons]
            exact ⟨fun same => absurd same stays, fun same => absurd same (backslash_not_quote isOther),
              staysQuoted_of_readString tail text rest isLast⟩
          | false =>
            rw [escaped_cons_of_not nextEscaped, cons_append] at isRead
            cases single : stringQuote d || d == 92 with
            | true =>
              -- The two characters are read as one, so that too much would have to be read of the rest.
              rw [readString_pair single] at isRead
              obtain ⟨value, same, isInner⟩ := prepend_eq_some isRead
              cases same
              have bound := readString_length isQuote onlyQuotes tail text _ isInner
                (by rw [count_cons, beq_false_of_ne notQuote]; rfl)
              simp at bound
            | false =>
              rw [readString_backslash single] at isRead
              obtain ⟨value, same, isInner⟩ := prepend_eq_some isRead
              cases same
              rw [Bool.or_eq_false_iff, beq_eq_false_iff_ne] at single
              have differs : d ≠ quote := by
                rintro rfl
                rw [isQuote] at single
                cases single.1
              refine ⟨fun _ => ⟨d, text, rfl, single.2, differs, fun quoted => ?_⟩, ?_⟩
              · rw [single.1] at quoted
                cases quoted
              · apply staysQuoted_of_readString tail (d :: text) rest
                rw [escaped_cons_of_not nextEscaped, cons_append]
                exact isInner
      · have notQuote : c ≠ quote := by
          rintro rfl
          rw [readString_quote isQuote] at isRead
          cases isRead
        rw [readString_plain backslash notQuote] at isRead
        obtain ⟨_, same, isInner⟩ := prepend_eq_some isRead
        cases same
        exact ⟨fun same => absurd same notQuote, fun same => absurd same backslash,
          staysQuoted_of_readString tail text rest isInner⟩

omit isQuote onlyQuotes

def Bracketed (text : CString) : Prop := ∃ inner, text = 91 :: (inner ++ [93])

def ReadsBack (quote : UInt8) (escapes : UInt8 → Bool) (text : CString) : Prop :=
  StaysQuoted quote escapes text ∧ ¬ (quote ∉ text ∧ Bracketed text)

theorem mem_escaped (notBackslash : c ≠ 92) : c ∈ escaped escapes text ↔ c ∈ text := by
  rw [escaped, mem_flatMap]
  constructor
  · rintro ⟨d, member, same⟩
    split at same
    · simp only [mem_cons, not_mem_nil, or_false] at same
      rcases same with rfl | rfl
      · exact absurd rfl notBackslash
      · exact member
    · rw [mem_singleton] at same
      exact same ▸ member
  · intro member
    refine ⟨c, member, ?_⟩
    split <;> simp

theorem escaped_append (first second : CString) :
    escaped escapes (first ++ second) = escaped escapes first ++ escaped escapes second := flatMap_append

theorem getLast?_escaped (text : CString) : (escaped escapes text).getLast? = text.getLast? := by
  rcases eq_nil_or_concat text with rfl | ⟨front, c, rfl⟩
  · rfl
  · rw [concat_eq_append, escaped_append, escaped_cons]
    split <;> simp [escaped]

theorem longestQuotedBinding_bracket {isQuote : UInt8 → Bool} (quoted : isQuote quote = true) (rest : CString) :
    longestQuotedBinding isQuote (quote :: 91 :: rest) = (bracketed 93 quote rest).map (· + 2) := by
  rw [longestQuotedBinding, if_pos quoted]

theorem longestQuotedBinding_other {isQuote : UInt8 → Bool} (noBracket : c ≠ 91) (rest : CString) :
    longestQuotedBinding isQuote (quote :: c :: rest) = none := by
  unfold longestQuotedBinding
  split
  · rename_i same
    cases same
    exact absurd rfl noBracket
  · rfl

theorem quotedBinding_none_iff {isQuote : UInt8 → Bool} (quoted : isQuote quote = true) (notBackslash : quote ≠ 92)
    (noBracket : quote ≠ 91 ∧ quote ≠ 93) (open_ : escapes 91 = false) {tail : CString} (absent : quote ∉ text)
    (boundary : tail.head? ≠ some quote) :
    longestQuotedBinding isQuote (quote :: (escaped escapes text ++ quote :: tail)) = none ↔ ¬ Bracketed text := by
  cases text with
  | nil =>
    have noBinding : longestQuotedBinding isQuote (quote :: quote :: tail) = none :=
      longestQuotedBinding_other noBracket.1 tail
    refine ⟨?_, fun _ => noBinding⟩
    rintro _ ⟨_, same⟩
    cases same
  | cons c text =>
    by_cases isOpen : c = 91
    · subst c
      rw [mem_cons, not_or] at absent
      have absentInside : quote ∉ escaped escapes text := fun member => absent.2 ((mem_escaped notBackslash).mp member)
      rw [escaped_cons_of_not open_, cons_append, longestQuotedBinding_bracket quoted, map_eq_none_iff]
      by_cases closed : text.getLast? = some 93
      · obtain ⟨inner, rfl⟩ := getLast?_eq_some_iff.mp closed
        have content : (escaped escapes (inner ++ [93])).getLast? = some 93 := by rw [getLast?_escaped, closed]
        obtain ⟨front, isFront⟩ := getLast?_eq_some_iff.mp content
        rw [isFront] at absentInside ⊢
        have plain : encode quote front = front :=
          encode_of_not_mem (fun member => absentInside (mem_append_left _ member))
        have isMatch := bracketed_encode (Ne.symm noBracket.2) boundary front
        rw [plain] at isMatch
        rw [append_assoc, singleton_append, isMatch]
        refine ⟨?_, fun noBinding => absurd ⟨inner, rfl⟩ noBinding⟩
        intro noMatch
        cases noMatch
      · have noMatch : bracketed 93 quote (escaped escapes text ++ quote :: tail) = none :=
          bracketed_none absentInside (by rwa [getLast?_escaped]) (fun rest same => absurd (congrArg head? same) boundary)
        refine ⟨fun _ => ?_, fun _ => noMatch⟩
        rintro ⟨inner, same⟩
        cases same
        exact closed (by simp)
    · have noBinding : longestQuotedBinding isQuote (quote :: (escaped escapes (c :: text) ++ quote :: tail)) = none := by
        cases isEscaped : escapes c with
        | true =>
          rw [escaped_cons_of_escapes isEscaped]
          exact longestQuotedBinding_other (by decide) _
        | false =>
          rw [escaped_cons_of_not isEscaped]
          exact longestQuotedBinding_other isOpen _
      refine ⟨fun _ => ?_, fun _ => noBinding⟩
      rintro ⟨inner, same⟩
      exact isOpen (head_eq_of_cons_eq same)

theorem quotedBinding_none_of_mem (isQuote : stringQuote quote = true)
    (onlyQuotes : ∀ c, escapes c = true → stringQuote c = true) (isEscaped : escapes quote = true) {tail : CString}
    (member : quote ∈ text) (noOther : bracketed 93 quote tail = none) :
    longestQuotedBinding stringQuote (quote :: (escaped escapes text ++ quote :: tail)) = none := by
  have notBackslash := backslash_not_quote isQuote
  obtain ⟨front, back, rfl, absent⟩ := eq_append_cons_of_mem member
  cases front with
  | nil =>
    rw [nil_append, escaped_cons_of_escapes isEscaped]
    exact longestQuotedBinding_other (by decide) _
  | cons c front =>
    rw [mem_cons, not_or] at absent
    by_cases isOpen : c = 91
    · subst c
      have open_ : escapes 91 = false := Bool.eq_false_iff.mpr (fun same => by cases onlyQuotes 91 same)
      have parts : escaped escapes (91 :: front ++ quote :: back) ++ quote :: tail =
          91 :: ((escaped escapes front ++ [92]) ++ quote :: (escaped escapes back ++ quote :: tail)) := by
        rw [cons_append, escaped_cons_of_not open_, escaped_append, escaped_cons_of_escapes isEscaped]
        simp
      rw [parts, longestQuotedBinding_bracket isQuote, map_eq_none_iff]
      apply bracketed_none
      · rw [mem_append, mem_singleton, not_or]
        exact ⟨fun inside => absent.2 ((mem_escaped notBackslash).mp inside), notBackslash⟩
      · simp
      · intro rest same
        cases back with
        | nil =>
          cases same
          exact noOther
        | cons d back =>
          have first : quote ≠ quote := by
            cases nextEscaped : escapes d with
            | true =>
              rw [escaped_cons_of_escapes nextEscaped] at same
              exact absurd (head_eq_of_cons_eq same).symm notBackslash
            | false =>
              rw [escaped_cons_of_not nextEscaped] at same
              rw [head_eq_of_cons_eq same, isEscaped] at nextEscaped
              cases nextEscaped
          exact absurd rfl first
    · rw [cons_append]
      cases firstEscaped : escapes c with
      | true =>
        rw [escaped_cons_of_escapes firstEscaped]
        exact longestQuotedBinding_other (by decide) _
      | false =>
        rw [escaped_cons_of_not firstEscaped]
        exact longestQuotedBinding_other isOpen _

section Literals
variable {α : Type} (atof : CString → α)
variable {text tail : CString}

theorem quoted_lexeme (isQuote : stringQuote quote = true) {rest strval : CString}
    (isLexeme : msyylex atof (quote :: text) = (.MS_TOKEN_LITERAL_STRING strval, rest)) :
    longestQuotedBinding stringQuote (quote :: text) = none ∧ readString quote text = some (strval, rest) := by
  obtain ⟨_, noBlank, _, _, _, _, _, noClose⟩ := quote_plain isQuote
  cases longest : longestQuotedBinding stringQuote (quote :: text) with
  | some count =>
    obtain ⟨_, name, after, rfl, isMatch⟩ := quotedBinding_content noClose longest
    rw [msyylex_quotedBinding atof isQuote isMatch] at isLexeme
    cases isLexeme
  | none =>
    refine ⟨rfl, ?_⟩
    rw [msyylex_quoted atof isQuote longest, LexAction.run] at isLexeme
    split at isLexeme
    · rename_i isRead
      cases isLexeme
      exact isRead
    · cases isLexeme

theorem stringLiteral_iff (isQuote : stringQuote quote = true) (onlyQuotes : ∀ c, escapes c = true → stringQuote c = true)
    (boundary : tail.head? ≠ some quote) (noOther : bracketed 93 quote tail = none) :
    (∃ rest, msyylex atof (quote :: (escaped escapes text ++ quote :: tail)) = (.MS_TOKEN_LITERAL_STRING text, rest)) ↔
      ReadsBack quote escapes text := by
  obtain ⟨_, _, noOpen, _, _, _, _, noClose⟩ := quote_plain isQuote
  have notBackslash := backslash_not_quote isQuote
  have open_ : escapes 91 = false := Bool.eq_false_iff.mpr (fun same => by cases onlyQuotes 91 same)
  constructor
  · rintro ⟨rest, isLexeme⟩
    obtain ⟨noBinding, isRead⟩ := quoted_lexeme atof isQuote isLexeme
    refine ⟨staysQuoted_of_readString isQuote onlyQuotes tail text rest isRead, ?_⟩
    rintro ⟨absent, bracketed⟩
    exact (quotedBinding_none_iff isQuote notBackslash ⟨noOpen, noClose⟩ open_ absent boundary).mp noBinding bracketed
  · rintro ⟨stays, notBinding⟩
    have noBinding : longestQuotedBinding stringQuote (quote :: (escaped escapes text ++ quote :: tail)) = none := by
      by_cases member : quote ∈ text
      · exact quotedBinding_none_of_mem isQuote onlyQuotes (stays.1 member) member noOther
      · exact (quotedBinding_none_iff isQuote notBackslash ⟨noOpen, noClose⟩ open_ member boundary).mpr
          (fun bracketed => notBinding ⟨member, bracketed⟩)
    refine ⟨skipI tail, ?_⟩
    rw [msyylex_quoted atof isQuote noBinding, LexAction.run, readString_staysQuoted isQuote onlyQuotes tail text stays]

theorem msyylex_stringLiteral (isQuote : stringQuote quote = true)
    (onlyQuotes : ∀ c, escapes c = true → stringQuote c = true) (boundary : tail.head? ≠ some quote)
    (noOther : bracketed 93 quote tail = none) (readsBack : ReadsBack quote escapes text) :
    msyylex atof (quote :: (escaped escapes text ++ quote :: tail)) = (.MS_TOKEN_LITERAL_STRING text, skipI tail) := by
  obtain ⟨rest, isLexeme⟩ := (stringLiteral_iff atof isQuote onlyQuotes boundary noOther).mpr readsBack
  have isRead := (quoted_lexeme atof isQuote isLexeme).2
  rw [readString_staysQuoted isQuote onlyQuotes tail text readsBack.1] at isRead
  cases isRead
  exact isLexeme

theorem backtick_lexeme {rest tokensrc : CString}
    (isLexeme : msyylex atof (96 :: text) = (.MS_TOKEN_LITERAL_TIME tokensrc, rest)) :
    longestQuotedBinding (· == 96) (96 :: text) = none ∧ text.takeWhile (· != 96) = tokensrc := by
  cases longest : longestQuotedBinding (· == 96) (96 :: text) with
  | some count =>
    obtain ⟨_, name, after, rfl, isMatch⟩ := quotedBinding_content (by decide) longest
    rw [msyylex_timeBinding atof isMatch] at isLexeme
    cases isLexeme
  | none =>
    obtain ⟨count, isMatch⟩ := msyylex_pattern atof (by decide) isLexeme (by simp) rfl
    have closed : 96 ∈ text := by
      rw [lexemePattern, longestTime] at isMatch
      split at isMatch
      · assumption
      · cases isMatch
    rw [msyylex_time atof longest closed] at isLexeme
    cases isLexeme
    exact ⟨rfl, rfl⟩

theorem length_le_escaped (text : CString) : text.length ≤ (escaped escapes text).length := by
  induction text with
  | nil => exact Nat.le_refl _
  | cons c text ih =>
    rw [escaped_cons, length_append, length_cons]
    split <;> simp only [length_cons, length_nil] <;> omega

theorem escaped_eq_self_iff : escaped escapes text = text ↔ ∀ c ∈ text, escapes c = false := by
  constructor
  · intro same
    induction text with
    | nil => simp
    | cons c text ih =>
      cases isEscaped : escapes c with
      | true =>
        rw [escaped_cons_of_escapes isEscaped] at same
        have bound : text.length ≤ (escaped escapes text).length := length_le_escaped text
        have lengths := congrArg List.length same
        simp only [length_cons] at lengths
        omega
      | false =>
        rw [escaped_cons_of_not isEscaped] at same
        rw [forall_mem_cons]
        exact ⟨isEscaped, ih (tail_eq_of_cons_eq same)⟩
  · intro none
    induction text with
    | nil => rfl
    | cons c text ih =>
      rw [forall_mem_cons] at none
      rw [escaped_cons_of_not none.1, ih none.2]

def ReadsBackTime (text : CString) : Prop := 96 ∉ text ∧ (∀ c ∈ text, stringQuote c = false) ∧ ¬ Bracketed text

theorem msyylex_timeLiteral (boundary : tail.head? ≠ some 96) (readsBack : ReadsBackTime text) :
    msyylex atof (96 :: (escaped stringQuote text ++ 96 :: tail)) = (.MS_TOKEN_LITERAL_TIME text, tail) := by
  obtain ⟨absent, noQuotes, notBracketed⟩ := readsBack
  have noBinding : longestQuotedBinding (· == 96) (96 :: (escaped stringQuote text ++ 96 :: tail)) = none :=
    (quotedBinding_none_iff rfl (by decide) (by decide) rfl absent boundary).mpr notBracketed
  have isTime := msyylex_time atof noBinding (by simp)
  have all : ∀ c ∈ text, (c != 96) = true := by
    intro c member
    simp only [bne_iff_ne]
    rintro rfl
    exact absent member
  have content : (text ++ 96 :: tail).takeWhile (· != 96) = text := by
    rw [takeWhile_append_of_pos all]
    simp
  rw [escaped_eq_self_iff.mpr noQuotes] at isTime ⊢
  rw [isTime, content, drop_length_add_append]
  rfl

theorem timeLiteral_iff (boundary : tail.head? ≠ some 96) :
    (∃ rest, msyylex atof (96 :: (escaped stringQuote text ++ 96 :: tail)) = (.MS_TOKEN_LITERAL_TIME text, rest)) ↔
      ReadsBackTime text := by
  constructor
  · rintro ⟨rest, isLexeme⟩
    obtain ⟨noBinding, content⟩ := backtick_lexeme atof isLexeme
    have absent : 96 ∉ text := by
      intro member
      rw [← content] at member
      simpa using mem_takeWhile_imp member
    have all : ∀ c ∈ escaped stringQuote text, (c != 96) = true := by
      intro c member
      simp only [bne_iff_ne]
      rintro rfl
      exact absent ((mem_escaped (by decide)).mp member)
    rw [takeWhile_append_of_pos all] at content
    have plain : escaped stringQuote text = text := by simpa using content
    refine ⟨absent, escaped_eq_self_iff.mp plain, ?_⟩
    exact (quotedBinding_none_iff rfl (by decide) (by decide) rfl absent boundary).mp noBinding
  · intro readsBack
    exact ⟨tail, msyylex_timeLiteral atof boundary readsBack⟩

end Literals

end Strings

end MapServer
