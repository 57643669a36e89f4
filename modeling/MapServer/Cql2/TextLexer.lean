import MapServer.Cql2.ExprNode
import MapServer.Lib.Scanner

namespace MapServer
open Lib.Scanner List Option

inductive Cql2Word where
  | CQL2_TOK_NOT | CQL2_TOK_OR | CQL2_TOK_AND | CQL2_TOK_DIV | CQL2_TOK_IS | CQL2_TOK_NULL | CQL2_TOK_CASEI
  | CQL2_TOK_S_INTERSECTS | CQL2_TOK_S_EQUALS | CQL2_TOK_S_DISJOINT | CQL2_TOK_S_TOUCHES
  | CQL2_TOK_S_WITHIN | CQL2_TOK_S_OVERLAPS | CQL2_TOK_S_CROSSES | CQL2_TOK_S_CONTAINS
  | CQL2_TOK_BETWEEN | CQL2_TOK_IN | CQL2_TOK_LIKE
  deriving DecidableEq

inductive Cql2Token (α : Type) where
  | word (word : Cql2Word)
  | CQL2_TOK_INTEGER_NUMBER (m_nVal : Int)
  | CQL2_TOK_DOUBLE_NUMBER (m_dfVal : α)
  | CQL2_TOK_STRING (m_osVal : CString)
  | CQL2_TOK_IDENTIFIER (m_osVal : CString)
  | CQL2_TOK_WKT (m_osVal : CString)
  | CQL2_TOK_BOOLEAN_LITERAL (m_nVal : Bool)
  | character (c : UInt8)
  deriving DecidableEq

/-- What a call of `cql2textlex` returns: nothing at the end of the text, within that nothing at an error, or else a token
and the text after it. -/
abbrev Cql2Lexed (α : Type) := Option (Option (Cql2Token α × CString))

def isCql2Blank (c : UInt8) : Bool := c == 32 || c == 9 || c == 10 || c == 13

def readQuoted (chQuote : UInt8) : CString → Option (CString × CString)
  | [] => none
  | [c] => if c = chQuote then some ([], []) else none
  | c :: next :: rest =>
    if c = 92 then (readQuoted chQuote rest).map fun read => (next :: read.1, read.2)
    else if c = 39 ∧ next = chQuote then (readQuoted chQuote rest).map fun read => (next :: read.1, read.2)
    else if c = chQuote then some ([], next :: rest)
    else (readQuoted chQuote (next :: rest)).map fun read => (c :: read.1, read.2)

def readFraction : CString → CString × CString
  | 46 :: rest => (46 :: rest.takeWhile isdigit, rest.dropWhile isdigit)
  | text => ([], text)

def readExponentSign : CString → CString × CString
  | 45 :: rest => ([45], rest)
  | 43 :: rest => ([43], rest)
  | text => ([], text)

def readExponent : CString → CString × CString
  | c :: rest =>
    if c = 101 ∨ c = 69 then
      let (sign, digits) := readExponentSign rest
      (c :: (sign ++ digits.takeWhile isdigit), digits.dropWhile isdigit)
    else ([], c :: rest)
  | [] => ([], [])

def readNumber (text : CString) : CString × CString :=
  let (fraction, afterFraction) := readFraction (text.dropWhile isdigit)
  let (exponent, rest) := readExponent afterFraction
  (text.takeWhile isdigit ++ fraction ++ exponent, rest)

def numberToken {α : Type} (doubles : Doubles α) (osToken : CString) : Cql2Token α :=
  if osToken.contains 46 || osToken.contains 101 || osToken.contains 69 then .CQL2_TOK_DOUBLE_NUMBER (doubles.atof osToken)
  else .CQL2_TOK_INTEGER_NUMBER (atoi osToken)

def isWordCharacter (c : UInt8) : Bool := isalnum c || c == 95 || 127 < c

def cql2Words : List (String × Cql2Word) :=
  [("OR", .CQL2_TOK_OR), ("AND", .CQL2_TOK_AND), ("NOT", .CQL2_TOK_NOT), ("LIKE", .CQL2_TOK_LIKE), ("IN", .CQL2_TOK_IN),
   ("BETWEEN", .CQL2_TOK_BETWEEN), ("IS", .CQL2_TOK_IS), ("NULL", .CQL2_TOK_NULL), ("CASEI", .CQL2_TOK_CASEI),
   ("DIV", .CQL2_TOK_DIV), ("S_INTERSECTS", .CQL2_TOK_S_INTERSECTS), ("S_EQUALS", .CQL2_TOK_S_EQUALS),
   ("S_DISJOINT", .CQL2_TOK_S_DISJOINT), ("S_TOUCHES", .CQL2_TOK_S_TOUCHES), ("S_WITHIN", .CQL2_TOK_S_WITHIN),
   ("S_OVERLAPS", .CQL2_TOK_S_OVERLAPS), ("S_CROSSES", .CQL2_TOK_S_CROSSES), ("S_CONTAINS", .CQL2_TOK_S_CONTAINS)]

def wktWords : List String :=
  ["POINT", "LINESTRING", "POLYGON", "MULTIPOINT", "MULTILINESTRING", "MULTIPOLYGON", "GEOMETRYCOLLECTION"]

def levelAfter (nLevel : Int) (c : UInt8) : Int := if c = 40 then nLevel + 1 else if c = 41 then nLevel - 1 else nLevel

def readParentheses (nLevel : Int) : CString → Option (CString × CString)
  | [] => none
  | c :: rest =>
    if c = 41 ∧ levelAfter nLevel c ≤ 0 then some ([c], rest)
    else (readParentheses (levelAfter nLevel c) rest).map fun read => (c :: read.1, read.2)

def wktToken {α : Type} (osToken pszNext : CString) : Cql2Lexed α :=
  match pszNext.dropWhile (· == 32) with
  | 40 :: rest =>
    match readParentheses 0 (40 :: rest) with
    | some (parentheses, others) => some (some (.CQL2_TOK_WKT (osToken ++ parentheses), others))
    | none => some none
  | _ => some (some (.CQL2_TOK_IDENTIFIER osToken, pszNext))

def wordToken {α : Type} (osToken pszNext : CString) : Cql2Lexed α :=
  if osToken = ascii "true" then some (some (.CQL2_TOK_BOOLEAN_LITERAL true, pszNext))
  else if osToken = ascii "false" then some (some (.CQL2_TOK_BOOLEAN_LITERAL false, pszNext))
  else
    match cql2Words.find? fun entry => sameIgnoringCase osToken (ascii entry.1) with
    | some (_, word) => some (some (.word word, pszNext))
    | none =>
      if wktWords.any fun word => sameIgnoringCase osToken (ascii word) then wktToken osToken pszNext
      else some (some (.CQL2_TOK_IDENTIFIER osToken, pszNext))

section Lexer
variable {α : Type} (doubles : Doubles α)

/-- A character above 127 is a negative `char`, which the parser takes for the end of the text. -/
def cql2textlex (text : CString) : Cql2Lexed α :=
  match text.dropWhile isCql2Blank with
  | [] => none
  | c :: rest =>
    if c = 34 ∨ c = 39 then
      some ((readQuoted c rest).map fun read =>
        (if c = 34 then .CQL2_TOK_IDENTIFIER read.1 else .CQL2_TOK_STRING read.1, read.2))
    else if isdigit c then
      some (some (numberToken doubles (readNumber (c :: rest)).1, (readNumber (c :: rest)).2))
    else if isalnum c then wordToken (c :: rest.takeWhile isWordCharacter) (rest.dropWhile isWordCharacter)
    else if 127 < c then none
    else some (some (.character c, rest))

theorem readQuoted_shorter {chQuote : UInt8} {text : CString} {read : CString × CString}
    (isRead : readQuoted chQuote text = some read) : read.2.length < text.length := by
  induction text using readQuoted.induct chQuote generalizing read with
  | case1 => cases isRead
  | case2 =>
    rw [readQuoted, if_pos rfl] at isRead
    cases isRead
    exact Nat.zero_lt_one
  | case3 c notQuote =>
    rw [readQuoted, if_neg notQuote] at isRead
    cases isRead
  | case4 next rest ih =>
    rw [readQuoted, if_pos rfl] at isRead
    obtain ⟨inner, isInner, rfl⟩ := map_eq_some_iff.mp isRead
    have shorter := ih isInner
    simp only [length_cons]
    omega
  | case5 c next rest notBackslash doubled ih =>
    rw [readQuoted, if_neg notBackslash, if_pos doubled] at isRead
    obtain ⟨inner, isInner, rfl⟩ := map_eq_some_iff.mp isRead
    have shorter := ih isInner
    simp only [length_cons]
    omega
  | case6 next rest notBackslash notDoubled =>
    rw [readQuoted, if_neg notBackslash, if_neg notDoubled, if_pos rfl] at isRead
    cases isRead
    exact Nat.lt_succ_self _
  | case7 c next rest notBackslash notDoubled notQuote ih =>
    rw [readQuoted, if_neg notBackslash, if_neg notDoubled, if_neg notQuote] at isRead
    obtain ⟨inner, isInner, rfl⟩ := map_eq_some_iff.mp isRead
    have shorter := ih isInner
    rw [length_cons]
    exact Nat.lt_succ_of_lt shorter

theorem readFraction_shorter (text : CString) : (readFraction text).2.length ≤ text.length := by
  unfold readFraction
  split
  · rename_i rest
    have digits := (rest.dropWhile_suffix isdigit).length_le
    rw [length_cons]
    exact Nat.le_succ_of_le digits
  · exact Nat.le_refl _

theorem readExponentSign_shorter (text : CString) : (readExponentSign text).2.length ≤ text.length := by
  unfold readExponentSign
  split <;> simp

theorem readExponent_shorter (text : CString) : (readExponent text).2.length ≤ text.length := by
  unfold readExponent
  split
  · rename_i c rest
    split
    · have sign := readExponentSign_shorter rest
      have digits := ((readExponentSign rest).2.dropWhile_suffix isdigit).length_le
      rw [length_cons]
      exact Nat.le_succ_of_le (Nat.le_trans digits sign)
    · exact Nat.le_refl _
  · exact Nat.le_refl _

theorem readNumber_shorter {c : UInt8} (digit : isdigit c = true) (rest : CString) :
    (readNumber (c :: rest)).2.length < (c :: rest).length := by
  have digits := (rest.dropWhile_suffix isdigit).length_le
  have fraction := readFraction_shorter (rest.dropWhile isdigit)
  have exponent := readExponent_shorter (readFraction (rest.dropWhile isdigit)).2
  rw [readNumber, dropWhile_cons_of_pos digit, length_cons]
  show (readExponent (readFraction (rest.dropWhile isdigit)).2).2.length < rest.length + 1
  omega

theorem readParentheses_shorter {nLevel : Int} {text : CString} {read : CString × CString}
    (isRead : readParentheses nLevel text = some read) : read.2.length < text.length := by
  induction text generalizing nLevel read with
  | nil => cases isRead
  | cons c rest ih =>
    rw [readParentheses] at isRead
    split at isRead
    · cases isRead
      exact Nat.lt_succ_self _
    · obtain ⟨inner, isInner, rfl⟩ := map_eq_some_iff.mp isRead
      have shorter := ih isInner
      rw [length_cons]
      exact Nat.lt_succ_of_lt shorter

theorem wktToken_shorter {osToken pszNext rest : CString} {token : Cql2Token α}
    (isToken : wktToken osToken pszNext = some (some (token, rest))) : rest.length ≤ pszNext.length := by
  have blanks := (pszNext.dropWhile_suffix (· == 32)).length_le
  unfold wktToken at isToken
  split at isToken
  · rename_i inner opened
    split at isToken
    · rename_i parentheses others isRead
      cases isToken
      have shorter := readParentheses_shorter isRead
      rw [opened] at blanks
      exact Nat.le_trans (Nat.le_of_lt shorter) blanks
    · cases isToken
  · cases isToken
    exact Nat.le_refl _

theorem wordToken_shorter {osToken pszNext rest : CString} {token : Cql2Token α}
    (isToken : wordToken osToken pszNext = some (some (token, rest))) : rest.length ≤ pszNext.length := by
  unfold wordToken at isToken
  split at isToken
  · cases isToken
    exact Nat.le_refl _
  split at isToken
  · cases isToken
    exact Nat.le_refl _
  split at isToken
  · cases isToken
    exact Nat.le_refl _
  split at isToken
  · exact wktToken_shorter isToken
  · cases isToken
    exact Nat.le_refl _

theorem cql2textlex_shorter : Shortens (cql2textlex doubles) := by
  intro text rest token isNext
  have blanks := (text.dropWhile_suffix isCql2Blank).length_le
  unfold cql2textlex at isNext
  split at isNext
  · cases isNext
  rename_i c after start
  rw [start, length_cons] at blanks
  split at isNext
  · obtain ⟨read, isRead, same⟩ := map_eq_some_iff.mp (Option.some.inj isNext)
    have shorter := readQuoted_shorter isRead
    cases same
    omega
  split at isNext
  · rename_i digit
    have shorter := readNumber_shorter digit after
    cases isNext
    rw [length_cons] at shorter
    omega
  split at isNext
  · have shorter := wordToken_shorter isNext
    have word := (after.dropWhile_suffix isWordCharacter).length_le
    omega
  split at isNext
  · cases isNext
  · cases isNext
    omega

def cql2Tokens (text : CString) : List (Cql2Token α) × Bool := scan (cql2textlex doubles) (cql2textlex_shorter doubles) text

end Lexer

end MapServer
