import Mathlib.Data.List.Basic
import MapServer.Words

/-! C strings, as their bytes before the terminating zero, in the C locale. -/

namespace MapServer

abbrev CString := List UInt8

def ascii (text : String) : CString := text.toList.map fun letter => letter.toNat.toUInt8

def tolower (c : UInt8) : UInt8 := if 65 ≤ c ∧ c ≤ 90 then c + 32 else c

def sameIgnoringCase (left right : CString) : Bool := left.map tolower == right.map tolower

def isspace (c : UInt8) : Bool := c == 32 || (9 ≤ c && c ≤ 13)

def isdigit (c : UInt8) : Bool := 48 ≤ c && c ≤ 57

def digitsValue (digits : CString) : Int := digits.foldl (fun value digit => 10 * value + (digit.toNat - 48)) 0

def strtol (text : CString) : Int :=
  let value :=
    match text.dropWhile isspace with
    | 45 :: rest => -digitsValue (rest.takeWhile isdigit)
    | 43 :: rest => digitsValue (rest.takeWhile isdigit)
    | rest => digitsValue (rest.takeWhile isdigit)
  max (-9223372036854775808) (min 9223372036854775807 value)

def atoi (text : CString) : Int := int32 (strtol text)

def strlcat (siz : Nat) (dst src : CString) : CString := dst ++ src.take (siz - 1 - dst.length)

/-- What `snprintf` puts of a text into a buffer of a size. -/
def snprintf (size : Nat) (text : CString) : CString := text.take (size - 1)

def isxdigit (c : UInt8) : Bool := isdigit c || (97 ≤ tolower c && tolower c ≤ 102)

def isalnum (c : UInt8) : Bool := isdigit c || (97 ≤ tolower c && tolower c ≤ 122)

def skipMantissa (digit : UInt8 → Bool) (text : CString) : Option CString :=
  match text.dropWhile digit with
  | 46 :: fraction =>
    if text.takeWhile digit = [] ∧ fraction.takeWhile digit = [] then none else some (fraction.dropWhile digit)
  | rest => if text.takeWhile digit = [] then none else some rest

def skipSign : CString → CString
  | 43 :: rest => rest
  | 45 :: rest => rest
  | text => text

def skipExponent (letter : UInt8) : CString → CString
  | [] => []
  | c :: rest =>
    if tolower c = letter ∧ (skipSign rest).takeWhile isdigit ≠ [] then (skipSign rest).dropWhile isdigit else c :: rest

/-- What follows the characters in parentheses behind a `NAN`, if they are there. -/
def skipNanChars : CString → CString
  | 40 :: rest =>
    match rest.dropWhile fun c => isalnum c || c == 95 with
    | 41 :: others => others
    | _ => 40 :: rest
  | text => text

def skipDecimal (text : CString) : Option CString := (skipMantissa isdigit text).map (skipExponent 101)

/-- What follows a number without sign: an infinity, a `NAN`, a hexadecimal or a decimal one. -/
def skipUnsigned (text : CString) : Option CString :=
  if (text.take 8).map tolower = ascii "infinity" then some (text.drop 8)
  else if (text.take 3).map tolower = ascii "inf" then some (text.drop 3)
  else if (text.take 3).map tolower = ascii "nan" then some (skipNanChars (text.drop 3))
  else
    match text with
    | 48 :: x :: hex =>
      if tolower x = 120 then ((skipMantissa isxdigit hex).map (skipExponent 112)).or (skipDecimal text)
      else skipDecimal text
    | _ => skipDecimal text

/-- The text that `strtod` leaves in `*endptr`; nothing where there is no number. -/
def strtodEnd (text : CString) : Option CString := skipUnsigned (skipSign (text.dropWhile isspace))

structure SplitState where
  tokens : List CString
  current : CString
  last_ch : UInt8

def splitStep (ch : UInt8) (state : SplitState) (c : UInt8) : SplitState :=
  if c = ch then
    if state.last_ch = ch then state else ⟨state.tokens ++ [state.current], [], c⟩
  else ⟨state.tokens, state.current ++ [c], c⟩

def msStringSplit (ch : UInt8) (string : CString) : List CString :=
  let state := string.foldl (splitStep ch) ⟨[], [], 0⟩
  state.tokens ++ [state.current]

theorem sameIgnoringCase_iff {left right : CString} :
    sameIgnoringCase left right = true ↔ left.map tolower = right.map tolower := beq_iff_eq

@[simp] theorem sameIgnoringCase_self (text : CString) : sameIgnoringCase text text = true :=
  sameIgnoringCase_iff.mpr rfl

end MapServer
