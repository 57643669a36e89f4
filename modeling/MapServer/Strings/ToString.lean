import Mathlib.Data.List.TakeWhile
import MapServer.Decimal
import MapServer.Lib.TerminatedText

/-! A pointer into the format is what it points to, down to the terminating zero; `none` is a read past it. -/

namespace MapServer
open Lib.TerminatedText List

def isSkippedFlag (c : UInt8) : Bool := c == 43 || c == 45 || c == 32 || c == 39 || c == 48

def isDoubleConversion (c : UInt8) : Bool := c == 101 || c == 69 || c == 102 || c == 70 || c == 103 || c == 71

def skipWhile (p : UInt8 → Bool) (ptr : List UInt8) : Option (List UInt8) :=
  match ptr.dropWhile p with
  | [] => none
  | c :: rest => some (c :: rest)

/-- A width comes in place of `extra_size`; there is no result above the limit. -/
def skipWidth (extra_size : Int) (ptr : List UInt8) : Option (Option (Int × List UInt8)) := do
  let c ← ptr.head?
  if 49 ≤ c ∧ c ≤ 57 then
    let rest ← skipWhile isdigit ptr.tail
    some (if 1024 < atoi (textOf ptr) then none else some (atoi (textOf ptr), rest))
  else some (some (extra_size, ptr))

def skipPrecision (ptr : List UInt8) : Option (List UInt8) := do
  if (← ptr.head?) = 46 then skipWhile isdigit ptr.tail else some ptr

/-- What follows a `%`, as far as the letter of the conversion. -/
def scanConversion (extra_size : Int) (ptr : List UInt8) : Option (Option (Int × List UInt8)) := do
  let ptr ← skipWhile isSkippedFlag ptr
  match ← skipWidth extra_size ptr with
  | none => some none
  | some (extra_size, ptr) => do
    let ptr ← skipPrecision ptr
    let c ← ptr.head?
    some (if isDoubleConversion c then some (max extra_size 308 + 32, ptr) else none)

def scanFormat : Nat → Bool → Int → List UInt8 → Option (Option Int)
  | 0, _, _, _ => none
  | turns + 1, pctAlreadyFound, extra_size, ptr => do
    let c ← ptr.head?
    if c = 0 then some (some extra_size)
    else if c = 37 then
      if (← ptr.tail.head?) = 37 then scanFormat turns pctAlreadyFound extra_size ptr.tail.tail
      else if pctAlreadyFound then some none
      else
        match ← scanConversion extra_size ptr.tail with
        | none => some none
        | some (extra_size, ptr) => scanFormat turns true extra_size ptr.tail
    else scanFormat turns pctAlreadyFound extra_size ptr.tail

structure PrintedNumber where
  nBufferSize : Nat
  ret : List UInt8

/-- `printed` is all that the format makes of the value. -/
def msToString (printed : CString) (format : CString) : Option (Option PrintedNumber) := do
  let scanned ← scanFormat (format.length + 1) false 0 (format ++ [0])
  some (scanned.map fun (extra_size : Int) =>
    let nBufferSize := ((format.length : Int) + extra_size + extra_size / 3 + 1).toNat
    { nBufferSize, ret := snprintf nBufferSize printed ++ [0] })

inductive FormatNumber where
  | absent
  | digits (value : CString)
  | star
  deriving DecidableEq

structure ConversionSpec where
  flags : CString
  width : FormatNumber
  precision : Option FormatNumber
  modifier : CString
  specifier : UInt8
  deriving DecidableEq

def isPrintfFlag (c : UInt8) : Bool := c == 45 || c == 43 || c == 32 || c == 35 || c == 48 || c == 39

def readFormatNumber : CString → FormatNumber × CString
  | 42 :: rest => (.star, rest)
  | text => (if text.takeWhile isdigit = [] then .absent else .digits (text.takeWhile isdigit), text.dropWhile isdigit)

def readPrecision : CString → Option FormatNumber × CString
  | 46 :: rest => (some (readFormatNumber rest).1, (readFormatNumber rest).2)
  | text => (none, text)

/-- `hh`, `h`, `ll`, `l`, `j`, `z`, `t` or `L`. -/
def readModifier : CString → CString × CString
  | 104 :: 104 :: rest => ([104, 104], rest)
  | 104 :: rest => ([104], rest)
  | 108 :: 108 :: rest => ([108, 108], rest)
  | 108 :: rest => ([108], rest)
  | 106 :: rest => ([106], rest)
  | 122 :: rest => ([122], rest)
  | 116 :: rest => ([116], rest)
  | 76 :: rest => ([76], rest)
  | text => ([], text)

def isSpecifier (c : UInt8) : Bool := c ∈ ascii "diouxXfFeEgGaAcspn%"

def readConversion (text : CString) : Option (ConversionSpec × CString) :=
  let width := readFormatNumber (text.dropWhile isPrintfFlag)
  let precision := readPrecision width.2
  let modifier := readModifier precision.2
  match modifier.2 with
  | [] => none
  | c :: rest =>
    if isSpecifier c then some (⟨text.takeWhile isPrintfFlag, width.1, precision.1, modifier.1, c⟩, rest) else none

def percentSign : ConversionSpec := ⟨[], .absent, none, [], 37⟩

/-- The conversions of a format other than `%%`. The first argument bounds the steps. -/
def readConversions : Nat → CString → Option (List ConversionSpec)
  | _, [] => some []
  | 0, _ => none
  | steps + 1, c :: text =>
    if c = 37 then do
      let (conversion, rest) ← readConversion text
      let others ← readConversions steps rest
      some (if conversion = percentSign then others else conversion :: others)
    else readConversions steps text

def conversionsOf (format : CString) : Option (List ConversionSpec) := readConversions format.length format

/-- A conversion that takes one `double`. -/
structure TakesDouble (conversion : ConversionSpec) : Prop where
  specifier : isDoubleConversion conversion.specifier = true
  modifier : conversion.modifier = []
  width : conversion.width ≠ .star
  precision : conversion.precision ≠ some .star

def FormatNumber.value : FormatNumber → Int
  | .digits value => digitsValue value
  | _ => 0

def PrintsOneNumber (format : CString) : Prop :=
  ∃ conversions, conversionsOf format = some conversions ∧ conversions.length ≤ 1 ∧
    ∀ conversion ∈ conversions, TakesDouble conversion ∧ conversion.width.value ≤ 1024

def FormatChecked (format : CString) : Prop :=
  ∀ printed, ∃ result, msToString printed format = some result ∧
    ∀ number ∈ result, PrintsOneNumber format ∧ number.ret.length ≤ number.nBufferSize

def widthDigits (text : CString) : CString := text.takeWhile isdigit

def withoutPrecision : CString → CString
  | 46 :: rest => rest.dropWhile isdigit
  | text => text

section Conversion
variable {text : CString}

theorem head_append (text : CString) : (text ++ [0]).head? = some (text.head?.getD 0) := by
  cases text <;> rfl

theorem skipWhile_eq {p : UInt8 → Bool} (zeroStops : p 0 = false) (text : CString) :
    skipWhile p (text ++ [0]) = some (text.dropWhile p ++ [0]) := by
  have dropped : (text ++ [0]).dropWhile p = text.dropWhile p ++ [0] := by
    induction text with
    | nil => exact dropWhile_cons_of_neg (by simp [zeroStops])
    | cons c text ih =>
      cases here : p c with
      | true => rw [cons_append, dropWhile_cons_of_pos here, dropWhile_cons_of_pos here, ih]
      | false =>
        rw [cons_append, dropWhile_cons_of_neg (by simp [here]), dropWhile_cons_of_neg (by simp [here])]
        rfl
  unfold skipWhile
  rw [dropped]
  cases text.dropWhile p <;> rfl

theorem isdigit_width (c : UInt8) : (49 ≤ c ∧ c ≤ 57) ↔ isdigit c = true ∧ c ≠ 48 := by
  simp only [isdigit, Bool.and_eq_true, decide_eq_true_eq, UInt8.le_iff_toNat_le, ne_eq, ← UInt8.toNat_inj]
  simp only [UInt8.reduceToNat]
  omega

theorem atoi_digits {c : UInt8} (digit : isdigit c = true) (rest : CString) : atoi (c :: rest) = atoi (widthDigits (c :: rest)) := by
  have isDigits : widthDigits (c :: rest) = c :: rest.takeWhile isdigit := takeWhile_cons_of_pos digit
  have again : (c :: rest.takeWhile isdigit).takeWhile isdigit = (c :: rest).takeWhile isdigit := by
    rw [takeWhile_cons_of_pos digit, takeWhile_idem, takeWhile_cons_of_pos digit]
  rw [isDigits, atoi, atoi, strtol_cons digit, strtol_cons digit, again]

theorem skipWidth_eq (ended : 0 ∉ text) (notZero : text.head? ≠ some 48) (extra_size : Int) : skipWidth extra_size (text ++ [0]) =
    some (if widthDigits text = [] then some (extra_size, text.dropWhile isdigit ++ [0])
      else if 1024 < atoi (widthDigits text) then none else some (atoi (widthDigits text), text.dropWhile isdigit ++ [0])) := by
  unfold skipWidth
  rw [head_append]
  simp only [Option.bind_eq_bind, Option.bind_some]
  cases text with
  | nil => rfl
  | cons c text =>
    rw [head?_cons, Option.getD_some]
    rw [head?_cons, ne_eq, Option.some.injEq] at notZero
    cases digit : isdigit c with
    | true =>
      have isText : textOf (c :: text ++ [0]) = c :: text := textOf_append ended []
      have some_ : widthDigits (c :: text) ≠ [] := by simp [widthDigits, digit]
      rw [if_neg some_, if_pos ((isdigit_width c).mpr ⟨digit, notZero⟩), isText, cons_append, tail_cons, skipWhile_eq rfl,
        Option.bind_some, atoi_digits digit, dropWhile_cons_of_pos digit]
    | false =>
      rw [if_neg (by rw [isdigit_width, digit]; simp), if_pos (by simp [widthDigits, digit]), dropWhile_cons_of_neg (by simp [digit])]

theorem skipPrecision_eq (text : CString) : skipPrecision (text ++ [0]) = some (withoutPrecision text ++ [0]) := by
  unfold skipPrecision
  rw [head_append]
  simp only [Option.bind_eq_bind, Option.bind_some]
  cases text with
  | nil => rfl
  | cons c text =>
    rw [head?_cons, Option.getD_some]
    by_cases point : c = 46
    · subst point
      rw [if_pos rfl, cons_append, tail_cons, skipWhile_eq rfl]
      rfl
    · rw [if_neg point]
      unfold withoutPrecision
      split
      · rename_i rest same
        exact absurd (List.cons.inj same).1 point
      · rfl

theorem head_skipped (text : CString) : (text.dropWhile isSkippedFlag).head? ≠ some 48 := by
  intro head
  have stops := head?_dropWhile_not isSkippedFlag text
  rw [head] at stops
  exact absurd stops (by decide)

theorem scanConversion_eq (ended : 0 ∉ text) (extra_size : Int) {after width : CString} (isAfter : after = text.dropWhile isSkippedFlag)
    (isWidth : width = widthDigits after) : scanConversion extra_size (text ++ [0]) =
      some (if width ≠ [] ∧ 1024 < atoi width then none
        else
          match withoutPrecision (after.dropWhile isdigit) with
          | [] => none
          | c :: rest =>
            if isDoubleConversion c then some (max (if width = [] then extra_size else atoi width) 308 + 32, c :: rest ++ [0])
            else none) := by
  have endedAfter : 0 ∉ after := fun member => ended ((dropWhile_suffix _).subset (isAfter ▸ member))
  have scan := skipWidth_eq endedAfter (isAfter ▸ head_skipped text) extra_size
  unfold scanConversion
  rw [skipWhile_eq rfl, ← isAfter]
  simp only [Option.bind_eq_bind, Option.bind_some]
  rw [scan, ← isWidth]
  by_cases none_ : width = []
  · rw [if_pos none_, if_neg (fun both => both.1 none_), if_pos none_]
    simp only [Option.bind_some]
    rw [skipPrecision_eq, Option.bind_some, head_append]
    cases withoutPrecision (after.dropWhile isdigit) <;> rfl
  · rw [if_neg none_, if_neg none_]
    by_cases wide : 1024 < atoi width
    · rw [if_pos wide, if_pos ⟨none_, wide⟩]
      rfl
    · rw [if_neg wide, if_neg (fun both => wide both.2)]
      simp only [Option.bind_some]
      rw [skipPrecision_eq, Option.bind_some, head_append]
      cases withoutPrecision (after.dropWhile isdigit) <;> rfl

def plainNumber (text : CString) : FormatNumber := if widthDigits text = [] then .absent else .digits (widthDigits text)

theorem readFormatNumber_of (plain : text.head? ≠ some 42) : readFormatNumber text = (plainNumber text, text.dropWhile isdigit) := by
  unfold readFormatNumber
  split
  · exact absurd rfl plain
  · rfl

theorem head_of_number (plain : (readFormatNumber text).1 ≠ .star) : text.head? ≠ some 42 := by
  intro head
  obtain ⟨rest, rfl⟩ : ∃ rest, text = 42 :: rest := by
    cases text with
    | nil => cases head
    | cons c rest => exact ⟨rest, congrArg (· :: rest) (Option.some.inj head)⟩
  exact plain rfl

theorem readPrecision_of (plain : ∀ rest, text = 46 :: rest → rest.head? ≠ some 42) :
    ∃ precision, readPrecision text = (precision, withoutPrecision text) ∧ precision ≠ some .star := by
  unfold readPrecision withoutPrecision
  split
  · rename_i rest
    refine ⟨some (plainNumber rest), ?_, ?_⟩
    · rw [readFormatNumber_of (plain rest rfl)]
    · unfold plainNumber
      split <;> nofun
  · exact ⟨none, rfl, nofun⟩

theorem head_of_precision (plain : (readPrecision text).1 ≠ some .star) (rest : CString) (point : text = 46 :: rest) :
    rest.head? ≠ some 42 := by
  subst point
  exact head_of_number fun star => plain (congrArg some star)

theorem readModifier_of {c : UInt8} (double : isDoubleConversion c = true) (rest : CString) : readModifier (c :: rest) = ([], c :: rest) := by
  have cases_ : c = 101 ∨ c = 69 ∨ c = 102 ∨ c = 70 ∨ c = 103 ∨ c = 71 := by
    simpa [isDoubleConversion, or_assoc] using double
  rcases cases_ with rfl | rfl | rfl | rfl | rfl | rfl <;> rfl

theorem readModifier_none (none_ : (readModifier text).1 = []) : (readModifier text).2 = text := by
  unfold readModifier at none_ ⊢
  split at none_
  all_goals
    first
    | rfl
    | cases none_

theorem isSpecifier_double {c : UInt8} (double : isDoubleConversion c = true) : isSpecifier c = true := by
  have cases_ : c = 101 ∨ c = 69 ∨ c = 102 ∨ c = 70 ∨ c = 103 ∨ c = 71 := by
    simpa [isDoubleConversion, or_assoc] using double
  rcases cases_ with rfl | rfl | rfl | rfl | rfl | rfl <;> rfl

theorem isPrintfFlag_eq (c : UInt8) : isPrintfFlag c = (isSkippedFlag c || c == 35) := by
  rw [Bool.eq_iff_iff]
  simp only [isPrintfFlag, isSkippedFlag, Bool.or_eq_true, beq_iff_eq]
  tauto

theorem flags_of (plain : (text.dropWhile isSkippedFlag).head? ≠ some 35) :
    text.takeWhile isPrintfFlag = text.takeWhile isSkippedFlag ∧ text.dropWhile isPrintfFlag = text.dropWhile isSkippedFlag := by
  have stops := head?_dropWhile_not isSkippedFlag text
  have all : ∀ c ∈ text.takeWhile isSkippedFlag, isPrintfFlag c = true := by
    intro c member
    rw [isPrintfFlag_eq, mem_takeWhile_imp member, Bool.true_or]
  have parts := @List.takeWhile_append_dropWhile _ isSkippedFlag text
  cases after : text.dropWhile isSkippedFlag with
  | nil =>
    rw [after, append_nil] at parts
    rw [parts] at all ⊢
    exact ⟨takeWhile_eq_self_iff.mpr all, dropWhile_eq_nil_iff.mpr all⟩
  | cons c rest =>
    rw [after] at plain stops parts
    have notFlag : isPrintfFlag c = false := by
      rw [isPrintfFlag_eq, Bool.or_eq_false_iff]
      refine ⟨by simpa using stops, beq_eq_false_iff_ne.mpr fun same => plain ?_⟩
      rw [same]
      rfl
    constructor
    · conv_lhs => rw [← parts]
      rw [takeWhile_append_of_pos all, takeWhile_cons_of_neg (by simp [notFlag]), append_nil]
    · conv_lhs => rw [← parts]
      rw [dropWhile_append_of_pos all, dropWhile_cons_of_neg (by simp [notFlag])]

theorem head_of_flags (all : ∀ flag ∈ text.takeWhile isPrintfFlag, isSkippedFlag flag = true) :
    (text.dropWhile isSkippedFlag).head? ≠ some 35 := by
  intro head
  obtain ⟨rest, after⟩ : ∃ rest, text.dropWhile isSkippedFlag = 35 :: rest := by
    cases after : text.dropWhile isSkippedFlag with
    | nil =>
      rw [after] at head
      cases head
    | cons c rest =>
      rw [after] at head
      exact ⟨rest, congrArg (· :: rest) (Option.some.inj head)⟩
  have parts := @List.takeWhile_append_dropWhile _ isSkippedFlag text
  have flags : ∀ c ∈ text.takeWhile isSkippedFlag, isPrintfFlag c = true := by
    intro c member
    rw [isPrintfFlag_eq, mem_takeWhile_imp member, Bool.true_or]
  have isFlag : isSkippedFlag 35 = true := by
    apply all
    rw [← parts, after, takeWhile_append_of_pos flags, takeWhile_cons_of_pos rfl]
    simp
  cases isFlag

structure Admitted (conversion : ConversionSpec) : Prop extends TakesDouble conversion where
  flags : ∀ flag ∈ conversion.flags, isSkippedFlag flag = true

/-- The number that `atoi` makes of a width is not above the limit. -/
def FormatNumber.fits (number : FormatNumber) : Prop := ∀ value, number = .digits value → atoi value ≤ 1024

theorem fits_plainNumber : (plainNumber text).fits ↔ ¬ (widthDigits text ≠ [] ∧ 1024 < atoi (widthDigits text)) := by
  unfold plainNumber FormatNumber.fits
  split
  · rename_i none_
    exact iff_of_true nofun fun both => both.1 none_
  · rename_i some_
    constructor
    · rintro fits ⟨-, wide⟩
      exact Int.not_le.mpr wide (fits _ rfl)
    · rintro fits value ⟨⟩
      exact Int.not_lt.mp fun wide => fits ⟨some_, wide⟩

theorem readConversion_admitted {conversion : ConversionSpec} {rest : CString} (reads : readConversion text = some (conversion, rest))
    (admitted : Admitted conversion) : conversion.width = plainNumber (text.dropWhile isSkippedFlag) ∧
      withoutPrecision ((text.dropWhile isSkippedFlag).dropWhile isdigit) = conversion.specifier :: rest := by
  unfold readConversion at reads
  dsimp only at reads
  split at reads
  · cases reads
  · rename_i c others isRest
    split at reads
    · obtain ⟨rfl, rfl⟩ := Prod.mk.inj (Option.some.inj reads)
      obtain ⟨⟨-, modifier, width, precision⟩, flags⟩ := admitted
      rw [(flags_of (head_of_flags flags)).2] at isRest modifier width precision
      have number := readFormatNumber_of (head_of_number width)
      rw [(flags_of (head_of_flags flags)).2, number]
      rw [number] at isRest modifier precision
      obtain ⟨read, isPrecision, -⟩ := readPrecision_of (head_of_precision precision)
      rw [isPrecision] at isRest modifier
      rw [readModifier_none modifier] at isRest
      exact ⟨rfl, isRest⟩
    · cases reads

theorem readConversion_of {c : UInt8} {rest : CString} (double : isDoubleConversion c = true)
    (isRest : withoutPrecision ((text.dropWhile isSkippedFlag).dropWhile isdigit) = c :: rest) :
    ∃ conversion, readConversion text = some (conversion, rest) ∧ Admitted conversion ∧ conversion.specifier = c ∧
      conversion.width = plainNumber (text.dropWhile isSkippedFlag) := by
  have notHead (d : UInt8) (notDigit : isdigit d = false) (notPoint : d ≠ 46) (notDouble : isDoubleConversion d = false) :
      (text.dropWhile isSkippedFlag).head? ≠ some d := by
    intro head
    cases after : text.dropWhile isSkippedFlag with
    | nil =>
      rw [after] at head
      cases head
    | cons e others =>
      rw [after] at head isRest
      cases head
      rw [dropWhile_cons_of_neg (by simp [notDigit])] at isRest
      unfold withoutPrecision at isRest
      split at isRest
      · rename_i same
        exact notPoint (List.cons.inj same).1
      · rw [(List.cons.inj isRest).1, double] at notDouble
        cases notDouble
  have noStar : ∀ others, (text.dropWhile isSkippedFlag).dropWhile isdigit = 46 :: others → others.head? ≠ some 42 := by
    intro others point head
    rw [point] at isRest
    cases others with
    | nil => cases head
    | cons e others =>
      cases head
      cases isRest
      cases double
  obtain ⟨flags, dropped⟩ := flags_of (notHead 35 rfl (by decide) rfl)
  have number := readFormatNumber_of (notHead 42 rfl (by decide) rfl)
  obtain ⟨precision, isPrecision, plain⟩ := readPrecision_of noStar
  refine ⟨⟨text.takeWhile isSkippedFlag, plainNumber (text.dropWhile isSkippedFlag), precision, [], c⟩, ?_, ?_, rfl, rfl⟩
  · unfold readConversion
    rw [dropped, number]
    dsimp only
    rw [isPrecision, isRest, readModifier_of double]
    dsimp only
    rw [if_pos (isSpecifier_double double), flags]
  · refine ⟨⟨double, rfl, ?_, plain⟩, fun flag member => mem_takeWhile_imp member⟩
    unfold plainNumber
    split <;> nofun

/-- The scan of a conversion takes those that the grammar admits with a number that is not too large for `atoi`. -/
theorem scanConversion_spec (ended : 0 ∉ text) (extra_size : Int) :
    (∃ conversion rest size, readConversion text = some (conversion, rest) ∧ Admitted conversion ∧ conversion.width.fits ∧ 0 ≤ size ∧
      scanConversion extra_size (text ++ [0]) = some (some (size, conversion.specifier :: rest ++ [0]))) ∨
    (scanConversion extra_size (text ++ [0]) = some none ∧
      ∀ conversion rest, readConversion text = some (conversion, rest) → ¬ (Admitted conversion ∧ conversion.width.fits)) := by
  rw [scanConversion_eq ended extra_size rfl rfl]
  by_cases wide : widthDigits (text.dropWhile isSkippedFlag) ≠ [] ∧ 1024 < atoi (widthDigits (text.dropWhile isSkippedFlag))
  · refine .inr ⟨by rw [if_pos wide], ?_⟩
    rintro conversion rest reads ⟨admitted, fits⟩
    rw [(readConversion_admitted reads admitted).1, fits_plainNumber] at fits
    exact fits wide
  · rw [if_neg wide]
    cases isRest : withoutPrecision ((text.dropWhile isSkippedFlag).dropWhile isdigit) with
    | nil =>
      refine .inr ⟨rfl, ?_⟩
      rintro conversion rest reads ⟨admitted, -⟩
      cases (readConversion_admitted reads admitted).2.symm.trans isRest
    | cons c rest =>
      cases double : isDoubleConversion c with
      | false =>
        refine .inr ⟨congrArg some (if_neg (by simp [double])), ?_⟩
        rintro conversion rest' reads ⟨admitted, -⟩
        obtain ⟨isSpecifier_, -⟩ := List.cons.inj ((readConversion_admitted reads admitted).2.symm.trans isRest)
        rw [← isSpecifier_, admitted.specifier] at double
        cases double
      | true =>
        obtain ⟨conversion, reads, admitted, rfl, isWidth⟩ := readConversion_of double isRest
        refine .inl ⟨conversion, rest, _, reads, admitted, isWidth ▸ fits_plainNumber.mpr wide, ?_, congrArg some (if_pos double)⟩
        omega

theorem readConversion_suffix {conversion : ConversionSpec} {rest : CString} (reads : readConversion text = some (conversion, rest)) :
    conversion.specifier :: rest <:+ text := by
  have number (text : CString) : (readFormatNumber text).2 <:+ text := by
    unfold readFormatNumber
    split
    · exact suffix_cons _ _
    · exact dropWhile_suffix _
  have precision (text : CString) : (readPrecision text).2 <:+ text := by
    unfold readPrecision
    split
    · exact (number _).trans (suffix_cons _ _)
    · exact suffix_rfl
  have modifier (text : CString) : (readModifier text).2 <:+ text := by
    unfold readModifier
    split
    all_goals
      first
      | exact suffix_rfl
      | exact suffix_cons _ _
      | exact (suffix_cons _ _).trans (suffix_cons _ _)
  unfold readConversion at reads
  dsimp only at reads
  split at reads
  · cases reads
  · rename_i c others isRest
    have all := (modifier _).trans ((precision _).trans ((number _).trans (dropWhile_suffix (l := text) isPrintfFlag)))
    rw [isRest] at all
    split at reads
    · cases reads
      exact all
    · cases reads

theorem readConversion_percent {rest : CString} (reads : readConversion text = some (percentSign, rest)) : text = 37 :: rest := by
  unfold readConversion at reads
  dsimp only at reads
  split at reads
  · cases reads
  · rename_i c others isRest
    split at reads
    · obtain ⟨isConversion, isOthers⟩ := Prod.mk.inj (Option.some.inj reads)
      rw [percentSign, ConversionSpec.mk.injEq] at isConversion
      obtain ⟨flags, width, precision, modifier, rfl⟩ := isConversion
      have noFlags : text.dropWhile isPrintfFlag = text := by
        have parts := @List.takeWhile_append_dropWhile _ isPrintfFlag text
        rwa [flags, nil_append] at parts
      rw [noFlags] at isRest modifier precision width
      have noDigits : (readFormatNumber text).2 = text := by
        have plain : text.head? ≠ some 42 := head_of_number (by simp [width])
        have parts := @List.takeWhile_append_dropWhile _ isdigit text
        rw [readFormatNumber_of plain] at width ⊢
        unfold plainNumber widthDigits at width
        split at width
        · rename_i none_
          rwa [none_, nil_append] at parts
        · cases width
      rw [noDigits] at isRest modifier precision
      have noPrecision : (readPrecision text).2 = text := by
        unfold readPrecision at precision ⊢
        split at precision
        · cases precision
        · rfl
      rw [noPrecision] at isRest modifier
      rw [readModifier_none modifier] at isRest
      rw [isRest, isOthers]
    · cases reads

theorem readConversion_percentSign (rest : CString) : readConversion (37 :: rest) = some (percentSign, rest) := rfl

def Accepted (pctAlreadyFound : Bool) (conversions : List ConversionSpec) : Prop :=
  conversions = [] ∨ pctAlreadyFound = false ∧ ∃ conversion, conversions = [conversion] ∧ Admitted conversion ∧ conversion.width.fits

theorem scanFormat_spec (ended : 0 ∉ text) {turns steps : Nat} (enough : text.length < turns) (enoughSteps : text.length ≤ steps)
    (pctAlreadyFound : Bool) {extra_size : Int} (notNegative : 0 ≤ extra_size) :
    (∃ size conversions, scanFormat turns pctAlreadyFound extra_size (text ++ [0]) = some (some size) ∧ 0 ≤ size ∧
      readConversions steps text = some conversions ∧ Accepted pctAlreadyFound conversions) ∨
    (scanFormat turns pctAlreadyFound extra_size (text ++ [0]) = some none ∧
      ∀ conversions, readConversions steps text = some conversions → ¬ Accepted pctAlreadyFound conversions) := by
  induction turns generalizing text steps pctAlreadyFound extra_size with
  | zero => omega
  | succ turns ih =>
    cases text with
    | nil => exact .inl ⟨extra_size, [], rfl, notNegative, by cases steps <;> rfl, .inl rfl⟩
    | cons c text =>
      rw [mem_cons, not_or] at ended
      rw [length_cons] at enough enoughSteps
      obtain ⟨steps, rfl⟩ : ∃ fewer, steps = fewer + 1 := ⟨steps - 1, by omega⟩
      rw [scanFormat, readConversions, cons_append, head?_cons, tail_cons]
      simp only [Option.bind_eq_bind, Option.bind_some]
      rw [if_neg (Ne.symm ended.1)]
      by_cases percent : c = 37
      · rw [if_pos percent, if_pos percent, head_append, Option.bind_some]
        by_cases escaped : text.head?.getD 0 = 37
        · obtain ⟨rest, rfl⟩ : ∃ rest, text = 37 :: rest := by
            cases text with
            | nil => cases escaped
            | cons d rest => exact ⟨rest, congrArg (· :: rest) escaped⟩
          rw [mem_cons, not_or] at ended
          rw [length_cons] at enough enoughSteps
          rw [if_pos escaped, cons_append, tail_cons, readConversion_percentSign, Option.bind_some]
          have later := @ih rest ended.2.2 steps (by omega) (by omega) pctAlreadyFound extra_size notNegative
          simpa using later
        · have notPercent {conversion : ConversionSpec} {rest : CString} (reads : readConversion text = some (conversion, rest)) :
              conversion ≠ percentSign := by
            rintro rfl
            rw [readConversion_percent reads] at escaped
            exact escaped rfl
          rw [if_neg escaped]
          cases pctAlreadyFound with
          | true =>
            refine .inr ⟨rfl, fun conversions all accepted => ?_⟩
            obtain ⟨⟨conversion, rest⟩, reads, all⟩ := Option.bind_eq_some_iff.mp all
            obtain ⟨others, -, isAll⟩ := Option.bind_eq_some_iff.mp all
            rw [if_neg (notPercent reads)] at isAll
            rcases accepted with none_ | ⟨found, -⟩
            · rw [← Option.some.inj isAll] at none_
              cases none_
            · cases found
          | false =>
            rw [if_neg Bool.false_ne_true]
            rcases scanConversion_spec ended.2 extra_size with
              ⟨conversion, rest, size, reads, admitted, fits, sizeSign, scan⟩ | ⟨scan, refused⟩
            · have isSuffix := readConversion_suffix reads
              have less := isSuffix.length_le
              rw [length_cons] at less
              have endedRest : 0 ∉ rest := fun member => ended.2 (isSuffix.subset (mem_cons_of_mem _ member))
              rw [scan, reads, Option.bind_some, Option.bind_some]
              dsimp only
              rw [cons_append, tail_cons]
              simp only [if_neg (notPercent reads)]
              rcases @ih rest endedRest steps (by omega) (by omega) true size sizeSign with
                ⟨size', others, run, sign, all, accepted⟩ | ⟨run, refused⟩
              · rcases accepted with rfl | ⟨found, -⟩
                · exact .inl ⟨size', [conversion], run, sign, by rw [all]; rfl, .inr ⟨rfl, conversion, rfl, admitted, fits⟩⟩
                · cases found
              · refine .inr ⟨run, fun conversions all accepted => ?_⟩
                obtain ⟨others, isOthers, isAll⟩ := Option.bind_eq_some_iff.mp all
                obtain rfl := Option.some.inj isAll
                rcases accepted with none_ | ⟨-, other, same, -⟩
                · cases none_
                · exact refused others isOthers (.inl (List.cons.inj same).2)
            · rw [scan, Option.bind_some]
              refine .inr ⟨rfl, fun conversions all accepted => ?_⟩
              obtain ⟨⟨conversion, rest⟩, reads, all⟩ := Option.bind_eq_some_iff.mp all
              obtain ⟨others, -, isAll⟩ := Option.bind_eq_some_iff.mp all
              rw [if_neg (notPercent reads)] at isAll
              rcases accepted with none_ | ⟨-, other, same, admitted⟩
              · rw [← Option.some.inj isAll] at none_
                cases none_
              · rw [← Option.some.inj isAll] at same
                obtain rfl : conversion = other := (List.cons.inj same).1
                exact refused conversion rest reads admitted
      · rw [if_neg percent, if_neg percent]
        exact ih ended.2 (by omega) (by omega) pctAlreadyFound notNegative

theorem length_ret {format : CString} {size : Int} (notNegative : 0 ≤ size) (printed : CString) :
    (snprintf ((format.length : Int) + size + size / 3 + 1).toNat printed ++ [0]).length ≤
      ((format.length : Int) + size + size / 3 + 1).toNat := by
  rw [snprintf, length_append, length_take, length_singleton]
  omega

/-- A format that is not refused can print one number only, unless its width is one that `atoi` makes a small number of. -/
theorem formatChecked_iff {format : CString} (ended : 0 ∉ format) : FormatChecked format ↔
    ∀ conversion, conversionsOf format = some [conversion] → Admitted conversion → conversion.width.fits →
      conversion.width.value ≤ 1024 := by
  have whole := @scanFormat_spec format ended (format.length + 1) format.length (Nat.lt_succ_self _) (Nat.le_refl _) false 0 (Int.le_refl 0)
  constructor
  · intro checked conversion isOnly admitted fits
    obtain ⟨result, run, all⟩ := checked []
    rcases whole with ⟨size, conversions, scan, sign, isAll, -⟩ | ⟨-, refused⟩
    · rw [msToString, scan] at run
      obtain ⟨⟨others, isOthers, -, takes⟩, -⟩ := all _ (Option.some.inj run).symm
      obtain rfl := Option.some.inj (isOnly.symm.trans isOthers)
      exact (takes conversion (List.mem_singleton_self _)).2
    · exact absurd (.inr ⟨rfl, conversion, rfl, admitted, fits⟩) (refused [conversion] isOnly)
  · intro narrow printed
    rcases whole with ⟨size, conversions, scan, sign, isAll, accepted⟩ | ⟨scan, -⟩
    · refine ⟨_, by rw [msToString, scan]; rfl, ?_⟩
      rintro number ⟨⟩
      refine ⟨⟨conversions, isAll, ?_⟩, length_ret sign printed⟩
      rcases accepted with rfl | ⟨-, conversion, rfl, admitted, fits⟩
      · exact ⟨Nat.zero_le _, nofun⟩
      · refine ⟨Nat.le_refl 1, fun other member => ?_⟩
        rw [List.mem_singleton.mp member]
        exact ⟨admitted.toTakesDouble, narrow conversion isAll admitted fits⟩
    · exact ⟨none, by rw [msToString, scan]; rfl, nofun⟩

theorem formatChecked_iff_width : FormatChecked (ascii "%5.2f %%") := by
  refine (formatChecked_iff (by decide)).mpr fun conversion isOnly admitted fits => ?_
  have isConversion : conversionsOf (ascii "%5.2f %%") =
      some [⟨[], .digits (ascii "5"), some (.digits (ascii "2")), [], 102⟩] := by decide
  obtain rfl := (List.cons.inj (Option.some.inj (isConversion.symm.trans isOnly))).1
  decide

theorem formatChecked_fails : ¬ ∀ format : CString, 0 ∉ format → FormatChecked format := by
  intro all
  have isConversion : conversionsOf (ascii "%4294967297f") = some [⟨[], .digits (ascii "4294967297"), none, [], 102⟩] := by decide
  obtain ⟨result, run, prints⟩ := all (ascii "%4294967297f") (by decide) []
  have accepts : (msToString [] (ascii "%4294967297f")).map Option.isSome = some true := by decide
  rw [run, Option.map_some] at accepts
  obtain ⟨number, isResult⟩ := Option.isSome_iff_exists.mp (Option.some.inj accepts)
  obtain ⟨⟨conversions, isAll, -, takes⟩, -⟩ := prints number isResult
  obtain rfl := Option.some.inj (isConversion.symm.trans isAll)
  have narrow := (takes _ (List.mem_singleton_self _)).2
  revert narrow
  decide

end Conversion

end MapServer
