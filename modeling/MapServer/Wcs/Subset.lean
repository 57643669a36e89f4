import Mathlib.Data.List.TakeWhile
import Mathlib.Tactic.Linarith
import MapServer.Text

namespace MapServer
open List Option

@[irreducible] def DBL_MAX : Rat := (2 ^ 53 - 1) * 2 ^ 971

theorem DBL_MAX_pos : 0 < DBL_MAX := by
  rw [DBL_MAX]
  exact mul_pos (by norm_num) (pow_pos two_pos _)

abbrev FiniteDouble := { v : Rat // |v| ≤ DBL_MAX }

def MS_WCS20_UNBOUNDED : FiniteDouble := ⟨DBL_MAX, (abs_of_pos DBL_MAX_pos).le⟩

def negUnbounded : FiniteDouble := ⟨-DBL_MAX, (abs_neg DBL_MAX).trans_le MS_WCS20_UNBOUNDED.property⟩

/-- How texts are read as values, and how the union reads one kind of value as the other. -/
structure ValueReading where
  strtod : CString → FiniteDouble
  msParseTime : CString → Option Int64
  timeBits : FiniteDouble → Int64
  scalarBits : Int64 → FiniteDouble
  unboundedBits : timeBits MS_WCS20_UNBOUNDED = 0x7FEFFFFFFFFFFFFF

inductive UnionValue where
  | scalar (v : FiniteDouble)
  | time (t : Int64)
  deriving DecidableEq

structure TimeScalarUnion where
  value : UnionValue
  unbounded : Bool

inductive SubsetOperation where
  | MS_WCS20_TRIM | MS_WCS20_SLICE
  deriving DecidableEq

inductive SubsetKind where
  | MS_WCS20_SCALAR_VALUE | MS_WCS20_TIME_VALUE | MS_WCS20_UNDEFINED_VALUE
  deriving DecidableEq

structure Wcs20SubsetObj where
  axis : CString
  operation : SubsetOperation
  crs : Option CString
  timeOrScalar : SubsetKind
  min : TimeScalarUnion
  max : TimeScalarUnion

inductive SubsetError where
  | invalidString
  | notTimeOrScalar (string : CString)
  | axisNotGiven
  | intervalKinds (minimum maximum : SubsetKind)
  | noBounds
  | invalidPoint
  | timesReversed (axis : CString)
  | scalarsReversed (minimum : FiniteDouble) (axis : CString) (maximum : FiniteDouble)
  | invalidSubset (string : CString)

/-- A subset of `malloc`, whose kind is not set. -/
def msWCSCreateSubsetObj20 (kind : SubsetKind) : Wcs20SubsetObj :=
  ⟨[], .MS_WCS20_SLICE, none, kind, ⟨.scalar MS_WCS20_UNBOUNDED, false⟩, ⟨.scalar MS_WCS20_UNBOUNDED, false⟩⟩

section Model
variable (reading : ValueReading)

def msStringParseDouble (string : CString) : Option FiniteDouble :=
  if strtodEnd string = some [] then some (reading.strtod string) else none

def UnionValue.asScalar : UnionValue → FiniteDouble
  | .scalar v => v
  | .time t => reading.scalarBits t

def UnionValue.asTime : UnionValue → Int64
  | .scalar v => reading.timeBits v
  | .time t => t

def msWCSParseTimeOrScalar20 (u : TimeScalarUnion) (string : Option CString) : Except SubsetError (TimeScalarUnion × SubsetKind) :=
  match string.map fun string => string.dropWhile (· = 32) with
  | none | some [] => .error .invalidString
  | some string =>
    if sameIgnoringCase string [42] then .ok (⟨.scalar MS_WCS20_UNBOUNDED, true⟩, .MS_WCS20_UNDEFINED_VALUE)
    else match msStringParseDouble reading string with
      | some v => .ok ({ u with value := .scalar v }, .MS_WCS20_SCALAR_VALUE)
      | none =>
        match reading.msParseTime string with
        | some t => .ok ({ u with value := .time t }, .MS_WCS20_TIME_VALUE)
        | none => .error (.notTimeOrScalar string)

def intervalKind (ts1 ts2 : SubsetKind) : Except SubsetError SubsetKind :=
  if xor (ts1 == .MS_WCS20_UNDEFINED_VALUE) (ts2 == .MS_WCS20_UNDEFINED_VALUE) then
    .ok (if ts1 = .MS_WCS20_UNDEFINED_VALUE then ts2 else ts1)
  else if ts1 ≠ .MS_WCS20_UNDEFINED_VALUE ∧ ts2 ≠ .MS_WCS20_UNDEFINED_VALUE ∧ ts1 ≠ ts2 then .error (.intervalKinds ts1 ts2)
  else .ok ts1

def openMinimum (subset : Wcs20SubsetObj) : Wcs20SubsetObj :=
  if subset.timeOrScalar = .MS_WCS20_SCALAR_VALUE ∧ subset.min.value.asScalar reading = MS_WCS20_UNBOUNDED then
    { subset with min.value := .scalar negUnbounded }
  else subset

def checkOrder (subset : Wcs20SubsetObj) : Except SubsetError Wcs20SubsetObj :=
  if subset.timeOrScalar = .MS_WCS20_TIME_VALUE ∧ subset.min.value.asTime reading > subset.max.value.asTime reading then
    .error (.timesReversed subset.axis)
  else if subset.timeOrScalar = .MS_WCS20_SCALAR_VALUE ∧ subset.min.value.asScalar reading > subset.max.value.asScalar reading then
    .error (.scalarsReversed (subset.min.value.asScalar reading) subset.axis (subset.max.value.asScalar reading))
  else .ok subset

def msWCSParseSubset20 (subset : Wcs20SubsetObj) (axis : CString) (crs min max : Option CString) : Except SubsetError Wcs20SubsetObj := do
  if axis = [] then .error .axisNotGiven
  else
    let subset := { subset with axis, crs := crs.or subset.crs }
    let (lower, ts1) ← msWCSParseTimeOrScalar20 reading subset.min min
    let subset := { subset with min := lower }
    if max.any (· ≠ []) then
      let (upper, ts2) ← msWCSParseTimeOrScalar20 reading subset.max max
      let subset := { subset with operation := .MS_WCS20_TRIM, max := upper }
      let kind ← intervalKind ts1 ts2
      if subset.min.unbounded && subset.max.unbounded then .error .noBounds
      else checkOrder reading (openMinimum reading { subset with timeOrScalar := kind })
    else if ts1 = .MS_WCS20_UNDEFINED_VALUE then .error .invalidPoint
    else .ok { subset with operation := .MS_WCS20_SLICE, timeOrScalar := ts1 }

/-- The text before a character and the one behind it, as `strchr` finds it. -/
def cutAt (c : UInt8) (string : CString) : CString × Option CString :=
  (string.takeWhile (· ≠ c), match string.dropWhile (· ≠ c) with
    | [] => none
    | _ :: rest => some rest)

def msWCSParseSubsetKVPString20 (subset : Wcs20SubsetObj) (string : CString) : Except SubsetError Wcs20SubsetObj :=
  match cutAt 40 string with
  | (_, none) => .error (.invalidSubset string)
  | (axis, some min) =>
    -- the trailing parenthesis
    let min := if min.getLast? = some 41 then min.dropLast else min
    let (min, max) := cutAt 44 min
    let (axis, crs) := cutAt 44 axis
    msWCSParseSubset20 reading subset axis crs (some min) max

end Model

inductive BoundValue where
  | number (v : FiniteDouble)
  | time (t : Int64)
  | unbounded
  deriving DecidableEq

def Denotes (reading : ValueReading) (text : CString) : BoundValue → Prop
  | .number v => strtodEnd text = some [] ∧ reading.strtod text = v
  | .time t => text ≠ [42] ∧ strtodEnd text ≠ some [] ∧ reading.msParseTime text = some t
  | .unbounded => text = [42]

structure Bound (reading : ValueReading) where
  text : CString
  value : BoundValue
  some_ : text ≠ []
  blank : text.head? ≠ some 32
  comma : 44 ∉ text
  denotes : Denotes reading text value

/-- `axis(low)`, `axis,crs(low)`, `axis(low,high)` or `axis,crs(low,high)`. -/
def subsetText (axis : CString) (crs : Option CString) (low : CString) (high : Option CString) : CString :=
  axis ++ (crs.map (44 :: ·)).getD [] ++ 40 :: (low ++ (high.map (44 :: ·)).getD [] ++ [41])

def NotEmpty : BoundValue → Option BoundValue → Prop
  | low, none => low ≠ .unbounded
  | .number v, some (.number w) => v ≤ w
  | .time t, some (.time u) => t ≤ u
  | .number _, some (.time _) | .time _, some (.number _) => False
  | low, some high => low ≠ .unbounded ∨ high ≠ .unbounded

def boundKind : BoundValue → SubsetKind
  | .number _ => .MS_WCS20_SCALAR_VALUE
  | .time _ => .MS_WCS20_TIME_VALUE
  | .unbounded => .MS_WCS20_UNDEFINED_VALUE

section Subset
variable (reading : ValueReading)

def IsLower (kind : SubsetKind) (value : UnionValue) : BoundValue → Prop
  | .number v => value.asScalar reading = v
  | .time t => value.asTime reading = t
  | .unbounded => (kind = .MS_WCS20_SCALAR_VALUE → ∀ v, value.asScalar reading ≤ v) ∧
      (kind = .MS_WCS20_TIME_VALUE → ∀ t, value.asTime reading ≤ t)

def IsUpper (kind : SubsetKind) (value : UnionValue) : BoundValue → Prop
  | .number v => value.asScalar reading = v
  | .time t => value.asTime reading = t
  | .unbounded => (kind = .MS_WCS20_SCALAR_VALUE → ∀ v, v ≤ value.asScalar reading) ∧
      (kind = .MS_WCS20_TIME_VALUE → ∀ t, t ≤ value.asTime reading)

structure SubsetRight (axis : CString) (crs : Option CString) (low : BoundValue) (high : Option BoundValue) (subset : Wcs20SubsetObj) :
    Prop where
  axis : subset.axis = axis
  crs : subset.crs = crs
  operation : subset.operation = if high.isSome then .MS_WCS20_TRIM else .MS_WCS20_SLICE
  kind : subset.timeOrScalar = if low = .unbounded then (high.map boundKind).getD .MS_WCS20_UNDEFINED_VALUE else boundKind low
  lower : IsLower reading subset.timeOrScalar subset.min.value low
  upper : ∀ bound ∈ high, IsUpper reading subset.timeOrScalar subset.max.value bound

def TakesSubset (axis : CString) (crs : Option CString) (low : BoundValue) (high : Option BoundValue)
    (result : Except SubsetError Wcs20SubsetObj) : Prop :=
  ((∃ subset, result = .ok subset) ↔ NotEmpty low high) ∧
    (NotEmpty low high → ∀ subset, result = .ok subset → SubsetRight reading axis crs low high subset)

def MarkerUnused : BoundValue → Option BoundValue → Prop
  | .number v, some high => v ≠ MS_WCS20_UNBOUNDED ∨ ∃ t, high = .time t
  | .time _, some .unbounded | .unbounded, some (.time _) => False
  | _, _ => True

end Subset

theorem cutAt_cons {c : UInt8} {front : CString} (first : c ∉ front) (rest : CString) : cutAt c (front ++ c :: rest) = (front, some rest) := by
  have all : ∀ x ∈ front, decide (x ≠ c) = true := fun x member => by
    rw [decide_eq_true_eq]
    rintro rfl
    exact first member
  rw [cutAt, takeWhile_append_of_pos all, takeWhile_cons_of_neg (by simp), append_nil,
    dropWhile_append_of_pos all, dropWhile_cons_of_neg (by simp)]

theorem cutAt_whole {c : UInt8} {text : CString} (whole : c ∉ text) : cutAt c text = (text, none) := by
  have all : ∀ x ∈ text, decide (x ≠ c) = true := fun x member => by
    rw [decide_eq_true_eq]
    rintro rfl
    exact whole member
  rw [cutAt, takeWhile_eq_self_iff.mpr all, dropWhile_eq_nil_iff.mpr all]

theorem cutAt_optional {c : UInt8} {front : CString} (first : c ∉ front) (second : Option CString) :
    cutAt c (front ++ (second.map (c :: ·)).getD []) = (front, second) := by
  cases second with
  | none =>
    rw [map_none, getD_none, append_nil]
    exact cutAt_whole first
  | some rest => exact cutAt_cons first rest

theorem msWCSParseSubsetKVPString20_text (reading : ValueReading) (subset : Wcs20SubsetObj) {axis : CString} (noComma : 44 ∉ axis)
    (noParenthesis : 40 ∉ axis) {crs : Option CString} (plain : ∀ text ∈ crs, 40 ∉ text) {low : CString} (single : 44 ∉ low)
    (high : Option CString) :
    msWCSParseSubsetKVPString20 reading subset (subsetText axis crs low high) =
      msWCSParseSubset20 reading subset axis crs (some low) high := by
  have before : 40 ∉ axis ++ (crs.map (44 :: ·)).getD [] := by
    rw [mem_append, not_or]
    refine ⟨noParenthesis, ?_⟩
    cases crs with
    | none => exact not_mem_nil
    | some text =>
      rw [map_some, getD_some, mem_cons, not_or]
      exact ⟨by decide, plain text rfl⟩
  rw [msWCSParseSubsetKVPString20, subsetText, cutAt_cons before]
  dsimp only
  rw [if_pos (by rw [getLast?_append]; rfl), dropLast_concat, cutAt_optional single, cutAt_optional noComma]

section Bounds
variable {reading : ValueReading}

theorem sameIgnoringCase_star {string : CString} : sameIgnoringCase string [42] = true ↔ string = [42] := by
  have letter (c : UInt8) (same : tolower c = 42) : c = 42 := by
    rw [tolower] at same
    split at same
    · rename_i upper
      have isTen : c = 42 - 32 := by rw [← same, UInt8.add_sub_cancel]
      rw [isTen] at upper
      exact absurd upper (by decide)
    · exact same
  rw [sameIgnoringCase_iff]
  constructor
  · intro same
    obtain ⟨c, isString, isLetter⟩ := map_eq_singleton_iff.mp same
    rw [isString, letter c isLetter]
  · rintro rfl
    rfl

def BoundValue.store (u : TimeScalarUnion) : BoundValue → TimeScalarUnion
  | .number v => { u with value := .scalar v }
  | .time t => { u with value := .time t }
  | .unbounded => ⟨.scalar MS_WCS20_UNBOUNDED, true⟩

theorem Bound.parse (bound : Bound reading) (u : TimeScalarUnion) :
    msWCSParseTimeOrScalar20 reading u (some bound.text) = .ok (bound.value.store u, boundKind bound.value) := by
  obtain ⟨text, value, some_, blank, _, denotes⟩ := bound
  have skip : text.dropWhile (· = 32) = text := by
    cases text with
    | nil => rfl
    | cons c rest => exact dropWhile_cons_of_neg (by simpa using blank)
  rw [msWCSParseTimeOrScalar20, map_some, skip]
  cases text with
  | nil => exact absurd rfl some_
  | cons c rest =>
    dsimp only
    cases value with
    | unbounded =>
      rw [if_pos (sameIgnoringCase_star.mpr denotes)]
      rfl
    | number v =>
      obtain ⟨number, rfl⟩ := denotes
      have noStar : c :: rest ≠ [42] := by
        rintro same
        rw [same] at number
        exact absurd number (by decide)
      rw [if_neg fun star => noStar (sameIgnoringCase_star.mp star), msStringParseDouble, if_pos number]
      rfl
    | time t =>
      obtain ⟨noStar, noNumber, time⟩ := denotes
      rw [if_neg fun star => noStar (sameIgnoringCase_star.mp star), msStringParseDouble, if_neg noNumber]
      rw [time]
      rfl

def subsetOf (axis : CString) (crs : Option CString) (operation : SubsetOperation) (kind : SubsetKind) (low : BoundValue)
    (high : Option BoundValue) : Wcs20SubsetObj :=
  ⟨axis, operation, crs, kind, low.store ⟨.scalar MS_WCS20_UNBOUNDED, false⟩,
    (high.map (BoundValue.store ⟨.scalar MS_WCS20_UNBOUNDED, false⟩)).getD ⟨.scalar MS_WCS20_UNBOUNDED, false⟩⟩

theorem msWCSParseSubset20_point {axis : CString} (named : axis ≠ []) (crs : Option CString) (low : Bound reading) (kind : SubsetKind) :
    msWCSParseSubset20 reading (msWCSCreateSubsetObj20 kind) axis crs (some low.text) none =
      if low.value = .unbounded then .error .invalidPoint
      else .ok (subsetOf axis crs .MS_WCS20_SLICE (boundKind low.value) low.value none) := by
  have same : boundKind low.value = .MS_WCS20_UNDEFINED_VALUE ↔ low.value = .unbounded := by cases low.value <;> simp [boundKind]
  rw [msWCSParseSubset20, if_neg named]
  dsimp only [msWCSCreateSubsetObj20]
  rw [low.parse]
  simp only [bind, Except.bind, any_none, Bool.false_eq_true, if_false, same, or_none]
  rfl

theorem msWCSParseSubset20_interval {axis : CString} (named : axis ≠ []) (crs : Option CString) (low high : Bound reading)
    (kind : SubsetKind) :
    msWCSParseSubset20 reading (msWCSCreateSubsetObj20 kind) axis crs (some low.text) (some high.text) =
      (intervalKind (boundKind low.value) (boundKind high.value)).bind fun kind =>
        if low.value = .unbounded ∧ high.value = .unbounded then .error .noBounds
        else checkOrder reading (openMinimum reading (subsetOf axis crs .MS_WCS20_TRIM kind low.value (some high.value))) := by
  have marks (value : BoundValue) : (value.store ⟨.scalar MS_WCS20_UNBOUNDED, false⟩).unbounded = true ↔ value = .unbounded := by
    cases value <;> simp [BoundValue.store]
  rw [msWCSParseSubset20, if_neg named]
  dsimp only [msWCSCreateSubsetObj20]
  rw [low.parse, high.parse]
  simp only [bind, Except.bind, any_some, decide_eq_true_eq, ne_eq, high.some_, not_false_eq_true, if_true, Bool.and_eq_true,
    marks, or_none]
  rfl

theorem unbounded_ge (v : FiniteDouble) : v ≤ MS_WCS20_UNBOUNDED := (le_abs_self v.val).trans v.property

theorem negUnbounded_le (v : FiniteDouble) : negUnbounded ≤ v := neg_le_of_abs_le v.property

theorem negUnbounded_ne : negUnbounded ≠ MS_WCS20_UNBOUNDED := by
  intro same
  have values : -DBL_MAX = DBL_MAX := congrArg Subtype.val same
  have positive := DBL_MAX_pos
  linarith

theorem marker_inside : (∃ t : Int64, t < reading.timeBits MS_WCS20_UNBOUNDED) ∧ ∃ t : Int64, reading.timeBits MS_WCS20_UNBOUNDED < t := by
  rw [reading.unboundedBits]
  exact ⟨⟨0, by decide⟩, ⟨Int64.maxValue, by decide⟩⟩

variable {axis : CString} {crs : Option CString}

theorem takesSubset_point (low : BoundValue) :
    TakesSubset reading axis crs low none (if low = .unbounded then .error .invalidPoint
      else .ok (subsetOf axis crs .MS_WCS20_SLICE (boundKind low) low none)) := by
  constructor
  · split <;> simp_all [NotEmpty]
  · intro some_ subset result
    rw [if_neg some_] at result
    cases result
    refine ⟨rfl, rfl, rfl, (if_neg some_).symm, ?_, fun _ member => nomatch member⟩
    cases low with
    | number v => rfl
    | time t => rfl
    | unbounded => exact absurd rfl some_

variable {subset : Wcs20SubsetObj} {high low : BoundValue}

theorem checkOrder_scalar (kind : subset.timeOrScalar = .MS_WCS20_SCALAR_VALUE) :
    checkOrder reading subset = if subset.min.value.asScalar reading > subset.max.value.asScalar reading then
      .error (.scalarsReversed (subset.min.value.asScalar reading) subset.axis (subset.max.value.asScalar reading)) else .ok subset := by
  rw [checkOrder, kind, if_neg (fun time => absurd time.1 nofun)]
  simp only [true_and]

theorem checkOrder_time (kind : subset.timeOrScalar = .MS_WCS20_TIME_VALUE) :
    checkOrder reading (openMinimum reading subset) = if subset.min.value.asTime reading > subset.max.value.asTime reading then
      .error (.timesReversed subset.axis) else .ok subset := by
  have noScalar : SubsetKind.MS_WCS20_TIME_VALUE ≠ .MS_WCS20_SCALAR_VALUE := nofun
  rw [openMinimum, if_neg fun both => noScalar (kind.symm.trans both.1), checkOrder, kind,
    if_neg (fun both : SubsetKind.MS_WCS20_TIME_VALUE = .MS_WCS20_SCALAR_VALUE ∧ _ => noScalar both.1)]
  simp only [true_and]

theorem checkOrder_marker (kind : subset.timeOrScalar = .MS_WCS20_SCALAR_VALUE)
    (marker : subset.min.value.asScalar reading = MS_WCS20_UNBOUNDED) :
    checkOrder reading (openMinimum reading subset) = .ok { subset with min.value := .scalar negUnbounded } := by
  rw [openMinimum, if_pos ⟨kind, marker⟩, checkOrder_scalar (by exact kind)]
  exact if_neg (not_lt.mpr (negUnbounded_le _))

theorem checkOrder_number (kind : subset.timeOrScalar = .MS_WCS20_SCALAR_VALUE)
    (kept : subset.min.value.asScalar reading ≠ MS_WCS20_UNBOUNDED) : checkOrder reading (openMinimum reading subset) =
      if subset.min.value.asScalar reading > subset.max.value.asScalar reading then
        .error (.scalarsReversed (subset.min.value.asScalar reading) subset.axis (subset.max.value.asScalar reading)) else .ok subset := by
  rw [openMinimum, if_neg fun both => kept both.2, checkOrder_scalar kind]

def intervalResult (reading : ValueReading) (axis : CString) (crs : Option CString) (low high : BoundValue) :
    Except SubsetError Wcs20SubsetObj :=
  (intervalKind (boundKind low) (boundKind high)).bind fun kind =>
    if low = .unbounded ∧ high = .unbounded then .error .noBounds
    else checkOrder reading (openMinimum reading (subsetOf axis crs .MS_WCS20_TRIM kind low (some high)))

theorem notEmpty_open (v : FiniteDouble) (t : Int64) :
    (NotEmpty (.number v) (some .unbounded) ∧ NotEmpty .unbounded (some (.number v))) ∧
      NotEmpty (.time t) (some .unbounded) ∧ NotEmpty .unbounded (some (.time t)) := by
  simp [NotEmpty]

theorem not_notEmpty (v : FiniteDouble) (t : Int64) :
    (¬NotEmpty (.number v) (some (.time t)) ∧ ¬NotEmpty (.time t) (some (.number v))) ∧ ¬NotEmpty .unbounded (some .unbounded) := by
  simp [NotEmpty]

theorem takesSubset_refused (empty : ¬NotEmpty low (some high)) (error : SubsetError) :
    TakesSubset reading axis crs low (some high) (.error error) :=
  ⟨⟨fun taken => (nomatch taken.choose_spec), fun some_ => absurd some_ empty⟩, fun some_ => absurd some_ empty⟩

theorem takesSubset_taken (some_ : NotEmpty low (some high)) (right : SubsetRight reading axis crs low (some high) subset) :
    TakesSubset reading axis crs low (some high) (.ok subset) :=
  ⟨⟨fun _ => some_, fun _ => ⟨subset, rfl⟩⟩, fun _ _ result => Except.ok.inj result ▸ right⟩

theorem takesSubset_number (v : FiniteDouble) (ends : ∀ t, high ≠ .time t) :
    TakesSubset reading axis crs (.number v) (some high) (intervalResult reading axis crs (.number v) high) ↔ v ≠ MS_WCS20_UNBOUNDED := by
  obtain ⟨subset, isSubset⟩ : ∃ subset, subset = subsetOf axis crs .MS_WCS20_TRIM .MS_WCS20_SCALAR_VALUE (.number v) (some high) := ⟨_, rfl⟩
  have result : intervalResult reading axis crs (.number v) high = checkOrder reading (openMinimum reading subset) := by
    rw [isSubset]
    cases high with
    | number w => rfl
    | time t => exact absurd rfl (ends t)
    | unbounded => rfl
  have kind : subset.timeOrScalar = .MS_WCS20_SCALAR_VALUE := by rw [isSubset]; rfl
  have lower : subset.min.value.asScalar reading = v := by rw [isSubset]; rfl
  rw [result]
  by_cases marker : v = MS_WCS20_UNBOUNDED
  · rw [checkOrder_marker kind (lower.trans marker)]
    refine iff_of_false (fun takes => ?_) (not_not.mpr marker)
    have right := takes.2 (takes.1.mp ⟨_, rfl⟩) _ rfl
    exact negUnbounded_ne (right.lower.trans marker)
  · refine iff_of_true ?_ marker
    rw [checkOrder_number kind (lower.trans_ne marker), lower]
    cases high with
    | number w =>
      have upper : subset.max.value.asScalar reading = w := by rw [isSubset]; rfl
      rw [upper]
      split
      · rename_i reversed
        have empty : ¬NotEmpty (.number v) (some (.number w)) := fun some_ => not_le.mpr reversed some_
        exact takesSubset_refused empty _
      · rename_i ordered
        have some_ : NotEmpty (.number v) (some (.number w)) := not_lt.mp ordered
        rw [isSubset]
        refine takesSubset_taken some_ ⟨rfl, rfl, rfl, rfl, rfl, fun bound isHigh => ?_⟩
        cases isHigh
        rfl
    | time t => exact absurd rfl (ends t)
    | unbounded =>
      have upper : subset.max.value.asScalar reading = MS_WCS20_UNBOUNDED := by rw [isSubset]; rfl
      rw [upper, if_neg (not_lt.mpr (unbounded_ge v)), isSubset]
      refine takesSubset_taken (notEmpty_open v 0).1.1 ⟨rfl, rfl, rfl, rfl, rfl, fun bound isHigh => ?_⟩
      cases isHigh
      exact ⟨fun _ => unbounded_ge, nofun⟩

theorem takesSubset_below (w : FiniteDouble) :
    TakesSubset reading axis crs .unbounded (some (.number w)) (intervalResult reading axis crs .unbounded (.number w)) := by
  have result : intervalResult reading axis crs .unbounded (.number w) = checkOrder reading
      (openMinimum reading (subsetOf axis crs .MS_WCS20_TRIM .MS_WCS20_SCALAR_VALUE .unbounded (some (.number w)))) := rfl
  rw [result, checkOrder_marker rfl rfl]
  refine takesSubset_taken (notEmpty_open w 0).1.2 ⟨rfl, rfl, rfl, rfl, ⟨fun _ => negUnbounded_le, nofun⟩, fun bound isHigh => ?_⟩
  cases isHigh
  rfl

theorem takesSubset_times (t u : Int64) :
    TakesSubset reading axis crs (.time t) (some (.time u)) (intervalResult reading axis crs (.time t) (.time u)) := by
  have result : intervalResult reading axis crs (.time t) (.time u) = checkOrder reading
      (openMinimum reading (subsetOf axis crs .MS_WCS20_TRIM .MS_WCS20_TIME_VALUE (.time t) (some (.time u)))) := rfl
  rw [result, checkOrder_time rfl]
  split
  · rename_i reversed
    have empty : ¬NotEmpty (.time t) (some (.time u)) := fun some_ => Int64.not_le.mpr reversed some_
    exact takesSubset_refused empty _
  · rename_i ordered
    have some_ : NotEmpty (.time t) (some (.time u)) := Int64.not_lt.mp ordered
    refine takesSubset_taken some_ ⟨rfl, rfl, rfl, rfl, rfl, fun bound isHigh => ?_⟩
    cases isHigh
    rfl

theorem not_takesSubset_openTime
    (ends : (∃ t, low = .time t) ∧ high = .unbounded ∨ low = .unbounded ∧ ∃ t, high = .time t) :
    ¬TakesSubset reading axis crs low (some high) (intervalResult reading axis crs low high) := by
  obtain ⟨⟨before, isBefore⟩, after, isAfter⟩ := @marker_inside reading
  rcases ends with ⟨⟨t, rfl⟩, rfl⟩ | ⟨rfl, t, rfl⟩
  · intro takes
    have some_ := (notEmpty_open MS_WCS20_UNBOUNDED t).2.1
    obtain ⟨subset, result⟩ := takes.1.mpr some_
    have right := takes.2 some_ subset result
    have check : intervalResult reading axis crs (.time t) .unbounded =
        checkOrder reading (openMinimum reading (subsetOf axis crs .MS_WCS20_TRIM .MS_WCS20_TIME_VALUE (.time t) (some .unbounded))) := rfl
    rw [check, checkOrder_time rfl] at result
    split at result
    · cases result
    · cases result
      exact Int64.not_lt.mpr ((right.upper .unbounded rfl).2 rfl after) isAfter
  · intro takes
    have some_ := (notEmpty_open MS_WCS20_UNBOUNDED t).2.2
    obtain ⟨subset, result⟩ := takes.1.mpr some_
    have right := takes.2 some_ subset result
    have check : intervalResult reading axis crs .unbounded (.time t) =
        checkOrder reading (openMinimum reading (subsetOf axis crs .MS_WCS20_TRIM .MS_WCS20_TIME_VALUE .unbounded (some (.time t)))) := rfl
    rw [check, checkOrder_time rfl] at result
    split at result
    · cases result
    · cases result
      exact Int64.not_lt.mpr (right.lower.2 rfl before) isBefore

theorem takesSubset_interval :
    TakesSubset reading axis crs low (some high) (intervalResult reading axis crs low high) ↔ MarkerUnused low (some high) := by
  cases low with
  | number v =>
    by_cases time : ∃ t, high = .time t
    · refine iff_of_true ?_ (.inr time)
      obtain ⟨t, rfl⟩ := time
      exact takesSubset_refused (not_notEmpty v t).1.1 (.intervalKinds .MS_WCS20_SCALAR_VALUE .MS_WCS20_TIME_VALUE)
    · exact (takesSubset_number v fun t isTime => time ⟨t, isTime⟩).trans (or_iff_left time).symm
  | time t =>
    cases high with
    | number w =>
      exact iff_of_true (takesSubset_refused (not_notEmpty w t).1.2 (.intervalKinds .MS_WCS20_TIME_VALUE .MS_WCS20_SCALAR_VALUE)) trivial
    | time u => exact iff_of_true (takesSubset_times t u) trivial
    | unbounded => exact iff_of_false (not_takesSubset_openTime (.inl ⟨⟨t, rfl⟩, rfl⟩)) id
  | unbounded =>
    cases high with
    | number w => exact iff_of_true (takesSubset_below w) trivial
    | time t => exact iff_of_false (not_takesSubset_openTime (.inr ⟨rfl, t, rfl⟩)) id
    | unbounded => exact iff_of_true (takesSubset_refused (not_notEmpty MS_WCS20_UNBOUNDED 0).2 .noBounds) trivial

/-- A subset is taken as it was asked for exactly where the marker of an open end stands for itself. -/
theorem msWCSParseSubsetKVPString20_takes_iff (reading : ValueReading) (kind : SubsetKind) {axis : CString} (named : axis ≠ [])
    (noComma : 44 ∉ axis) (noParenthesis : 40 ∉ axis) {crs : Option CString} (plain : ∀ text ∈ crs, 40 ∉ text) (low : Bound reading)
    (high : Option (Bound reading)) :
    TakesSubset reading axis crs low.value (high.map (·.value)) (msWCSParseSubsetKVPString20 reading (msWCSCreateSubsetObj20 kind)
      (subsetText axis crs low.text (high.map (·.text)))) ↔ MarkerUnused low.value (high.map (·.value)) := by
  rw [msWCSParseSubsetKVPString20_text reading _ noComma noParenthesis plain low.comma]
  cases high with
  | none =>
    refine iff_of_true ?_ (by cases low.value <;> trivial)
    rw [map_none, map_none, msWCSParseSubset20_point named]
    exact takesSubset_point low.value
  | some high =>
    rw [map_some, map_some, msWCSParseSubset20_interval named]
    exact takesSubset_interval

end Bounds

def zeroDouble : FiniteDouble := ⟨0, by rw [abs_zero]; exact DBL_MAX_pos.le⟩

def plainReading : ValueReading where
  strtod _ := zeroDouble
  msParseTime text := if text = ascii "2020-01-01" then some 1577836800 else none
  timeBits _ := 0x7FEFFFFFFFFFFFFF
  scalarBits _ := MS_WCS20_UNBOUNDED
  unboundedBits := rfl

def fromZero : Bound plainReading := ⟨ascii "0", .number zeroDouble, by decide, by decide, by decide, by decide +kernel, rfl⟩

def openBound : Bound plainReading := ⟨ascii "*", .unbounded, by decide, by decide, by decide, rfl⟩

def newYear : Bound plainReading :=
  ⟨ascii "2020-01-01", .time 1577836800, by decide, by decide, by decide, by decide, by decide +kernel, rfl⟩

theorem msWCSParseSubsetKVPString20_takes_iff_above :
    TakesSubset plainReading (ascii "x") none (.number zeroDouble) (some .unbounded)
      (msWCSParseSubsetKVPString20 plainReading (msWCSCreateSubsetObj20 .MS_WCS20_UNDEFINED_VALUE)
        (subsetText (ascii "x") none (ascii "0") (some (ascii "*")))) ↔
      MarkerUnused (.number zeroDouble) (some .unbounded) :=
  msWCSParseSubsetKVPString20_takes_iff plainReading .MS_WCS20_UNDEFINED_VALUE (by decide) (by decide) (by decide)
    (fun _ member => absurd member (Option.not_mem_none _)) fromZero (some openBound)

theorem open_time_refused : NotEmpty .unbounded (some newYear.value) ∧
    msWCSParseSubsetKVPString20 plainReading (msWCSCreateSubsetObj20 .MS_WCS20_UNDEFINED_VALUE) (ascii "time(*,2020-01-01)") =
      .error (.timesReversed (ascii "time")) ∧
    ¬TakesSubset plainReading (ascii "time") none .unbounded (some newYear.value)
      (msWCSParseSubsetKVPString20 plainReading (msWCSCreateSubsetObj20 .MS_WCS20_UNDEFINED_VALUE) (ascii "time(*,2020-01-01)")) := by
  have text : ascii "time(*,2020-01-01)" = subsetText (ascii "time") none openBound.text (some newYear.text) := by decide +kernel
  have interval : msWCSParseSubsetKVPString20 plainReading (msWCSCreateSubsetObj20 .MS_WCS20_UNDEFINED_VALUE)
      (ascii "time(*,2020-01-01)") = intervalResult plainReading (ascii "time") none .unbounded newYear.value := by
    rw [text, msWCSParseSubsetKVPString20_text plainReading _ (by decide) (by decide) (fun _ member => absurd member (not_mem_none _)) openBound.comma,
      msWCSParseSubset20_interval (by decide)]
    rfl
  have refused : intervalResult plainReading (ascii "time") none .unbounded newYear.value = .error (.timesReversed (ascii "time")) := by
    have check : intervalResult plainReading (ascii "time") none .unbounded newYear.value = checkOrder plainReading
      (openMinimum plainReading (subsetOf (ascii "time") none .MS_WCS20_TRIM .MS_WCS20_TIME_VALUE .unbounded (some newYear.value))) := rfl
    rw [check, checkOrder_time rfl]
    exact if_pos (by decide +kernel)
  refine ⟨(notEmpty_open zeroDouble 1577836800).2.2, interval.trans refused, ?_⟩
  rw [interval]
  exact not_takesSubset_openTime (.inr ⟨rfl, 1577836800, rfl⟩)

end MapServer
