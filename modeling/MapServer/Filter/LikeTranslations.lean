import MapServer.Filter.LikeMeanings

namespace MapServer
open Lib.Wildcards Lib.RegexSearch List

inductive LikeUnit where
  | plain (c : UInt8)
  | single
  | wild
  | escaped (c : UInt8)
  | dangling
  deriving DecidableEq

def likeUnits (pszWild pszSingle pszEscape : UInt8) : CString → List LikeUnit
  | [] => []
  | [c] =>
    if c = pszSingle then [.single] else if c = pszEscape then [.dangling] else if c = pszWild then [.wild] else [.plain c]
  | c :: next :: rest =>
    if c = pszSingle then .single :: likeUnits pszWild pszSingle pszEscape (next :: rest)
    else if c = pszEscape then .escaped next :: likeUnits pszWild pszSingle pszEscape rest
    else if c = pszWild then .wild :: likeUnits pszWild pszSingle pszEscape (next :: rest)
    else .plain c :: likeUnits pszWild pszSingle pszEscape (next :: rest)

def LikeUnit.meaning (pszWild pszSingle pszEscape : UInt8) : LikeUnit → List (Item UInt8)
  | .plain c => [.letter c]
  | .single => [.one]
  | .wild => [.any]
  | .escaped c =>
    if c = pszSingle ∨ c = pszWild ∨ c = pszEscape then [.letter c] else [.letter pszEscape, .letter c]
  | .dangling => [.letter pszEscape]

def LikeUnit.written (pszEscape : UInt8) : LikeUnit → CString
  | .plain c => if c = 92 then [92, 92] else [c]
  | .single => [95]
  | .wild => [37]
  | .escaped c => [pszEscape, c]
  | .dangling => [pszEscape]

def LikeUnit.unquoted (pszEscape : UInt8) : LikeUnit → CString
  | .plain c => [c]
  | .single => [95]
  | .wild => [37]
  | .escaped c => if pszEscape = 92 ∧ c = 92 then [92] else [pszEscape, c]
  | .dangling => [pszEscape]

def UnitsOf (pszEscape : UInt8) : List LikeUnit → Prop
  | [] => True
  | unit :: rest => unit ≠ .plain pszEscape ∧ (unit = .dangling → rest = []) ∧ UnitsOf pszEscape rest

section Units
variable {pszWild pszSingle pszEscape : UInt8}

theorem likeUnits_unitsOf (pszValue : CString) : UnitsOf pszEscape (likeUnits pszWild pszSingle pszEscape pszValue) := by
  induction pszValue using likeUnits.induct pszWild pszSingle pszEscape with
  | case1 => trivial
  | case2 => simp [likeUnits, UnitsOf]
  | case3 notSingle => simp [likeUnits, UnitsOf, notSingle]
  | case4 notSingle notEscape => simp [likeUnits, UnitsOf, notSingle, notEscape]
  | case5 c notSingle notEscape notWild => simp [likeUnits, UnitsOf, notSingle, notEscape, notWild]
  | case6 next rest ih => simp [likeUnits, UnitsOf, ih]
  | case7 next rest notSingle ih => simp [likeUnits, UnitsOf, notSingle, ih]
  | case8 next rest notSingle notEscape ih => simp [likeUnits, UnitsOf, notSingle, notEscape, ih]
  | case9 c next rest notSingle notEscape notWild ih => simp [likeUnits, UnitsOf, notSingle, notEscape, notWild, ih]

theorem likeText_units (pszValue : CString) : likeText pszWild pszSingle pszEscape false pszValue =
    (likeUnits pszWild pszSingle pszEscape pszValue).flatMap (LikeUnit.written pszEscape) := by
  induction pszValue using likeUnits.induct pszWild pszSingle pszEscape with
  | case1 => rfl
  | case2 => simp [likeUnits, likeText, LikeUnit.written]
  | case3 notSingle => simp [likeUnits, likeText, LikeUnit.written, notSingle]
  | case4 notSingle notEscape => simp [likeUnits, likeText, LikeUnit.written, notSingle, notEscape]
  | case5 c notSingle notEscape notWild => simp [likeUnits, likeText, LikeUnit.written, notSingle, notEscape, notWild]
  | case6 next rest ih =>
    rw [likeText]
    simp [likeUnits, LikeUnit.written, ih]
  | case7 next rest notSingle ih =>
    have followed : likeText pszWild pszSingle pszEscape true (next :: rest) =
        next :: likeText pszWild pszSingle pszEscape false rest := rfl
    rw [likeText, followed]
    simp [likeUnits, LikeUnit.written, notSingle, ih]
  | case8 next rest notSingle notEscape ih =>
    rw [likeText]
    simp [likeUnits, LikeUnit.written, notSingle, notEscape, ih]
  | case9 c next rest notSingle notEscape notWild ih =>
    rw [likeText]
    simp [likeUnits, LikeUnit.written, notSingle, notEscape, notWild, ih]

theorem filterItems_units (wildEscape : pszWild ≠ pszEscape) (singleEscape : pszSingle ≠ pszEscape)
    (pszValue : CString) : filterItems pszWild pszSingle pszEscape pszValue =
      (likeUnits pszWild pszSingle pszEscape pszValue).flatMap (LikeUnit.meaning pszWild pszSingle pszEscape) := by
  induction pszValue using likeUnits.induct pszWild pszSingle pszEscape with
  | case1 => rfl
  | case2 => simp [likeUnits, filterItems, wildItem, LikeUnit.meaning]
  | case3 notSingle => simp [likeUnits, filterItems, wildItem, LikeUnit.meaning, notSingle, wildEscape.symm]
  | case4 notSingle notEscape => simp [likeUnits, filterItems, wildItem, LikeUnit.meaning, notSingle, notEscape]
  | case5 c notSingle notEscape notWild =>
    simp [likeUnits, filterItems, wildItem, LikeUnit.meaning, notSingle, notEscape, notWild]
  | case6 next rest ih =>
    rw [filterItems_plain (by simp [singleEscape])]
    simp [likeUnits, wildItem, LikeUnit.meaning, ih]
  | case7 next rest notSingle ih =>
    simp only [likeUnits, if_neg notSingle, if_true, flatMap_cons, LikeUnit.meaning]
    by_cases three : next = pszSingle ∨ next = pszWild ∨ next = pszEscape
    · rw [filterItems, if_pos ⟨rfl, three⟩, if_pos three, ih]
      rfl
    · -- the next character is not the escape character, and stands for itself
      rw [not_or, not_or] at three
      rw [filterItems, if_neg (by simp [three]), filterItems_plain (by simp [three]), if_neg (by simp [three]), ih]
      simp [wildItem, notSingle, wildEscape.symm, three]
  | case8 next rest notSingle notEscape ih =>
    rw [filterItems_plain (by simp [notEscape])]
    simp [likeUnits, wildItem, LikeUnit.meaning, notSingle, notEscape, ih]
  | case9 c next rest notSingle notEscape notWild ih =>
    rw [filterItems_plain (by simp [notEscape])]
    simp [likeUnits, wildItem, LikeUnit.meaning, notSingle, notEscape, notWild, ih]

theorem undoubled_single {text : CString} (other : text.head? ≠ some 92) : undoubled (92 :: text) = 92 :: undoubled text := by
  cases text with
  | nil => rfl
  | cons c text =>
    rw [undoubled, if_neg]
    rintro ⟨_, rfl⟩
    exact other rfl

theorem undoubled_backslash (notBackslash : pszEscape ≠ 92) (units : List LikeUnit) :
    undoubled (92 :: units.flatMap (LikeUnit.written pszEscape)) = 92 :: undoubled (units.flatMap (LikeUnit.written pszEscape)) := by
  induction units with
  | nil => rfl
  | cons unit units ih =>
    by_cases isBackslash : unit = .plain 92
    · subst unit
      change undoubled (92 :: 92 :: 92 :: units.flatMap (LikeUnit.written pszEscape)) =
        92 :: undoubled (92 :: 92 :: units.flatMap (LikeUnit.written pszEscape))
      rw [undoubled_pair, undoubled_pair, ih]
    · apply undoubled_single
      cases unit with
      | plain c =>
        have other : c ≠ 92 := fun same => isBackslash (congrArg LikeUnit.plain same)
        simp [LikeUnit.written, other]
      | single => simp [LikeUnit.written]
      | wild => simp [LikeUnit.written]
      | escaped c => simp [LikeUnit.written, notBackslash]
      | dangling => simp [LikeUnit.written, notBackslash]

theorem undoubled_units {units : List LikeUnit} (unitsOf : UnitsOf pszEscape units) :
    undoubled (units.flatMap (LikeUnit.written pszEscape)) = units.flatMap (LikeUnit.unquoted pszEscape) := by
  induction units with
  | nil => rfl
  | cons unit units ih =>
    obtain ⟨notEscape, last, rest⟩ := unitsOf
    rw [flatMap_cons, flatMap_cons, ← ih rest]
    cases unit with
    | plain c =>
      by_cases isBackslash : c = 92
      · subst c
        exact undoubled_pair _
      · simp only [LikeUnit.written, if_neg isBackslash]
        exact undoubled_other isBackslash _
    | single => exact undoubled_other (by decide) _
    | wild => exact undoubled_other (by decide) _
    | escaped c =>
      change undoubled (pszEscape :: c :: units.flatMap (LikeUnit.written pszEscape)) = _
      rw [LikeUnit.unquoted]
      by_cases escapeBackslash : pszEscape = 92
      · subst escapeBackslash
        by_cases isBackslash : c = 92
        · subst c
          exact undoubled_pair _
        · rw [undoubled_single (by simp [isBackslash]), undoubled_other isBackslash, if_neg fun both => isBackslash both.2]
          rfl
      · rw [undoubled_other escapeBackslash, if_neg fun both => escapeBackslash both.1]
        by_cases isBackslash : c = 92
        · subst c
          rw [undoubled_backslash escapeBackslash]
          rfl
        · rw [undoubled_other isBackslash]
          rfl
    | dangling =>
      rw [last rfl]
      rfl

end Units

/-- A unit, or one that a single backslash is in front of: what is left of an escaped one. -/
inductive LikeChunk where
  | alone (unit : LikeUnit)
  | after (unit : LikeUnit)
  deriving DecidableEq

def likeChunks (pszEscape : UInt8) : List LikeUnit → List LikeChunk
  | [] => []
  | [unit] => [.alone unit]
  | unit :: next :: rest =>
    if pszEscape = 92 ∧ unit = .escaped 92 then .after next :: likeChunks pszEscape rest
    else .alone unit :: likeChunks pszEscape (next :: rest)

def LikeChunk.meaning (pszWild pszSingle pszEscape : UInt8) : LikeChunk → List (Item UInt8)
  | .alone unit => unit.meaning pszWild pszSingle pszEscape
  | .after unit => .letter 92 :: unit.meaning pszWild pszSingle pszEscape

def LikeChunk.sqlMeaning (pszEscape : UInt8) : LikeChunk → Option (List (Item UInt8))
  | .alone (.plain c) => some [sqlItem c]
  | .alone .single => some [.one]
  | .alone .wild => some [.any]
  | .alone (.escaped c) => if pszEscape = 92 ∧ c = 92 then none else some [.letter c]
  | .alone .dangling => none
  | .after (.plain c) => some [.letter c]
  | .after .single => some [.letter 95]
  | .after .wild => some [.letter 37]
  | .after (.escaped c) => if c = 92 then some [.letter 92] else some [.letter 92, sqlItem c]
  | .after .dangling => some [.letter 92]

def readChunks (pszEscape : UInt8) : List LikeChunk → Option (List (Item UInt8))
  | [] => some []
  | chunk :: rest => (chunk.sqlMeaning pszEscape).bind fun items => (readChunks pszEscape rest).map (items ++ ·)

def UnescapedWildcards (pszEscape : UInt8) (units : List LikeUnit) : Prop :=
  (.wild ∈ units → pszEscape ≠ 37) ∧ (.single ∈ units → pszEscape ≠ 95)

section Chunks
variable {pszWild pszSingle pszEscape : UInt8}
variable {unit : LikeUnit} {units : List LikeUnit}

theorem UnescapedWildcards.tail (unescaped : UnescapedWildcards pszEscape (unit :: units)) :
    UnescapedWildcards pszEscape units :=
  ⟨fun member => unescaped.1 (mem_cons_of_mem _ member), fun member => unescaped.2 (mem_cons_of_mem _ member)⟩

theorem likeChunks_eq_map (notBackslash : pszEscape ≠ 92) (units : List LikeUnit) :
    likeChunks pszEscape units = units.map .alone := by
  induction units using likeChunks.induct pszEscape with
  | case1 => rfl
  | case2 unit => rfl
  | case3 unit next rest escape => exact absurd escape.1 notBackslash
  | case4 unit next rest other ih =>
    rw [likeChunks, if_neg other, ih]
    rfl

theorem mem_of_alone (member : .alone unit ∈ likeChunks pszEscape units) : unit ∈ units := by
  induction units using likeChunks.induct pszEscape with
  | case1 => cases member
  | case2 only => simpa [likeChunks] using member
  | case3 first next rest escape ih =>
    rw [likeChunks, if_pos escape, mem_cons] at member
    rcases member with other | member
    · cases other
    · exact mem_cons_of_mem _ (mem_cons_of_mem _ (ih member))
  | case4 first next rest other ih =>
    rw [likeChunks, if_neg other, mem_cons] at member
    rcases member with same | member
    · cases same
      exact mem_cons_self
    · exact mem_cons_of_mem _ (ih member)

theorem meaning_chunks (units : List LikeUnit) :
    (likeChunks pszEscape units).flatMap (LikeChunk.meaning pszWild pszSingle pszEscape) =
      units.flatMap (LikeUnit.meaning pszWild pszSingle pszEscape) := by
  induction units using likeChunks.induct pszEscape with
  | case1 => rfl
  | case2 unit => rfl
  | case3 unit next rest escape ih =>
    obtain ⟨rfl, rfl⟩ := escape
    rw [likeChunks, if_pos ⟨rfl, rfl⟩, flatMap_cons, ih, flatMap_cons, flatMap_cons]
    simp [LikeChunk.meaning, LikeUnit.meaning]
  | case4 unit next rest other ih =>
    rw [likeChunks, if_neg other, flatMap_cons, ih]
    rfl

theorem sqlItems_alone (notEscape : unit ≠ .plain pszEscape) {rest : CString}
    (unescaped : (unit = .wild → pszEscape ≠ 37) ∧ (unit = .single → pszEscape ≠ 95))
    (whole : unit = .dangling ∨ (pszEscape = 92 ∧ unit = .escaped 92) → rest = []) :
    sqlItems pszEscape (unit.unquoted pszEscape ++ rest) =
      ((LikeChunk.alone unit).sqlMeaning pszEscape).bind fun items => (sqlItems pszEscape rest).map (items ++ ·) := by
  cases unit with
  | plain c => exact sqlItems_other (fun same => notEscape (congrArg LikeUnit.plain same)) rest
  | single => exact sqlItems_other (fun same => unescaped.2 rfl same.symm) rest
  | wild => exact sqlItems_other (fun same => unescaped.1 rfl same.symm) rest
  | escaped c =>
    rw [LikeUnit.unquoted, LikeChunk.sqlMeaning]
    by_cases pair : pszEscape = 92 ∧ c = 92
    · obtain ⟨rfl, rfl⟩ := pair
      rw [whole (Or.inr ⟨rfl, rfl⟩)]
      rfl
    · rw [if_neg pair, if_neg pair]
      exact sqlItems_escape c rest
  | dangling =>
    rw [whole (Or.inl rfl)]
    simp [LikeUnit.unquoted, sqlItems, LikeChunk.sqlMeaning]

theorem sqlItems_after (notEscape : unit ≠ .plain 92) {rest : CString} (last : unit = .dangling → rest = []) :
    sqlItems 92 (92 :: (unit.unquoted 92 ++ rest)) =
      ((LikeChunk.after unit).sqlMeaning 92).bind fun items => (sqlItems 92 rest).map (items ++ ·) := by
  cases unit with
  | plain c => exact sqlItems_escape c rest
  | single => exact sqlItems_escape 95 rest
  | wild => exact sqlItems_escape 37 rest
  | escaped c =>
    rw [LikeUnit.unquoted, LikeChunk.sqlMeaning]
    by_cases isBackslash : c = 92
    · rw [if_pos ⟨rfl, isBackslash⟩, if_pos isBackslash]
      exact sqlItems_escape 92 rest
    · rw [if_neg fun both => isBackslash both.2, if_neg isBackslash]
      change sqlItems 92 (92 :: 92 :: c :: rest) = _
      rw [sqlItems_escape, sqlItems_other isBackslash, Option.map_map]
      rfl
  | dangling =>
    rw [last rfl]
    rfl

theorem sqlItems_units (unitsOf : UnitsOf pszEscape units) (unescaped : UnescapedWildcards pszEscape units) :
    sqlItems pszEscape (units.flatMap (LikeUnit.unquoted pszEscape)) = readChunks pszEscape (likeChunks pszEscape units) := by
  induction units using likeChunks.induct pszEscape with
  | case1 => rfl
  | case2 unit =>
    have read := @sqlItems_alone pszEscape unit unitsOf.1 [] ⟨by rintro rfl; exact unescaped.1 mem_cons_self,
      by rintro rfl; exact unescaped.2 mem_cons_self⟩ fun _ => rfl
    rw [flatMap_cons, flatMap_nil, read]
    rfl
  | case3 unit next rest escape ih =>
    obtain ⟨rfl, rfl⟩ := escape
    obtain ⟨_, _, notEscape, last, others⟩ := unitsOf
    have nothing : next = .dangling → rest.flatMap (LikeUnit.unquoted 92) = [] := by
      intro isLast
      rw [last isLast]
      rfl
    rw [likeChunks, if_pos ⟨rfl, rfl⟩, readChunks, ← ih others unescaped.tail.tail, ← sqlItems_after notEscape nothing]
    rfl
  | case4 unit next rest other ih =>
    obtain ⟨notEscape, last, units⟩ := unitsOf
    rw [likeChunks, if_neg other, readChunks, ← ih units unescaped.tail, ← sqlItems_alone notEscape, flatMap_cons]
    · exact ⟨by rintro rfl; exact unescaped.1 mem_cons_self, by rintro rfl; exact unescaped.2 mem_cons_self⟩
    · rintro (isLast | both)
      · cases last isLast
      · exact absurd both other

end Chunks

end MapServer
