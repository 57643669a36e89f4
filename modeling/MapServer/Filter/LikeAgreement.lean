import MapServer.Filter.LikeTranslations
import MapServer.Filter.SqlClosed

namespace MapServer
open Lib.Wildcards Lib.RegexSearch

def LikesCoincide (pszWild pszSingle pszEscape : UInt8) (pszValue condition value : CString) : Prop :=
  (lexedRegex (msGetLikePatternAsRegex pszWild pszSingle pszEscape pszValue)).bind (regexMatches · value) =
      some (filterMatches pszWild pszSingle pszEscape pszValue value) ∧
    sqlMatches condition value = some (filterMatches pszWild pszSingle pszEscape pszValue value)

/-- A chunk that SQL reads as the filter does. A plain `%` or `_` is a wildcard in SQL, a wildcard is none where its character
in SQL is the escape character, and the escape character before any other character is kept by the filter only. A single
backslash is no harm in front of an escaped wildcard, whose own backslash it escapes. -/
def LikeChunk.isFine (pszWild pszSingle pszEscape : UInt8) : LikeChunk → Bool
  | .alone (.plain c) => c != 37 && c != 95
  | .alone .single => pszEscape != 95
  | .alone .wild => pszEscape != 37
  | .alone (.escaped c) =>
    (c == pszSingle || c == pszWild || c == pszEscape) && !(pszEscape == 92 && c == 92)
  | .alone .dangling => false
  | .after (.escaped c) => (c == pszSingle || c == pszWild || c == pszEscape) && c != 92 && c != 37 && c != 95
  | .after _ => false

def likeIsClean (pszWild pszSingle pszEscape : UInt8) (pszValue : CString) : Bool :=
  pszValue != [] &&
    (likeChunks pszEscape (likeUnits pszWild pszSingle pszEscape pszValue)).all (LikeChunk.isFine pszWild pszSingle pszEscape)

section Chunks
variable {pszWild pszSingle pszEscape : UInt8}

theorem sqlItem_plain {c : UInt8} (notAny : c ≠ 37) (notOne : c ≠ 95) : sqlItem c = .letter c := by
  rw [sqlItem, if_neg notAny, if_neg notOne]

theorem sqlMeaning_fine {chunk : LikeChunk} (fine : chunk.isFine pszWild pszSingle pszEscape = true) :
    chunk.sqlMeaning pszEscape = some (chunk.meaning pszWild pszSingle pszEscape) := by
  match chunk, fine with
  | .alone (.plain c), fine =>
    simp only [LikeChunk.isFine, Bool.and_eq_true, bne_iff_ne] at fine
    rw [LikeChunk.sqlMeaning, sqlItem_plain fine.1 fine.2]
    rfl
  | .alone .single, _ => rfl
  | .alone .wild, _ => rfl
  | .alone (.escaped c), fine =>
    simp only [LikeChunk.isFine, Bool.and_eq_true, Bool.or_eq_true, beq_iff_eq, Bool.not_eq_true', Bool.and_eq_false_imp,
      beq_eq_false_iff_ne] at fine
    obtain ⟨three, noPair⟩ := fine
    rw [LikeChunk.sqlMeaning, if_neg fun pair => noPair pair.1 pair.2, LikeChunk.meaning, LikeUnit.meaning,
      if_pos (or_assoc.mp three)]
  | .after (.escaped c), fine =>
    simp only [LikeChunk.isFine, Bool.and_eq_true, Bool.or_eq_true, beq_iff_eq, bne_iff_ne] at fine
    obtain ⟨⟨⟨three, notBackslash⟩, notAny⟩, notOne⟩ := fine
    rw [LikeChunk.sqlMeaning, if_neg notBackslash, sqlItem_plain notAny notOne, LikeChunk.meaning, LikeUnit.meaning,
      if_pos (or_assoc.mp three)]

theorem readChunks_fine {chunks : List LikeChunk}
    (fine : ∀ chunk ∈ chunks, chunk.isFine pszWild pszSingle pszEscape = true) :
    readChunks pszEscape chunks = some (chunks.flatMap (LikeChunk.meaning pszWild pszSingle pszEscape)) := by
  induction chunks with
  | nil => rfl
  | cons chunk chunks ih =>
    rw [List.forall_mem_cons] at fine
    rw [readChunks, sqlMeaning_fine fine.1, ih fine.2]
    rfl

theorem readChunks_pieces {chunks : List LikeChunk} {items : List (Item UInt8)} (isRead : readChunks pszEscape chunks = some items) :
    items = chunks.flatMap (fun chunk => (chunk.sqlMeaning pszEscape).getD []) ∧
      ∀ chunk ∈ chunks, ∃ piece, chunk.sqlMeaning pszEscape = some piece := by
  induction chunks generalizing items with
  | nil =>
    cases isRead
    exact ⟨rfl, by simp⟩
  | cons chunk chunks ih =>
    obtain ⟨piece, isPiece, others⟩ := Option.bind_eq_some_iff.mp isRead
    obtain ⟨rest, isRest, rfl⟩ := Option.map_eq_some_iff.mp others
    obtain ⟨same, accepted⟩ := ih isRest
    refine ⟨by rw [List.flatMap_cons, isPiece, Option.getD_some, ← same], ?_⟩
    rw [List.forall_mem_cons]
    exact ⟨⟨piece, isPiece⟩, accepted⟩

theorem length_core_sqlItem (c : UInt8) : (core [sqlItem c]).length ≤ 1 := by
  unfold sqlItem
  split
  · exact Nat.zero_le 1
  · split <;> exact Nat.le_refl 1

theorem length_core_sqlMeaning (chunk : LikeChunk) : (core ((chunk.sqlMeaning pszEscape).getD [])).length ≤
    (core (chunk.meaning pszWild pszSingle pszEscape)).length := by
  match chunk with
  | .alone (.plain c) => exact length_core_sqlItem c
  | .alone .single => exact Nat.le_refl _
  | .alone .wild => exact Nat.le_refl _
  | .alone (.escaped c) =>
    rw [LikeChunk.sqlMeaning, LikeChunk.meaning, LikeUnit.meaning]
    split
    · exact Nat.zero_le _
    · split
      · exact Nat.le_refl 1
      · exact Nat.le_succ 1
  | .alone .dangling => exact Nat.zero_le _
  | .after (.plain c) => exact Nat.le_succ 1
  | .after .single => exact Nat.le_succ 1
  | .after .wild => exact Nat.le_refl 1
  | .after (.escaped c) =>
    have two : 2 ≤ (core (LikeChunk.meaning pszWild pszSingle pszEscape (.after (.escaped c)))).length := by
      rw [LikeChunk.meaning, LikeUnit.meaning]
      split
      · exact Nat.le_refl 2
      · exact Nat.le_succ 2
    refine le_trans ?_ two
    rw [LikeChunk.sqlMeaning]
    split
    · exact Nat.le_succ 1
    · exact Nat.succ_le_succ (length_core_sqlItem c)
  | .after .dangling => exact Nat.le_succ 1

theorem core_sqlItem {c : UInt8} (same : core [Item.letter c] = core [sqlItem c]) : c ≠ 37 ∧ c ≠ 95 := by
  constructor <;> rintro rfl <;> cases same

theorem isFine_of_core {chunk : LikeChunk} {piece : List (Item UInt8)} (isPiece : chunk.sqlMeaning pszEscape = some piece)
    (unescaped : (chunk = .alone .wild → pszEscape ≠ 37) ∧ (chunk = .alone .single → pszEscape ≠ 95))
    (same : core (chunk.meaning pszWild pszSingle pszEscape) = core piece) :
    chunk.isFine pszWild pszSingle pszEscape = true := by
  match chunk with
  | .alone (.plain c) =>
    cases isPiece
    have others := core_sqlItem same
    simp [LikeChunk.isFine, others]
  | .alone .single => simpa [LikeChunk.isFine] using unescaped.2 rfl
  | .alone .wild => simpa [LikeChunk.isFine] using unescaped.1 rfl
  | .alone (.escaped c) =>
    rw [LikeChunk.sqlMeaning] at isPiece
    split at isPiece
    · cases isPiece
    · rename_i noPair
      cases isPiece
      rw [LikeChunk.meaning, LikeUnit.meaning] at same
      split at same
      · rename_i three
        simpa [LikeChunk.isFine, or_assoc, three, ← not_and_or] using noPair
      · cases same
  | .alone .dangling => cases isPiece
  | .after (.plain c) =>
    cases isPiece
    cases same
  | .after .single =>
    cases isPiece
    cases same
  | .after .wild =>
    cases isPiece
    cases same
  | .after (.escaped c) =>
    rw [LikeChunk.meaning, LikeUnit.meaning] at same
    rw [LikeChunk.sqlMeaning] at isPiece
    split at isPiece
    · cases isPiece
      split at same <;> cases same
    · rename_i notBackslash
      cases isPiece
      have short := length_core_sqlItem c
      change _ = .letter 92 :: core [sqlItem c] at same
      split at same
      · rename_i three
        have others := core_sqlItem (List.tail_eq_of_cons_eq same)
        simp [LikeChunk.isFine, or_assoc, three, notBackslash, others]
      · rw [← List.tail_eq_of_cons_eq same] at short
        exact absurd short (Nat.not_succ_le_self 1)
  | .after .dangling =>
    cases isPiece
    cases same

theorem zero_likeText {pszValue : CString} (terminated : 0 ∉ pszValue) (escaped : Bool) :
    0 ∉ likeText pszWild pszSingle pszEscape escaped pszValue := by
  induction pszValue generalizing escaped with
  | nil => exact List.not_mem_nil
  | cons c rest ih =>
    rw [List.mem_cons, not_or] at terminated
    obtain ⟨notZero, terminated⟩ := terminated
    have others := ih terminated
    rw [likeText]
    split
    · simp [notZero, others false]
    · split
      · split <;> simp [notZero, others false]
      · split
        · simp [others false]
        · split
          · rename_i isEscape
            simp [isEscape ▸ notZero, others true]
          · simp [others false]

theorem unescapedWildcards_of_fine {units : List LikeUnit}
    (fine : ∀ chunk ∈ likeChunks pszEscape units, chunk.isFine pszWild pszSingle pszEscape = true) :
    UnescapedWildcards pszEscape units := by
  constructor
  · rintro member rfl
    rw [likeChunks_eq_map (by decide)] at fine
    exact absurd (fine _ (List.mem_map_of_mem member)) (by simp [LikeChunk.isFine])
  · rintro member rfl
    rw [likeChunks_eq_map (by decide)] at fine
    exact absurd (fine _ (List.mem_map_of_mem member)) (by simp [LikeChunk.isFine])

theorem unescapedWildcards_of_agree {units : List LikeUnit} {text : CString} {items : List (Item UInt8)}
    (letters : LettersIn (· ≠ 0) (units.flatMap (LikeUnit.meaning pszWild pszSingle pszEscape)))
    (itemLetters : LettersIn (· ≠ 0) items) (isRead : sqlItems pszEscape text = some items)
    (agree : Agree (· ≠ 0) (units.flatMap (LikeUnit.meaning pszWild pszSingle pszEscape)) items) :
    UnescapedWildcards pszEscape units := by
  have free (z : UInt8) (which : z = 1 ∨ z = 2) : z ≠ 0 := by rcases which with rfl | rfl <;> decide
  constructor
  · intro member
    have hasAny : .any ∈ units.flatMap (LikeUnit.meaning pszWild pszSingle pszEscape) :=
      List.mem_flatMap.mpr ⟨.wild, member, List.mem_singleton.mpr rfl⟩
    exact any_mem_sqlItems isRead (agree.any_mem (free 1 (Or.inl rfl)) letters hasAny)
  · intro member
    have hasOne : .one ∈ core (units.flatMap (LikeUnit.meaning pszWild pszSingle pszEscape)) :=
      List.mem_filter.mpr ⟨List.mem_flatMap.mpr ⟨.single, member, List.mem_singleton.mpr rfl⟩, rfl⟩
    rw [agree.core_eq (by decide) free letters itemLetters] at hasOne
    exact one_mem_sqlItems isRead (List.mem_filter.mp hasOne).1

theorem sqlItems_agree_iff (wildEscape : pszWild ≠ pszEscape) (singleEscape : pszSingle ≠ pszEscape) {pszValue : CString}
    (terminated : 0 ∉ pszValue) :
    (∀ value, 0 ∉ value →
        (sqlItems pszEscape (undoubled (likeText pszWild pszSingle pszEscape false pszValue))).map (matchItems · value) =
          some (filterMatches pszWild pszSingle pszEscape pszValue value)) ↔
      ∀ chunk ∈ likeChunks pszEscape (likeUnits pszWild pszSingle pszEscape pszValue),
        chunk.isFine pszWild pszSingle pszEscape = true := by
  have unitsOf : UnitsOf pszEscape (likeUnits pszWild pszSingle pszEscape pszValue) := likeUnits_unitsOf pszValue
  have letters : LettersIn (· ≠ 0) (filterItems pszWild pszSingle pszEscape pszValue) := by
    rintro c member rfl
    exact terminated (letter_mem_filterItems member)
  constructor
  · intro coincide
    obtain ⟨items, isRead, _⟩ := Option.map_eq_some_iff.mp (coincide [] List.not_mem_nil)
    have itemLetters : LettersIn (· ≠ 0) items := by
      rintro c member rfl
      exact zero_likeText terminated false (mem_undoubled (letter_mem_sqlItems isRead member))
    have agree : Agree (· ≠ 0) (filterItems pszWild pszSingle pszEscape pszValue) items := by
      intro value inside
      have same := coincide value fun zero => inside 0 zero rfl
      rw [isRead, Option.map_some] at same
      exact (Option.some.inj same).symm
    rw [filterItems_units wildEscape singleEscape] at letters agree
    have unescaped := unescapedWildcards_of_agree letters itemLetters isRead agree
    rw [likeText_units, undoubled_units unitsOf, sqlItems_units unitsOf unescaped] at isRead
    obtain ⟨rfl, accepted⟩ := readChunks_pieces isRead
    rw [← meaning_chunks] at letters agree
    have cores := agree.pieces (show (1 : UInt8) ≠ 2 by decide)
      (by rintro z (rfl | rfl) <;> decide) letters itemLetters fun chunk _ => length_core_sqlMeaning chunk
    intro chunk member
    obtain ⟨piece, isPiece⟩ := accepted chunk member
    have same := cores chunk member
    rw [isPiece, Option.getD_some] at same
    apply isFine_of_core isPiece _ same
    constructor
    · rintro rfl
      exact unescaped.1 (mem_of_alone member)
    · rintro rfl
      exact unescaped.2 (mem_of_alone member)
  · intro fine value _
    rw [likeText_units, undoubled_units unitsOf, sqlItems_units unitsOf (unescapedWildcards_of_fine fine), readChunks_fine fine,
      meaning_chunks, ← filterItems_units wildEscape singleEscape]
    rfl

end Chunks

theorem lexedRegex_matches {pszWild pszSingle pszEscape : UInt8} (wildSingle : pszWild ≠ pszSingle)
    (wildEscape : pszWild ≠ pszEscape) (singleEscape : pszSingle ≠ pszEscape) (pszValue : CString) :
    (∀ value, 0 ∉ value → (lexedRegex (msGetLikePatternAsRegex pszWild pszSingle pszEscape pszValue)).bind (regexMatches · value) =
        some (filterMatches pszWild pszSingle pszEscape pszValue value)) ↔ pszValue ≠ [] := by
  rw [lexedRegex_like]
  constructor
  · rintro matches_ rfl
    have found := matches_ [1] (by decide)
    rw [Option.bind_some, likeRegex_nil] at found
    cases found
  · intro filled value _
    exact likeRegex_matches wildSingle wildEscape singleEscape filled value

section Layer
variable {α : Type} {lp : SqlLayer α} {pszWild pszSingle pszEscape : UInt8} {wilds singles escapes : CString}
  {bCaseInsensitive : Bool} {propertyName pszValue condition : CString}

theorem sqlMatches_condition (clause : lp.connectiontype ≠ .MS_OGR)
    (expression : FLTGetIsLikeComparisonSQLExpression lp
      (.like ⟨pszWild :: wilds, pszSingle :: singles, pszEscape :: escapes, bCaseInsensitive⟩) propertyName pszValue = some condition)
    (fits : (msDefaultEscapePropertyName propertyName).length + (likeOperator lp bCaseInsensitive).length +
      (likePattern pszWild pszSingle pszEscape false pszValue).length + (likeEscape lp pszEscape).flatten.length + 4 ≤ 1023)
    (value : CString) : sqlMatches condition value =
      (sqlItems pszEscape (undoubled (likeText pszWild pszSingle pszEscape false pszValue))).map (matchItems · value) := by
  have closed := (like_closed_iff rfl rfl rfl expression).mpr fits
  rw [likeLiterals, if_pos clause] at closed
  rw [sqlMatches_of_closed closed, literalsMatch]
  by_cases isBackslash : pszEscape = 92
  · subst isBackslash
    rfl
  · rw [if_neg isBackslash]
    rfl

/-- The two translations of a pattern agree with the filter on every value exactly when the pattern is not empty and SQL
reads each of its chunks as the filter does. -/
theorem likes_coincide_iff (wildSingle : pszWild ≠ pszSingle) (wildEscape : pszWild ≠ pszEscape)
    (singleEscape : pszSingle ≠ pszEscape) (clause : lp.connectiontype ≠ .MS_OGR) (terminated : 0 ∉ pszValue)
    (expression : FLTGetIsLikeComparisonSQLExpression lp
      (.like ⟨pszWild :: wilds, pszSingle :: singles, pszEscape :: escapes, bCaseInsensitive⟩) propertyName pszValue = some condition)
    (fits : (msDefaultEscapePropertyName propertyName).length + (likeOperator lp bCaseInsensitive).length +
      (likePattern pszWild pszSingle pszEscape false pszValue).length + (likeEscape lp pszEscape).flatten.length + 4 ≤ 1023) :
    (∀ value, 0 ∉ value → LikesCoincide pszWild pszSingle pszEscape pszValue condition value) ↔
      likeIsClean pszWild pszSingle pszEscape pszValue = true := by
  unfold LikesCoincide
  simp only [sqlMatches_condition clause expression fits, forall_and]
  rw [lexedRegex_matches wildSingle wildEscape singleEscape, sqlItems_agree_iff wildEscape singleEscape terminated, likeIsClean,
    Bool.and_eq_true, bne_iff_ne, List.all_eq_true]

end Layer

theorem likes_coincide_short : ∃ condition, FLTGetIsLikeComparisonSQLExpression plainSqlLayer
      (.like ⟨ascii "*", ascii "?", ascii "!", false⟩) (ascii "name") (ascii "a!*\\b*") = some condition ∧
    ∀ value, 0 ∉ value → LikesCoincide 42 63 33 (ascii "a!*\\b*") condition value :=
  ⟨_, rfl, (likes_coincide_iff (by decide) (by decide) (by decide) (by decide) (by decide) rfl (by decide)).mpr (by decide)⟩

theorem likes_differ_percent : FLTGetIsLikeComparisonSQLExpression plainSqlLayer
      (.like ⟨ascii "*", ascii "?", ascii "!", false⟩) (ascii "name") (ascii "50%") =
        some (ascii " (\"name\" like '50%' escape '!') ") ∧
    filterMatches 42 63 33 (ascii "50%") (ascii "50x") = false ∧
    ¬LikesCoincide 42 63 33 (ascii "50%") (ascii " (\"name\" like '50%' escape '!') ") (ascii "50x") := by
  have inFilter : filterMatches 42 63 33 (ascii "50%") (ascii "50x") = false := by decide
  have inSql : sqlMatches (ascii " (\"name\" like '50%' escape '!') ") (ascii "50x") = some true := by decide
  refine ⟨by decide, inFilter, ?_⟩
  rintro ⟨_, same⟩
  rw [inFilter, inSql] at same
  cases same

end MapServer
