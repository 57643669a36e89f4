import MapServer.Label.LabelPath

namespace MapServer
open Lib.Loop List Option

attribute [local instance] two_atLeastTwo

section Offsets
variable {K : Type} [Field K] (glyphs : List (PathGlyph K)) (fail : Nat)

def advanceAt (i : Nat) : K := (glyphs[i]?.map PathGlyph.advance).getD 0

/-- The first `m` advances from the failing glyph towards the start. -/
def backSum (m : Nat) : K := ((List.range m).map fun i => advanceAt glyphs (fail - (i + 1))).sum

/-- The first `m` advances from the failing glyph on. -/
def aheadSum (m : Nat) : K := ((List.range m).map fun i => advanceAt glyphs (fail + i)).sum

/-- All offsets that may be tried after the glyph `fail` has failed, without their signs. -/
def retryOffsets : List K :=
  ((List.range fail).flatMap fun m =>
    [backSum glyphs fail m + advanceAt glyphs (fail - m - 1) / 2, backSum glyphs fail m + advanceAt glyphs 0]) ++
  (List.range (glyphs.length - fail)).flatMap fun m =>
    [aheadSum glyphs fail (m + 1) + advanceAt glyphs (fail + m + 1) / 2,
      aheadSum glyphs fail (m + 1) + advanceAt glyphs (glyphs.length - 1)]

variable {glyphs fail}

theorem backSum_succ (m : Nat) : backSum glyphs fail (m + 1) = backSum glyphs fail m + advanceAt glyphs (fail - (m + 1)) := by
  rw [backSum, range_succ, map_append, sum_append]
  simp [backSum]

theorem aheadSum_succ (m : Nat) : aheadSum glyphs fail (m + 1) = aheadSum glyphs fail m + advanceAt glyphs (fail + m) := by
  rw [aheadSum, range_succ, map_append, sum_append]
  simp [aheadSum]

theorem glyph_at {i : Nat} (inside : i < glyphs.length) : ∃ glyph, glyphs[i]? = some glyph ∧ glyph.advance = advanceAt glyphs i :=
  ⟨glyphs[i], getElem?_eq_getElem inside, by rw [advanceAt, getElem?_eq_getElem inside]; rfl⟩

theorem length_retryOffsets (inside : fail ≤ glyphs.length) : (retryOffsets glyphs fail).length = 2 * glyphs.length := by
  simp only [retryOffsets, length_append, length_flatMap, length_cons, length_nil, map_const', sum_replicate,
    length_range, smul_eq_mul]
  omega

theorem mem_retryOffsets_back {m : Nat} (inside : m < fail) :
    backSum glyphs fail m + advanceAt glyphs (fail - m - 1) / 2 ∈ retryOffsets glyphs fail ∧
      backSum glyphs fail m + advanceAt glyphs 0 ∈ retryOffsets glyphs fail := by
  have member : m ∈ List.range fail := mem_range.mpr inside
  constructor <;> exact mem_append_left _ (mem_flatMap.mpr ⟨m, member, by simp⟩)

theorem mem_retryOffsets_ahead {m : Nat} (inside : m < glyphs.length - fail) :
    aheadSum glyphs fail (m + 1) + advanceAt glyphs (fail + m + 1) / 2 ∈ retryOffsets glyphs fail ∧
      aheadSum glyphs fail (m + 1) + advanceAt glyphs (glyphs.length - 1) ∈ retryOffsets glyphs fail := by
  have member : m ∈ List.range (glyphs.length - fail) := mem_range.mpr inside
  constructor <;> exact mem_append_right _ (mem_flatMap.mpr ⟨m, member, by simp⟩)

end Offsets

section Searches
variable {K : Type} [Field K] [LinearOrder K] {glyphs : List (PathGlyph K)} {fail : Nat}

theorem searchBack_spec (inside : fail < glyphs.length) (retried max : K) {m : Nat} (bound : m < fail) :
    ∃ (offset : K) (found : Bool), searchBack glyphs fail retried max (m + 1) (backSum glyphs fail m) = some (offset, found) ∧
      if found then ∃ i < fail, retried < backSum glyphs fail i ∧ offset = backSum glyphs fail i + advanceAt glyphs (fail - i - 1) / 2
      else ∃ i < fail, offset = backSum glyphs fail i := by
  induction count : fail - m generalizing m with
  | zero => omega
  | succ count ih =>
    rw [searchBack]
    split
    case isFalse last => exact ⟨_, false, rfl, m, bound, rfl⟩
    case isTrue more =>
      obtain ⟨glyph, here, advance⟩ := @glyph_at _ _ glyphs (fail - (m + 1)) (by omega)
      obtain ⟨before, behind, half⟩ := @glyph_at _ _ glyphs (fail - (m + 1) - 1) (by omega)
      simp only [here, behind, bind_eq_bind, bind_some]
      rw [advance, ← backSum_succ]
      split
      · exact ⟨_, false, rfl, m + 1, by omega, rfl⟩
      split
      case isTrue space => exact ⟨_, true, rfl, m + 1, by omega, space.1, by rw [half]⟩
      split
      · exact ih (by omega) (by omega)
      · exact ⟨_, false, rfl, m + 1, by omega, rfl⟩

theorem searchAhead_spec (retried max : K) {m : Nat} (bound : fail + m < glyphs.length) :
    ∃ (offset : K) (found : Bool), searchAhead glyphs fail retried max (m + 1) (aheadSum glyphs fail (m + 1)) = some (offset, found) ∧
      if found then ∃ i < glyphs.length - fail, retried < aheadSum glyphs fail (i + 1) ∧
        offset = aheadSum glyphs fail (i + 1) + advanceAt glyphs (fail + i + 1) / 2
      else max ≤ offset ∨ ∃ i < glyphs.length - fail, offset = aheadSum glyphs fail (i + 1) := by
  induction count : glyphs.length - fail - m generalizing m with
  | zero => omega
  | succ count ih =>
    rw [searchAhead]
    split
    case isFalse last => exact ⟨_, false, rfl, Or.inr ⟨m, by omega, rfl⟩⟩
    case isTrue more =>
      obtain ⟨glyph, here, advance⟩ := @glyph_at _ _ glyphs (fail + (m + 1)) (by omega)
      simp only [here, bind_eq_bind, bind_some]
      rw [advance, ← aheadSum_succ]
      split
      case isTrue space =>
        by_cases less : aheadSum glyphs fail (m + 1) + advanceAt glyphs (fail + (m + 1)) / 2 < max
        · exact ⟨_, true, by rw [decide_eq_true less]; rfl, m, by omega, space.1, rfl⟩
        · exact ⟨_, false, by rw [decide_eq_false less], Or.inl (not_lt.mp less)⟩
      split
      · exact ih (by omega) (by omega)
      · exact ⟨_, false, rfl, Or.inr ⟨m + 1, by omega, rfl⟩⟩

theorem advanceAt_nonneg (nonneg : ∀ glyph ∈ glyphs, 0 ≤ glyph.advance) (i : Nat) : 0 ≤ advanceAt glyphs i := by
  unfold advanceAt
  cases found : glyphs[i]? with
  | none => exact le_refl 0
  | some glyph => exact nonneg glyph (mem_of_getElem? found)

variable [IsStrictOrderedRing K]

def Offered (glyphs : List (PathGlyph K)) (fail : Nat) (retried offset : K) : Prop :=
  |retried| < offset ∧ offset ∈ retryOffsets glyphs fail

theorem Offered.abs {retried offset : K} (offered : Offered glyphs fail retried offset) : |offset| = offset :=
  abs_of_pos (lt_of_le_of_lt (abs_nonneg retried) offered.1)

theorem offered_half {retried sum : K} (larger : |retried| < sum) {i : Nat} (advance : 0 ≤ advanceAt glyphs i)
    (member : sum + advanceAt glyphs i / 2 ∈ retryOffsets glyphs fail) :
    Offered glyphs fail retried (sum + advanceAt glyphs i / 2) :=
  ⟨lt_of_lt_of_le larger (le_add_of_nonneg_right (div_nonneg advance zero_le_two)), member⟩

theorem searchBack_offered (nonneg : ∀ glyph ∈ glyphs, 0 ≤ glyph.advance) (first : 1 ≤ fail) (inside : fail < glyphs.length)
    (retried max : K) {start : PathGlyph K} (startAdvance : start.advance = advanceAt glyphs 0) :
    ∃ (dec : K) (decFound : Bool) (offset : K) (found : Bool),
      searchBack glyphs fail |retried| max 1 0 = some (dec, decFound) ∧
      (if decFound then (dec, true)
        else (dec + start.advance, decide (dec + start.advance > |retried| ∧ dec + start.advance < max))) = (offset, found) ∧
      (found = true → Offered glyphs fail retried offset) := by
  obtain ⟨dec, decFound, back, spec⟩ := @searchBack_spec _ _ _ glyphs fail inside |retried| max 0 first
  cases decFound with
  | true =>
    obtain ⟨i, bound, larger, rfl⟩ := spec
    exact ⟨_, true, _, true, back, rfl, fun _ => offered_half larger (advanceAt_nonneg nonneg _) (mem_retryOffsets_back bound).1⟩
  | false =>
    obtain ⟨i, bound, rfl⟩ := spec
    refine ⟨_, false, _, _, back, rfl, fun found => ?_⟩
    rw [startAdvance] at found ⊢
    exact ⟨(of_decide_eq_true found).1, (mem_retryOffsets_back bound).2⟩

theorem searchAhead_offered (nonneg : ∀ glyph ∈ glyphs, 0 ≤ glyph.advance) (inside : fail < glyphs.length) (retried max : K)
    {failed last : PathGlyph K} (failAdvance : failed.advance = advanceAt glyphs fail)
    (lastAdvance : last.advance = advanceAt glyphs (glyphs.length - 1)) :
    ∃ (inc : K) (incFound : Bool) (offset : K) (found : Bool),
      searchAhead glyphs fail |retried| max 1 failed.advance = some (inc, incFound) ∧
      (if incFound then (inc, true)
        else (inc + last.advance, decide (inc + last.advance > |retried| ∧ inc + last.advance < max))) = (offset, found) ∧
      (found = true → Offered glyphs fail retried offset) := by
  obtain ⟨inc, incFound, ahead, spec⟩ := @searchAhead_spec _ _ _ glyphs fail |retried| max 0 inside
  have failing : aheadSum glyphs fail (0 + 1) = failed.advance := by
    rw [aheadSum_succ, failAdvance]
    simp [aheadSum]
  rw [failing] at ahead
  cases incFound with
  | true =>
    obtain ⟨i, bound, larger, rfl⟩ := spec
    exact ⟨_, true, _, true, ahead, rfl, fun _ => offered_half larger (advanceAt_nonneg nonneg _) (mem_retryOffsets_ahead bound).1⟩
  | false =>
    refine ⟨_, false, _, _, ahead, rfl, fun found => ?_⟩
    rw [lastAdvance] at found ⊢
    obtain ⟨larger, less⟩ := of_decide_eq_true found
    rcases spec with reached | ⟨i, bound, rfl⟩
    · exact absurd (lt_of_le_of_lt (reached.trans (le_add_of_nonneg_right (advanceAt_nonneg nonneg _))) less) (lt_irrefl _)
    · exact ⟨larger, (mem_retryOffsets_ahead bound).2⟩

theorem compute_retry_offset_spec (nonneg : ∀ glyph ∈ glyphs, 0 ≤ glyph.advance) (first : 1 ≤ fail) (inside : fail < glyphs.length)
    (retried max_dec max_inc : K) :
    ∃ offset, compute_retry_offset glyphs fail retried max_dec max_inc = some offset ∧
      (offset ≠ 0 → Offered glyphs fail retried |offset|) := by
  obtain ⟨start, atStart, startAdvance⟩ := @glyph_at _ _ glyphs 0 (by omega)
  obtain ⟨failed, atFail, failAdvance⟩ := glyph_at inside
  obtain ⟨last, atLast, lastAdvance⟩ := @glyph_at _ _ glyphs (glyphs.length - 1) (by omega)
  obtain ⟨dec, decFound, decOffset, decFlag, back, decEq, decOffered⟩ := searchBack_offered nonneg first inside retried max_dec startAdvance
  obtain ⟨inc, incFound, incOffset, incFlag, ahead, incEq, incOffered⟩ :=
    searchAhead_offered nonneg inside retried max_inc failAdvance lastAdvance
  simp only [compute_retry_offset, back, ahead, atStart, atFail, atLast, bind_eq_bind, bind_some, decEq, incEq]
  have decAbs : decFlag = true → Offered glyphs fail retried |decOffset| := fun found => by
    rw [(decOffered found).abs]
    exact decOffered found
  have incAbs : incFlag = true → Offered glyphs fail retried |-incOffset| := fun found => by
    rw [abs_neg, (incOffered found).abs]
    exact incOffered found
  cases incFlag with
  | false =>
    cases decFlag with
    | false => exact ⟨0, rfl, fun nonzero => absurd rfl nonzero⟩
    | true => exact ⟨decOffset, rfl, fun _ => decAbs rfl⟩
  | true =>
    cases decFlag with
    | false => exact ⟨-incOffset, rfl, fun _ => incAbs rfl⟩
    | true =>
      refine ⟨_, rfl, fun _ => ?_⟩
      split
      · exact incAbs rfl
      · exact decAbs rfl

end Searches

section Tries
variable {K : Type} [Field K] [LinearOrder K] [IsStrictOrderedRing K] {glyphs : List (PathGlyph K)} {start : PathStart K} {l : Nat}

def offsetsLeft (glyphs : List (PathGlyph K)) (fail : Nat) (retried : K) : Nat :=
  ((retryOffsets glyphs fail).filter (|retried| < ·)).length

omit [IsStrictOrderedRing K] in
theorem offsetsLeft_less {fail : Nat} {retried offset : K} (offered : Offered glyphs fail retried |offset|) :
    offsetsLeft glyphs fail offset < offsetsLeft glyphs fail retried := by
  obtain ⟨larger, member⟩ := offered
  have nested : (retryOffsets glyphs fail).filter (|offset| < ·) =
      ((retryOffsets glyphs fail).filter (|retried| < ·)).filter (|offset| < ·) := by
    rw [List.filter_filter]
    refine filter_congr fun other _ => ?_
    by_cases beyond : |offset| < other
    · simp [beyond, larger.trans beyond]
    · simp [beyond]
  rw [offsetsLeft, offsetsLeft, nested, length_filter_lt_length_iff_exists]
  exact ⟨|offset|, mem_filter.mpr ⟨member, decide_eq_true larger⟩, by simp⟩

def PathTry.Inside (glyphs : List (PathGlyph K)) (attempt : PathTry K) : Prop :=
  ∀ k, attempt.outcome = .error k → 2 ≤ k ∧ k ≤ glyphs.length

theorem afterTry_spec (nonneg : ∀ glyph ∈ glyphs, 0 ≤ glyph.advance) {attempt : PathTry K} (overlaps : attempt.Inside glyphs)
    {state : PathState K} (failed : state.retry_offset ≠ 0 → 1 ≤ state.first_retry_idx ∧ state.first_retry_idx < glyphs.length) :
    ∃ state', afterTry glyphs start l state attempt = some state' ∧ (state'.retry_offset ≠ 0 →
      (1 ≤ state'.first_retry_idx ∧ state'.first_retry_idx < glyphs.length) ∧
      (state.retry_offset ≠ 0 → state'.first_retry_idx = state.first_retry_idx) ∧
      Offered glyphs state'.first_retry_idx state.retry_offset |state'.retry_offset|) := by
  unfold afterTry
  cases outcome : attempt.outcome with
  | ok placed => exact ⟨_, rfl, fun nonzero => absurd rfl nonzero⟩
  | error k =>
    obtain ⟨two, last⟩ := overlaps k outcome
    have index : 1 ≤ (if state.retry_offset = 0 then k - 1 else state.first_retry_idx) ∧
        (if state.retry_offset = 0 then k - 1 else state.first_retry_idx) < glyphs.length := by
      split
      · omega
      · exact failed ‹_›
    obtain ⟨offset, run, offered⟩ := compute_retry_offset_spec nonneg index.1 index.2 state.retry_offset
      (retryLimits start l attempt.direction).1 (retryLimits start l attempt.direction).2
    dsimp only
    rw [run]
    refine ⟨_, rfl, fun nonzero => ⟨index, fun again => if_neg again, ?_⟩⟩
    split at nonzero
    case isTrue flipped =>
      rw [if_pos flipped, abs_neg]
      exact offered flipped.1
    case isFalse kept =>
      rw [if_neg kept]
      exact offered nonzero

inductive LabelTried (glyphs : List (PathGlyph K)) (start : PathStart K) (l : Nat) (attempt : PathState K → Option (PathTry K))
    (first : PathState K) : PathState K → Prop where
  | first : LabelTried glyphs start l attempt first first
  | again {state next : PathState K} {outcome : PathTry K} : LabelTried glyphs start l attempt first state →
      attempt state = some outcome → afterTry glyphs start l state outcome = some next → next.retry_offset ≠ 0 →
      LabelTried glyphs start l attempt first next

def TriesEnd (glyphs : List (PathGlyph K)) (start : PathStart K) (l : Nat) (attempt : PathState K → Option (PathTry K)) (tries : Nat)
    (first state : PathState K) : Prop :=
  (∃ state', labelTries glyphs start l attempt tries state = some state') ∨
    ∃ tried, LabelTried glyphs start l attempt first tried ∧ attempt tried = none

theorem triesEnd_step (nonneg : ∀ glyph ∈ glyphs, 0 ≤ glyph.advance) {attempt : PathState K → Option (PathTry K)}
    (overlaps : ∀ state outcome, attempt state = some outcome → outcome.Inside glyphs) {tries : Nat} {first state : PathState K}
    (tried : LabelTried glyphs start l attempt first state)
    (failed : state.retry_offset ≠ 0 → 1 ≤ state.first_retry_idx ∧ state.first_retry_idx < glyphs.length)
    (rest : ∀ next, LabelTried glyphs start l attempt first next → next.retry_offset ≠ 0 →
      1 ≤ next.first_retry_idx ∧ next.first_retry_idx < glyphs.length →
      (state.retry_offset ≠ 0 → next.first_retry_idx = state.first_retry_idx) →
      Offered glyphs next.first_retry_idx state.retry_offset |next.retry_offset| → TriesEnd glyphs start l attempt tries first next) :
    TriesEnd glyphs start l attempt (tries + 1) first state := by
  cases outcome : attempt state with
  | none => exact Or.inr ⟨state, tried, outcome⟩
  | some result =>
    obtain ⟨next, run, spec⟩ := @afterTry_spec _ _ _ _ glyphs start l nonneg _ (overlaps state result outcome) state failed
    unfold TriesEnd
    simp only [labelTries, outcome, bind_eq_bind, bind_some, run]
    split
    case isTrue done => exact Or.inl ⟨next, rfl⟩
    case isFalse again =>
      obtain ⟨index, same, offered⟩ := spec again
      exact rest next (tried.again outcome run again) again index same offered

theorem triesEnd_retried (nonneg : ∀ glyph ∈ glyphs, 0 ≤ glyph.advance) {attempt : PathState K → Option (PathTry K)}
    (overlaps : ∀ state outcome, attempt state = some outcome → outcome.Inside glyphs) (tries : Nat) {first state : PathState K}
    (tried : LabelTried glyphs start l attempt first state)
    (failed : 1 ≤ state.first_retry_idx ∧ state.first_retry_idx < glyphs.length) (retried : state.retry_offset ≠ 0)
    (enough : offsetsLeft glyphs state.first_retry_idx state.retry_offset < tries) :
    TriesEnd glyphs start l attempt tries first state := by
  induction tries generalizing state with
  | zero => omega
  | succ tries ih =>
    refine triesEnd_step nonneg overlaps tried (fun _ => failed) fun next nextTried again index same offered => ?_
    have less := offsetsLeft_less offered
    rw [same retried] at less
    exact ih nextTried index again (by rw [same retried]; omega)

theorem triesEnd (nonneg : ∀ glyph ∈ glyphs, 0 ≤ glyph.advance) {attempt : PathState K → Option (PathTry K)}
    (overlaps : ∀ state outcome, attempt state = some outcome → outcome.Inside glyphs) {state : PathState K}
    (fresh : state.retry_offset = 0) {tries : Nat} (enough : 2 * glyphs.length < tries) :
    TriesEnd glyphs start l attempt tries state state := by
  obtain ⟨tries, rfl⟩ : ∃ left, tries = left + 1 := ⟨tries - 1, by omega⟩
  refine triesEnd_step nonneg overlaps .first (fun tried => absurd fresh tried) fun next nextTried again index _ offered => ?_
  have less := offsetsLeft_less offered
  have all : offsetsLeft glyphs next.first_retry_idx state.retry_offset ≤ (retryOffsets glyphs next.first_retry_idx).length :=
    length_filter_le _ _
  rw [length_retryOffsets index.2.le] at all
  exact triesEnd_retried nonneg overlaps tries nextTried index again (by omega)

omit [IsStrictOrderedRing K] in
theorem rotateGlyphs_inside (angles : PathAngles K) (maxoverlapangle cy : K) (rest : List (PathGlyph K)) (points : List (K × K)) (k : Nat)
    (before : Option (Bool × K)) (first : 1 ≤ k) (behind : before ≠ none → 2 ≤ k) {overlap : Nat}
    (failed : rotateGlyphs angles maxoverlapangle cy k before rest points = .error overlap) :
    2 ≤ overlap ∧ overlap ≤ k + rest.length - 1 := by
  induction rest generalizing k before points with
  | nil => cases before <;> cases failed
  | cons glyph rest ih =>
    rcases points with _ | ⟨pnt, _ | ⟨next, points⟩⟩
    · cases before <;> cases failed
    · cases before <;> cases failed
    have later : ∀ placed previous, (do
        let rest ← rotateGlyphs angles maxoverlapangle cy (k + 1) (some previous) rest (next :: points)
        Except.ok (placed :: rest)) = .error overlap → 2 ≤ overlap ∧ overlap ≤ k + (glyph :: rest).length - 1 := by
      intro placed previous failed
      cases run : rotateGlyphs angles maxoverlapangle cy (k + 1) (some previous) rest (next :: points) with
      | ok others =>
        rw [run] at failed
        cases failed
      | error other =>
        rw [run] at failed
        cases failed
        have bounds := ih (next :: points) (k + 1) (some previous) (by omega) (fun _ => by omega) run
        rw [length_cons]
        omega
    rw [rotateGlyphs.eq_def] at failed
    cases before with
    | none => exact later _ _ failed
    | some previous =>
      dsimp only at failed
      split at failed
      · split at failed
        · have two : 2 ≤ k := behind (some_ne_none _)
          cases failed
          rw [length_cons]
          omega
        · exact later _ _ failed
      · exact later _ _ failed

omit [IsStrictOrderedRing K] in
theorem tryPath_inside {angles : PathAngles K} {maxoverlapangle : K} {p : LineObj K} {ll : LineLengths K} {textpath : PathText K}
    {state : PathState K} {attempt : PathTry K} (tried : tryPath angles maxoverlapangle p ll textpath state = some attempt) :
    attempt.Inside textpath.glyphs := by
  obtain ⟨walk, -, tried⟩ := bind_eq_some_iff.mp tried
  cases tried
  intro k failed
  have bounds := rotateGlyphs_inside angles _ _ textpath.glyphs walk.points 1 none (Nat.le_refl 1) (fun some_ => absurd rfl some_) failed
  omega

/-- The tries of a label end: each offset is a larger one of a finite list, for any outcomes of the tries and on every line. -/
theorem labelTries_finite (nonneg : ∀ glyph ∈ glyphs, 0 ≤ glyph.advance) :
    (∀ fail, 1 ≤ fail → fail < glyphs.length → ∀ retried max_dec max_inc : K, ∃ offset,
      compute_retry_offset glyphs fail retried max_dec max_inc = some offset ∧
        (offset ≠ 0 → |retried| < |offset| ∧ |offset| ∈ retryOffsets glyphs fail)) ∧
    (∀ (start : PathStart K) (l : Nat) (attempt : PathState K → PathTry K), (∀ state, (attempt state).Inside glyphs) →
      ∀ state : PathState K, state.retry_offset = 0 → ∀ tries, 2 * glyphs.length < tries →
        ∃ state', labelTries glyphs start l (fun state => some (attempt state)) tries state = some state') ∧
    ∀ (angles : PathAngles K) (maxoverlapangle : K) (p : LineObj K) (ll : LineLengths K) (textpath : PathText K),
      textpath.glyphs = glyphs → ∀ (start : PathStart K) (l : Nat) (state : PathState K), state.retry_offset = 0 →
        ∀ tries, 2 * glyphs.length < tries →
          TriesEnd glyphs start l (tryPath angles maxoverlapangle p ll textpath) tries state state := by
  refine ⟨fun fail first inside retried max_dec max_inc => compute_retry_offset_spec nonneg first inside retried max_dec max_inc, ?_, ?_⟩
  · intro start l attempt overlaps state fresh tries enough
    rcases @triesEnd _ _ _ _ glyphs start l nonneg (fun state => some (attempt state)) (by
      intro state outcome found
      cases found
      exact overlaps state) state fresh tries enough with ended | ⟨tried, -, stuck⟩
    · exact ended
    · cases stuck
  · rintro angles maxoverlapangle p ll textpath rfl start l state fresh tries enough
    exact triesEnd nonneg (fun state outcome found => tryPath_inside found) fresh enough

end Tries

def spacedGlyphs : List (PathGlyph ℚ) := [⟨1, false⟩, ⟨1, true⟩, ⟨2, false⟩, ⟨1, false⟩]

theorem labelTries_finite_spaced : ∃ offset, compute_retry_offset spacedGlyphs 3 0 5 5 = some offset ∧
    (offset ≠ 0 → |(0 : ℚ)| < |offset| ∧ |offset| ∈ retryOffsets spacedGlyphs 3) :=
  (@labelTries_finite ℚ _ _ _ spacedGlyphs (by decide)).1 3 (by decide) (by decide) 0 5 5

end MapServer
