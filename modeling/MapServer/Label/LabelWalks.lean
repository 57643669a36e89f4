import MapServer.Label.LabelPoints
import MapServer.Label.RetryOffsets

namespace MapServer
open Lib.ArcLength Lib.Distances Lib.Loop List Option

attribute [local instance] two_atLeastTwo

section Walk
variable {K : Type} [Field K] [LinearOrder K] {p : LineObj K} {segment_lengths : List K}

/-- The index `j` has a segment in the direction of travel. -/
def OnSegment (p : LineObj K) (forward : Bool) (j : Nat) : Prop := if forward then j + 2 ≤ p.length else 1 ≤ j ∧ j < p.length

omit [LinearOrder K] in
theorem pointAlong_some {forward : Bool} {j : Nat} (inside : OnSegment p forward j) (t : K) :
    ∃ point, pointAlong p forward j t = some point := by
  cases forward with
  | true =>
    have bound : j + 2 ≤ p.length := inside
    have first : p[j]? = some p[j] := getElem?_eq_getElem (by omega)
    have second : p[j + 1]? = some p[j + 1] := getElem?_eq_getElem (by omega)
    exact ⟨_, by
      simp only [pointAlong, first, second, bind_eq_bind, bind_some, if_true]
      rfl⟩
  | false =>
    obtain ⟨positive, bound⟩ : 1 ≤ j ∧ j < p.length := inside
    have first : p[j]? = some p[j] := getElem?_eq_getElem bound
    have second : p[j - 1]? = some p[j - 1] := getElem?_eq_getElem (by omega)
    exact ⟨_, by
      simp only [pointAlong, first, second, Nat.ne_of_gt positive, bind_eq_bind, bind_some, Bool.false_eq_true, if_false]
      rfl⟩

variable (count : segment_lengths.length = p.length - 1)
include count

omit [Field K] [LinearOrder K] in
theorem segmentAt_some {forward : Bool} {j : Nat} (inside : OnSegment p forward j) :
    ∃ length, segmentAt segment_lengths forward j = some length := by
  cases forward with
  | true =>
    have bound : j + 2 ≤ p.length := inside
    rw [segmentAt, if_pos rfl, getElem?_eq_getElem (by omega)]
    exact ⟨_, rfl⟩
  | false =>
    obtain ⟨positive, bound⟩ : 1 ≤ j ∧ j < p.length := inside
    rw [segmentAt, if_neg Bool.false_ne_true, if_neg (by omega), getElem?_eq_getElem (by omega)]
    exact ⟨_, rfl⟩

theorem moveAlong_some {forward : Bool} (left : Nat) {j : Nat} (inside : OnSegment p forward j)
    (enough : if forward then j + 2 + left ≤ p.length else left < j) (distance : K) :
    ∃ j' distance', moveAlong segment_lengths forward left j distance = some (j', distance') ∧ OnSegment p forward j' := by
  induction left generalizing j distance with
  | zero => exact ⟨j, distance, rfl, inside⟩
  | succ left ih =>
    obtain ⟨length, found⟩ := segmentAt_some count inside
    rw [moveAlong, found]
    dsimp only [bind_eq_bind, bind_some]
    split
    case isFalse => exact ⟨j, distance, rfl, inside⟩
    case isTrue =>
      apply ih
      · cases forward with
        | true =>
          have bound : j + 2 + (left + 1) ≤ p.length := enough
          change j + 1 + 2 ≤ p.length
          omega
        | false =>
          have bound : left + 1 < j := enough
          have last : j < p.length := inside.2
          change 1 ≤ j - 1 ∧ j - 1 < p.length
          omega
      · cases forward with
        | true =>
          have bound : j + 2 + (left + 1) ≤ p.length := enough
          change j + 1 + 2 + left ≤ p.length
          omega
        | false =>
          have bound : left + 1 < j := enough
          change left < j - 1
          omega

theorem passGlyph_some {forward : Bool} (glyph : PathGlyph K) {place : PathPlace K} (inside : OnSegment p forward place.j) :
    ∃ next, passGlyph p segment_lengths forward glyph place = some next ∧ OnSegment p forward next.j := by
  have enough : if forward then place.j + 2 + segmentsLeft p forward place.j ≤ p.length
      else segmentsLeft p forward place.j < place.j := by
    cases forward with
    | true =>
      have bound : place.j + 2 ≤ p.length := inside
      simp only [if_true, segmentsLeft]
      omega
    | false =>
      have positive : 1 ≤ place.j := inside.1
      simp only [Bool.false_eq_true, if_false, segmentsLeft]
      omega
  unfold passGlyph
  dsimp only
  split
  case isFalse => exact ⟨_, rfl, inside⟩
  case isTrue =>
    obtain ⟨j, distance, moved, next⟩ := moveAlong_some count _ inside enough (place.distance_along_segment + glyph.advance)
    obtain ⟨length, found⟩ := segmentAt_some count next
    rw [moved]
    dsimp only [bind_eq_bind, bind_some]
    rw [found]
    exact ⟨_, rfl, next⟩

theorem walkGlyphs_some {forward : Bool} (glyphs : List (PathGlyph K)) {place : PathPlace K} (inside : OnSegment p forward place.j) :
    ∃ points, walkGlyphs p segment_lengths forward glyphs place = some points := by
  induction glyphs generalizing place with
  | nil =>
    obtain ⟨point, here⟩ := pointAlong_some inside place.t
    exact ⟨[point], by rw [walkGlyphs, here]; rfl⟩
  | cons glyph glyphs ih =>
    obtain ⟨point, here⟩ := pointAlong_some inside place.t
    obtain ⟨next, passed, onNext⟩ := passGlyph_some count glyph inside
    obtain ⟨points, rest⟩ := ih onNext
    exact ⟨point :: points, by simp only [walkGlyphs, here, passed, rest, bind_eq_bind, bind_some]⟩

end Walk

section Ends
variable {K : Type} [Field K] [LinearOrder K] [IsStrictOrderedRing K] {p : LineObj K} {ll : LineLengths K}

structure LineSummed (p : LineObj K) (ll : LineLengths K) : Prop where
  count : ll.segment_lengths.length = p.length - 1
  total : ll.total_length = ll.segment_lengths.sum
  positive : ∀ length ∈ ll.segment_lengths, 0 < length

def Clear (total_length text_length text_start_length : K) : Prop :=
  (text_start_length ≠ 0 ∧ text_start_length ≤ total_length) ∧
    text_start_length + text_length ≠ total_length ∧ 0 ≤ text_start_length + text_length

omit [IsStrictOrderedRing K] in
theorem scan_inside {lengths : List K} {target : K} (positive : 0 < target) (reached : target ≤ lengths.sum) :
    ∃ j done, scan lengths target = some (j + 1, done) ∧ j < lengths.length := by
  obtain ⟨j, length, run, found, -, -⟩ := scan_pos positive reached
  exact ⟨j, _, run, (List.getElem?_eq_some_iff.mp found).1⟩

omit [IsStrictOrderedRing K] in
theorem startSegment_clear (summed : LineSummed p ll) (two : 2 ≤ p.length) {start : K} (clear : start ≠ 0 ∧ start ≤ ll.total_length) :
    ∃ (j : Nat) (done : K), startSegment ll start = some ((j : Int), done) ∧ j + 2 ≤ p.length := by
  have count := summed.count
  unfold startSegment
  split
  case isTrue nonneg =>
    obtain ⟨j, done, run, inside⟩ := scan_inside (lt_of_le_of_ne nonneg clear.1.symm) (summed.total ▸ clear.2)
    refine ⟨j, done, ?_, by omega⟩
    rw [run]
    simp
  case isFalse => exact ⟨0, 0, rfl, two⟩

theorem startSegment_not_clear (summed : LineSummed p ll) {start : K} (unclear : ¬(start ≠ 0 ∧ start ≤ ll.total_length)) :
    startSegment ll start = some (-1, 0) ∨ startSegment ll start = none := by
  unfold startSegment
  have nonneg : 0 ≤ ll.total_length := summed.total ▸ sum_nonneg fun length member => (summed.positive length member).le
  by_cases zero : start = 0
  · left
    rw [zero, if_pos (le_refl 0), scan_zero (le_refl 0)]
    rfl
  · right
    have far : ll.total_length < start := not_le.mp fun near => unclear ⟨zero, near⟩
    rw [if_pos (nonneg.trans far.le), scan_none (fun length member => (summed.positive length member).le) (summed.total ▸ far)]
    rfl

theorem endSegment_clear (summed : LineSummed p ll) (two : 2 ≤ p.length) {text start : K}
    (clear : start + text ≠ ll.total_length ∧ 0 ≤ start + text) :
    ∃ (final_j : Nat) (done rest : K), endSegment p ll text start = some ((final_j : Int), done, rest) ∧ 1 ≤ final_j ∧ final_j < p.length := by
  have count := summed.count
  unfold endSegment
  split
  case isTrue near =>
    have back : ll.segment_lengths.reverse.sum = ll.total_length := by rw [sum_reverse, summed.total]
    obtain ⟨j, done, run, inside⟩ := scan_inside (sub_pos.mpr (lt_of_le_of_ne near clear.1)) (by
      rw [back]
      exact sub_le_self _ clear.2)
    rw [length_reverse] at inside
    refine ⟨p.length - 1 - j, done, ll.total_length - (start + text), ?_, by omega, by omega⟩
    simp only [run, bind_eq_bind, bind_some]
    rw [if_neg (by omega)]
    congr 2
    omega
  case isFalse =>
    refine ⟨p.length - 1, 0, 0, ?_, by omega, by omega⟩
    rw [if_neg (by omega)]
    congr 2
    omega

theorem endSegment_not_clear (summed : LineSummed p ll) (two : 2 ≤ p.length) {text start : K}
    (unclear : ¬(start + text ≠ ll.total_length ∧ 0 ≤ start + text)) :
    (∃ done rest, endSegment p ll text start = some ((p.length : Int), done, rest)) ∨ endSegment p ll text start = none := by
  unfold endSegment
  have nonneg : 0 ≤ ll.total_length := summed.total ▸ sum_nonneg fun length member => (summed.positive length member).le
  by_cases exactly : start + text = ll.total_length
  · left
    refine ⟨0, ll.total_length - (start + text), ?_⟩
    rw [if_pos exactly.le]
    simp only [exactly, sub_self, scan_zero (le_refl (0 : K)), bind_eq_bind, bind_some]
    rw [if_neg (by omega)]
    congr 2
    simp
  · right
    have before : start + text < 0 := not_le.mp fun inside => unclear ⟨exactly, inside⟩
    have overrun : scan ll.segment_lengths.reverse (ll.total_length - (start + text)) = none := by
      apply scan_none
      · exact fun length member => (summed.positive length (mem_reverse.mp member)).le
      · rw [sum_reverse, ← summed.total]
        linarith
    rw [if_pos (before.le.trans nonneg)]
    simp only [overrun, bind_eq_bind, bind_none]

theorem entryAt_nat {β : Type} {entries : List β} {j : Nat} (inside : j < entries.length) : entryAt entries (j : Int) = some entries[j] := by
  rw [entryAt, if_neg (by omega), Int.toNat_natCast, getElem?_eq_getElem inside]

theorem walkPath_isSome_iff (summed : LineSummed p ll) (two : 2 ≤ p.length) (glyphs : List (PathGlyph K)) (text start : K) :
    (walkPath p ll text glyphs start).isSome ↔ Clear ll.total_length text start := by
  constructor
  · intro walked
    by_contra unclear
    rw [Clear, not_and_or] at unclear
    have missing : walkPath p ll text glyphs start = none := by
      unfold walkPath
      rcases unclear with first | second
      · rcases startSegment_not_clear summed first with run | run
        · rw [run]
          dsimp only [bind_eq_bind, bind_some]
          cases endSegment p ll text start with
          | none => rfl
          | some found =>
            dsimp only [bind_some]
            cases entryAt p found.1 <;> rfl
        · rw [run]
          rfl
      · cases startSegment ll start with
        | none => rfl
        | some found =>
          rcases endSegment_not_clear summed two second with ⟨done, rest, run⟩ | run
          · rw [run]
            have outside : entryAt p (p.length : Int) = none := by
              rw [entryAt, if_neg (by omega), Int.toNat_natCast, getElem?_eq_none (le_refl _)]
            simp only [outside, bind_eq_bind, bind_some, bind_none]
          · rw [run]
            rfl
    rw [missing] at walked
    cases walked
  · rintro ⟨first, second⟩
    obtain ⟨j, fwd, atStart, inside⟩ := startSegment_clear summed two first
    obtain ⟨final_j, rev, rest, atEnd, positive, bound⟩ := endSegment_clear summed two second
    unfold walkPath
    simp only [atStart, atEnd, entryAt_nat bound, entryAt_nat (show j < p.length by omega), bind_eq_bind, bind_some,
      Int.toNat_natCast]
    generalize direction : p[final_j].x - p[j].x = way
    obtain ⟨k, index, onSegment⟩ : ∃ k, (if decide (way > 0) = true then j else final_j) = k ∧ OnSegment p (decide (way > 0)) k := by
      by_cases forward : way > 0
      · exact ⟨j, if_pos (decide_eq_true forward), (decide_eq_true forward).symm ▸ inside⟩
      · exact ⟨final_j, if_neg (by rw [decide_eq_false forward]; exact Bool.false_ne_true),
          (decide_eq_false forward).symm ▸ ⟨positive, bound⟩⟩
    obtain ⟨length, found⟩ := segmentAt_some summed.count onSegment
    rw [index, found]
    dsimp only [bind_some]
    generalize (if start < 0 then start / length else if decide (way > 0) = true then 1 - (fwd - start) / length
      else 1 - (rev - rest) / length) = t
    obtain ⟨points, run⟩ := @walkGlyphs_some _ _ _ p _ summed.count _ glyphs ⟨k, t * length, length, t⟩ onSegment
    rw [run]
    rfl

end Ends

section Runs
variable {K : Type} [Field K] [LinearOrder K] {glyphs : List (PathGlyph K)} {start : PathStart K}
variable {attempt : PathState K → Option (PathTry K)}

inductive PathTried (glyphs : List (PathGlyph K)) (start : PathStart K) (attempt : PathState K → Option (PathTry K)) :
    Nat → PathState K → Prop where
  | first : 0 < start.label_repeat → PathTried glyphs start attempt 0 ⟨start.first_label_position, 0, 0, []⟩
  | again {l : Nat} {state next : PathState K} {outcome : PathTry K} : PathTried glyphs start attempt l state →
      attempt state = some outcome → afterTry glyphs start l state outcome = some next → next.retry_offset ≠ 0 →
      PathTried glyphs start attempt l next
  | label {l : Nat} {state next : PathState K} {outcome : PathTry K} : PathTried glyphs start attempt l state →
      attempt state = some outcome → afterTry glyphs start l state outcome = some next → next.retry_offset = 0 →
      (l : Int) + 1 < start.label_repeat → PathTried glyphs start attempt (l + 1) { next with retry_offset := 0, first_retry_idx := 0 }

theorem labelTries_succ {l tries : Nat} {state final : PathState K} (run : labelTries glyphs start l attempt tries state = some final) :
    ∃ outcome next, attempt state = some outcome ∧ afterTry glyphs start l state outcome = some next ∧
      ((next.retry_offset = 0 ∧ final = next) ∨
        next.retry_offset ≠ 0 ∧ ∃ left, labelTries glyphs start l attempt left next = some final) := by
  cases tries with
  | zero => cases run
  | succ left =>
    rw [labelTries] at run
    obtain ⟨outcome, tried, run⟩ := bind_eq_some_iff.mp run
    obtain ⟨next, after, run⟩ := bind_eq_some_iff.mp run
    refine ⟨outcome, next, tried, after, ?_⟩
    split at run
    case isTrue done =>
      cases run
      exact Or.inl ⟨done, rfl⟩
    case isFalse more => exact Or.inr ⟨more, left, run⟩

theorem labelTries_last {l tries : Nat} {state final : PathState K} (tried : PathTried glyphs start attempt l state)
    (run : labelTries glyphs start l attempt tries state = some final) :
    final.retry_offset = 0 ∧ ((l : Int) + 1 < start.label_repeat →
      PathTried glyphs start attempt (l + 1) { final with retry_offset := 0, first_retry_idx := 0 }) := by
  induction tries generalizing state with
  | zero => cases run
  | succ tries ih =>
    rw [labelTries] at run
    obtain ⟨outcome, happened, run⟩ := bind_eq_some_iff.mp run
    obtain ⟨next, after, run⟩ := bind_eq_some_iff.mp run
    split at run
    case isTrue done =>
      cases run
      exact ⟨done, tried.label happened after done⟩
    case isFalse more => exact ih (tried.again happened after more) run

theorem PathTried.outcome {tries : Nat} {final : PathState K}
    (run : pathLoop glyphs start attempt tries 0 start.label_repeat.toNat ⟨start.first_label_position, 0, 0, []⟩ = some final)
    {l : Nat} {state : PathState K} (tried : PathTried glyphs start attempt l state) :
    ∃ left next, labelTries glyphs start l attempt left state = some next ∧
      pathLoop glyphs start attempt tries (l + 1) (start.label_repeat - (l + 1)).toNat next = some final := by
  induction tried with
  | first some_ =>
    rw [show start.label_repeat.toNat = (start.label_repeat - ((0 : Nat) + 1)).toNat + 1 by omega, pathLoop, forUp] at run
    obtain ⟨next, body, rest⟩ := bind_eq_some_iff.mp run
    exact ⟨tries, next, body, rest⟩
  | again _ happened after more ih =>
    obtain ⟨left, next, body, rest⟩ := ih
    obtain ⟨outcome, state', happened', after', final_⟩ := labelTries_succ body
    rw [happened, Option.some.injEq] at happened'
    rw [← happened', after, Option.some.injEq] at after'
    subst after'
    rcases final_ with ⟨done, -⟩ | ⟨-, left, body⟩
    · exact absurd done more
    · exact ⟨left, next, body, rest⟩
  | @label l _ next' _ _ happened after done another ih =>
    obtain ⟨left, next, body, rest⟩ := ih
    obtain ⟨outcome, state', happened', after', final_⟩ := labelTries_succ body
    rw [happened, Option.some.injEq] at happened'
    rw [← happened', after, Option.some.injEq] at after'
    subst after'
    rcases final_ with ⟨-, rfl⟩ | ⟨more, -⟩
    · rw [show (start.label_repeat - ((l : Int) + 1)).toNat = (start.label_repeat - ((l + 1 : Nat) + 1)).toNat + 1 by omega, pathLoop,
        forUp] at rest
      obtain ⟨second, body, rest⟩ := bind_eq_some_iff.mp rest
      exact ⟨tries, second, body, rest⟩
    · exact absurd done more

theorem pathTried_of_label {l : Nat} {first state : PathState K} (tried : PathTried glyphs start attempt l first)
    (later : LabelTried glyphs start l attempt first state) : PathTried glyphs start attempt l state := by
  induction later with
  | first => exact tried
  | again _ happened after more ih => exact ih.again happened after more

variable [IsStrictOrderedRing K]

theorem pathLoop_isSome_iff (nonneg : ∀ glyph ∈ glyphs, 0 ≤ glyph.advance)
    (overlaps : ∀ state outcome, attempt state = some outcome → outcome.Inside glyphs) {tries : Nat} (enough : 2 * glyphs.length < tries) :
    (pathLoop glyphs start attempt tries 0 start.label_repeat.toNat ⟨start.first_label_position, 0, 0, []⟩).isSome ↔
      ∀ l state, PathTried glyphs start attempt l state → (attempt state).isSome := by
  constructor
  · intro run l state tried
    obtain ⟨final, run⟩ := isSome_iff_exists.mp run
    obtain ⟨left, next, body, -⟩ := tried.outcome run
    obtain ⟨outcome, -, happened, -⟩ := labelTries_succ body
    exact isSome_iff_exists.mpr ⟨outcome, happened⟩
  · intro all
    obtain ⟨final, run, -⟩ := forUp_invariant
      (fun l state => labelTries glyphs start l attempt tries { state with retry_offset := 0, first_retry_idx := 0 }) 0
      start.label_repeat.toNat
      (fun l state => (l : Int) < start.label_repeat →
        PathTried glyphs start attempt l { state with retry_offset := 0, first_retry_idx := 0 })
      (s := ⟨start.first_label_position, 0, 0, []⟩) (fun some_ => .first (by simpa using some_))
      (fun l state _ bound before => by
        have tried := before (by omega)
        rcases @triesEnd _ _ _ _ _ start l nonneg _ overlaps { state with retry_offset := 0, first_retry_idx := 0 } rfl _ enough with
          ⟨final, run⟩ | ⟨stuck, later, none_⟩
        · exact ⟨final, run, fun more => (labelTries_last tried run).2 (by push_cast at more; omega)⟩
        · have outcome := all l stuck (pathTried_of_label tried later)
          rw [none_] at outcome
          cases outcome)
    exact isSome_iff_exists.mpr ⟨final, run⟩

end Runs

section Line
variable {K : Type} [Field K] [LinearOrder K] [IsStrictOrderedRing K] {sqrt : K → K}

theorem lineLengths_summed (exact : ExactSqrt sqrt) (memory : Nat) {p : LineObj K} (two : 2 ≤ p.length)
    (positive : ∀ length ∈ (lineLengths sqrt memory p).segment_lengths, 0 < length) : LineSummed p (lineLengths sqrt memory p) := by
  have measured := lineLengths_measured exact memory two
  refine ⟨?_, measured.total, positive⟩
  obtain ⟨a, rest, rfl⟩ : ∃ a rest, p = a :: rest := exists_cons_of_length_pos (by omega)
  rw [measured.lengths, map_cons, length_pathLengths, length_map, length_cons, Nat.add_sub_cancel]

def AllClear (angles : PathAngles K) (p : LineObj K) (ll : LineLengths K) (textpath : PathText K) (label : PathLabel K)
    (start : PathStart K) : Prop :=
  ∀ l state, PathTried textpath.glyphs start (tryPath angles (pathOverlapAngle angles label) p ll textpath) l state →
    Clear ll.total_length textpath.maxx (state.cur_label_position + state.retry_offset)

theorem tryPath_isSome_iff {p : LineObj K} {ll : LineLengths K} (summed : LineSummed p ll) (two : 2 ≤ p.length) (angles : PathAngles K)
    (maxoverlapangle : K) (textpath : PathText K) (state : PathState K) :
    (tryPath angles maxoverlapangle p ll textpath state).isSome ↔
      Clear ll.total_length textpath.maxx (state.cur_label_position + state.retry_offset) := by
  rw [← walkPath_isSome_iff summed two textpath.glyphs, tryPath]
  cases walkPath p ll textpath.maxx textpath.glyphs (state.cur_label_position + state.retry_offset) <;> rfl

variable [FloorRing K]

theorem msLineLabelPath_run {p : LineObj K} {ll : LineLengths K} (summed : LineSummed p ll) (two : 2 ≤ p.length)
    (angles : PathAngles K) (textpath : PathText K) (nonneg : ∀ glyph ∈ textpath.glyphs, 0 ≤ glyph.advance) (label : PathLabel K)
    (resolutionfactor : K) {tries : Nat} (enough : 2 * textpath.glyphs.length < tries) :
    (msLineLabelPath angles p ll textpath label resolutionfactor tries).isSome ↔
      ∃ start, pathStart (label.repeatdistance * resolutionfactor) ll.total_length textpath.maxx label.force = some start ∧
        ∀ first ∈ start, AllClear angles p ll textpath label first := by
  unfold msLineLabelPath
  cases starts : pathStart (label.repeatdistance * resolutionfactor) ll.total_length textpath.maxx label.force with
  | none => simp
  | some start =>
    cases start with
    | none => simp
    | some first =>
      have run := @pathLoop_isSome_iff _ _ _ _ first _ _ nonneg
        (fun state outcome => @tryPath_inside _ _ _ angles (pathOverlapAngle angles label) p ll textpath state outcome) _ enough
      simp only [tryPath_isSome_iff summed two] at run
      have outcome : (isSome do
          let state ← pathLoop textpath.glyphs first (tryPath angles (pathOverlapAngle angles label) p ll textpath) tries 0
            first.label_repeat.toNat ⟨first.first_label_position, 0, 0, []⟩
          some state.follow_labels) ↔ AllClear angles p ll textpath label first := by
        refine Iff.trans ?_ run
        cases pathLoop textpath.glyphs first (tryPath angles (pathOverlapAngle angles label) p ll textpath) tries 0
          first.label_repeat.toNat ⟨first.first_label_position, 0, 0, []⟩ <;> rfl
      simpa using outcome

/-- The labels of a line read inside the line if and only if their number is an `int` and every try is clear. -/
theorem msLineLabelPath_isSome_iff (exact : ExactSqrt sqrt) (angles : PathAngles K) (memory : Nat) {p : LineObj K} (three : 3 ≤ p.length)
    (positive : ∀ length ∈ (lineLengths sqrt memory p).segment_lengths, 0 < length) (textpath : PathText K)
    (nonneg : ∀ glyph ∈ textpath.glyphs, 0 ≤ glyph.advance) (label : PathLabel K) (resolutionfactor : K) {tries : Nat}
    (enough : 2 * textpath.glyphs.length < tries) :
    (msLineLabelPath angles p (lineLengths sqrt memory p) textpath label resolutionfactor tries).isSome ↔
      ∃ start, pathStart (label.repeatdistance * resolutionfactor) (lineLengths sqrt memory p).total_length textpath.maxx label.force =
          some start ∧
        ∀ first ∈ start, AllClear angles p (lineLengths sqrt memory p) textpath label first :=
  msLineLabelPath_run (lineLengths_summed exact memory (by omega) positive) (by omega) angles textpath nonneg label resolutionfactor enough

end Line

noncomputable section Bent

def realPathAngles : PathAngles ℝ := { realAngles with cos := Real.cos, sin := Real.sin }

def bentLine : LineObj ℝ := [⟨0, 0, 0, 0⟩, ⟨1, 0, 0, 0⟩, ⟨2, 0, 0, 0⟩]

def twoGlyphs (advance : ℝ) : PathText ℝ := ⟨[⟨advance, false⟩, ⟨advance, false⟩], 2 * advance, 1⟩

def noRepeat : PathLabel ℝ := ⟨0, 0, false⟩

theorem bentLine_lengths : (lineLengths Real.sqrt 0 bentLine).segment_lengths = [1, 1] ∧ (lineLengths Real.sqrt 0 bentLine).total_length = 2 := by
  norm_num [lineLengths, bentLine, addSegments]

theorem bentLine_summed : LineSummed bentLine (lineLengths Real.sqrt 0 bentLine) :=
  lineLengths_summed realSqrt_exact 0 (by decide) (by simp [bentLine_lengths.1])

theorem msLineLabelPath_isSome_iff_half :
    (msLineLabelPath realPathAngles bentLine (lineLengths Real.sqrt 0 bentLine) (twoGlyphs (1 / 2)) noRepeat 1 5).isSome ↔
      ∃ start, pathStart ((noRepeat.repeatdistance : ℝ) * 1) (lineLengths Real.sqrt 0 bentLine).total_length (twoGlyphs (1 / 2)).maxx
          noRepeat.force = some start ∧
        ∀ first ∈ start, AllClear realPathAngles bentLine (lineLengths Real.sqrt 0 bentLine) (twoGlyphs (1 / 2)) noRepeat first :=
  msLineLabelPath_isSome_iff realSqrt_exact realPathAngles 0 (by decide) bentLine_summed.positive _ (by simp [twoGlyphs]) _ _
    (by simp [twoGlyphs])

theorem msLineLabelPath_wholeLine :
    pathStart ((noRepeat.repeatdistance : ℝ) * 1) (lineLengths Real.sqrt 0 bentLine).total_length (twoGlyphs 1).maxx noRepeat.force =
        some (some ⟨1, 2, 0, 0⟩) ∧
      startSegment (lineLengths Real.sqrt 0 bentLine) 0 = some (-1, 0) ∧
      msLineLabelPath realPathAngles bentLine (lineLengths Real.sqrt 0 bentLine) (twoGlyphs 1) noRepeat 1 5 = none := by
  have starts : pathStart ((noRepeat.repeatdistance : ℝ) * 1) (lineLengths Real.sqrt 0 bentLine).total_length (twoGlyphs 1).maxx noRepeat.force =
      some (some ⟨1, 2, 0, 0⟩) := by
    rw [bentLine_lengths.2]
    norm_num [pathStart, noRepeat, twoGlyphs]
  have scanned : startSegment (lineLengths Real.sqrt 0 bentLine) 0 = some (-1, 0) := by
    rw [startSegment, if_pos (le_refl 0), scan_zero (le_refl 0)]
    rfl
  refine ⟨starts, scanned, ?_⟩
  rw [← Option.not_isSome_iff_eq_none, msLineLabelPath_run bentLine_summed (by decide) _ _ (by simp [twoGlyphs]) _ _ (by simp [twoGlyphs])]
  rintro ⟨start, run, clear⟩
  rw [starts, Option.some.injEq] at run
  have first := clear _ run.symm 0 _ (.first (by decide))
  exact first.1.1 (add_zero 0)

end Bent

end MapServer
