import Mathlib.Analysis.Convex.Topology

/-! The even-odd rule for closed rings of straight edges, and how the rings that it fills lie in one another. -/

namespace Lib.EvenOdd
open Filter Topology List Option

section Rule
variable {K : Type} [Field K] [LinearOrder K]

/-- Where the line through `a` and `b` meets the height of `p`. -/
def crossingX (a b p : K × K) : K :=
  (b.1 - a.1) * (p.2 - a.2) / (b.2 - a.2) + a.1

def reaches (a p : K × K) : Bool :=
  decide (a.2 ≤ p.2)

/-- The edge from `a` to `b` passes `p` on its right. -/
def crosses (a b p : K × K) : Bool :=
  (reaches a p != reaches b p) && decide (p.1 < crossingX a b p)

/-- The parity of the edges that are passed, from `prev` on. -/
def parity (p : K × K) : K × K → List (K × K) → Bool
  | _, [] => false
  | prev, a :: rest => crosses a prev p ^^ parity p a rest

def inside (ring : List (K × K)) (p : K × K) : Bool :=
  ring.getLast?.any fun last => parity p last ring

/-- On the right of `p`, a vertex that only one of `p` and `q` reaches. -/
def switches (p a q : K × K) : Bool :=
  (reaches a q != reaches a p) && decide (p.1 < a.1)

end Rule

abbrev Plane := ℝ × ℝ

/-- The edges of a path that comes from `prev`. -/
def path (prev : Plane) : List Plane → Set Plane
  | [] => ∅
  | a :: rest => segment ℝ a prev ∪ path a rest

def boundary (ring : List Plane) : Set Plane :=
  {p | ∃ last, ring.getLast? = some last ∧ p ∈ path last ring}

def Apart (first second : List Plane) : Prop :=
  ∀ p ∈ boundary first, p ∉ boundary second

variable {first second ring inner : List Plane} {a p b : Plane}

theorem Apart.symm (apart : Apart first second) : Apart second first :=
  fun p onSecond onFirst => apart p onFirst onSecond

theorem reaches_near (differ : a.2 ≠ p.2) : ∀ᶠ q in 𝓝 p, reaches a q = reaches a p := by
  rcases lt_or_gt_of_ne differ with below | above
  · have near : ∀ᶠ q : Plane in 𝓝 p, a.2 < q.2 := continuous_snd.continuousAt.eventually (lt_mem_nhds below)
    filter_upwards [near] with q here
    simp [reaches, here.le, below.le]
  · have near : ∀ᶠ q : Plane in 𝓝 p, q.2 < a.2 := continuous_snd.continuousAt.eventually (gt_mem_nhds above)
    filter_upwards [near] with q here
    simp [reaches, not_le.mpr here, not_le.mpr above]

theorem continuous_crossingX (a b : Plane) : Continuous fun q : Plane => crossingX a b q := by
  unfold crossingX
  fun_prop

theorem side_near (apart : p.1 ≠ crossingX a b p) :
    ∀ᶠ q : Plane in 𝓝 p, decide (q.1 < crossingX a b q) = decide (p.1 < crossingX a b p) := by
  have line := (continuous_crossingX a b).continuousAt (x := p)
  rcases lt_or_gt_of_ne apart with left | right
  · filter_upwards [continuous_fst.continuousAt.eventually_lt line left] with q here
    simp [here, left]
  · filter_upwards [line.eventually_lt continuous_fst.continuousAt right] with q here
    simp [not_lt.mpr here.le, not_lt.mpr right.le]

theorem crossingX_ne (slanted : a.2 ≠ b.2) (off : p ∉ segment ℝ a b) (between : p.2 ∈ Set.uIcc a.2 b.2) :
    p.1 ≠ crossingX a b p := by
  intro same
  apply off
  rw [← segment_eq_uIcc, segment_eq_image] at between
  obtain ⟨t, range, height⟩ := between
  rw [segment_eq_image]
  refine ⟨t, range, ?_⟩
  have apart : b.2 - a.2 ≠ 0 := sub_ne_zero.mpr slanted.symm
  have along : (p.2 - a.2) / (b.2 - a.2) = t := by
    rw [div_eq_iff apart, ← height]
    ring
  ext
  · show (1 - t) * a.1 + t * b.1 = p.1
    rw [same, crossingX, mul_div_assoc, along]
    ring
  · exact height

theorem between_of_reaches (differ : reaches a p ≠ reaches b p) : p.2 ∈ Set.uIcc a.2 b.2 := by
  rw [Set.mem_uIcc]
  by_cases fromA : a.2 ≤ p.2 <;> by_cases fromB : b.2 ≤ p.2
  · simp [reaches, fromA, fromB] at differ
  · exact .inl ⟨fromA, (not_le.mp fromB).le⟩
  · exact .inr ⟨fromB, (not_le.mp fromA).le⟩
  · simp [reaches, fromA, fromB] at differ

theorem exists_side (off : p ∉ segment ℝ a b) :
    ∃ side, (∀ᶠ q : Plane in 𝓝 p, reaches a q ≠ reaches b q → decide (q.1 < crossingX a b q) = side) ∧
      (a.2 = p.2 → decide (p.1 < a.1) = side) ∧ (b.2 = p.2 → decide (p.1 < b.1) = side) := by
  rcases eq_or_ne a.2 b.2 with level | slanted
  · refine ⟨decide (p.1 < a.1), ?_, fun _ => rfl, ?_⟩
    · filter_upwards with q differ
      simp [reaches, level] at differ
    · intro atB
      have notBetween : p.1 ∉ Set.uIcc a.1 b.1 := by
        intro within
        apply off
        rw [← segment_eq_uIcc] at within
        have level : a.2 = p.2 := level.trans atB
        have onEdge := Set.mem_image_of_mem (fun x => (x, p.2)) within
        rw [Prod.image_mk_segment_left] at onEdge
        have endA : (a.1, p.2) = a := Prod.ext rfl level.symm
        have endB : (b.1, p.2) = b := Prod.ext rfl atB.symm
        rwa [endA, endB] at onEdge
      rw [Set.mem_uIcc, not_or, not_and_or, not_and_or, not_le, not_le, not_le, not_le] at notBetween
      rw [decide_eq_decide]
      constructor <;> intro left <;> rcases notBetween with ⟨_ | _, _ | _⟩ <;> linarith
  by_cases between : p.2 ∈ Set.uIcc a.2 b.2
  · have apart := crossingX_ne slanted off between
    refine ⟨decide (p.1 < crossingX a b p), ?_, ?_, ?_⟩
    · filter_upwards [side_near apart] with q here _
      exact here
    · intro atA
      simp [crossingX, atA]
    · intro atB
      have height : b.2 - a.2 ≠ 0 := sub_ne_zero.mpr slanted.symm
      rw [crossingX, ← atB, mul_div_assoc, div_self height]
      simp
  · have notA : a.2 ≠ p.2 := by
      intro atA
      exact between (atA ▸ Set.left_mem_uIcc)
    have notB : b.2 ≠ p.2 := by
      intro atB
      exact between (atB ▸ Set.right_mem_uIcc)
    refine ⟨false, ?_, fun atA => absurd atA notA, fun atB => absurd atB notB⟩
    filter_upwards [reaches_near notA, reaches_near notB] with q nearA nearB differ
    rw [nearA, nearB] at differ
    exact absurd (between_of_reaches differ) between

theorem switches_eq {q : Plane} {side : Bool} (near : a.2 ≠ p.2 → reaches a q = reaches a p)
    (atHeight : a.2 = p.2 → decide (p.1 < a.1) = side) : switches p a q = ((reaches a q != reaches a p) && side) := by
  unfold switches
  by_cases level : a.2 = p.2
  · rw [atHeight level]
  · simp [near level]

theorem crosses_near (off : p ∉ segment ℝ a b) :
    ∀ᶠ q in 𝓝 p, crosses a b q = (crosses a b p ^^ (switches p a q ^^ switches p b q)) := by
  obtain ⟨side, passes, atA, atB⟩ := exists_side off
  have nearVertex : ∀ v : Plane, ∀ᶠ q in 𝓝 p, v.2 ≠ p.2 → reaches v q = reaches v p := by
    intro v
    by_cases level : v.2 = p.2
    · exact Eventually.of_forall fun _ differ => absurd level differ
    · filter_upwards [reaches_near level] with q near _
      exact near
  have here := passes.self_of_nhds
  filter_upwards [passes, nearVertex a, nearVertex b] with q there nearA nearB
  rw [switches_eq nearA atA, switches_eq nearB atB]
  unfold crosses
  generalize decide (q.1 < crossingX a b q) = passesQ at there ⊢
  generalize decide (p.1 < crossingX a b p) = passesP at here ⊢
  generalize reaches a q = aq at there ⊢
  generalize reaches b q = bq at there ⊢
  generalize reaches a p = ap at here ⊢
  generalize reaches b p = bp at here ⊢
  revert here there
  clear atA atB nearA nearB passes
  revert aq bq ap bp side passesQ passesP
  decide

theorem parity_near (prev : Plane) (rest : List Plane) (off : p ∉ path prev rest) : ∀ᶠ q in 𝓝 p, parity q prev rest =
      (parity p prev rest ^^ (switches p prev q ^^ switches p ((prev :: rest).getLast (by simp)) q)) := by
  induction rest generalizing prev with
  | nil => simp [parity]
  | cons a rest ih =>
    rw [path, Set.mem_union, not_or] at off
    filter_upwards [crosses_near off.1, ih a off.2] with q edge others
    rw [parity, parity, edge, others, getLast_cons_cons]
    generalize crosses a prev p = passed, switches p a q = first, switches p prev q = second
    generalize parity p a rest = rests, switches p ((a :: rest).getLast _) q = third
    revert passed first second rests third
    decide

theorem inside_near (off : p ∉ boundary ring) : ∀ᶠ q in 𝓝 p, inside ring q = inside ring p := by
  cases isLast : ring.getLast? with
  | none => simp [inside, isLast]
  | some last =>
    have offPath : p ∉ path last ring := fun on => off ⟨last, isLast, on⟩
    filter_upwards [parity_near last ring offPath] with q near
    have closed : (last :: ring).getLast (by simp) = last := by
      obtain ⟨front, rfl⟩ := getLast?_eq_some_iff.mp isLast
      rw [getLast_cons (by simp), getLast_append_singleton]
    rw [inside, inside, isLast, any_some, any_some, near, closed, Bool.xor_self, Bool.xor_false]

theorem inside_const {region : Set Plane} (connected : IsPreconnected region) (off : ∀ p ∈ region, p ∉ boundary ring)
    {q : Plane} (here : p ∈ region) (there : q ∈ region) : inside ring p = inside ring q := by
  have continuous : ContinuousOn (inside ring) region := by
    intro r member
    apply ContinuousAt.continuousWithinAt
    exact continuousAt_const.congr ((inside_near (off r member)).mono fun _ same => same.symm)
  exact connected.constant continuous here there

theorem isClosed_path (prev : Plane) (rest : List Plane) : IsClosed (path prev rest) := by
  induction rest generalizing prev with
  | nil => exact isClosed_empty
  | cons a rest ih =>
    apply IsClosed.union _ (ih a)
    rw [segment_eq_image]
    exact (isCompact_Icc.image (by fun_prop)).isClosed

theorem isClosed_boundary (ring : List Plane) : IsClosed (boundary ring) := by
  unfold boundary
  cases ring.getLast? with
  | none => simp
  | some last => simpa using isClosed_path last ring

theorem inside_path {prev : Plane} {rest : List Plane} (off : ∀ p ∈ path prev rest, p ∉ boundary ring)
    (on : p ∈ path prev rest) : inside ring p = inside ring prev := by
  induction rest generalizing prev with
  | nil => cases on
  | cons a rest ih =>
    have edge : ∀ q ∈ segment ℝ a prev, q ∉ boundary ring := fun q member => off q (.inl member)
    have connected := (convex_segment a prev).isPreconnected
    rcases on with here | later
    · exact inside_const connected edge here (right_mem_segment ℝ a prev)
    · rw [ih (fun q member => off q (.inr member)) later]
      exact inside_const connected edge (left_mem_segment ℝ a prev) (right_mem_segment ℝ a prev)

theorem mem_path {prev : Plane} {rest : List Plane} (member : a ∈ rest) : a ∈ path prev rest := by
  induction rest generalizing prev with
  | nil => cases member
  | cons b rest ih =>
    rcases mem_cons.mp member with rfl | later
    · exact .inl (left_mem_segment ℝ a prev)
    · exact .inr (ih later)

theorem mem_boundary (member : a ∈ ring) : a ∈ boundary ring := by
  obtain ⟨last, isLast⟩ := getLast?_isSome.mpr (ne_nil_of_mem member) |> isSome_iff_exists.mp
  exact ⟨last, isLast, mem_path member⟩

theorem inside_boundary {other : List Plane} (apart : Apart other ring) {q : Plane} (here : p ∈ boundary other)
    (there : q ∈ boundary other) : inside ring p = inside ring q := by
  obtain ⟨last, isLast, onP⟩ := here
  obtain ⟨_, same, onQ⟩ := there
  obtain rfl := Option.some.inj (isLast.symm.trans same)
  have off : ∀ r ∈ path last other, r ∉ boundary ring :=
    fun r member on => apart r ⟨last, isLast, member⟩ on
  rw [inside_path off onP, inside_path off onQ]

theorem inside_above (above : ∀ a ∈ ring, a.2 ≤ p.2) : inside ring p = false := by
  have noCrossing : ∀ prev rest, prev.2 ≤ p.2 → (∀ a ∈ rest, a.2 ≤ p.2) → parity p prev rest = false := by
    intro prev rest
    induction rest generalizing prev with
    | nil => intro _ _; rfl
    | cons a rest ih =>
      intro first others
      rw [forall_mem_cons] at others
      rw [parity, ih a others.1 others.2]
      simp [crosses, reaches, first, others.1]
  cases isLast : ring.getLast? with
  | none => simp [inside, isLast]
  | some last =>
    rw [inside, isLast, any_some]
    exact noCrossing last ring (above last (mem_of_getLast? isLast)) above

def column (p : Plane) (height : ℝ) : Set Plane :=
  (fun y => (p.1, y)) '' Set.Icc p.2 height

theorem column_preconnected (p : Plane) (height : ℝ) : IsPreconnected (column p height) :=
  isPreconnected_Icc.image _ (by fun_prop)

theorem self_mem_column {height : ℝ} (above : p.2 ≤ height) : p ∈ column p height :=
  ⟨p.2, ⟨le_rfl, above⟩, rfl⟩

theorem exists_above (ring : List Plane) (p : Plane) : ∃ height, p.2 ≤ height ∧ ∀ a ∈ ring, a.2 ≤ height := by
  induction ring with
  | nil => exact ⟨p.2, le_rfl, by simp⟩
  | cons a ring ih =>
    obtain ⟨height, below, others⟩ := ih
    refine ⟨max a.2 height, below.trans (le_max_right _ _), ?_⟩
    rw [forall_mem_cons]
    exact ⟨le_max_left _ _, fun b member => (others b member).trans (le_max_right _ _)⟩

/-- Going up from a point that is inside one of two rings, the first of them that is met is met on the same side of the other. -/
theorem exists_met (apart : Apart first second) (isInside : inside first p = true ∨ inside second p = true) :
    (∃ q ∈ boundary first, inside second q = inside second p) ∨ ∃ q ∈ boundary second, inside first q = inside first p := by
  obtain ⟨height, below, above⟩ := exists_above (first ++ second) p
  have outside : ∀ ring ⊆ first ++ second, inside ring (p.1, height) = false :=
    fun ring among => inside_above fun a member => above a (among member)
  let met : Set ℝ := {y ∈ Set.Icc p.2 height | (p.1, y) ∈ boundary first ∪ boundary second}
  have compact : IsCompact met := by
    apply isCompact_Icc.inter_right
    exact ((isClosed_boundary first).union (isClosed_boundary second)).preimage (by fun_prop)
  rcases met.eq_empty_or_nonempty with never | some
  · -- nothing is met, but the end of the column is outside both
    have off : ∀ q ∈ column p height, q ∉ boundary first ∪ boundary second := by
      intro q member on
      obtain ⟨y, range, rfl⟩ := member
      exact Set.eq_empty_iff_forall_notMem.mp never y ⟨range, on⟩
    have top : (p.1, height) ∈ column p height := ⟨height, ⟨below, le_rfl⟩, rfl⟩
    have connected := column_preconnected p height
    rcases isInside with inFirst | inSecond
    · rw [inside_const connected (fun q member on => off q member (.inl on)) (self_mem_column below) top] at inFirst
      rw [outside first (subset_append_left _ _)] at inFirst
      cases inFirst
    · rw [inside_const connected (fun q member on => off q member (.inr on)) (self_mem_column below) top] at inSecond
      rw [outside second (subset_append_right _ _)] at inSecond
      cases inSecond
  · obtain ⟨y, ⟨range, on⟩, least⟩ := compact.exists_isLeast some
    have before : ∀ q ∈ column p y, q ∈ boundary first ∪ boundary second → q = (p.1, y) := by
      intro q member on
      obtain ⟨z, within, rfl⟩ := member
      have later : y ≤ z := least ⟨⟨within.1, within.2.trans range.2⟩, on⟩
      rw [le_antisymm within.2 later]
    have top : (p.1, y) ∈ column p y := ⟨y, ⟨range.1, le_rfl⟩, rfl⟩
    have connected := column_preconnected p y
    rcases on with onFirst | onSecond
    · left
      refine ⟨(p.1, y), onFirst, inside_const connected ?_ top (self_mem_column range.1)⟩
      intro q member onSecond
      rw [before q member (.inr onSecond)] at onSecond
      exact apart _ onFirst onSecond
    · right
      refine ⟨(p.1, y), onSecond, inside_const connected ?_ top (self_mem_column range.1)⟩
      intro q member onFirst
      rw [before q member (.inl onFirst)] at onFirst
      exact apart _ onFirst onSecond

def Encloses (outer inner : List Plane) : Prop :=
  ∀ a ∈ inner, inside outer a = true

theorem encloses_iff {outer : List Plane} (apart : Apart inner outer) (on : p ∈ boundary inner) :
    Encloses outer inner ↔ inside outer p = true := by
  constructor
  · intro encloses
    obtain ⟨last, isLast, onPath⟩ := on
    have member := mem_of_getLast? isLast
    rw [inside_boundary apart ⟨last, isLast, onPath⟩ (mem_boundary member)]
    exact encloses last member
  · intro isInside a member
    rw [inside_boundary apart (mem_boundary member) on, isInside]

theorem not_encloses_both (nonempty : first ≠ []) (one : Encloses first second) (two : Encloses second first) : False := by
  obtain ⟨b, among⟩ := exists_mem_of_ne_nil first nonempty
  obtain ⟨a, member, highest⟩ := Set.exists_max_image {a | a ∈ first ++ second} Prod.snd (finite_toSet _)
    ⟨b, mem_append_left _ among⟩
  have outside : ∀ ring ⊆ first ++ second, inside ring a = false :=
    fun ring part => inside_above fun c vertex => highest c (part vertex)
  rcases mem_append.mp member with inFirst | inSecond
  · have isInside := two a inFirst
    rw [outside second (subset_append_right _ _)] at isInside
    cases isInside
  · have isInside := one a inSecond
    rw [outside first (subset_append_left _ _)] at isInside
    cases isInside

theorem encloses_or (apart : Apart first second) (nonempty : inner ≠ []) (one : Encloses first inner)
    (two : Encloses second inner) : Encloses first second ∨ Encloses second first := by
  obtain ⟨a, member⟩ := exists_mem_of_ne_nil inner nonempty
  rcases exists_met apart (.inl (one a member)) with ⟨q, on, same⟩ | ⟨q, on, same⟩
  · right
    rw [encloses_iff apart on, same]
    exact two a member
  · left
    rw [encloses_iff apart.symm on, same]
    exact one a member

theorem encloses_trans {outer middle : List Plane} (apart : Apart middle outer) (nonempty : middle ≠ [])
    (one : Encloses outer middle) (two : Encloses middle inner) : Encloses outer inner := by
  intro a member
  by_contra notInside
  rcases exists_met apart (.inl (two a member)) with ⟨q, on, same⟩ | ⟨q, on, same⟩
  · rw [(encloses_iff apart on).mp one] at same
    exact notInside same.symm
  · exact not_encloses_both nonempty ((encloses_iff apart.symm on).mpr (same.trans (two a member))) one

end Lib.EvenOdd
