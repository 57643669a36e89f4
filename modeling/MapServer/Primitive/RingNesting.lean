import MapServer.Lib.EvenOdd
import MapServer.Lib.Nesting
import MapServer.Primitive.PixelTransform
import MapServer.Spatial.Intersections

namespace MapServer
open Lib.EvenOdd Lib.Loop Lib.Nesting List Option

section Rule
variable {K : Type} [Field K] [LinearOrder K]

theorem passEdges_eq (p before : PointObj K) (rest : LineObj K) (status : Bool) :
    passEdges p before rest status = (status ^^ parity p.xy before.xy (rest.map PointObj.xy)) := by
  induction rest generalizing before status with
  | nil => simp [passEdges, parity]
  | cons point rest ih =>
    have between : (reaches point.xy p.xy != reaches before.xy p.xy) =
        decide ((point.y ≤ p.y ∧ p.y < before.y) ∨ (before.y ≤ p.y ∧ p.y < point.y)) := by
      have below : ∀ y, p.y < y ↔ ¬ y ≤ p.y := fun y => not_le.symm
      by_cases first : point.y ≤ p.y <;> by_cases second : before.y ≤ p.y <;>
        simp [reaches, PointObj.xy, first, second, below]
    have edge : crosses point.xy before.xy p.xy =
        decide (((point.y ≤ p.y ∧ p.y < before.y) ∨ (before.y ≤ p.y ∧ p.y < point.y)) ∧
          p.x < (before.x - point.x) * (p.y - point.y) / (before.y - point.y) + point.x) := by
      rw [crosses, between, Bool.decide_and]
      rfl
    rw [passEdges, ih, map_cons, parity, edge, ← Bool.xor_assoc]
    congr 1
    split <;> rename_i passes
    · rw [decide_eq_true passes, Bool.xor_true]
    · rw [decide_eq_false passes, Bool.xor_false]

theorem msPointInPolygon_eq (p : PointObj K) (c : LineObj K) : msPointInPolygon p c = inside (c.map PointObj.xy) p.xy := by
  rw [msPointInPolygon, inside, getLast?_map]
  cases c.getLast? with
  | none => rfl
  | some last =>
    rw [map_some, any_some]
    exact (passEdges_eq p last c false).trans (Bool.false_xor _)

end Rule

def ringOf (ring : LineObj ℝ) : List Plane :=
  ring.map PointObj.xy

structure ValidRings (shape : ShapeObj ℝ) : Prop where
  closed : ∀ ring ∈ shape.line, ring.head?.map PointObj.xy = ring.getLast?.map PointObj.xy
  points : ∀ ring ∈ shape.line, 4 ≤ ring.length
  apart : ∀ i j : Fin shape.line.length, i ≠ j → Apart (ringOf shape.line[i]) (ringOf shape.line[j])

variable {shape : ShapeObj ℝ}

theorem ringEncloses_iff (j i : Fin shape.line.length) :
    ringEncloses shape j i ↔ j ≠ i ∧ Encloses (ringOf shape.line[j]) (ringOf shape.line[i]) := by
  simp [ringEncloses, Encloses, ringOf, msPointInPolygon_eq]

theorem ValidRings.nonempty (valid : ValidRings shape) (i : Fin shape.line.length) : ringOf shape.line[i] ≠ [] := by
  intro empty
  have points := valid.points shape.line[i] (getElem_mem i.isLt)
  rw [ringOf, map_eq_nil_iff] at empty
  rw [empty] at points
  simp at points

theorem rings_nested (valid : ValidRings shape) : Nested (ringEncloses shape) := by
  constructor
  · intro i itself
    exact itself.1 rfl
  · intro a b c outer inner
    rw [ringEncloses_iff] at outer inner ⊢
    have encloses := encloses_trans (valid.apart b a outer.1.symm) (valid.nonempty b) outer.2 inner.2
    refine ⟨?_, encloses⟩
    rintro rfl
    exact not_encloses_both (valid.nonempty a) outer.2 inner.2
  · intro a b c first second differ
    rw [ringEncloses_iff] at first second ⊢
    rw [ringEncloses_iff]
    rcases encloses_or (valid.apart a b differ) (valid.nonempty c) first.2 second.2 with encloses | encloses
    · exact .inl ⟨differ, encloses⟩
    · exact .inr ⟨differ.symm, encloses⟩

theorem inside_vertex (valid : ValidRings shape) {j i : Fin shape.line.length} (differ : j ≠ i) {point : PointObj ℝ}
    (member : point ∈ shape.line[i]) : msPointInPolygon point shape.line[j] = decide (ringEncloses shape j i) := by
  have on : point.xy ∈ boundary (ringOf shape.line[i]) := mem_boundary (List.mem_map_of_mem member)
  rw [Bool.eq_iff_iff, decide_eq_true_iff, ringEncloses_iff, encloses_iff (valid.apart i j differ.symm) on, msPointInPolygon_eq]
  exact (and_iff_right differ).symm

theorem outerRingStep_eq (valid : ValidRings shape) (r i : Fin shape.line.length) (status : Bool) :
    outerRingStep shape r i status = some (status ^^ decide (ringEncloses shape i r)) := by
  unfold outerRingStep
  by_cases same : (i : Nat) = r
  · rw [if_pos same]
    have notItself : ¬ ringEncloses shape i r := fun encloses => encloses.1 (Fin.ext same)
    simp [notItself]
  · rw [if_neg same]
    have differ : i ≠ r := fun equal => same (congrArg Fin.val equal)
    have points := valid.points shape.line[r] (getElem_mem r.isLt)
    have vertex : ∀ k, k < 4 → ∃ point, shape.line[r][k]? = some point ∧
        msPointInPolygon point shape.line[i] = decide (ringEncloses shape i r) := by
      intro k small
      have bound : k < shape.line[r].length := by omega
      exact ⟨_, getElem?_eq_getElem bound, inside_vertex valid differ (getElem_mem bound)⟩
    obtain ⟨first, isFirst, result1⟩ := vertex 0 (by omega)
    obtain ⟨second, isSecond, result2⟩ := vertex 1 (by omega)
    have isRing : shape.line[(r : Nat)]? = some shape.line[r] := getElem?_eq_getElem r.isLt
    have isOther : shape.line[(i : Nat)]? = some shape.line[i] := getElem?_eq_getElem i.isLt
    simp only [isRing, isOther, isFirst, isSecond, result1, result2, bind_eq_bind, bind_some, if_true]
    cases decide (ringEncloses shape i r) <;> simp

/-- The number of the first rings that enclose ring `r`. -/
noncomputable def enclosersBelow (shape : ShapeObj ℝ) (r : Fin shape.line.length) (k : Nat) : Nat :=
  ((enclosers (ringEncloses shape) r).filter fun j => j.val < k).card

theorem enclosersBelow_succ (r i : Fin shape.line.length) :
    enclosersBelow shape r (i + 1) = enclosersBelow shape r i + if ringEncloses shape i r then 1 else 0 := by
  unfold enclosersBelow
  split
  · rename_i encloses
    have grown : (enclosers (ringEncloses shape) r).filter (fun j => j.val < i.val + 1) =
        insert i ((enclosers (ringEncloses shape) r).filter fun j => j.val < i.val) := by
      ext j
      simp only [Finset.mem_filter, Finset.mem_insert, mem_enclosers, Fin.ext_iff]
      constructor
      · rintro ⟨outer, below⟩
        rcases Nat.lt_succ_iff_lt_or_eq.mp below with less | same
        · exact .inr ⟨outer, less⟩
        · exact .inl same
      · rintro (same | ⟨outer, less⟩)
        · exact ⟨Fin.ext same ▸ encloses, by omega⟩
        · exact ⟨outer, by omega⟩
    rw [grown, Finset.card_insert_of_notMem (by simp)]
  · rename_i apart
    have same : (enclosers (ringEncloses shape) r).filter (fun j => j.val < i.val + 1) =
        (enclosers (ringEncloses shape) r).filter fun j => j.val < i.val := by
      apply Finset.filter_congr
      intro j outer
      have differ : j.val ≠ i.val := by
        intro equal
        exact apart (Fin.ext equal ▸ mem_enclosers.mp outer)
      omega
    rw [same, Nat.add_zero]

theorem msIsOuterRing_eq (valid : ValidRings shape) (r : Fin shape.line.length) :
    msIsOuterRing shape r.val = some (decide (Even (depth (ringEncloses shape) r))) := by
  have all : enclosersBelow shape r shape.line.length = depth (ringEncloses shape) r := by
    unfold enclosersBelow depth
    rw [Finset.filter_true_of_mem fun j _ => j.isLt]
  rw [← all]
  unfold msIsOuterRing
  split
  · rename_i single
    have none : enclosersBelow shape r shape.line.length = 0 := by
      rw [all, depth, Finset.card_eq_zero, Finset.eq_empty_iff_forall_notMem]
      intro j outer
      apply (mem_enclosers.mp outer).1
      exact Fin.ext (by omega)
    simp [none]
  · have bound : ¬ ((r.val : Int) < 0 ∨ (r.val : Int) ≥ shape.line.length) := by
      have := r.isLt
      omega
    rw [if_neg bound, Int.toNat_natCast]
    obtain ⟨status, run, isParity⟩ := forUp_invariant (outerRingStep shape r) 0 shape.line.length
      (fun k status => status = decide (Even (enclosersBelow shape r k))) (s := true) (by simp [enclosersBelow]) (by
        intro k status _ small holds
        rw [Nat.zero_add] at small
        refine ⟨_, outerRingStep_eq valid r ⟨k, small⟩ status, ?_⟩
        rw [enclosersBelow_succ r ⟨k, small⟩, holds]
        by_cases encloses : ringEncloses shape ⟨k, small⟩ r <;> simp [encloses, Nat.even_add_one, -Nat.not_even_iff_odd])
    rw [run, isParity, Nat.zero_add]

theorem msGetOuterList_eq (valid : ValidRings shape) : ∃ outerlist, msGetOuterList shape = some outerlist ∧
    ∀ i : Fin shape.line.length, outerlist[i.val]? = some (decide (Even (depth (ringEncloses shape) i))) := by
  obtain ⟨outerlist, got, entries⟩ :=
    @mapM_range _ shape.line.length (fun i => msIsOuterRing shape i) (fun i isOuter => msIsOuterRing shape i = some isOuter) (by
      intro i bound
      exact ⟨_, msIsOuterRing_eq valid ⟨i, bound⟩, msIsOuterRing_eq valid ⟨i, bound⟩⟩)
  refine ⟨outerlist, got, ?_⟩
  intro i
  obtain ⟨isOuter, here, isEntry⟩ := entries i.val i.isLt
  rw [here, ← msIsOuterRing_eq valid i, isEntry]

theorem innerRingEntry_eq (valid : ValidRings shape) {outerlist : List Bool} {isOuter : Bool} (r i : Fin shape.line.length)
    (entry : outerlist[i.val]? = some isOuter) (differ : isOuter = false → r ≠ i) :
    innerRingEntry shape r.val outerlist i.val = some (!isOuter && decide (ringEncloses shape r i)) := by
  unfold innerRingEntry
  cases isOuter with
  | true => simp [entry]
  | false =>
    have points := valid.points shape.line[i] (getElem_mem i.isLt)
    have vertex : ∀ k, k < 4 → ∃ point, shape.line[i][k]? = some point ∧
        msPointInPolygon point shape.line[r] = decide (ringEncloses shape r i) := by
      intro k small
      have bound : k < shape.line[i].length := by omega
      exact ⟨_, getElem?_eq_getElem bound, inside_vertex valid (differ rfl) (getElem_mem bound)⟩
    obtain ⟨first, isFirst, result1⟩ := vertex 0 (by omega)
    obtain ⟨second, isSecond, result2⟩ := vertex 1 (by omega)
    have isRing : shape.line[(i : Nat)]? = some shape.line[i] := getElem?_eq_getElem i.isLt
    have isOther : shape.line[(r : Nat)]? = some shape.line[r] := getElem?_eq_getElem r.isLt
    simp only [entry, isRing, isOther, isFirst, isSecond, result1, result2, bind_eq_bind, bind_some]
    cases decide (ringEncloses shape r i) <;> simp

/-- Ring `i` is in the inner list of ring `r`. -/
def IsInnerOf (shape : ShapeObj ℝ) (outerlist : List Bool) (r i : Nat) : Prop :=
  ∃ list, msGetInnerList shape r outerlist = some (some list) ∧ list[i]? = some true

theorem isInnerOf_iff (valid : ValidRings shape) {outerlist : List Bool}
    (outers : ∀ i : Fin shape.line.length, outerlist[i.val]? = some (decide (Even (depth (ringEncloses shape) i))))
    {r i : Fin shape.line.length} (outer : Even (depth (ringEncloses shape) r)) (inner : ¬ Even (depth (ringEncloses shape) i)) :
    IsInnerOf shape outerlist r.val i.val ↔ ringEncloses shape r i := by
  have bound : ¬ ((r.val : Int) < 0 ∨ (r.val : Int) ≥ shape.line.length) := by
    omega
  obtain ⟨list, got, entries⟩ := @mapM_range _ shape.line.length (innerRingEntry shape r.val outerlist)
    (fun i isInner => innerRingEntry shape r.val outerlist i = some isInner) (by
      intro i small
      have entry := innerRingEntry_eq valid r ⟨i, small⟩ (outers ⟨i, small⟩) (by
        intro odd same
        rw [← same, decide_eq_false_iff_not] at odd
        exact odd outer)
      exact ⟨_, entry, entry⟩)
  have entry := innerRingEntry_eq valid r i (outers i) (by
    rintro - rfl
    exact inner outer)
  obtain ⟨isInner, here, isEntry⟩ := entries i.val i.isLt
  rw [entry, decide_eq_false inner, Bool.not_false, Bool.true_and, Option.some.injEq] at isEntry
  unfold IsInnerOf msGetInnerList
  rw [if_neg bound, Int.toNat_natCast, got]
  constructor
  · rintro ⟨other, same, member⟩
    obtain rfl := Option.some.inj (Option.some.inj same)
    rw [here, Option.some.injEq] at member
    exact decide_eq_true_iff.mp (isEntry.trans member)
  · intro encloses
    rw [← isEntry, decide_eq_true encloses] at here
    exact ⟨list, rfl, here⟩

def RingsClassified (shape : ShapeObj ℝ) : Prop :=
  ∃ outerlist, msGetOuterList shape = some outerlist ∧
    (∀ i : Fin shape.line.length, outerlist[i.val]? = some (decide (Even (depth (ringEncloses shape) i)))) ∧
    ∀ i : Fin shape.line.length, outerlist[i.val]? = some false →
      ∃ r, IsSmallest (ringEncloses shape) r i ∧ outerlist[r.val]? = some true ∧ IsInnerOf shape outerlist r.val i.val ∧
        ∀ other : Fin shape.line.length, outerlist[other.val]? = some true → IsInnerOf shape outerlist other.val i.val → other = r

theorem ringsClassified_unique (valid : ValidRings shape) : RingsClassified shape ↔
    ∀ i, ¬ Even (depth (ringEncloses shape) i) → ∃ r, IsSmallest (ringEncloses shape) r i ∧
      Even (depth (ringEncloses shape) r) ∧ ∀ s, ringEncloses shape s i → Even (depth (ringEncloses shape) s) → s = r := by
  obtain ⟨outerlist, got, outers⟩ := msGetOuterList_eq valid
  have isOuter : ∀ i : Fin shape.line.length, outerlist[i.val]? = some true ↔ Even (depth (ringEncloses shape) i) := by
    intro i
    rw [outers i, Option.some.injEq, decide_eq_true_iff]
  have isInner : ∀ i : Fin shape.line.length, outerlist[i.val]? = some false ↔ ¬ Even (depth (ringEncloses shape) i) := by
    intro i
    rw [outers i, Option.some.injEq, decide_eq_false_iff_not]
  constructor
  · rintro ⟨list, same, -, holes⟩ i odd
    obtain rfl := Option.some.inj (got.symm.trans same)
    obtain ⟨r, smallest, outer, _, only⟩ := holes i ((isInner i).mpr odd)
    refine ⟨r, smallest, (isOuter r).mp outer, ?_⟩
    intro other encloses even
    exact only other ((isOuter other).mpr even) ((isInnerOf_iff valid outers even odd).mpr encloses)
  · intro unique
    refine ⟨outerlist, got, outers, ?_⟩
    intro i inner
    have odd := (isInner i).mp inner
    obtain ⟨r, smallest, even, only⟩ := unique i odd
    refine ⟨r, smallest, (isOuter r).mpr even, (isInnerOf_iff valid outers even odd).mpr smallest.1, ?_⟩
    intro other outer holds
    have evenOther := (isOuter other).mp outer
    exact only other ((isInnerOf_iff valid outers evenOther odd).mp holds) evenOther

/-- The lists are right just when no ring is enclosed by three others. -/
theorem ringsClassified_iff (valid : ValidRings shape) :
    RingsClassified shape ↔ ∀ i, depth (ringEncloses shape) i < 3 :=
  (ringsClassified_unique valid).trans (evenEncloser_unique_iff (rings_nested valid))

def cornerPoint (x y : ℝ) : PointObj ℝ :=
  ⟨x, y, 0, 0⟩

def square (k : ℝ) : LineObj ℝ :=
  [cornerPoint (-k) (-k), cornerPoint k (-k), cornerPoint k k, cornerPoint (-k) k, cornerPoint (-k) (-k)]

def squares (sizes : List ℝ) : ShapeObj ℝ :=
  ⟨sizes.map square, ⟨0, 0, 0, 0⟩, .MS_SHAPE_POLYGON, 0⟩

theorem square_inside {k x y : ℝ} (within : |x| < k) (height : |y| < k) : msPointInPolygon (cornerPoint x y) (square k) = true := by
  obtain ⟨left, right⟩ := abs_lt.mp within
  obtain ⟨low, high⟩ := abs_lt.mp height
  simp [msPointInPolygon, square, cornerPoint, passEdges, low.le, high, right, not_lt.mpr low.le, not_le.mpr high, not_lt.mpr left.le]

theorem edge_boundary {k : ℝ} {a b p : Plane} (on : p ∈ segment ℝ a b) (cornerA : |a.1| = k ∧ |a.2| = k)
    (cornerB : |b.1| = k ∧ |b.2| = k) (straight : a.1 = b.1 ∨ a.2 = b.2) : max |p.1| |p.2| = k := by
  obtain ⟨across, along⟩ := Prod.segment_subset a b on
  rw [segment_eq_uIcc] at across along
  have bound : ∀ {x y z : ℝ}, z ∈ Set.uIcc x y → |x| = k → |y| = k → |z| ≤ k := by
    intro x y z between endX endY
    have := abs_le.mp endX.le
    have := abs_le.mp endY.le
    rw [abs_le]
    rcases Set.mem_uIcc.mp between with ⟨_, _⟩ | ⟨_, _⟩ <;> constructor <;> linarith
  rcases straight with upright | level
  · rw [upright, Set.uIcc_self, Set.mem_singleton_iff] at across
    rw [across, cornerB.1]
    exact max_eq_left (bound along cornerA.2 cornerB.2)
  · rw [level, Set.uIcc_self, Set.mem_singleton_iff] at along
    rw [along, cornerB.2]
    exact max_eq_right (bound across cornerA.1 cornerB.1)

theorem square_boundary {k : ℝ} {p : Plane} (positive : 0 < k) (on : p ∈ boundary (ringOf (square k))) : max |p.1| |p.2| = k := by
  obtain ⟨last, isLast, onPath⟩ := on
  have size : |k| = k := abs_of_pos positive
  have opposite : |-k| = k := (abs_neg k).trans size
  obtain rfl : (-k, -k) = last := Option.some.inj isLast
  rcases onPath with edge | edge | edge | edge | edge | edge
  · exact edge_boundary edge ⟨opposite, opposite⟩ ⟨opposite, opposite⟩ (.inl rfl)
  · exact edge_boundary edge ⟨size, opposite⟩ ⟨opposite, opposite⟩ (.inr rfl)
  · exact edge_boundary edge ⟨size, size⟩ ⟨size, opposite⟩ (.inl rfl)
  · exact edge_boundary edge ⟨opposite, size⟩ ⟨size, size⟩ (.inr rfl)
  · exact edge_boundary edge ⟨opposite, opposite⟩ ⟨opposite, size⟩ (.inl rfl)
  · cases edge

theorem squares_valid {sizes : List ℝ} (positive : ∀ k ∈ sizes, 0 < k) (distinct : sizes.Nodup) : ValidRings (squares sizes) := by
  constructor
  · intro ring member
    obtain ⟨k, _, rfl⟩ := List.mem_map.mp member
    rfl
  · intro ring member
    obtain ⟨k, _, rfl⟩ := List.mem_map.mp member
    exact (by decide : 4 ≤ 5)
  · intro i j differ
    have size : (squares sizes).line.length = sizes.length := length_map ..
    have boundI : i.val < sizes.length := size ▸ i.isLt
    have boundJ : j.val < sizes.length := size ▸ j.isLt
    have ringI : (squares sizes).line[i] = square sizes[i.val] := getElem_map ..
    have ringJ : (squares sizes).line[j] = square sizes[j.val] := getElem_map ..
    rw [ringI, ringJ]
    intro p onI onJ
    have sizeI := square_boundary (positive _ (getElem_mem boundI)) onI
    have sizeJ := square_boundary (positive _ (getElem_mem boundJ)) onJ
    exact differ (Fin.ext ((distinct.getElem_inj_iff).mp (sizeI.symm.trans sizeJ)))

theorem squares_encloses {sizes : List ℝ} (positive : ∀ k ∈ sizes, 0 < k) (j i : Fin (squares sizes).line.length)
    {outer inner : ℝ} (isOuter : sizes[j.val]? = some outer) (isInner : sizes[i.val]? = some inner) (larger : inner < outer) :
    ringEncloses (squares sizes) j i := by
  have ringJ : (squares sizes).line[j] = square outer := by
    rw [Fin.getElem_fin, getElem_eq_iff]
    simp [squares, isOuter]
  have ringI : (squares sizes).line[i] = square inner := by
    rw [Fin.getElem_fin, getElem_eq_iff]
    simp [squares, isInner]
  constructor
  · rintro rfl
    rw [isOuter, Option.some.injEq] at isInner
    exact larger.ne isInner.symm
  · rw [ringJ, ringI]
    have size : |inner| < outer := (abs_of_pos (positive inner (mem_of_getElem? isInner))).symm ▸ larger
    have opposite : |-inner| < outer := (abs_neg inner).symm ▸ size
    intro point corner
    simp only [square, mem_cons, not_mem_nil, or_false] at corner
    rcases corner with rfl | rfl | rfl | rfl | rfl
    · exact square_inside opposite opposite
    · exact square_inside size opposite
    · exact square_inside size size
    · exact square_inside opposite size
    · exact square_inside opposite opposite

theorem ringsClassified_iff_hole : RingsClassified (squares [2, 1]) := by
  have valid : ValidRings (squares [2, 1]) := squares_valid (by norm_num) (by norm_num)
  apply (ringsClassified_iff valid).mpr
  intro i
  have := Finset.card_le_univ (enclosers (ringEncloses (squares [2, 1])) i)
  rw [Fintype.card_fin] at this
  exact Nat.lt_succ_of_le this

/-- Four squares in one another: the innermost one is in the lists of the first and of the third. -/
theorem fourSquares_misclassified : ValidRings (squares [4, 3, 2, 1]) ∧ ¬ RingsClassified (squares [4, 3, 2, 1]) := by
  have positive : ∀ k ∈ [(4 : ℝ), 3, 2, 1], 0 < k := by norm_num
  have valid : ValidRings (squares [4, 3, 2, 1]) := squares_valid positive (by norm_num)
  refine ⟨valid, ?_⟩
  rw [ringsClassified_unique valid, evenEncloser_unique_iff (rings_nested valid)]
  intro shallow
  have nested := rings_nested valid
  have first := depth_lt nested (squares_encloses positive ⟨0, by decide⟩ ⟨1, by decide⟩ rfl rfl (by norm_num))
  have second := depth_lt nested (squares_encloses positive ⟨1, by decide⟩ ⟨2, by decide⟩ rfl rfl (by norm_num))
  have third := depth_lt nested (squares_encloses positive ⟨2, by decide⟩ ⟨3, by decide⟩ rfl rfl (by norm_num))
  have := shallow ⟨3, by decide⟩
  omega

end MapServer
