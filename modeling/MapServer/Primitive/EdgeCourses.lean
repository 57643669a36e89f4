import MapServer.Primitive.ClippedEdges

namespace MapServer
open Lib.EvenOdd Lib.Segments

section Axis
variable {K : Type} [Field K] [LinearOrder K] [IsStrictOrderedRing K] {delta v1 v2 low high : K}

/-- A coordinate that advances by `delta` from `v1` passes `low` at `tin` and `high` at `tout`, as seen from the ends. -/
structure Advances (delta v1 v2 low high tin tout : K) : Prop where
  startIn : 0 < tin ↔ v1 < low
  endIn : 1 < tin ↔ v2 < low
  startOut : tout < 0 ↔ high < v1
  endOut : tout < 1 ↔ high < v2
  order : tin < tout
  before : ∀ t, t ≤ tin → v1 + t * delta ≤ low
  after : ∀ t, tout ≤ t → high ≤ v1 + t * delta
  within : ∀ t, tin ≤ t → t ≤ tout → low ≤ v1 + t * delta ∧ v1 + t * delta ≤ high

theorem advances_of_pos (positive : 0 < delta) (room : low < high) (endIn : delta < low - v1 ↔ v2 < low)
    (endOut : high - v1 < delta ↔ high < v2) :
    Advances delta v1 v2 low high ((low - v1) / delta) ((high - v1) / delta) where
  startIn := by rw [lt_div_iff₀ positive, zero_mul, sub_pos]
  endIn := by rw [lt_div_iff₀ positive, one_mul, endIn]
  startOut := by rw [div_lt_iff₀ positive, zero_mul, sub_neg]
  endOut := by rw [div_lt_iff₀ positive, one_mul, endOut]
  order := by
    rw [div_lt_div_iff_of_pos_right positive]
    linarith
  before := by
    intro t early
    rw [le_div_iff₀ positive] at early
    linarith
  after := by
    intro t late
    rw [div_le_iff₀ positive] at late
    linarith
  within := by
    intro t late early
    rw [div_le_iff₀ positive] at late
    rw [le_div_iff₀ positive] at early
    exact ⟨by linarith, by linarith⟩

theorem nearzero_pos : (0 : K) < NEARZERO := by
  unfold NEARZERO
  positivity

theorem nearzero_lt_one : (NEARZERO : K) < 1 := by
  unfold NEARZERO
  rw [div_lt_one (by positivity)]
  norm_num

def Grid (v : K) : Prop := ∃ n : ℤ, v = n

theorem grid_lt {v w : K} (gridV : Grid v) (gridW : Grid w) (less : v < w) : v + 1 ≤ w := by
  obtain ⟨m, rfl⟩ := gridV
  obtain ⟨n, rfl⟩ := gridW
  exact_mod_cast Int.add_one_le_iff.mpr (Int.cast_lt.mp less)

omit [IsStrictOrderedRing K] in
theorem bumped_cases (v1 v2 low : K) :
    (bumped (v2 - v1) v1 low = v2 - v1 ∧ v2 - v1 ≠ 0) ∨
      v2 = v1 ∧ (v1 ≤ low ∧ bumped (v2 - v1) v1 low = NEARZERO ∨ low < v1 ∧ bumped (v2 - v1) v1 low = -NEARZERO) := by
  unfold bumped
  by_cases same : v2 - v1 = 0
  · rw [if_pos same]
    refine .inr ⟨sub_eq_zero.mp same, ?_⟩
    by_cases above : v1 > low
    · exact .inr ⟨above, if_pos above⟩
    · exact .inl ⟨not_lt.mp above, if_neg above⟩
  · rw [if_neg same]
    exact .inl ⟨rfl, same⟩

theorem bumped_ne_zero (v1 v2 low : K) : bumped (v2 - v1) v1 low ≠ 0 := by
  rcases bumped_cases v1 v2 low with ⟨same, differ⟩ | ⟨-, ⟨-, up⟩ | ⟨-, down⟩⟩
  · rwa [same]
  · rw [up]
    exact nearzero_pos.ne'
  · rw [down]
    exact (neg_lt_zero.mpr nearzero_pos).ne

theorem bumped_advances (grid1 : Grid v1) (gridLow : Grid low) (gridHigh : Grid high) (room : low < high)
    (isDelta : delta = bumped (v2 - v1) v1 low) :
    (0 < delta ∧ Advances delta v1 v2 low high ((low - v1) / delta) ((high - v1) / delta)) ∨
      delta < 0 ∧ Advances (-delta) (-v1) (-v2) (-high) (-low) ((high - v1) / delta) ((low - v1) / delta) := by
  have mirrored (edge : K) : (edge - v1) / delta = (-edge - -v1) / -delta := by
    rw [← neg_div_neg_eq]
    congr 1
    ring
  rcases bumped_cases v1 v2 low with ⟨same, differ⟩ | ⟨rfl, ⟨below, up⟩ | ⟨above, down⟩⟩
  · rw [← isDelta] at same
    rcases lt_or_gt_of_ne differ with falls | rises
    · refine .inr ⟨by rwa [same], ?_⟩
      rw [mirrored, mirrored]
      apply advances_of_pos
      · linarith
      · linarith
      · rw [same]
        constructor <;> intro less <;> linarith
      · rw [same]
        constructor <;> intro less <;> linarith
    · refine .inl ⟨by rwa [same], advances_of_pos (by rwa [same]) room ?_ ?_⟩
      · rw [same]
        constructor <;> intro less <;> linarith
      · rw [same]
        constructor <;> intro less <;> linarith
  · rw [← isDelta] at up
    have small := nearzero_lt_one (K := K)
    have positive := nearzero_pos (K := K)
    refine .inl ⟨by rwa [up], advances_of_pos (by rwa [up]) room ?_ ?_⟩
    · rw [up]
      constructor <;> intro less
      · linarith
      · have := grid_lt grid1 gridLow less
        linarith
    · have := grid_lt grid1 gridHigh (below.trans_lt room)
      rw [up]
      constructor <;> intro less <;> linarith
  · rw [← isDelta] at down
    have small := nearzero_lt_one (K := K)
    have positive := nearzero_pos (K := K)
    refine .inr ⟨by rw [down]; linarith, ?_⟩
    rw [mirrored, mirrored]
    apply advances_of_pos
    · linarith
    · linarith
    · rw [down]
      constructor <;> intro less
      · linarith
      · have := grid_lt gridHigh grid1 (neg_lt_neg_iff.mp less)
        linarith
    · have := grid_lt gridLow grid1 above
      rw [down]
      constructor <;> intro less <;> linarith

theorem bumped_lt {v : K} (grid1 : Grid v1) (grid : Grid v) (first : v1 < v) (second : v2 < v) (low : K) :
    v1 + bumped (v2 - v1) v1 low < v := by
  have apart := grid_lt grid1 grid first
  have small := nearzero_lt_one (K := K)
  have positive := nearzero_pos (K := K)
  rcases bumped_cases v1 v2 low with ⟨same, -⟩ | ⟨-, ⟨-, up⟩ | ⟨-, down⟩⟩
  · rw [same]
    linarith
  · rw [up]
    linarith
  · rw [down]
    linarith

theorem lt_bumped {v : K} (grid1 : Grid v1) (grid : Grid v) (first : v < v1) (second : v < v2) (low : K) :
    v < v1 + bumped (v2 - v1) v1 low := by
  have apart := grid_lt grid grid1 first
  have small := nearzero_lt_one (K := K)
  have positive := nearzero_pos (K := K)
  rcases bumped_cases v1 v2 low with ⟨same, -⟩ | ⟨-, ⟨-, up⟩ | ⟨-, down⟩⟩
  · rw [same]
    linarith
  · rw [up]
    linarith
  · rw [down]
    linarith

end Axis

section Edges
variable {K : Type} [Field K] [LinearOrder K] {rect : RectObj K} {a b q : K × K}

def edgeLine (rect : RectObj K) (a b : K × K) (t : K) : K × K :=
  (a.1 + t * bumped (b.1 - a.1) a.1 rect.minx, a.2 + t * bumped (b.2 - a.2) a.2 rect.miny)

theorem edgeLine_zero (rect : RectObj K) (a b : K × K) : edgeLine rect a b 0 = a := by simp [edgeLine]

theorem edgeLine_along (rect : RectObj K) (a b : K × K) (t : K) : edgeLine rect a b t = along a (edgeLine rect a b 1) t := by
  simp [edgeLine, along]

def GridPoint (p : K × K) : Prop := Grid p.1 ∧ Grid p.2

variable [IsStrictOrderedRing K]

theorem upright_side (apart : q ∉ segment K a b) (upright : b.1 = a.1) : ∃ side, a ∈ onSide q side ∧ b ∈ onSide q side := by
  by_contra none
  have notBoth (side : Side) (first : a ∈ onSide q side) (second : b ∈ onSide q side) : False := none ⟨side, first, second⟩
  have same : a.1 = q.1 := by
    apply le_antisymm
    · exact not_lt.mp fun right => notBoth .right right (right.trans_eq upright.symm)
    · exact not_lt.mp fun left => notBoth .left left (upright.trans_lt left)
  have between : q.2 ∈ segment K a.2 b.2 := by
    rw [segment_eq_uIcc, Set.mem_uIcc]
    rcases le_total a.2 b.2 with rises | falls
    · refine .inl ⟨?_, ?_⟩
      · exact not_lt.mp fun above => notBoth .above above (above.trans_le rises)
      · exact not_lt.mp fun below => notBoth .below (rises.trans_lt below) below
    · refine .inr ⟨?_, ?_⟩
      · exact not_lt.mp fun above => notBoth .above (above.trans_le falls) above
      · exact not_lt.mp fun below => notBoth .below below (falls.trans_lt below)
  have isB : (a.1, b.2) = b := Prod.ext upright.symm rfl
  have isQ : (a.1, q.2) = q := Prod.ext same rfl
  have meets := Set.mem_image_of_mem (fun y => (a.1, y)) between
  rw [Prod.image_mk_segment_right, isB, isQ] at meets
  exact apart meets

theorem level_side (apart : q ∉ segment K a b) (level : b.2 = a.2) : ∃ side, a ∈ onSide q side ∧ b ∈ onSide q side := by
  have apart : q.swap ∉ segment K a.swap b.swap := by
    rw [mem_segment_iff] at apart ⊢
    rintro ⟨t, low, high, meets⟩
    exact apart ⟨t, low, high, Prod.swap_injective meets⟩
  obtain ⟨side, first, second⟩ := upright_side apart level
  cases side with
  | left => exact ⟨.below, first, second⟩
  | right => exact ⟨.above, first, second⟩
  | below => exact ⟨.left, first, second⟩
  | above => exact ⟨.right, first, second⟩

theorem edgeLine_side (gridA : GridPoint a) (gridQ : GridPoint q) {side : Side} (first : a ∈ onSide q side)
    (second : b ∈ onSide q side) : edgeLine rect a b 1 ∈ onSide q side := by
  rw [edgeLine, one_mul, one_mul]
  cases side with
  | left => exact bumped_lt gridA.1 gridQ.1 first second _
  | right => exact lt_bumped gridA.1 gridQ.1 first second _
  | below => exact bumped_lt gridA.2 gridQ.2 first second _
  | above => exact lt_bumped gridA.2 gridQ.2 first second _

theorem edgeLine_end (rect : RectObj K) (gridA : GridPoint a) (gridQ : GridPoint q) (apart : q ∉ segment K a b) :
    edgeLine rect a b 1 = b ∨ ∃ side, a ∈ onSide q side ∧ b ∈ onSide q side ∧ edgeLine rect a b 1 ∈ onSide q side := by
  have seen (oneSide : ∃ side, a ∈ onSide q side ∧ b ∈ onSide q side) :
      ∃ side, a ∈ onSide q side ∧ b ∈ onSide q side ∧ edgeLine rect a b 1 ∈ onSide q side :=
    oneSide.imp fun side ends => ⟨ends.1, ends.2, edgeLine_side gridA gridQ ends.1 ends.2⟩
  by_cases upright : b.1 - a.1 = 0
  · exact .inr (seen (upright_side apart (sub_eq_zero.mp upright)))
  by_cases level : b.2 - a.2 = 0
  · exact .inr (seen (level_side apart (sub_eq_zero.mp level)))
  · left
    rw [edgeLine, bumped, bumped, if_neg upright, if_neg level, one_mul, one_mul, add_sub_cancel, add_sub_cancel]

theorem edgeLine_bends (rect : RectObj K) (gridA : GridPoint a) (gridQ : GridPoint q) (apart : q ∉ segment K a b) :
    Bends q b (edgeLine rect a b) := by
  intro s t low order high
  have line (u : K) := edgeLine_along rect a b u
  rcases edgeLine_end rect gridA gridQ apart with same | ⟨side, first, second, last⟩
  · rw [line s, line t, same]
    rcases (order.trans high).eq_or_lt with rfl | less
    · rw [le_antisymm order high, crosses_self, Bool.false_xor]
    · have room : 0 < 1 - s := sub_pos.mpr less
      have part := crosses_along (a := along a b s) (b := b) (p := q) (t := (t - s) / (1 - s))
        (div_nonneg (sub_nonneg.mpr order) room.le) ((div_le_one room).mpr (by linarith))
      have meets : along (along a b s) b ((t - s) / (1 - s)) = along a b t := by
        have whole := along_along a b s 1 ((t - s) / (1 - s))
        rwa [along_one, div_mul_cancel₀ _ room.ne', add_sub_cancel] at whole
      rwa [meets] at part
  · have onLine (u : K) (low : 0 ≤ u) (high : u ≤ 1) : edgeLine rect a b u ∈ onSide q side := by
      rw [line]
      exact along_side first last low high
    exact crosses_triangle (onLine s low (order.trans high)) (onLine t (low.trans order) high) second

structure Facing (rect : RectObj K) (coord : K × K → K) (low high : K) (lowSide highSide : Side) : Prop where
  lowOuter : ∀ p, p ∈ outer rect lowSide ↔ coord p ≤ low
  lowBeyond : ∀ p, p ∈ beyond rect lowSide ↔ coord p < low
  highOuter : ∀ p, p ∈ outer rect highSide ↔ high ≤ coord p
  highBeyond : ∀ p, p ∈ beyond rect highSide ↔ high < coord p

omit [Field K] [IsStrictOrderedRing K] in
theorem facing_across (rect : RectObj K) : Facing rect Prod.fst rect.minx rect.maxx .left .right :=
  ⟨fun _ => .rfl, fun _ => .rfl, fun _ => .rfl, fun _ => .rfl⟩

omit [Field K] [IsStrictOrderedRing K] in
theorem facing_up (rect : RectObj K) : Facing rect Prod.snd rect.miny rect.maxy .below .above :=
  ⟨fun _ => .rfl, fun _ => .rfl, fun _ => .rfl, fun _ => .rfl⟩

variable {coord : K × K → K} {low high delta : K} {lowSide highSide : Side} {P : K → K × K}

theorem Facing.passes (facing : Facing rect coord low high lowSide highSide) (gridA : Grid (coord a)) (gridLow : Grid low)
    (gridHigh : Grid high) (room : low < high) (isDelta : delta = bumped (coord b - coord a) (coord a) low)
    (line : ∀ t, coord (P t) = coord a + t * delta) :
    ∃ comesIn goesOut, (∀ side, side = lowSide ∨ side = highSide → side = comesIn ∨ side = goesOut) ∧
      Passes rect a b P comesIn goesOut ((inSide delta low high - coord a) / delta) ((outSide delta low high - coord a) / delta) ∧
      (∀ p, coord p = inSide delta low high → p ∈ outer rect comesIn) ∧
      ∀ p, coord p = outSide delta low high → p ∈ outer rect goesOut := by
  rcases bumped_advances gridA gridLow gridHigh room isDelta with ⟨rises, advances⟩ | ⟨falls, advances⟩
  · rw [inSide, outSide, if_pos rises, if_pos rises]
    refine ⟨lowSide, highSide, fun _ => id, ?_, ?_, ?_⟩
    · refine ⟨?_, ?_, ?_, ?_, advances.order, ?_, ?_, ?_⟩
      · rw [advances.startIn, facing.lowBeyond]
      · rw [advances.endIn, facing.lowBeyond]
      · rw [advances.startOut, facing.highBeyond]
      · rw [advances.endOut, facing.highBeyond]
      · intro t early
        rw [facing.lowOuter, line]
        exact advances.before t early
      · intro t late
        rw [facing.highOuter, line]
        exact advances.after t late
      · intro t late early
        rw [facing.lowBeyond, facing.highBeyond, line, not_lt, not_lt]
        exact advances.within t late early
    · intro p same
      exact (facing.lowOuter p).mpr same.le
    · intro p same
      exact (facing.highOuter p).mpr same.ge
  · rw [inSide, outSide, if_neg falls.not_gt, if_neg falls.not_gt]
    have mirrored (t : K) : -coord a + t * -delta = -coord (P t) := by
      rw [line]
      ring
    refine ⟨highSide, lowSide, fun _ => Or.symm, ?_, ?_, ?_⟩
    · refine ⟨?_, ?_, ?_, ?_, advances.order, ?_, ?_, ?_⟩
      · rw [advances.startIn, facing.highBeyond, neg_lt_neg_iff]
      · rw [advances.endIn, facing.highBeyond, neg_lt_neg_iff]
      · rw [advances.startOut, facing.lowBeyond, neg_lt_neg_iff]
      · rw [advances.endOut, facing.lowBeyond, neg_lt_neg_iff]
      · intro t early
        rw [facing.highOuter, ← neg_le_neg_iff, ← mirrored]
        exact advances.before t early
      · intro t late
        rw [facing.lowOuter, ← neg_le_neg_iff, ← mirrored]
        exact advances.after t late
      · intro t late early
        have both := advances.within t late early
        rw [mirrored, neg_le_neg_iff, neg_le_neg_iff] at both
        rw [facing.lowBeyond, facing.highBeyond, not_lt, not_lt]
        exact both
    · intro p same
      exact (facing.highOuter p).mpr same.ge
    · intro p same
      exact (facing.lowOuter p).mpr same.le

structure GridRect (rect : RectObj K) : Prop where
  minx : Grid rect.minx
  maxx : Grid rect.maxx
  miny : Grid rect.miny
  maxy : Grid rect.maxy
  across : rect.minx < rect.maxx
  up : rect.miny < rect.maxy

omit [IsStrictOrderedRing K] in
theorem side_mem (order : low ≤ high) (delta : K) :
    (low ≤ inSide delta low high ∧ inSide delta low high ≤ high) ∧ low ≤ outSide delta low high ∧ outSide delta low high ≤ high := by
  unfold inSide outSide
  split_ifs <;> simp [order]

omit [IsStrictOrderedRing K] in
theorem clipPolygonEdge_points {deltax deltay xin xout yin yout tinx tiny toutx touty : K}
    (isDeltax : bumped (b.1 - a.1) a.1 rect.minx = deltax) (isDeltay : bumped (b.2 - a.2) a.2 rect.miny = deltay)
    (isXin : inSide deltax rect.minx rect.maxx = xin) (isXout : outSide deltax rect.minx rect.maxx = xout)
    (isYin : inSide deltay rect.miny rect.maxy = yin) (isYout : outSide deltay rect.miny rect.maxy = yout)
    (isTinx : (xin - a.1) / deltax = tinx) (isTiny : (yin - a.2) / deltay = tiny)
    (isToutx : (xout - a.1) / deltax = toutx) (isTouty : (yout - a.2) / deltay = touty) :
    clipPolygonEdge rect a b =
      edgePoints (if tinx < tiny then tinx else tiny) (if tinx < tiny then tiny else tinx)
        (if toutx < touty then toutx else touty) (xin, yin)
        (if tinx > tiny then (xin, a.2 + tinx * deltay) else (a.1 + tiny * deltax, yin))
        (if toutx < touty then (xout, a.2 + toutx * deltay) else (a.1 + touty * deltax, yout)) b
        (if tinx > tiny then (xin, yout) else (xout, yin)) := by
  simp only [clipPolygonEdge, isDeltax, isDeltay, isXin, isXout, isYin, isYout, isTinx, isTiny, isToutx, isTouty, edgePoints,
    edgeRest]
  generalize (if tinx < tiny then tinx else tiny) = tin1, (if tinx < tiny then tiny else tinx) = tin2
  generalize (if toutx < touty then toutx else touty) = tout
  generalize (if 0 < tin1 then [(xin, yin)] else []) = corner
  generalize (if tinx > tiny then (xin, yout) else (xout, yin)) = turn
  split_ifs <;> simp only [List.append_nil, List.nil_append, List.append_assoc]

theorem clipPolygonEdge_course (gridA : GridPoint a) (grid : GridRect rect) :
    ∃ in1 out1 in2 out2 tin1 tout1 tin2 tout2 tout corner turn,
      Course rect a b (edgeLine rect a b) in1 out1 in2 out2 tin1 tout1 tin2 tout2 corner turn ∧
        (tout ≤ tout1 ∧ tout ≤ tout2 ∧ (tout = tout1 ∨ tout = tout2)) ∧
        clipPolygonEdge rect a b =
          edgePoints tin1 tin2 tout corner (edgeLine rect a b tin2) (edgeLine rect a b tout) b turn := by
  generalize isDeltax : bumped (b.1 - a.1) a.1 rect.minx = deltax
  generalize isDeltay : bumped (b.2 - a.2) a.2 rect.miny = deltay
  have movesx : deltax ≠ 0 := isDeltax ▸ bumped_ne_zero a.1 b.1 rect.minx
  have movesy : deltay ≠ 0 := isDeltay ▸ bumped_ne_zero a.2 b.2 rect.miny
  have linex (t : K) : (edgeLine rect a b t).1 = a.1 + t * deltax := by rw [edgeLine, isDeltax]
  have liney (t : K) : (edgeLine rect a b t).2 = a.2 + t * deltay := by rw [edgeLine, isDeltay]
  obtain ⟨inX, outX, sidesX, passesX, isInX, isOutX⟩ :=
    (facing_across rect).passes gridA.1 grid.minx grid.maxx grid.across isDeltax.symm linex
  obtain ⟨inY, outY, sidesY, passesY, isInY, isOutY⟩ :=
    (facing_up rect).passes gridA.2 grid.miny grid.maxy grid.up isDeltay.symm liney
  obtain ⟨memXin, memXout⟩ := side_mem grid.across.le deltax
  obtain ⟨memYin, memYout⟩ := side_mem grid.up.le deltay
  generalize isXin : inSide deltax rect.minx rect.maxx = xin at *
  generalize isXout : outSide deltax rect.minx rect.maxx = xout at *
  generalize isYin : inSide deltay rect.miny rect.maxy = yin at *
  generalize isYout : outSide deltay rect.miny rect.maxy = yout at *
  generalize isTinx : (xin - a.1) / deltax = tinx at *
  generalize isTiny : (yin - a.2) / deltay = tiny at *
  generalize isToutx : (xout - a.1) / deltax = toutx at *
  generalize isTouty : (yout - a.2) / deltay = touty at *
  rw [clipPolygonEdge_points isDeltax isDeltay isXin isXout isYin isYout isTinx isTiny isToutx isTouty]
  -- Where the line meets each of the four sides
  have atTinx : (xin, a.2 + tinx * deltay) = edgeLine rect a b tinx := by
    refine Prod.ext ?_ (liney tinx).symm
    rw [linex, ← isTinx, div_mul_cancel₀ _ movesx, add_sub_cancel]
  have atTiny : (a.1 + tiny * deltax, yin) = edgeLine rect a b tiny := by
    refine Prod.ext (linex tiny).symm ?_
    rw [liney, ← isTiny, div_mul_cancel₀ _ movesy, add_sub_cancel]
  have atToutx : (xout, a.2 + toutx * deltay) = edgeLine rect a b toutx := by
    refine Prod.ext ?_ (liney toutx).symm
    rw [linex, ← isToutx, div_mul_cancel₀ _ movesx, add_sub_cancel]
  have atTouty : (a.1 + touty * deltax, yout) = edgeLine rect a b touty := by
    refine Prod.ext (linex touty).symm ?_
    rw [liney, ← isTouty, div_mul_cancel₀ _ movesy, add_sub_cancel]
  have isExit : (if toutx < touty then (xout, a.2 + toutx * deltay) else (a.1 + touty * deltax, yout)) =
      edgeLine rect a b (if toutx < touty then toutx else touty) := by
    rw [atToutx, atTouty, apply_ite (edgeLine rect a b)]
  have least : (if toutx < touty then toutx else touty) ≤ toutx ∧ (if toutx < touty then toutx else touty) ≤ touty ∧
      ((if toutx < touty then toutx else touty) = toutx ∨ (if toutx < touty then toutx else touty) = touty) := by
    split
    · rename_i less
      exact ⟨le_rfl, less.le, .inl rfl⟩
    · rename_i notLess
      exact ⟨not_lt.mp notLess, le_rfl, .inr rfl⟩
  rw [isExit, atTinx, atTiny]
  generalize (if toutx < touty then toutx else touty) = tout at *
  have start := edgeLine_zero rect a b
  have xy (side : Side) : (side = inX ∨ side = outX) ∨ side = inY ∨ side = outY := by
    cases side with
    | left => exact .inl (sidesX .left (.inl rfl))
    | right => exact .inl (sidesX .right (.inr rfl))
    | below => exact .inr (sidesY .below (.inl rfl))
    | above => exact .inr (sidesY .above (.inr rfl))
  by_cases order : tinx < tiny
  · rw [if_pos order, if_pos order, if_neg order.not_gt, if_neg order.not_gt]
    refine ⟨inX, outX, inY, outY, tinx, toutx, tiny, touty, tout, (xin, yin), (xout, yin), ?_, least, rfl⟩
    refine ⟨passesX, passesY, order.le, fun side => or_assoc.mp (xy side), start, ⟨⟨memXin, memYin⟩, memXout, memYin⟩, ?_, ?_⟩
    · exact ⟨isInX _ rfl, isInY _ rfl⟩
    · exact fun _ => ⟨isInY _ rfl, isOutX _ rfl⟩
  · rw [if_neg order, if_neg order]
    have second : (if tinx > tiny then edgeLine rect a b tinx else edgeLine rect a b tiny) = edgeLine rect a b tinx := by
      split
      · rfl
      · rename_i notLater
        rw [le_antisymm (not_lt.mp notLater) (not_lt.mp order)]
    rw [second]
    refine ⟨inY, outY, inX, outX, tiny, touty, tinx, toutx, tout, (xin, yin), if tinx > tiny then (xin, yout) else (xout, yin),
      ?_, ⟨least.2.1, least.1, least.2.2.symm⟩, rfl⟩
    refine ⟨passesY, passesX, not_lt.mp order, fun side => or_assoc.mp (xy side).symm, start, ⟨⟨memXin, memYin⟩, ?_⟩, ?_, ?_⟩
    · split
      · exact ⟨memXin, memYout⟩
      · exact ⟨memXout, memYin⟩
    · exact ⟨isInY _ rfl, isInX _ rfl⟩
    · intro later
      rw [if_pos later]
      exact ⟨isInX _ rfl, isOutY _ rfl⟩

end Edges
end MapServer
