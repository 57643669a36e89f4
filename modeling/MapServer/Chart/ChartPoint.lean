import MapServer.Primitive.PixelTransform

/-! `findChartPoint` of `mapchart.c`, on exact numbers. `none` stands for a read past the points of a part. -/

namespace MapServer

attribute [local instance] two_atLeastTwo

section Model
variable {K : Type} [Field K]

/-- The parts of a `mapObj` that place a chart. -/
structure ChartMap (K : Type) where
  extent : RectObj K
  cellsize : K
  width : Int
  height : Int

variable (map : ChartMap K)

def chartPixel (x y : K) : K × K :=
  let invcellsize := 1 / map.cellsize
  (MS_MAP2IMAGE_X_IC_DBL x map.extent.minx invcellsize, MS_MAP2IMAGE_Y_IC_DBL y map.extent.maxy invcellsize)

/-- The middle between `point[idx]` and `point[idx + 1]`. -/
def segmentPixel (point : LineObj K) (idx : Nat) : Option (K × K) := do
  let first ← point[idx]?
  let second ← point[idx + 1]?
  some (chartPixel map ((first.x + second.x) / 2) ((first.y + second.y) / 2))

variable {map} {line : LineObj K} {center : K × K} {j : Nat}

theorem segmentPixel_isSome (inside : j + 1 < line.length) : ∃ center, segmentPixel map line j = some center := by
  rw [segmentPixel, List.getElem?_eq_getElem (Nat.lt_of_succ_lt inside), List.getElem?_eq_getElem inside]
  exact ⟨_, rfl⟩

theorem segmentPixel_inside (here : segmentPixel map line j = some center) : j + 1 < line.length := by
  obtain ⟨first, _, rest⟩ := Option.bind_eq_some_iff.mp here
  obtain ⟨second, isSecond, _⟩ := Option.bind_eq_some_iff.mp rest
  exact (List.getElem?_eq_some_iff.mp isSecond).1

variable [LinearOrder K]

def MS_CHART_FITS (x y w h mw mh : K) : Prop :=
  x - w / 2 > 0 ∧ x + w / 2 < mw ∧ y - h / 2 > 0 ∧ y + h / 2 < mh

instance (x y w h mw mh : K) : Decidable (MS_CHART_FITS x y w h mw mh) :=
  inferInstanceAs (Decidable (_ ∧ _))

variable (map) (width height : Int)

def ChartFits (center : K × K) : Prop :=
  MS_CHART_FITS center.1 center.2 (width : K) height map.width map.height

instance (center : K × K) : Decidable (ChartFits map width height center) :=
  inferInstanceAs (Decidable (MS_CHART_FITS ..))

/-- What is returned once `center` is set: whether the chart fits there. -/
def chartPlaced (center : K × K) : Bool × K × K := (decide (ChartFits map width height center), center)

/-- `true` is `MS_SUCCESS`. `msPolygonLabelPoint` sets `center`. -/
def findChartPoint (msPolygonLabelPoint : ShapeObj K → K × K → K × K) (shape : ShapeObj K) (center : K × K) :
    Option (Bool × K × K) :=
  match shape.type with
  | .MS_SHAPE_POINT => do
    let line ← shape.line[0]?
    let point ← (line)[0]?
    some (chartPlaced map width height (chartPixel map point.x point.y))
  | .MS_SHAPE_LINE => do
    let line ← shape.line[0]?
    let middle := line.length / 2
    if 1 ≤ middle then
      let idx := if middle + 1 < line.length then middle else middle - 1
      let center ← segmentPixel map line idx
      some (chartPlaced map width height center)
    else some (false, center)
  | .MS_SHAPE_POLYGON =>
    let center := msPolygonLabelPoint shape center
    some (chartPlaced map width height (chartPixel map center.1 center.2))
  | .MS_SHAPE_NULL => some (false, center)

def SegmentFits (line : LineObj K) (j : Nat) : Prop :=
  ∃ center, segmentPixel map line j = some center ∧ ChartFits map width height center

/-- Twice the number of segments from the middle of a line of `n` points to the middle of a segment. -/
def middleDistance (n j : Nat) : Nat := (2 * j + 2 - n : Int).natAbs

def PlacedOnLine (line : LineObj K) (result : Option (Bool × K × K)) : Prop :=
  ∃ success center, result = some (success, center) ∧
    (success = true ↔ ∃ j, SegmentFits map width height line j) ∧
    (success = true → ∃ j, segmentPixel map line j = some center ∧ ChartFits map width height center ∧
      ∀ k, SegmentFits map width height line k → middleDistance line.length j ≤ middleDistance line.length k)

def testedSegment (n : Nat) : Nat := if n / 2 + 1 < n then n / 2 else n / 2 - 1

def TestedSuffices (line : LineObj K) : Prop :=
  (∀ j, ¬SegmentFits map width height line j) ∨
    SegmentFits map width height line (testedSegment line.length) ∧
      (line.length % 2 = 0 → 4 ≤ line.length → SegmentFits map width height line (line.length / 2 - 1) →
        segmentPixel map line (line.length / 2 - 1) = segmentPixel map line (line.length / 2))

variable {map width height}

theorem segmentFits_iff (here : segmentPixel map line j = some center) :
    SegmentFits map width height line j ↔ ChartFits map width height center := by
  constructor
  · rintro ⟨other, there, fits⟩
    obtain rfl := Option.some.inj (here.symm.trans there)
    exact fits
  · exact fun fits => ⟨center, here, fits⟩

theorem tested_nearest {n k : Nat} (some_ : 2 ≤ n) (inside : k + 1 < n)
    (other : n % 2 = 0 → 4 ≤ n → k ≠ n / 2 - 1) : middleDistance n (testedSegment n) ≤ middleDistance n k := by
  unfold middleDistance testedSegment
  split <;> omega

/-- A chart is placed on a line as it should be exactly where the one segment that is tested is the right one. -/
theorem findChartPoint_line_iff (map : ChartMap K) (width height : Int)
    (msPolygonLabelPoint : ShapeObj K → K × K → K × K) (shape : ShapeObj K) (center : K × K)
    (isLine : shape.type = .MS_SHAPE_LINE) (line : LineObj K) (first : shape.line[0]? = some line)
    (some_ : 2 ≤ line.length) :
    PlacedOnLine map width height line (findChartPoint map width height msPolygonLabelPoint shape center) ↔
      TestedSuffices map width height line := by
  have inside : testedSegment line.length + 1 < line.length := by
    unfold testedSegment
    split <;> omega
  obtain ⟨tested, here⟩ := @segmentPixel_isSome K _ map line _ inside
  have fits : SegmentFits map width height line _ ↔ _ := segmentFits_iff here
  have run : findChartPoint map width height msPolygonLabelPoint shape center =
      some (chartPlaced map width height tested) := by
    have middle : 1 ≤ line.length / 2 := by omega
    rw [testedSegment] at here
    simp only [findChartPoint, isLine, first, middle, here, Option.bind_eq_bind, Option.bind_some, if_true]
  rw [run]
  constructor
  · rintro ⟨success, center, isResult, found, near⟩
    cases isResult
    rw [decide_eq_true_iff, ← fits] at found near
    by_cases any : ∃ j, SegmentFits map width height line j
    · refine .inr ⟨found.mpr any, fun even four middle => ?_⟩
      obtain ⟨j, same, _, least⟩ := near (found.mpr any)
      have nearest := least _ middle
      obtain rfl : j = line.length / 2 - 1 := by
        unfold middleDistance at nearest
        omega
      rw [same, ← here, testedSegment, if_pos (by omega)]
    · exact .inl (not_exists.mp any)
  · intro suffices_
    refine ⟨_, _, rfl, ?_, fun success => ?_⟩
    · rw [decide_eq_true_iff, ← fits]
      rcases suffices_ with nowhere | ⟨room, _⟩
      · exact ⟨fun room => ⟨_, room⟩, fun ⟨j, room⟩ => (nowhere j room).elim⟩
      · exact ⟨fun room => ⟨_, room⟩, fun _ => room⟩
    · have room := of_decide_eq_true success
      rcases suffices_ with nowhere | ⟨_, same⟩
      · exact (nowhere _ (fits.mpr room)).elim
      by_cases middle : line.length % 2 = 0 ∧ 4 ≤ line.length ∧ SegmentFits map width height line (line.length / 2 - 1)
      · obtain ⟨even, four, middle⟩ := middle
        refine ⟨line.length / 2 - 1, ?_, room, fun k _ => ?_⟩
        · rw [same even four middle, ← here, testedSegment, if_pos (by omega)]
        · unfold middleDistance
          omega
      · refine ⟨_, here, room, fun k fitsThere => tested_nearest some_ ?_ fun even four isMiddle => ?_⟩
        · exact segmentPixel_inside fitsThere.choose_spec.1
        · exact middle ⟨even, four, isMiddle ▸ fitsThere⟩

end Model

section Outgoing

def hundredMap : ChartMap ℚ := { extent := ⟨0, 0, 100, 100⟩, cellsize := 1, width := 100, height := 100 }

def outgoingLine : LineObj ℚ := [⟨10, 50, 0, 0⟩, ⟨30, 50, 0, 0⟩, ⟨500, 50, 0, 0⟩]

def lineShape (line : LineObj ℚ) : ShapeObj ℚ :=
  { line := [line], bounds := ⟨0, 0, 0, 0⟩, type := .MS_SHAPE_LINE, index := 0 }

theorem findChartPoint_line_iff_outgoing :
    PlacedOnLine hundredMap 10 10 outgoingLine
      (findChartPoint hundredMap 10 10 (fun _ center => center) (lineShape outgoingLine) (0, 0)) ↔
      TestedSuffices hundredMap 10 10 outgoingLine :=
  findChartPoint_line_iff _ _ _ _ _ _ rfl _ rfl (by decide)

theorem findChartPoint_misses_room :
    ¬PlacedOnLine hundredMap 10 10 outgoingLine
      (findChartPoint hundredMap 10 10 (fun _ center => center) (lineShape outgoingLine) (0, 0)) := by
  have first : SegmentFits hundredMap 10 10 outgoingLine 0 := by
    refine ⟨_, rfl, ?_⟩
    norm_num [ChartFits, MS_CHART_FITS, chartPixel, MS_MAP2IMAGE_X_IC_DBL, MS_MAP2IMAGE_Y_IC_DBL, hundredMap]
  rintro ⟨success, center, run, found, _⟩
  have isPlaced : findChartPoint hundredMap 10 10 (fun _ center => center) (lineShape outgoingLine) (0, 0) =
      some (chartPlaced hundredMap 10 10 (chartPixel hundredMap ((30 + 500) / 2) ((50 + 50) / 2))) := rfl
  have placed := found.mpr ⟨0, first⟩
  rw [isPlaced, placed] at run
  have fits := of_decide_eq_true (congrArg Prod.fst (Option.some.inj run))
  norm_num [ChartFits, MS_CHART_FITS, chartPixel, MS_MAP2IMAGE_X_IC_DBL, MS_MAP2IMAGE_Y_IC_DBL, hundredMap] at fits

end Outgoing

end MapServer
