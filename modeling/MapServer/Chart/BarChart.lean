import Mathlib.Algebra.Order.Field.Basic
import Mathlib.Tactic.Linarith
import Mathlib.Tactic.Ring
import MapServer.Shape.Record

/-!
`msDrawBarChart` and `msDrawBarChartLayer` of `mapchart.c`, on exact numbers. `none` stands for a division by zero or a read
past the values.
-/

namespace MapServer

attribute [local instance] two_atLeastTwo

section Model
variable {K : Type} [Field K] [LinearOrder K]

/-- The arguments of `drawRectangle`. -/
structure BarRect (K : Type) where
  mx : K
  my : K
  Mx : K
  My : K
  deriving DecidableEq

/-- `top`, `bottom`, `pixperval` and `vertOrigin` of a chart. -/
structure BarScale (K : Type) where
  top : K
  bottom : K
  pixperval : K
  vertOrigin : K

def BarScale.clip (scale : BarScale K) (y : K) : K :=
  if y < scale.top then scale.top else if y > scale.bottom then scale.bottom else y

def BarScale.vertOriginClipped (scale : BarScale K) : K := scale.clip scale.vertOrigin

def barBounds (first : K) (rest : List K) : K × K :=
  rest.foldl (fun (shapeMaxVal, shapeMinVal) value =>
    (if value > shapeMaxVal then value else shapeMaxVal, if value < shapeMinVal then value else shapeMinVal)) (first, first)

/-- `upperLimit` and `lowerLimit` as they are given, or with the origin between them. -/
def givenLimits (first : K) (rest : List K) (maxVal minVal : Option K) : K × K :=
  let bounds := if maxVal.isNone || minVal.isNone then barBounds first rest else (first, first)
  (maxVal.getD (MS_MAX bounds.1 0), minVal.getD (MS_MIN bounds.2 0))

def barLimits (first : K) (rest : List K) (maxVal minVal : Option K) : K × K :=
  let (upperLimit, lowerLimit) := givenLimits first rest maxVal minVal
  if upperLimit = lowerLimit then (upperLimit + 1 / 2, lowerLimit - 1 / 2) else (upperLimit, lowerLimit)

/-- The loop that draws. The list has what is given to `drawRectangle`, with the index of the value. -/
def drawBars (drawRectangle : Nat → BarRect K → Bool) (scale : BarScale K) (barWidth : K) :
    List K → Nat → K → List (Nat × BarRect K) → Bool × List (Nat × BarRect K)
  | [], _, _, drawn => (true, drawn)
  | value :: rest, c, horizStart, drawn =>
    let barHeight := value * scale.pixperval
    let y := scale.clip (scale.vertOrigin - barHeight)
    if y ≠ scale.vertOriginClipped then
      let bar := if value > 0 then ⟨horizStart, y, horizStart + barWidth - 1, scale.vertOriginClipped⟩
        else ⟨horizStart, scale.vertOriginClipped, horizStart + barWidth - 1, y⟩
      if drawRectangle c bar then drawBars drawRectangle scale barWidth rest (c + 1) (horizStart + barWidth) (drawn ++ [(c, bar)])
      else (false, drawn ++ [(c, bar)])
    else drawBars drawRectangle scale barWidth rest (c + 1) (horizStart + barWidth) drawn

def msDrawBarChart (drawRectangle : Nat → BarRect K → Bool) (center : PointObj K) (values : List K) (width height : K)
    (maxVal minVal : Option K) (barWidth : K) : Option (Bool × List (Nat × BarRect K)) :=
  let top := center.y - height / 2
  let bottom := center.y + height / 2
  let left := center.x - width / 2
  match values with
  | [] => none
  | first :: rest =>
    let (upperLimit, lowerLimit) := barLimits first rest maxVal minVal
    if upperLimit - lowerLimit = 0 then none
    else
      let pixperval := height / (upperLimit - lowerLimit)
      let vertOrigin := bottom + lowerLimit * pixperval
      some (drawBars drawRectangle ⟨top, bottom, pixperval, vertOrigin⟩ barWidth (first :: rest) 0 left [])

structure ChartLayerObj where
  chartSize : Option String
  barMax : Option String
  barMin : Option String
  numclasses : Nat
  some_class : numclasses ≠ 0

/-- What `getNextShape` and `findChartPoint` give for a shape. -/
structure ChartShape (K : Type) where
  values : List K
  center : Option (PointObj K)

variable (sscanf : String → List K)

def chartSize (layer : ChartLayerObj) : Option (K × K) :=
  match layer.chartSize with
  | none => some (((20 : Nat) : K), ((20 : Nat) : K))
  | some key =>
    match sscanf key with
    | [] => none
    | [width] => some (width, width)
    | width :: height :: _ => some (width, height)

/-- `maxVal` and `minVal`, unless the layer is refused. -/
def chartLimits (layer : ChartLayerObj) : Option (Option K × Option K) := do
  let barMaxVal ← layer.barMax.mapM fun key => (sscanf key).head?
  let barMinVal ← layer.barMin.mapM fun key => (sscanf key).head?
  match barMinVal, barMaxVal with
  | some least, some greatest => if least ≥ greatest then none else some (barMaxVal, barMinVal)
  | _, _ => some (barMaxVal, barMinVal)

def drawCharts (drawRectangle : ChartShape K → Nat → BarRect K → Bool) (width height : K) (maxVal minVal : Option K) (barWidth : K) :
    List (ChartShape K) → Bool → List (ChartShape K × List (Nat × BarRect K)) →
      Option (Bool × List (ChartShape K × List (Nat × BarRect K)))
  | [], status, drawn => some (status, drawn)
  | shape :: rest, status, drawn =>
    if shape.values = [] then drawCharts drawRectangle width height maxVal minVal barWidth rest status drawn
    else
      match shape.center with
      | none => drawCharts drawRectangle width height maxVal minVal barWidth rest status drawn
      | some center => do
        let (status, bars) ← msDrawBarChart (drawRectangle shape) center shape.values width height maxVal minVal barWidth
        drawCharts drawRectangle width height maxVal minVal barWidth rest status (drawn ++ [(shape, bars)])

/-- The inner `none` is a layer that is refused. -/
def msDrawBarChartLayer (drawRectangle : ChartShape K → Nat → BarRect K → Bool) (layer : ChartLayerObj) (shapes : List (ChartShape K)) :
    Option (Option (Bool × List (ChartShape K × List (Nat × BarRect K)))) :=
  match chartSize sscanf layer, chartLimits sscanf layer with
  | some (width, height), some (maxVal, minVal) =>
    let barWidth := width / (layer.numclasses : K)
    if barWidth = 0 then some none
    else (drawCharts drawRectangle width height maxVal minVal barWidth shapes true []).map some
  | _, _ => some none

end Model

variable {K : Type} [Field K] [LinearOrder K]

def valueEdge (top bottom upper lower value : K) : K :=
  max top (min bottom (bottom - (value - lower) * ((bottom - top) / (upper - lower))))

inductive IsBar (edge : K → K) (value : K) (bar : BarRect K) : Prop where
  | rises (positive : 0 < value) (free : bar.my = edge value) (base : bar.My = edge 0) (higher : bar.my < bar.My)
  | falls (negative : value < 0) (base : bar.my = edge 0) (free : bar.My = edge value) (lower : bar.my < bar.My)

structure BarsRight (top bottom : K) (edge : K → K) (values : List K) (bars : List (Nat × BarRect K)) : Prop where
  inFrame : ∀ value, top ≤ edge value ∧ edge value ≤ bottom
  ordered : ∀ a ∈ values, ∀ b ∈ values, a ≤ b → edge b ≤ edge a
  drawn : ∀ bar ∈ bars, ∃ value, values[bar.1]? = some value ∧ IsBar edge value bar.2

section Loop
variable {drawRectangle : Nat → BarRect K → Bool} {scale : BarScale K} {edge : K → K}

theorem vertOriginClipped_eq (isEdge : ∀ value, scale.clip (scale.vertOrigin - value * scale.pixperval) = edge value) :
    scale.vertOriginClipped = edge 0 := by
  have zero := isEdge 0
  rwa [zero_mul, sub_zero] at zero

theorem drawBars_drawn (isEdge : ∀ value, scale.clip (scale.vertOrigin - value * scale.pixperval) = edge value) (barWidth : K)
    (before rest : List K) (sides : ∀ value ∈ rest, (0 < value → edge value ≤ edge 0) ∧ (value ≤ 0 → edge 0 ≤ edge value))
    (horizStart : K) {drawn : List (Nat × BarRect K)}
    (bars : ∀ bar ∈ drawn, ∃ value, (before ++ rest)[bar.1]? = some value ∧ IsBar edge value bar.2) :
    ∀ bar ∈ (drawBars drawRectangle scale barWidth rest before.length horizStart drawn).2,
      ∃ value, (before ++ rest)[bar.1]? = some value ∧ IsBar edge value bar.2 := by
  induction rest generalizing before horizStart drawn with
  | nil => exact bars
  | cons value rest ih =>
    have later {drawn : List (Nat × BarRect K)}
        (bars : ∀ bar ∈ drawn, ∃ value', (before ++ value :: rest)[bar.1]? = some value' ∧ IsBar edge value' bar.2) :
        ∀ bar ∈ (drawBars drawRectangle scale barWidth rest (before.length + 1) (horizStart + barWidth) drawn).2,
          ∃ value', (before ++ value :: rest)[bar.1]? = some value' ∧ IsBar edge value' bar.2 := by
      have shift : before ++ value :: rest = (before ++ [value]) ++ rest := by simp
      have length : before.length + 1 = (before ++ [value]).length := by simp
      rw [shift, length]
      rw [shift] at bars
      exact ih (before ++ [value]) (fun other member => sides other (List.mem_cons_of_mem _ member)) _ bars
    rw [drawBars, isEdge, vertOriginClipped_eq isEdge]
    split
    · rename_i apart
      obtain ⟨up, down⟩ := sides value List.mem_cons_self
      have next (bar : BarRect K) (isBar : IsBar edge value bar) : ∀ other ∈ (if drawRectangle before.length bar = true then
            drawBars drawRectangle scale barWidth rest (before.length + 1) (horizStart + barWidth) (drawn ++ [(before.length, bar)])
          else (false, drawn ++ [(before.length, bar)])).2,
          ∃ value', (before ++ value :: rest)[other.1]? = some value' ∧ IsBar edge value' other.2 := by
        have added : ∀ other ∈ drawn ++ [(before.length, bar)],
            ∃ value', (before ++ value :: rest)[other.1]? = some value' ∧ IsBar edge value' other.2 := by
          intro other member
          rcases List.mem_append.mp member with old | new
          · exact bars other old
          · rw [List.mem_singleton.mp new]
            exact ⟨value, by simp, isBar⟩
        split
        · exact later added
        · exact added
      split
      · rename_i positive
        exact next _ (.rises positive rfl rfl ((up positive).lt_of_ne apart))
      · rename_i notPositive
        have negative : value < 0 := by
          refine (not_lt.mp notPositive).lt_of_ne fun zero => apart ?_
          rw [zero]
        exact next _ (.falls negative rfl rfl ((down negative.le).lt_of_ne' apart))
    · exact later bars

end Loop

omit [Field K] in
theorem foldl_bounds (rest : List K) (bounds : K × K) :
    let final := rest.foldl (fun (shapeMaxVal, shapeMinVal) value =>
      (if value > shapeMaxVal then value else shapeMaxVal, if value < shapeMinVal then value else shapeMinVal)) bounds
    (final.2 ≤ bounds.2 ∧ bounds.1 ≤ final.1) ∧ ∀ value ∈ rest, final.2 ≤ value ∧ value ≤ final.1 := by
  induction rest generalizing bounds with
  | nil => exact ⟨⟨le_rfl, le_rfl⟩, by simp⟩
  | cons value rest ih =>
    obtain ⟨⟨low, high⟩, among⟩ := ih (if value > bounds.1 then value else bounds.1, if value < bounds.2 then value else bounds.2)
    have up : bounds.1 ≤ (if value > bounds.1 then value else bounds.1) ∧ value ≤ (if value > bounds.1 then value else bounds.1) := by
      split_ifs with above
      · exact ⟨above.le, le_rfl⟩
      · exact ⟨le_rfl, not_lt.mp above⟩
    have down : (if value < bounds.2 then value else bounds.2) ≤ bounds.2 ∧ (if value < bounds.2 then value else bounds.2) ≤ value := by
      split_ifs with below
      · exact ⟨below.le, le_rfl⟩
      · exact ⟨le_rfl, not_lt.mp below⟩
    rw [List.foldl_cons]
    refine ⟨⟨low.trans down.1, up.1.trans high⟩, ?_⟩
    rintro other member
    rcases List.mem_cons.mp member with rfl | later
    · exact ⟨low.trans down.2, up.2.trans high⟩
    · exact among other later

omit [Field K] in
theorem barBounds_bound (first : K) (rest : List K) :
    ∀ value ∈ first :: rest, (barBounds first rest).2 ≤ value ∧ value ≤ (barBounds first rest).1 := by
  obtain ⟨own, among⟩ := foldl_bounds rest (first, first)
  intro value member
  rcases List.mem_cons.mp member with rfl | later
  · exact own
  · exact among value later

omit [Field K] in
theorem clip_eq {scale : BarScale K} (order : scale.top ≤ scale.bottom) (y : K) :
    scale.clip y = max scale.top (min scale.bottom y) := by
  unfold BarScale.clip
  split_ifs with above below
  · rw [min_eq_right (above.le.trans order), max_eq_left above.le]
  · rw [min_eq_left (le_of_lt below), max_eq_right order]
  · rw [min_eq_right (not_lt.mp below), max_eq_right (not_lt.mp above)]

theorem givenLimits_reversed (first : K) (rest : List K) {maxVal minVal : Option K}
    (accepted : ∀ greatest ∈ maxVal, ∀ least ∈ minVal, least < greatest)
    (reversed : (givenLimits first rest maxVal minVal).1 < (givenLimits first rest maxVal minVal).2) :
    (∀ value ∈ 0 :: first :: rest, (givenLimits first rest maxVal minVal).2 ≤ value) ∨
      ∀ value ∈ 0 :: first :: rest, value ≤ (givenLimits first rest maxVal minVal).1 := by
  have bound := barBounds_bound first rest
  cases maxVal with
  | none =>
    right
    simp only [givenLimits, Option.isNone_none, Bool.true_or, if_true, Option.getD_none, MS_MAX_eq]
    intro value member
    rcases List.mem_cons.mp member with rfl | among
    · exact le_max_right _ _
    · exact (bound value among).2.trans (le_max_left _ _)
  | some greatest =>
    cases minVal with
    | none =>
      left
      simp only [givenLimits, Option.isNone_none, Bool.or_true, if_true, Option.getD_none, MS_MIN_eq]
      intro value member
      rcases List.mem_cons.mp member with rfl | among
      · exact min_le_right _ _
      · exact (min_le_left _ _).trans (bound value among).1
    | some least => exact absurd reversed (accepted greatest rfl least rfl).not_gt

omit [Field K] in
theorem chartLimits_accepted {sscanf : String → List K} {layer : ChartLayerObj} {maxVal minVal : Option K}
    (limits : chartLimits sscanf layer = some (maxVal, minVal)) : ∀ greatest ∈ maxVal, ∀ least ∈ minVal, least < greatest := by
  simp only [chartLimits, Option.bind_eq_bind, Option.bind_eq_some_iff] at limits
  obtain ⟨barMaxVal, -, barMinVal, -, checked⟩ := limits
  split at checked
  · rename_i least greatest
    split at checked
    · cases checked
    · rename_i ordered
      cases checked
      rintro _ ⟨⟩ _ ⟨⟩
      exact not_le.mp ordered
  · rename_i notBoth
    cases checked
    rintro greatest rfl least rfl
    exact (notBoth least greatest rfl rfl).elim

variable [IsStrictOrderedRing K]

theorem barLimits_cases (first : K) (rest : List K) {maxVal minVal : Option K}
    (accepted : ∀ greatest ∈ maxVal, ∀ least ∈ minVal, least < greatest) :
    (barLimits first rest maxVal minVal).2 < (barLimits first rest maxVal minVal).1 ∨
      (barLimits first rest maxVal minVal).1 < (barLimits first rest maxVal minVal).2 ∧
        ((∀ value ∈ 0 :: first :: rest, (barLimits first rest maxVal minVal).2 ≤ value) ∨
          ∀ value ∈ 0 :: first :: rest, value ≤ (barLimits first rest maxVal minVal).1) := by
  have reversed := givenLimits_reversed first rest accepted
  unfold barLimits
  generalize givenLimits first rest maxVal minVal = limits at reversed ⊢
  dsimp only
  split
  · rename_i same
    left
    linarith
  · rename_i differ
    rcases lt_or_gt_of_ne differ with back | ordered
    · exact .inr ⟨back, reversed back⟩
    · exact .inl ordered

section Edges
variable {top bottom upper lower : K}

omit [IsStrictOrderedRing K] in
theorem valueEdge_inFrame (order : top ≤ bottom) (value : K) :
    top ≤ valueEdge top bottom upper lower value ∧ valueEdge top bottom upper lower value ≤ bottom :=
  ⟨le_max_left _ _, max_le order (min_le_left _ _)⟩

theorem valueEdge_antitone (order : top ≤ bottom) (limits : lower < upper) : Antitone (valueEdge top bottom upper lower) := by
  intro a b less
  have scale : 0 ≤ (bottom - top) / (upper - lower) := div_nonneg (sub_nonneg.mpr order) (sub_pos.mpr limits).le
  have steps := mul_le_mul_of_nonneg_right (sub_le_sub_right less lower) scale
  exact max_le_max le_rfl (min_le_min le_rfl (sub_le_sub_left steps bottom))

theorem valueEdge_bottom (order : top ≤ bottom) (reversed : upper < lower) {value : K} (above : lower ≤ value) :
    valueEdge top bottom upper lower value = bottom := by
  have scale : (bottom - top) / (upper - lower) ≤ 0 := div_nonpos_of_nonneg_of_nonpos (sub_nonneg.mpr order) (sub_neg.mpr reversed).le
  have down := mul_nonpos_of_nonneg_of_nonpos (sub_nonneg.mpr above) scale
  rw [valueEdge, min_eq_left (by linarith), max_eq_right order]

theorem valueEdge_top (order : top ≤ bottom) (reversed : upper < lower) {value : K} (below : value ≤ upper) :
    valueEdge top bottom upper lower value = top := by
  have room : 0 < lower - upper := sub_pos.mpr reversed
  have far : bottom - top ≤ (value - lower) * ((bottom - top) / (upper - lower)) := by
    have same : (value - lower) * ((bottom - top) / (upper - lower)) = (lower - value) * (bottom - top) / (lower - upper) := by
      rw [← neg_sub lower upper, div_neg]
      ring
    rw [same, le_div_iff₀ room, mul_comm]
    exact mul_le_mul_of_nonneg_right (by linarith) (sub_nonneg.mpr order)
  rw [valueEdge, min_eq_right (by linarith), max_eq_left (by linarith)]

end Edges

section Charts
variable {center : PointObj K} {width height : K} {maxVal minVal : Option K}

theorem msDrawBarChart_right (drawRectangle : Nat → BarRect K → Bool) (tall : 0 < height)
    (accepted : ∀ greatest ∈ maxVal, ∀ least ∈ minVal, least < greatest) {values : List K} (some_value : values ≠ []) (barWidth : K) :
    ∃ status bars, msDrawBarChart drawRectangle center values width height maxVal minVal barWidth = some (status, bars) ∧
      ∃ upper lower, upper ≠ lower ∧
        BarsRight (center.y - height / 2) (center.y + height / 2)
          (valueEdge (center.y - height / 2) (center.y + height / 2) upper lower) values bars := by
  obtain _ | ⟨first, rest⟩ := values
  · exact absurd rfl some_value
  have limits := barLimits_cases first rest accepted
  unfold msDrawBarChart
  dsimp only
  generalize barLimits first rest maxVal minVal = both at limits ⊢
  obtain ⟨upper, lower⟩ := both
  have differ : upper ≠ lower := limits.elim (fun ordered => ordered.ne') fun reversed => reversed.1.ne
  rw [if_neg (sub_ne_zero.mpr differ)]
  refine ⟨_, _, rfl, upper, lower, differ, ?_⟩
  have frame : center.y + height / 2 - (center.y - height / 2) = height := by ring
  have order : center.y - height / 2 ≤ center.y + height / 2 := by linarith
  have isEdge (value : K) : BarScale.clip ⟨center.y - height / 2, center.y + height / 2, height / (upper - lower),
      center.y + height / 2 + lower * (height / (upper - lower))⟩
        (center.y + height / 2 + lower * (height / (upper - lower)) - value * (height / (upper - lower))) =
      valueEdge (center.y - height / 2) (center.y + height / 2) upper lower value := by
    rw [clip_eq order, valueEdge, frame]
    congr 2
    ring
  -- with the limits the wrong way round, no bar has a height
  have ordered : ∀ a ∈ 0 :: first :: rest, ∀ b ∈ 0 :: first :: rest, a ≤ b →
      valueEdge (center.y - height / 2) (center.y + height / 2) upper lower b ≤
        valueEdge (center.y - height / 2) (center.y + height / 2) upper lower a := by
    intro a inA b inB less
    rcases limits with inOrder | ⟨reversed, above | below⟩
    · exact valueEdge_antitone order inOrder less
    · rw [valueEdge_bottom order reversed (above a inA), valueEdge_bottom order reversed (above b inB)]
    · rw [valueEdge_top order reversed (below a inA), valueEdge_top order reversed (below b inB)]
  refine ⟨valueEdge_inFrame order, ?_, ?_⟩
  · intro a inA b inB
    exact ordered a (List.mem_cons_of_mem _ inA) b (List.mem_cons_of_mem _ inB)
  · refine drawBars_drawn isEdge barWidth [] (first :: rest) ?_ _ (by simp)
    intro value member
    constructor
    · intro positive
      exact ordered 0 List.mem_cons_self value (List.mem_cons_of_mem _ member) positive.le
    · intro notPositive
      exact ordered value (List.mem_cons_of_mem _ member) 0 List.mem_cons_self notPositive

def ChartRight (height : K) (chart : ChartShape K × List (Nat × BarRect K)) : Prop :=
  ∃ center, chart.1.center = some center ∧ ∃ upper lower, upper ≠ lower ∧
    BarsRight (center.y - height / 2) (center.y + height / 2) (valueEdge (center.y - height / 2) (center.y + height / 2) upper lower)
      chart.1.values chart.2

theorem drawCharts_right (drawRectangle : ChartShape K → Nat → BarRect K → Bool) (tall : 0 < height)
    (accepted : ∀ greatest ∈ maxVal, ∀ least ∈ minVal, least < greatest) (width barWidth : K) (shapes : List (ChartShape K))
    (status : Bool) {drawn : List (ChartShape K × List (Nat × BarRect K))} (right : ∀ chart ∈ drawn, ChartRight height chart) :
    ∃ status' charts, drawCharts drawRectangle width height maxVal minVal barWidth shapes status drawn = some (status', charts) ∧
      ∀ chart ∈ charts, ChartRight height chart := by
  induction shapes generalizing status drawn with
  | nil => exact ⟨status, drawn, rfl, right⟩
  | cons shape rest ih =>
    rw [drawCharts]
    split
    · exact ih status right
    · rename_i some_value
      split
      · exact ih status right
      · rename_i center isCenter
        obtain ⟨status', bars, isChart, limits⟩ := msDrawBarChart_right (drawRectangle shape) tall accepted some_value barWidth
        rw [isChart]
        apply ih
        intro chart member
        rcases List.mem_append.mp member with old | new
        · exact right chart old
        · rw [List.mem_singleton.mp new]
          exact ⟨center, isCenter, limits⟩

end Charts

/-- No layer with a frame divides by zero, and the bars of each chart that it draws are right. -/
theorem msDrawBarChartLayer_right (sscanf : String → List K) (drawRectangle : ChartShape K → Nat → BarRect K → Bool)
    (layer : ChartLayerObj) (shapes : List (ChartShape K)) {width height : K}
    (size : chartSize sscanf layer = some (width, height)) (tall : 0 < height) :
    ∃ result, msDrawBarChartLayer sscanf drawRectangle layer shapes = some result ∧
      ∀ status charts, result = some (status, charts) → ∀ chart ∈ charts, ChartRight height chart := by
  unfold msDrawBarChartLayer
  rw [size]
  cases limits : chartLimits sscanf layer with
  | none => exact ⟨none, rfl, by simp⟩
  | some both =>
    dsimp only
    split
    · exact ⟨none, rfl, by simp⟩
    · obtain ⟨status, charts, isDrawn, right⟩ := drawCharts_right drawRectangle tall (chartLimits_accepted limits) width
        (width / (layer.numclasses : K)) shapes true (List.forall_mem_nil _)
      refine ⟨some (status, charts), by rw [isDrawn]; rfl, ?_⟩
      rintro _ _ ⟨⟩
      exact right

def keyNumbers (key : String) : List ℚ := if key = "40 30" then [40, 30] else if key = "10" then [10] else []

theorem msDrawBarChartLayer_right_limit :
    ∃ result, msDrawBarChartLayer keyNumbers (fun _ _ _ => true) ⟨some "40 30", some "10", none, 3, by decide⟩
        [⟨[4, -3, 12], some ⟨50, 50, 0, 0⟩⟩] = some result ∧
      ∀ status charts, result = some (status, charts) → ∀ chart ∈ charts, ChartRight 30 chart :=
  msDrawBarChartLayer_right keyNumbers (fun _ _ _ => true) ⟨some "40 30", some "10", none, 3, by decide⟩
    [⟨[4, -3, 12], some ⟨50, 50, 0, 0⟩⟩] (show _ = some (40, 30) by decide +kernel) (by decide +kernel)

end MapServer
