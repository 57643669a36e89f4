import MapServer.Lib.Shells
import MapServer.Primitive.RingNesting

/-!
`getFeatureGeometry` of `mapogcapi.cpp`, on exact coordinates. `none` is an exception or a read past the points of a ring.
-/

namespace MapServer

attribute [local instance] ten_atLeastTwo

/-- A geometry object; `null` has no type and no coordinates. -/
inductive GeometryJson (β : Type) where
  | null
  | Point (coordinates : β)
  | MultiPoint (coordinates : List β)
  | LineString (coordinates : List β)
  | MultiLineString (coordinates : List (List β))
  | Polygon (coordinates : List (List β))
  | MultiPolygon (coordinates : List (List (List β)))
  deriving DecidableEq

section Geometry
variable {α β : Type} [Field α] [LinearOrder α]

def round_up [FloorRing α] (value : α) (decimal_places : Int) : α :=
  let multiplier := (10 : α) ^ decimal_places
  ⌈value * multiplier⌉ / multiplier

def roundedPosition [FloorRing α] (precision : Int) (outputCrsAxisInverted : Bool) (point : α × α) : α × α :=
  let (x, y) := if outputCrsAxisInverted then (point.2, point.1) else point
  (round_up x precision, round_up y precision)

def pointGeometry (position : PointObj α → β) : List (LineObj α) → GeometryJson β
  | [] => .null
  | [] :: _ => .null
  | [point] :: _ => .Point (position point)
  | points :: _ => .MultiPoint (points.map position)

def lineGeometry (position : PointObj α → β) : List (LineObj α) → GeometryJson β
  | [] => .null
  | first :: rest =>
    if first.length < 2 then .null
    else if rest = [] then .LineString (first.map position)
    else .MultiLineString ((first :: rest).map fun part => part.map position)

def polygonRings (shape : ShapeObj α) (position : PointObj α → β) (k : Nat) (innerList : List Bool) : List (List β) :=
  (List.range shape.line.length).filterMap fun i =>
    if i = k ∨ innerList[i]? = some true then shape.line[i]?.map fun part => part.map position else none

def polygonGeometry (shape : ShapeObj α) (position : PointObj α → β) : Option (GeometryJson β) :=
  match shape.line with
  | [] => some .null
  | first :: _ =>
    if first.length < 4 then some .null
    else do
      let outerList ← msGetOuterList shape
      let numOuterRings := outerList.count true
      if numOuterRings = 1 then some (.Polygon (shape.line.map fun part => part.map position))
      else
        let outers := (List.range shape.line.length).filter fun k => outerList[k]? = some true
        let polygons ← outers.mapM fun (k : Nat) => do
          let innerList ← msGetInnerList shape k outerList
          innerList.map (polygonRings shape position k)
        some (.MultiPolygon polygons)

def featureGeometry (shape : ShapeObj α) (position : PointObj α → β) : Option (GeometryJson β) :=
  match shape.type with
  | .MS_SHAPE_POINT => some (pointGeometry position shape.line)
  | .MS_SHAPE_LINE => some (lineGeometry position shape.line)
  | .MS_SHAPE_POLYGON => polygonGeometry shape position
  | .MS_SHAPE_NULL => none

def getFeatureGeometry [FloorRing α] (shape : ShapeObj α) (precision : Int) (outputCrsAxisInverted : Bool) :
    Option (GeometryJson (α × α)) :=
  featureGeometry shape fun point => roundedPosition precision outputCrsAxisInverted (point.x, point.y)

end Geometry

namespace GeometryJson
variable {β γ : Type}

def map (f : β → γ) : GeometryJson β → GeometryJson γ
  | null => null
  | Point position => Point (f position)
  | MultiPoint positions => MultiPoint (positions.map f)
  | LineString positions => LineString (positions.map f)
  | MultiLineString lines => MultiLineString (lines.map fun line => line.map f)
  | Polygon rings => Polygon (rings.map fun ring => ring.map f)
  | MultiPolygon polygons => MultiPolygon (polygons.map fun polygon => polygon.map fun ring => ring.map f)

def points : GeometryJson β → Option (List β)
  | null => some []
  | Point position => some [position]
  | MultiPoint positions => some positions
  | _ => none

def lines : GeometryJson β → Option (List (List β))
  | null => some []
  | LineString line => some [line]
  | MultiLineString lines => some lines
  | _ => none

def polygons : GeometryJson β → Option (List (List (List β)))
  | null => some []
  | Polygon rings => some [rings]
  | MultiPolygon polygons => some polygons
  | _ => none

end GeometryJson

end MapServer

namespace MapServer
open Lib.EvenOdd Lib.Loop Lib.Nesting

section Rounding

def Separates {ι β γ : Type} (f : ι → β → γ) : Prop := ∀ a b, (∀ i, f i a = f i b) → a = b

theorem Separates.list {ι β γ : Type} [Nonempty ι] {f : ι → β → γ} (separates : Separates f) :
    Separates fun i (list : List β) => list.map (f i) := by
  intro first
  induction first with
  | nil =>
    intro second same
    obtain ⟨i⟩ := ‹Nonempty ι›
    exact (List.map_eq_nil_iff.mp (same i).symm).symm
  | cons a first ih =>
    intro second same
    cases second with
    | nil =>
      obtain ⟨i⟩ := ‹Nonempty ι›
      exact List.map_eq_nil_iff.mp (same i)
    | cons b second =>
      have parts (i : ι) := List.cons.inj (same i)
      rw [separates a b fun i => (parts i).1, ih second fun i => (parts i).2]

theorem Separates.geometry {ι β γ : Type} [Nonempty ι] {f : ι → β → γ} (separates : Separates f) :
    Separates fun i (geometry : GeometryJson β) => geometry.map (f i) := by
  intro first second same
  obtain ⟨i⟩ := ‹Nonempty ι›
  have one := same i
  cases first <;> cases second <;> simp only [GeometryJson.map, reduceCtorEq] at one <;>
    simp only [GeometryJson.map, GeometryJson.Point.injEq, GeometryJson.MultiPoint.injEq, GeometryJson.LineString.injEq,
      GeometryJson.MultiLineString.injEq, GeometryJson.Polygon.injEq, GeometryJson.MultiPolygon.injEq] at same
  · rfl
  · rw [separates _ _ same]
  · rw [separates.list _ _ same]
  · rw [separates.list _ _ same]
  · rw [separates.list.list _ _ same]
  · rw [separates.list.list _ _ same]
  · rw [separates.list.list.list _ _ same]

theorem round_up_bounds (value : ℝ) (places : Nat) : value ≤ round_up value places ∧ round_up value places < value + (1 / 10) ^ places := by
  have positive : (0 : ℝ) < 10 ^ places := by positivity
  have power : ((10 : ℝ) ^ (places : Int)) = 10 ^ places := zpow_natCast 10 places
  unfold round_up
  rw [power]
  constructor
  · rw [le_div_iff₀ positive]
    exact Int.le_ceil _
  · rw [div_lt_iff₀ positive, add_mul, ← mul_pow, one_div_mul_cancel (by norm_num), one_pow]
    exact Int.ceil_lt_add_one _

theorem round_up_separates : Separates fun (places : Nat) (value : ℝ) => round_up value places := by
  have notLess (a b : ℝ) (same : ∀ places : Nat, round_up a places = round_up b places) : ¬ a < b := by
    intro less
    obtain ⟨places, small⟩ := exists_pow_lt_of_lt_one (sub_pos.mpr less) (show (1 / 10 : ℝ) < 1 by norm_num)
    have up := (round_up_bounds a places).2
    have down := (round_up_bounds b places).1
    rw [same places] at up
    linarith
  intro a b same
  exact le_antisymm (not_lt.mp (notLess b a fun places => (same places).symm)) (not_lt.mp (notLess a b same))

theorem roundedPosition_separates :
    Separates fun (mode : Int × Bool) (point : ℝ × ℝ) => roundedPosition mode.1 mode.2 point := by
  intro a b same
  have parts (places : Nat) := Prod.ext_iff.mp (same (places, false))
  exact Prod.ext (round_up_separates _ _ fun places => (parts places).1) (round_up_separates _ _ fun places => (parts places).2)

end Rounding

section Exact
variable {α β γ : Type} [Field α] [LinearOrder α]

omit [Field α] [LinearOrder α] in
theorem polygonRings_map (shape : ShapeObj α) (position : PointObj α → β) (f : β → γ) (k : Nat) (innerList : List Bool) :
    polygonRings shape (fun point => f (position point)) k innerList =
      (polygonRings shape position k innerList).map fun ring => ring.map f := by
  unfold polygonRings
  rw [List.map_filterMap]
  congr 1
  funext i
  split
  · rw [Option.map_map]
    congr 1
    funext part
    rw [Function.comp_apply, List.map_map]
    rfl
  · rfl

theorem featureGeometry_map (shape : ShapeObj α) (position : PointObj α → β) (f : β → γ) :
    featureGeometry shape (fun point => f (position point)) = (featureGeometry shape position).map (GeometryJson.map f) := by
  have part (line : LineObj α) : (line.map fun point => f (position point)) = (line.map position).map f := by
    rw [List.map_map]
    rfl
  have parts (line : List (LineObj α)) : (line.map fun part => part.map fun point => f (position point)) =
      (line.map fun part => part.map position).map fun ring => ring.map f := by
    rw [List.map_map]
    exact List.map_congr_left fun line _ => part line
  unfold featureGeometry
  split
  · rw [Option.map_some]
    congr 1
    unfold pointGeometry
    split <;> simp only [GeometryJson.map, part]
  · rw [Option.map_some]
    congr 1
    unfold lineGeometry
    split
    · rfl
    · split
      · rfl
      · split
        · simp only [GeometryJson.map, part]
        · rw [parts]
          rfl
  · unfold polygonGeometry
    split
    · rfl
    · split
      · rfl
      · cases msGetOuterList shape with
        | none => rfl
        | some outerList =>
          simp only [Option.bind_eq_bind, Option.bind_some]
          split
          · rw [parts]
            rfl
          · have each (k : Nat) : ((msGetInnerList shape k outerList).bind fun innerList =>
                innerList.map (polygonRings shape (fun point => f (position point)) k)) =
                ((msGetInnerList shape k outerList).bind fun innerList => innerList.map (polygonRings shape position k)).map
                  fun polygon => polygon.map fun ring => ring.map f := by
              cases msGetInnerList shape k outerList with
              | none => rfl
              | some innerList =>
                cases innerList with
                | none => rfl
                | some list => exact congrArg some (polygonRings_map shape position f k list)
            simp only [each, mapM_mapped]
            rw [Option.map_bind, Option.bind_map]
            rfl
  · rfl

end Exact

section Polygons
variable {shape : ShapeObj ℝ}

def ringsAt {β : Type} (shape : ShapeObj ℝ) (position : PointObj ℝ → β) (arrangement : List (List (Fin shape.line.length))) :
    List (List (List β)) :=
  arrangement.map fun rings => rings.map fun i => (shape.line.get i).map position

theorem msGetOuterList_list (valid : ValidRings shape) :
    msGetOuterList shape = some ((List.finRange shape.line.length).map fun i => decide (Even (depth (ringEncloses shape) i))) := by
  rw [msGetOuterList, ← List.map_coe_finRange_eq_range]
  exact mapM_total fun i _ => msIsOuterRing_eq valid i

theorem msGetInnerList_list (valid : ValidRings shape) {k : Fin shape.line.length} (outer : Even (depth (ringEncloses shape) k)) :
    msGetInnerList shape k.val ((List.finRange shape.line.length).map fun i => decide (Even (depth (ringEncloses shape) i))) =
      some (some ((List.finRange shape.line.length).map fun i =>
        !decide (Even (depth (ringEncloses shape) i)) && decide (ringEncloses shape k i))) := by
  have bound : ¬ ((k.val : Int) < 0 ∨ (k.val : Int) ≥ shape.line.length) := by
    omega
  have entry (i : Fin shape.line.length) : ((List.finRange shape.line.length).map fun i =>
      decide (Even (depth (ringEncloses shape) i)))[i.val]? = some (decide (Even (depth (ringEncloses shape) i))) := by
    rw [List.getElem?_map, List.getElem?_eq_getElem (by rw [List.length_finRange]; exact i.isLt), List.getElem_finRange]
    rfl
  rw [msGetInnerList, if_neg bound, Int.toNat_natCast, ← List.map_coe_finRange_eq_range]
  rw [mapM_total fun i _ => innerRingEntry_eq valid k i (entry i) fun odd same => by
    rw [← same, decide_eq_false_iff_not] at odd
    exact odd outer]
  rfl

theorem filterMap_finRange {β : Type} {n : Nat} (p : Fin n → Prop) [DecidablePred p] (g : Fin n → β) :
    (List.finRange n).filterMap (fun i => if p i then some (g i) else none) =
      ((List.finRange n).filter fun i => decide (p i)).map g := by
  induction List.finRange n with
  | nil => rfl
  | cons i rest ih =>
    by_cases holds : p i
    · rw [List.filterMap_cons, if_pos holds, List.filter_cons_of_pos (by simpa using holds), List.map_cons, ih]
    · rw [List.filterMap_cons, if_neg holds, List.filter_cons_of_neg (by simpa using holds), ih]

theorem polygonRings_eq {β : Type} (position : PointObj ℝ → β) (k : Fin shape.line.length) :
    polygonRings shape position k.val ((List.finRange shape.line.length).map fun i =>
        !decide (Even (depth (ringEncloses shape) i)) && decide (ringEncloses shape k i)) =
      (shellAndHoles (ringEncloses shape) k).map fun i => (shape.line.get i).map position := by
  rw [polygonRings, ← List.map_coe_finRange_eq_range, List.filterMap_map, shellAndHoles, ← filterMap_finRange]
  congr 1
  funext i
  have entry : ((List.finRange shape.line.length).map fun i =>
      !decide (Even (depth (ringEncloses shape) i)) && decide (ringEncloses shape k i))[i.val]? =
      some (!decide (Even (depth (ringEncloses shape) i)) && decide (ringEncloses shape k i)) := by
    rw [List.getElem?_map, List.getElem?_eq_getElem (by rw [List.length_finRange]; exact i.isLt), List.getElem_finRange]
    rfl
  have ring : shape.line[i.val]? = some (shape.line.get i) := List.getElem?_eq_getElem i.isLt
  have same : (i.val = k.val ∨ some (!decide (Even (depth (ringEncloses shape) i)) && decide (ringEncloses shape k i)) = some true) ↔
      (i = k ∨ ringEncloses shape k i ∧ ¬ Even (depth (ringEncloses shape) i)) := by
    rw [Fin.ext_iff, Option.some.injEq, Bool.and_eq_true, Bool.not_eq_true', decide_eq_false_iff_not, decide_eq_true_iff, and_comm]
  rw [Function.comp_apply, entry, ring, Option.map_some]
  exact if_congr same rfl rfl

theorem exists_outermost {ι : Type} [Fintype ι] [DecidableEq ι] {encloses : ι → ι → Prop} [DecidableRel encloses]
    (nested : Nested encloses) {a : ι} (enclosed : 0 < depth encloses a) : ∃ b, encloses b a ∧ depth encloses b = 0 := by
  obtain ⟨b, member, least⟩ := Finset.exists_min_image (enclosers encloses a) (depth encloses) (Finset.card_pos.mp enclosed)
  refine ⟨b, mem_enclosers.mp member, ?_⟩
  by_contra deep
  obtain ⟨c, outer⟩ := depth_pos.mp (Nat.pos_of_ne_zero deep)
  have less := depth_lt nested outer
  have := least c (mem_enclosers.mpr (nested.trans c b a outer (mem_enclosers.mp member)))
  omega

theorem shellAndHoles_single {n : Nat} {encloses : Fin n → Fin n → Prop} [DecidableRel encloses] (nested : Nested encloses) {k : Fin n}
    (single : shells encloses = [k]) : shellAndHoles encloses k = List.finRange n := by
  apply List.filter_eq_self.mpr
  intro i _
  rw [decide_eq_true_iff]
  have only {j : Fin n} (even : Even (depth encloses j)) : j = k := by
    have member := mem_shells.mpr even
    rw [single] at member
    exact List.mem_singleton.mp member
  by_cases even : Even (depth encloses i)
  · exact .inl (only even)
  · have enclosed : 0 < depth encloses i := by
      rw [Nat.even_iff] at even
      omega
    obtain ⟨b, outer, top⟩ := exists_outermost nested enclosed
    obtain rfl := only (by rw [top]; exact Even.zero)
    exact .inr ⟨outer, even⟩

theorem polygonGeometry_spec {β : Type} (valid : ValidRings shape) (position : PointObj ℝ → β) :
    ∃ geometry, polygonGeometry shape position = some geometry ∧
      geometry.polygons = some (ringsAt shape position ((shells (ringEncloses shape)).map (shellAndHoles (ringEncloses shape)))) := by
  unfold polygonGeometry
  split
  · rename_i empty
    have none_ : shells (ringEncloses shape) = [] := by
      rw [shells, List.finRange_eq_nil_iff.mpr (by rw [empty]; rfl)]
      rfl
    exact ⟨.null, rfl, by rw [none_]; rfl⟩
  · rename_i first rest parts
    have points := valid.points first (parts ▸ List.mem_cons_self ..)
    have count : ((List.finRange shape.line.length).map fun i => decide (Even (depth (ringEncloses shape) i))).count true =
        (shells (ringEncloses shape)).length := by
      rw [List.count, List.countP_map, List.countP_eq_length_filter, shells]
      congr 2
      funext i
      exact beq_true _
    rw [if_neg (by omega), msGetOuterList_list valid]
    simp only [Option.bind_eq_bind, Option.bind_some, count]
    split
    · rename_i one
      obtain ⟨k, single⟩ := List.length_eq_one_iff.mp one
      refine ⟨_, rfl, ?_⟩
      rw [single, List.map_singleton, shellAndHoles_single (rings_nested valid) single]
      have all : shape.line.map (fun part => part.map position) =
          (List.finRange shape.line.length).map fun i => shape.line[i].map position := by
        conv_lhs => rw [← List.map_getElem_finRange shape.line, List.map_map]
        rfl
      rw [all]
      rfl
    · have outers : (List.range shape.line.length).filter (fun k =>
          decide (((List.finRange shape.line.length).map fun i => decide (Even (depth (ringEncloses shape) i)))[k]? = some true)) =
          (shells (ringEncloses shape)).map Fin.val := by
        rw [← List.map_coe_finRange_eq_range, List.filter_map, shells]
        congr 2
        funext i
        rw [Function.comp_apply, List.getElem?_map, List.getElem?_eq_getElem (by rw [List.length_finRange]; exact i.isLt),
          List.getElem_finRange, Option.map_some]
        apply decide_eq_decide.mpr
        rw [Option.some.injEq, decide_eq_true_iff]
        rfl
      rw [outers, mapM_total (g := fun k => (shellAndHoles (ringEncloses shape) k).map fun i => (shape.line.get i).map position)]
      · refine ⟨_, rfl, ?_⟩
        rw [ringsAt, List.map_map]
        rfl
      · intro k member
        rw [msGetInnerList_list valid (mem_shells.mp member), Option.bind_some, Option.map_some, polygonRings_eq]

theorem ring_injective (valid : ValidRings shape) :
    Function.Injective fun i : Fin shape.line.length => (shape.line.get i).map PointObj.xy := by
  intro i j same
  by_contra differ
  obtain ⟨position, member⟩ := List.exists_mem_of_ne_nil _ (valid.nonempty i)
  have rings : ringOf (shape.line.get i) = ringOf (shape.line.get j) := same
  have other : position ∈ ringOf (shape.line.get j) := rings ▸ member
  exact valid.apart i j differ position (mem_boundary member) (mem_boundary other)

theorem ringsAt_injective (valid : ValidRings shape) : Function.Injective (ringsAt shape PointObj.xy) :=
  List.map_injective_iff.mpr (List.map_injective_iff.mpr (ring_injective valid))

end Polygons

section Shapes
variable {shape : ShapeObj ℝ}

def ShowsShape (shape : ShapeObj ℝ) (geometry : GeometryJson (ℝ × ℝ)) : Prop :=
  match shape.type with
  | .MS_SHAPE_POINT => geometry.points = some (shape.line.flatten.map PointObj.xy)
  | .MS_SHAPE_LINE => geometry.lines = some (shape.line.map fun part => part.map PointObj.xy)
  | .MS_SHAPE_POLYGON => ∃ arrangement, geometry.polygons = some (ringsAt shape PointObj.xy arrangement) ∧
      Arranged (ringEncloses shape) arrangement
  | .MS_SHAPE_NULL => False

def GeometryIsShape (shape : ShapeObj ℝ) : Prop :=
  ∃ geometry, (∀ precision inverted, getFeatureGeometry shape precision inverted =
    some (geometry.map (roundedPosition precision inverted))) ∧ ShowsShape shape geometry

def PartsFit (shape : ShapeObj ℝ) : Prop :=
  match shape.type with
  | .MS_SHAPE_POINT => ∀ part ∈ shape.line.tail, part = []
  | .MS_SHAPE_LINE => ∀ first ∈ shape.line.head?, 2 ≤ first.length
  | .MS_SHAPE_POLYGON => (∀ i, depth (ringEncloses shape) i < 3) ∧ ∀ k i, Even (depth (ringEncloses shape) k) →
      ringEncloses shape k i → ¬ Even (depth (ringEncloses shape) i) → k < i
  | .MS_SHAPE_NULL => False

theorem geometryIsShape_exact (shape : ShapeObj ℝ) :
    GeometryIsShape shape ↔ ∃ geometry, featureGeometry shape PointObj.xy = some geometry ∧ ShowsShape shape geometry := by
  have rounded (precision : Int) (inverted : Bool) : getFeatureGeometry shape precision inverted =
      (featureGeometry shape PointObj.xy).map (GeometryJson.map (roundedPosition precision inverted)) :=
    featureGeometry_map shape PointObj.xy (roundedPosition precision inverted)
  constructor
  · rintro ⟨geometry, returned, shows_⟩
    refine ⟨geometry, ?_, shows_⟩
    cases exact_ : featureGeometry shape PointObj.xy with
    | none =>
      have one := returned 0 false
      rw [rounded, exact_] at one
      cases one
    | some other =>
      congr 1
      apply roundedPosition_separates.geometry
      rintro ⟨precision, inverted⟩
      have one := returned precision inverted
      rw [rounded, exact_] at one
      exact Option.some.inj one
  · rintro ⟨geometry, exact_, shows_⟩
    refine ⟨geometry, fun precision inverted => ?_, shows_⟩
    rw [rounded, exact_]
    rfl

theorem pointGeometry_points {α β : Type} [Field α] [LinearOrder α] (position : PointObj α → β) (line : List (LineObj α)) :
    (pointGeometry position line).points = some ((line.head?.getD []).map position) := by
  unfold pointGeometry
  split <;> rfl

theorem lineGeometry_lines {α β : Type} [Field α] [LinearOrder α] (position : PointObj α → β) (line : List (LineObj α)) :
    (lineGeometry position line).lines =
      some (if ∀ first ∈ line.head?, 2 ≤ first.length then line.map fun part => part.map position else []) := by
  unfold lineGeometry
  cases line with
  | nil => rw [if_pos (fun first none_ => by cases none_)]; rfl
  | cons first rest =>
    dsimp only
    by_cases short : first.length < 2
    · rw [if_pos short, if_neg]
      · rfl
      · intro long
        have := long first rfl
        omega
    · have long : ∀ other ∈ (first :: rest).head?, 2 ≤ other.length := by
        intro other same
        obtain rfl := Option.some.inj same
        omega
      rw [if_neg short, if_pos long]
      split
      · rename_i single
        rw [single]
        rfl
      · rfl

theorem polygon_isShape (type : shape.type = .MS_SHAPE_POLYGON) (rings : ValidRings shape) :
    GeometryIsShape shape ↔ (∀ i, depth (ringEncloses shape) i < 3) ∧ ∀ k i, Even (depth (ringEncloses shape) k) →
      ringEncloses shape k i → ¬ Even (depth (ringEncloses shape) i) → k < i := by
  obtain ⟨geometry, returned, polygons⟩ := polygonGeometry_spec rings PointObj.xy
  rw [geometryIsShape_exact, ← arranged_iff (rings_nested rings)]
  simp only [featureGeometry, ShowsShape, type, returned, Option.some.injEq, exists_eq_left', polygons]
  constructor
  · rintro ⟨arrangement, same, arranged⟩
    rw [ringsAt_injective rings same]
    exact arranged
  · intro arranged
    exact ⟨_, rfl, arranged⟩

theorem points_isShape (type : shape.type = .MS_SHAPE_POINT) : GeometryIsShape shape ↔ ∀ part ∈ shape.line.tail, part = [] := by
  rw [geometryIsShape_exact]
  simp only [featureGeometry, ShowsShape, type, Option.some.injEq, exists_eq_left', pointGeometry_points]
  cases shape.line with
  | nil => exact iff_of_true rfl fun part member => by cases member
  | cons first rest =>
    rw [List.head?_cons, Option.getD_some, List.flatten_cons, List.map_append, List.self_eq_append_right, List.map_eq_nil_iff,
      List.flatten_eq_nil_iff, List.tail_cons]

theorem lines_isShape (type : shape.type = .MS_SHAPE_LINE) :
    GeometryIsShape shape ↔ ∀ first ∈ shape.line.head?, 2 ≤ first.length := by
  rw [geometryIsShape_exact]
  simp only [featureGeometry, ShowsShape, type, Option.some.injEq, exists_eq_left', lineGeometry_lines]
  split
  · rename_i long
    exact iff_of_true rfl long
  · rename_i short
    refine iff_of_false (fun none_ => short ?_) short
    intro first same
    rw [eq_comm, List.map_eq_nil_iff] at none_
    rw [none_] at same
    cases same

/-- The geometry of a shape is the shape just when its parts fit what is done with them. -/
theorem getFeatureGeometry_isShape (shape : ShapeObj ℝ) (valid : shape.type = .MS_SHAPE_POLYGON → ValidRings shape) :
    GeometryIsShape shape ↔ PartsFit shape := by
  unfold PartsFit
  cases type : shape.type with
  | MS_SHAPE_POINT => exact points_isShape type
  | MS_SHAPE_LINE => exact lines_isShape type
  | MS_SHAPE_POLYGON => exact polygon_isShape type (valid type)
  | MS_SHAPE_NULL =>
    rw [geometryIsShape_exact]
    simp only [featureGeometry, ShowsShape, type]
    exact iff_of_false (fun ⟨geometry, _, no⟩ => no) id

theorem depth_lt_card (rings : ValidRings shape) (i : Fin shape.line.length) : depth (ringEncloses shape) i < shape.line.length := by
  have less := Finset.card_lt_univ_of_notMem (s := enclosers (ringEncloses shape) i) (x := i)
    fun member => (rings_nested rings).irrefl i (mem_enclosers.mp member)
  rw [Fintype.card_fin] at less
  exact less

end Shapes

theorem getFeatureGeometry_isShape_hole : GeometryIsShape (squares [2, 1]) := by
  have positive : ∀ k ∈ [(2 : ℝ), 1], 0 < k := by norm_num
  have rings : ValidRings (squares [2, 1]) := squares_valid positive (by norm_num)
  refine (getFeatureGeometry_isShape (squares [2, 1]) fun _ => rings).mpr ⟨fun i => ?_, fun k i _ inside _ => ?_⟩
  · exact (depth_lt_card rings i).trans (by decide)
  · have outer := squares_encloses positive ⟨0, by decide⟩ ⟨1, by decide⟩ rfl rfl (by norm_num)
    by_contra before
    have first : i = ⟨0, by decide⟩ := by
      have small : k.val < 2 := k.isLt
      have differ : k.val ≠ i.val := fun same => inside.1 (Fin.ext same)
      apply Fin.ext
      show i.val = 0
      omega
    have second : k = ⟨1, by decide⟩ := by
      have small : k.val < 2 := k.isLt
      have differ : k.val ≠ i.val := fun same => inside.1 (Fin.ext same)
      apply Fin.ext
      show k.val = 1
      omega
    rw [first, second] at inside
    exact (rings_nested rings).irrefl _ ((rings_nested rings).trans _ _ _ inside outer)

def pointParts (a b : ℝ) : ShapeObj ℝ :=
  ⟨[[cornerPoint a a], [cornerPoint b b]], ⟨a, a, b, b⟩, .MS_SHAPE_POINT, 0⟩

theorem geometry_is_other :
    ¬ GeometryIsShape (pointParts 1 2) ∧ ValidRings (squares [1, 2]) ∧ ¬ GeometryIsShape (squares [1, 2]) := by
  have positive : ∀ k ∈ [(1 : ℝ), 2], 0 < k := by norm_num
  have rings : ValidRings (squares [1, 2]) := squares_valid positive (by norm_num)
  refine ⟨?_, rings, ?_⟩
  · intro same
    have empty := (points_isShape rfl).mp same [cornerPoint 2 2] (List.mem_singleton_self _)
    cases empty
  · intro same
    obtain ⟨_, behind⟩ := (polygon_isShape rfl rings).mp same
    have outer := squares_encloses positive ⟨1, by decide⟩ ⟨0, by decide⟩ rfl rfl (by norm_num)
    have deeper := depth_lt (rings_nested rings) outer
    have two : depth (ringEncloses (squares [1, 2])) ⟨0, by decide⟩ < 2 := depth_lt_card rings _
    have less := behind _ _ (by rw [Nat.even_iff]; omega) outer (by rw [Nat.even_iff]; omega)
    exact absurd less (by decide)

end MapServer
