import MapServer.Query.LayersAlone

namespace MapServer.LayerQueries
open Lib.FirstMatches List Option

variable {K : Type}

/-- A layer with the `numresults` of its result cache, if it has one. -/
structure CountedLayer (K : Type) where
  layer : LayerObj K
  numresults : Option Int

def numresultsOf (lp : LayerObj K) : Option Int := lp.resultcache.map fun results => (results.length : Int)

def visitLayers {L : Type} (body : LoopState K → L → LayerOutcome × LoopState K × L) :
    List Nat → LoopState K → List L → Bool × List L
  | [], _, layers => (true, layers)
  | l :: rest, s, layers =>
    match layers[l]? with
    | none => (true, layers)
    | some lp =>
      let (outcome, s, lp) := body s lp
      match outcome with
      | .next => visitLayers body rest s (layers.set l lp)
      | .stop => (true, layers.set l lp)
      | .MS_FAILURE => (false, layers.set l lp)

def countedLayers (map : MapObj K) : List (CountedLayer K) := map.layers.map fun lp => ⟨lp, numresultsOf lp⟩

section Visits
variable {L : Type} {body : LoopState K → L → LayerOutcome × LoopState K × L} {map : MapObj K} {l : Nat} {lp : LayerObj K}

theorem queryLayers_eq (body : LoopState K → LayerObj K → LayerOutcome × LoopState K × LayerObj K) (numbers : List Nat)
    (s : LoopState K) (layers : List (LayerObj K)) : queryLayers body numbers s layers = visitLayers body numbers s layers := by
  induction numbers generalizing s layers with
  | nil => rfl
  | cons l rest ih =>
    rw [queryLayers, visitLayers]
    cases layers[l]? with
    | none => rfl
    | some lp =>
      dsimp only
      split <;> simp only [*]

theorem visitLayers_other {numbers : List Nat} {l : Nat} (other : l ∉ numbers) (s : LoopState K) (layers : List L) :
    (visitLayers body numbers s layers).2[l]? = layers[l]? := by
  induction numbers generalizing s layers with
  | nil => rfl
  | cons first rest ih =>
    rw [mem_cons, not_or] at other
    rw [visitLayers]
    cases layers[first]? with
    | none => rfl
    | some lp =>
      dsimp only
      split
      · rw [ih other.2, getElem?_set_ne (Ne.symm other.1)]
      · rw [getElem?_set_ne (Ne.symm other.1)]
      · rw [getElem?_set_ne (Ne.symm other.1)]

theorem visitLayers_first {l : Nat} {others : List Nat} (once : l ∉ others) (s : LoopState K) {layers : List L} {lp : L}
    (at_ : layers[l]? = some lp) : (visitLayers body (l :: others) s layers).2[l]? = some (body s lp).2.2 := by
  have inside := (List.getElem?_eq_some_iff.mp at_).1
  rw [visitLayers, at_]
  dsimp only
  split
  · rw [visitLayers_other once, getElem?_set_self inside]
  · rw [getElem?_set_self inside]
  · rw [getElem?_set_self inside]

theorem visited_nodup (map : MapObj K) : (visited map).Nodup := by
  rw [visited]
  split
  · exact nodup_reverse.mpr nodup_range
  · exact nodup_singleton _

/-- `numresults` of a layer, zero without a result cache. -/
def resultsLeft (layers : List (LayerObj K)) (l : Nat) : Int := (layers[l]?.bind numresultsOf).getD 0

def countLeft (layers : List (CountedLayer K)) (l : Nat) : Int := (layers[l]?.bind CountedLayer.numresults).getD 0

def CountAgrees (counted : Bool × List (CountedLayer K)) (fetched : Bool × List (LayerObj K)) (l : Nat) : Prop :=
  countLeft counted.2 l = resultsLeft fetched.2 l ∧ 0 ≤ countLeft counted.2 l

/-- The layer that is visited first reads without paging, and has a template and no feature size. -/
structure CountedFirst (map : MapObj K) (l : Nat) (lp : LayerObj K) : Prop where
  visited : ∃ others, LayerQueries.visited map = l :: others
  at_ : map.layers[l]? = some lp
  template : lp.template.isSome
  noPaging : lp.paging = false
  noSize : lp.minfeaturesize ≤ 0

theorem countedLayers_at (at_ : map.layers[l]? = some lp) : (countedLayers map)[l]? = some ⟨lp, numresultsOf lp⟩ := by
  rw [countedLayers, getElem?_map, at_]
  rfl

theorem countAgrees_turns (first : CountedFirst map l lp)
    {counting : LoopState K → CountedLayer K → LayerOutcome × LoopState K × CountedLayer K}
    {fetching : LoopState K → LayerObj K → LayerOutcome × LoopState K × LayerObj K} {s : LoopState K} {counted fetched : Int}
    (counts : (counting s ⟨lp, numresultsOf lp⟩).2.2.numresults.getD 0 = counted)
    (fetches : (numresultsOf (fetching s lp).2.2).getD 0 = fetched) :
    CountAgrees (visitLayers counting (visited map) s (countedLayers map)) (queryLayers fetching (visited map) s map.layers) l ↔
      counted = fetched ∧ 0 ≤ counted := by
  obtain ⟨others, visits⟩ := first.visited
  have once : l ∉ others := by
    have nodup := visited_nodup map
    rw [visits] at nodup
    exact (nodup_cons.mp nodup).1
  rw [CountAgrees, countLeft, resultsLeft, visits, queryLayers_eq, visitLayers_first once s (countedLayers_at first.at_),
    visitLayers_first once s first.at_]
  dsimp only [bind_some]
  rw [counts, fetches]

theorem numresultsOf_nonneg (lp : LayerObj K) : 0 ≤ (numresultsOf lp).getD 0 := by
  unfold numresultsOf
  cases lp.resultcache with
  | none => exact Int.le_refl _
  | some results => exact Int.natCast_nonneg _

theorem countAgrees_unchanged (at_ : map.layers[l]? = some lp) (succeeds : Bool) :
    CountAgrees (succeeds, countedLayers map) (succeeds, map.layers) l := by
  rw [CountAgrees, countLeft, resultsLeft, countedLayers_at at_, at_]
  exact ⟨rfl, numresultsOf_nonneg lp⟩

end Visits

def LayerSearch.fails : LayerSearch K → Bool
  | .MS_FAILURE => true
  | _ => false

theorem found_of_fails {search : LayerSearch K} (fails : search.fails = true) : search.found = [] := by
  cases search with
  | MS_FAILURE => rfl
  | MS_DONE => rfl
  | shapes list complete => cases fails

variable [Field K] [LinearOrder K]

/-- The test of `LayerDefaultGetShapeCount`: a null shape has no case, and is left with the status of the reading. -/
def shapeCounted (rect : RectObj K) (searchshape : List (LineObj K)) (shape : ShapeObj K) : Bool :=
  if msRectContained shape.bounds rect then true
  else match shape.type with
    | .MS_SHAPE_POINT => msIntersectMultipointPolygon shape.line searchshape
    | .MS_SHAPE_LINE => msIntersectPolylinePolygon shape.line searchshape
    | .MS_SHAPE_POLYGON => msIntersectPolygons shape.line searchshape
    | .MS_SHAPE_NULL => false

def countShapes (layer : LayerObj K) (rect : RectObj K) (searchshape : List (LineObj K)) : List (QueryShape K) → Int → Int
  | [], nShapeCount => nShapeCount
  | found :: rest, nShapeCount =>
    let nShapeCount := if shapeCounted rect searchshape found.shape then nShapeCount + 1 else nShapeCount
    if layer.maxfeatures > 0 ∧ layer.maxfeatures = nShapeCount then nShapeCount
    else countShapes layer rect searchshape rest nShapeCount

def LayerDefaultGetShapeCount (layer : LayerObj K) (search : LayerSearch K) (rect : RectObj K) : Int :=
  match search with
  | .MS_FAILURE => -1
  | .MS_DONE => 0
  | .shapes shapes _ => countShapes layer rect (msRectToPolygon rect []) shapes 0

/-- The results by `msLayerGetShapeCount`, if it can be used. -/
def countedResults (s : LoopState K) (lp : LayerObj K) (search : LayerSearch K) (rect : RectObj K) : Option Int :=
  if lp.template.isSome ∧ lp.minfeaturesize ≤ 0 then
    let numFeatures := LayerDefaultGetShapeCount lp search rect
    if numFeatures ≥ 0 then some (if !lp.paging ∧ s.startindex > 1 then numFeatures - (s.startindex - 1) else numFeatures)
    else none
  else none

def countByLoop (ran : LayerOutcome × LoopState K × LayerObj K) : LayerOutcome × LoopState K × CountedLayer K :=
  (ran.1, ran.2.1, ⟨{ ran.2.2 with resultcache := none }, numresultsOf ran.2.2⟩)

def countLayerByFilter (map : MapObj K) (s : LoopState K) (lp : CountedLayer K) :
    LayerOutcome × LoopState K × CountedLayer K :=
  if s.maxfeatures = 0 then (.stop, s, lp)
  else
    let (entered, layer) := enterLayer s lp.layer
    if !layerShown map entered.extent layer then (.next, entered, ⟨layer, none⟩)
    else match countedResults entered layer (searchByFilter map.query layer) map.query.rect with
      | some numresults => (.next, entered, ⟨layer, some numresults⟩)
      | none => countByLoop (queryLayerByFilter map s lp.layer)

def countLayerByRect (map : MapObj K) (s : LoopState K) (lp : CountedLayer K) :
    LayerOutcome × LoopState K × CountedLayer K :=
  if s.maxfeatures = 0 then (.stop, s, lp)
  else
    let (entered, layer) := enterLayer s lp.layer
    if !layerShown map entered.extent layer then (.next, entered, ⟨layer, none⟩)
    else
      let (searchrect, extent) := searchRect map entered.extent layer
      match countedResults entered layer (searchByRect layer searchrect) searchrect with
      | some numresults => (.next, { entered with extent, searchshape := [] }, ⟨layer, some numresults⟩)
      | none => countByLoop (queryLayerByRect map s lp.layer)

/-- `msQueryByFilter` with `only_cache_result_count`. -/
def msQueryByFilterCount (map : MapObj K) : Bool × List (CountedLayer K) :=
  if map.query.type ≠ .MS_QUERY_BY_FILTER ∨ map.query.filter.string = none then (false, countedLayers map)
  else visitLayers (countLayerByFilter map) (visited map) (initialState map) (countedLayers map)

/-- `msQueryByRect` with `only_cache_result_count`. -/
def msQueryByRectCount (map : MapObj K) : Bool × List (CountedLayer K) :=
  if map.query.type ≠ .MS_QUERY_BY_RECT then (false, countedLayers map)
  else visitLayers (countLayerByRect map) (visited map) (initialState map) (countedLayers map)

section Shapes
variable {map : MapObj K} {s : LoopState K} {lp : LayerObj K}

theorem limitedCount_of_room {limit : Option Nat} {count : Nat} (room : HasRoom limit count) : limitedCount limit count = count := by
  cases limit with
  | none => rfl
  | some most => exact Nat.min_eq_right (room most rfl).le

theorem limitedCount_reached {most count : Nat} (reached : most ≤ count) : limitedCount (some most) count = most :=
  Nat.min_eq_left reached

theorem limitedCount_zero (limit : Option Nat) : limitedCount limit 0 = 0 := by
  cases limit with
  | none => rfl
  | some most => exact Nat.min_zero most

theorem countShapes_eq (rect : RectObj K) (searchshape : List (LineObj K)) (shapes : List (QueryShape K)) {count : Nat}
    (room : HasRoom (rectLimit lp) count) :
    countShapes lp rect searchshape shapes count =
      limitedCount (rectLimit lp) (count + shapes.countP fun found => shapeCounted rect searchshape found.shape) := by
  induction shapes generalizing count with
  | nil =>
    rw [countP_nil, Nat.add_zero, limitedCount_of_room room]
    rfl
  | cons found rest ih =>
    rw [countShapes]
    cases counted : shapeCounted rect searchshape found.shape with
    | false =>
      have open_ : ¬(lp.maxfeatures > 0 ∧ lp.maxfeatures = count) := by
        rintro ⟨limit, reached⟩
        have := room lp.maxfeatures.toNat (if_pos limit)
        omega
      rw [if_neg Bool.false_ne_true, if_neg open_, countP_cons_of_neg (by simp [counted])]
      exact ih room
    | true =>
      have more : ((count : Int) + 1) = (count + 1 : Nat) := rfl
      rw [if_pos rfl, countP_cons_of_pos (by simp [counted]), more, ← Nat.add_assoc, Nat.add_right_comm]
      have reached := @rectLimit_reached _ lp (count + 1) (Nat.succ_pos _)
      by_cases full : lp.maxfeatures > 0 ∧ lp.maxfeatures = (count + 1 : Nat)
      · rw [if_pos full, reached.mpr full, limitedCount_reached (Nat.le_add_right _ _)]
      · rw [if_neg full]
        apply ih
        intro most limit
        have := room most limit
        have notFull : most ≠ count + 1 := fun same => full (reached.mp (by rw [← same]; exact limit))
        omega

theorem filterShapes_skip (accepts : ∀ found, filterAccepts map s lp found = true) (noPaging : lp.paging = false)
    (shapes : List (QueryShape K)) {startindex : Int} (skips : 1 < startindex) :
    (filterShapes map s lp shapes startindex []).1 = (filterShapes map s lp (shapes.drop (startindex - 1).toNat) 1 []).1 := by
  induction shapes generalizing startindex with
  | nil =>
    rw [drop_nil]
    rfl
  | cons found rest ih =>
    have accepted := accepts found
    rw [filterAccepts, Bool.and_eq_true, isSome_iff_exists] at accepted
    obtain ⟨fits, classindex, cls⟩ := accepted
    have next : (startindex - 1).toNat = (startindex - 1 - 1).toNat + 1 := by omega
    rw [filterShapes, fits, cls]
    dsimp only
    rw [if_neg (by decide), if_pos ⟨by rw [noPaging]; rfl, skips⟩, next, drop_succ_cons]
    by_cases more : 1 < startindex - 1
    · exact ih more
    · have last : startindex - 1 = 1 := by omega
      rw [last]
      rfl

theorem rectShapes_skip (accepts : ∀ found, filterAccepts map s lp found = true) (noPaging : lp.paging = false)
    (searchrect : RectObj K) (shapes : List (QueryShape K)) {startindex : Int} (maxfeatures : Int) (skips : 1 < startindex) :
    ∃ rest, (rectShapes map s lp searchrect shapes startindex maxfeatures []).1 =
        (rectShapes map s lp searchrect rest 1 maxfeatures []).1 ∧
      (rest.countP fun found => shapeInSearch searchrect s.searchshape found.shape) =
        (shapes.countP fun found => shapeInSearch searchrect s.searchshape found.shape) - (startindex - 1).toNat := by
  induction shapes generalizing startindex with
  | nil => exact ⟨[], rfl, by rw [countP_nil, Nat.zero_sub]⟩
  | cons found rest ih =>
    have accepted := accepts found
    rw [filterAccepts, Bool.and_eq_true, isSome_iff_exists] at accepted
    obtain ⟨fits, classindex, cls⟩ := accepted
    rw [rectShapes, fits, cls]
    dsimp only
    cases inside : shapeInSearch searchrect s.searchshape found.shape with
    | false =>
      have open_ : ¬(lp.maxfeatures > 0 ∧ lp.maxfeatures = ([] : List ResultObj).length) := by
        rw [length_nil]
        omega
      rw [if_neg (by decide), if_neg (by simp), if_neg Bool.false_ne_true, if_neg Bool.false_ne_true, if_neg open_,
        countP_cons_of_neg (by simp [inside])]
      exact ih skips
    | true =>
      have next : (startindex - 1).toNat = (startindex - 1 - 1).toNat + 1 := by omega
      rw [if_neg (by decide), if_pos ⟨rfl, by rw [noPaging]; rfl, skips⟩, countP_cons_of_pos (by simp [inside]), next,
        Nat.add_sub_add_right]
      by_cases more : 1 < startindex - 1
      · exact ih more
      · have last : startindex - 1 = 1 := by omega
        rw [last]
        exact ⟨rest, rfl, rfl⟩

theorem length_filterShapes (accepts : ∀ found, filterAccepts map s lp found = true) (noPaging : lp.paging = false)
    (shapes : List (QueryShape K)) (startindex : Int) :
    (filterShapes map s lp shapes startindex []).1.length =
      limitedCount (filterLimit map lp) (shapes.length - (startindex - 1).toNat) := by
  have number (list : List (QueryShape K)) {first : Int} (one : first ≤ 1) :
      (filterShapes map s lp list first []).1.length = limitedCount (filterLimit map lp) list.length := by
    obtain ⟨left, run⟩ := filterShapes_spec list one (hasRoom_filterLimit map lp)
    rw [run, nil_append, limitBehind_nil, length_limited, length_map,
      filter_eq_self.mpr fun found _ => accepts found]
  by_cases skips : 1 < startindex
  · rw [filterShapes_skip accepts noPaging shapes skips, number _ (Int.le_refl 1), length_drop]
  · rw [number shapes (by omega), show (startindex - 1).toNat = 0 by omega, Nat.sub_zero]

theorem length_rectShapes (accepts : ∀ found, filterAccepts map s lp found = true) (noPaging : lp.paging = false)
    (searchrect : RectObj K) (shapes : List (QueryShape K)) (startindex maxfeatures : Int) :
    (rectShapes map s lp searchrect shapes startindex maxfeatures []).1.length =
      limitedCount (rectLimit lp)
        ((shapes.countP fun found => shapeInSearch searchrect s.searchshape found.shape) - (startindex - 1).toNat) := by
  have number (list : List (QueryShape K)) {first : Int} (one : first ≤ 1) :
      (rectShapes map s lp searchrect list first maxfeatures []).1.length =
        limitedCount (rectLimit lp) (list.countP fun found => shapeInSearch searchrect s.searchshape found.shape) := by
    obtain ⟨after, left, run, -⟩ :=
      @rectShapes_spec _ _ _ map s lp searchrect list first maxfeatures one [] (hasRoom_rectLimit lp)
    have takes : rectAccepts map s lp searchrect = fun found => shapeInSearch searchrect s.searchshape found.shape := by
      funext found
      rw [rectAccepts, accepts, Bool.true_and]
    rw [run, nil_append, limitBehind_nil, length_limited, length_map, takes, countP_eq_length_filter]
  by_cases skips : 1 < startindex
  · obtain ⟨rest, same, fewer⟩ := rectShapes_skip accepts noPaging searchrect shapes maxfeatures skips
    rw [same, number rest (Int.le_refl 1), fewer]
  · rw [number shapes (by omega), show (startindex - 1).toNat = 0 by omega, Nat.sub_zero]

end Shapes

def skipped (map : MapObj K) (lp : LayerObj K) : Nat := ((enterLayer (initialState map) lp).1.startindex - 1).toNat

def entered (map : MapObj K) (lp : LayerObj K) : LayerObj K := (enterLayer (initialState map) lp).2

def inRect (rect : RectObj K) (found : QueryShape K) : Bool := shapeInSearch rect (msRectToPolygon rect []) found.shape

def countedIn (rect : RectObj K) (found : QueryShape K) : Bool := shapeCounted rect (msRectToPolygon rect []) found.shape

section Turns
variable {map : MapObj K} {lp : LayerObj K}

omit [LinearOrder K] in
theorem minfeaturesize_enterLayer : (enterLayer (initialState map) lp).1.minfeaturesize = -1 := by
  unfold enterLayer
  split <;> rfl

theorem layerShown_entered :
    layerShown map (enterLayer (initialState map) lp).1.extent (entered map lp) = layerShown map map.extent lp := by
  unfold entered enterLayer
  split <;> rfl

theorem searchRect_entered :
    searchRect map (enterLayer (initialState map) lp).1.extent (entered map lp) = searchRect map map.extent lp := by
  unfold entered enterLayer
  split <;> rfl

omit [LinearOrder K] in
theorem searchshape_enterLayer : (enterLayer (initialState map) lp).1.searchshape = [] := by
  unfold enterLayer
  split <;> rfl

theorem LayerDefaultGetShapeCount_eq {search : LayerSearch K} (reads : search.fails = false) (rect : RectObj K) :
    LayerDefaultGetShapeCount lp search rect = limitedCount (rectLimit lp) (search.found.countP (countedIn rect)) := by
  cases search with
  | MS_FAILURE => cases reads
  | MS_DONE =>
    show (0 : Int) = limitedCount (rectLimit lp) (([] : List (QueryShape K)).countP (countedIn rect))
    rw [countP_nil, limitedCount_zero, Int.natCast_zero]
  | shapes list complete =>
    have counts := @countShapes_eq _ _ _ lp rect (msRectToPolygon rect []) list _ (hasRoom_rectLimit lp)
    rw [length_nil, Nat.zero_add] at counts
    exact counts

theorem countedResults_eq (template : lp.template.isSome) (noPaging : lp.paging = false) (noSize : lp.minfeaturesize ≤ 0)
    (s : LoopState K) {search : LayerSearch K} (reads : search.fails = false) (rect : RectObj K) :
    countedResults s lp search rect =
      some (limitedCount (rectLimit lp) (search.found.countP (countedIn rect)) - ((s.startindex - 1).toNat : Int)) := by
  rw [countedResults, if_pos ⟨template, noSize⟩, LayerDefaultGetShapeCount_eq reads rect]
  rw [if_pos (Int.natCast_nonneg _), noPaging]
  by_cases skips : s.startindex > 1
  · rw [if_pos ⟨rfl, skips⟩]
    exact congrArg some (by omega)
  · rw [if_neg fun both => skips both.2]
    exact congrArg some (by omega)

theorem countedResults_fails {search : LayerSearch K} (fails : search.fails = true) (s : LoopState K) (rect : RectObj K) :
    countedResults s lp search rect = none := by
  cases search with
  | MS_FAILURE =>
    rw [countedResults, LayerDefaultGetShapeCount]
    simp
  | MS_DONE => cases fails
  | shapes list complete => cases fails

theorem numresults_shown (template : lp.template.isSome) (noPaging : lp.paging = false) (noSize : lp.minfeaturesize ≤ 0)
    {s after : LoopState K} {search : LayerSearch K} {rect : RectObj K} {ran : LayerOutcome × LoopState K × LayerObj K}
    (nothing : search.fails = true → (numresultsOf ran.2.2).getD 0 = 0) :
    (match countedResults s lp search rect with
      | some numresults => (LayerOutcome.next, after, (⟨lp, some numresults⟩ : CountedLayer K))
      | none => countByLoop ran).2.2.numresults.getD 0 =
      if search.fails = false then
        limitedCount (rectLimit lp) (search.found.countP (countedIn rect)) - ((s.startindex - 1).toNat : Int)
      else 0 := by
  cases fails : search.fails with
  | true =>
    rw [countedResults_fails fails, if_neg (by simp)]
    exact nothing fails
  | false =>
    rw [countedResults_eq template noPaging noSize _ fails, if_pos rfl]
    rfl

theorem inRect_of_countedIn {rect : RectObj K} {found : QueryShape K} (counted : countedIn rect found = true) :
    inRect rect found = true := by
  unfold countedIn shapeCounted at counted
  unfold inRect shapeInSearch
  split at counted
  · rename_i contained
    rw [if_pos contained]
  · rename_i notContained
    rw [if_neg notContained]
    split at counted <;> simp_all

variable [IsStrictOrderedRing K]

theorem accepts_first (template : lp.template.isSome) (noSize : lp.minfeaturesize ≤ 0) {s : LoopState K} {extent : RectObj K}
    (size : s.minfeaturesize = minfeaturesizeOf map extent (entered map lp) (enterLayer (initialState map) lp).1.minfeaturesize)
    (found : QueryShape K) : filterAccepts map s (entered map lp) found = true := by
  have unset : s.minfeaturesize = -1 := by
    rw [size, minfeaturesize_enterLayer, minfeaturesizeOf, if_neg]
    exact Int.not_lt.mpr noSize
  rw [filterAccepts, unset, sizeAccepts_unset, shapeClass, if_pos (show (entered map lp).template.isSome from template)]
  rfl

variable (template : lp.template.isSome) (noPaging : lp.paging = false) (noSize : lp.minfeaturesize ≤ 0)
include template noPaging noSize

theorem queryLayerByFilter_first :
    (numresultsOf (queryLayerByFilter map (initialState map) lp).2.2).getD 0 =
      if map.query.maxfeatures = 0 then (numresultsOf lp).getD 0
      else if layerShown map map.extent lp then
        (limitedCount (filterLimit map (entered map lp)) ((searchByFilter map.query lp).found.length - skipped map lp) : Int)
      else 0 := by
  rw [queryLayerByFilter]
  by_cases stop : map.query.maxfeatures = 0
  · rw [if_pos stop, if_pos (show (initialState map).maxfeatures = 0 from stop)]
  · rw [if_neg stop, if_neg (show ¬(initialState map).maxfeatures = 0 from stop)]
    dsimp only
    rw [show (enterLayer (initialState map) lp).2 = entered map lp from rfl, layerShown_entered,
      show searchByFilter map.query (entered map lp) = searchByFilter map.query lp from rfl]
    cases shown : layerShown map map.extent lp with
    | false => rfl
    | true =>
      rw [if_neg (by decide), if_pos rfl]
      have nothing : (limitedCount (filterLimit map (entered map lp)) (([] : List (QueryShape K)).length - skipped map lp) : Int) = 0 := by
        rw [length_nil, Nat.zero_sub, limitedCount_zero, Int.natCast_zero]
      cases searchByFilter map.query lp with
      | MS_FAILURE => exact nothing.symm
      | MS_DONE => exact nothing.symm
      | shapes list complete =>
        exact congrArg Int.ofNat (length_filterShapes (accepts_first template noSize rfl) noPaging list _)

theorem queryLayerByRect_first :
    (numresultsOf (queryLayerByRect map (initialState map) lp).2.2).getD 0 =
      if map.query.maxfeatures = 0 then (numresultsOf lp).getD 0
      else if layerShown map map.extent lp then
        (limitedCount (rectLimit (entered map lp))
          ((searchByRect lp (layerRect map lp)).found.countP (inRect (layerRect map lp)) - skipped map lp) : Int)
      else 0 := by
  rw [queryLayerByRect]
  by_cases stop : map.query.maxfeatures = 0
  · rw [if_pos stop, if_pos (show (initialState map).maxfeatures = 0 from stop)]
  · rw [if_neg stop, if_neg (show ¬(initialState map).maxfeatures = 0 from stop)]
    dsimp only
    rw [show (enterLayer (initialState map) lp).2 = entered map lp from rfl, layerShown_entered, searchRect_entered,
      searchshape_enterLayer, show (searchRect map map.extent lp).1 = layerRect map lp from rfl,
      show searchByRect (entered map lp) (layerRect map lp) = searchByRect lp (layerRect map lp) from rfl]
    cases shown : layerShown map map.extent lp with
    | false => rfl
    | true =>
      rw [if_neg (by decide), if_pos rfl]
      have nothing : (limitedCount (rectLimit (entered map lp))
          (([] : List (QueryShape K)).countP (inRect (layerRect map lp)) - skipped map lp) : Int) = 0 := by
        rw [countP_nil, Nat.zero_sub, limitedCount_zero, Int.natCast_zero]
      cases searchByRect lp (layerRect map lp) with
      | MS_FAILURE => exact nothing.symm
      | MS_DONE => exact nothing.symm
      | shapes list complete =>
        exact congrArg Int.ofNat (length_rectShapes (accepts_first template noSize rfl) noPaging _ list _ _)

theorem countLayerByFilter_first :
    (countLayerByFilter map (initialState map) ⟨lp, numresultsOf lp⟩).2.2.numresults.getD 0 =
      if map.query.maxfeatures = 0 then (numresultsOf lp).getD 0
      else if layerShown map map.extent lp ∧ (searchByFilter map.query lp).fails = false then
        limitedCount (rectLimit (entered map lp)) ((searchByFilter map.query lp).found.countP (countedIn map.query.rect)) -
          (skipped map lp : Int)
      else 0 := by
  have fetched := @queryLayerByFilter_first _ _ _ map lp _ template noPaging noSize
  rw [countLayerByFilter]
  by_cases stop : map.query.maxfeatures = 0
  · rw [if_pos stop, if_pos (show (initialState map).maxfeatures = 0 from stop)]
  · rw [if_neg stop, if_neg (show ¬(initialState map).maxfeatures = 0 from stop)]
    rw [if_neg stop] at fetched
    dsimp only
    rw [show (enterLayer (initialState map) lp).2 = entered map lp from rfl, layerShown_entered,
      show searchByFilter map.query (entered map lp) = searchByFilter map.query lp from rfl]
    cases shown : layerShown map map.extent lp with
    | false => rfl
    | true =>
      rw [if_neg (by decide)]
      simp only [true_and]
      apply @numresults_shown _ _ _ (entered map lp) template noPaging noSize
      intro fails
      rw [shown, if_pos rfl, found_of_fails fails, length_nil, Nat.zero_sub, limitedCount_zero] at fetched
      exact fetched

theorem countLayerByRect_first :
    (countLayerByRect map (initialState map) ⟨lp, numresultsOf lp⟩).2.2.numresults.getD 0 =
      if map.query.maxfeatures = 0 then (numresultsOf lp).getD 0
      else if layerShown map map.extent lp ∧ (searchByRect lp (layerRect map lp)).fails = false then
        limitedCount (rectLimit (entered map lp)) ((searchByRect lp (layerRect map lp)).found.countP (countedIn (layerRect map lp))) -
          (skipped map lp : Int)
      else 0 := by
  have fetched := @queryLayerByRect_first _ _ _ map lp _ template noPaging noSize
  rw [countLayerByRect]
  by_cases stop : map.query.maxfeatures = 0
  · rw [if_pos stop, if_pos (show (initialState map).maxfeatures = 0 from stop)]
  · rw [if_neg stop, if_neg (show ¬(initialState map).maxfeatures = 0 from stop)]
    rw [if_neg stop] at fetched
    dsimp only
    rw [show (enterLayer (initialState map) lp).2 = entered map lp from rfl, layerShown_entered, searchRect_entered,
      show (searchRect map map.extent lp).1 = layerRect map lp from rfl,
      show searchByRect (entered map lp) (layerRect map lp) = searchByRect lp (layerRect map lp) from rfl]
    cases shown : layerShown map map.extent lp with
    | false => rfl
    | true =>
      rw [if_neg (by decide)]
      simp only [true_and]
      apply @numresults_shown _ _ _ (entered map lp) template noPaging noSize
      intro fails
      rw [shown, if_pos rfl, found_of_fails fails, countP_nil, Nat.zero_sub, limitedCount_zero] at fetched
      exact fetched

end Turns

def AgreesFor (limit : Option Nat) (skip fetched counted : Nat) : Prop :=
  if skip = 0 then counted = fetched ∨ ∃ most ∈ limit, most ≤ counted
  else counted = fetched ∧ skip ≤ fetched ∧ ∀ most ∈ limit, fetched ≤ most

theorem agreesFor_iff {limit : Option Nat} (positive : ∀ most ∈ limit, 0 < most) {skip fetched counted : Nat}
    (fewer : counted ≤ fetched) :
    (limitedCount limit counted - (skip : Int) = limitedCount limit (fetched - skip) ∧
      0 ≤ limitedCount limit counted - (skip : Int)) ↔ AgreesFor limit skip fetched counted := by
  cases limit with
  | none =>
    simp only [limitedCount, Option.elim, AgreesFor, not_mem_none, false_and, exists_false, or_false, false_implies,
      implies_true, and_true]
    split <;> omega
  | some most =>
    simp only [limitedCount, Option.elim, AgreesFor, mem_def, Option.some.injEq, exists_eq_left', forall_eq']
    split <;> omega

def FilterCountsAgree (map : MapObj K) (lp : LayerObj K) : Prop :=
  map.query.type = .MS_QUERY_BY_FILTER → map.query.filter.string ≠ none → map.query.maxfeatures ≠ 0 →
    layerShown map map.extent lp → (searchByFilter map.query lp).fails = false →
    let found := (searchByFilter map.query lp).found
    let counted := found.countP (countedIn map.query.rect)
    if map.query.mode = .MS_QUERY_SINGLE then
      limitedCount (rectLimit (entered map lp)) counted = skipped map lp + min 1 (found.length - skipped map lp)
    else AgreesFor (rectLimit (entered map lp)) (skipped map lp) found.length counted

def RectCountsAgree (map : MapObj K) (lp : LayerObj K) : Prop :=
  map.query.type = .MS_QUERY_BY_RECT → map.query.maxfeatures ≠ 0 →
    layerShown map map.extent lp → (searchByRect lp (layerRect map lp)).fails = false →
    let found := (searchByRect lp (layerRect map lp)).found
    AgreesFor (rectLimit (entered map lp)) (skipped map lp) (found.countP (inRect (layerRect map lp)))
      (found.countP (countedIn (layerRect map lp)))

section First
variable {map : MapObj K} {l : Nat} {lp : LayerObj K}

theorem turns_agree_iff {stop shown reads : Prop} [Decidable stop] [Decidable shown] [Decidable reads] {left counted fetched : Int}
    (nonneg : 0 ≤ left) (nothing : ¬reads → fetched = 0) :
    ((if stop then left else if shown ∧ reads then counted else 0) = (if stop then left else if shown then fetched else 0) ∧
        0 ≤ (if stop then left else if shown ∧ reads then counted else 0)) ↔
      (¬stop → shown → reads → counted = fetched ∧ 0 ≤ counted) := by
  by_cases isStop : stop
  · simp [isStop, nonneg]
  by_cases isShown : shown
  · by_cases isRead : reads
    · simp [isStop, isShown, isRead]
    · simp [isStop, isShown, isRead, nothing isRead]
  · simp [isStop, isShown]

variable [IsStrictOrderedRing K]

theorem filterCount_agrees_iff (first : CountedFirst map l lp) :
    CountAgrees (msQueryByFilterCount map) (msQueryByFilter map) l ↔ FilterCountsAgree map lp := by
  rw [msQueryByFilterCount, msQueryByFilter]
  by_cases improper : map.query.type ≠ .MS_QUERY_BY_FILTER ∨ map.query.filter.string = none
  · rw [if_pos improper, if_pos improper]
    refine iff_of_true (countAgrees_unchanged first.at_ false) fun type filter => ?_
    exact absurd improper (not_or.mpr ⟨not_not_intro type, filter⟩)
  · have nothing : ¬(searchByFilter map.query lp).fails = false →
        (limitedCount (filterLimit map (entered map lp)) ((searchByFilter map.query lp).found.length - skipped map lp) : Int) = 0 := by
      intro fails
      rw [found_of_fails (by simpa using fails), length_nil, Nat.zero_sub, limitedCount_zero, Int.natCast_zero]
    rw [if_neg improper, if_neg improper, countAgrees_turns first
      (countLayerByFilter_first first.template first.noPaging first.noSize)
      (queryLayerByFilter_first first.template first.noPaging first.noSize), turns_agree_iff (numresultsOf_nonneg lp) nothing]
    rw [not_or, not_not] at improper
    simp only [FilterCountsAgree, improper.1, improper.2, ne_eq, not_false_eq_true, forall_const]
    refine forall_congr' fun _ => forall_congr' fun _ => forall_congr' fun _ => ?_
    by_cases single : map.query.mode = .MS_QUERY_SINGLE
    · rw [if_pos single, filterLimit, if_pos single]
      simp only [limitedCount, elim_some]
      omega
    · rw [if_neg single, filterLimit, if_neg single]
      exact agreesFor_iff (hasRoom_rectLimit (entered map lp)) countP_le_length

theorem rectCount_agrees_iff (first : CountedFirst map l lp) :
    CountAgrees (msQueryByRectCount map) (msQueryByRect map) l ↔ RectCountsAgree map lp := by
  rw [msQueryByRectCount, msQueryByRect]
  by_cases improper : map.query.type ≠ .MS_QUERY_BY_RECT
  · rw [if_pos improper, if_pos improper]
    exact iff_of_true (countAgrees_unchanged first.at_ false) fun type => absurd type improper
  · have nothing : ¬(searchByRect lp (layerRect map lp)).fails = false →
        (limitedCount (rectLimit (entered map lp))
          ((searchByRect lp (layerRect map lp)).found.countP (inRect (layerRect map lp)) - skipped map lp) : Int) = 0 := by
      intro fails
      rw [found_of_fails (by simpa using fails), countP_nil, Nat.zero_sub, limitedCount_zero, Int.natCast_zero]
    rw [if_neg improper, if_neg improper, countAgrees_turns first
      (countLayerByRect_first first.template first.noPaging first.noSize)
      (queryLayerByRect_first first.template first.noPaging first.noSize), turns_agree_iff (numresultsOf_nonneg lp) nothing]
    rw [not_not] at improper
    simp only [RectCountsAgree, improper, ne_eq, forall_const]
    refine forall_congr' fun _ => forall_congr' fun _ => forall_congr' fun _ => ?_
    exact agreesFor_iff (hasRoom_rectLimit (entered map lp)) (countP_mono_left fun _ _ => inRect_of_countedIn)

/-- Both queries of the first layer: the count is the number of results exactly where the two agree. -/
theorem counts_agree_iff (first : CountedFirst map l lp) :
    (CountAgrees (msQueryByFilterCount map) (msQueryByFilter map) l ↔ FilterCountsAgree map lp) ∧
      (CountAgrees (msQueryByRectCount map) (msQueryByRect map) l ↔ RectCountsAgree map lp) :=
  ⟨filterCount_agrees_iff first, rectCount_agrees_iff first⟩

end First

def mapFrom (type : MS_QUERY_TYPE) (startindex : Int) : MapObj ℚ :=
  let map := mapOf type [{ layerOf 0 (flatLine 5) with paging := false }]
  { map with query := { map.query with startindex } }

theorem mapFrom_first (type : MS_QUERY_TYPE) (startindex : Int) :
    CountedFirst (mapFrom type startindex) 0 { layerOf 0 (flatLine 5) with paging := false } :=
  ⟨⟨[], rfl⟩, rfl, rfl, rfl, by decide⟩

theorem counts_agree_flatLine :
    CountAgrees (msQueryByFilterCount (mapFrom .MS_QUERY_BY_FILTER 1)) (msQueryByFilter (mapFrom .MS_QUERY_BY_FILTER 1)) 0 ∧
      CountAgrees (msQueryByRectCount (mapFrom .MS_QUERY_BY_RECT 1)) (msQueryByRect (mapFrom .MS_QUERY_BY_RECT 1)) 0 := by
  refine ⟨(counts_agree_iff (mapFrom_first _ 1)).1.mpr fun _ _ _ _ _ => ?_,
    (counts_agree_iff (mapFrom_first _ 1)).2.mpr fun _ _ _ _ => ?_⟩
  · exact Or.inl (by decide +kernel)
  · exact Or.inl (by decide +kernel)

theorem count_negative :
    ¬CountAgrees (msQueryByFilterCount (mapFrom .MS_QUERY_BY_FILTER 3)) (msQueryByFilter (mapFrom .MS_QUERY_BY_FILTER 3)) 0 ∧
      ¬CountAgrees (msQueryByRectCount (mapFrom .MS_QUERY_BY_RECT 3)) (msQueryByRect (mapFrom .MS_QUERY_BY_RECT 3)) 0 := by
  constructor
  · intro agrees
    exact absurd agrees.2 (by decide +kernel)
  · intro agrees
    exact absurd agrees.2 (by decide +kernel)

end MapServer.LayerQueries
