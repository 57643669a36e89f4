import Mathlib.Data.List.Induction
import MapServer.Query.ShapeLoops

namespace MapServer.LayerQueries
open Lib.FirstMatches List

variable {K : Type}

def cachedResults (lp : LayerObj K) : List ResultObj := lp.resultcache.getD []

section Layers
variable {body : LoopState K → LayerObj K → LayerOutcome × LoopState K × LayerObj K} {Ok : LoopState K → Prop}
  {leaves : LayerObj K → LoopState K → LoopState K} {records : LoopState K → LayerObj K → List ResultObj}

def resultsOf (layers : List (LayerObj K)) (l : Nat) : List ResultObj := (layers[l]?.map cachedResults).getD []

end Layers

def LayerSearch.Sound : LayerSearch K → Prop
  | .MS_FAILURE => False
  | .MS_DONE => True
  | .shapes list complete => complete = true ∧ (list.map QueryShape.identity).Nodup

def LayerSearch.found : LayerSearch K → List (QueryShape K)
  | .shapes list _ => list
  | _ => []

theorem hasRoom_filterLimit (map : MapObj K) (lp : LayerObj K) : HasRoom (filterLimit map lp) ([] : List ResultObj).length := by
  intro most isLimit
  rw [filterLimit] at isLimit
  split at isLimit
  · obtain rfl := Option.some.inj isLimit
    exact Nat.one_pos
  · split at isLimit
    · obtain rfl := Option.some.inj isLimit
      show 0 < lp.maxfeatures.toNat
      omega
    · cases isLimit

theorem hasRoom_rectLimit (lp : LayerObj K) : HasRoom (rectLimit lp) ([] : List ResultObj).length := by
  intro most isLimit
  rw [rectLimit] at isLimit
  split at isLimit
  · obtain rfl := Option.some.inj isLimit
    show 0 < lp.maxfeatures.toNat
    omega
  · cases isLimit

theorem limitBehind_nil (limit : Option Nat) : limitBehind limit [] = limit := by
  cases limit <;> rfl

section ByFilter
variable [Field K] [LinearOrder K] {map : MapObj K}

theorem sizeAccepts_unset [IsStrictOrderedRing K] (shape : ShapeObj K) : sizeAccepts (-1) shape = true := by
  have negative : ¬ (-1 : K) > 0 := by
    intro positive
    have := neg_one_lt_zero (R := K)
    exact lt_asymm this positive
  rw [sizeAccepts, if_neg fun both => negative both.2]

end ByFilter

section ByRect
variable [Field K] [LinearOrder K] [IsStrictOrderedRing K] {map : MapObj K}

def layerRect (map : MapObj K) (lp : LayerObj K) : RectObj K := (searchRect map map.extent lp).1

end ByRect

def corner (x y : ℚ) : PointObj ℚ := ⟨x, y, 0, 0⟩

def flatLine (length : ℚ) : QueryShape ℚ :=
  ⟨⟨[[corner 0 0, corner length 0]], ⟨0, 0, length, 0⟩, .MS_SHAPE_LINE, 0⟩, 0, 0⟩

def layerOf (minfeaturesize : Int) (found : QueryShape ℚ) : LayerObj ℚ where
  type := .MS_LAYER_LINE
  template := some (ascii "query.html")
  status := 1
  minscaledenom := -1
  maxscaledenom := -1
  mingeowidth := -1
  maxgeowidth := -1
  minfeaturesize := minfeaturesize
  sizeunits := .MS_PIXELS
  tolerance := -1
  toleranceunits := .MS_PIXELS
  maxfeatures := -1
  startindex := -1
  paging := true
  classgroup := none
  classes := []
  filter := ⟨none, .MS_STRING, false⟩
  filteritem := none
  opens := true
  search _ _ _ := .shapes [found] true
  resultcache := none

def mapOf (type : MS_QUERY_TYPE) (layers : List (LayerObj ℚ)) : MapObj ℚ where
  layers := layers
  width := 101
  height := 101
  extent := ⟨0, 0, 100, 100⟩
  scaledenom := -1
  units := .MS_METERS
  resolution := 72
  defresolution := 72
  query := ⟨type, .MS_QUERY_MULTIPLE, -1, ⟨0, 0, 10, 10⟩, -1, -1, ⟨some (ascii "(1 = 1)"), .MS_EXPRESSION, false⟩, none⟩

end MapServer.LayerQueries
