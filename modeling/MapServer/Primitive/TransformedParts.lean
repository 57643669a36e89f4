import MapServer.Lib.Compaction
import MapServer.Primitive.PixelTransform

namespace MapServer
open Lib.Loop Lib.Thinning List Option

section Stores
variable {K : Type}

/-- The points written so far at the front, and those not read yet from `j` on. -/
def PointsWritten (point : LineObj K) (done : List (K × K)) (j : Nat) (rest : List (K × K)) : Prop :=
  ∃ between, point.map PointObj.xy = done ++ between ++ rest ∧ j = done.length + between.length

theorem PointsWritten.take {point : LineObj K} {done rest : List (K × K)} {j : Nat} (written : PointsWritten point done j rest) :
    (point.take done.length).map PointObj.xy = done := by
  obtain ⟨between, points, _⟩ := written
  rw [map_take, points, append_assoc, take_left]

theorem PointsWritten.read {point : LineObj K} {done rest : List (K × K)} {v : K × K} {j : Nat}
    (written : PointsWritten point done j (v :: rest)) : ∃ p, point[j]? = some p ∧ p.xy = v := by
  obtain ⟨between, points, rfl⟩ := written
  have read : (point.map PointObj.xy)[done.length + between.length]? = some v := by
    rw [points, ← length_append, getElem?_append_right (Nat.le_refl _), Nat.sub_self]
    rfl
  rw [getElem?_map, map_eq_some_iff] at read
  exact read

theorem PointsWritten.last {point : LineObj K} {done rest : List (K × K)} {v : K × K} {j : Nat}
    (written : PointsWritten point (done ++ [v]) j rest) : ∃ p, point[done.length]? = some p ∧ p.xy = v := by
  obtain ⟨between, points, _⟩ := written
  have read : (point.map PointObj.xy)[done.length]? = some v := by
    rw [points]
    simp
  rw [getElem?_map, map_eq_some_iff] at read
  exact read

theorem map_storeXY {point after : LineObj K} {k : Nat} {v : K × K} (stored : storeXY point k v = some after) :
    after.map PointObj.xy = (point.map PointObj.xy).set k v := by
  obtain ⟨p, _, rfl⟩ := map_eq_some_iff.mp stored
  rw [map_set]
  rfl

theorem PointsWritten.store {point : LineObj K} {done rest : List (K × K)} {v : K × K} {j : Nat}
    (written : PointsWritten point done j (v :: rest)) (image : K × K) :
    ∃ after, storeXY point done.length image = some after ∧ PointsWritten after (done ++ [image]) (j + 1) rest ∧
      PointsWritten after done (j + 1) rest := by
  obtain ⟨between, points, rfl⟩ := written
  have inside : done.length < point.length := by
    have lengths := congrArg List.length points
    simp at lengths
    omega
  obtain ⟨after, stored⟩ : ∃ after, storeXY point done.length image = some after := by
    rw [storeXY, getElem?_eq_getElem inside]
    exact ⟨_, rfl⟩
  have stores := map_storeXY stored
  rw [points, append_assoc, set_append_right _ _ (Nat.le_refl _), Nat.sub_self] at stores
  refine ⟨after, stored, ?_⟩
  cases between with
  | nil =>
    constructor
    · exact ⟨[], by rw [stores]; simp, by simp⟩
    · exact ⟨[image], by rw [stores]; simp, by simp⟩
  | cons b between =>
    constructor
    · exact ⟨between ++ [v], by rw [stores]; simp, by simp; omega⟩
    · exact ⟨image :: between ++ [v], by rw [stores]; simp, by simp; omega⟩

variable {image : K × K → K × K} {keeps : K × K → K × K → Bool}

end Stores

section Paths
variable {K : Type}

def KeepsPath (image rounded : K × K → K × K) (part left : List (K × K)) : Prop :=
  ∃ first rest kept, part = first :: rest ∧ kept.Sublist rest ∧ left = (first :: kept).map image ∧
    ((first :: kept).getLast? = part.getLast? ∨ left.getLast? = (part.map rounded).getLast?)

variable {image rounded : K × K → K × K} [DecidableEq K]

end Paths

section Simplify
variable {K : Type} [Field K] [LinearOrder K] {image : K × K → K × K}

end Simplify

section Snap
variable {K : Type} [LinearOrder K] {image snapped : K × K → K × K}

end Snap

section Grid
variable {K : Type} [Field K] [LinearOrder K]

def Near (distance : K) (p q : K × K) : Prop := |q.1 - p.1| ≤ distance ∧ |q.2 - p.2| ≤ distance

variable [FloorRing K]

def TransformMode.rounded (extent : RectObj K) (cellsize : K) : TransformMode K → K × K → K × K
  | .MS_TRANSFORM_SNAPTOGRID approximation_scale => imageSnap extent (1 / cellsize) approximation_scale
  | .MS_TRANSFORM_ROUND => imageRound extent (1 / cellsize)
  | _ => imageDbl extent (1 / cellsize)

variable [IsStrictOrderedRing K]

def PartTransformed (mode : TransformMode K) (extent : RectObj K) (cellsize : K) (isPath : Prop)
    (part left : List (K × K)) : Prop :=
  left.length ≤ part.length ∧ ∃ chosen, chosen.Sublist part ∧
    List.Forall₂ (fun p q => Near mode.halfStep (imageDbl extent (1 / cellsize) p) q) chosen left ∧
    (isPath → left ≠ [] → chosen.head? = part.head? ∧
      (chosen.getLast? = part.getLast? ∨ left.getLast? = (part.map (mode.rounded extent cellsize)).getLast?))

variable {mode : TransformMode K} {extent : RectObj K} {cellsize : K} {isPath : Prop}

omit [IsStrictOrderedRing K] in
theorem KeepsPath.transformed {image : K × K → K × K} {part left : List (K × K)}
    (keeps : KeepsPath image (mode.rounded extent cellsize) part left)
    (near : ∀ p, Near mode.halfStep (imageDbl extent (1 / cellsize) p) (image p)) :
    PartTransformed mode extent cellsize isPath part left := by
  obtain ⟨first, rest, kept, rfl, among, rfl, ends⟩ := keeps
  refine ⟨?_, first :: kept, among.cons_cons first, ?_, fun _ _ => ⟨rfl, ends⟩⟩
  · rw [length_map]
    exact (among.cons_cons first).length_le
  · rw [forall₂_map_right_iff, forall₂_same]
    intro p _
    exact near p

end Grid

end MapServer
