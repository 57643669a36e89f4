import MapServer.Primitive.TransformedParts

namespace MapServer
open Lib.Loop List Option Function

section Macros
variable {K : Type} [Field K]

def MS_IMAGE2MAP_X (x minx cx : K) : K := minx + cx * x

def MS_IMAGE2MAP_Y (y maxy cy : K) : K := maxy - cy * y

def mapOfImage (extent : RectObj K) (cellsize : K) (p : K × K) : K × K :=
  (MS_IMAGE2MAP_X p.1 extent.minx cellsize, MS_IMAGE2MAP_Y p.2 extent.maxy cellsize)

def msTransformPixelToShape (shape : ShapeObj K) (extent : RectObj K) (cellsize : K) : Option (ShapeObj K) :=
  let image := mapOfImage extent cellsize
  if shape.line = [] then some shape
  else if shape.type = .MS_SHAPE_LINE ∨ shape.type = .MS_SHAPE_POLYGON then do
    let line ← shape.line.mapM (transformFrom image 0)
    some { shape with line }
  else do
    let line ← shape.line.mapM (transformFrom image 1)
    some { shape with line }

end Macros

section Loops
variable {K : Type}

def PointObj.move (p : PointObj K) (image : K × K → K × K) : PointObj K := { p with x := (image p.xy).1, y := (image p.xy).2 }

/-- What the loop from `start` on makes of a part. -/
def movedFrom (image : K × K → K × K) (start : Nat) (part : LineObj K) : LineObj K :=
  part.take start ++ (part.drop start).map (PointObj.move · image)

variable {image back : K × K → K × K}

theorem transformLoop_eq (done rest : LineObj K) :
    forUp (fun j point => do storeXY point j (image (← point[j]?).xy)) done.length rest.length (done ++ rest) =
      some (done ++ rest.map (PointObj.move · image)) := by
  induction rest generalizing done with
  | nil => simp [forUp]
  | cons p rest ih =>
    have read : (done ++ p :: rest)[done.length]? = some p := by simp
    have next := ih (done ++ [p.move image])
    rw [length_append, length_singleton, append_assoc, singleton_append] at next
    rw [length_cons, forUp, read, bind_eq_bind, bind_some, storeXY, read, map_some,
      bind_some, set_append_right _ _ (Nat.le_refl _), Nat.sub_self, set_cons_zero]
    exact next.trans (by simp)

theorem transformFrom_eq (start : Nat) (part : LineObj K) :
    transformFrom image start part = some (movedFrom image start part) := by
  by_cases inside : start ≤ part.length
  · have loop := @transformLoop_eq _ image (part.take start) (part.drop start)
    rwa [take_append_drop, length_take_of_le inside, length_drop] at loop
  · have past : part.length ≤ start := by omega
    rw [transformFrom, Nat.sub_eq_zero_of_le past]
    simp [movedFrom, forUp, take_of_length_le past, drop_eq_nil_of_le past]

theorem mapM_transformFrom (start : Nat) (line : List (LineObj K)) :
    line.mapM (transformFrom image start) =
      some (line.map (movedFrom image start)) := by
  have total := mapM_total (h := id) fun part (_ : part ∈ line) => @transformFrom_eq _ image start part
  rwa [List.map_id] at total

theorem move_move (p : PointObj K) : (p.move image).move back = p.move (back ∘ image) := rfl

theorem move_eq_iff (p : PointObj K) : p.move image = p ↔ image p.xy = p.xy := by
  constructor
  · intro same
    exact congrArg PointObj.xy same
  · intro same
    rw [PointObj.move, same]
    rfl

theorem movedFrom_zero (part : LineObj K) : movedFrom image 0 part = part.map (PointObj.move · image) := rfl

theorem movedFrom_one (first : PointObj K) (rest : LineObj K) :
    movedFrom image 1 (first :: rest) = first :: rest.map (PointObj.move · image) := rfl

theorem map_move_back (inverse : ∀ xy, back (image xy) = xy) (part : LineObj K) :
    (part.map (PointObj.move · image)).map (PointObj.move · back) = part := by
  rw [List.map_map, map_congr_left (g := id), List.map_id]
  intro p _
  rw [comp_apply, move_move, id, move_eq_iff, comp_apply, inverse]

theorem movedFrom_map_iff (inverse : ∀ xy, back (image xy) = xy) (part : LineObj K) :
    movedFrom back 1 (movedFrom image 0 part) = part ↔ ∀ first ∈ part.head?, image first.xy = first.xy := by
  cases part with
  | nil => simp [movedFrom]
  | cons first rest =>
    rw [movedFrom_zero, map_cons, movedFrom_one, map_move_back inverse, cons_eq_cons, move_eq_iff]
    simp

theorem map_movedFrom_iff (inverse : ∀ xy, back (image xy) = xy) (part : LineObj K) :
    movedFrom back 0 (movedFrom image 1 part) = part ↔ ∀ first ∈ part.head?, back first.xy = first.xy := by
  cases part with
  | nil => simp [movedFrom]
  | cons first rest =>
    rw [movedFrom_one, movedFrom_zero, map_cons, map_move_back inverse, cons_eq_cons, move_eq_iff]
    simp

theorem map_eq_self_iff {f : LineObj K → LineObj K} (line : List (LineObj K)) :
    line.map f = line ↔ ∀ part ∈ line, f part = part := by
  simpa using @List.map_inj_left _ _ line f id

end Loops

section Inverse
variable {K : Type} [Field K] {extent : RectObj K} {cellsize : K}

theorem image_map (positive : cellsize ≠ 0) (xy : K × K) :
    imageDbl extent (1 / cellsize) (mapOfImage extent cellsize xy) = xy := by
  simp only [imageDbl, mapOfImage, MS_MAP2IMAGE_X_IC_DBL, MS_MAP2IMAGE_Y_IC_DBL, MS_IMAGE2MAP_X, MS_IMAGE2MAP_Y]
  refine Prod.ext ?_ ?_ <;> dsimp only
  · rw [add_sub_cancel_left, mul_one_div, mul_div_cancel_left₀ _ positive]
  · rw [sub_sub_cancel, mul_one_div, mul_div_cancel_left₀ _ positive]

theorem map_image (positive : cellsize ≠ 0) (xy : K × K) :
    mapOfImage extent cellsize (imageDbl extent (1 / cellsize) xy) = xy := by
  simp only [imageDbl, mapOfImage, MS_MAP2IMAGE_X_IC_DBL, MS_MAP2IMAGE_Y_IC_DBL, MS_IMAGE2MAP_X, MS_IMAGE2MAP_Y]
  refine Prod.ext ?_ ?_ <;> dsimp only
  · rw [mul_one_div, mul_div_cancel₀ _ positive, add_sub_cancel]
  · rw [mul_one_div, mul_div_cancel₀ _ positive, sub_sub_cancel]

def SameInPixels (extent : RectObj K) (cellsize : K) (p : PointObj K) : Prop :=
  p.x - extent.minx = cellsize * p.x ∧ extent.maxy - p.y = cellsize * p.y

theorem imageDbl_same_iff (positive : cellsize ≠ 0) (p : PointObj K) :
    imageDbl extent (1 / cellsize) p.xy = p.xy ↔ SameInPixels extent cellsize p := by
  simp only [imageDbl, MS_MAP2IMAGE_X_IC_DBL, MS_MAP2IMAGE_Y_IC_DBL, PointObj.xy, Prod.mk.injEq, SameInPixels, mul_one_div,
    div_eq_iff positive, mul_comm cellsize]

end Inverse

section Shapes
variable {K : Type} [Field K] (shape : ShapeObj K) (extent : RectObj K) (cellsize : K)

/-- The first point that the loops of `msTransformPixelToShape` transform. -/
def firstMoved : MS_SHAPE_TYPE → Nat
  | .MS_SHAPE_LINE | .MS_SHAPE_POLYGON => 0
  | _ => 1

theorem msTransformShapeToPixelDoublePrecision_eq :
    msTransformShapeToPixelDoublePrecision shape extent cellsize =
      some { shape with line := shape.line.map (movedFrom (imageDbl extent (1 / cellsize)) 0) } := by
  rw [msTransformShapeToPixelDoublePrecision, mapM_transformFrom]
  rfl

theorem msTransformPixelToShape_eq :
    msTransformPixelToShape shape extent cellsize =
      some { shape with line := shape.line.map (movedFrom (mapOfImage extent cellsize) (firstMoved shape.type)) } := by
  simp only [msTransformPixelToShape, mapM_transformFrom]
  obtain ⟨line, bounds, type, index⟩ := shape
  split
  case isTrue none_ =>
    subst none_
    rfl
  case isFalse => cases type <;> rfl

omit [Field K] in
theorem same_line_iff (line : List (LineObj K)) : some { shape with line } = some shape ↔ line = shape.line := by
  obtain ⟨_, bounds, type, index⟩ := shape
  simp

def PixelsInverse : Prop :=
  (msTransformShapeToPixelDoublePrecision shape extent cellsize).bind (msTransformPixelToShape · extent cellsize) = some shape ∧
    (msTransformPixelToShape shape extent cellsize).bind (msTransformShapeToPixelDoublePrecision · extent cellsize) = some shape

variable {shape extent cellsize}

theorem pixelsInverse_iff_parts :
    PixelsInverse shape extent cellsize ↔
      (∀ part ∈ shape.line, movedFrom (mapOfImage extent cellsize) (firstMoved shape.type)
        (movedFrom (imageDbl extent (1 / cellsize)) 0 part) = part) ∧
      ∀ part ∈ shape.line, movedFrom (imageDbl extent (1 / cellsize)) 0
        (movedFrom (mapOfImage extent cellsize) (firstMoved shape.type) part) = part := by
  rw [PixelsInverse, msTransformShapeToPixelDoublePrecision_eq, msTransformPixelToShape_eq, bind_some,
    bind_some, msTransformShapeToPixelDoublePrecision_eq, msTransformPixelToShape_eq]
  dsimp only
  rw [same_line_iff, same_line_iff, List.map_map, List.map_map, map_eq_self_iff, map_eq_self_iff]
  rfl

/-- Going to pixels and back changes nothing, in either order, exactly for lines and polygons and where every part begins
with a point that stays where it is. -/
theorem pixelsInverse_iff [LinearOrder K] (positive : 0 < cellsize) :
    PixelsInverse shape extent cellsize ↔
      (shape.type = .MS_SHAPE_LINE ∨ shape.type = .MS_SHAPE_POLYGON) ∨
        ∀ part ∈ shape.line, ∀ first ∈ part.head?, SameInPixels extent cellsize first := by
  have nonzero := positive.ne'
  have path (isPath : firstMoved shape.type = 0) : PixelsInverse shape extent cellsize := by
    rw [pixelsInverse_iff_parts, isPath]
    exact ⟨fun part _ => map_move_back (map_image nonzero) part, fun part _ => map_move_back (image_map nonzero) part⟩
  have others (notPath : firstMoved shape.type = 1) : PixelsInverse shape extent cellsize ↔
      ∀ part ∈ shape.line, ∀ first ∈ part.head?, SameInPixels extent cellsize first := by
    simp only [pixelsInverse_iff_parts, notPath, movedFrom_map_iff (map_image nonzero), map_movedFrom_iff (image_map nonzero),
      imageDbl_same_iff nonzero, and_self]
  cases isType : shape.type with
  | MS_SHAPE_LINE | MS_SHAPE_POLYGON => simp [path (by rw [isType]; rfl)]
  | MS_SHAPE_POINT | MS_SHAPE_NULL => simpa using others (by rw [isType]; rfl)

theorem pixelsInverse_line : (0 : ℚ) < 2 ∧
    PixelsInverse ⟨[[⟨1, 2, 0, 0⟩, ⟨3, 4, 0, 0⟩]], ⟨0, 0, 0, 0⟩, .MS_SHAPE_LINE, 0⟩ ⟨5, 6, 7, 8⟩ (2 : ℚ) :=
  ⟨by decide +kernel, (pixelsInverse_iff (by decide +kernel)).mpr (Or.inl (Or.inl rfl))⟩

theorem pixelsInverse_point :
    ¬ PixelsInverse ⟨[[⟨1, 2, 0, 0⟩]], ⟨0, 0, 0, 0⟩, .MS_SHAPE_POINT, 0⟩ ⟨5, 6, 7, 8⟩ (2 : ℚ) := by
  intro inverse
  have back := inverse.1
  revert back
  decide +kernel

end Shapes

end MapServer
