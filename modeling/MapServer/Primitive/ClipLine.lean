import MapServer.Primitive.PixelTransform

/-! Coordinates are exact numbers. `none` stands for a read past the points of a part. -/

namespace MapServer

inductive CLIP_STATE where
  | CLIP_LEFT
  | CLIP_MIDDLE
  | CLIP_RIGHT
  deriving DecidableEq

section Bounds
variable {K : Type} [LT K] [DecidableLT K]

def msComputeBounds (shape : ShapeObj K) : ShapeObj K :=
  match shape.line.flatten with
  | [] => shape
  | first :: rest =>
    { shape with
      bounds := (first :: rest).foldl growBounds { minx := first.x, miny := first.y, maxx := first.x, maxy := first.y } }

theorem line_msComputeBounds (shape : ShapeObj K) : (msComputeBounds shape).line = shape.line := by
  unfold msComputeBounds
  split <;> rfl

end Bounds

section Clip
variable {K : Type} [Field K] [LinearOrder K]

def CLIP_CHECK (min a max : K) : CLIP_STATE :=
  if a < min then .CLIP_LEFT else if a > max then .CLIP_RIGHT else .CLIP_MIDDLE

def clipEnd (side check1 check2 : CLIP_STATE) (edge : K) (p1 p2 : K × K) : (K × K) × (K × K) :=
  if check1 = side ∨ check2 = side then
    let slope := (p2.2 - p1.2) / (p2.1 - p1.1)
    let y := p1.2 + (edge - p1.1) * slope
    if check1 = side then ((edge, y), p2) else (p1, (edge, y))
  else (p1, p2)

/-- The half of `clipLine` for the sides `minx` and `maxx`, or with the coordinates swapped for `miny` and `maxy`. -/
def clipSides (min max : K) (p1 p2 : K × K) : Option ((K × K) × (K × K)) :=
  if p1.1 < min ∧ p2.1 < min then none
  else if p1.1 > max ∧ p2.1 > max then none
  else
    let check1 := CLIP_CHECK min p1.1 max
    let check2 := CLIP_CHECK min p2.1 max
    let (p1, p2) := clipEnd .CLIP_LEFT check1 check2 min p1 p2
    some (clipEnd .CLIP_RIGHT check1 check2 max p1 p2)

/-- The ends that `clipLine` leaves when it returns `MS_TRUE`; those that it leaves otherwise are not used. -/
def clipLine (p1 p2 : K × K) (rect : RectObj K) : Option ((K × K) × (K × K)) := do
  let (p1, p2) ← clipSides rect.minx rect.maxx p1 p2
  let (p1, p2) ← clipSides rect.miny rect.maxy p1.swap p2.swap
  some (p1.swap, p2.swap)

def boundsWithin (bounds rect : RectObj K) : Bool :=
  bounds.maxx ≤ rect.maxx ∧ bounds.minx ≥ rect.minx ∧ bounds.maxy ≤ rect.maxy ∧ bounds.miny ≥ rect.miny

/-- A store into the coordinates of a point whose other members keep what `malloc` gave. -/
def pointAt (malloc : Nat → PointObj K) (i : Nat) (xy : K × K) : PointObj K := { malloc i with x := xy.1, y := xy.2 }

/-- The lines of `tmp`, and `line` as far as it has points. -/
structure ClippedLines (K : Type) where
  tmp : List (LineObj K)
  line : LineObj K

def clipSegment (malloc : Nat → PointObj K) (rect : RectObj K) (p1 p2 : K × K) (state : ClippedLines K) :
    ClippedLines K :=
  match clipLine p1 p2 rect with
  | none => state
  | some (first, last) =>
    let line :=
      if state.line.length = 0 then [pointAt malloc 0 first, pointAt malloc 1 last]
      else state.line ++ [pointAt malloc state.line.length last]
    if last.1 ≠ p2.1 ∨ last.2 ≠ p2.2 then { tmp := state.tmp ++ [line], line := [] } else { state with line }

def clipPoints (malloc : Nat → PointObj K) (rect : RectObj K) : PointObj K → LineObj K → ClippedLines K → ClippedLines K
  | _, [], state => state
  | before, point :: rest, state => clipPoints malloc rect point rest (clipSegment malloc rect before.xy point.xy state)

def clipPart (malloc : Nat → PointObj K) (rect : RectObj K) : LineObj K → Option (List (LineObj K))
  | [] => none
  | first :: rest =>
    let state := clipPoints malloc rect first rest { tmp := [], line := [] }
    some (if state.line.length > 0 then state.tmp ++ [state.line] else state.tmp)

/-- `malloc i` is what the points allocated for part `i` hold. -/
def msClipPolylineRect (malloc : Nat → Nat → PointObj K) (shape : ShapeObj K) (rect : RectObj K) : Option (ShapeObj K) :=
  if shape.line = [] then some shape
  else if boundsWithin shape.bounds rect then some shape
  else do
    let lines ← shape.line.zipIdx.mapM fun (part, i) => clipPart (malloc i) rect part
    some (msComputeBounds { shape with line := lines.flatten })

end Clip
end MapServer
