import Mathlib.Data.Rat.Floor
import MapServer.Primitive.TransformedParts

namespace MapServer
open Lib.Loop List Option

section Shapes
variable {K : Type} [Field K] [LinearOrder K] [FloorRing K]
variable {shape : ShapeObj K} {extent : RectObj K} {cellsize : K} {mode : TransformMode K}

variable [IsStrictOrderedRing K]

section Snapping
variable {approximation_scale : K}

end Snapping

end Shapes

end MapServer
