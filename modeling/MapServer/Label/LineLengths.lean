import MapServer.Lib.ArcLength
import MapServer.Primitive.PixelTransform

/-!
`msLineLabelPoint`, with exact numbers and an exact square root. `none` stands for a read outside an array, an assertion that
fails, or a number that does not fit into an `int`.
-/

namespace MapServer
open Lib.ArcLength Lib.Distances Lib.Loop Lib.Segments

attribute [local instance] two_atLeastTwo

section Lengths
variable {K : Type} [Field K] [LinearOrder K] (sqrt : K → K)

structure LineLengths (K : Type) where
  total_length : K
  segment_lengths : List K
  longest_segment_index : Nat

/-- The inner loop of `msPolylineComputeLineSegments`, from the point `j - 1` on, with `max_subline_segment_length`. -/
def addSegments : LineObj K → Nat → LineLengths K × K → LineLengths K × K
  | p :: q :: rest, j, (ll, max) =>
    let segment_length := sqrt ((q.x - p.x) * (q.x - p.x) + (q.y - p.y) * (q.y - p.y))
    let ll := { ll with
      total_length := ll.total_length + segment_length
      segment_lengths := ll.segment_lengths ++ [segment_length] }
    if segment_length > max then addSegments (q :: rest) (j + 1) ({ ll with longest_segment_index := j }, segment_length)
    else addSegments (q :: rest) (j + 1) (ll, max)
  | _, _, state => state

/-- What `msPolylineComputeLineSegments` says of one line; `memory` is an index that it does not set. -/
def lineLengths (memory : Nat) (line : LineObj K) : LineLengths K := (addSegments sqrt line 1 (⟨0, [], memory⟩, -1)).1

end Lengths

inductive AngleMode where
  | MS_NONE
  | MS_AUTO
  | MS_AUTO2
  | MS_FOLLOW
  deriving DecidableEq

structure LineLabel (K : Type) where
  repeatdistance : Int
  anglemode : AngleMode
  angle : K

structure LabelAutoResult (K : Type) where
  angles : List K
  label_points : List (K × K)

/-- `MS_PI2` is half of pi, and `MS_DEG_TO_RAD` is a degree. -/
structure Angles (K : Type) where
  atan2 : K → K → K
  MS_PI2 : K
  MS_DEG_TO_RAD : K

section Points
variable {K : Type} [Field K] [LinearOrder K] [FloorRing K] (angles : Angles K) (p : LineObj K) (ll : LineLengths K)
variable (label : Option (LineLabel K)) (ts : Option (LineLabel K))

def truncToInt (x : K) : Option Int := checkedInt (if x < 0 then ⌈x⌉ else ⌊x⌋)

/-- The angle of a label on the segment from `a` to `b`. `ts` has the label of the text symbol. -/
def labelAngle (a b : PointObj K) : K :=
  match label, ts with
  | some label, some ts =>
    let theta := angles.atan2 (b.x - a.x) (b.y - a.y)
    match label.anglemode with
    | .MS_NONE => angles.MS_DEG_TO_RAD * ts.angle
    | .MS_AUTO2 => theta - angles.MS_PI2
    | _ => if a.x < b.x then theta - angles.MS_PI2 else theta + angles.MS_PI2
  | _, _ => 0

/-- The body of the inner loop, which adds a point at `point_position`. -/
def placeLabelPoint (point_repeat : Int) (point_position : K) (lar : LabelAutoResult K) : Option (LabelAutoResult K) := do
  let (j, t) ←
    if point_repeat = 1 then some (ll.longest_segment_index, 1 / 2)
    else do
      let (j, fwd_length) ← scan ll.segment_lengths point_position
      if j = 0 then none
      else do
        let length ← ll.segment_lengths[j - 1]?
        some (j, 1 - (fwd_length - point_position) / length)
  if j = 0 then none
  else do
    let a ← p[j - 1]?
    let b ← p[j]?
    let point := if point_repeat = 1 then ((a.x + b.x) / 2, (a.y + b.y) / 2) else (t * (b.x - a.x) + a.x, t * (b.y - a.y) + a.y)
    some { angles := lar.angles ++ [labelAngle angles label ts a b], label_points := lar.label_points ++ [point] }

structure RepeatState (K : Type) where
  lar : LabelAutoResult K
  left : K
  right : K

def placePair (point_repeat : Int) (center point_distance : K) (l : Nat) (state : RepeatState K) : Option (RepeatState K) := do
  let last : Bool := l = point_repeat - 1
  let point_position := if last then center else state.right
  let n := if last then 1 else 0
  let (lar, _) ← forUp (fun _ (lar, position) => do
    let lar ← placeLabelPoint angles p ll label ts point_repeat position lar
    some (lar, state.left)) n (2 - n) (state.lar, point_position)
  some { lar, left := state.left + point_distance, right := state.right - point_distance }

structure LabelRepeat (K : Type) where
  point_repeat : Int
  point_distance : K
  left : K
  right : K

def labelRepeat (total_length repeat_distance : K) : Option (LabelRepeat K) :=
  let center := total_length / 2
  if repeat_distance > 0 then do
    let point_repeat ← truncToInt (total_length / repeat_distance)
    if point_repeat > 1 then
      let point_repeat := if point_repeat % 2 = 0 then point_repeat - 1 else point_repeat
      let point_distance := total_length / point_repeat
      let half := (point_repeat - 1) / 2
      some ⟨half + 1, point_distance, center - half * point_distance, center + half * point_distance⟩
    else some ⟨1, 0, center, center⟩
  else some ⟨1, 0, center, center⟩

/-- The inner `none` is `MS_FAILURE`. -/
def msLineLabelPoint (resolutionfactor : K) (lar : LabelAutoResult K) : Option (Option (LabelAutoResult K)) :=
  let repeat_distance := match label with
    | some label => label.repeatdistance * resolutionfactor
    | none => -1
  if p.length < 2 then some none
  else do
    let start ← labelRepeat ll.total_length repeat_distance
    let state ← forUp (placePair angles p ll label ts start.point_repeat (ll.total_length / 2) start.point_distance)
      0 start.point_repeat.toNat { lar, left := start.left, right := start.right }
    some (some state.lar)

end Points

end MapServer
