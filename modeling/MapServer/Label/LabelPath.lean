import MapServer.Label.LineLengths

/-!
`msLineLabelPath` with `compute_retry_offset`, with exact numbers. `none` stands for a read outside an array, or a number that does
not fit into an `int`. The bounding polygons of the labels are left out.
-/

namespace MapServer
open Lib.ArcLength Lib.Loop

attribute [local instance] two_atLeastTwo ten_atLeastTwo

/-- What the placement reads of a glyph; `space` is the answer of `msIsGlyphASpace`. -/
structure PathGlyph (K : Type) where
  advance : K
  space : Bool

structure PathText (K : Type) where
  glyphs : List (PathGlyph K)
  /-- The member of `bounds.bbox`. -/
  maxx : K
  glyph_size : K

section Retry
variable {K : Type} [Field K] [LinearOrder K] (glyphs : List (PathGlyph K)) (fail_idx : Nat) (retried_offset : K)

/-- The loop of `compute_retry_offset` towards the start, with `dec_found`. -/
def searchBack (max_dec_offset : K) (inc : Nat) (dec_offset : K) : Option (K × Bool) :=
  if inc + 1 ≤ fail_idx then do
    let glyph ← glyphs[fail_idx - inc]?
    let before ← glyphs[fail_idx - inc - 1]?
    let dec_offset := dec_offset + glyph.advance
    if dec_offset > max_dec_offset then some (dec_offset, false)
    else if dec_offset > retried_offset ∧ before.space then some (dec_offset + before.advance / 2, true)
    else if _more : dec_offset < max_dec_offset ∧ inc + 1 < fail_idx then searchBack max_dec_offset (inc + 1) dec_offset
    else some (dec_offset, false)
  else some (dec_offset, false)
termination_by fail_idx - inc
decreasing_by omega

/-- The loop towards the end, with `inc_found`. -/
def searchAhead (max_inc_offset : K) (inc : Nat) (inc_offset : K) : Option (K × Bool) :=
  if fail_idx + inc + 1 < glyphs.length then do
    let glyph ← glyphs[fail_idx + inc]?
    if inc_offset > retried_offset ∧ glyph.space then
      some (inc_offset + glyph.advance / 2, decide (inc_offset + glyph.advance / 2 < max_inc_offset))
    else if _more : inc_offset + glyph.advance < max_inc_offset ∧ fail_idx + (inc + 1) + 1 < glyphs.length then
      searchAhead max_inc_offset (inc + 1) (inc_offset + glyph.advance)
    else some (inc_offset + glyph.advance, false)
  else some (inc_offset, false)
termination_by glyphs.length - inc
decreasing_by omega

def compute_retry_offset (max_dec_offset max_inc_offset : K) : Option K := do
  let retried_offset := |retried_offset|
  let (dec_offset, dec_found) ← searchBack glyphs fail_idx retried_offset max_dec_offset 1 0
  let first ← glyphs[0]?
  let (dec_offset, dec_found) :=
    if dec_found then (dec_offset, true)
    else (dec_offset + first.advance, decide (dec_offset + first.advance > retried_offset ∧ dec_offset + first.advance < max_dec_offset))
  let failed ← glyphs[fail_idx]?
  let (inc_offset, inc_found) ← searchAhead glyphs fail_idx retried_offset max_inc_offset 1 failed.advance
  let last ← glyphs[glyphs.length - 1]?
  let (inc_offset, inc_found) :=
    if inc_found then (inc_offset, true)
    else (inc_offset + last.advance, decide (inc_offset + last.advance > retried_offset ∧ inc_offset + last.advance < max_inc_offset))
  match inc_found, dec_found with
  | false, false => some 0
  | true, true => some (if inc_offset < dec_offset then -inc_offset else dec_offset)
  | true, false => some (-inc_offset)
  | false, true => some dec_offset

end Retry

section Walk
variable {K : Type} [Field K] [LinearOrder K] (p : LineObj K) (segment_lengths : List K)

/-- The direction of travel is `forward` where `inc` is 1. -/
def pointAlong (forward : Bool) (j : Nat) (t : K) : Option (K × K) := do
  let a ← p[j]?
  let b ← if forward then p[j + 1]? else if j = 0 then none else p[j - 1]?
  some (t * (b.x - a.x) + a.x, t * (b.y - a.y) + a.y)

def segmentAt (forward : Bool) (j : Nat) : Option K :=
  if forward then segment_lengths[j]? else if j = 0 then none else segment_lengths[j - 1]?

/-- How many segments are left behind that at `j`. -/
def segmentsLeft (forward : Bool) (j : Nat) : Nat := if forward then p.length - 2 - j else j - 1

/-- The inner loops that move to a later segment, of which there are `left`. -/
def moveAlong (forward : Bool) : Nat → Nat → K → Option (Nat × K)
  | 0, j, distance_along_segment => some (j, distance_along_segment)
  | left + 1, j, distance_along_segment => do
    let length ← segmentAt segment_lengths forward j
    if distance_along_segment > length then
      moveAlong forward left (if forward then j + 1 else j - 1) (distance_along_segment - length)
    else some (j, distance_along_segment)

structure PathPlace (K : Type) where
  j : Nat
  distance_along_segment : K
  segment_length : K
  t : K

def passGlyph (forward : Bool) (glyph : PathGlyph K) (place : PathPlace K) : Option (PathPlace K) := do
  let distance_along_segment := place.distance_along_segment + glyph.advance
  if 0 < segmentsLeft p forward place.j then do
    let (j, distance_along_segment) ←
      moveAlong segment_lengths forward (segmentsLeft p forward place.j) place.j distance_along_segment
    let segment_length ← segmentAt segment_lengths forward j
    some ⟨j, distance_along_segment, segment_length, distance_along_segment / segment_length⟩
  else some ⟨place.j, distance_along_segment, place.segment_length, distance_along_segment / place.segment_length⟩

def walkGlyphs (forward : Bool) : List (PathGlyph K) → PathPlace K → Option (List (K × K))
  | [], place => do
    let point ← pointAlong p forward place.j place.t
    some [point]
  | glyph :: glyphs, place => do
    let point ← pointAlong p forward place.j place.t
    let next ← passGlyph p segment_lengths forward glyph place
    let points ← walkGlyphs forward glyphs next
    some (point :: points)

end Walk

section Walk
variable {K : Type} [Field K] [LinearOrder K] (p : LineObj K) (ll : LineLengths K)

structure PathWalk (K : Type) where
  direction : K
  points : List (K × K)

def startSegment (text_start_length : K) : Option (Int × K) :=
  if text_start_length ≥ 0 then do
    let (count, fwd_line_length) ← scan ll.segment_lengths text_start_length
    some ((count : Int) - 1, fwd_line_length)
  else some (0, 0)

/-- `final_j` with the lengths behind the text; this scan goes over the segments from the last one back. -/
def endSegment (text_length text_start_length : K) : Option (Int × K × K) :=
  if text_start_length + text_length ≤ ll.total_length then do
    let text_end_length := ll.total_length - (text_start_length + text_length)
    let (count, rev_line_length) ← scan ll.segment_lengths.reverse text_end_length
    let final_j : Int := p.length - 1 - count + 1
    some (if final_j = 0 then 1 else final_j, rev_line_length, text_end_length)
  else some (if (p.length : Int) - 1 = 0 then 1 else p.length - 1, 0, 0)

def walkPath (text_length : K) (glyphs : List (PathGlyph K)) (text_start_length : K) : Option (PathWalk K) := do
  let (j, fwd_line_length) ← startSegment ll text_start_length
  let (final_j, rev_line_length, text_end_length) ← endSegment p ll text_length text_start_length
  let last ← entryAt p final_j
  let first ← entryAt p j
  let direction := last.x - first.x
  let forward : Bool := direction > 0
  let j := if forward then j.toNat else final_j.toNat
  let segment_length ← segmentAt ll.segment_lengths forward j
  let t := if text_start_length < 0 then text_start_length / segment_length
    else if forward then 1 - (fwd_line_length - text_start_length) / segment_length
    else 1 - (rev_line_length - text_end_length) / segment_length
  let points ← walkGlyphs p ll.segment_lengths forward glyphs ⟨j, t * segment_length, segment_length, t⟩
  some ⟨direction, points⟩

end Walk

/-- `MS_PI2` is half of pi. -/
structure PathAngles (K : Type) extends Angles K where
  cos : K → K
  sin : K → K

structure PlacedGlyph (K : Type) where
  pnt : K × K
  rot : K

section Rotate
variable {K : Type} [Field K] [LinearOrder K] (angles : PathAngles K) (maxoverlapangle cy : K)

def anglesOverlap (theta rot : K) : Bool :=
  min |theta - rot| (4 * angles.MS_PI2 - |theta - rot|) > maxoverlapangle

/-- The point `pnt` is moved to the center of the line. -/
def centeredGlyph (pnt : K × K) (theta : K) : PlacedGlyph K :=
  ⟨(pnt.1 - cy * angles.sin theta, pnt.2 - cy * angles.cos theta), theta⟩

/-- The loop from the glyph `k - 1` on, whose predecessor is a space or not and has an angle: the placed glyphs, or the `k` of the
first overlap. -/
def rotateGlyphs (k : Nat) : Option (Bool × K) → List (PathGlyph K) → List (K × K) → Except Nat (List (PlacedGlyph K))
  | before, glyph :: glyphs, pnt :: next :: points =>
    let dx := next.1 - pnt.1
    let dy := next.2 - pnt.2
    let theta := -angles.atan2 dy dx
    match before with
    | none => do
      let placed ← rotateGlyphs (k + 1) (some (glyph.space, theta)) glyphs (next :: points)
      .ok (centeredGlyph angles cy pnt theta :: placed)
    | some (space, rot) =>
      if dx ≠ 0 ∨ dy ≠ 0 then
        if maxoverlapangle > 0 ∧ ¬glyph.space ∧ ¬space ∧ anglesOverlap angles maxoverlapangle theta rot then .error k
        else do
          let placed ← rotateGlyphs (k + 1) (some (glyph.space, theta)) glyphs (next :: points)
          .ok (centeredGlyph angles cy pnt theta :: placed)
      else do
        let placed ← rotateGlyphs (k + 1) (some (glyph.space, rot)) glyphs (next :: points)
        .ok (centeredGlyph angles cy pnt rot :: placed)
  | _, _, _ => .ok []

end Rotate

structure PathStart (K : Type) where
  label_repeat : Int
  label_buffer : K
  max_retry_offset : K
  first_label_position : K

structure PathState (K : Type) where
  cur_label_position : K
  retry_offset : K
  first_retry_idx : Nat
  follow_labels : List (List (PlacedGlyph K))

/-- What a try says: its direction, and its glyphs or the `k` of its first overlap. -/
structure PathTry (K : Type) where
  direction : K
  outcome : Except Nat (List (PlacedGlyph K))

section Tries
variable {K : Type} [Field K] [LinearOrder K] (glyphs : List (PathGlyph K)) (start : PathStart K) (l : Nat)

/-- `max_dec_retry_offset` and `max_inc_retry_offset`. -/
def retryLimits (direction : K) : K × K :=
  let limited := min start.first_label_position start.max_retry_offset
  if start.label_repeat = 1 then (start.first_label_position, start.first_label_position)
  else if l = 0 then
    if direction > 0 then (start.max_retry_offset, limited) else (limited, start.max_retry_offset)
  else if l = start.label_repeat - 1 then
    if direction > 0 then (limited, start.max_retry_offset) else (start.max_retry_offset, limited)
  else (start.max_retry_offset, start.max_retry_offset)

def afterTry (state : PathState K) (attempt : PathTry K) : Option (PathState K) :=
  match attempt.outcome with
  | .error k => do
    let first_retry_idx := if state.retry_offset = 0 then k - 1 else state.first_retry_idx
    let (max_dec_retry_offset, max_inc_retry_offset) := retryLimits start l attempt.direction
    let retry_offset ←
      compute_retry_offset glyphs first_retry_idx state.retry_offset max_dec_retry_offset max_inc_retry_offset
    let retry_offset := if retry_offset ≠ 0 ∧ attempt.direction < 0 then -retry_offset else retry_offset
    some { state with retry_offset, first_retry_idx }
  | .ok placed =>
    some { state with
      cur_label_position := state.cur_label_position + start.label_buffer
      retry_offset := 0
      follow_labels := state.follow_labels ++ [placed] }

def labelTries (attempt : PathState K → Option (PathTry K)) : Nat → PathState K → Option (PathState K)
  | 0, _ => none
  | tries + 1, state => do
    let outcome ← attempt state
    let state ← afterTry glyphs start l state outcome
    if state.retry_offset = 0 then some state else labelTries attempt tries state

def pathLoop (attempt : PathState K → Option (PathTry K)) (tries l count : Nat) : PathState K → Option (PathState K) :=
  forUp (fun l state => labelTries glyphs start l attempt tries { state with retry_offset := 0, first_retry_idx := 0 }) l count

end Tries

section Path
variable {K : Type} [Field K] [LinearOrder K] [FloorRing K]

/-- The values before the first label; the inner `none` is a text that is too long for the line. -/
def pathStart (repeat_distance total_length text_length : K) (force : Bool) : Option (Option (PathStart K)) :=
  if text_length > 3 / 2 * total_length ∧ ¬force then some none
  else do
    let repeat_distance := if text_length > 3 / 2 * total_length then 0 else repeat_distance
    let label_buffer := text_length + repeat_distance
    let (label_repeat, max_retry_offset) ←
      if repeat_distance > 0 ∧ total_length > text_length then do
        let count ← truncToInt ((total_length - text_length) / label_buffer)
        let label_repeat ← checkedInt (1 + count)
        some (label_repeat, repeat_distance / (21 / 10))
      else some (1, (total_length - text_length) / (21 / 10))
    let first_label_position :=
      if label_repeat % 2 ≠ 0 then (total_length - text_length) / 2 - ((label_repeat / 2 : Int) : K) * label_buffer
      else (total_length - repeat_distance) / 2 - text_length - ((label_repeat / 2 - 1 : Int) : K) * label_buffer
    some (some ⟨label_repeat, label_buffer, max_retry_offset, first_label_position⟩)

def tryPath (angles : PathAngles K) (maxoverlapangle : K) (p : LineObj K) (ll : LineLengths K) (textpath : PathText K)
    (state : PathState K) : Option (PathTry K) := do
  let walk ← walkPath p ll textpath.maxx textpath.glyphs (state.cur_label_position + state.retry_offset)
  some ⟨walk.direction, rotateGlyphs angles maxoverlapangle (-textpath.glyph_size / 2) 1 none textpath.glyphs walk.points⟩

/-- What `msLineLabelPath` reads of the label. -/
structure PathLabel (K : Type) where
  repeatdistance : Int
  maxoverlapangle : K
  force : Bool

def pathOverlapAngle (angles : PathAngles K) (label : PathLabel K) : K :=
  if label.maxoverlapangle > 0 then label.maxoverlapangle * angles.MS_DEG_TO_RAD else 4 / 5 * angles.MS_PI2

/-- `msLineLabelPath` for a line of three points or more and a text of two glyphs or more, with at most `tries` tries for each label:
the labels that it adds. -/
def msLineLabelPath (angles : PathAngles K) (p : LineObj K) (ll : LineLengths K) (textpath : PathText K) (label : PathLabel K)
    (resolutionfactor : K) (tries : Nat) : Option (List (List (PlacedGlyph K))) := do
  let some start ← pathStart (label.repeatdistance * resolutionfactor) ll.total_length textpath.maxx label.force | some []
  let state ← pathLoop textpath.glyphs start (tryPath angles (pathOverlapAngle angles label) p ll textpath) tries 0
    start.label_repeat.toNat ⟨start.first_label_position, 0, 0, []⟩
  some state.follow_labels

end Path

end MapServer
