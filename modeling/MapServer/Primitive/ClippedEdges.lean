import MapServer.Lib.Crossings
import MapServer.Primitive.ClippedSegments

namespace MapServer
variable {K : Type} [Field K] [LinearOrder K]

def NEARZERO : K := 1 / (10 ^ 30 : Int)

def bumped (delta v1 min : K) : K := if delta = 0 then (if v1 > min then -NEARZERO else NEARZERO) else delta

/-- The sides that a line enters and leaves through: `xin` and `xout`, or `yin` and `yout`. -/
def inSide (delta min max : K) : K := if delta > 0 then min else max

def outSide (delta min max : K) : K := if delta > 0 then max else min

def clipPolygonEdge (rect : RectObj K) (p1 p2 : K × K) : List (K × K) :=
  let (x1, y1) := p1
  let (x2, y2) := p2
  let deltax := bumped (x2 - x1) x1 rect.minx
  let deltay := bumped (y2 - y1) y1 rect.miny
  let xin := inSide deltax rect.minx rect.maxx
  let xout := outSide deltax rect.minx rect.maxx
  let yin := inSide deltay rect.miny rect.maxy
  let yout := outSide deltay rect.miny rect.maxy
  let tinx := (xin - x1) / deltax
  let tiny := (yin - y1) / deltay
  let tin1 := if tinx < tiny then tinx else tiny
  let tin2 := if tinx < tiny then tiny else tinx
  if 1 ≥ tin1 then
    let corner := if 0 < tin1 then [(xin, yin)] else []
    if 1 ≥ tin2 then
      let toutx := (xout - x1) / deltax
      let touty := (yout - y1) / deltay
      let tout := if toutx < touty then toutx else touty
      if 0 < tin2 ∨ 0 < tout then
        if tin2 ≤ tout then
          let entry :=
            if 0 < tin2 then
              if tinx > tiny then [(xin, y1 + tinx * deltay)] else [(x1 + tiny * deltax, yin)]
            else []
          let exit :=
            if 1 > tout then
              if toutx < touty then (xout, y1 + toutx * deltay) else (x1 + touty * deltax, yout)
            else (x2, y2)
          corner ++ entry ++ [exit]
        else corner ++ [if tinx > tiny then (xin, yout) else (xout, yin)]
      else corner
    else corner
  else []

def clipPolygonEdges (rect : RectObj K) : PointObj K → LineObj K → List (K × K)
  | _, [] => []
  | before, point :: rest => clipPolygonEdge rect before.xy point.xy ++ clipPolygonEdges rect point rest

/-- The ring of the points that the edges gave, if there are any. Its members `z` and `m` keep what `malloc` gave. -/
def closeRing (malloc : Nat → PointObj K) (points : List (K × K)) : Option (LineObj K) :=
  match points with
  | [] => none
  | first :: rest => some ((first :: rest ++ [first]).zipIdx.map fun (xy, i) => pointAt malloc i xy)

def clipRing (malloc : Nat → PointObj K) (rect : RectObj K) (ring : LineObj K) : Option (LineObj K) :=
  match ring with
  | [] => none
  | first :: rest => closeRing malloc (clipPolygonEdges rect first rest)

/-- `malloc j` is what the points allocated for ring `j` hold. -/
def msClipPolygonRect (malloc : Nat → Nat → PointObj K) (shape : ShapeObj K) (rect : RectObj K) : ShapeObj K :=
  if shape.line = [] then shape
  else if boundsWithin shape.bounds rect then shape
  else
    msComputeBounds { shape with line := (shape.line.zipIdx.map fun (ring, j) => clipRing (malloc j) rect ring).reduceOption }

end MapServer

namespace MapServer
open Lib.EvenOdd

section Sides
variable {K : Type} [LinearOrder K]

def outer (rect : RectObj K) : Side → Set (K × K)
  | .left => {p | p.1 ≤ rect.minx}
  | .right => {p | rect.maxx ≤ p.1}
  | .below => {p | p.2 ≤ rect.miny}
  | .above => {p | rect.maxy ≤ p.2}

def beyond (rect : RectObj K) : Side → Set (K × K)
  | .left => {p | p.1 < rect.minx}
  | .right => {p | rect.maxx < p.1}
  | .below => {p | p.2 < rect.miny}
  | .above => {p | rect.maxy < p.2}

def interior (rect : RectObj K) : Set (K × K) :=
  {p | (rect.minx < p.1 ∧ p.1 < rect.maxx) ∧ rect.miny < p.2 ∧ p.2 < rect.maxy}

variable {rect : RectObj K} {side : Side} {p q : K × K}

theorem outer_of_beyond (past : p ∈ beyond rect side) : p ∈ outer rect side := by
  cases side <;> exact le_of_lt past

theorem mem_area (within : ∀ side, p ∉ beyond rect side) : p ∈ area rect :=
  ⟨⟨not_lt.mp (within .left), not_lt.mp (within .right)⟩, not_lt.mp (within .below), not_lt.mp (within .above)⟩

theorem onSide_of_outer (inside : q ∈ interior rect) (past : p ∈ outer rect side) : p ∈ onSide q side := by
  obtain ⟨⟨left, right⟩, below, above⟩ := inside
  cases side with
  | left => exact lt_of_le_of_lt past left
  | right => exact lt_of_lt_of_le right past
  | below => exact lt_of_le_of_lt past below
  | above => exact lt_of_lt_of_le above past

end Sides

section Trails
variable {K : Type} [Field K] [LinearOrder K] {rect : RectObj K} {q w a b c m l : K × K} {out more : List (K × K)}

/-- Nothing between the output point `w` and the input point `a` can be seen. -/
def Hidden (rect : RectObj K) (w a : K × K) : Prop := w = a ∨ ∃ side, w ∈ outer rect side ∧ a ∈ beyond rect side

theorem parity_append_last (q w : K × K) (first second : List (K × K)) :
    parity q w (first ++ second) = (parity q w first ^^ parity q (first.getLastD w) second) := by
  induction first generalizing w with
  | nil => rw [List.nil_append, parity, List.getLastD_nil, Bool.false_xor]
  | cons a first ih => rw [List.cons_append, parity, parity, ih, List.getLastD_cons, Bool.xor_assoc]

/-- The output goes on from `w` to `l` by the points `out` while the input goes from `a` to `b`. -/
structure Trail (q w a : K × K) (out : List (K × K)) (l b : K × K) : Prop where
  last : out.getLastD w = l
  parity : parity q w out = (crosses w a q ^^ (crosses a b q ^^ crosses b l q))

theorem Trail.append (first : Trail q w a out m c) (second : Trail q m c more l b)
    (split : crosses a b q = (crosses a c q ^^ crosses c b q)) : Trail q w a (out ++ more) l b where
  last := by
    rw [← second.last, ← first.last]
    cases more with
    | nil => rw [List.append_nil, List.getLastD_nil]
    | cons x more => simp [List.getLastD_eq_getLast?]
  parity := by
    rw [parity_append_last, first.last, first.parity, second.parity, split, crosses_comm c m]
    generalize crosses w a q = wa, crosses a c q = ac, crosses m c q = mc, crosses c b q = cb, crosses b l q = bl
    revert wa ac mc cb bl
    decide

theorem trail_stay (q w a : K × K) : Trail q w a [] w a where
  last := rfl
  parity := by rw [parity, crosses_self, Bool.false_xor, crosses_comm a w, Bool.xor_self]

theorem trail_same (q a b : K × K) : Trail q a a [] a b where
  last := rfl
  parity := by rw [parity, crosses_self, Bool.false_xor, crosses_comm b a, Bool.xor_self]

theorem trail_follow (q a b : K × K) : Trail q a a [b] b b where
  last := rfl
  parity := by
    rw [parity, parity, crosses_self, crosses_self, crosses_comm b a]
    simp

variable [IsStrictOrderedRing K]

theorem trail_skip (inside : q ∈ interior rect) {side : Side} (last : w ∈ outer rect side) (first : a ∈ outer rect side)
    (second : b ∈ outer rect side) : Trail q w a [] w b where
  last := rfl
  parity := by
    rw [← crosses_triangle (onSide_of_outer inside first) (onSide_of_outer inside second) (onSide_of_outer inside last), parity,
      crosses_comm a w, Bool.xor_self]

theorem trail_emit (inside : q ∈ interior rect) {side : Side} (last : w ∈ outer rect side) (first : a ∈ outer rect side)
    (second : b ∈ outer rect side) (next : c ∈ outer rect side) : Trail q w a [c] c b where
  last := rfl
  parity := by
    have w' := onSide_of_outer inside last
    have a' := onSide_of_outer inside first
    have b' := onSide_of_outer inside second
    have c' := onSide_of_outer inside next
    rw [← crosses_triangle a' b' c', ← crosses_triangle w' a' c', parity, parity, Bool.xor_false, crosses_comm]

/-- The line of an edge passes two opposite sides: it comes in at `tin` and is out at `tout`. -/
structure Passes (rect : RectObj K) (a b : K × K) (P : K → K × K) (comesIn goesOut : Side) (tin tout : K) : Prop where
  startIn : 0 < tin ↔ a ∈ beyond rect comesIn
  endIn : 1 < tin ↔ b ∈ beyond rect comesIn
  startOut : tout < 0 ↔ a ∈ beyond rect goesOut
  endOut : tout < 1 ↔ b ∈ beyond rect goesOut
  order : tin < tout
  before : ∀ t, t ≤ tin → P t ∈ outer rect comesIn
  after : ∀ t, tout ≤ t → P t ∈ outer rect goesOut
  within : ∀ t, tin ≤ t → t ≤ tout → P t ∉ beyond rect comesIn ∧ P t ∉ beyond rect goesOut

theorem Passes.stays_out {P : K → K × K} {comesIn goesOut : Side} {tin tout : K}
    (passes : Passes rect a b P comesIn goesOut tin tout) (past : a ∈ beyond rect goesOut) : b ∈ beyond rect goesOut :=
  passes.endOut.mp ((passes.startOut.mpr past).trans_le zero_le_one)

/-- The order of the sides that the line of an edge passes, with the corner and the turning point of that order. -/
structure Course (rect : RectObj K) (a b : K × K) (P : K → K × K) (in1 out1 in2 out2 : Side)
    (tin1 tout1 tin2 tout2 : K) (corner turn : K × K) : Prop where
  first : Passes rect a b P in1 out1 tin1 tout1
  second : Passes rect a b P in2 out2 tin2 tout2
  order : tin1 ≤ tin2
  sides : ∀ side, side = in1 ∨ side = out1 ∨ side = in2 ∨ side = out2
  start : P 0 = a
  corners : corner ∈ area rect ∧ turn ∈ area rect
  corner : corner ∈ outer rect in1 ∧ corner ∈ outer rect in2
  turn : tin1 < tin2 → turn ∈ outer rect in2 ∧ turn ∈ outer rect out1

/-- As seen from `q`, the way to `b` may be left at any point of the line. -/
def Bends (q b : K × K) (P : K → K × K) : Prop :=
  ∀ s t, 0 ≤ s → s ≤ t → t ≤ 1 → crosses (P s) b q = (crosses (P s) (P t) q ^^ crosses (P t) b q)

def edgeRest (tin2 tout : K) (entry exit stop turn : K × K) : List (K × K) :=
  if 1 ≥ tin2 then
    if 0 < tin2 ∨ 0 < tout then
      if tin2 ≤ tout then (if 0 < tin2 then [entry] else []) ++ [if 1 > tout then exit else stop] else [turn]
    else []
  else []

def edgePoints (tin1 tin2 tout : K) (corner entry exit stop turn : K × K) : List (K × K) :=
  if 1 ≥ tin1 then (if 0 < tin1 then [corner] else []) ++ edgeRest tin2 tout entry exit stop turn else []

section Course
variable {P : K → K × K} {in1 out1 in2 out2 : Side} {tin1 tout1 tin2 tout2 : K} {corner turn : K × K}

/-- As `Hidden`, where the side is not the one that the edge comes in by first. -/
def HiddenLater (rect : RectObj K) (in2 out1 out2 : Side) (w a : K × K) : Prop :=
  w = a ∨ ∃ side, (side = in2 ∨ side = out1 ∨ side = out2) ∧ w ∈ outer rect side ∧ a ∈ beyond rect side

variable (course : Course rect a b P in1 out1 in2 out2 tin1 tout1 tin2 tout2 corner turn)
include course

omit [IsStrictOrderedRing K] in
theorem Course.hidden_side (ahead : 0 < tin1) {side : Side} (past : a ∈ beyond rect side) : side = in1 ∨ side = in2 := by
  rcases course.sides side with rfl | rfl | rfl | rfl
  · exact .inl rfl
  · exact absurd (course.first.startOut.mpr past) (not_lt.mpr (ahead.trans course.first.order).le)
  · exact .inr rfl
  · exact absurd (course.second.startOut.mpr past) (not_lt.mpr ((ahead.trans_le course.order).trans course.second.order).le)

theorem Course.trail_missed (inside : q ∈ interior rect) (hidden : Hidden rect w a) (missed : 1 < tin1) :
    Trail q w a [] w b ∧ Hidden rect w b := by
  have startIn := course.first.startIn.mp (zero_lt_one.trans missed)
  have endIn := course.first.endIn.mp missed
  rcases hidden with rfl | ⟨side, last, past⟩
  · exact ⟨trail_same .., .inr ⟨in1, outer_of_beyond startIn, endIn⟩⟩
  · have stillPast : b ∈ beyond rect side := by
      rcases course.hidden_side (zero_lt_one.trans missed) past with rfl | rfl
      · exact endIn
      · exact course.second.endIn.mp (missed.trans_le course.order)
    exact ⟨trail_skip inside last (outer_of_beyond past) (outer_of_beyond stillPast), .inr ⟨side, last, stillPast⟩⟩

theorem Course.trail_corner (inside : q ∈ interior rect) (hidden : Hidden rect w a) :
    ∃ l, Trail q w a (if 0 < tin1 then [corner] else []) l a ∧ HiddenLater rect in2 out1 out2 l a := by
  by_cases ahead : 0 < tin1
  · rw [if_pos ahead]
    have startIn := course.first.startIn.mp ahead
    have startIn2 := course.second.startIn.mp (ahead.trans_le course.order)
    refine ⟨corner, ?_, .inr ⟨in2, .inl rfl, course.corner.2, startIn2⟩⟩
    rcases hidden with rfl | ⟨side, last, past⟩
    · exact trail_emit inside (outer_of_beyond startIn) (outer_of_beyond startIn) (outer_of_beyond startIn) course.corner.1
    · have next : corner ∈ outer rect side := by
        rcases course.hidden_side ahead past with rfl | rfl
        · exact course.corner.1
        · exact course.corner.2
      exact trail_emit inside last (outer_of_beyond past) (outer_of_beyond past) next
  · rw [if_neg ahead]
    refine ⟨w, trail_stay q w a, ?_⟩
    rcases hidden with same | ⟨side, last, past⟩
    · exact .inl same
    · rcases course.sides side with rfl | rfl | rfl | rfl
      · exact absurd (course.first.startIn.mpr past) ahead
      · exact .inr ⟨_, .inr (.inl rfl), last, past⟩
      · exact .inr ⟨_, .inl rfl, last, past⟩
      · exact .inr ⟨_, .inr (.inr rfl), last, past⟩

theorem Course.trail_beside (inside : q ∈ interior rect) (ready : HiddenLater rect in2 out1 out2 w a) (missed : 1 < tin2) :
    Trail q w a [] w b ∧ Hidden rect w b := by
  have startIn := course.second.startIn.mp (zero_lt_one.trans missed)
  have endIn := course.second.endIn.mp missed
  rcases ready with rfl | ⟨side, kinds, last, past⟩
  · exact ⟨trail_same .., .inr ⟨in2, outer_of_beyond startIn, endIn⟩⟩
  · have stillPast : b ∈ beyond rect side := by
      rcases kinds with rfl | rfl | rfl
      · exact endIn
      · exact course.first.stays_out past
      · exact absurd (course.second.startOut.mpr past) (not_lt.mpr ((zero_lt_one.trans missed).trans course.second.order).le)
    exact ⟨trail_skip inside last (outer_of_beyond past) (outer_of_beyond stillPast), .inr ⟨side, last, stillPast⟩⟩

variable {tout : K} (low1 : tout ≤ tout1) (low2 : tout ≤ tout2) (least : tout = tout1 ∨ tout = tout2)
include least

omit [IsStrictOrderedRing K] in
theorem Course.first_out (leaves : tout < 1) :
    ∃ side, (side = out1 ∨ side = out2) ∧ (∀ t, tout ≤ t → P t ∈ outer rect side) ∧ b ∈ beyond rect side := by
  rcases least with rfl | rfl
  · exact ⟨out1, .inl rfl, course.first.after, course.first.endOut.mp leaves⟩
  · exact ⟨out2, .inr rfl, course.second.after, course.second.endOut.mp leaves⟩

theorem Course.trail_gone (inside : q ∈ interior rect) (ready : HiddenLater rect in2 out1 out2 w a) (notIn : tin2 ≤ 0)
    (gone : tout ≤ 0) : Trail q w a [] w b ∧ Hidden rect w b := by
  rcases ready with rfl | ⟨side, kinds, last, past⟩
  · obtain ⟨side, -, after, past⟩ := course.first_out least (gone.trans_lt zero_lt_one)
    exact ⟨trail_same .., .inr ⟨side, course.start ▸ after 0 gone, past⟩⟩
  · have stillPast : b ∈ beyond rect side := by
      rcases kinds with rfl | rfl | rfl
      · exact absurd (course.second.startIn.mpr past) (not_lt.mpr notIn)
      · exact course.first.stays_out past
      · exact course.second.stays_out past
    exact ⟨trail_skip inside last (outer_of_beyond past) (outer_of_beyond stillPast), .inr ⟨side, last, stillPast⟩⟩

include low1 low2

omit least in
theorem Course.trail_entry (inside : q ∈ interior rect) (ready : HiddenLater rect in2 out1 out2 w a) (reached : tin2 ≤ 1)
    (here : 0 < tin2 ∨ 0 < tout) (visible : tin2 ≤ tout) :
    ∃ s, (0 ≤ s ∧ s ≤ 1) ∧ (0 ≤ tout → s ≤ tout) ∧ Trail q w a (if 0 < tin2 then [P tin2] else []) (P s) (P s) := by
  by_cases ahead : 0 < tin2
  · rw [if_pos ahead]
    refine ⟨tin2, ⟨ahead.le, reached⟩, fun _ => visible, ?_⟩
    have entry := course.second.before tin2 le_rfl
    rcases ready with rfl | ⟨side, kinds, last, past⟩
    · exact trail_follow ..
    · rcases kinds with rfl | rfl | rfl
      · exact trail_emit inside last (outer_of_beyond past) entry entry
      · exact absurd (course.first.startOut.mpr past) (not_lt.mpr ((ahead.trans_le visible).trans_le low1).le)
      · exact absurd (course.second.startOut.mpr past) (not_lt.mpr ((ahead.trans_le visible).trans_le low2).le)
  · have inFront := here.resolve_left ahead
    rw [if_neg ahead]
    refine ⟨0, ⟨le_rfl, zero_le_one⟩, id, ?_⟩
    rw [course.start]
    rcases ready with rfl | ⟨side, kinds, last, past⟩
    · exact trail_stay ..
    · rcases kinds with rfl | rfl | rfl
      · exact absurd (course.second.startIn.mpr past) ahead
      · exact absurd (course.first.startOut.mpr past) (not_lt.mpr (inFront.trans_le low1).le)
      · exact absurd (course.second.startOut.mpr past) (not_lt.mpr (inFront.trans_le low2).le)

include least

theorem Course.trail_visible (bends : Bends q b P) (inside : q ∈ interior rect) (ready : HiddenLater rect in2 out1 out2 w a)
    (reached : tin2 ≤ 1) (here : 0 < tin2 ∨ 0 < tout) (visible : tin2 ≤ tout) :
    ∃ l, Trail q w a ((if 0 < tin2 then [P tin2] else []) ++ [if 1 > tout then P tout else b]) l b ∧ Hidden rect l b := by
  have positive : 0 ≤ tout := by
    rcases here with ahead | inFront
    · exact (ahead.trans_le visible).le
    · exact inFront.le
  obtain ⟨s, ⟨low, high⟩, before, entry⟩ := course.trail_entry low1 low2 inside ready reached here visible
  have split := bends 0 s le_rfl low high
  rw [course.start] at split
  by_cases leaves : tout < 1
  · rw [if_pos leaves]
    obtain ⟨side, -, after, past⟩ := course.first_out least leaves
    refine ⟨P tout, entry.append ⟨rfl, ?_⟩ split, .inr ⟨side, after tout le_rfl, past⟩⟩
    have bend := bends s tout low (before positive) leaves.le
    rw [parity, parity, crosses_self, bend, crosses_comm (P tout) (P s), crosses_comm b (P tout)]
    simp
  · rw [if_neg leaves]
    exact ⟨b, entry.append (trail_follow ..) split, .inl rfl⟩

omit low2 in
theorem Course.trail_turn (bends : Bends q b P) (inside : q ∈ interior rect) (ready : HiddenLater rect in2 out1 out2 w a)
    (reached : tin2 ≤ 1) (here : 0 < tin2 ∨ 0 < tout) (hidden : tout < tin2) : Trail q w a [turn] turn b ∧ Hidden rect turn b := by
  have ahead : 0 < tin2 := here.elim id fun inFront => inFront.trans hidden
  obtain rfl : tout = tout1 := least.resolve_right fun same => absurd (same ▸ hidden) (not_lt.mpr course.second.order.le)
  obtain ⟨turnIn, turnOut⟩ := course.turn (course.first.order.trans hidden)
  have endOut := course.first.endOut.mp (hidden.trans_le reached)
  have split := bends 0 tin2 le_rfl ahead.le reached
  have meets := course.second.before tin2 le_rfl
  have rest := trail_skip inside turnOut (course.first.after tin2 hidden.le) (outer_of_beyond endOut)
  rw [course.start] at split
  refine ⟨?_, .inr ⟨out1, turnOut, endOut⟩⟩
  have startIn := outer_of_beyond (course.second.startIn.mp ahead)
  rcases ready with rfl | ⟨side, kinds, last, past⟩
  · exact (trail_emit inside startIn startIn meets turnIn).append rest split
  · rcases kinds with rfl | rfl | rfl
    · exact (trail_emit inside last startIn meets turnIn).append rest split
    · exact trail_emit inside last (outer_of_beyond past) (outer_of_beyond endOut) turnOut
    · exact absurd (course.second.startOut.mpr past) (not_lt.mpr (ahead.trans course.second.order).le)

theorem Course.trail_rest (bends : Bends q b P) (inside : q ∈ interior rect) (ready : HiddenLater rect in2 out1 out2 w a) :
    ∃ l, Trail q w a (edgeRest tin2 tout (P tin2) (P tout) b turn) l b ∧ Hidden rect l b := by
  unfold edgeRest
  by_cases reached : tin2 ≤ 1
  · rw [if_pos reached]
    by_cases here : 0 < tin2 ∨ 0 < tout
    · rw [if_pos here]
      by_cases visible : tin2 ≤ tout
      · rw [if_pos visible]
        exact course.trail_visible low1 low2 least bends inside ready reached here visible
      · rw [if_neg visible]
        exact ⟨turn, course.trail_turn low1 least bends inside ready reached here (not_le.mp visible)⟩
    · rw [if_neg here]
      rw [not_or, not_lt, not_lt] at here
      exact ⟨w, course.trail_gone least inside ready here.1 here.2⟩
  · rw [if_neg reached]
    exact ⟨w, course.trail_beside inside ready (not_le.mp reached)⟩

theorem Course.trail (bends : Bends q b P) (inside : q ∈ interior rect) (hidden : Hidden rect w a) :
    ∃ l, Trail q w a (edgePoints tin1 tin2 tout corner (P tin2) (P tout) b turn) l b ∧ Hidden rect l b := by
  unfold edgePoints
  by_cases reached : tin1 ≤ 1
  · rw [if_pos reached]
    obtain ⟨m, start, ready⟩ := course.trail_corner inside hidden
    obtain ⟨l, rest, hidden⟩ := course.trail_rest low1 low2 least bends inside ready
    exact ⟨l, start.append rest (by rw [crosses_self, Bool.false_xor]), hidden⟩
  · rw [if_neg reached]
    exact ⟨w, course.trail_missed inside hidden (not_le.mp reached)⟩

omit [IsStrictOrderedRing K] least in
theorem Course.line_in_area {t : K} (late : tin2 ≤ t) (early : t ≤ tout) : P t ∈ area rect := by
  have first := course.first.within t (course.order.trans late) (early.trans low1)
  have second := course.second.within t late (early.trans low2)
  apply mem_area
  intro side
  rcases course.sides side with rfl | rfl | rfl | rfl
  · exact first.1
  · exact first.2
  · exact second.1
  · exact second.2

omit [IsStrictOrderedRing K] least in
theorem Course.stop_in_area (reached : tin2 ≤ 1) (stays : 1 ≤ tout) : b ∈ area rect := by
  apply mem_area
  intro side
  rcases course.sides side with rfl | rfl | rfl | rfl
  · exact course.first.endIn.not.mp (not_lt.mpr (course.order.trans reached))
  · exact course.first.endOut.not.mp (not_lt.mpr (stays.trans low1))
  · exact course.second.endIn.not.mp (not_lt.mpr reached)
  · exact course.second.endOut.not.mp (not_lt.mpr (stays.trans low2))

omit [IsStrictOrderedRing K] least in
theorem Course.points_in_area (point : K × K) (member : point ∈ edgePoints tin1 tin2 tout corner (P tin2) (P tout) b turn) :
    point ∈ area rect := by
  unfold edgePoints edgeRest at member
  split at member
  · rcases List.mem_append.mp member with isCorner | later
    · split at isCorner
      · exact List.mem_singleton.mp isCorner ▸ course.corners.1
      · exact absurd isCorner List.not_mem_nil
    · split at later
      · rename_i reached
        split at later
        · split at later
          · rename_i visible
            rcases List.mem_append.mp later with isEntry | isExit
            · split at isEntry
              · exact List.mem_singleton.mp isEntry ▸ course.line_in_area low1 low2 le_rfl visible
              · exact absurd isEntry List.not_mem_nil
            · split at isExit
              · exact List.mem_singleton.mp isExit ▸ course.line_in_area low1 low2 visible le_rfl
              · rename_i stays
                exact List.mem_singleton.mp isExit ▸ course.stop_in_area low1 low2 reached (not_lt.mp stays)
          · exact List.mem_singleton.mp later ▸ course.corners.2
        · exact absurd later List.not_mem_nil
      · exact absurd later List.not_mem_nil
  · exact absurd member List.not_mem_nil

end Course

omit [IsStrictOrderedRing K] in
theorem length_edgePoints (tin1 tin2 tout : K) (corner entry exit stop turn : K × K) :
    (edgePoints tin1 tin2 tout corner entry exit stop turn).length ≤ 3 := by
  unfold edgePoints edgeRest
  split_ifs <;> simp

end Trails
end MapServer
