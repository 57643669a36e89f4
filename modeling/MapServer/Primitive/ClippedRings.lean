import MapServer.Primitive.EdgeCourses
import MapServer.Primitive.RingNesting

namespace MapServer
open Lib.Segments List

theorem xy_pointAt {K : Type} (malloc : Nat → PointObj K) (i : Nat) (xy : K × K) : (pointAt malloc i xy).xy = xy := rfl

section Field
variable {K : Type} [Field K] [LinearOrder K] {rect : RectObj K}

def drawn (lines : List (LineObj K)) : Set (K × K) :=
  {p | ∃ part ∈ lines, ∃ ends ∈ segments part, p ∈ segment K ends.1.xy ends.2.xy}

theorem drawn_append (first second : List (LineObj K)) : drawn (first ++ second) = drawn first ∪ drawn second := by
  ext p
  simp [drawn, or_and_right, exists_or]

theorem drawn_nil : drawn ([] : List (LineObj K)) = ∅ := by simp [drawn]

theorem drawn_empty : drawn ([[]] : List (LineObj K)) = ∅ := by simp [drawn, segments]

theorem drawn_single (point : PointObj K) : drawn [[point]] = ∅ := by simp [drawn, segments]

theorem drawn_cons (first second : PointObj K) (rest : LineObj K) :
    drawn [first :: second :: rest] = segment K first.xy second.xy ∪ drawn [second :: rest] := by
  ext p
  simp [drawn, segments, or_and_right, exists_or]

theorem drawn_concat {line : LineObj K} {last : PointObj K} (isLast : line.getLast? = some last) (point : PointObj K) :
    drawn [line ++ [point]] = drawn [line] ∪ segment K last.xy point.xy := by
  induction line with
  | nil => simp at isLast
  | cons first rest ih =>
    cases rest with
    | nil =>
      obtain rfl : first = last := by simpa using isLast
      simp [drawn_cons, drawn_single]
    | cons second rest =>
      rw [getLast?_cons_cons] at isLast
      rw [cons_append, cons_append, drawn_cons, ← cons_append, ih isLast, drawn_cons, Set.union_assoc]

/-- What the loop over a part has kept of the path `path` up to the point `before`. -/
structure KeptInside (rect : RectObj K) (path : Set (K × K)) (before : PointObj K) (state : ClippedLines K) : Prop where
  inside : ∀ part ∈ state.tmp ++ [state.line], ∀ point ∈ part, point.xy ∈ area rect
  same : drawn (state.tmp ++ [state.line]) = path ∩ area rect
  last : ∀ point ∈ state.line.getLast?, point.xy = before.xy

variable {path : Set (K × K)} {before point : PointObj K} {state : ClippedLines K}

theorem KeptInside.starts (kept : KeptInside rect path before state) {last : PointObj K}
    (isLast : state.line.getLast? = some last) : last.xy = before.xy ∧ before.xy ∈ area rect := by
  have same := kept.last last isLast
  refine ⟨same, same ▸ kept.inside state.line (by simp) last (mem_of_getLast? isLast)⟩

variable [IsStrictOrderedRing K]

theorem KeptInside.extend (kept : KeptInside rect path before state) (malloc : Nat → PointObj K) {first last : K × K}
    (cut : Cut (area rect) before.xy point.xy first last) :
    ∃ line, (if state.line.length = 0 then [pointAt malloc 0 first, pointAt malloc 1 last]
        else state.line ++ [pointAt malloc state.line.length last]) = line ∧
      (∀ point ∈ line, point.xy ∈ area rect) ∧ drawn [line] = drawn [state.line] ∪ segment K before.xy point.xy ∩ area rect ∧
      ∀ point ∈ line.getLast?, point.xy = last := by
  refine ⟨_, rfl, ?_⟩
  cases isLast : state.line.getLast? with
  | none =>
    rw [getLast?_eq_none_iff] at isLast
    rw [isLast, length_nil, if_pos rfl, drawn_cons, drawn_single, drawn_empty, xy_pointAt, xy_pointAt, cut.same, Set.union_empty,
      Set.empty_union]
    refine ⟨?_, rfl, by simp [xy_pointAt]⟩
    intro point member
    rcases mem_cons.mp member with rfl | member
    · exact cut.ends.1
    · rw [mem_singleton.mp member]
      exact cut.ends.2
  | some previous =>
    have some_ : state.line.length ≠ 0 := by
      intro none
      rw [length_eq_zero_iff.mp none] at isLast
      cases isLast
    obtain ⟨joined, inside⟩ := kept.starts isLast
    rw [if_neg some_, drawn_concat isLast, xy_pointAt, joined, ← cut.same, cut.start inside]
    refine ⟨?_, rfl, by simp [xy_pointAt]⟩
    intro point member
    rcases mem_append.mp member with old | new
    · exact kept.inside state.line (by simp) point old
    · rw [mem_singleton.mp new]
      exact cut.ends.2

theorem clipSegment_kept (across : rect.minx ≤ rect.maxx) (up : rect.miny ≤ rect.maxy) (malloc : Nat → PointObj K)
    (kept : KeptInside rect path before state) (point : PointObj K) :
    KeptInside rect (path ∪ segment K before.xy point.xy) point (clipSegment malloc rect before.xy point.xy state) := by
  unfold clipSegment
  cases clipped : clipLine before.xy point.xy rect with
  | none =>
    have outside := clipLine_none across clipped
    refine ⟨kept.inside, by rw [kept.same, Set.union_inter_distrib_right, outside, Set.union_empty], ?_⟩
    intro last isLast
    have inside := (kept.starts isLast).2
    exact absurd ⟨left_mem_segment K before.xy point.xy, inside⟩ (Set.eq_empty_iff_forall_notMem.mp outside before.xy)
  | some ends =>
    obtain ⟨line, isLine, inside, same, isLast⟩ := kept.extend malloc (clipLine_some across up clipped)
    dsimp only
    rw [isLine]
    have all : ∀ part ∈ state.tmp ++ [line], ∀ point ∈ part, point.xy ∈ area rect := by
      intro part member
      rcases mem_append.mp member with old | new
      · exact kept.inside part (mem_append_left _ old)
      · rw [mem_singleton.mp new]
        exact inside
    have grown : drawn (state.tmp ++ [line]) = (path ∪ segment K before.xy point.xy) ∩ area rect := by
      rw [drawn_append, same, ← Set.union_assoc, ← drawn_append, kept.same, Set.union_inter_distrib_right]
    split
    · refine ⟨?_, by rw [drawn_append, drawn_empty, Set.union_empty, grown], by simp⟩
      intro part member
      rcases mem_append.mp member with old | new
      · exact all part old
      · rw [mem_singleton.mp new]
        simp
    · rename_i whole
      rw [not_or, not_not, not_not] at whole
      refine ⟨all, grown, fun other isOther => (isLast other isOther).trans (Prod.ext whole.1 whole.2)⟩

theorem clipPoints_kept (across : rect.minx ≤ rect.maxx) (up : rect.miny ≤ rect.maxy) (malloc : Nat → PointObj K)
    (rest : LineObj K) (kept : KeptInside rect path before state) :
    ∃ last, KeptInside rect (path ∪ drawn [before :: rest]) last (clipPoints malloc rect before rest state) := by
  induction rest generalizing before path state with
  | nil => exact ⟨before, by rwa [drawn_single, Set.union_empty]⟩
  | cons point rest ih =>
    obtain ⟨last, holds⟩ := ih (clipSegment_kept across up malloc kept point)
    exact ⟨last, by rwa [Set.union_assoc, ← drawn_cons] at holds⟩

structure ClippedTo (rect : RectObj K) (part : LineObj K) (lines : List (LineObj K)) : Prop where
  inside : ∀ line ∈ lines, ∀ point ∈ line, point.xy ∈ area rect
  same : drawn lines = drawn [part] ∩ area rect

theorem clipPart_clipped (across : rect.minx ≤ rect.maxx) (up : rect.miny ≤ rect.maxy) (malloc : Nat → PointObj K)
    {part : LineObj K} (some_ : part ≠ []) : ∃ lines, clipPart malloc rect part = some lines ∧ ClippedTo rect part lines := by
  cases part with
  | nil => exact absurd rfl some_
  | cons first rest =>
    have start : KeptInside rect ∅ first { tmp := [], line := [] } := ⟨by simp, by simp [drawn_empty], by simp⟩
    obtain ⟨last, kept⟩ := clipPoints_kept across up malloc rest start
    rw [Set.empty_union] at kept
    refine ⟨_, rfl, ?_⟩
    split
    · exact ⟨kept.inside, kept.same⟩
    · rename_i none
      have nothing := length_eq_zero_iff.mp (Nat.eq_zero_of_not_pos none)
      refine ⟨fun line member => kept.inside line (mem_append_left _ member), ?_⟩
      rw [← kept.same, drawn_append, nothing, drawn_empty, Set.union_empty]

omit [IsStrictOrderedRing K] in
theorem ClippedTo.flatten {parts : List (LineObj K)} {lines : List (List (LineObj K))}
    (each : Forall₂ (ClippedTo rect) parts lines) :
    (∀ line ∈ lines.flatten, ∀ point ∈ line, point.xy ∈ area rect) ∧ drawn lines.flatten = drawn parts ∩ area rect := by
  induction each with
  | nil => simp [drawn_nil]
  | cons here _ ih =>
    rename_i part first parts lines
    rw [flatten_cons]
    refine ⟨?_, ?_⟩
    · intro line member
      rcases mem_append.mp member with first | later
      · exact here.inside line first
      · exact ih.1 line later
    · rw [drawn_append, here.same, ih.2, ← Set.union_inter_distrib_right, ← drawn_append, singleton_append]

end Field

open Lib.Loop in
/-- Clipped lines are the part of the lines in the rectangle, and a clipped segment is the part of the segment in it,
in the same direction. -/
theorem msClipPolylineRect_exact (malloc : Nat → Nat → PointObj ℚ) (shape : ShapeObj ℚ) (rect : RectObj ℚ)
    (across : rect.minx ≤ rect.maxx) (up : rect.miny ≤ rect.maxy)
    (covers : ∀ part ∈ shape.line, ∀ point ∈ part, point.xy ∈ area shape.bounds)
    (nonempty : ∀ part ∈ shape.line, part ≠ []) :
    (∃ clipped, msClipPolylineRect malloc shape rect = some clipped ∧
      (∀ line ∈ clipped.line, ∀ point ∈ line, point.xy ∈ area rect) ∧
      drawn clipped.line = drawn shape.line ∩ area rect) ∧
    ∀ a b : ℚ × ℚ, ((clipLine a b rect).isSome = true ↔ (segment ℚ a b ∩ area rect).Nonempty) ∧
      ∀ ends ∈ clipLine a b rect, Cut (area rect) a b ends.1 ends.2 := by
  constructor
  · unfold msClipPolylineRect
    split
    · rename_i none
      exact ⟨shape, rfl, by simp [none], by simp [none, drawn_nil]⟩
    · split
      · rename_i within
        simp only [boundsWithin, decide_eq_true_iff] at within
        obtain ⟨right, left, high, low⟩ := within
        have inside : ∀ part ∈ shape.line, ∀ point ∈ part, point.xy ∈ area rect := by
          intro part isPart point member
          obtain ⟨⟨minx, maxx⟩, miny, maxy⟩ := covers part isPart point member
          exact ⟨⟨left.trans minx, maxx.trans right⟩, low.trans miny, maxy.trans high⟩
        refine ⟨shape, rfl, inside, (Set.inter_eq_left.mpr ?_).symm⟩
        rintro p ⟨part, isPart, ends, isSegment, onSegment⟩
        have first := of_mem_zip isSegment
        exact (area_convex rect).segment_subset (inside part isPart ends.1 first.1)
          (inside part isPart ends.2 (mem_of_mem_tail first.2)) onSegment
      · obtain ⟨lines, run, each⟩ := mapM_parts (f := fun (part, i) => clipPart (malloc i) rect part)
          (R := fun part lines => ClippedTo rect part.1 lines) fun part (member : part ∈ shape.line.zipIdx) =>
            clipPart_clipped across up (malloc part.2) (nonempty part.1 (fst_mem_of_mem_zipIdx member))
        have each : Forall₂ (ClippedTo rect) shape.line lines := by
          rw [← zipIdx_map_fst 0 shape.line, forall₂_map_left_iff]
          exact each
        obtain ⟨inside, same⟩ := ClippedTo.flatten each
        refine ⟨_, by rw [run]; rfl, ?_⟩
        rw [line_msComputeBounds]
        exact ⟨inside, same⟩
  · intro a b
    cases clipped : clipLine a b rect with
    | none => simp [clipLine_none across clipped]
    | some ends =>
      have cut := clipLine_some across up clipped
      refine ⟨iff_of_true rfl ?_, fun other isOther => by cases isOther; exact cut⟩
      rw [← cut.same]
      exact ⟨_, left_mem_segment ℚ _ _⟩

def crossingLine : ShapeObj ℚ where
  line := [[⟨0, 1, 0, 0⟩, ⟨3, 1, 0, 0⟩]]
  bounds := ⟨0, 1, 3, 1⟩
  type := .MS_SHAPE_LINE
  index := 0

theorem msClipPolylineRect_exact_crossing :
    ∃ clipped, msClipPolylineRect (fun _ _ => ⟨0, 0, 0, 0⟩) crossingLine ⟨1, 0, 2, 2⟩ = some clipped ∧
      drawn clipped.line = drawn crossingLine.line ∩ area ⟨1, 0, 2, 2⟩ :=
  have exactly := msClipPolylineRect_exact (fun _ _ => ⟨0, 0, 0, 0⟩) crossingLine ⟨1, 0, 2, 2⟩ (by decide +kernel)
    (by decide +kernel) (by simp [crossingLine, area, PointObj.xy]) (by simp [crossingLine])
  exactly.1.imp fun _ clipped => ⟨clipped.1, clipped.2.2⟩

end MapServer

namespace MapServer
open Lib.EvenOdd Lib.Segments

variable {K : Type} [Field K] [LinearOrder K] {rect : RectObj K} {q w a b l m : K × K} {path out more : List (K × K)}

/-- The output goes on from `w` to `l` by the points `out` while the input goes from `a` along `path`. -/
structure Trails (q w a : K × K) (path out : List (K × K)) (l : K × K) : Prop where
  last : out.getLastD w = l
  parity : parity q w out = (crosses w a q ^^ (parity q a path ^^ crosses (path.getLastD a) l q))

theorem trails_nil (q w a : K × K) : Trails q w a [] [] w where
  last := rfl
  parity := by
    rw [parity, parity, List.getLastD_nil, crosses_comm a w, Bool.false_xor, Bool.xor_self]

theorem trails_cons (edge : Trail q w a out m b) (rest : Trails q m b path more l) :
    Trails q w a (b :: path) (out ++ more) l where
  last := by
    rw [← rest.last, ← edge.last]
    cases more with
    | nil => rw [List.append_nil, List.getLastD_nil]
    | cons x more => simp [List.getLastD_eq_getLast?]
  parity := by
    rw [parity_append_last, edge.last, edge.parity, rest.parity, parity, List.getLastD_cons, crosses_comm b a, crosses_comm b m]
    generalize crosses w a q = wa, crosses a b q = ab, crosses m b q = mb
    generalize parity q b path = onward, crosses (path.getLastD b) l q = cl
    revert wa ab mb onward cl
    decide

theorem length_clipPolygonEdge (rect : RectObj K) (a b : K × K) : (clipPolygonEdge rect a b).length ≤ 3 := by
  rw [clipPolygonEdge_points rfl rfl rfl rfl rfl rfl rfl rfl rfl rfl]
  exact length_edgePoints ..

theorem length_clipPolygonEdges (rect : RectObj K) (before : PointObj K) (rest : LineObj K) :
    (clipPolygonEdges rect before rest).length ≤ 3 * rest.length := by
  induction rest generalizing before with
  | nil => rfl
  | cons point rest ih =>
    have edge := length_clipPolygonEdge rect before.xy point.xy
    have rest := ih point
    rw [clipPolygonEdges, List.length_append, List.length_cons]
    omega

/-- A clipped ring, if anything is left, is a ring of the rectangle. It is filled where the ring was, as far as grid points in the
rectangle and off the ring can tell. -/
structure KeepsInterior (rect : RectObj K) (ring : LineObj K) (output : Option (LineObj K)) : Prop where
  closed : ∀ line ∈ output, line.head?.map PointObj.xy = line.getLast?.map PointObj.xy
  length : ∀ line ∈ output, line.length ≤ 3 * ring.length + 1
  inArea : ∀ line ∈ output, ∀ point ∈ line, point.xy ∈ area rect
  same : ∀ q : PointObj K, GridPoint q.xy → q.xy ∈ interior rect → q.xy ∉ drawn [ring] →
    msPointInPolygon q (output.getD []) = msPointInPolygon q ring

omit [Field K] [LinearOrder K] in
theorem closeRing_eq (malloc : Nat → PointObj K) (first : K × K) (rest : List (K × K)) :
    ∃ line, closeRing malloc (first :: rest) = some line ∧ line.map PointObj.xy = first :: rest ++ [first] := by
  refine ⟨_, rfl, ?_⟩
  rw [List.map_map]
  exact List.zipIdx_map_fst 0 _

theorem inside_path_back {first : K × K} {rest : List (K × K)} (closed : rest.getLastD first = first) (q : K × K) :
    inside (first :: rest) q = parity q first rest := by
  have last : (first :: rest).getLast? = some first := by
    rw [List.getLast?_cons, ← List.getLastD_eq_getLast?, closed]
  rw [inside, last, Option.any_some, parity, crosses_self, Bool.false_xor]

theorem keepsInterior_self {ring : LineObj K} (closed : ring.head?.map PointObj.xy = ring.getLast?.map PointObj.xy)
    (inArea : ∀ point ∈ ring, point.xy ∈ area rect) : KeepsInterior rect ring (some ring) := by
  refine ⟨?_, ?_, ?_, fun _ _ _ _ => rfl⟩
  · rintro _ ⟨⟩
    exact closed
  · rintro _ ⟨⟩
    omega
  · rintro _ ⟨⟩
    exact inArea

variable [IsStrictOrderedRing K]

theorem clipPolygonEdges_trails (grid : GridRect rect) (inside : q ∈ interior rect) (gridQ : GridPoint q) {before : PointObj K}
    {rest : LineObj K} (gridPoints : ∀ point ∈ before :: rest, GridPoint point.xy) (apart : q ∉ drawn [before :: rest])
    (hidden : Hidden rect w before.xy) :
    ∃ l, Trails q w before.xy (rest.map PointObj.xy) (clipPolygonEdges rect before rest) l ∧
      Hidden rect l ((rest.map PointObj.xy).getLastD before.xy) := by
  induction rest generalizing before w with
  | nil => exact ⟨w, trails_nil .., hidden⟩
  | cons point rest ih =>
    rw [drawn_cons, Set.mem_union, not_or] at apart
    have gridBefore := gridPoints before List.mem_cons_self
    obtain ⟨in1, out1, in2, out2, tin1, tout1, tin2, tout2, tout, corner, turn, course, ⟨low1, low2, least⟩, points⟩ :=
      clipPolygonEdge_course (b := point.xy) gridBefore grid
    have bends := edgeLine_bends rect gridBefore gridQ apart.1
    obtain ⟨m, edge, hidden⟩ := course.trail low1 low2 least bends inside hidden
    obtain ⟨l, onward, hidden⟩ := ih (fun other member => gridPoints other (List.mem_cons_of_mem _ member)) apart.2 hidden
    rw [clipPolygonEdges, List.map_cons, points]
    exact ⟨l, trails_cons edge onward, by rwa [List.getLastD_cons]⟩

theorem clipPolygonEdges_in_area (grid : GridRect rect) {before : PointObj K} {rest : LineObj K}
    (gridPoints : ∀ point ∈ before :: rest, GridPoint point.xy) :
    ∀ point ∈ clipPolygonEdges rect before rest, point ∈ area rect := by
  induction rest generalizing before with
  | nil => simp [clipPolygonEdges]
  | cons point rest ih =>
    intro clipped member
    rw [clipPolygonEdges] at member
    rcases List.mem_append.mp member with here | later
    · obtain ⟨in1, out1, in2, out2, tin1, tout1, tin2, tout2, tout, corner, turn, course, ⟨low1, low2, -⟩, points⟩ :=
        clipPolygonEdge_course (b := point.xy) (gridPoints before List.mem_cons_self) grid
      exact course.points_in_area low1 low2 clipped (points ▸ here)
    · exact ih (fun other member => gridPoints other (List.mem_cons_of_mem _ member)) clipped later

theorem clipPolygonEdges_inside (grid : GridRect rect) (isInside : q ∈ interior rect) (gridQ : GridPoint q)
    {first : PointObj K} {rest : LineObj K} (gridPoints : ∀ point ∈ first :: rest, GridPoint point.xy)
    (apart : q ∉ drawn [first :: rest]) (closed : (rest.map PointObj.xy).getLastD first.xy = first.xy) :
    inside (clipPolygonEdges rect first rest) q = parity q first.xy (rest.map PointObj.xy) := by
  obtain ⟨l, run, hidden⟩ := clipPolygonEdges_trails (w := first.xy) grid isInside gridQ gridPoints apart (.inl rfl)
  rw [closed] at hidden
  -- The output ends at `l`, so it is closed by the way from `l` to its first point.
  obtain ⟨end_, again, -⟩ := clipPolygonEdges_trails grid isInside gridQ gridPoints apart hidden
  have runParity := run.parity
  have againParity := again.parity
  have runLast := run.last
  have againLast := again.last
  rw [closed] at runParity againParity
  generalize clipPolygonEdges rect first rest = out at *
  cases out with
  | nil =>
    obtain rfl : first.xy = l := runLast
    rw [parity, crosses_self, Bool.false_xor, Bool.xor_false] at runParity
    rw [← runParity]
    rfl
  | cons x more =>
    have same : end_ = l := by rw [← againLast, ← runLast, List.getLastD_cons, List.getLastD_cons]
    have last : (x :: more).getLast? = some l := by
      rw [List.getLast?_cons, ← List.getLastD_eq_getLast?, ← runLast, List.getLastD_cons]
    rw [inside, last, Option.any_some, againParity, same, crosses_comm first.xy l]
    generalize crosses l first.xy q = way, parity q first.xy (rest.map PointObj.xy) = whole
    revert way whole
    decide

theorem clipRing_keeps (malloc : Nat → PointObj K) (grid : GridRect rect) {ring : LineObj K}
    (gridPoints : ∀ point ∈ ring, GridPoint point.xy) (closed : ring.head?.map PointObj.xy = ring.getLast?.map PointObj.xy) :
    KeepsInterior rect ring (clipRing malloc rect ring) := by
  cases ring with
  | nil => exact ⟨nofun, nofun, nofun, fun _ _ _ _ => rfl⟩
  | cons first rest =>
    have back : (rest.map PointObj.xy).getLastD first.xy = first.xy := by
      rw [List.head?_cons, List.getLast?_cons, Option.map_some, Option.map_some, Option.some_inj] at closed
      rw [List.getLastD_eq_getLast?, List.getLast?_map, Option.getD_map PointObj.xy, ← closed]
    have size := length_clipPolygonEdges rect first rest
    have inArea := clipPolygonEdges_in_area grid gridPoints
    have filled (q : PointObj K) (gridQ : GridPoint q.xy) (isInside : q.xy ∈ interior rect) (apart : q.xy ∉ drawn [first :: rest]) :
        inside (clipPolygonEdges rect first rest) q.xy = msPointInPolygon q (first :: rest) := by
      rw [msPointInPolygon_eq, List.map_cons, inside_path_back back, clipPolygonEdges_inside grid isInside gridQ gridPoints apart back]
    rw [clipRing]
    generalize clipPolygonEdges rect first rest = points at *
    cases points with
    | nil => exact ⟨nofun, nofun, nofun, fun q gridQ isInside apart => filled q gridQ isInside apart⟩
    | cons start more =>
      obtain ⟨line, isLine, points⟩ := closeRing_eq malloc start more
      rw [isLine]
      refine ⟨?_, ?_, ?_, ?_⟩
      · rintro _ ⟨⟩
        rw [← List.head?_map, ← List.getLast?_map, points, List.getLast?_concat, List.cons_append, List.head?_cons]
      · rintro _ ⟨⟩
        have length := congrArg List.length points
        rw [List.length_map, List.length_append, List.length_singleton] at length
        rw [List.length_cons]
        omega
      · rintro _ ⟨⟩ point member
        have onLine := points ▸ List.mem_map_of_mem (f := PointObj.xy) member
        rcases List.mem_append.mp onLine with old | last
        · exact inArea _ old
        · exact inArea _ (List.mem_singleton.mp last ▸ List.mem_cons_self)
      · intro q gridQ isInside apart
        rw [← filled q gridQ isInside apart, msPointInPolygon_eq, Option.getD_some, points, List.cons_append, inside_closed]

/-- Clipping keeps the interior of polygons on the grid. The bounds that the shape comes with are in the rectangle only if its
points are. -/
theorem msClipPolygonRect_keepsInterior (malloc : Nat → Nat → PointObj K) (shape : ShapeObj K) (rect : RectObj K)
    (grid : GridRect rect) (gridPoints : ∀ ring ∈ shape.line, ∀ point ∈ ring, GridPoint point.xy)
    (closed : ∀ ring ∈ shape.line, ring.head?.map PointObj.xy = ring.getLast?.map PointObj.xy)
    (covers : boundsWithin shape.bounds rect → ∀ ring ∈ shape.line, ∀ point ∈ ring, point.xy ∈ area rect) :
    ∃ outputs, (msClipPolygonRect malloc shape rect).line = outputs.reduceOption ∧
      List.Forall₂ (KeepsInterior rect) shape.line outputs := by
  unfold msClipPolygonRect
  split
  · rename_i none
    exact ⟨[], none, none ▸ .nil⟩
  · split
    · rename_i within
      refine ⟨shape.line.map some, ?_, ?_⟩
      · show shape.line = (shape.line.map some).filterMap id
        rw [List.filterMap_map, Function.id_comp, List.filterMap_some]
      · rw [List.forall₂_map_right_iff, List.forall₂_same]
        intro ring isRing
        exact keepsInterior_self (closed ring isRing) (covers within ring isRing)
    · refine ⟨_, line_msComputeBounds _, ?_⟩
      rw [List.forall₂_map_right_iff, ← List.zipIdx_map_fst 0 shape.line, List.forall₂_map_left_iff, List.zipIdx_map_fst,
        List.forall₂_same]
      rintro ⟨ring, j⟩ member
      have isRing := List.fst_mem_of_mem_zipIdx member
      exact clipRing_keeps (malloc j) grid (gridPoints ring isRing) (closed ring isRing)

def cornerTriangle : ShapeObj ℚ where
  line := [[⟨0, 0, 0, 0⟩, ⟨6, 1, 0, 0⟩, ⟨1, 5, 0, 0⟩, ⟨0, 0, 0, 0⟩]]
  bounds := ⟨0, 0, 6, 5⟩
  type := .MS_SHAPE_POLYGON
  index := 0

theorem msClipPolygonRect_keepsInterior_corner :
    ∃ outputs, (msClipPolygonRect (fun _ _ => ⟨0, 0, 0, 0⟩) cornerTriangle ⟨1, 1, 9, 9⟩).line = outputs.reduceOption ∧
      List.Forall₂ (KeepsInterior ⟨1, 1, 9, 9⟩) cornerTriangle.line outputs := by
  refine msClipPolygonRect_keepsInterior _ cornerTriangle ⟨1, 1, 9, 9⟩ ?_ ?_ (by decide) (fun within => ?_)
  · exact ⟨⟨1, by simp⟩, ⟨9, by simp⟩, ⟨1, by simp⟩, ⟨9, by simp⟩, by norm_num, by norm_num⟩
  · intro ring isRing point member
    rw [List.mem_singleton.mp isRing] at member
    simp only [List.mem_cons, List.not_mem_nil, or_false] at member
    rcases member with rfl | rfl | rfl | rfl
    · exact ⟨⟨0, by simp [PointObj.xy]⟩, ⟨0, by simp [PointObj.xy]⟩⟩
    · exact ⟨⟨6, by simp [PointObj.xy]⟩, ⟨1, by simp [PointObj.xy]⟩⟩
    · exact ⟨⟨1, by simp [PointObj.xy]⟩, ⟨5, by simp [PointObj.xy]⟩⟩
    · exact ⟨⟨0, by simp [PointObj.xy]⟩, ⟨0, by simp [PointObj.xy]⟩⟩
  · exact absurd within (by decide +kernel)

end MapServer
