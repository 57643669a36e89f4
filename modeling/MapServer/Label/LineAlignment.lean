import Mathlib.Data.Finset.Card
import Mathlib.Tactic.Linarith
import MapServer.Label.LayoutRuns
import MapServer.Shape.Record

/-! What `msLayoutTextSymbol` does after the runs have their faces, for runs of the basic shaper. Heights are exact numbers. -/

namespace MapServer
open Lib List Option Function

attribute [local instance] two_atLeastTwo

def HB_SCRIPT_COMMON : Nat := 0x5A797979

inductive MS_ALIGN_VALUE where
  | MS_ALIGN_DEFAULT | MS_ALIGN_LEFT | MS_ALIGN_CENTER | MS_ALIGN_RIGHT
  deriving DecidableEq

structure GlyphMetrics (K : Type) where
  advance : Nat
  miny : K
  maxy : K

/-- `metrics` are those of the glyph at a position of the text, in the face of its run. -/
structure LayoutFont (K : Type) where
  hasFace : TextRun → Bool
  metrics : Nat → GlyphMetrics K
  line_height : K

structure GlyphObj (K : Type) where
  position : Nat
  x : K
  y : K
  deriving DecidableEq

section Model
variable {K : Type} [Field K] [LinearOrder K]

def FLT_MAX : K := ((2 ^ 128 - 2 ^ 104 : Nat) : K)

/-- `lengths` are the lengths in `line_descs`. -/
structure ShapeState (K : Type) where
  glyphs : List (GlyphObj K)
  lengths : Nat → Int
  penx : Nat
  oldpeny : K
  bbox : RectObj K

def shapeGlyphs (font : LayoutFont K) (line_number : Nat) (peny : K) : List Nat → ShapeState K → ShapeState K
  | [], s => s
  | p :: rest, s =>
    let metrics := font.metrics p
    let miny := if line_number = 0 ∧ peny - metrics.maxy < s.bbox.miny then peny - metrics.maxy else s.bbox.miny
    let maxy := if peny - metrics.miny > s.bbox.maxy then peny - metrics.miny else s.bbox.maxy
    shapeGlyphs font line_number peny rest
      { s with glyphs := s.glyphs ++ [⟨p, s.penx, peny⟩], penx := s.penx + metrics.advance, bbox := { s.bbox with miny, maxy } }

def ShapeState.widen (s : ShapeState K) : ShapeState K :=
  { s with bbox := { s.bbox with maxx := if (s.penx : K) > s.bbox.maxx then s.penx else s.bbox.maxx } }

def startLine (peny : K) (previous : Option TextRun) (s : ShapeState K) : ShapeState K :=
  if peny ≠ s.oldpeny then
    let lengths := match previous with
      | none => s.lengths
      | some before => Function.update s.lengths before.line_number s.penx
    { { s with lengths }.widen with oldpeny := peny, penx := 0 }
  else s

def usesBasicShaper (run : TextRun) : Bool := run.rtl == -1 || run.script == HB_SCRIPT_LATIN || run.script == HB_SCRIPT_COMMON

/-- The loop over the runs. `none` is a run that HarfBuzz shapes. -/
def shapeRuns (font : LayoutFont K) (numlines : Nat) : Option TextRun → List TextRun → ShapeState K → Option (ShapeState K)
  | _, [], s => some s
  | previous, run :: rest, s =>
    if !font.hasFace run then shapeRuns font numlines (some run) rest s
    else
      let peny := ((1 - numlines + run.line_number : Int) : K) * font.line_height
      let s := startLine peny previous s
      if usesBasicShaper run then
        let s := shapeGlyphs font run.line_number peny (runPositions run) s
        let s := { s with lengths := Function.update s.lengths (numlines - 1) s.penx }.widen
        shapeRuns font numlines (some run) rest s
      else none

/-- The offset of a line, with `prev_default_align` and `cur_default_align`, where left-to-right is 0 and right-to-left is 1. -/
def lineOffset (align : MS_ALIGN_VALUE) (max_line_length length : Int) (rtl : LineRtl) (cur_line_offset : K) (prev cur : Int) :
    K × Int × Int :=
  match align with
  | .MS_ALIGN_CENTER => (((max_line_length - length : Int) : K) / 2, prev, cur)
  | .MS_ALIGN_RIGHT => (((max_line_length - length : Int) : K), prev, cur)
  | .MS_ALIGN_LEFT => (0, prev, cur)
  | .MS_ALIGN_DEFAULT =>
    let (prev, cur) := match rtl with
      | .MS_RTL_MIXED => (prev, prev)
      | .MS_RTL_RTL => (1, 1)
      | .MS_RTL_LTR => (0, 0)
    (if cur = 1 then ((max_line_length - length : Int) : K) else if cur = 0 then 0 else cur_line_offset, prev, cur)

/-- The loop over the glyphs. `line` is the number of lines that were begun. -/
def alignGlyphs (align : MS_ALIGN_VALUE) (max_line_length : Int) (lengths : Nat → Int) (rtl : Nat → LineRtl) :
    List (GlyphObj K) → Nat → K → K → Int → Int → List (GlyphObj K)
  | [], _, _, _, _, _ => []
  | glyph :: rest, line, oldpeny, cur_line_offset, prev, cur =>
    if glyph.y ≠ oldpeny then
      let (cur_line_offset, prev, cur) := lineOffset align max_line_length (lengths line) (rtl line) cur_line_offset prev cur
      { glyph with x := glyph.x + cur_line_offset } ::
        alignGlyphs align max_line_length lengths rtl rest (line + 1) glyph.y cur_line_offset prev cur
    else
      { glyph with x := glyph.x + cur_line_offset } ::
        alignGlyphs align max_line_length lengths rtl rest line oldpeny cur_line_offset prev cur

def maxLineLength (lengths : Nat → Int) (numlines : Nat) : Int :=
  (List.range numlines).foldl (fun most i => if lengths i > most then lengths i else most) 0

def layoutLines (layout : TextLayout) : Nat := (layout.runs.get (layout.nruns - 1)).line_number + 1

/-- The glyphs and the bounds. `memory` is what the lengths are before they are set. -/
def layoutGlyphs (font : LayoutFont K) (align : MS_ALIGN_VALUE) (memory : Nat → Int) (layout : TextLayout) :
    Option (List (GlyphObj K) × RectObj K) := do
  let numlines := layoutLines layout
  let s ← shapeRuns font numlines none (layout.runs.front layout.nruns)
    ⟨[], memory, 0, ((3455 : Nat) : K), ⟨0, FLT_MAX, -FLT_MAX, -FLT_MAX⟩⟩
  if numlines > 1 then
    let max_line_length := maxLineLength s.lengths numlines
    some (alignGlyphs align max_line_length s.lengths layout.line_descs.get s.glyphs 0 ((3455 : Nat) : K) 0 1 0, s.bbox)
  else some (s.glyphs, s.bbox)

def textGlyphs (unicodes : List Nat) : List Nat := glyphsBefore unicodes unicodes.length

def lineWidth (font : LayoutFont K) (unicodes glyphs : List Nat) (k : Nat) : Nat :=
  ((glyphs.filter fun p => linesBefore unicodes p = k).map fun p => (font.metrics p).advance).sum

def advanceBefore (font : LayoutFont K) (unicodes : List Nat) (p : Nat) : Nat :=
  lineWidth font unicodes (glyphsBefore unicodes p) (linesBefore unicodes p)

def alignOffset (align : MS_ALIGN_VALUE) (most width : Nat) : K :=
  match align with
  | .MS_ALIGN_CENTER => ((most : K) - width) / 2
  | .MS_ALIGN_RIGHT => (most : K) - width
  | .MS_ALIGN_LEFT | .MS_ALIGN_DEFAULT => 0

def OwnWidths (font : LayoutFont K) (unicodes : List Nat) (align : MS_ALIGN_VALUE) (glyphs : List (GlyphObj K)) (bbox : RectObj K) : Prop :=
  glyphs.map (·.position) = textGlyphs unicodes ∧
    ∃ most, IsGreatest (Set.range (lineWidth font unicodes (textGlyphs unicodes))) most ∧
      (∀ glyph ∈ glyphs, glyph.x = (advanceBefore font unicodes glyph.position : K) +
        alignOffset align most (lineWidth font unicodes (textGlyphs unicodes) (linesBefore unicodes glyph.position))) ∧
      (most : K) ≤ bbox.maxx

def filledBefore (unicodes : List Nat) (k : Nat) : Nat := (((textGlyphs unicodes).map (linesBefore unicodes)).toFinset.filter (· < k)).card

end Model

section Text
variable {unicodes : List Nat}

theorem linesBefore_mono (unicodes : List Nat) {p q : Nat} (before : p ≤ q) : linesBefore unicodes p ≤ linesBefore unicodes q :=
  (take_sublist_take_left before).count_le 10

theorem textGlyphs_sorted (unicodes : List Nat) : (textGlyphs unicodes).Pairwise (· < ·) := pairwise_lt_range.filter _

theorem textGlyphs_split {before after : List Nat} {p : Nat} (parts : textGlyphs unicodes = before ++ p :: after) :
    glyphsBefore unicodes p = before := by
  have sorted := textGlyphs_sorted unicodes
  rw [parts, pairwise_append, pairwise_cons] at sorted
  obtain ⟨front, ⟨ahead, _⟩, across⟩ := sorted
  refine Perm.eq_of_pairwise (fun a b _ _ one two => absurd one (by omega)) (pairwise_lt_range.filter _) front ?_
  refine (perm_ext_iff_of_nodup (nodup_range.filter _) (front.imp fun {_ _} less => less.ne)).mpr ?_
  intro q
  have glyph (q : Nat) : q ∈ before ++ p :: after ↔ q < unicodes.length ∧ unicodes[q]? ≠ some 10 := by
    rw [← parts]
    exact mem_glyphsBefore
  have isP := (glyph p).mp (by simp)
  apply mem_glyphsBefore.trans
  constructor
  · rintro ⟨less, some_⟩
    have member := (glyph q).mpr ⟨by omega, some_⟩
    rw [mem_append, mem_cons] at member
    rcases member with one | rfl | later
    · exact one
    · exact absurd less (Nat.lt_irrefl _)
    · exact absurd (ahead q later) (by omega)
  · intro member
    exact ⟨across q member p mem_cons_self, ((glyph q).mp (by simp [member])).2⟩

theorem filledBefore_next {before after : List Nat} {q p : Nat} (parts : textGlyphs unicodes = before ++ q :: p :: after)
    (other : linesBefore unicodes q ≠ linesBefore unicodes p) :
    filledBefore unicodes (linesBefore unicodes p) = filledBefore unicodes (linesBefore unicodes q) + 1 := by
  have sorted := textGlyphs_sorted unicodes
  rw [parts, pairwise_append, pairwise_cons, pairwise_cons] at sorted
  obtain ⟨_, ⟨afterQ, afterP, _⟩, across⟩ := sorted
  have less : linesBefore unicodes q < linesBefore unicodes p :=
    lt_of_le_of_ne (linesBefore_mono unicodes (afterQ p mem_cons_self).le) other
  have isQ : q ∈ textGlyphs unicodes := by simp [parts]
  unfold filledBefore
  rw [← Finset.card_insert_of_notMem (a := linesBefore unicodes q) (by simp)]
  congr 1
  ext k
  simp only [Finset.mem_filter, List.mem_toFinset, List.mem_map, Finset.mem_insert]
  constructor
  · rintro ⟨⟨r, isR, rfl⟩, before_⟩
    rw [parts, mem_append, mem_cons, mem_cons] at isR
    rcases isR with first | rfl | rfl | last
    · have most := linesBefore_mono unicodes (across r first q mem_cons_self).le
      rcases most.lt_or_eq with below | same
      · exact .inr ⟨⟨r, by simp [parts, first], rfl⟩, below⟩
      · exact .inl same
    · exact .inl rfl
    · exact absurd before_ (Nat.lt_irrefl _)
    · exact absurd (linesBefore_mono unicodes (afterP r last).le) (by omega)
  · rintro (rfl | ⟨line, below⟩)
    · exact ⟨⟨q, isQ, rfl⟩, less⟩
    · exact ⟨line, below.trans less⟩

theorem filledBefore_first {after : List Nat} {p : Nat} (parts : textGlyphs unicodes = p :: after) :
    filledBefore unicodes (linesBefore unicodes p) = 0 := by
  have sorted := textGlyphs_sorted unicodes
  rw [parts, pairwise_cons] at sorted
  rw [filledBefore, Finset.card_eq_zero, Finset.filter_eq_empty_iff]
  intro k isLine
  rw [List.mem_toFinset, List.mem_map] at isLine
  obtain ⟨q, isQ, rfl⟩ := isLine
  rw [parts, mem_cons] at isQ
  rcases isQ with rfl | later
  · exact Nat.lt_irrefl _
  · exact (linesBefore_mono unicodes (sorted.1 q later).le).not_gt

theorem filledBefore_le (unicodes : List Nat) (k : Nat) : filledBefore unicodes k ≤ k := by
  calc filledBefore unicodes k ≤ (Finset.range k).card :=
        Finset.card_le_card fun j isLine => Finset.mem_range.mpr (Finset.mem_filter.mp isLine).2
    _ = k := Finset.card_range k

theorem RunsRight.line {layout : TextLayout} (right : RunsRight layout) {run : TextRun}
    (member : run ∈ layout.runs.front layout.nruns) {p : Nat} (inside : p ∈ runPositions run) :
    linesBefore layout.unicodes p = run.line_number := by
  have bounds := mem_range'_1.mp inside
  rw [right.number run member]
  apply linesBefore_same bounds.1
  intro q low high
  have glyph : q ∈ covered (layout.runs.front layout.nruns) :=
    mem_flatMap.mpr ⟨run, member, mem_range'_1.mpr ⟨low, by omega⟩⟩
  rw [right.covers, mem_glyphsBefore] at glyph
  exact glyph.2

theorem LinesInOrder.first {run : TextRun} {rest : List TextRun} (order : LinesInOrder (run :: rest)) : run.line_number = 0 := by
  obtain ⟨other, isOther, zero⟩ := order.whole run mem_cons_self 0 (Nat.zero_le _)
  have ordered := order.ordered
  rw [pairwise_cons] at ordered
  rcases mem_cons.mp isOther with rfl | later
  · exact zero
  · have := ordered.1 other later
    omega

theorem LinesInOrder.next {before rest : List TextRun} {previous run : TextRun}
    (order : LinesInOrder (before ++ previous :: run :: rest)) :
    run.line_number = previous.line_number ∨ run.line_number = previous.line_number + 1 := by
  have ordered := order.ordered
  rw [pairwise_append, pairwise_cons, pairwise_cons] at ordered
  obtain ⟨_, ⟨afterPrevious, afterRun, _⟩, across⟩ := ordered
  have most := afterPrevious run mem_cons_self
  by_contra far
  obtain ⟨other, isOther, between⟩ := order.whole run (by simp) (previous.line_number + 1) (by omega)
  rw [mem_append, mem_cons, mem_cons] at isOther
  rcases isOther with first | rfl | rfl | last
  · have := across other first previous mem_cons_self
    omega
  · omega
  · omega
  · have := afterRun other last
    omega

end Text

section Widths
variable {K : Type} {font : LayoutFont K} {unicodes : List Nat}

theorem lineWidth_append (glyphs others : List Nat) (k : Nat) :
    lineWidth font unicodes (glyphs ++ others) k = lineWidth font unicodes glyphs k + lineWidth font unicodes others k := by
  rw [lineWidth, filter_append, map_append, sum_append]
  rfl

theorem lineWidth_cons {p k : Nat} (line : linesBefore unicodes p = k) (glyphs : List Nat) :
    lineWidth font unicodes (p :: glyphs) k = (font.metrics p).advance + lineWidth font unicodes glyphs k := by
  rw [lineWidth, filter_cons_of_pos (by simpa using line), map_cons, sum_cons]
  rfl

theorem lineWidth_eq_zero {glyphs : List Nat} {k : Nat} (other : ∀ p ∈ glyphs, linesBefore unicodes p ≠ k) :
    lineWidth font unicodes glyphs k = 0 := by
  have none_ : (glyphs.filter fun p => linesBefore unicodes p = k) = [] := by simpa using other
  rw [lineWidth, none_]
  rfl

theorem lineOffset_eq [Field K] {align : MS_ALIGN_VALUE} (explicit : align ≠ .MS_ALIGN_DEFAULT) (most width : Nat) (rtl : LineRtl) (offset : K)
    (prev cur : Int) : lineOffset align most width rtl offset prev cur = (alignOffset align most width, prev, cur) := by
  cases align with
  | MS_ALIGN_DEFAULT => exact absurd rfl explicit
  | MS_ALIGN_LEFT => rfl
  | MS_ALIGN_CENTER => simp [lineOffset, alignOffset]
  | MS_ALIGN_RIGHT => simp [lineOffset, alignOffset]

theorem maxLineLength_spec {lengths : Nat → Int} {widths : Nat → Nat} (n : Nat) (isWidth : ∀ k < n, lengths k = widths k) :
    ∃ most : Nat, maxLineLength lengths n = most ∧ (∀ k < n, widths k ≤ most) ∧ (most = 0 ∨ ∃ k < n, widths k = most) := by
  induction n with
  | zero => exact ⟨0, rfl, fun k below => absurd below (Nat.not_lt_zero k), .inl rfl⟩
  | succ n ih =>
    obtain ⟨most, isMost, bound, attained⟩ := ih fun k below => isWidth k (by omega)
    have step : maxLineLength lengths (n + 1) = if lengths n > maxLineLength lengths n then lengths n else maxLineLength lengths n := by
      unfold maxLineLength
      rw [range_succ, foldl_append]
      rfl
    rw [step, isMost, isWidth n (Nat.lt_succ_self n)]
    split
    · rename_i more
      have more : most < widths n := by exact_mod_cast more
      refine ⟨widths n, rfl, fun k below => ?_, .inr ⟨n, Nat.lt_succ_self n, rfl⟩⟩
      rcases Nat.lt_succ_iff_lt_or_eq.mp below with before | rfl
      · exact (bound k before).trans more.le
      · exact le_rfl
    · rename_i few
      have few : widths n ≤ most := by
        omega
      refine ⟨most, rfl, fun k below => ?_, attained.imp id fun ⟨k, below, isK⟩ => ⟨k, by omega, isK⟩⟩
      rcases Nat.lt_succ_iff_lt_or_eq.mp below with before | rfl
      · exact bound k before
      · exact few

end Widths

section Runs
variable {K : Type} [Field K] [LinearOrder K] {font : LayoutFont K} {unicodes : List Nat} {lines : Nat}

def penY (font : LayoutFont K) (lines k : Nat) : K := ((1 - lines + k : Int) : K) * font.line_height

def glyphAt (font : LayoutFont K) (unicodes : List Nat) (lines p : Nat) : GlyphObj K :=
  ⟨p, advanceBefore font unicodes p, penY font lines (linesBefore unicodes p)⟩

variable (lines) in
theorem shapeGlyphs_spec (ps : List Nat) {before after : List Nat} {k : Nat} {s : ShapeState K}
    (parts : textGlyphs unicodes = before ++ (ps ++ after)) (line : ∀ p ∈ ps, linesBefore unicodes p = k)
    (pen : s.penx = lineWidth font unicodes before k) :
    (shapeGlyphs font k (penY font lines k) ps s).glyphs = s.glyphs ++ ps.map (glyphAt font unicodes lines) ∧
      (shapeGlyphs font k (penY font lines k) ps s).lengths = s.lengths ∧
      (shapeGlyphs font k (penY font lines k) ps s).penx = lineWidth font unicodes (before ++ ps) k ∧
      (shapeGlyphs font k (penY font lines k) ps s).oldpeny = s.oldpeny ∧
      (shapeGlyphs font k (penY font lines k) ps s).bbox.maxx = s.bbox.maxx := by
  induction ps generalizing before s with
  | nil => simp [shapeGlyphs, pen]
  | cons p ps ih =>
    have isLine := line p mem_cons_self
    have here : glyphAt font unicodes lines p = ⟨p, s.penx, penY font lines k⟩ := by
      rw [glyphAt, advanceBefore, textGlyphs_split parts, isLine, pen]
    have split : textGlyphs unicodes = (before ++ [p]) ++ (ps ++ after) := by
      rw [parts, append_assoc]
      rfl
    have next := ih split (fun q member => line q (mem_cons_of_mem _ member))
      (s := { s with
        glyphs := s.glyphs ++ [⟨p, s.penx, penY font lines k⟩]
        penx := s.penx + (font.metrics p).advance
        bbox := { s.bbox with
          miny := if k = 0 ∧ penY font lines k - (font.metrics p).maxy < s.bbox.miny then penY font lines k - (font.metrics p).maxy
            else s.bbox.miny
          maxy := if penY font lines k - (font.metrics p).miny > s.bbox.maxy then penY font lines k - (font.metrics p).miny
            else s.bbox.maxy } })
      (by rw [lineWidth_append, ← pen, lineWidth_cons isLine]; rfl)
    rw [shapeGlyphs]
    obtain ⟨glyphs, lengths, penx, oldpeny, maxx⟩ := next
    refine ⟨?_, lengths, ?_, oldpeny, maxx⟩
    · refine glyphs.trans ?_
      rw [append_assoc, map_cons, here]
      rfl
    · refine penx.trans ?_
      rw [append_assoc]
      rfl

/-- The state when the glyphs of line `k` are to be placed behind `glyphs`. -/
structure Begun (font : LayoutFont K) (unicodes : List Nat) (lines k : Nat) (glyphs : List Nat) (s : ShapeState K) : Prop where
  placed : s.glyphs = glyphs.map (glyphAt font unicodes lines)
  penx : s.penx = lineWidth font unicodes glyphs k
  oldpeny : s.oldpeny = penY font lines k
  lengths : ∀ j < k, s.lengths j = lineWidth font unicodes glyphs j
  maxx : ∀ j < k, (lineWidth font unicodes glyphs j : K) ≤ s.bbox.maxx

/-- The state when the last glyphs that were placed are on line `k`. -/
structure Shaped (font : LayoutFont K) (unicodes : List Nat) (lines k : Nat) (glyphs : List Nat) (s : ShapeState K) : Prop
    extends Begun font unicodes lines k glyphs s where
  last : s.lengths (lines - 1) = s.penx
  widest : (s.penx : K) ≤ s.bbox.maxx

structure RunsReady (font : LayoutFont K) (unicodes : List Nat) (lines : Nat) (runs : List TextRun) : Prop where
  covers : covered runs = textGlyphs unicodes
  line : ∀ run ∈ runs, ∀ p ∈ runPositions run, linesBefore unicodes p = run.line_number
  order : LinesInOrder runs
  most : ∀ run ∈ runs, run.line_number < lines
  face : ∀ run ∈ runs, font.hasFace run = true
  basic : ∀ run ∈ runs, usesBasicShaper run = true

theorem ShapeState.le_widen (s : ShapeState K) : s.bbox.maxx ≤ s.widen.bbox.maxx ∧ (s.penx : K) ≤ s.widen.bbox.maxx := by
  have isMaxx : s.widen.bbox.maxx = if (s.penx : K) > s.bbox.maxx then (s.penx : K) else s.bbox.maxx := rfl
  rw [isMaxx]
  split
  · rename_i more
    exact ⟨more.le, le_rfl⟩
  · rename_i few
    exact ⟨le_rfl, not_lt.mp few⟩

theorem Begun.shape {k : Nat} {glyphs after : List Nat} {run : TextRun} {s : ShapeState K}
    (begun : Begun font unicodes lines k glyphs s) (parts : textGlyphs unicodes = glyphs ++ (runPositions run ++ after))
    (line : ∀ p ∈ runPositions run, linesBefore unicodes p = k) (most : k < lines) :
    Shaped font unicodes lines k (glyphs ++ runPositions run)
      { shapeGlyphs font k (penY font lines k) (runPositions run) s with
        lengths := update (shapeGlyphs font k (penY font lines k) (runPositions run) s).lengths (lines - 1)
          (shapeGlyphs font k (penY font lines k) (runPositions run) s).penx : ShapeState K }.widen := by
  obtain ⟨isGlyphs, lengths, penx, oldpeny, maxx⟩ := shapeGlyphs_spec lines (runPositions run) parts line begun.penx
  have others {j : Nat} (below : j < k) : lineWidth font unicodes (glyphs ++ runPositions run) j = lineWidth font unicodes glyphs j := by
    rw [lineWidth_append, lineWidth_eq_zero fun p member => (line p member).trans_ne below.ne', Nat.add_zero]
  generalize shapeGlyphs font k (penY font lines k) (runPositions run) s = t at isGlyphs lengths penx oldpeny maxx
  have wider := ShapeState.le_widen { t with lengths := update t.lengths (lines - 1) t.penx }
  refine ⟨⟨?_, penx, oldpeny.trans begun.oldpeny, ?_, ?_⟩, update_self .., wider.2⟩
  · rw [map_append, ← begun.placed]
    exact isGlyphs
  · intro j below
    rw [others below, ← begun.lengths j below, ← lengths]
    exact update_of_ne (by omega) _ _
  · intro j below
    rw [others below]
    refine (begun.maxx j below).trans ?_
    rw [← maxx]
    exact wider.1

variable [IsStrictOrderedRing K]

theorem penY_inj (height : 0 < font.line_height) {j k : Nat} (same : penY font lines j = penY font lines k) : j = k := by
  have offset : (1 - lines + j : Int) = 1 - lines + k := by exact_mod_cast mul_right_cancel₀ height.ne' same
  omega

theorem penY_ne_start (height : 0 < font.line_height) {k : Nat} (most : k < lines) : penY font lines k ≠ ((3455 : Nat) : K) := by
  have offset : ((1 - lines + k : Int) : K) ≤ 0 := by exact_mod_cast (by omega : (1 - lines + k : Int) ≤ 0)
  have below : penY font lines k ≤ 0 := mul_nonpos_of_nonpos_of_nonneg offset height.le
  have start : (0 : K) < ((3455 : Nat) : K) := Nat.cast_pos.mpr (by omega)
  exact (below.trans_lt start).ne

theorem Shaped.start (height : 0 < font.line_height) {previous : TextRun} {k : Nat} {glyphs : List Nat} {s : ShapeState K}
    (shaped : Shaped font unicodes lines previous.line_number glyphs s) (next : k = previous.line_number ∨ k = previous.line_number + 1)
    (line : ∀ p ∈ glyphs, linesBefore unicodes p ≤ previous.line_number) :
    Begun font unicodes lines k glyphs (startLine (penY font lines k) (some previous) s) := by
  rw [startLine, shaped.oldpeny]
  rcases next with rfl | rfl
  · rw [if_neg (fun other => other rfl)]
    exact shaped.toBegun
  · rw [if_pos fun same => absurd (penY_inj height same) (by omega)]
    have wider := ShapeState.le_widen { s with lengths := update s.lengths previous.line_number s.penx }
    refine ⟨shaped.placed, ?_, rfl, ?_, ?_⟩
    · exact (lineWidth_eq_zero fun p member => by have := line p member; omega).symm
    · intro j below
      rcases Nat.lt_succ_iff_lt_or_eq.mp below with before | rfl
      · rw [← shaped.lengths j before]
        exact update_of_ne before.ne _ _
      · rw [← shaped.penx]
        exact update_self ..
    · intro j below
      rcases Nat.lt_succ_iff_lt_or_eq.mp below with before | rfl
      · exact (shaped.maxx j before).trans wider.1
      · rw [← shaped.penx]
        exact wider.2

theorem covered_snoc (runs : List TextRun) (run : TextRun) : covered (runs ++ [run]) = covered runs ++ runPositions run := by
  rw [covered_append]
  simp [covered]

theorem shapeRuns_spec (height : 0 < font.line_height) {runs : List TextRun} (ready : RunsReady font unicodes lines runs)
    (rest : List TextRun) {before : List TextRun} {previous : TextRun} {s : ShapeState K} (parts : runs = before ++ previous :: rest)
    (shaped : Shaped font unicodes lines previous.line_number (covered (before ++ [previous])) s) :
    ∃ t, shapeRuns font lines (some previous) rest s = some t ∧
      Shaped font unicodes lines ((previous :: rest).getLast (cons_ne_nil _ _)).line_number (textGlyphs unicodes) t := by
  induction rest generalizing before previous s with
  | nil =>
    rw [← ready.covers, parts]
    exact ⟨s, rfl, shaped⟩
  | cons run rest ih =>
    have isRun : run ∈ runs := by simp [parts]
    have order := ready.order
    have covers := ready.covers
    rw [parts] at order covers
    have split : before ++ previous :: run :: rest = (before ++ [previous]) ++ run :: rest := by simp
    rw [split, covered_append] at covers
    have ordered := order.ordered
    rw [pairwise_append, pairwise_cons] at ordered
    have line : ∀ p ∈ covered (before ++ [previous]), linesBefore unicodes p ≤ previous.line_number := by
      intro p member
      obtain ⟨other, isOther, inside⟩ := mem_flatMap.mp member
      rw [ready.line other (by rw [parts, split]; exact mem_append_left _ isOther) p inside]
      rcases mem_append.mp isOther with first | last
      · exact ordered.2.2 other first previous mem_cons_self
      · exact (mem_singleton.mp last ▸ le_rfl)
    have next := (shaped.start height order.next line).shape covers.symm (ready.line run isRun) (ready.most run isRun)
    rw [← covered_snoc] at next
    obtain ⟨t, step, last⟩ := ih (parts.trans split) next
    refine ⟨t, ?_, last⟩
    rw [shapeRuns, if_neg (by simp [ready.face run isRun])]
    dsimp only
    rw [if_pos (ready.basic run isRun)]
    exact step

theorem shapeRuns_all (height : 0 < font.line_height) {runs : List TextRun} (ready : RunsReady font unicodes lines runs)
    (some_ : runs ≠ []) (memory : Nat → Int) (bbox : RectObj K) :
    ∃ t, shapeRuns font lines none runs ⟨[], memory, 0, ((3455 : Nat) : K), bbox⟩ = some t ∧
      Shaped font unicodes lines (runs.getLast some_).line_number (textGlyphs unicodes) t := by
  cases runs with
  | nil => exact absurd rfl some_
  | cons run rest =>
    have isRun : run ∈ run :: rest := mem_cons_self
    have first := ready.order.first
    have begun : Begun font unicodes lines run.line_number []
        (startLine (penY font lines run.line_number) none ⟨[], memory, 0, ((3455 : Nat) : K), bbox⟩) := by
      rw [startLine, if_pos (penY_ne_start height (ready.most run isRun)), first]
      exact ⟨rfl, rfl, rfl, fun j below => absurd below (Nat.not_lt_zero j), fun j below => absurd below (Nat.not_lt_zero j)⟩
    have next := begun.shape (ready.covers.symm.trans rfl) (ready.line run isRun) (ready.most run isRun)
    obtain ⟨t, step, last⟩ := shapeRuns_spec height ready rest (show run :: rest = [] ++ run :: rest from rfl) (by rw [covered_snoc]; exact next)
    refine ⟨t, ?_, last⟩
    rw [shapeRuns, if_neg (by simp [ready.face run isRun])]
    dsimp only
    rw [if_pos (ready.basic run isRun)]
    exact step

def alignedAt (font : LayoutFont K) (unicodes : List Nat) (lines : Nat) (align : MS_ALIGN_VALUE) (most p : Nat) : GlyphObj K :=
  { glyphAt font unicodes lines p with
    x := advanceBefore font unicodes p +
      alignOffset align most (lineWidth font unicodes (textGlyphs unicodes) (filledBefore unicodes (linesBefore unicodes p))) }

theorem alignGlyphs_spec (height : 0 < font.line_height) {align : MS_ALIGN_VALUE} (explicit : align ≠ .MS_ALIGN_DEFAULT) (most : Nat)
    {lengths : Nat → Int} (widths : ∀ k < lines, lengths k = lineWidth font unicodes (textGlyphs unicodes) k) (rtl : Nat → LineRtl)
    (inside : ∀ p ∈ textGlyphs unicodes, linesBefore unicodes p < lines) (prev cur : Int) (rest : List Nat) {before : List Nat} {q : Nat}
    (parts : textGlyphs unicodes = before ++ q :: rest) :
    alignGlyphs align most lengths rtl (rest.map (glyphAt font unicodes lines)) (filledBefore unicodes (linesBefore unicodes q) + 1)
      (penY font lines (linesBefore unicodes q))
      (alignOffset align most (lineWidth font unicodes (textGlyphs unicodes) (filledBefore unicodes (linesBefore unicodes q)))) prev cur =
        rest.map (alignedAt font unicodes lines align most) := by
  induction rest generalizing before q with
  | nil => rfl
  | cons p rest ih =>
    have split : textGlyphs unicodes = (before ++ [q]) ++ p :: rest := by simp [parts]
    have next := ih split
    have isY : (glyphAt font unicodes lines p).y = penY font lines (linesBefore unicodes p) := rfl
    rw [map_cons, map_cons, alignGlyphs, isY]
    by_cases same : linesBefore unicodes q = linesBefore unicodes p
    · rw [if_neg (by rw [same]; exact fun other => other rfl), same, next]
      rfl
    · have here := filledBefore_next parts same
      have most_ := (filledBefore_le unicodes (linesBefore unicodes p)).trans_lt (inside p (by simp [parts]))
      rw [if_pos fun eq => same (penY_inj height eq).symm, ← here, widths _ most_, lineOffset_eq explicit]
      dsimp only
      rw [next]
      rfl

theorem alignGlyphs_all (height : 0 < font.line_height) {align : MS_ALIGN_VALUE} (explicit : align ≠ .MS_ALIGN_DEFAULT) (most : Nat)
    {lengths : Nat → Int} (widths : ∀ k < lines, lengths k = lineWidth font unicodes (textGlyphs unicodes) k) (rtl : Nat → LineRtl)
    (inside : ∀ p ∈ textGlyphs unicodes, linesBefore unicodes p < lines) (offset : K) (prev cur : Int) :
    alignGlyphs align most lengths rtl ((textGlyphs unicodes).map (glyphAt font unicodes lines)) 0 ((3455 : Nat) : K) offset prev cur =
      (textGlyphs unicodes).map (alignedAt font unicodes lines align most) := by
  cases parts : textGlyphs unicodes with
  | nil => rfl
  | cons p rest =>
    have isP : p ∈ textGlyphs unicodes := by simp [parts]
    have here := filledBefore_first parts
    have isY : (glyphAt font unicodes lines p).y = penY font lines (linesBefore unicodes p) := rfl
    have next := alignGlyphs_spec height explicit most widths rtl inside prev cur rest (show textGlyphs unicodes = [] ++ p :: rest from parts)
    have zero : 0 < lines := (Nat.zero_le _).trans_lt (inside p isP)
    rw [here] at next
    rw [map_cons, map_cons, alignGlyphs, isY, if_pos (penY_ne_start height (inside p isP)), widths 0 zero, lineOffset_eq explicit]
    dsimp only
    rw [next, alignedAt, here]
    rfl

end Runs

section Layout
variable {K : Type} [Field K] [LinearOrder K] [IsStrictOrderedRing K] {font : LayoutFont K}

theorem layoutGlyphs_spec {layout : TextLayout} (right : RunsRight layout) (order : LinesInOrder (layout.runs.front layout.nruns))
    (height : 0 < font.line_height) (face : ∀ run ∈ layout.runs.front layout.nruns, font.hasFace run = true)
    (basic : ∀ run ∈ layout.runs.front layout.nruns, usesBasicShaper run = true) {align : MS_ALIGN_VALUE}
    (explicit : align ≠ .MS_ALIGN_DEFAULT) (memory : Nat → Int) :
    ∃ most bbox, IsGreatest (Set.range (lineWidth font layout.unicodes (textGlyphs layout.unicodes))) most ∧ (most : K) ≤ bbox.maxx ∧
      layoutGlyphs font align memory layout =
        some ((textGlyphs layout.unicodes).map (alignedAt font layout.unicodes (layoutLines layout) align most), bbox) := by
  have isLast : (layout.runs.front layout.nruns).getLast order.some_ = layout.runs.get (layout.nruns - 1) := by
    simp [Slots.front]
  have lines : layoutLines layout = ((layout.runs.front layout.nruns).getLast order.some_).line_number + 1 := by
    rw [isLast]
    rfl
  have below : ∀ run ∈ layout.runs.front layout.nruns, run.line_number < layoutLines layout := by
    intro run member
    rw [lines, Nat.lt_succ_iff]
    have ordered := order.ordered
    rw [← dropLast_append_getLast order.some_, pairwise_append] at ordered
    rw [← dropLast_append_getLast order.some_, mem_append, mem_singleton] at member
    rcases member with before | rfl
    · exact ordered.2.2 run before _ (mem_singleton_self _)
    · exact le_rfl
  have ready : RunsReady font layout.unicodes (layoutLines layout) (layout.runs.front layout.nruns) :=
    ⟨right.covers, fun run member p => right.line member, order, below, face, basic⟩
  have inside : ∀ p ∈ textGlyphs layout.unicodes, linesBefore layout.unicodes p < layoutLines layout := by
    intro p member
    rw [← ready.covers] at member
    obtain ⟨run, isRun, here⟩ := mem_flatMap.mp member
    rw [right.line isRun here]
    exact below run isRun
  obtain ⟨s, step, shaped⟩ := shapeRuns_all height ready order.some_ memory ⟨0, FLT_MAX, -FLT_MAX, -FLT_MAX⟩
  have widths : ∀ k < layoutLines layout, s.lengths k = lineWidth font layout.unicodes (textGlyphs layout.unicodes) k := by
    intro k small
    rw [lines] at small
    rcases Nat.lt_succ_iff_lt_or_eq.mp small with before | rfl
    · exact shaped.lengths k before
    · rw [← shaped.penx, ← shaped.last, lines]
      rfl
  have beyond : ∀ k, layoutLines layout ≤ k → lineWidth font layout.unicodes (textGlyphs layout.unicodes) k = 0 :=
    fun k far => lineWidth_eq_zero fun p member => ((inside p member).trans_le far).ne
  have wide : ∀ k, (lineWidth font layout.unicodes (textGlyphs layout.unicodes) k : K) ≤ s.bbox.maxx := by
    intro k
    rcases lt_trichotomy k ((layout.runs.front layout.nruns).getLast order.some_).line_number with before | rfl | far
    · exact shaped.maxx k before
    · rw [← shaped.penx]
      exact shaped.widest
    · rw [beyond k (by omega), Nat.cast_zero]
      exact (Nat.cast_nonneg _).trans shaped.widest
  obtain ⟨most, isMost, bound, attained⟩ := maxLineLength_spec (layoutLines layout) widths
  have greatest : IsGreatest (Set.range (lineWidth font layout.unicodes (textGlyphs layout.unicodes))) most := by
    constructor
    · rcases attained with rfl | ⟨k, _, isK⟩
      · exact ⟨layoutLines layout, beyond _ le_rfl⟩
      · exact ⟨k, isK⟩
    · rintro _ ⟨k, rfl⟩
      rcases Nat.lt_or_ge k (layoutLines layout) with small | far
      · exact bound k small
      · rw [beyond k far]
        exact Nat.zero_le _
  refine ⟨most, s.bbox, greatest, ?_, ?_⟩
  · obtain ⟨k, isK⟩ := greatest.1
    rw [← isK]
    exact wide k
  · rw [layoutGlyphs]
    dsimp only
    rw [step, bind_eq_bind, bind_some, shaped.placed]
    split
    · rw [isMost, alignGlyphs_all height explicit most widths _ inside]
    · rename_i few
      -- A single line is the widest one.
      congr 2
      apply map_congr_left
      intro p member
      have first : linesBefore layout.unicodes p = 0 := by
        have := inside p member
        omega
      have isWidth : lineWidth font layout.unicodes (textGlyphs layout.unicodes) 0 = most := by
        refine le_antisymm (greatest.2 ⟨0, rfl⟩) ?_
        obtain ⟨k, isK⟩ := greatest.1
        rcases Nat.eq_zero_or_pos k with rfl | far
        · exact isK.ge
        · rw [← isK, beyond k (by omega)]
          exact Nat.zero_le _
      have zero : filledBefore layout.unicodes (linesBefore layout.unicodes p) = 0 :=
        Nat.le_zero.mp ((filledBefore_le _ _).trans first.le)
      have none_ : (alignOffset align most most : K) = 0 := by cases align <;> simp [alignOffset]
      rw [alignedAt, zero, isWidth, none_, add_zero]
      rfl

omit [LinearOrder K] [IsStrictOrderedRing K] in
theorem alignOffset_inj [CharZero K] {align : MS_ALIGN_VALUE} (explicit : align ≠ .MS_ALIGN_DEFAULT) (right : align ≠ .MS_ALIGN_LEFT)
    {most width other : Nat} (same : (alignOffset align most width : K) = alignOffset align most other) : width = other := by
  have widths : (width : K) = other := by
    cases align with
    | MS_ALIGN_DEFAULT => exact absurd rfl explicit
    | MS_ALIGN_LEFT => exact absurd rfl right
    | MS_ALIGN_CENTER => exact sub_right_injective ((div_left_inj' (OfNat.ofNat_ne_zero 2)).mp same)
    | MS_ALIGN_RIGHT => exact sub_right_injective same
  exact_mod_cast widths

/-- The lines of a label are aligned on their own widths exactly where no line without glyphs shifts the widths. -/
theorem layoutGlyphs_ownWidths_iff {libraries : LayoutLibraries} {wrap : UInt8} {maxlength : Int} {annotext : CString}
    {layout : TextLayout} (run : msLayoutTextSymbol libraries wrap maxlength annotext = some layout) (some_ : layout.unicodes ≠ [])
    (height : 0 < font.line_height) (face : ∀ run ∈ layout.runs.front layout.nruns, font.hasFace run = true)
    (basic : ∀ run ∈ layout.runs.front layout.nruns, usesBasicShaper run = true) (memory : Nat → Int) {align : MS_ALIGN_VALUE}
    (explicit : align ≠ .MS_ALIGN_DEFAULT) :
    (∃ glyphs bbox, layoutGlyphs font align memory layout = some (glyphs, bbox) ∧ OwnWidths font layout.unicodes align glyphs bbox) ↔
      align = .MS_ALIGN_LEFT ∨ ∀ p ∈ textGlyphs layout.unicodes,
        lineWidth font layout.unicodes (textGlyphs layout.unicodes) (filledBefore layout.unicodes (linesBefore layout.unicodes p)) =
          lineWidth font layout.unicodes (textGlyphs layout.unicodes) (linesBefore layout.unicodes p) := by
  obtain ⟨right, order⟩ := msLayoutTextSymbol_order run some_
  obtain ⟨most, bbox, greatest, wide, result⟩ := layoutGlyphs_spec right order height face basic explicit memory
  constructor
  · rintro ⟨glyphs, bounds, isResult, _, other, isGreatest, own, _⟩
    rw [result] at isResult
    cases isResult
    by_cases left : align = .MS_ALIGN_LEFT
    · exact .inl left
    refine .inr fun p member => ?_
    have here := own _ (List.mem_map_of_mem member)
    rw [← greatest.unique isGreatest] at here
    exact alignOffset_inj explicit left (add_left_cancel here)
  · intro fits
    refine ⟨_, bbox, result, ?_, most, greatest, ?_, wide⟩
    · rw [List.map_map]
      exact List.map_id _
    · intro glyph member
      obtain ⟨p, isP, rfl⟩ := List.mem_map.mp member
      rcases fits with rfl | same
      · rfl
      · simp only [alignedAt, same p isP]
        rfl

end Layout

def plainFont : LayoutFont Rat where
  hasFace _ := true
  metrics _ := ⟨1, 0, 1⟩
  line_height := 1

theorem layoutGlyphs_ownWidths_iff_filled : ∃ layout, msLayoutTextSymbol plainLibraries 0 0 [97, 97, 10, 98] = some layout ∧
    ((∃ glyphs bbox, layoutGlyphs plainFont .MS_ALIGN_CENTER (fun _ => 0) layout = some (glyphs, bbox) ∧
      OwnWidths plainFont layout.unicodes .MS_ALIGN_CENTER glyphs bbox) ↔
      MS_ALIGN_VALUE.MS_ALIGN_CENTER = .MS_ALIGN_LEFT ∨ ∀ p ∈ textGlyphs layout.unicodes,
        lineWidth plainFont layout.unicodes (textGlyphs layout.unicodes) (filledBefore layout.unicodes (linesBefore layout.unicodes p)) =
          lineWidth plainFont layout.unicodes (textGlyphs layout.unicodes) (linesBefore layout.unicodes p)) := by
  have runs : (msLayoutTextSymbol plainLibraries 0 0 [97, 97, 10, 98]).map
      (fun layout => (layout.unicodes, (layout.runs.front layout.nruns).all usesBasicShaper)) = some ([97, 97, 10, 98], true) := by
    decide +kernel
  obtain ⟨layout, run, data⟩ := Option.map_eq_some_iff.mp runs
  rw [Prod.mk.injEq, List.all_eq_true] at data
  exact ⟨layout, run, layoutGlyphs_ownWidths_iff run (by simp [data.1]) zero_lt_one (fun _ _ => rfl) data.2 _ nofun⟩

theorem empty_line_shifts_widths : ∃ layout, msLayoutTextSymbol plainLibraries 0 0 [97, 97, 97, 97, 10, 10, 98] = some layout ∧
    (∃ glyphs bbox, layoutGlyphs plainFont .MS_ALIGN_RIGHT (fun _ => 0) layout = some (glyphs, bbox)) ∧
    ¬ ∃ glyphs bbox, layoutGlyphs plainFont .MS_ALIGN_RIGHT (fun _ => 0) layout = some (glyphs, bbox) ∧
      OwnWidths plainFont layout.unicodes .MS_ALIGN_RIGHT glyphs bbox := by
  have runs : (msLayoutTextSymbol plainLibraries 0 0 [97, 97, 97, 97, 10, 10, 98]).map
      (fun layout => (layout.unicodes, (layoutGlyphs plainFont .MS_ALIGN_RIGHT (fun _ => 0) layout).map
        fun result => result.1.map fun glyph => (glyph.position, glyph.x))) =
      some ([97, 97, 97, 97, 10, 10, 98], some [(0, 0), (1, 1), (2, 2), (3, 3), (6, 4)]) := by
    decide +kernel
  obtain ⟨layout, run, data⟩ := Option.map_eq_some_iff.mp runs
  rw [Prod.mk.injEq] at data
  obtain ⟨unicodes, glyphs⟩ := data
  obtain ⟨⟨placed, bounds⟩, result, places⟩ := Option.map_eq_some_iff.mp glyphs
  refine ⟨layout, run, ⟨placed, bounds, result⟩, ?_⟩
  rintro ⟨_, _, isResult, _, most, _, own, _⟩
  rw [result] at isResult
  cases isResult
  rw [unicodes] at own
  have place {p : Nat} {x : Rat} (member : (p, x) ∈ [(0, (0 : Rat)), (1, 1), (2, 2), (3, 3), (6, 4)]) :
      x = (advanceBefore plainFont [97, 97, 97, 97, 10, 10, 98] p : Rat) + ((most : Rat) -
        lineWidth plainFont [97, 97, 97, 97, 10, 10, 98] (textGlyphs [97, 97, 97, 97, 10, 10, 98])
          (linesBefore [97, 97, 97, 97, 10, 10, 98] p)) := by
    rw [← places, List.mem_map] at member
    obtain ⟨glyph, isGlyph, same⟩ := member
    cases same
    exact own glyph isGlyph
  have first := @place 0 0 (by simp)
  have last := @place 6 4 (by simp)
  have before : advanceBefore plainFont [97, 97, 97, 97, 10, 10, 98] 0 = 0 ∧ advanceBefore plainFont [97, 97, 97, 97, 10, 10, 98] 6 = 0 := by
    decide +kernel
  have widths : lineWidth plainFont [97, 97, 97, 97, 10, 10, 98] (textGlyphs [97, 97, 97, 97, 10, 10, 98])
        (linesBefore [97, 97, 97, 97, 10, 10, 98] 0) = 4 ∧
      lineWidth plainFont [97, 97, 97, 97, 10, 10, 98] (textGlyphs [97, 97, 97, 97, 10, 10, 98])
        (linesBefore [97, 97, 97, 97, 10, 10, 98] 6) = 1 := by
    decide +kernel
  rw [before.1, widths.1] at first
  rw [before.2, widths.2] at last
  push_cast at first last
  linarith

end MapServer
