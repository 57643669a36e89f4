import Mathlib.Algebra.Order.Archimedean.Basic
import Mathlib.Algebra.Order.Floor.Ring
import Mathlib.Data.Int.Log
import Mathlib.Data.Rat.Floor
import Mathlib.Tactic.Ring
import MapServer.Spatial.Rect

/-! The lines of `mapgraticule.c`, on exact numbers. `none` stands for a loop that goes on. -/

namespace MapServer
open List

attribute [local instance] two_atLeastTwo

def MAPGRATICULE_ARC_SUBDIVISION_DEFAULT : Nat := 256

def MAPGRATICULE_ARC_MINIMUM : Int := 16

inductive MsGraticulePosition where
  | posBottom
  | posTop
  | posLeft
  | posRight

/-- `graticuleObj` without what only the texts of the labels depend on. -/
structure GraticuleObj (K : Type) where
  dwhichlatitude : K
  dwhichlongitude : K
  dstartlatitude : K
  dstartlongitude : K
  dendlatitude : K
  dendlongitude : K
  dincrementlatitude : K
  dincrementlongitude : K
  minarcs : K
  maxarcs : K
  minincrement : K
  maxincrement : K
  minsubdivides : K
  maxsubdivides : K
  bvertical : Bool
  blabelaxes : Bool
  ilabelstate : Nat
  extent : RectObj K
  pboundinglines : Nat → (K × K) × K × K

/-- What a call leaves in `shape`: nothing, the adjusted line of a label, or an arc. -/
inductive GraticuleShape (K L : Type) where
  | freed
  | label (line : L)
  | arc (point : List (K × K))

section Model
variable {K : Type} [Field K] [LinearOrder K] [FloorRing K]

def truncate (x : K) : Int := if 0 ≤ x then ⌊x⌋ else ⌈x⌉

/-- The loop of `DefineAxis` from `Test_max` down to `Min`, with its counter. -/
def stepDown (min inc : K) : Nat → Nat → K → Option (Nat × K)
  | 0, _, _ => none
  | fuel + 1, i, test_min =>
    if test_min - inc > min then stepDown min inc fuel (i + 1) (test_min - inc) else some (i + 1, test_min - inc)

/-- The loop that adjusts `Test_inc` for too few tick marks. -/
def halveStep (iTickCountTarget : Int) : Nat → Nat → K → Option K
  | 0, _, _ => none
  | fuel + 1, i, inc => if i < iTickCountTarget then halveStep iTickCountTarget fuel (i * 2) (inc / 2) else some inc

def DefineAxis (fuel : Nat) (iTickCountTarget : Int) (min max inc : K) : Option (K × K × K) :=
  let range := max - min
  if range < 0 then some (min, max, 0)
  else if range = 0 then
    let min : K := ⌈max⌉ - 1
    some (min, min + 1, 1)
  else do
    let test_inc := ((10 : Nat) : K) ^ Int.clog 10 (range / (10 : Nat))
    let test_inc := if inc > 0 ∧ (test_inc < inc ∨ test_inc > inc) then inc else test_inc
    let test_max := truncate (max / test_inc) * test_inc
    let test_max := if test_max < max then test_max + test_inc else test_max
    let (i, test_min) ← stepDown min test_inc fuel 0 test_max
    let iTickCountTarget := if iTickCountTarget ≤ 0 then MAPGRATICULE_ARC_MINIMUM else iTickCountTarget
    let test_inc ← halveStep iTickCountTarget fuel i test_inc
    some (test_min, test_max, test_inc)

def chosenIncrement (pInfo : GraticuleObj K) : K :=
  if pInfo.minincrement > 0 then pInfo.minincrement else if pInfo.maxincrement > 0 then pInfo.maxincrement else 0

def setIncrements (pInfo : GraticuleObj K) (increment : K) : GraticuleObj K :=
  { pInfo with dincrementlongitude := increment, dincrementlatitude := increment }

/-- The end of `msGraticuleLayerWhichShapes`, which chooses the increments again. -/
def restoreIncrements (pInfo : GraticuleObj K) : GraticuleObj K :=
  if pInfo.minincrement > 0 ∧ pInfo.maxincrement > 0 ∧ pInfo.minincrement = pInfo.maxincrement then
    setIncrements pInfo pInfo.minincrement
  else if pInfo.minincrement > 0 then setIncrements pInfo pInfo.minincrement
  else if pInfo.maxincrement > 0 then setIncrements pInfo pInfo.maxincrement
  else pInfo

/-- `pboundinglines` are the edges of the map, in the projection of the layer. -/
def msGraticuleLayerWhichShapes (fuel : Nat) (pboundinglines : Nat → (K × K) × K × K) (rect : RectObj K)
    (pInfo : GraticuleObj K) : Option (GraticuleObj K) := do
  let increment := chosenIncrement pInfo
  let iAxisTickCount :=
    if pInfo.maxarcs > 0 then truncate pInfo.maxarcs else if pInfo.minarcs > 0 then truncate pInfo.minarcs else 0
  let (dstartlongitude, dendlongitude, dincrementlongitude) ←
    DefineAxis fuel iAxisTickCount rect.minx rect.maxx increment
  let (dstartlatitude, dendlatitude, dincrementlatitude) ← DefineAxis fuel iAxisTickCount rect.miny rect.maxy increment
  some (restoreIncrements {
    pInfo with
    dstartlatitude, dstartlongitude, dendlatitude, dendlongitude, dincrementlatitude, dincrementlongitude
    dwhichlatitude := dstartlatitude
    dwhichlongitude := dstartlongitude
    bvertical := true
    extent := rect
    pboundinglines })

/-- Where a line meets the bounding line from `p` to `q`; the other coordinates of the ends are `p'` and `q'`. -/
def crossing (dwhich p q p' q' start : K) : K :=
  let dDelta := (dwhich - p) / (q - p)
  let dDelta := if dDelta < 0 then dDelta * -1 else dDelta
  (q' - p') * dDelta + start

def labelLine (pInfo : GraticuleObj K) (dArcDelta : K) : MsGraticulePosition → (K × K) × K × K
  | .posBottom =>
    let (p, q) := pInfo.pboundinglines 1
    let dStartY := crossing pInfo.dwhichlongitude p.1 q.1 p.2 q.2 p.2
    ((pInfo.dwhichlongitude, dStartY), pInfo.dwhichlongitude, dStartY + dArcDelta)
  | .posTop =>
    let (p, q) := pInfo.pboundinglines 0
    let dStartY := crossing pInfo.dwhichlongitude p.1 q.1 p.2 q.2 q.2
    ((pInfo.dwhichlongitude, dStartY - dArcDelta), pInfo.dwhichlongitude, dStartY)
  | .posLeft =>
    let (p, q) := pInfo.pboundinglines 2
    let dStartX := crossing pInfo.dwhichlatitude p.2 q.2 p.1 q.1 p.1
    ((dStartX, pInfo.dwhichlatitude), dStartX + dArcDelta, pInfo.dwhichlatitude)
  | .posRight =>
    let (p, q) := pInfo.pboundinglines 3
    let dStartX := crossing pInfo.dwhichlatitude p.2 q.2 p.1 q.1 p.1
    ((dStartX - dArcDelta, pInfo.dwhichlatitude), dStartX, pInfo.dwhichlatitude)

def arcPositions (dArcDelta : K) : Nat → K → List K
  | 0, _ => []
  | n + 1, dArcPosition => dArcPosition :: arcPositions dArcDelta n (dArcPosition + dArcDelta)

/-- The end of `msGraticuleLayerNextShape`, which moves on to the next arc. `none` is `MS_DONE`. -/
def nextArc {L : Type} (pInfo : GraticuleObj K) (shape : GraticuleShape K L) : GraticuleObj K × Option (GraticuleShape K L) :=
  let pInfo :=
    if pInfo.bvertical ∧ pInfo.dwhichlongitude > pInfo.dendlongitude then
      { pInfo with dwhichlatitude := pInfo.dstartlatitude, bvertical := false }
    else pInfo
  if pInfo.dwhichlatitude > pInfo.dendlatitude then (pInfo, none) else (pInfo, some shape)

/-- `_FormatLabel` with a coordinate, and `_AdjustLabelPosition`, which may give the label up. -/
abbrev LabelAdjustment (K L : Type) := MsGraticulePosition → K → (K × K) × K × K → Option L

variable {L : Type} (adjust : LabelAdjustment K L)

def nextLabel (pInfo : GraticuleObj K) (dArcDelta value : K) (ePosition : MsGraticulePosition) :
    GraticuleObj K × Option (GraticuleShape K L) :=
  let shape :=
    if pInfo.blabelaxes then
      match adjust ePosition value (labelLine pInfo dArcDelta ePosition) with
      | none => .freed
      | some line => .label line
    else .freed
  ({ pInfo with ilabelstate := pInfo.ilabelstate + 1 }, some shape)

def setSubdivides (pInfo : GraticuleObj K) : GraticuleObj K :=
  let unset := pInfo.minsubdivides ≤ 0 ∨ pInfo.maxsubdivides ≤ 0
  { pInfo with
    minsubdivides := if unset then MAPGRATICULE_ARC_SUBDIVISION_DEFAULT else pInfo.minsubdivides
    maxsubdivides := if unset then MAPGRATICULE_ARC_SUBDIVISION_DEFAULT else pInfo.maxsubdivides }

def msGraticuleLayerNextShape (pInfo : GraticuleObj K) : GraticuleObj K × Option (GraticuleShape K L) :=
  let pInfo := setSubdivides pInfo
  let numpoints := (truncate pInfo.maxsubdivides).toNat
  if pInfo.bvertical then
    let dArcDelta := (pInfo.dendlatitude - pInfo.dstartlatitude) / numpoints
    match pInfo.ilabelstate with
    | 0 => nextLabel adjust pInfo dArcDelta pInfo.dwhichlongitude .posBottom
    | 1 => nextLabel adjust pInfo dArcDelta pInfo.dwhichlongitude .posTop
    | 2 =>
      let latitudes := pInfo.dstartlatitude :: arcPositions dArcDelta numpoints (pInfo.dstartlatitude + dArcDelta)
      nextArc { pInfo with ilabelstate := 0, dwhichlongitude := pInfo.dwhichlongitude + pInfo.dincrementlongitude }
        (.arc (latitudes.map fun y => (pInfo.dwhichlongitude, y)))
    | _ => nextArc { pInfo with ilabelstate := 0 } (.arc [])
  else
    let dArcDelta := (pInfo.dendlongitude - pInfo.dstartlongitude) / numpoints
    match pInfo.ilabelstate with
    | 0 => nextLabel adjust pInfo dArcDelta pInfo.dwhichlatitude .posLeft
    | 1 => nextLabel adjust pInfo dArcDelta pInfo.dwhichlatitude .posRight
    | 2 =>
      let longitudes := pInfo.dstartlongitude :: arcPositions dArcDelta numpoints (pInfo.dstartlongitude + dArcDelta)
      nextArc { pInfo with ilabelstate := 0, dwhichlatitude := pInfo.dwhichlatitude + pInfo.dincrementlatitude }
        (.arc (longitudes.map fun x => (x, pInfo.dwhichlatitude)))
    | _ => nextArc { pInfo with ilabelstate := 0 } (.arc [])

/-- The arcs of the shapes that come before `MS_DONE`. -/
def arcsUntilDone : Nat → GraticuleObj K → Option (List (List (K × K)))
  | 0, _ => none
  | fuel + 1, pInfo =>
    match msGraticuleLayerNextShape adjust pInfo with
    | (_, none) => some []
    | (pInfo, some (.arc point)) => (point :: ·) <$> arcsUntilDone fuel pInfo
    | (pInfo, some _) => arcsUntilDone fuel pInfo

/-- The numbers `first + k * increment` up to `last`. -/
def linePositions (first last increment : K) : List K :=
  (range (⌊(last - first) / increment⌋.toNat + 1)).map fun k : Nat => first + k * increment

def spaced (n : Nat) (first last : K) : List K := (range (n + 1)).map fun k : Nat => first + k * ((last - first) / n)

def subdivides (pInfo : GraticuleObj K) : Nat :=
  if pInfo.minsubdivides ≤ 0 ∨ pInfo.maxsubdivides ≤ 0 then MAPGRATICULE_ARC_SUBDIVISION_DEFAULT
  else ⌊pInfo.maxsubdivides⌋.toNat

def meridian (pInfo : GraticuleObj K) (x : K) : List (K × K) :=
  (spaced (subdivides pInfo) pInfo.dstartlatitude pInfo.dendlatitude).map fun y => (x, y)

def parallel (pInfo : GraticuleObj K) (y : K) : List (K × K) :=
  (spaced (subdivides pInfo) pInfo.dstartlongitude pInfo.dendlongitude).map fun x => (x, y)

def meridians (pInfo : GraticuleObj K) : List (List (K × K)) :=
  (linePositions pInfo.dstartlongitude pInfo.dendlongitude pInfo.dincrementlongitude).map (meridian pInfo)

def parallels (pInfo : GraticuleObj K) : List (List (K × K)) :=
  (linePositions pInfo.dstartlatitude pInfo.dendlatitude pInfo.dincrementlatitude).map (parallel pInfo)

end Model

section Positions
variable {K : Type} [Field K]

theorem lines_succ {β : Type} (line : K → β) (x increment : K) (n : Nat) :
    ((range (n + 1)).map fun k : Nat => line (x + k * increment)) =
      line x :: (range n).map fun k : Nat => line (x + increment + k * increment) := by
  rw [range_succ_eq_map, map_cons, map_map, Nat.cast_zero, zero_mul, add_zero]
  refine congrArg _ (map_congr_left fun k _ => congrArg line ?_)
  simp only [Nat.cast_succ]
  ring

theorem arcPositions_eq (dArcDelta : K) (n : Nat) (x : K) :
    arcPositions dArcDelta n x = (range n).map fun k : Nat => x + k * dArcDelta := by
  induction n generalizing x with
  | zero => rfl
  | succ n ih =>
    rw [arcPositions, ih]
    exact (lines_succ id x dArcDelta n).symm

theorem spaced_eq (n : Nat) (first last : K) :
    first :: arcPositions ((last - first) / n) n (first + (last - first) / n) = spaced n first last :=
  arcPositions_eq _ (n + 1) first

theorem subdivides_eq [LinearOrder K] [IsStrictOrderedRing K] [FloorRing K] (pInfo : GraticuleObj K) :
    (truncate (setSubdivides pInfo).maxsubdivides).toNat = subdivides pInfo := by
  unfold subdivides setSubdivides
  dsimp only
  split
  · rw [truncate, if_pos (Nat.cast_nonneg _), Int.floor_natCast, Int.toNat_natCast]
  next positive => rw [truncate, if_pos (le_of_not_ge fun low => positive (.inr low))]

end Positions

section Calls
variable {K L : Type} [Field K] [LinearOrder K] {pInfo : GraticuleObj K} {bvertical : Bool} {x y : K}

/-- The state before a call, once `minsubdivides` and `maxsubdivides` are set. -/
def arcState (pInfo : GraticuleObj K) (bvertical : Bool) (ilabelstate : Nat) (dwhichlongitude dwhichlatitude : K) :
    GraticuleObj K :=
  { setSubdivides pInfo with bvertical, dwhichlongitude, dwhichlatitude, ilabelstate }

theorem setSubdivides_arcState (ilabelstate : Nat) :
    setSubdivides (arcState pInfo bvertical ilabelstate x y) = arcState pInfo bvertical ilabelstate x y := by
  unfold arcState setSubdivides
  by_cases unset : pInfo.minsubdivides ≤ 0 ∨ pInfo.maxsubdivides ≤ 0
  · simp [unset]
  · simp [unset]

variable [FloorRing K] {adjust : LabelAdjustment K L} {fuel : Nat}

theorem label_call {ilabelstate : Nat} (state : ilabelstate = 0 ∨ ilabelstate = 1) :
    arcsUntilDone adjust (fuel + 1) (arcState pInfo bvertical ilabelstate x y) =
      arcsUntilDone adjust fuel (arcState pInfo bvertical (ilabelstate + 1) x y) := by
  have labels (delta value : K) (ePosition : MsGraticulePosition) :
      ∃ shape, nextLabel adjust (arcState pInfo bvertical ilabelstate x y) delta value ePosition =
        (arcState pInfo bvertical (ilabelstate + 1) x y, some shape) ∧ ∀ point, shape ≠ .arc point := by
    refine ⟨_, rfl, fun point => ?_⟩
    split
    · split <;> simp
    · simp
  have call : ∃ shape, msGraticuleLayerNextShape adjust (arcState pInfo bvertical ilabelstate x y) =
      (arcState pInfo bvertical (ilabelstate + 1) x y, some shape) ∧ ∀ point, shape ≠ .arc point := by
    unfold msGraticuleLayerNextShape
    rw [setSubdivides_arcState]
    rcases state with rfl | rfl <;> cases bvertical <;> exact labels ..
  obtain ⟨shape, call, noArc⟩ := call
  rw [arcsUntilDone, call]
  cases shape with
  | freed => rfl
  | label line => rfl
  | arc point => exact absurd rfl (noArc point)

theorem label_calls : arcsUntilDone adjust (fuel + 2) (arcState pInfo bvertical 0 x y) =
    arcsUntilDone adjust fuel (arcState pInfo bvertical 2 x y) :=
  (label_call (.inl rfl)).trans (label_call (.inr rfl))

variable [IsStrictOrderedRing K]

theorem meridian_call : msGraticuleLayerNextShape adjust (arcState pInfo true 2 x y) =
    nextArc (arcState pInfo true 0 (x + pInfo.dincrementlongitude) y) (.arc (meridian pInfo x)) := by
  unfold msGraticuleLayerNextShape meridian
  rw [setSubdivides_arcState, ← subdivides_eq, ← spaced_eq]
  rfl

theorem parallel_call : msGraticuleLayerNextShape adjust (arcState pInfo false 2 x y) =
    nextArc (arcState pInfo false 0 x (y + pInfo.dincrementlatitude)) (.arc (parallel pInfo y)) := by
  unfold msGraticuleLayerNextShape parallel
  rw [setSubdivides_arcState, ← subdivides_eq, ← spaced_eq]
  rfl

theorem meridian_step (inside : y ≤ pInfo.dendlatitude) (range_ : pInfo.dstartlatitude ≤ pInfo.dendlatitude) :
    arcsUntilDone adjust (fuel + 3) (arcState pInfo true 0 x y) =
      (arcsUntilDone adjust fuel (if x + pInfo.dincrementlongitude > pInfo.dendlongitude then
        arcState pInfo false 0 (x + pInfo.dincrementlongitude) pInfo.dstartlatitude
      else arcState pInfo true 0 (x + pInfo.dincrementlongitude) y)).map (meridian pInfo x :: ·) := by
  have next (x : K) (shape : GraticuleShape K L) : nextArc (arcState pInfo true 0 x y) shape =
      (if x > pInfo.dendlongitude then arcState pInfo false 0 x pInfo.dstartlatitude else arcState pInfo true 0 x y,
        some shape) := by
    rw [nextArc]
    by_cases past : x > pInfo.dendlongitude
    · simp only [arcState, setSubdivides, past, and_self, if_true, not_lt.mpr range_, if_false]
    · simp only [arcState, setSubdivides, past, and_false, if_false, not_lt.mpr inside]
  rw [label_calls, arcsUntilDone, meridian_call, next]
  rfl

theorem parallel_step : arcsUntilDone adjust (fuel + 3) (arcState pInfo false 0 x y) =
    if y + pInfo.dincrementlatitude > pInfo.dendlatitude then some []
    else (arcsUntilDone adjust fuel (arcState pInfo false 0 x (y + pInfo.dincrementlatitude))).map
      (parallel pInfo y :: ·) := by
  have next (y : K) (shape : GraticuleShape K L) : nextArc (arcState pInfo false 0 x y) shape =
      (arcState pInfo false 0 x y, if y > pInfo.dendlatitude then none else some shape) := by
    rw [nextArc]
    simp only [arcState, setSubdivides, Bool.false_eq_true, false_and, if_false]
    split <;> rfl
  rw [label_calls, arcsUntilDone, parallel_call, next]
  by_cases past : y + pInfo.dincrementlatitude > pInfo.dendlatitude
  · rw [if_pos past, if_pos past]
  · rw [if_neg past, if_neg past]
    rfl

omit [FloorRing K] in
theorem further_lines {last increment : K} {n : Nat} (ends : last = x + (n + 1 : Nat) * increment) (positive : 0 < increment) :
    last = x + increment + n * increment ∧ ¬x + increment > last := by
  have further : last = x + increment + n * increment := by
    rw [ends]
    push_cast
    ring
  refine ⟨further, ?_⟩
  rw [further, not_lt]
  exact le_add_of_nonneg_right (mul_nonneg n.cast_nonneg positive.le)

theorem meridians_run {n : Nat} (ends : pInfo.dendlongitude = x + n * pInfo.dincrementlongitude)
    (positive : 0 < pInfo.dincrementlongitude) (inside : y ≤ pInfo.dendlatitude)
    (range_ : pInfo.dstartlatitude ≤ pInfo.dendlatitude) :
    arcsUntilDone adjust (fuel + 3 * (n + 1)) (arcState pInfo true 0 x y) =
      (arcsUntilDone adjust fuel
        (arcState pInfo false 0 (pInfo.dendlongitude + pInfo.dincrementlongitude) pInfo.dstartlatitude)).map
          fun arcs => ((range (n + 1)).map fun k : Nat => meridian pInfo (x + k * pInfo.dincrementlongitude)) ++ arcs := by
  induction n generalizing x with
  | zero =>
    rw [Nat.cast_zero, zero_mul, add_zero] at ends
    rw [Nat.zero_add, Nat.mul_one, meridian_step inside range_, if_pos (by rw [ends]; exact lt_add_of_pos_right x positive), ends]
    simp
  | succ n ih =>
    obtain ⟨further, below⟩ := further_lines ends positive
    rw [show fuel + 3 * (n + 1 + 1) = fuel + 3 * (n + 1) + 3 by ring, meridian_step inside range_, if_neg below, ih further,
      lines_succ _ x, Option.map_map]
    rfl

theorem parallels_run {n : Nat} (ends : pInfo.dendlatitude = y + n * pInfo.dincrementlatitude)
    (positive : 0 < pInfo.dincrementlatitude) :
    arcsUntilDone adjust (fuel + 3 * (n + 1)) (arcState pInfo false 0 x y) =
      some ((range n).map fun k : Nat => parallel pInfo (y + k * pInfo.dincrementlatitude)) := by
  induction n generalizing y with
  | zero =>
    rw [Nat.cast_zero, zero_mul, add_zero] at ends
    rw [Nat.zero_add, Nat.mul_one, parallel_step, if_pos (by rw [ends]; exact lt_add_of_pos_right y positive)]
    rfl
  | succ n ih =>
    obtain ⟨further, below⟩ := further_lines ends positive
    rw [show fuel + 3 * (n + 1 + 1) = fuel + 3 * (n + 1) + 3 by ring, parallel_step, if_neg below, ih further,
      lines_succ _ y]
    rfl

end Calls

section Axes
variable {K : Type} [Field K]

theorem halveStep_isSome {iTickCountTarget : Int} {fuel i : Nat} (counted : 1 ≤ i) (enough : iTickCountTarget ≤ i + fuel)
    (inc : K) : ∃ halved, halveStep iTickCountTarget (fuel + 1) i inc = some halved := by
  induction fuel generalizing i inc with
  | zero =>
    rw [halveStep, if_neg (by omega)]
    exact ⟨_, rfl⟩
  | succ fuel ih =>
    rw [halveStep]
    split
    · exact ih (by omega) (by push_cast at enough ⊢; omega) _
    · exact ⟨_, rfl⟩

variable [LinearOrder K] {pInfo : GraticuleObj K}

theorem chosenIncrement_pos (interval : 0 < pInfo.minincrement ∨ 0 < pInfo.maxincrement) : 0 < chosenIncrement pInfo := by
  unfold chosenIncrement
  split
  next least => exact least
  next none_ =>
    have most := interval.resolve_left none_
    rwa [if_pos most]

theorem restoreIncrements_eq (positive : 0 < chosenIncrement pInfo) :
    restoreIncrements pInfo = setIncrements pInfo (chosenIncrement pInfo) := by
  unfold chosenIncrement at positive ⊢
  unfold restoreIncrements
  by_cases least : pInfo.minincrement > 0
  · simp only [if_pos least, ite_self]
  · rw [if_neg least] at positive
    have most : pInfo.maxincrement > 0 := by
      by_contra none_
      rw [if_neg none_] at positive
      exact positive.false
    rw [if_neg fun both => least both.1, if_neg least, if_neg least, if_pos most, if_pos most]

variable [IsStrictOrderedRing K] {min max inc : K}

theorem stepDown_spec (positive : 0 < inc) {m : Nat} {test_min : K} (near : test_min - min ≤ m * inc) :
    ∃ n, 1 ≤ n ∧ ∀ fuel > m, ∀ i, stepDown min inc fuel i test_min = some (i + n, test_min - n * inc) := by
  induction m generalizing test_min with
  | zero =>
    refine ⟨1, le_rfl, fun fuel enough i => ?_⟩
    obtain ⟨fuel, rfl⟩ := Nat.exists_eq_succ_of_ne_zero enough.ne'
    rw [Nat.cast_zero, zero_mul, sub_nonpos] at near
    rw [stepDown, if_neg (not_lt.mpr ((sub_le_self _ positive.le).trans near)), Nat.cast_one, one_mul]
  | succ m ih =>
    by_cases more : test_min - inc > min
    · have nearer : test_min - inc - min ≤ m * inc := by
        push_cast at near
        linarith
      obtain ⟨n, -, run⟩ := ih nearer
      refine ⟨n + 1, Nat.le_add_left 1 n, fun fuel enough i => ?_⟩
      obtain ⟨fuel, rfl⟩ := Nat.exists_eq_succ_of_ne_zero (Nat.ne_zero_of_lt enough)
      rw [stepDown, if_pos more, run fuel (Nat.lt_of_succ_lt_succ enough)]
      push_cast
      exact congrArg some (Prod.ext (by ring) (by ring))
    · refine ⟨1, le_rfl, fun fuel enough i => ?_⟩
      obtain ⟨fuel, rfl⟩ := Nat.exists_eq_succ_of_ne_zero (Nat.ne_zero_of_lt enough)
      rw [stepDown, if_neg more, Nat.cast_one, one_mul]

variable [FloorRing K]

theorem DefineAxis_spec (iTickCountTarget : Int) (wide : min < max) (positive : 0 < inc) :
    ∃ (enough n : Nat) (last : K), ∀ fuel ≥ enough, ∃ halved,
      DefineAxis fuel iTickCountTarget min max inc = some (last - n * inc, last, halved) := by
  have given : (if inc > 0 ∧ (((10 : Nat) : K) ^ Int.clog 10 ((max - min) / (10 : Nat)) < inc ∨
      ((10 : Nat) : K) ^ Int.clog 10 ((max - min) / (10 : Nat)) > inc) then inc
      else ((10 : Nat) : K) ^ Int.clog 10 ((max - min) / (10 : Nat))) = inc := by
    split
    next => rfl
    next same => exact not_not.mp fun differs => same ⟨positive, lt_or_gt_of_ne differs⟩
  unfold DefineAxis
  simp only [given, if_neg (not_lt.mpr (sub_pos.mpr wide).le), if_neg (sub_pos.mpr wide).ne']
  generalize (if truncate (max / inc) * inc < max then truncate (max / inc) * inc + inc
    else truncate (max / inc) * inc : K) = last
  generalize (if iTickCountTarget ≤ 0 then MAPGRATICULE_ARC_MINIMUM else iTickCountTarget) = target
  obtain ⟨m, near⟩ := exists_nat_ge ((last - min) / inc)
  obtain ⟨n, counted, run⟩ := stepDown_spec positive ((div_le_iff₀ positive).mp near)
  refine ⟨m + 1 + target.toNat, n, last, fun fuel enough => ?_⟩
  obtain ⟨fuel, rfl⟩ := Nat.exists_eq_succ_of_ne_zero (show fuel ≠ 0 by omega)
  obtain ⟨halved, isHalved⟩ := halveStep_isSome counted (show target ≤ n + fuel by omega) inc
  rw [run _ (by omega), Option.bind_eq_bind, Option.bind_some, Nat.zero_add, isHalved]
  exact ⟨halved, rfl⟩

/-- After `msGraticuleLayerWhichShapes` the first meridian is next, and the axes end after `n` and `m` increments. -/
structure GraticuleReady (pInfo : GraticuleObj K) (n m : Nat) : Prop where
  state : pInfo.bvertical = true ∧ pInfo.ilabelstate = 0
  position : pInfo.dwhichlongitude = pInfo.dstartlongitude ∧ pInfo.dwhichlatitude = pInfo.dstartlatitude
  increments : 0 < pInfo.dincrementlongitude ∧ 0 < pInfo.dincrementlatitude
  longitudes : pInfo.dendlongitude = pInfo.dstartlongitude + n * pInfo.dincrementlongitude
  latitudes : pInfo.dendlatitude = pInfo.dstartlatitude + m * pInfo.dincrementlatitude

variable {rect : RectObj K}

theorem msGraticuleLayerWhichShapes_spec (pboundinglines : Nat → (K × K) × K × K) (wide : rect.minx < rect.maxx)
    (high : rect.miny < rect.maxy) (interval : 0 < pInfo.minincrement ∨ 0 < pInfo.maxincrement)
    (fresh : pInfo.ilabelstate = 0) : ∃ enough n m, ∀ fuel ≥ enough, ∃ after,
      msGraticuleLayerWhichShapes fuel pboundinglines rect pInfo = some after ∧ GraticuleReady after n m := by
  have positive := chosenIncrement_pos interval
  unfold msGraticuleLayerWhichShapes
  generalize (if pInfo.maxarcs > 0 then truncate pInfo.maxarcs
    else if pInfo.minarcs > 0 then truncate pInfo.minarcs else 0) = target
  obtain ⟨first, n, lastLongitude, longitudes⟩ := DefineAxis_spec target wide positive
  obtain ⟨second, m, lastLatitude, latitudes⟩ := DefineAxis_spec target high positive
  refine ⟨first + second, n, m, fun fuel enough => ?_⟩
  obtain ⟨halved, isLongitude⟩ := longitudes fuel (by omega)
  obtain ⟨halved', isLatitude⟩ := latitudes fuel (by omega)
  dsimp only
  rw [isLongitude, Option.bind_eq_bind, Option.bind_some]
  dsimp only
  rw [isLatitude, Option.bind_some]
  refine ⟨_, rfl, ?_⟩
  dsimp only
  rw [restoreIncrements_eq]
  · exact ⟨⟨rfl, fresh⟩, ⟨rfl, rfl⟩, ⟨positive, positive⟩, (sub_add_cancel ..).symm, (sub_add_cancel ..).symm⟩
  · exact positive

theorem linePositions_eq {first last increment : K} {n : Nat} (positive : 0 < increment)
    (ends : last = first + n * increment) :
    linePositions first last increment = (range (n + 1)).map fun k : Nat => first + k * increment := by
  rw [linePositions, ends, add_sub_cancel_left, mul_div_cancel_right₀ _ positive.ne', Int.floor_natCast, Int.toNat_natCast]

variable {L : Type} {adjust : LabelAdjustment K L}

theorem arcsUntilDone_ready {n m fuel : Nat} (ready : GraticuleReady pInfo n m) (enough : fuel ≥ 3 * (n + 1) + 3 * (m + 1)) :
    arcsUntilDone adjust fuel pInfo = some (meridians pInfo ++ (parallels pInfo).dropLast) := by
  obtain ⟨⟨vertical, state⟩, ⟨longitude, latitude⟩, ⟨positive, positive'⟩, longitudes, latitudes⟩ := ready
  have first : setSubdivides pInfo = arcState pInfo true 0 pInfo.dstartlongitude pInfo.dstartlatitude := by
    rw [← vertical, ← state, ← longitude, ← latitude]
    rfl
  have begins : arcsUntilDone adjust fuel pInfo =
      arcsUntilDone adjust fuel (arcState pInfo true 0 pInfo.dstartlongitude pInfo.dstartlatitude) := by
    cases fuel with
    | zero => rfl
    | succ fuel =>
      rw [arcsUntilDone, arcsUntilDone, msGraticuleLayerNextShape, msGraticuleLayerNextShape, setSubdivides_arcState, first]
  have inside : pInfo.dstartlatitude ≤ pInfo.dendlatitude := by
    rw [latitudes]
    exact le_add_of_nonneg_right (mul_nonneg m.cast_nonneg positive'.le)
  obtain ⟨rest, rfl⟩ := Nat.exists_eq_add_of_le enough
  rw [begins, show 3 * (n + 1) + 3 * (m + 1) + rest = rest + 3 * (m + 1) + 3 * (n + 1) by ring,
    meridians_run longitudes positive inside inside, parallels_run latitudes positive', meridians, parallels,
    linePositions_eq positive longitudes, linePositions_eq positive' latitudes, map_map, map_map, range_succ (n := m),
    map_append, map_singleton, dropLast_concat]
  rfl

/-- The last parallel of a graticule is made but not returned: the position is past the end by then. -/
theorem msGraticuleLayerNextShape_loses_last (adjust : LabelAdjustment K L) (pboundinglines : Nat → (K × K) × K × K)
    (wide : rect.minx < rect.maxx) (high : rect.miny < rect.maxy)
    (interval : 0 < pInfo.minincrement ∨ 0 < pInfo.maxincrement) (fresh : pInfo.ilabelstate = 0) :
    ∃ enough, ∀ fuel ≥ enough, ∃ after, msGraticuleLayerWhichShapes fuel pboundinglines rect pInfo = some after ∧
      arcsUntilDone adjust fuel after = some (meridians after ++ (parallels after).dropLast) ∧
      arcsUntilDone adjust fuel after ≠ some (meridians after ++ parallels after) := by
  obtain ⟨enough, n, m, run⟩ := msGraticuleLayerWhichShapes_spec pboundinglines wide high interval fresh
  refine ⟨enough + (3 * (n + 1) + 3 * (m + 1)), fun fuel bound => ?_⟩
  obtain ⟨after, isAfter, ready⟩ := run fuel (by omega)
  have arcs : arcsUntilDone adjust fuel after = some (meridians after ++ (parallels after).dropLast) :=
    arcsUntilDone_ready ready (by omega)
  refine ⟨after, isAfter, arcs, fun all => ?_⟩
  rw [arcs, Option.some_inj, append_cancel_left_eq] at all
  have short := congrArg length all
  rw [length_dropLast] at short
  have some_ : 0 < (parallels after).length := by simp [parallels, linePositions]
  omega

end Axes

def unitGraticule : GraticuleObj ℚ :=
  ⟨0, 0, 0, 0, 0, 0, 0, 0, 0, 0, 1, 1, 1, 1, false, false, 0, ⟨0, 0, 0, 0⟩, fun _ => ((0, 0), 0, 0)⟩

theorem msGraticuleLayerNextShape_loses_last_unit : ∃ enough, ∀ fuel ≥ enough, ∃ after,
    msGraticuleLayerWhichShapes fuel (fun _ => ((0, 0), 0, 0)) ⟨0, 0, 1, 1⟩ unitGraticule = some after ∧
      arcsUntilDone (L := Unit) (fun _ _ _ => none) fuel after =
        some (meridians after ++ (parallels after).dropLast) ∧
      arcsUntilDone (L := Unit) (fun _ _ _ => none) fuel after ≠ some (meridians after ++ parallels after) :=
  msGraticuleLayerNextShape_loses_last _ _ (by decide +kernel) (by decide +kernel) (.inl (by decide +kernel)) rfl

/-- In a unit square with the interval 1 the upper edge is a line, but is not drawn. -/
theorem unitGraticule_lines :
    (msGraticuleLayerWhichShapes 9 (fun _ => ((0, 0), 0, 0)) ⟨0, 0, 1, 1⟩ unitGraticule).map (fun after =>
        (arcsUntilDone (L := Unit) (fun _ _ _ => none) 12 after, meridians after ++ parallels after)) =
      some (some [[(0, 0), (0, 1)], [(1, 0), (1, 1)], [(0, 0), (1, 0)]],
        [[(0, 0), (0, 1)], [(1, 0), (1, 1)], [(0, 0), (1, 0)], [(0, 1), (1, 1)]]) := by
  decide +kernel

end MapServer
