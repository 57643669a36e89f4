import MapServer.Lib.ArcLength
import MapServer.Lib.Slots
import MapServer.Primitive.PixelTransform

/-!
`msDensify`, with exact numbers and an exact square root. `none` stands for a read or a store outside an array, or for an
`int` that does not hold its value.
-/

namespace MapServer
open Lib.Loop Lib.Segments Lib.Distances List Option

section Model
variable {K : Type} [Field K] [LinearOrder K] [FloorRing K] (sqrt : K → K) (malloc : Nat → PointObj K) (tolerance : K)

def msSquareDistancePointToPoint (a b : PointObj K) : K :=
  let dx := a.x - b.x
  let dy := a.y - b.y
  dx * dx + dy * dy

def msDistancePointToPoint (a b : PointObj K) : K := sqrt (msSquareDistancePointToPoint a b)

/-- The stores of a new point, whose `z` and `m` are what the memory holds. -/
def storeAlong (p q : PointObj K) (c : K) (point : Lib.Slots (PointObj K)) (l : Nat) : Option (Lib.Slots (PointObj K)) := do
  let memory ← point.load l
  point.store l { memory with x := p.x + c * (q.x - p.x), y := p.y + c * (q.y - p.y) }

def densifyPoint (p q : PointObj K) (length distance : K) (k : Nat) :
    Lib.Slots (PointObj K) × Nat → Option (Lib.Slots (PointObj K) × Nat)
  | (point, l) => do
    let c := (k + 1) * length / distance
    let l := l + 1
    let point ← storeAlong p q c point l
    some (point, l)

/-- The body of the loop over the segments. The array has `line.numpoints` points. -/
def densifySegment (p q : PointObj K) : Lib.Slots (PointObj K) × Nat → Option (Lib.Slots (PointObj K) × Nat)
  | (point, l) => do
    let point ← point.store l p
    let distance := msDistancePointToPoint sqrt p q
    if distance > tolerance then
      let n ← checkedInt ⌊distance / tolerance⌋
      let segments ← checkedInt (n + 1)
      let length := distance / segments
      let numpoints ← checkedInt (point.size + n)
      forUp (densifyPoint p q length distance) 0 n.toNat ({ point with size := numpoints.toNat }, l)
    else some (point, l)

def densifyTurn (part : LineObj K) (j : Nat) (state : Lib.Slots (PointObj K) × Nat) : Option (Lib.Slots (PointObj K) × Nat) := do
  let (point, l) ← densifySegment sqrt tolerance (← part[j]?) (← part[j + 1]?) state
  some (point, l + 1)

def densifyPart (part : LineObj K) : Option (LineObj K) := do
  let numpoints ← checkedInt part.length
  let (point, l) ← forUp (densifyTurn sqrt tolerance part) 0 (part.length - 1) (⟨numpoints.toNat, malloc⟩, 0)
  let point ← point.store l (← part[part.length - 1]?)
  some (point.front point.size)

/-- The inner `none` is the null pointer. -/
def msDensify (shape : ShapeObj K) : Option (Option (ShapeObj K)) :=
  if shape.type ≠ .MS_SHAPE_POLYGON ∧ shape.type ≠ .MS_SHAPE_LINE then some none
  else if tolerance ≤ 0 then some none
  else do
    let line ← shape.line.mapM (densifyPart sqrt malloc tolerance)
    some (some { line, bounds := ⟨-1, -1, -1, -1⟩, type := shape.type, index := -1 })

end Model

section Meaning
variable {K : Type} [Field K] [LinearOrder K] [FloorRing K] (sqrt : K → K) (tolerance : K)

def newPoints (p q : PointObj K) : Nat :=
  if msDistancePointToPoint sqrt p q > tolerance then ⌊msDistancePointToPoint sqrt p q / tolerance⌋.toNat else 0

def addedCount : LineObj K → Nat
  | p :: q :: rest => newPoints sqrt tolerance p q + addedCount (q :: rest)
  | _ => 0

/-- Points on the segment, in order along it, with no step longer than the tolerance. -/
structure AddedTo (p q : PointObj K) (added : LineObj K) : Prop where
  on : ∃ cs : List K, cs.Pairwise (· < ·) ∧ (∀ c ∈ cs, 0 < c ∧ c < 1) ∧ added.map PointObj.xy = cs.map (along p.xy q.xy)
  near : (p :: added ++ [q]).IsChain fun a b => msDistancePointToPoint sqrt a b ≤ tolerance

def DensifiedPart : LineObj K → LineObj K → Prop
  | p :: q :: rest, after => ∃ added tail, after = p :: added ++ tail ∧ AddedTo sqrt tolerance p q added ∧ DensifiedPart (q :: rest) tail
  | part, after => after = part

structure Densified (shape after : ShapeObj K) : Prop where
  type : after.type = shape.type
  parts : List.Forall₂ (DensifiedPart sqrt tolerance) shape.line after.line

end Meaning

section Segment
variable {K : Type} [Field K] [LinearOrder K] [FloorRing K] {sqrt : K → K} {tolerance : K}

omit [LinearOrder K] [FloorRing K] in
/-- What is stored up to `l`, in an array of some size. -/
structure Filled (point : Lib.Slots (PointObj K)) (size l : Nat) (done : LineObj K) : Prop where
  size : point.size = size
  front : point.front l = done

omit [Field K] [LinearOrder K] [FloorRing K] in
theorem Filled.store {point : Lib.Slots (PointObj K)} {size l : Nat} {done : LineObj K} (filled : Filled point size l done)
    (inside : l < size) (p : PointObj K) : ∃ after, point.store l p = some after ∧ Filled after size (l + 1) (done ++ [p]) := by
  refine ⟨_, Lib.Slots.store_eq (filled.size ▸ inside) p, filled.size, ?_⟩
  rw [Lib.Slots.front_succ, Lib.Slots.front_update_later point (Nat.le_refl l), filled.front]
  simp

omit [LinearOrder K] [FloorRing K] in
theorem Filled.storeAlong {point : Lib.Slots (PointObj K)} {size l : Nat} {done : LineObj K} (filled : Filled point size l done)
    (inside : l < size) (p q : PointObj K) (c : K) :
    ∃ after new, MapServer.storeAlong p q c point l = some after ∧ PointObj.xy new = along p.xy q.xy c ∧
      Filled after size (l + 1) (done ++ [new]) := by
  obtain ⟨after, stored, next⟩ := filled.store inside
    { point.get l with x := p.x + c * (q.x - p.x), y := p.y + c * (q.y - p.y) }
  refine ⟨after, _, ?_, rfl, next⟩
  rw [MapServer.storeAlong, Lib.Slots.load_eq (filled.size ▸ inside), bind_eq_bind, bind_some, stored]

omit [LinearOrder K] [FloorRing K] in
theorem densifyPoints_spec (p q : PointObj K) (length distance : K) {size : Nat} (count k : Nat) {point : Lib.Slots (PointObj K)}
    {l : Nat} {done : LineObj K} (filled : Filled point size (l + 1) done) (room : l + 1 + count ≤ size) :
    ∃ after added, forUp (densifyPoint p q length distance) k count (point, l) = some (after, l + count) ∧
      Filled after size (l + count + 1) (done ++ added) ∧
      added.map PointObj.xy = (range' k count).map fun (i : Nat) => along p.xy q.xy ((i + 1) * length / distance) := by
  induction count generalizing k point l done with
  | zero => exact ⟨point, [], rfl, by simpa using filled, rfl⟩
  | succ count ih =>
    obtain ⟨next, new, stored, place, fills⟩ := filled.storeAlong (by omega) p q ((k + 1) * length / distance)
    obtain ⟨after, added, run, final, places⟩ := ih (k + 1) fills (by omega)
    have step : densifyPoint p q length distance k (point, l) = some (next, l + 1) := by
      rw [densifyPoint, stored]
      rfl
    refine ⟨after, new :: added, ?_, ?_, ?_⟩
    · rw [forUp, step, bind_some, run, Nat.add_right_comm, Nat.add_assoc]
    · rw [show l + (count + 1) + 1 = l + 1 + count + 1 by omega]
      simpa using final
    · rw [map_cons, place, places, range'_succ, map_cons]

variable [IsStrictOrderedRing K]

theorem addedTo_of_places (exact : ExactSqrt sqrt) (positive : 0 < tolerance) {p q : PointObj K} {added : LineObj K} {n : Nat}
    (count : n = ⌊msDistancePointToPoint sqrt p q / tolerance⌋.toNat)
    (places : added.map PointObj.xy = (List.range n).map fun (i : Nat) => along p.xy q.xy ((i + 1) / (n + 1))) :
    AddedTo sqrt tolerance p q added := by
  have whole : (0 : K) < n + 1 := by positivity
  have short : msDistancePointToPoint sqrt p q / (n + 1) ≤ tolerance := by
    have below := Int.lt_floor_add_one (msDistancePointToPoint sqrt p q / tolerance)
    have cast : (⌊msDistancePointToPoint sqrt p q / tolerance⌋ : K) = n := by
      have nonneg : 0 ≤ ⌊msDistancePointToPoint sqrt p q / tolerance⌋ :=
        Int.floor_nonneg.mpr (div_nonneg (distance_nonneg exact p.xy q.xy) positive.le)
      rw [count, ← Int.cast_natCast, Int.toNat_of_nonneg nonneg]
    rw [cast, div_lt_iff₀ positive] at below
    rw [div_le_iff₀ whole, mul_comm]
    exact below.le
  refine ⟨⟨(List.range n).map fun (i : Nat) => ((i : K) + 1) / (n + 1), ?_, ?_, ?_⟩, ?_⟩
  · apply List.pairwise_map.mpr (List.pairwise_lt_range.imp _)
    intro i j less
    have cast : (i : K) < j := by exact_mod_cast less
    exact div_lt_div_of_pos_right (by linarith) whole
  · intro c member
    obtain ⟨i, inside, rfl⟩ := List.mem_map.mp member
    have cast : (i : K) < n := by exact_mod_cast List.mem_range.mp inside
    refine ⟨div_pos (by positivity) whole, ?_⟩
    rw [div_lt_one whole]
    linarith
  · rw [places, List.map_map]
    rfl
  · have ends : (p :: added ++ [q]).map PointObj.xy =
        (List.range (n + 2)).map fun (i : Nat) => along p.xy q.xy (i / (n + 1)) := by
      rw [List.range_succ, List.range_succ_eq_map]
      simp [places, div_self whole.ne', Function.comp_def]
    have steps : List.IsChain (fun a b => distance sqrt a b ≤ tolerance) ((p :: added ++ [q]).map PointObj.xy) := by
      rw [ends, List.isChain_map, List.isChain_range]
      intro i _
      have step : |(i : K) / (n + 1) - ((i.succ : Nat) : K) / (n + 1)| = 1 / (n + 1) := by
        rw [← sub_div, Nat.cast_succ, sub_add_cancel_left, abs_div, abs_neg, abs_one, abs_of_pos whole]
      rw [distance_along exact, step, one_div_mul_eq_div]
      exact short
    exact List.isChain_map _ |>.mp steps

theorem densifySegment_spec (exact : ExactSqrt sqrt) (positive : 0 < tolerance) (p q : PointObj K) {point : Lib.Slots (PointObj K)}
    {size l : Nat} {done : LineObj K} (filled : Filled point size l done) (inside : l < size)
    (fits : (size + newPoints sqrt tolerance p q : Nat) ≤ INT_MAX) :
    ∃ after added, densifySegment sqrt tolerance p q (point, l) = some (after, l + newPoints sqrt tolerance p q) ∧
      Filled after (size + newPoints sqrt tolerance p q) (l + newPoints sqrt tolerance p q + 1) (done ++ p :: added) ∧
      AddedTo sqrt tolerance p q added := by
  obtain ⟨next, stored, fills⟩ := filled.store inside p
  by_cases far : msDistancePointToPoint sqrt p q > tolerance
  · have some_ : 0 < msDistancePointToPoint sqrt p q := positive.trans far
    obtain ⟨n, isFloor⟩ : ∃ n : Nat, ⌊msDistancePointToPoint sqrt p q / tolerance⌋ = n :=
      Int.eq_ofNat_of_zero_le (Int.floor_nonneg.mpr (div_nonneg some_.le positive.le))
    have count : newPoints sqrt tolerance p q = n := by rw [newPoints, if_pos far, isFloor, Int.toNat_natCast]
    rw [count] at fits ⊢
    have wide : Filled { next with size := size + n } (size + n) (l + 1) (done ++ [p]) := ⟨rfl, fills.front⟩
    obtain ⟨after, added, run, final, places⟩ := densifyPoints_spec p q (msDistancePointToPoint sqrt p q / ((n + 1 : Int) : K))
      (msDistancePointToPoint sqrt p q) n 0 wide (by omega)
    refine ⟨after, added, ?_, by simpa using final, addedTo_of_places exact positive (n := n) (by rw [isFloor]; rfl) ?_⟩
    · have first : checkedInt (n : Int) = some (n : Int) := checkedInt_of_range (by omega) (by omega)
      have second : checkedInt (n + 1 : Int) = some (n + 1 : Int) := checkedInt_of_range (by omega) (by omega)
      have third : checkedInt (size + n : Int) = some (size + n : Int) := checkedInt_of_range (by omega) (by push_cast at fits; exact fits)
      rw [densifySegment, stored, Option.bind_eq_bind, Option.bind_some]
      rw [if_pos far, isFloor, first, Option.bind_eq_bind, Option.bind_some, second, Option.bind_some, fills.size, third,
        Option.bind_some]
      exact run
    · rw [places, ← List.range_eq_range']
      apply List.map_congr_left
      intro i _
      rw [mul_div_assoc, div_div, mul_comm ((n + 1 : Int) : K), ← div_div, div_self some_.ne', mul_one_div]
      push_cast
      rfl
  · have count : newPoints sqrt tolerance p q = 0 := by rw [newPoints, if_neg far]
    rw [count]
    refine ⟨next, [], ?_, by simpa using fills, ⟨[], by simp, by simp, rfl⟩, by simpa using not_lt.mp far⟩
    simp only [densifySegment, stored, Option.bind_eq_bind, Option.bind_some, if_neg far, Nat.add_zero]

omit [FloorRing K] [LinearOrder K] [IsStrictOrderedRing K] in
theorem densifyPoints_size {p q : PointObj K} {length distance : K} (count k : Nat) {point after : Lib.Slots (PointObj K)} {l l' : Nat}
    (run : forUp (densifyPoint p q length distance) k count (point, l) = some (after, l')) : after.size = point.size := by
  induction count generalizing k point l with
  | zero =>
    cases run
    rfl
  | succ count ih =>
    obtain ⟨⟨next, _⟩, step, run⟩ := bind_eq_some_iff.mp run
    obtain ⟨stored, store, same⟩ := bind_eq_some_iff.mp step
    obtain ⟨memory, _, store⟩ := bind_eq_some_iff.mp store
    cases same
    rw [ih _ run, (Lib.Slots.store_some store).2]

theorem densifySegment_size (positive : 0 < tolerance) {p q : PointObj K} {point after : Lib.Slots (PointObj K)} {l l' : Nat}
    (run : densifySegment sqrt tolerance p q (point, l) = some (after, l')) (small : point.size ≤ INT_MAX) :
    after.size = point.size + newPoints sqrt tolerance p q ∧ after.size ≤ INT_MAX := by
  obtain ⟨stored, store, run⟩ := bind_eq_some_iff.mp run
  have size : stored.size = point.size := by rw [(Lib.Slots.store_some store).2]
  dsimp only at run
  rw [newPoints]
  split at run
  · rename_i far
    obtain ⟨n, floor, run⟩ := bind_eq_some_iff.mp run
    obtain ⟨segments, _, run⟩ := bind_eq_some_iff.mp run
    obtain ⟨numpoints, total, run⟩ := bind_eq_some_iff.mp run
    have whole : 0 ≤ ⌊msDistancePointToPoint sqrt p q / tolerance⌋ :=
      Int.floor_nonneg.mpr (div_nonneg (positive.trans far).le positive.le)
    obtain ⟨rfl, -⟩ := checkedInt_some floor
    obtain ⟨rfl, fits⟩ := checkedInt_some total
    rw [densifyPoints_size _ _ run, if_pos far]
    dsimp only
    omega
  · rename_i near
    cases run
    rw [if_neg near, size]
    exact ⟨rfl, small⟩

end Segment

section Parts
variable {K : Type} [Field K] [LinearOrder K] [FloorRing K] [IsStrictOrderedRing K] {sqrt : K → K} {malloc : Nat → PointObj K}
variable {tolerance : K}

omit [IsStrictOrderedRing K] in
theorem densifyTurn_eq {part before rest : LineObj K} {p q : PointObj K} (split : part = before ++ p :: q :: rest)
    (state : Lib.Slots (PointObj K) × Nat) : densifyTurn sqrt tolerance part before.length state =
      (densifySegment sqrt tolerance p q state).bind fun next => some (next.1, next.2 + 1) := by
  have first : part[before.length]? = some p := by rw [split]; simp
  have second : part[before.length + 1]? = some q := by rw [split]; simp
  rw [densifyTurn, first, second]
  rfl

theorem densifyTurns_spec (exact : ExactSqrt sqrt) (positive : 0 < tolerance) {part : LineObj K} (rest before : LineObj K)
    (p : PointObj K) (split : part = before ++ p :: rest) {point : Lib.Slots (PointObj K)} {l : Nat} {done : LineObj K}
    (filled : Filled point (l + rest.length + 1) l done)
    (fits : (l + rest.length + 1 + addedCount sqrt tolerance (p :: rest) : Nat) ≤ INT_MAX) :
    ∃ after l' last front, forUp (densifyTurn sqrt tolerance part) before.length rest.length (point, l) = some (after, l') ∧
      part.getLast? = some last ∧ Filled after (l' + 1) l' (done ++ front) ∧
      DensifiedPart sqrt tolerance (p :: rest) (front ++ [last]) := by
  induction rest generalizing before p point l done with
  | nil => exact ⟨point, l, p, [], rfl, by rw [split]; simp, by simpa using filled, rfl⟩
  | cons q rest ih =>
    rw [addedCount, List.length_cons] at fits
    obtain ⟨next, added, run, fills, isAdded⟩ := densifySegment_spec exact positive p q filled (by rw [List.length_cons]; omega)
      (by rw [List.length_cons]; push_cast at fits ⊢; omega)
    rw [List.length_cons, show l + (rest.length + 1) + 1 + newPoints sqrt tolerance p q =
      l + newPoints sqrt tolerance p q + 1 + rest.length + 1 by omega] at fills
    obtain ⟨after, l', last, front, loop, isLast, final, tail⟩ := ih (before ++ [p]) q (by simpa using split) fills
      (by push_cast at fits ⊢; omega)
    refine ⟨after, l', last, p :: added ++ front, ?_, isLast, by simpa using final, added, front ++ [last], by simp, isAdded, tail⟩
    rw [List.length_cons, forUp, densifyTurn_eq split, run, Option.bind_some, Option.bind_some]
    simpa using loop

theorem densifyTurns_size (positive : 0 < tolerance) {part : LineObj K} (rest before : LineObj K) (p : PointObj K)
    (split : part = before ++ p :: rest) {point after : Lib.Slots (PointObj K)} {l l' : Nat}
    (run : forUp (densifyTurn sqrt tolerance part) before.length rest.length (point, l) = some (after, l'))
    (small : point.size ≤ INT_MAX) : (point.size + addedCount sqrt tolerance (p :: rest) : Nat) ≤ INT_MAX := by
  induction rest generalizing before p point l with
  | nil => exact small
  | cons q rest ih =>
    rw [length_cons, forUp, densifyTurn_eq split] at run
    obtain ⟨state, run, loop⟩ := bind_eq_some_iff.mp run
    obtain ⟨⟨next, k⟩, segment, same⟩ := bind_eq_some_iff.mp run
    cases same
    obtain ⟨size, stillSmall⟩ := densifySegment_size positive segment small
    have total := ih (before ++ [p]) q (by simpa using split) (by simpa using loop) stillSmall
    rw [size] at total
    rw [addedCount, ← Nat.add_assoc]
    exact total

/-- A part with a point, whose points and new points are few enough for an `int`. -/
def Densifiable (sqrt : K → K) (tolerance : K) (part : LineObj K) : Prop :=
  part ≠ [] ∧ (part.length + addedCount sqrt tolerance part : Nat) ≤ INT_MAX

theorem densifyPart_spec (malloc : Nat → PointObj K) (exact : ExactSqrt sqrt) (positive : 0 < tolerance) {part : LineObj K}
    (fits : Densifiable sqrt tolerance part) :
    ∃ after, densifyPart sqrt malloc tolerance part = some after ∧ DensifiedPart sqrt tolerance part after := by
  obtain ⟨p, rest, rfl⟩ := List.exists_cons_of_ne_nil fits.1
  have total := fits.2
  rw [List.length_cons] at total
  have start : Filled (⟨rest.length + 1, malloc⟩ : Lib.Slots (PointObj K)) (0 + rest.length + 1) 0 [] := ⟨by simp, rfl⟩
  obtain ⟨after, l', last, front, run, isLast, filled, densified⟩ :=
    densifyTurns_spec exact positive rest [] p rfl start (by rw [Nat.zero_add]; exact total)
  obtain ⟨final, stored, fills⟩ := filled.store (Nat.lt_succ_self l') last
  refine ⟨front ++ [last], ?_, densified⟩
  have count : checkedInt ((p :: rest).length : Int) = some ((rest.length + 1 : Nat) : Int) :=
    checkedInt_of_range (by rw [List.length_cons]; omega) (by rw [List.length_cons]; push_cast at total ⊢; omega)
  have loop : forUp (densifyTurn sqrt tolerance (p :: rest)) 0 ((p :: rest).length - 1)
      (⟨((rest.length + 1 : Nat) : Int).toNat, malloc⟩, 0) = some (after, l') := run
  have reads : (p :: rest)[(p :: rest).length - 1]? = some last := List.getLast?_eq_getElem?.symm.trans isLast
  rw [densifyPart, count, Option.bind_eq_bind, Option.bind_some, loop, Option.bind_eq_bind, Option.bind_some, reads]
  dsimp only [Option.bind_eq_bind, Option.bind_some]
  rw [stored, Option.bind_some, fills.size, fills.front]
  rfl

theorem densifyPart_some (positive : 0 < tolerance) {part after : LineObj K}
    (run : densifyPart sqrt malloc tolerance part = some after) : Densifiable sqrt tolerance part := by
  obtain ⟨numpoints, count, run⟩ := bind_eq_some_iff.mp run
  obtain ⟨rfl, small⟩ := checkedInt_some count
  obtain ⟨⟨point, l⟩, loop, run⟩ := bind_eq_some_iff.mp run
  obtain ⟨last, isLast, -⟩ := bind_eq_some_iff.mp run
  cases part with
  | nil => cases isLast
  | cons p rest =>
    have total := densifyTurns_size positive rest [] p rfl loop small
    exact ⟨cons_ne_nil p rest, total⟩

/-- The result has the parts of the shape with points added evenly, and no store is outside its array, exactly when every
part has a point and the points of each part can be counted. -/
theorem msDensify_densified_iff (exact : ExactSqrt sqrt) (positive : 0 < tolerance) {shape : ShapeObj K}
    (isPath : shape.type = .MS_SHAPE_LINE ∨ shape.type = .MS_SHAPE_POLYGON) :
    (∃ after, msDensify sqrt malloc tolerance shape = some (some after) ∧ Densified sqrt tolerance shape after) ↔
      ∀ part ∈ shape.line, Densifiable sqrt tolerance part := by
  have unfolded : msDensify sqrt malloc tolerance shape = (shape.line.mapM (densifyPart sqrt malloc tolerance)).bind fun line =>
      some (some { line, bounds := ⟨-1, -1, -1, -1⟩, type := shape.type, index := -1 }) := by
    rw [msDensify, if_neg, if_neg (not_le.mpr positive)]
    · rfl
    · rintro ⟨notPolygon, notLine⟩
      exact isPath.elim notLine notPolygon
  rw [unfolded]
  constructor
  · rintro ⟨after, run, -⟩ part member
    obtain ⟨line, parts, -⟩ := Option.bind_eq_some_iff.mp run
    cases fails : densifyPart sqrt malloc tolerance part with
    | none => rw [mapM_none member fails] at parts; cases parts
    | some left => exact densifyPart_some positive fails
  · intro each
    obtain ⟨line, run, parts⟩ := mapM_parts fun part member => densifyPart_spec malloc exact positive (each part member)
    rw [run, Option.bind_some]
    exact ⟨_, rfl, rfl, parts⟩

end Parts

theorem msDensify_densified_lengthFive : ∃ after, msDensify Real.sqrt (fun _ => ⟨0, 0, 0, 0⟩) 2
      ⟨[[⟨0, 0, 0, 0⟩, ⟨3, 4, 0, 0⟩]], ⟨0, 0, 0, 0⟩, .MS_SHAPE_LINE, 0⟩ = some (some after) ∧
    Densified Real.sqrt 2 ⟨[[⟨0, 0, 0, 0⟩, ⟨3, 4, 0, 0⟩]], ⟨0, 0, 0, 0⟩, .MS_SHAPE_LINE, 0⟩ after := by
  apply (msDensify_densified_iff realSqrt_exact two_pos (Or.inl rfl)).mpr
  intro part member
  rw [List.mem_singleton] at member
  have five : msDistancePointToPoint Real.sqrt ⟨0, 0, 0, 0⟩ ⟨3, 4, 0, 0⟩ = 5 :=
    realSqrt_exact.eq (by norm_num) (by norm_num [msSquareDistancePointToPoint])
  have two : ⌊(5 : ℝ) / 2⌋ = 2 := Int.floor_eq_iff.mpr (by norm_num)
  rw [member]
  refine ⟨List.cons_ne_nil _ _, ?_⟩
  simp only [addedCount, newPoints, five, two]
  rw [if_pos (by norm_num)]
  decide

theorem msDensify_emptyPart : ¬ ∃ after, msDensify Real.sqrt (fun _ => ⟨0, 0, 0, 0⟩) 2
      ⟨[[]], ⟨0, 0, 0, 0⟩, .MS_SHAPE_LINE, 0⟩ = some (some after) ∧
    Densified Real.sqrt 2 ⟨[[]], ⟨0, 0, 0, 0⟩, .MS_SHAPE_LINE, 0⟩ after := by
  rintro ⟨after, run, -⟩
  rw [msDensify, if_neg (by simp), if_neg (by norm_num)] at run
  obtain ⟨line, parts, -⟩ := Option.bind_eq_some_iff.mp run
  have nothing : densifyPart Real.sqrt (fun _ => ⟨0, 0, 0, 0⟩) 2 [] = none := rfl
  rw [mapM_none (List.mem_singleton_self _) nothing] at parts
  cases parts

end MapServer
