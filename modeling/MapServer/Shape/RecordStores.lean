import MapServer.Shape.Record

namespace MapServer
open Lib.ByteFile List Option

variable {α : Type} (rep : DoubleRep α) (big : Bool)

def coordinateBytes (point : PointObj α) : List UInt8 :=
  putDouble rep big big point.x ++ putDouble rep big big point.y

@[simp] theorem length_coordinateBytes (point : PointObj α) : (coordinateBytes rep big point).length = 16 := by
  simp [coordinateBytes]

theorem length_flatMap_of_even {β : Type} {encode : β → List UInt8} {width : Nat}
    (even : ∀ entry, (encode entry).length = width) (table : List β) :
    (table.flatMap encode).length = width * table.length := by
  induction table with
  | nil => rfl
  | cons entry rest ih => rw [flatMap_cons, length_append, even, ih, length_cons, Nat.mul_succ, Nat.add_comm]

theorem storeCoordinates_stored (pabyRec : List UInt8) (pos : Nat) (line : LineObj α)
    (inside : pos + 16 * line.length ≤ pabyRec.length) :
    ∃ after, storeCoordinates rep big pabyRec pos line = some after ∧
      Stored pabyRec pos (line.flatMap (coordinateBytes rep big)) after := by
  induction line generalizing pabyRec pos with
  | nil => exact ⟨pabyRec, rfl, stored_nil inside⟩
  | cons point rest ih =>
    rw [length_cons] at inside
    obtain ⟨first, storeX, storedX⟩ := storeAt_stored pabyRec pos
      (putDouble rep big big point.x) (by rw [length_putDouble]; omega)
    obtain ⟨second, storeY, storedY⟩ := storeAt_stored first (pos + 8)
      (putDouble rep big big point.y) (by rw [length_putDouble, storedX.length]; omega)
    obtain ⟨last, storeRest, storedRest⟩ := ih second (pos + 16)
      (by rw [storedY.length, storedX.length]; omega)
    refine ⟨last, ?_, ?_⟩
    · simp only [storeCoordinates, bind_eq_bind, storeX, storeY, storeRest, bind_some]
    · rw [flatMap_cons]
      have storedPoint : Stored pabyRec pos (coordinateBytes rep big point) second :=
        Stored.trans storedX (by rwa [length_putDouble])
      exact Stored.trans storedPoint (by rwa [length_coordinateBytes])

theorem appendDoubles_stored (pabyRec : List UInt8) (nRecordSize : Nat) (values : List α)
    (inside : nRecordSize + 8 * values.length ≤ pabyRec.length) :
    ∃ after, appendDoubles rep big pabyRec nRecordSize values =
        some (after, nRecordSize + 8 * values.length) ∧
      Stored pabyRec nRecordSize (values.flatMap (putDouble rep big big)) after := by
  induction values generalizing pabyRec nRecordSize with
  | nil => exact ⟨pabyRec, rfl, stored_nil inside⟩
  | cons value rest ih =>
    rw [length_cons] at inside
    obtain ⟨first, store, stored⟩ := storeAt_stored pabyRec nRecordSize
      (putDouble rep big big value) (by rw [length_putDouble]; omega)
    obtain ⟨last, storeRest, storedRest⟩ := ih first (nRecordSize + 8)
      (by rw [stored.length]; omega)
    refine ⟨last, ?_, ?_⟩
    · simp only [appendDoubles, bind_eq_bind, store, storeRest, bind_some, length_cons]
      congr 2
      omega
    · rw [flatMap_cons]
      exact Stored.trans stored (by rwa [length_putDouble])

def partEnds (partSize : Int) : List (LineObj α) → List Int
  | [] => []
  | line :: rest => (partSize + line.length) :: partEnds (partSize + line.length) rest

def partStarts (start : Int) : List (LineObj α) → List Int
  | [] => []
  | line :: rest => start :: partStarts (start + line.length) rest

@[simp] theorem length_partStarts (start : Int) (line : List (LineObj α)) :
    (partStarts start line).length = line.length := by
  induction line generalizing start with
  | nil => rfl
  | cons first rest ih => rw [partStarts, length_cons, ih, length_cons]

variable {line : List (LineObj α)} {after pabyRec : List UInt8} {nShapeType : Int} {nRecordSize size : Nat}

theorem partStarts_eq (start : Int) (some_line : line ≠ []) :
    start :: partEnds start line.dropLast = partStarts start line := by
  induction line generalizing start with
  | nil => exact absurd rfl some_line
  | cons first rest ih =>
    cases rest with
    | nil => rfl
    | cons second rest =>
      rw [dropLast_cons_cons, partEnds, partStarts, ih _ (by simp)]

theorem storePartStarts_stored (pabyRec : List UInt8) (pos : Nat) (partSize : Int) (line : List (LineObj α))
    (inside : pos + 4 * line.length ≤ pabyRec.length) :
    ∃ after, storePartStarts big pabyRec pos partSize line = some after ∧
      Stored pabyRec pos ((partEnds partSize line).flatMap (putWord big big)) after := by
  induction line generalizing pabyRec pos partSize with
  | nil => exact ⟨pabyRec, rfl, stored_nil inside⟩
  | cons first rest ih =>
    rw [length_cons] at inside
    obtain ⟨middle, store, stored⟩ := storeAt_stored pabyRec pos
      (putWord big big (partSize + first.length)) (by rw [length_putWord]; omega)
    obtain ⟨last, storeRest, storedRest⟩ := ih middle (pos + 4) (partSize + first.length)
      (by rw [stored.length]; omega)
    refine ⟨last, ?_, ?_⟩
    · simp only [storePartStarts, bind_eq_bind, store, storeRest, bind_some]
    · rw [partEnds, flatMap_cons]
      exact Stored.trans stored (by rwa [length_putWord])

theorem countPoints_eq (line : List (LineObj α)) : countPoints line = line.flatten.length := length_flatten.symm

theorem appendMeasures_stored (value : PointObj α → α) {first last : PointObj α} (start : firstPoint line = some first)
    (stop : lastPoint line = some last) (pabyRec : List UInt8) (nRecordSize : Nat)
    (inside : nRecordSize + 16 + 8 * countPoints line ≤ pabyRec.length) :
    ∃ after, appendMeasures rep big value line pabyRec nRecordSize =
        some (after, nRecordSize + 16 + 8 * countPoints line) ∧
      Stored pabyRec nRecordSize ((value first :: value last :: line.flatten.map value).flatMap
        (putDouble rep big big)) after := by
  have length : (value first :: value last :: line.flatten.map value).length = 2 + countPoints line := by
    rw [length_cons, length_cons, length_map, countPoints_eq]
    omega
  obtain ⟨after, run, stored⟩ := appendDoubles_stored rep big pabyRec nRecordSize
    (value first :: value last :: line.flatten.map value) (by rw [length]; omega)
  refine ⟨after, ?_, stored⟩
  unfold appendMeasures
  rw [start, stop]
  simp only [bind_eq_bind, bind_some]
  rw [run, length]
  congr 2
  omega

/-- The final `nRecordSize`. With a block of measures it counts the 8 bytes of the record header. -/
def polyRecordSize (nShapeType : Int) (line : List (LineObj α)) : Nat :=
  if nShapeType ∈ measuredPolyTypes then 52 + 4 * line.length + 16 * countPoints line + 16 + 8 * countPoints line
  else 44 + 4 * line.length + 16 * countPoints line

structure HoldsPolyPoints (line : List (LineObj α)) (record : List UInt8) : Prop where
  bounds : ∃ rect, Holds record 12 (putRect rep big big rect)
  nParts : Holds record 44 (putWord big big line.length)
  nPoints : Holds record 48 (putWord big big (countPoints line))
  starts : Holds record 52 ((partStarts 0 line).flatMap (putWord big big))
  coordinates : Holds record (52 + 4 * line.length) (line.flatten.flatMap (coordinateBytes rep big))

structure HoldsPoly (nShapeType : Int) (line : List (LineObj α)) (record : List UInt8) : Prop
    extends HoldsPolyPoints rep big line record where
  measures : nShapeType ∈ measuredPolyTypes → Holds record (52 + 4 * line.length + 16 * countPoints line + 16)
    ((line.flatten.map PointObj.z).flatMap (putDouble rep big big))

theorem length_starts (line : List (LineObj α)) :
    ((partStarts 0 line).flatMap (putWord big big)).length = 4 * line.length := by
  rw [length_flatMap_of_even (length_putWord big big), length_partStarts]

theorem length_coordinates (line : List (LineObj α)) :
    (line.flatten.flatMap (coordinateBytes rep big)).length = 16 * countPoints line := by
  rw [length_flatMap_of_even (length_coordinateBytes rep big), countPoints_eq]

theorem HoldsPolyPoints.of_kept {record : List UInt8} (holds : HoldsPolyPoints rep big line record)
    (kept : ∀ {place : Nat} {bytes : List UInt8}, 12 ≤ place →
      place + bytes.length ≤ 52 + 4 * line.length + 16 * countPoints line →
      Holds record place bytes → Holds after place bytes) :
    HoldsPolyPoints rep big line after := by
  obtain ⟨rect, bounds⟩ := holds.bounds
  refine ⟨⟨rect, kept (Nat.le_refl _) ?_ bounds⟩, kept (by omega) ?_ holds.nParts, kept (by omega) ?_ holds.nPoints,
    kept (by omega) ?_ holds.starts, kept (by omega) ?_ holds.coordinates⟩
  · rw [length_putRect]
    omega
  · rw [length_putWord]
    omega
  · rw [length_putWord]
    omega
  · rw [length_starts]
    omega
  · rw [length_coordinates]

theorem ends_of_points {points : LineObj α} (some_point : points ≠ []) :
    ∃ first last, firstPoint [points] = some first ∧ lastPoint [points] = some last := by
  refine ⟨points.head some_point, points.getLast some_point, ?_, ?_⟩
  · exact head?_eq_some_head some_point
  · exact getLast?_eq_some_getLast some_point

theorem countPoints_single (points : LineObj α) : countPoints [points] = points.length := by
  simp [countPoints]

theorem storeXY_stored (point : PointObj α) (pabyRec : List UInt8) (room : 28 ≤ pabyRec.length) :
    ∃ middle after, storeAt pabyRec 12 (putDouble rep big big point.x) = some middle ∧
      storeAt middle 20 (putDouble rep big big point.y) = some after ∧
      Stored pabyRec 12 (coordinateBytes rep big point) after := by
  obtain ⟨middle, run1, stored1⟩ := storeAt_stored pabyRec 12 (putDouble rep big big point.x)
    (by rw [length_putDouble]; omega)
  obtain ⟨after, run2, stored2⟩ := storeAt_stored middle 20 (putDouble rep big big point.y)
    (by rw [length_putDouble, stored1.length]; omega)
  exact ⟨middle, after, run1, run2, Stored.trans stored1 (by rwa [length_putDouble])⟩

theorem storePoint_stored (point : PointObj α) (pabyRec : List UInt8) (room : 28 ≤ pabyRec.length) :
    ∃ after, storePoint rep big SHP_POINT [[point]] pabyRec = some (after, 20) ∧
      after.length = pabyRec.length ∧ Holds after 12 (coordinateBytes rep big point) := by
  obtain ⟨b1, b2, run1, run2, stored⟩ := storeXY_stored rep big point pabyRec room
  refine ⟨b2, ?_, stored.length, stored.here⟩
  simp only [storePoint, show firstPoint [[point]] = some point from rfl, bind_eq_bind, run1, run2,
    bind_some]
  rw [if_neg (by decide), if_neg (by decide)]

theorem storePoint_untouched (measured : nShapeType ∈ [SHP_POINTM, SHP_POINTZ]) (point : PointObj α)
    (pabyRec : List UInt8) (room : 28 ≤ pabyRec.length) :
    ∃ after, storePoint rep big nShapeType [[point]] pabyRec = some (after, 28) ∧
      after.length = pabyRec.length ∧
      ∀ {place other}, 28 ≤ place → Holds pabyRec place other → Holds after place other := by
  obtain ⟨b1, b2, run1, run2, stored2⟩ := storeXY_stored rep big point pabyRec room
  have block : ∀ value : α, ∃ after, appendDoubles rep big b2 20 [value] = some (after, 28) ∧
      after.length = pabyRec.length ∧
      ∀ {place other}, 28 ≤ place → Holds pabyRec place other → Holds after place other := by
    intro value
    obtain ⟨after, run, stored⟩ := appendDoubles_stored rep big b2 20 [value]
      (by rw [stored2.length]; exact room)
    refine ⟨after, run, stored.length.trans stored2.length, fun past holds => ?_⟩
    apply stored.beside (.inr (by simpa using past))
    exact stored2.beside (.inr (by simpa using past)) holds
  simp only [storePoint, show firstPoint [[point]] = some point from rfl, bind_eq_bind, run1, run2,
    bind_some]
  simp only [mem_cons, not_mem_nil, or_false] at measured
  rcases measured with rfl | rfl
  · obtain ⟨b3, run3, rest⟩ := block point.m
    refine ⟨b3, ?_, rest⟩
    rw [if_pos rfl, run3, bind_some, if_neg (by decide)]
  · obtain ⟨b3, run3, rest⟩ := block point.z
    refine ⟨b3, ?_, rest⟩
    rw [if_neg (by decide), if_pos rfl, run3]

section Bounds
variable [LT α] [DecidableLT α]
variable {first : PointObj α} {line : List (LineObj α)} {nShapeType : Int}

theorem writeBounds_stored (start : firstPoint line = some first) (nVCount : Nat) (pabyRec : List UInt8) (pos : Nat)
    (inside : pos + 32 ≤ pabyRec.length) : ∃ bounds after, writeBounds rep big pabyRec pos line nVCount = some after ∧
      Stored pabyRec pos (putRect rep big big bounds) after := by
  have known : ∃ bounds, shapeBounds rep line nVCount = some bounds := by
    unfold shapeBounds
    split
    · exact ⟨_, rfl⟩
    · rw [start]
      exact ⟨_, rfl⟩
  obtain ⟨bounds, known⟩ := known
  obtain ⟨after, store, stored⟩ := storeAt_stored pabyRec pos (putRect rep big big bounds)
    (by rw [length_putRect]; exact inside)
  refine ⟨bounds, after, ?_, stored⟩
  unfold writeBounds
  rw [known]
  exact store

theorem storePolyPoints_stored (start : firstPoint line = some first) (pabyRec : List UInt8)
    (room : 52 + 4 * line.length + 16 * countPoints line ≤ pabyRec.length) :
    ∃ after, storePolyPoints rep big line pabyRec = some after ∧ after.length = pabyRec.length ∧
      HoldsPolyPoints rep big line after := by
  have some_line : line ≠ [] := by
    rintro rfl
    cases start
  have positive : 0 < line.length := length_pos_of_ne_nil some_line
  obtain ⟨rect, b1, run1, stored1⟩ := writeBounds_stored rep big start (countPoints line) pabyRec 12
    (by omega)
  have length1 := stored1.length
  obtain ⟨b2, run2, stored2⟩ := storeAt_stored b1 (40 + 8) (putWord big big (countPoints line))
    (by rw [length_putWord]; omega)
  have length2 := stored2.length
  obtain ⟨b3, run3, stored3⟩ := storeAt_stored b2 (36 + 8) (putWord big big line.length)
    (by rw [length_putWord]; omega)
  have length3 := stored3.length
  obtain ⟨b4, run4, stored4⟩ := storeAt_stored b3 (44 + 8) (putWord big big 0)
    (by rw [length_putWord]; omega)
  have length4 := stored4.length
  obtain ⟨b5, run5, stored5⟩ := storePartStarts_stored big b4 (44 + 8 + 4) 0 line.dropLast
    (by rw [length_dropLast]; omega)
  have length5 := stored5.length
  obtain ⟨b6, run6, stored6⟩ := storeCoordinates_stored rep big b5 (44 + 4 * line.length + 8) line.flatten
    (by rw [← countPoints_eq]; omega)
  have storedStarts : Stored b3 52 ((partStarts 0 line).flatMap (putWord big big)) b5 := by
    rw [← partStarts_eq 0 some_line, flatMap_cons]
    exact Stored.trans stored4 (by rwa [length_putWord])
  rw [show 44 + 4 * line.length + 8 = 52 + 4 * line.length by omega] at run6 stored6
  refine ⟨b6, ?_, by rw [stored6.length, length5, length4, length3, length2, length1], ⟨rect, ?_⟩, ?_, ?_, ?_, stored6.here⟩
  · unfold storePolyPoints
    simp only [bind_eq_bind, run1, run2, run3, run4, run5, bind_some]
    rwa [show 44 + 4 * line.length + 8 = 52 + 4 * line.length by omega]
  · have bounds := stored3.beside (by rw [length_putRect]; omega) (stored2.beside (by rw [length_putRect]; omega) stored1.here)
    exact stored6.beside (by rw [length_putRect]; omega) (storedStarts.beside (by rw [length_putRect]; omega) bounds)
  · exact stored6.beside (by rw [length_putWord]; omega) (storedStarts.beside (by rw [length_putWord]; omega) stored3.here)
  · have nPoints := stored3.beside (.inr (by rw [length_putWord])) stored2.here
    exact stored6.beside (by rw [length_putWord]; omega) (storedStarts.beside (by rw [length_putWord]; omega) nPoints)
  · exact stored6.beside (.inl (by rw [length_starts])) storedStarts.here

theorem storePoly_stored (nShapeType : Int) {last : PointObj α} (start : firstPoint line = some first)
    (stop : lastPoint line = some last) {pabyRec : List UInt8}
    (room : countPoints line * 4 * 8 + line.length * 8 + 128 ≤ pabyRec.length) :
    ∃ after, storePoly rep big nShapeType line pabyRec = some (after, polyRecordSize nShapeType line) ∧
      after.length = pabyRec.length ∧ HoldsPoly rep big nShapeType line after := by
  obtain ⟨b1, run1, length1, holds1⟩ := storePolyPoints_stored rep big start pabyRec (by omega)
  have measured : ∀ value : PointObj α → α, ∀ buffer : List UInt8, buffer.length = pabyRec.length →
      HoldsPolyPoints rep big line buffer → ∃ after,
      appendMeasures rep big value line buffer (44 + 4 * line.length + 8 + countPoints line * 16) =
        some (after, 52 + 4 * line.length + 16 * countPoints line + 16 + 8 * countPoints line) ∧
      after.length = pabyRec.length ∧ HoldsPolyPoints rep big line after ∧
      Holds after (52 + 4 * line.length + 16 * countPoints line + 16)
        ((line.flatten.map value).flatMap (putDouble rep big big)) := by
    intro value buffer length holds
    rw [show 44 + 4 * line.length + 8 + countPoints line * 16 = 52 + 4 * line.length + 16 * countPoints line by omega]
    obtain ⟨after, run, stored⟩ := appendMeasures_stored rep big value start stop buffer
      (52 + 4 * line.length + 16 * countPoints line) (by omega)
    refine ⟨after, run, stored.length.trans length, ?_, ?_⟩
    · apply holds.of_kept
      intro place bytes _ below
      exact stored.beside (.inl below)
    · have split := stored.here
      rw [flatMap_cons, flatMap_cons, ← append_assoc] at split
      have block := (holds_append split).2
      rwa [length_append, length_putDouble, length_putDouble] at block
  unfold storePoly
  simp only [bind_eq_bind, run1, bind_some]
  by_cases isM : nShapeType ∈ [SHP_POLYGONM, SHP_ARCM]
  · obtain ⟨b2, run2, length2, holds2, -⟩ := measured PointObj.m b1 length1 holds1
    obtain ⟨b3, run3, length3, holds3, block⟩ := measured PointObj.z b2 length2 holds2
    have isMeasured : nShapeType ∈ measuredPolyTypes := mem_cons_of_mem _ (mem_cons_of_mem _ isM)
    refine ⟨b3, ?_, length3, holds3, fun _ => block⟩
    rw [if_pos isM, run2, bind_some, polyRecordSize, if_pos isMeasured, if_pos isMeasured, run3]
  · rw [if_neg isM]
    by_cases isMeasured : nShapeType ∈ measuredPolyTypes
    · obtain ⟨b2, run2, length2, holds2, block⟩ := measured PointObj.z b1 length1 holds1
      refine ⟨b2, ?_, length2, holds2, fun _ => block⟩
      rw [polyRecordSize, if_pos isMeasured, if_pos isMeasured, run2]
    · refine ⟨b1, ?_, length1, holds1, fun isZ => absurd isZ isMeasured⟩
      rw [polyRecordSize, if_neg isMeasured, if_neg isMeasured]

theorem storeMultiPointPoints_stored {points : LineObj α} (some_point : points ≠ []) (pabyRec : List UInt8)
    (room : 48 + 16 * points.length ≤ pabyRec.length) :
    ∃ after, storeMultiPointPoints rep big [points] pabyRec = some after ∧ after.length = pabyRec.length ∧
      (∃ rect, Holds after 12 (putRect rep big big rect)) ∧
      Holds after 44 (putWord big big points.length) ∧
      Holds after 48 (points.flatMap (coordinateBytes rep big)) ∧
      ∀ {place other}, 48 + 16 * points.length ≤ place → Holds pabyRec place other → Holds after place other := by
  obtain ⟨first, last, start, -⟩ := ends_of_points some_point
  obtain ⟨rect, b1, run1, stored1⟩ := writeBounds_stored rep big start points.length pabyRec 12 (by omega)
  have length1 := stored1.length
  obtain ⟨b2, run2, stored2⟩ := storeAt_stored b1 44 (putWord big big points.length)
    (by rw [length_putWord]; omega)
  have length2 := stored2.length
  obtain ⟨b3, run3, stored3⟩ := storeCoordinates_stored rep big b2 48 points (by omega)
  have width := length_flatMap_of_even (length_coordinateBytes rep big) points
  refine ⟨b3, ?_, by rw [stored3.length, length2, length1], ⟨rect, ?_⟩, ?_, stored3.here, ?_⟩
  · unfold storeMultiPointPoints
    simp only [countPoints_single, bind_eq_bind, run1, run2, head?_cons, run3, bind_some]
  · exact stored3.beside (by rw [length_putRect]; omega) (stored2.beside (by rw [length_putRect]; omega) stored1.here)
  · exact stored3.beside (by rw [length_putWord]; omega) stored2.here
  · intro place other past holds
    apply stored3.beside (by omega)
    apply stored2.beside (by rw [length_putWord]; omega)
    exact stored1.beside (by rw [length_putRect]; omega) holds

theorem storeMultiPoint_untouched (measured : nShapeType ∈ [SHP_MULTIPOINTM, SHP_MULTIPOINTZ]) {points : LineObj α}
    (some_point : points ≠ []) (pabyRec : List UInt8) (room : 56 + 24 * points.length ≤ pabyRec.length) :
    ∃ after, storeMultiPoint rep big nShapeType [points] pabyRec = some (after, 56 + 24 * points.length) ∧
      after.length = pabyRec.length ∧
      ∀ {place other}, 56 + 24 * points.length ≤ place → Holds pabyRec place other → Holds after place other := by
  obtain ⟨first, last, start, stop⟩ := ends_of_points some_point
  obtain ⟨b1, run1, length1, -, -, -, kept1⟩ := storeMultiPointPoints_stored rep big some_point pabyRec (by omega)
  have block : ∀ value : PointObj α → α, ∃ after,
      appendMeasures rep big value [points] b1 (40 + 16 * points.length) =
        some (after, 56 + 24 * points.length) ∧ after.length = pabyRec.length ∧
      ∀ {place other}, 56 + 24 * points.length ≤ place → Holds pabyRec place other → Holds after place other := by
    intro value
    obtain ⟨after, run, stored⟩ := appendMeasures_stored rep big value start stop b1 (40 + 16 * points.length)
      (by rw [countPoints_single]; omega)
    rw [countPoints_single, show 40 + 16 * points.length + 16 + 8 * points.length = 56 + 24 * points.length by omega] at run
    refine ⟨after, run, stored.length.trans length1, fun past holds => stored.beside (.inr ?_) (kept1 (by omega) holds)⟩
    rw [length_flatMap_of_even (length_putDouble rep big big), length_cons, length_cons,
      length_map, ← countPoints_eq, countPoints_single]
    omega
  simp only [storeMultiPoint, bind_eq_bind, run1, bind_some, take_one, head?_cons,
    toList_some, countPoints_single]
  simp only [mem_cons, not_mem_nil, or_false] at measured
  rcases measured with rfl | rfl
  · obtain ⟨b2, run2, rest⟩ := block PointObj.m
    refine ⟨b2, ?_, rest⟩
    rw [if_pos rfl, run2, bind_some, if_neg (by decide)]
  · obtain ⟨b2, run2, rest⟩ := block PointObj.z
    refine ⟨b2, ?_, rest⟩
    rw [if_neg (by decide), if_pos rfl, run2]

/-- No size of the record leaves the range of `int`. -/
def RecordFits (line : List (LineObj α)) (nRecordSize : Nat) : Prop :=
  countPoints line * 4 ≤ INT_MAX ∧ line.length * 8 ≤ INT_MAX ∧ nRecordSize + 8 ≤ INT_MAX

theorem shapeRecord_stored {malloc : Nat → UInt8} (nRecords : Int) {shape : ShapeObj α}
    (not_null : shape.type ≠ .MS_SHAPE_NULL) {after : List UInt8} {nRecordSize : Nat}
    (stores : storeShape rep big nShapeType shape
      (msSmallMalloc malloc (countPoints shape.line * 4 * 8 + shape.line.length * 8 + 128)) = some (after, nRecordSize))
    (room : nRecordSize + 8 ≤ after.length) (header : 4 ≤ nRecordSize) (fits : RecordFits shape.line nRecordSize) :
    ∃ record, shapeRecord rep big malloc nShapeType nRecords shape = some (record, nRecordSize) ∧
      record.length = nRecordSize + 8 ∧ Holds record 4 (putWord big (!big) (nRecordSize / 2 : Nat)) ∧
      ∀ {place bytes}, 12 ≤ place → place + bytes.length ≤ nRecordSize + 8 →
        Holds after place bytes → Holds record place bytes := by
  obtain ⟨points, parts, total⟩ := fits
  obtain ⟨b1, run1, stored1⟩ := storeAt_stored after 0 (putWord big (!big) nRecords)
    (by rw [length_putWord]; omega)
  have length1 := stored1.length
  obtain ⟨b2, run2, stored2⟩ := storeAt_stored b1 4 (putWord big (!big) (nRecordSize / 2 : Nat))
    (by rw [length_putWord]; omega)
  have length2 := stored2.length
  obtain ⟨b3, run3, stored3⟩ := storeAt_stored b2 8 (putWord big big nShapeType)
    (by rw [length_putWord]; omega)
  have length3 := stored3.length
  refine ⟨b3.take (nRecordSize + 8), ?_, length_take_of_le (by omega), ?_, ?_⟩
  · unfold shapeRecord
    rw [if_neg (by omega)]
    simp only [stores, bind_eq_bind, bind_some]
    rw [if_neg (by omega), if_neg not_null]
    simp only [run1, run2, run3, bind_some]
    rw [readAt, if_pos (by omega)]
    rfl
  · apply holds_take (stored3.beside (.inl (by rw [length_putWord])) stored2.here)
    rw [length_putWord]
    omega
  · intro place bytes past inside holds
    apply holds_take _ inside
    apply stored3.beside (.inr (by rw [length_putWord]; omega))
    apply stored2.beside (.inr (by rw [length_putWord]; omega))
    exact stored1.beside (.inr (by rw [length_putWord]; omega)) holds

theorem shapeRecord_overflow {malloc : Nat → UInt8} (nRecords : Int) {shape : ShapeObj α} {after : List UInt8}
    {nRecordSize : Nat}
    (stores : storeShape rep big nShapeType shape
      (msSmallMalloc malloc (countPoints shape.line * 4 * 8 + shape.line.length * 8 + 128)) = some (after, nRecordSize))
    (overflows : ¬ RecordFits shape.line nRecordSize) :
    shapeRecord rep big malloc nShapeType nRecords shape = none := by
  unfold shapeRecord
  by_cases early : (countPoints shape.line : Int) * 4 > INT_MAX ∨ (shape.line.length : Int) * 8 > INT_MAX
  · rw [if_pos early]
  · rw [if_neg early]
    simp only [stores, bind_eq_bind, bind_some]
    rw [if_pos]
    unfold RecordFits at overflows
    omega

end Bounds

theorem appendDoubles_size {values : List α}
    (run : appendDoubles rep big pabyRec nRecordSize values = some (after, size)) :
    size = nRecordSize + 8 * values.length := by
  induction values generalizing pabyRec nRecordSize with
  | nil => exact (Prod.mk.inj (Option.some.inj run)).2.symm
  | cons value rest ih =>
    obtain ⟨first, -, later⟩ := bind_eq_some_iff.mp run
    rw [ih later, length_cons]
    omega

theorem appendMeasures_even {value : PointObj α → α}
    (run : appendMeasures rep big value line pabyRec nRecordSize = some (after, size)) (even : 2 ∣ nRecordSize) :
    2 ∣ size := by
  obtain ⟨first, -, run⟩ := bind_eq_some_iff.mp run
  obtain ⟨last, -, run⟩ := bind_eq_some_iff.mp run
  rw [appendDoubles_size rep big run]
  omega

theorem even_of_if {condition : Prop} [Decidable condition] {block : Option (List UInt8 × Nat)}
    (run : (if condition then block else some (pabyRec, nRecordSize)) = some (after, size)) (even : 2 ∣ nRecordSize)
    (even_block : block = some (after, size) → 2 ∣ size) : 2 ∣ size := by
  split at run
  · exact even_block run
  · obtain ⟨-, rfl⟩ := Prod.mk.inj (Option.some.inj run)
    exact even

theorem storePoint_even (run : storePoint rep big nShapeType line pabyRec = some (after, size)) : 2 ∣ size := by
  obtain ⟨point, -, run⟩ := bind_eq_some_iff.mp run
  obtain ⟨first, -, run⟩ := bind_eq_some_iff.mp run
  obtain ⟨second, -, run⟩ := bind_eq_some_iff.mp run
  dsimp only at run
  split at run
  · obtain ⟨⟨middle, half⟩, block, run⟩ := bind_eq_some_iff.mp run
    have even : 2 ∣ half := by
      rw [appendDoubles_size rep big block]
      omega
    apply even_of_if run even
    intro last
    rw [appendDoubles_size rep big last]
    omega
  · apply even_of_if run (by omega)
    intro last
    rw [appendDoubles_size rep big last]
    omega

variable [LT α] [DecidableLT α]

theorem storePoly_even (run : storePoly rep big nShapeType line pabyRec = some (after, size)) : 2 ∣ size := by
  obtain ⟨buffer, -, run⟩ := bind_eq_some_iff.mp run
  dsimp only at run
  split at run
  · obtain ⟨⟨middle, half⟩, block, run⟩ := bind_eq_some_iff.mp run
    have even := appendMeasures_even rep big block (by omega)
    apply even_of_if run even
    intro last
    exact appendMeasures_even rep big last (by omega)
  · apply even_of_if run (by omega)
    intro last
    exact appendMeasures_even rep big last (by omega)

theorem storeMultiPoint_even (run : storeMultiPoint rep big nShapeType line pabyRec = some (after, size)) :
    2 ∣ size := by
  obtain ⟨buffer, -, run⟩ := bind_eq_some_iff.mp run
  dsimp only at run
  split at run
  · obtain ⟨⟨middle, half⟩, block, run⟩ := bind_eq_some_iff.mp run
    have even := appendMeasures_even rep big block (by omega)
    apply even_of_if run even
    intro last
    exact appendMeasures_even rep big last even
  · apply even_of_if run (by omega)
    intro last
    exact appendMeasures_even rep big last (by omega)

theorem storeShape_even {shape : ShapeObj α}
    (run : storeShape rep big nShapeType shape pabyRec = some (after, size)) : 2 ∣ size := by
  unfold storeShape at run
  split at run
  · obtain ⟨-, rfl⟩ := Prod.mk.inj (Option.some.inj run)
    omega
  · split at run
    · exact storePoly_even rep big run
    · split at run
      · exact storeMultiPoint_even rep big run
      · split at run
        · exact storePoint_even rep big run
        · obtain ⟨-, rfl⟩ := Prod.mk.inj (Option.some.inj run)
          omega

theorem shapeRecord_size {malloc : Nat → UInt8} {nRecords : Int} {shape : ShapeObj α} {record : List UInt8}
    (made : shapeRecord rep big malloc nShapeType nRecords shape = some (record, nRecordSize)) :
    record.length = nRecordSize + 8 ∧ 2 ∣ nRecordSize := by
  unfold shapeRecord at made
  by_cases early : (countPoints shape.line : Int) * 4 > INT_MAX ∨ (shape.line.length : Int) * 8 > INT_MAX
  · rw [if_pos early] at made
    cases made
  · rw [if_neg early] at made
    obtain ⟨⟨after, size⟩, stores, made⟩ := bind_eq_some_iff.mp made
    dsimp only at made
    by_cases overflows : (size : Int) + 8 > INT_MAX
    · rw [if_pos overflows] at made
      cases made
    · rw [if_neg overflows] at made
      obtain ⟨first, -, made⟩ := bind_eq_some_iff.mp made
      obtain ⟨second, -, made⟩ := bind_eq_some_iff.mp made
      obtain ⟨third, -, made⟩ := bind_eq_some_iff.mp made
      obtain ⟨bytes, reads, made⟩ := bind_eq_some_iff.mp made
      obtain ⟨rfl, rfl⟩ := Prod.mk.inj (Option.some.inj made)
      exact ⟨(holds_of_readAt reads).2, storeShape_even rep big stores⟩

end MapServer
