import Mathlib.Data.List.Forall2
import MapServer.Shape.RecordRoundTrip

namespace MapServer
open Lib.ByteFile List Option

def zTypes : List Int := [SHP_POINTZ, SHP_ARCZ, SHP_POLYGONZ, SHP_MULTIPOINTZ]

def mTypes : List Int := [SHP_POINTM, SHP_ARCM, SHP_POLYGONM, SHP_MULTIPOINTM]

variable {α : Type}

def SamePoint (nShapeType : Int) (point back : PointObj α) : Prop :=
  back.x = point.x ∧ back.y = point.y ∧ (nShapeType ∈ zTypes → back.z = point.z) ∧
    (nShapeType ∈ mTypes → back.m = point.m)

def SameGeometry (nShapeType : Int) (line back : List (LineObj α)) : Prop :=
  List.Forall₂ (List.Forall₂ (SamePoint nShapeType)) line back

def shapeKind (nShapeType : Int) : MS_SHAPE_TYPE :=
  if nShapeType ∈ [SHP_POLYGON, SHP_POLYGONZ, SHP_POLYGONM] then .MS_SHAPE_POLYGON
  else if nShapeType ∈ polyTypes then .MS_SHAPE_LINE
  else .MS_SHAPE_POINT

structure MatchesType (nShapeType : Int) (shape : ShapeObj α) : Prop where
  kind : shape.type = shapeKind nShapeType
  some_line : shape.line ≠ []
  some_points : ∀ part ∈ shape.line, part ≠ []
  multiPoint : nShapeType ∈ multiPointTypes → ∃ points, shape.line = [points]
  point : nShapeType ∈ pointTypes → ∃ point, shape.line = [[point]]

def lengthField (big : Bool) (record : List UInt8) : Option Int :=
  (readAt record 4 4).map (getWord big (!big))

def Survives [LT α] [DecidableLT α] (rep : DoubleRep α) (big : Bool) (malloc : Nat → UInt8)
    (nShapeType nRecords hEntity : Int) (shape : ShapeObj α) : Prop :=
  ∃ record nRecordSize, shapeRecord rep big malloc nShapeType nRecords shape = some (record, nRecordSize) ∧
    (lengthField big record).map (2 * ·) = some ((record.length : Int) - 8) ∧
    ∀ fpSHP (offset : Nat), 0 < offset → Holds fpSHP offset record →
      ∃ back, readShapeAt rep big nShapeType hEntity nRecordSize offset fpSHP = some (back, none) ∧
        SameGeometry nShapeType shape.line back.line

def KeepsGeometry (nShapeType : Int) (line : List (LineObj α)) : Prop :=
  nShapeType = SHP_POINT ∨
  nShapeType = SHP_MULTIPOINT ∧ countPoints line ≤ 50 * 1000 * 1000 ∨
  nShapeType ∈ polyTypes ∧ CountsAccepted line ∧
    (nShapeType ∈ [SHP_POLYGONM, SHP_ARCM] → ∀ point ∈ line.flatten, point.m = point.z)

theorem ends_of_line {line : List (LineObj α)} (some_line : line ≠ []) (some_points : ∀ part ∈ line, part ≠ []) :
    ∃ first last, firstPoint line = some first ∧ lastPoint line = some last := by
  have firstPart := some_points _ (head_mem some_line)
  have lastPart := some_points _ (getLast_mem some_line)
  refine ⟨(line.head some_line).head firstPart, (line.getLast some_line).getLast lastPart, ?_, ?_⟩
  · rw [firstPoint, head?_eq_some_head some_line, bind_some, head?_eq_some_head firstPart]
  · rw [lastPoint, getLast?_eq_some_getLast some_line, bind_some,
      getLast?_eq_some_getLast lastPart]

theorem lengthField_of_holds {big : Bool} {record : List UInt8} {nRecordSize : Nat}
    (holds : Holds record 4 (putWord big (!big) (nRecordSize / 2 : Nat)))
    (length : record.length = nRecordSize + 8) (even : nRecordSize % 2 = 0) (fits : nRecordSize + 8 ≤ INT_MAX) :
    (lengthField big record).map (2 * ·) = some ((record.length : Int) - 8) := by
  unfold INT_MAX at fits
  unfold lengthField
  rw [readAt_of_holds holds (length_putWord ..), map_some, getWord_putWord rfl,
    int32_of_range (by omega) (by omega), map_some]
  congr 1
  omega

theorem sameGeometry_map {nShapeType : Int} {line : List (LineObj α)} {keep : PointObj α → PointObj α} :
    SameGeometry nShapeType line (line.map (List.map keep)) ↔
      ∀ point ∈ line.flatten, SamePoint nShapeType point (keep point) := by
  simp only [SameGeometry, forall₂_map_right_iff, forall₂_same, mem_flatten]
  constructor
  · rintro same point ⟨part, member, inside⟩
    exact same part member point inside
  · intro same part member point inside
    exact same point ⟨part, member, inside⟩

theorem samePoint_keepPoly (rep : DoubleRep α) {nShapeType : Int} (isPoly : nShapeType ∈ polyTypes) (point : PointObj α) :
    SamePoint nShapeType point (keepPolyPoint rep nShapeType point) ↔
      (nShapeType ∈ [SHP_POLYGONM, SHP_ARCM] → point.m = point.z) := by
  have isZ : nShapeType ∈ zTypes ↔ nShapeType ∈ [SHP_POLYGONZ, SHP_ARCZ] := by
    simp only [polyTypes, mem_cons, not_mem_nil, or_false] at isPoly
    rcases isPoly with rfl | rfl | rfl | rfl | rfl | rfl <;> decide
  have isM : nShapeType ∈ mTypes ↔ nShapeType ∈ [SHP_POLYGONM, SHP_ARCM] := by
    simp only [polyTypes, mem_cons, not_mem_nil, or_false] at isPoly
    rcases isPoly with rfl | rfl | rfl | rfl | rfl | rfl <;> decide
  unfold SamePoint keepPolyPoint
  rw [isZ, isM]
  constructor
  · rintro ⟨-, -, -, measure⟩ measured
    have same := measure measured
    rw [if_pos measured] at same
    exact same.symm
  · intro same
    refine ⟨rfl, rfl, fun elevated => if_pos elevated, fun measured => ?_⟩
    rw [if_pos measured]
    exact (same measured).symm

theorem holds_msSmallMalloc {bytes : List UInt8} {pos size : Nat} (inside : pos + bytes.length ≤ size) :
    Holds (msSmallMalloc (fun i => bytes.getD (i - pos) 0) size) pos bytes := by
  have found : ((msSmallMalloc (fun i => bytes.getD (i - pos) 0) size).drop pos).take bytes.length = bytes := by
    apply ext_getElem
    · rw [length_take, length_drop, length_msSmallMalloc]
      omega
    · intro i low high
      simp [msSmallMalloc, high]
  have reads : readAt (msSmallMalloc (fun i => bytes.getD (i - pos) 0) size) pos bytes.length = some bytes := by
    unfold readAt
    rw [length_msSmallMalloc, if_pos inside, found]
  exact (holds_of_readAt reads).1

theorem polyRecordSize_bounds (nShapeType : Int) (line : List (LineObj α)) :
    44 + 4 * line.length + 16 * countPoints line ≤ polyRecordSize nShapeType line ∧
      polyRecordSize nShapeType line ≤ 68 + 4 * line.length + 24 * countPoints line ∧
      polyRecordSize nShapeType line % 2 = 0 := by
  unfold polyRecordSize
  split <;> omega

section Survives
variable [LT α] [DecidableLT α] (rep : DoubleRep α) (big : Bool)
variable {nShapeType : Int} {shape : ShapeObj α}

theorem survives_iff_reads {malloc : Nat → UInt8} {nRecords : Int} (hEntity : Int) {record : List UInt8}
    {nRecordSize : Nat} (run : shapeRecord rep big malloc nShapeType nRecords shape = some (record, nRecordSize))
    (field : Holds record 4 (putWord big (!big) (nRecordSize / 2 : Nat)))
    (length : record.length = nRecordSize + 8) (large : 4 < nRecordSize) (even : nRecordSize % 2 = 0)
    (fits : nRecordSize + 8 ≤ INT_MAX) : Survives rep big malloc nShapeType nRecords hEntity shape ↔
      ∃ back, readRecord rep big nShapeType hEntity record (msInitShape rep) = some (back, none) ∧
        SameGeometry nShapeType shape.line back.line := by
  constructor
  · rintro ⟨other, size, run', -, back⟩
    obtain ⟨rfl, rfl⟩ := Prod.mk.inj (Option.some.inj (run'.symm.trans run))
    have holds : Holds (0 :: other) 1 other := ⟨[0], [], by simp, rfl⟩
    have read := back (0 :: other) 1 Nat.one_pos holds
    rwa [readShapeAt_of_holds rep big nShapeType hEntity holds length large fits Nat.one_pos] at read
  · intro read
    refine ⟨record, nRecordSize, run, lengthField_of_holds field length even fits, ?_⟩
    intro fpSHP offset positive holds
    rwa [readShapeAt_of_holds rep big nShapeType hEntity holds length large fits positive]

theorem poly_survives_iff (malloc : Nat → UInt8) (nRecords hEntity : Int) (isPoly : nShapeType ∈ polyTypes)
    (matching : MatchesType nShapeType shape) :
    Survives rep big malloc nShapeType nRecords hEntity shape ↔ CountsAccepted shape.line ∧
      (nShapeType ∈ [SHP_POLYGONM, SHP_ARCM] → ∀ point ∈ shape.line.flatten, point.m = point.z) := by
  have not_null : shape.type ≠ .MS_SHAPE_NULL := by
    rw [matching.kind, shapeKind, if_pos isPoly]
    split <;> exact MS_SHAPE_TYPE.noConfusion
  obtain ⟨first, last, start, stop⟩ := ends_of_line matching.some_line matching.some_points
  obtain ⟨low, high, even⟩ := polyRecordSize_bounds nShapeType shape.line
  have buffer := length_msSmallMalloc malloc (countPoints shape.line * 4 * 8 + shape.line.length * 8 + 128)
  obtain ⟨after, store, length, stored⟩ := storePoly_stored rep big nShapeType start stop (Nat.le_of_eq buffer.symm)
  have stores : storeShape rep big nShapeType shape
      (msSmallMalloc malloc (countPoints shape.line * 4 * 8 + shape.line.length * 8 + 128)) =
      some (after, polyRecordSize nShapeType shape.line) := by
    rw [storeShape, if_neg not_null, if_pos isPoly, store]
  by_cases fits : RecordFits shape.line (polyRecordSize nShapeType shape.line)
  · obtain ⟨record, run, size, field, kept⟩ := shapeRecord_stored rep big nRecords not_null stores
      (by omega) (by omega) fits
    have holds : HoldsPoly rep big nShapeType shape.line record := by
      refine ⟨stored.of_kept rep big fun past inside => kept past (by omega), fun measured => ?_⟩
      apply kept (by omega) _ (stored.measures measured)
      rw [length_flatMap_of_even (length_putDouble rep big big), length_map, ← countPoints_eq,
        polyRecordSize, if_pos measured]
      omega
    rw [survives_iff_reads rep big hEntity run field size (by omega) even fits.2.2, readRecord, if_pos isPoly]
    by_cases accepted : CountsAccepted shape.line
    · obtain ⟨back, read, line⟩ := readPoly_of_holds rep big hEntity (msInitShape rep) matching.some_points
        holds size accepted
      simp only [read, Option.some.injEq, Prod.mk.injEq, and_true, exists_eq_left', line, sameGeometry_map,
        samePoint_keepPoly rep isPoly, accepted, true_and]
      exact ⟨fun same measured point member => same point member measured,
        fun same point member measured => same measured point member⟩
    · obtain ⟨back, error, read⟩ := readPoly_refused rep big hEntity (msInitShape rep) holds fits size accepted
      simp [read, accepted]
  · have overflow := shapeRecord_overflow rep big nRecords stores fits
    constructor
    · rintro ⟨record, size, run, -⟩
      rw [overflow] at run
      cases run
    · rintro ⟨⟨points, parts⟩, -⟩
      refine absurd ?_ fits
      unfold RecordFits INT_MAX
      omega

theorem multiPoint_survives_iff (malloc : Nat → UInt8) (nRecords hEntity : Int) {points : LineObj α}
    (matching : MatchesType SHP_MULTIPOINT shape) (line : shape.line = [points]) :
    Survives rep big malloc SHP_MULTIPOINT nRecords hEntity shape ↔ points.length ≤ 50 * 1000 * 1000 := by
  have not_null : shape.type ≠ .MS_SHAPE_NULL := by
    rw [matching.kind]
    decide
  have some_point : points ≠ [] := matching.some_points points (by rw [line]; exact mem_singleton.mpr rfl)
  have total : countPoints shape.line = points.length := by rw [line, countPoints_single]
  have buffer := length_msSmallMalloc malloc (countPoints shape.line * 4 * 8 + shape.line.length * 8 + 128)
  obtain ⟨after, store, length, ⟨rect, bounds⟩, nPoints, coordinates, -⟩ := storeMultiPointPoints_stored rep big
    some_point (msSmallMalloc malloc (countPoints shape.line * 4 * 8 + shape.line.length * 8 + 128)) (by omega)
  have stores : storeShape rep big SHP_MULTIPOINT shape
      (msSmallMalloc malloc (countPoints shape.line * 4 * 8 + shape.line.length * 8 + 128)) =
      some (after, 40 + 16 * points.length) := by
    rw [storeShape, if_neg not_null, if_neg (by decide), if_pos (by decide), storeMultiPoint]
    rw [line] at store ⊢
    simp only [store, bind_eq_bind, bind_some]
    rw [if_neg (by decide), if_neg (by decide), countPoints_single]
  by_cases fits : RecordFits shape.line (40 + 16 * points.length)
  · obtain ⟨record, run, size, field, kept⟩ := shapeRecord_stored rep big nRecords not_null stores
      (by omega) (by omega) fits
    have bounds' := kept (Nat.le_refl _) (by rw [length_putRect]; omega) bounds
    have nPoints' := kept (by omega) (by rw [length_putWord]; omega) nPoints
    have coordinates' := kept (by omega)
      (by rw [length_flatMap_of_even (length_coordinateBytes rep big)]; omega) coordinates
    rw [survives_iff_reads rep big hEntity run field size (by omega) (by omega) fits.2.2, readRecord,
      if_neg (by decide), if_pos (by decide)]
    by_cases accepted : points.length ≤ 50 * 1000 * 1000
    · obtain ⟨back, read, back_line⟩ := readMultiPoint_of_holds rep big hEntity (msInitShape rep) bounds' nPoints'
        coordinates' accepted
      refine iff_of_true ⟨back, read, ?_⟩ accepted
      rw [line, back_line]
      apply sameGeometry_map.mpr
      intro point _
      exact ⟨rfl, rfl, fun impossible => absurd impossible (by decide), fun impossible => absurd impossible (by decide)⟩
    · obtain ⟨points, -, -⟩ := fits
      obtain ⟨back, error, read⟩ := readMultiPoint_refused rep big SHP_MULTIPOINT hEntity (msInitShape rep) bounds'
        nPoints' (by unfold INT_MAX at points; omega) accepted
      simp [read, accepted]
  · have overflow := shapeRecord_overflow rep big nRecords stores fits
    constructor
    · rintro ⟨record, size, run, -⟩
      rw [overflow] at run
      cases run
    · intro accepted
      refine absurd ?_ fits
      unfold RecordFits INT_MAX
      rw [total, line, length_singleton]
      omega

theorem lost_of_untouched [Nontrivial α] (nRecords hEntity : Int) (not_null : shape.type ≠ .MS_SHAPE_NULL)
    (nRecordSize : Nat) (large : 12 ≤ nRecordSize) (even : nRecordSize % 2 = 0)
    (room : nRecordSize + 8 ≤ countPoints shape.line * 4 * 8 + shape.line.length * 8 + 128)
    (stores : ∀ pabyRec : List UInt8,
      pabyRec.length = countPoints shape.line * 4 * 8 + shape.line.length * 8 + 128 → ∃ after,
      storeShape rep big nShapeType shape pabyRec = some (after, nRecordSize) ∧ after.length = pabyRec.length ∧
      ∀ {place other}, nRecordSize ≤ place → Holds pabyRec place other → Holds after place other)
    (value : α)
    (reads : ∀ record back, readRecord rep big nShapeType hEntity record (msInitShape rep) = some (back, none) →
      record.length = nRecordSize + 8 → SameGeometry nShapeType shape.line back.line →
      readDoubleAt rep big record nRecordSize = some value) :
    ∃ malloc, ¬ Survives rep big malloc nShapeType nRecords hEntity shape := by
  obtain ⟨garbage, differs⟩ := exists_ne value
  have width := length_putDouble rep big big garbage
  refine ⟨fun i => (putDouble rep big big garbage).getD (i - nRecordSize) 0, fun survives => ?_⟩
  have buffer := length_msSmallMalloc (fun i => (putDouble rep big big garbage).getD (i - nRecordSize) 0)
    (countPoints shape.line * 4 * 8 + shape.line.length * 8 + 128)
  obtain ⟨after, store, length, untouched⟩ := stores _ buffer
  by_cases fits : RecordFits shape.line nRecordSize
  · obtain ⟨record, run, size, field, kept⟩ := shapeRecord_stored rep big nRecords not_null store
      (by omega) (by omega) fits
    rw [survives_iff_reads rep big hEntity run field size (by omega) even fits.2.2] at survives
    obtain ⟨back, read, same⟩ := survives
    have tail := kept (by omega) (by omega) (untouched (Nat.le_refl _) (holds_msSmallMalloc (by omega)))
    have here := readDoubleAt_of_holds rep big tail
    rw [reads record back read size same, Option.some.injEq] at here
    exact differs here.symm
  · obtain ⟨record, size, run, -⟩ := survives
    rw [shapeRecord_overflow rep big nRecords store fits] at run
    cases run

theorem multiPoint_measure_lost [Nontrivial α] (nRecords hEntity : Int) {points : LineObj α}
    (measured : nShapeType ∈ [SHP_MULTIPOINTM, SHP_MULTIPOINTZ]) (matching : MatchesType nShapeType shape)
    (line : shape.line = [points]) : ∃ malloc, ¬ Survives rep big malloc nShapeType nRecords hEntity shape := by
  have some_point : points ≠ [] := matching.some_points points (by rw [line]; exact mem_singleton.mpr rfl)
  have positive : 0 < points.length := length_pos_of_ne_nil some_point
  have total : countPoints shape.line = points.length := by rw [line, countPoints_single]
  have isMulti : nShapeType ∈ multiPointTypes := mem_cons_of_mem _ measured
  simp only [mem_cons, not_mem_nil, or_false] at measured
  have notPoly : nShapeType ∉ polyTypes := by rcases measured with rfl | rfl <;> decide
  have not_null : shape.type ≠ .MS_SHAPE_NULL := by
    rw [matching.kind]
    rcases measured with rfl | rfl <;> decide
  let last := points[points.length - 1]
  apply lost_of_untouched rep big nRecords hEntity not_null (56 + 24 * points.length) (by omega)
    (by omega) (by omega) _ (if nShapeType = SHP_MULTIPOINTM then last.m else last.z)
  · intro record back read length same
    rw [readRecord, if_neg notPoly, if_pos isMulti] at read
    obtain ⟨nPoints, other, back_line, loop⟩ := readMultiPoint_line rep big read
    rw [line, back_line] at same
    obtain ⟨lengths, same⟩ := forall₂_iff_get.mp (forall₂_cons.mp same).1
    have count := length_readPoints loop
    have lastRead := readPoints_get loop (j := points.length - 1) (by omega)
    rw [Nat.zero_add, getElem?_eq_getElem (by omega)] at lastRead
    obtain ⟨-, -, keptZ, keptM⟩ := same (points.length - 1) (by omega) (by omega)
    obtain ⟨readM, readZ⟩ := readMultiPointPoint_measure rep big lastRead
    have place : 48 + 16 * nPoints + 16 + (points.length - 1) * 8 = 56 + 24 * points.length := by omega
    rw [place] at readM readZ
    rcases measured with rfl | rfl
    · rw [if_pos rfl, readM rfl]
      exact congrArg some (keptM (by decide))
    · rw [if_neg (by decide), readZ rfl]
      exact congrArg some (keptZ (by decide))
  · intro pabyRec buffer
    obtain ⟨after, store, length, untouched⟩ := storeMultiPoint_untouched rep big
      (by simpa using measured) some_point pabyRec (by omega)
    refine ⟨after, ?_, length, untouched⟩
    rw [storeShape, if_neg not_null, if_neg notPoly, if_pos isMulti, line, store]

theorem point_measure_lost [Nontrivial α] (nRecords hEntity : Int) {point : PointObj α}
    (measured : nShapeType ∈ [SHP_POINTM, SHP_POINTZ]) (matching : MatchesType nShapeType shape)
    (line : shape.line = [[point]]) : ∃ malloc, ¬ Survives rep big malloc nShapeType nRecords hEntity shape := by
  have isPoint : nShapeType ∈ pointTypes := mem_cons_of_mem _ measured
  simp only [mem_cons, not_mem_nil, or_false] at measured
  have notPoly : nShapeType ∉ polyTypes := by rcases measured with rfl | rfl <;> decide
  have notMulti : nShapeType ∉ multiPointTypes := by rcases measured with rfl | rfl <;> decide
  have not_null : shape.type ≠ .MS_SHAPE_NULL := by
    rw [matching.kind]
    rcases measured with rfl | rfl <;> decide
  apply lost_of_untouched rep big nRecords hEntity not_null 28 (by omega)
    (by omega) (by omega) _ (if nShapeType = SHP_POINTM then point.m else point.z)
  · intro record back read length same
    rw [readRecord, if_neg notPoly, if_neg notMulti, if_pos isPoint] at read
    obtain ⟨other, back_line, readM, readZ⟩ := readPoint_measure rep big length read
    rw [line, back_line] at same
    obtain ⟨-, -, keptZ, keptM⟩ := (forall₂_cons.mp (forall₂_cons.mp same).1).1
    rcases measured with rfl | rfl
    · rw [if_pos rfl, readM rfl]
      exact congrArg some (keptM (by decide))
    · rw [if_neg (by decide), readZ rfl]
      exact congrArg some (keptZ (by decide))
  · intro pabyRec buffer
    obtain ⟨after, store, length, untouched⟩ := storePoint_untouched rep big
      (by simpa using measured) point pabyRec (by omega)
    refine ⟨after, ?_, length, untouched⟩
    rw [storeShape, if_neg not_null, if_neg notPoly, if_neg notMulti, if_pos isPoint, line, store]

theorem point_survives (malloc : Nat → UInt8) (nRecords hEntity : Int) {point : PointObj α}
    (matching : MatchesType SHP_POINT shape) (line : shape.line = [[point]]) :
    Survives rep big malloc SHP_POINT nRecords hEntity shape := by
  have not_null : shape.type ≠ .MS_SHAPE_NULL := by
    rw [matching.kind]
    decide
  have total : countPoints shape.line = 1 := by
    rw [line]
    rfl
  have parts : shape.line.length = 1 := by rw [line, length_singleton]
  have buffer := length_msSmallMalloc malloc (countPoints shape.line * 4 * 8 + shape.line.length * 8 + 128)
  obtain ⟨after, store, length, coordinates⟩ := storePoint_stored rep big point
    (msSmallMalloc malloc (countPoints shape.line * 4 * 8 + shape.line.length * 8 + 128)) (by omega)
  have stores : storeShape rep big SHP_POINT shape
      (msSmallMalloc malloc (countPoints shape.line * 4 * 8 + shape.line.length * 8 + 128)) = some (after, 20) := by
    rw [storeShape, if_neg not_null, if_neg (by decide), if_neg (by decide), if_pos (by decide), line]
    rwa [line] at store
  have fits : RecordFits shape.line 20 := by
    unfold RecordFits INT_MAX
    omega
  obtain ⟨record, run, size, field, kept⟩ := shapeRecord_stored rep big nRecords not_null stores
    (by omega) (by omega) fits
  have holds := kept (Nat.le_refl _) (by rw [length_coordinateBytes]) coordinates
  obtain ⟨back, read, back_line⟩ := readPoint_of_holds rep big hEntity (msInitShape rep) size holds
  rw [survives_iff_reads rep big hEntity run field size (by omega) (by omega) fits.2.2, readRecord,
    if_neg (by decide), if_neg (by decide), if_pos (by decide)]
  refine ⟨back, read, ?_⟩
  rw [line, back_line]
  apply sameGeometry_map.mpr
  intro point _
  exact ⟨rfl, rfl, fun impossible => absurd impossible (by decide), fun impossible => absurd impossible (by decide)⟩

/-- Whatever the buffer held, and on hosts of either byte order. -/
theorem geometry_survives_iff [Nontrivial α] {nShapeType : Int} (nRecords hEntity : Int) {shape : ShapeObj α}
    (writable : nShapeType ∈ polyTypes ∨ nShapeType ∈ multiPointTypes ∨ nShapeType ∈ pointTypes)
    (matching : MatchesType nShapeType shape) :
    (∀ malloc, Survives rep big malloc nShapeType nRecords hEntity shape) ↔
      KeepsGeometry nShapeType shape.line := by
  have notKept (others : nShapeType ≠ SHP_POINT ∧ nShapeType ≠ SHP_MULTIPOINT ∧ nShapeType ∉ polyTypes) :
      ¬KeepsGeometry nShapeType shape.line := by
    rintro (isPoint | ⟨isMulti, -⟩ | ⟨isPoly, -⟩)
    · exact others.1 isPoint
    · exact others.2.1 isMulti
    · exact others.2.2 isPoly
  rcases writable with isPoly | isMulti | isPoint
  · have others : nShapeType ≠ SHP_POINT ∧ nShapeType ≠ SHP_MULTIPOINT := by
      simp only [polyTypes, List.mem_cons, List.not_mem_nil, or_false] at isPoly
      rcases isPoly with rfl | rfl | rfl | rfl | rfl | rfl <;> decide
    simp only [poly_survives_iff rep big _ nRecords hEntity isPoly matching, forall_const, KeepsGeometry, others.1,
      others.2, isPoly, false_and, false_or, true_and]
  · obtain ⟨points, line⟩ := matching.multiPoint isMulti
    rcases List.mem_cons.mp isMulti with rfl | measured
    · simp only [multiPoint_survives_iff rep big _ nRecords hEntity matching line, forall_const]
      unfold KeepsGeometry
      rw [line, countPoints_single]
      constructor
      · intro accepted
        exact .inr (.inl ⟨rfl, accepted⟩)
      · rintro (impossible | ⟨-, accepted⟩ | ⟨impossible, -⟩)
        · exact absurd impossible (by decide)
        · exact accepted
        · exact absurd impossible (by decide)
    · obtain ⟨malloc, lost⟩ := multiPoint_measure_lost rep big nRecords hEntity measured matching line
      refine iff_of_false (fun survives => lost (survives malloc)) (notKept ?_)
      simp only [List.mem_cons, List.not_mem_nil, or_false] at measured
      rcases measured with rfl | rfl <;> decide
  · obtain ⟨point, line⟩ := matching.point isPoint
    rcases List.mem_cons.mp isPoint with rfl | measured
    · exact iff_of_true (fun malloc => point_survives rep big malloc nRecords hEntity matching line) (.inl rfl)
    · obtain ⟨malloc, lost⟩ := point_measure_lost rep big nRecords hEntity measured matching line
      refine iff_of_false (fun survives => lost (survives malloc)) (notKept ?_)
      simp only [List.mem_cons, List.not_mem_nil, or_false] at measured
      rcases measured with rfl | rfl <;> decide

def sampleRoute (m : BitVec 64) : ShapeObj (BitVec 64) where
  line := [[{ x := 1, y := 2, z := 0, m }]]
  bounds := { minx := 1, miny := 2, maxx := 1, maxy := 2 }
  type := .MS_SHAPE_LINE
  index := -1

theorem sampleRoute_matches (m : BitVec 64) : MatchesType SHP_ARCM (sampleRoute m) where
  kind := rfl
  some_line := by simp [sampleRoute]
  some_points := by simp [sampleRoute]
  multiPoint := fun impossible => absurd impossible (by decide)
  point := fun impossible => absurd impossible (by decide)

theorem geometry_survives_iff_route :
    (∀ malloc, Survives bitsRep false malloc SHP_ARCM 1 0 (sampleRoute 0)) ↔
      KeepsGeometry SHP_ARCM (sampleRoute 0).line := by
  have : Nontrivial (BitVec 64) := ⟨0, 1, by decide⟩
  exact geometry_survives_iff bitsRep false 1 0 (.inl (by decide)) (sampleRoute_matches 0)

theorem geometry_lost_route :
    ¬ ∀ (malloc : Nat → UInt8) (nShapeType nRecords hEntity : Int) (shape : ShapeObj (BitVec 64)),
      nShapeType ∈ polyTypes ∨ nShapeType ∈ multiPointTypes ∨ nShapeType ∈ pointTypes →
      MatchesType nShapeType shape → Survives bitsRep false malloc nShapeType nRecords hEntity shape := by
  intro always
  have survives := always (fun _ => 0) SHP_ARCM 1 0 (sampleRoute 5) (.inl (by decide)) (sampleRoute_matches 5)
  rw [poly_survives_iff bitsRep false _ 1 0 (by decide) (sampleRoute_matches 5)] at survives
  have same := survives.2 (by decide) { x := 1, y := 2, z := 0, m := 5 } (by simp [sampleRoute])
  revert same
  decide

end Survives
end MapServer
