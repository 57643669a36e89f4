import MapServer.Shape.ReadRecord
import MapServer.Shape.RecordStores

namespace MapServer
open Lib.ByteFile List Option

variable {α : Type} (rep : DoubleRep α) (big : Bool)

theorem readWordAt_of_holds {record : List UInt8} {pos : Nat} {value : Int}
    (holds : Holds record pos (putWord big big value)) (low : 0 ≤ value) (high : value < 2147483648) :
    readWordAt big record pos = some value := by
  unfold readWordAt
  rw [readAt_of_holds holds (length_putWord ..), map_some, getWord_putWord rfl, int32_of_range (by omega) high]

theorem readDoubleAt_of_holds {record : List UInt8} {pos : Nat} {value : α}
    (holds : Holds record pos (putDouble rep big big value)) :
    readDoubleAt rep big record pos = some value := by
  unfold readDoubleAt
  rw [readAt_of_holds holds (length_putDouble ..), map_some, getDouble_putDouble rep rfl]

theorem readRectAt_of_holds {record : List UInt8} {pos : Nat} {rect : RectObj α}
    (holds : Holds record pos (putRect rep big big rect)) :
    readRectAt rep big record pos = some rect := by
  unfold readRectAt
  rw [readAt_of_holds holds (length_putRect ..), map_some, getRect_putRect rep rfl]

theorem readXY_of_holds {record : List UInt8} {pos : Nat} {point : PointObj α}
    (holds : Holds record pos (coordinateBytes rep big point)) :
    readDoubleAt rep big record pos = some point.x ∧
      readDoubleAt rep big record (pos + 8) = some point.y := by
  obtain ⟨x, y⟩ := holds_append holds
  rw [length_putDouble] at y
  exact ⟨readDoubleAt_of_holds rep big x, readDoubleAt_of_holds rep big y⟩

theorem readPoints_of_reads {readPoint : Nat → Option (PointObj α)} {keep : PointObj α → PointObj α} {k : Nat}
    {points : LineObj α} (reads : ∀ j, (inside : j < points.length) → readPoint (k + j) = some (keep points[j])) :
    readPoints readPoint k points.length = some (points.map keep) := by
  induction points generalizing k with
  | nil => rfl
  | cons point rest ih =>
    have first : readPoint k = some (keep point) := reads 0 (Nat.succ_pos _)
    have later : readPoints readPoint (k + 1) rest.length = some (rest.map keep) := by
      apply ih
      intro j inside
      rw [Nat.add_right_comm]
      exact reads (j + 1) (Nat.succ_lt_succ inside)
    rw [length_cons, readPoints, first, later]
    rfl

theorem length_readPoints {readPoint : Nat → Option (PointObj α)} {k numpoints : Nat} {line : LineObj α}
    (reads : readPoints readPoint k numpoints = some line) : line.length = numpoints := by
  induction numpoints generalizing k line with
  | zero =>
    cases reads
    rfl
  | succ numpoints ih =>
    simp only [readPoints, bind_eq_bind, bind_eq_some_iff] at reads
    obtain ⟨point, -, rest, later, same⟩ := reads
    cases same
    rw [length_cons, ih later]

theorem readPoints_get {readPoint : Nat → Option (PointObj α)} {k numpoints : Nat} {points : LineObj α}
    (reads : readPoints readPoint k numpoints = some points) {j : Nat} (inside : j < numpoints) :
    readPoint (k + j) = points[j]? := by
  induction numpoints generalizing k points j with
  | zero => cases inside
  | succ numpoints ih =>
    simp only [readPoints, bind_eq_bind, bind_eq_some_iff] at reads
    obtain ⟨point, first, rest, later, same⟩ := reads
    cases same
    cases j with
    | zero => exact first
    | succ j =>
      have found := ih later (Nat.lt_of_succ_lt_succ inside)
      rwa [Nat.add_right_comm] at found

theorem partStarts_range {start : Int} {line : List (LineObj α)} :
    ∀ part ∈ partStarts start line, start ≤ part ∧ part ≤ start + countPoints line := by
  induction line generalizing start with
  | nil => simp [partStarts]
  | cons first rest ih =>
    have total : countPoints (first :: rest) = first.length + countPoints rest := rfl
    intro part member
    rw [total]
    rcases mem_cons.mp member with rfl | later
    · omega
    · have bounds := ih part later
      omega

theorem readParts_of_reads {readPoint : Nat → Option (PointObj α)} {keep : PointObj α → PointObj α}
    (hEntity : Int) (i : Nat) {nPoints k : Nat} {line : List (LineObj α)} (some_points : ∀ part ∈ line, part ≠ [])
    (total : nPoints = k + countPoints line)
    (reads : ∀ j, (inside : j < line.flatten.length) → readPoint (k + j) = some (keep line.flatten[j])) :
    readParts readPoint hEntity nPoints i k (partStarts k line) = some (.ok (line.map (List.map keep))) := by
  induction line generalizing i k with
  | nil => rfl
  | cons first rest ih =>
    rw [show countPoints (first :: rest) = first.length + countPoints rest from rfl] at total
    simp only [flatten_cons] at reads
    have positive : 0 < first.length := length_pos_of_ne_nil (some_points first mem_cons_self)
    have stop : (partStarts (k + first.length) rest).headD nPoints = ((k + first.length : Nat) : Int) := by
      cases rest with
      | nil =>
        rw [show countPoints ([] : List (LineObj α)) = 0 from rfl] at total
        simp [partStarts, total]
      | cons second rest => simp [partStarts]
    have here : readPoints readPoint k first.length = some (first.map keep) := by
      apply readPoints_of_reads
      intro j inside
      have found := reads j (by rw [length_append]; omega)
      rwa [getElem_append_left inside] at found
    have later := ih (i + 1) (k := k + first.length)
      (fun part member => some_points part (mem_cons_of_mem _ member)) (by omega) (by
        intro j inside
        have found := reads (first.length + j) (by rw [length_append]; omega)
        rw [getElem_append_right (by omega)] at found
        simpa only [Nat.add_sub_cancel_left, Nat.add_assoc] using found)
    push_cast at later
    rw [partStarts, readParts]
    simp only [stop]
    rw [if_neg (by omega)]
    rw [show (((k + first.length : Nat) : Int) - k).toNat = first.length by omega]
    simp only [here, later, bind_eq_bind, bind_some]
    rfl

def keepPolyPoint (nShapeType : Int) (point : PointObj α) : PointObj α where
  x := point.x
  y := point.y
  z := if nShapeType ∈ [SHP_POLYGONZ, SHP_ARCZ] then point.z else rep.ofBits 0
  m := if nShapeType ∈ [SHP_POLYGONM, SHP_ARCM] then point.z else rep.ofBits 0

def CountsAccepted (line : List (LineObj α)) : Prop :=
  countPoints line ≤ 50 * 1000 * 1000 ∧ line.length ≤ 10 * 1000 * 1000

section Poly
variable {nShapeType : Int} {line : List (LineObj α)} {record : List UInt8}

theorem readMeasure_of_holds (holds : HoldsPoly rep big nShapeType line record)
    (length : record.length = polyRecordSize nShapeType line + 8) (accepted : CountsAccepted line)
    (measured : nShapeType ∈ measuredPolyTypes) {k : Nat} (inside : k < line.flatten.length) :
    readMeasure rep big record (44 + 8 + 4 * line.length + 16 * countPoints line) (countPoints line) k =
      some line.flatten[k].z := by
  obtain ⟨points, parts⟩ := accepted
  rw [polyRecordSize, if_pos measured] at length
  have block := holds_flatMap (length_putDouble rep big big) (holds.measures measured)
    (i := k) (by rwa [length_map])
  rw [getElem_map] at block
  have reads := readDoubleAt_of_holds rep big block
  unfold readMeasure checkedInt
  rw [if_pos (by unfold INT_MAX; omega)]
  simp only [bind_eq_bind, bind_some]
  rw [readIf, if_pos (by omega), ← reads]
  congr 1
  omega

theorem readPolyPoint_of_holds (holds : HoldsPoly rep big nShapeType line record)
    (length : record.length = polyRecordSize nShapeType line + 8) (accepted : CountsAccepted line) {k : Nat}
    (inside : k < line.flatten.length) :
    readPolyPoint rep big nShapeType record line.length (countPoints line) k =
      some (keepPolyPoint rep nShapeType line.flatten[k]) := by
  have here := holds_flatMap (length_coordinateBytes rep big) holds.coordinates inside
  obtain ⟨x, y⟩ := readXY_of_holds rep big here
  rw [show 52 + 4 * line.length + 16 * k = 44 + 4 * line.length + 8 + k * 16 by omega] at x y
  have measure := readMeasure_of_holds rep big holds length accepted
  unfold readPolyPoint keepPolyPoint readIf
  simp only [x, y, bind_eq_bind, bind_some]
  by_cases isZ : nShapeType ∈ [SHP_POLYGONZ, SHP_ARCZ]
  · have notM : nShapeType ∉ [SHP_POLYGONM, SHP_ARCM] := by
      simp only [mem_cons, not_mem_nil, or_false] at isZ
      rcases isZ with rfl | rfl <;> decide
    simp only [if_pos isZ, if_neg notM, measure (mem_append_left _ isZ) inside, bind_some]
  · by_cases isM : nShapeType ∈ [SHP_POLYGONM, SHP_ARCM]
    · simp only [if_neg isZ, if_pos isM, measure (mem_append_right [_, _] isM) inside, bind_some]
    · simp only [if_neg isZ, if_neg isM, bind_some]

theorem readPoly_of_holds (hEntity : Int) (shape : ShapeObj α) (some_points : ∀ part ∈ line, part ≠ [])
    (holds : HoldsPoly rep big nShapeType line record)
    (length : record.length = polyRecordSize nShapeType line + 8) (accepted : CountsAccepted line) :
    ∃ back, readPoly rep big nShapeType hEntity record shape = some (back, none) ∧
      back.line = line.map (List.map (keepPolyPoint rep nShapeType)) := by
  have counts := accepted
  obtain ⟨points, parts⟩ := counts
  obtain ⟨rect, bounds⟩ := holds.bounds
  have fits : 52 + 4 * line.length + 16 * countPoints line ≤ record.length := by
    rw [length, polyRecordSize]
    split <;> omega
  have range : ∀ part ∈ partStarts 0 line, 0 ≤ part ∧ part < 2147483648 := by
    intro part member
    have bounds := partStarts_range part member
    omega
  have starts : readAt record 52 (4 * line.length) =
      some ((partStarts 0 line).flatMap (putWord big big)) :=
    readAt_of_holds holds.starts (length_starts ..)
  have words : getWords big big line.length
      ((partStarts 0 line).flatMap (putWord big big)) = partStarts 0 line := by
    have agree := getWords_putWords (rfl : (big ^^ big) = (big ^^ big)) (partStarts 0 line)
    rwa [length_partStarts, map_int32_of_range range] at agree
  have loop : readParts (readPolyPoint rep big nShapeType record line.length (countPoints line)) hEntity
      (countPoints line) 0 0 (partStarts 0 line) =
      some (.ok (line.map (List.map (keepPolyPoint rep nShapeType)))) := by
    apply readParts_of_reads (k := 0) hEntity 0 some_points (Nat.zero_add _).symm
    intro j inside
    rw [Nat.zero_add]
    exact readPolyPoint_of_holds rep big holds length accepted inside
  unfold readPoly
  rw [if_neg (by omega)]
  simp only [readRectAt_of_holds rep big bounds,
    readWordAt_of_holds big holds.nPoints (by omega) (by omega),
    readWordAt_of_holds big holds.nParts (by omega) (by omega), bind_eq_bind, bind_some]
  rw [if_neg (by omega), checkedInt_of_range (by omega) (by unfold INT_MAX; omega)]
  simp only [bind_some]
  rw [if_neg (by omega)]
  simp only [Int.toNat_natCast, starts, words, loop, bind_some]
  exact ⟨_, rfl, rfl⟩

theorem readPoly_refused (hEntity : Int) (shape : ShapeObj α)
    (holds : HoldsPoly rep big nShapeType line record) (fits : RecordFits line (polyRecordSize nShapeType line))
    (length : record.length = polyRecordSize nShapeType line + 8) (refused : ¬ CountsAccepted line) :
    ∃ back error, readPoly rep big nShapeType hEntity record shape = some (back, some error) := by
  obtain ⟨points, parts, -⟩ := fits
  obtain ⟨rect, bounds⟩ := holds.bounds
  unfold INT_MAX at points parts
  have size : 52 ≤ record.length := by
    rw [length, polyRecordSize]
    split <;> omega
  unfold CountsAccepted at refused
  unfold readPoly
  rw [if_neg (by omega)]
  simp only [readRectAt_of_holds rep big bounds,
    readWordAt_of_holds big holds.nPoints (by omega) (by omega),
    readWordAt_of_holds big holds.nParts (by omega) (by omega), bind_eq_bind, bind_some]
  rw [if_pos (by omega)]
  exact ⟨_, _, rfl⟩

end Poly

theorem readMultiPoint_of_holds (hEntity : Int) (shape : ShapeObj α) {points : LineObj α} {record : List UInt8}
    {rect : RectObj α} (bounds : Holds record 12 (putRect rep big big rect))
    (nPoints : Holds record 44 (putWord big big points.length))
    (coordinates : Holds record 48 (points.flatMap (coordinateBytes rep big)))
    (accepted : points.length ≤ 50 * 1000 * 1000) :
    ∃ back, readMultiPoint rep big SHP_MULTIPOINT hEntity record shape = some (back, none) ∧
      back.line = [points.map fun point => { point with z := rep.ofBits 0, m := rep.ofBits 0 }] := by
  have size := holds_length coordinates
  rw [length_flatMap_of_even (length_coordinateBytes rep big)] at size
  have loop : readPoints (readMultiPointPoint rep big SHP_MULTIPOINT record points.length) 0 points.length =
      some (points.map fun point => { point with z := rep.ofBits 0, m := rep.ofBits 0 }) := by
    apply readPoints_of_reads
    intro j inside
    obtain ⟨x, y⟩ := readXY_of_holds rep big
      (holds_flatMap (length_coordinateBytes rep big) coordinates inside)
    rw [Nat.zero_add]
    unfold readMultiPointPoint readIf
    simp only [x, y, bind_eq_bind, bind_some]
    rw [if_neg (by decide), if_neg (by decide)]
    rfl
  unfold readMultiPoint
  rw [if_neg (by omega)]
  simp only [readRectAt_of_holds rep big bounds,
    readWordAt_of_holds big nPoints (by omega) (by omega), bind_eq_bind, bind_some]
  rw [if_neg (by omega), checkedInt_of_range (by omega) (by unfold INT_MAX; omega)]
  simp only [bind_some]
  rw [if_neg (by decide), checkedInt_of_range (by omega) (by unfold INT_MAX; omega)]
  simp only [bind_some]
  rw [if_neg (by omega)]
  simp only [Int.toNat_natCast, loop, bind_some]
  exact ⟨_, rfl, rfl⟩

theorem readMultiPoint_refused (nShapeType hEntity : Int) (shape : ShapeObj α) {points : LineObj α}
    {record : List UInt8} {rect : RectObj α} (bounds : Holds record 12 (putRect rep big big rect))
    (nPoints : Holds record 44 (putWord big big points.length)) (fits : points.length < 2147483648)
    (refused : ¬ points.length ≤ 50 * 1000 * 1000) :
    ∃ back error, readMultiPoint rep big nShapeType hEntity record shape = some (back, some error) := by
  have size := holds_length nPoints
  rw [length_putWord] at size
  unfold readMultiPoint
  rw [if_neg (by omega)]
  simp only [readRectAt_of_holds rep big bounds,
    readWordAt_of_holds big nPoints (by omega) (by omega), bind_eq_bind, bind_some]
  rw [if_pos (by omega)]
  exact ⟨_, _, rfl⟩

theorem readMultiPoint_line {nShapeType hEntity : Int} {record : List UInt8} {shape back : ShapeObj α}
    (reads : readMultiPoint rep big nShapeType hEntity record shape = some (back, none)) :
    ∃ nPoints line, back.line = [line] ∧
      readPoints (readMultiPointPoint rep big nShapeType record nPoints) 0 nPoints = some line := by
  unfold readMultiPoint at reads
  by_cases short : record.length < 44 + 4
  · rw [if_pos short] at reads
    cases reads
  · rw [if_neg short] at reads
    simp only [bind_eq_bind, bind_eq_some_iff] at reads
    obtain ⟨rect, -, nPoints, -, reads⟩ := reads
    by_cases outside : nPoints < 0 ∨ nPoints > 50 * 1000 * 1000
    · rw [if_pos outside] at reads
      cases reads
    · rw [if_neg outside] at reads
      simp only [bind_eq_some_iff] at reads
      obtain ⟨-, -, required, -, reads⟩ := reads
      by_cases large : required > record.length
      · rw [if_pos large] at reads
        cases reads
      · rw [if_neg large] at reads
        simp only [bind_eq_some_iff] at reads
        obtain ⟨line, loop, same⟩ := reads
        cases same
        exact ⟨nPoints.toNat, line, rfl, loop⟩

theorem readMultiPointPoint_measure {nShapeType : Int} {record : List UInt8} {nPoints i : Nat} {point : PointObj α}
    (reads : readMultiPointPoint rep big nShapeType record nPoints i = some point) :
    (nShapeType = SHP_MULTIPOINTM →
      readDoubleAt rep big record (48 + 16 * nPoints + 16 + i * 8) = some point.m) ∧
    (nShapeType = SHP_MULTIPOINTZ →
      readDoubleAt rep big record (48 + 16 * nPoints + 16 + i * 8) = some point.z) := by
  simp only [readMultiPointPoint, bind_eq_bind, bind_eq_some_iff] at reads
  obtain ⟨x, -, y, -, z, readZ, m, readM, same⟩ := reads
  cases same
  refine ⟨fun isM => ?_, fun isZ => ?_⟩
  · rwa [readIf, if_pos isM] at readM
  · rwa [readIf, if_pos isZ] at readZ

theorem readPoint_of_holds (hEntity : Int) (shape : ShapeObj α) {point : PointObj α} {record : List UInt8}
    (length : record.length = 28) (holds : Holds record 12 (coordinateBytes rep big point)) :
    ∃ back, readPoint rep big SHP_POINT hEntity record shape = some (back, none) ∧
      back.line = [[{ point with z := rep.ofBits 0, m := rep.ofBits 0 }]] := by
  obtain ⟨x, y⟩ := readXY_of_holds rep big holds
  unfold readPoint readIf
  rw [if_neg (by omega)]
  simp only [x, y, bind_eq_bind, bind_some]
  rw [if_neg (by decide), if_neg (by decide)]
  exact ⟨_, rfl, rfl⟩

theorem readPoint_measure {nShapeType hEntity : Int} {record : List UInt8} {shape back : ShapeObj α}
    (length : record.length = 36)
    (reads : readPoint rep big nShapeType hEntity record shape = some (back, none)) :
    ∃ point, back.line = [[point]] ∧
      (nShapeType = SHP_POINTM → readDoubleAt rep big record 28 = some point.m) ∧
      (nShapeType = SHP_POINTZ → readDoubleAt rep big record 28 = some point.z) := by
  have present : readPointMeasure rep big record = readDoubleAt rep big record 28 := by
    exact if_pos (by omega)
  unfold readPoint at reads
  rw [if_neg (by omega)] at reads
  simp only [bind_eq_bind, bind_eq_some_iff] at reads
  obtain ⟨x, -, y, -, z, readZ, m, readM, same⟩ := reads
  cases same
  refine ⟨_, rfl, fun isM => ?_, fun isZ => ?_⟩
  · rwa [readIf, if_pos isM, present] at readM
  · rwa [readIf, if_pos isZ, present] at readZ

theorem readShapeAt_of_holds (nShapeType hEntity : Int) {nRecordSize offset : Nat} {fpSHP record : List UInt8}
    (holds : Holds fpSHP offset record) (length : record.length = nRecordSize + 8) (large : 4 < nRecordSize)
    (fits : nRecordSize + 8 ≤ INT_MAX) (positive : 0 < offset) :
    readShapeAt rep big nShapeType hEntity nRecordSize offset fpSHP =
      readRecord rep big nShapeType hEntity record (msInitShape rep) := by
  have reads : readAt fpSHP (offset : Int).toNat ((nRecordSize : Int) + 8).toNat = some record :=
    readAt_of_holds holds (by omega)
  unfold readShapeAt
  simp only [reads]
  rw [if_neg (by omega), if_neg (by omega), if_neg (by omega)]

end MapServer
