import MapServer.Shape.ReadBuffers

namespace MapServer
open Lib.ByteFile List Option

section Read
variable {α : Type} (rep : DoubleRep α) (big : Bool) (malloc : Nat → UInt8) (uninit : PointObj α)

variable {pos k i : Nat} {readPoint : Nat → Option (PointObj α)} {panParts : List Int}

theorem readAt_inside {record : List UInt8} {count : Nat} (inside : pos + count ≤ record.length) :
    ∃ bytes, readAt record pos count = some bytes := ⟨_, if_pos inside⟩

theorem readWordAt_inside {record : List UInt8} (inside : pos + 4 ≤ record.length) :
    ∃ value, readWordAt big record pos = some value := by
  obtain ⟨bytes, reads⟩ := readAt_inside inside
  exact ⟨_, by rw [readWordAt, reads]; rfl⟩

theorem readDoubleAt_inside {record : List UInt8} (inside : pos + 8 ≤ record.length) :
    ∃ value, readDoubleAt rep big record pos = some value := by
  obtain ⟨bytes, reads⟩ := readAt_inside inside
  exact ⟨_, by rw [readDoubleAt, reads]; rfl⟩

theorem readRectAt_inside {record : List UInt8} (inside : pos + 32 ≤ record.length) :
    ∃ rect, readRectAt rep big record pos = some rect := by
  obtain ⟨bytes, reads⟩ := readAt_inside inside
  exact ⟨_, by rw [readRectAt, reads]; rfl⟩

theorem readIf_total (present : Prop) [Decidable present] {value : Option α} (total : present → ∃ x, value = some x) :
    ∃ x, readIf rep present value = some x := by
  unfold readIf
  split
  · rename_i here
    exact total here
  · exact ⟨_, rfl⟩

theorem readMeasure_inside {record : List UInt8} {nOffset nPoints : Nat} (small : nOffset + 16 + 8 * nPoints ≤ 2147483647)
    (point : k < nPoints) : ∃ value, readMeasure rep big record nOffset nPoints k = some value := by
  have fits : checkedInt ((nOffset : Int) + 16 + 8 * nPoints) = some ((nOffset : Int) + 16 + 8 * nPoints) :=
    checkedInt_of_range (by omega) (by unfold INT_MAX; omega)
  simp only [readMeasure, fits, bind_eq_bind, bind_some]
  apply readIf_total
  intro long
  exact readDoubleAt_inside rep big (by omega)

theorem readPolyPoint_inside {nShapeType : Int} {record : List UInt8} {nParts nPoints : Nat}
    (inside : 44 + 8 + 4 * nParts + 16 * nPoints ≤ record.length) (parts : nParts ≤ 10000000)
    (points : nPoints ≤ 50000000) (point : k < nPoints) :
    ∃ value, readPolyPoint rep big nShapeType record nParts nPoints k = some value := by
  have measure : ∃ value, readMeasure rep big record (44 + 8 + 4 * nParts + 16 * nPoints) nPoints k = some value :=
    readMeasure_inside rep big (by omega) point
  obtain ⟨x, isX⟩ := readDoubleAt_inside rep big (by omega : 44 + 4 * nParts + 8 + k * 16 + 8 ≤ record.length)
  obtain ⟨y, isY⟩ := readDoubleAt_inside rep big (by omega : 44 + 4 * nParts + 8 + k * 16 + 8 + 8 ≤ record.length)
  obtain ⟨z, isZ⟩ := readIf_total rep (nShapeType ∈ [SHP_POLYGONZ, SHP_ARCZ]) fun _ => measure
  obtain ⟨m, isM⟩ := readIf_total rep (nShapeType ∈ [SHP_POLYGONM, SHP_ARCM]) fun _ => measure
  refine ⟨{ x, y, z, m }, ?_⟩
  simp only [readPolyPoint, isX, isY, isZ, isM, bind_eq_bind, bind_some]

theorem readMultiPointPoint_inside {nShapeType : Int} {record : List UInt8} {nPoints : Nat}
    (inside : 48 + 16 * nPoints ≤ record.length)
    (measured : nShapeType ∈ [SHP_MULTIPOINTZ, SHP_MULTIPOINTM] → 48 + 16 * nPoints + 16 + 8 * nPoints ≤ record.length)
    (point : i < nPoints) : ∃ value, readMultiPointPoint rep big nShapeType record nPoints i = some value := by
  obtain ⟨x, isX⟩ := readDoubleAt_inside rep big (by omega : 48 + 16 * i + 8 ≤ record.length)
  obtain ⟨y, isY⟩ := readDoubleAt_inside rep big (by omega : 48 + 16 * i + 8 + 8 ≤ record.length)
  have measure (long : nShapeType ∈ [SHP_MULTIPOINTZ, SHP_MULTIPOINTM]) :
      ∃ value, readDoubleAt rep big record (48 + 16 * nPoints + 16 + i * 8) = some value := by
    have := measured long
    exact readDoubleAt_inside rep big (by omega)
  obtain ⟨z, isZ⟩ := readIf_total rep (nShapeType = SHP_MULTIPOINTZ) fun is => measure (by simp [is])
  obtain ⟨m, isM⟩ := readIf_total rep (nShapeType = SHP_MULTIPOINTM) fun is => measure (by simp [is])
  refine ⟨{ x, y, z, m }, ?_⟩
  simp only [readMultiPointPoint, isX, isY, isZ, isM, bind_eq_bind, bind_some]

theorem readPointMeasure_inside (record : List UInt8) :
    ∃ value, readPointMeasure rep big record = some value :=
  readIf_total rep _ fun long => readDoubleAt_inside rep big (by omega)

theorem setAt_inside {β : Type} {array : List β} (inside : i < array.length) (value : β) :
    setAt array i value = some (array.set i value) := if_pos inside

theorem storePoints_inside {limit : Nat} (reads : ∀ q < limit, ∃ value, readPoint q = some value) {more j : Nat}
    (point : List (PointObj α)) (room : j + more ≤ point.length) (points : k + more ≤ limit) :
    ∃ filled, storePoints readPoint more j k point = some (filled, k + more) ∧ filled.length = point.length := by
  induction more generalizing j k point with
  | zero => exact ⟨point, rfl, rfl⟩
  | succ more ih =>
    obtain ⟨value, isValue⟩ := reads k (by omega)
    obtain ⟨filled, stores, length⟩ := ih (j := j + 1) (k := k + 1) (point.set j value)
      (by rw [length_set]; omega) (by omega)
    refine ⟨filled, ?_, by rw [length, length_set]⟩
    simp only [storePoints, isValue, setAt_inside (by omega : j < point.length), stores, bind_eq_bind,
      bind_some]
    congr 2
    omega

def RawLine.Filled (line : RawLine α) : Prop := line.numpoints = line.point.length

theorem fillLine_inside {limit : Nat} (reads : ∀ q < limit, ∃ value, readPoint q = some value) (numpoints : Int)
    (positive : 0 ≤ numpoints) (points : k + numpoints.toNat ≤ limit) :
    ∃ line : RawLine α, fillLine uninit readPoint numpoints k = some (line, k + numpoints.toNat) ∧ line.Filled := by
  obtain ⟨filled, stores, length⟩ := storePoints_inside reads (j := 0)
    (replicate numpoints.toNat uninit) (by rw [length_replicate]; omega) points
  rw [length_replicate] at length
  refine ⟨⟨numpoints, filled⟩, ?_, ?_⟩
  · simp only [fillLine, stores, bind_eq_bind, bind_some]
  · rw [RawLine.Filled, length]
    exact (Int.toNat_of_nonneg positive).symm

theorem entryAt_inside {β : Type} {entries : List β} (inside : i < entries.length) :
    ∃ entry, entryAt entries i = some entry := by
  refine ⟨entries[i], ?_⟩
  rw [entryAt, if_neg (by omega), Int.toNat_natCast, getElem?_eq_getElem inside]

theorem partStop_inside {nParts : Nat} (nPoints : Int) (starts : nParts ≤ panParts.length) (inside : i < nParts) :
    ∃ stop, partStop panParts nParts nPoints i = some stop ∧
      (i + 1 ≠ nParts → entryAt panParts (i + 1 : Nat) = some stop) := by
  unfold partStop
  by_cases last : i + 1 = nParts
  · exact ⟨nPoints, if_pos last, fun other => absurd last other⟩
  · obtain ⟨stop, isStop⟩ := entryAt_inside (by omega : i + 1 < panParts.length)
    exact ⟨stop, by rw [if_neg last, isStop], fun _ => isStop⟩

/-- The counter `k` is at most the start of part `i`, and the end of a part is the start of the next one. -/
theorem storeParts_inside (outcomes : Outcomes) (hEntity : Int) {nPoints : Int} {nParts : Nat}
    (reads : ∀ q < nPoints.toNat, ∃ value, readPoint q = some value) (few : nPoints ≤ 50000000)
    (starts : nParts ≤ panParts.length) {more : Nat} {line : List (RawLine α)} (count : i + more = nParts)
    (length : line.length = nParts) (filled : ∀ entry ∈ line, entry.Filled)
    (behind : 0 < more → ∀ start, entryAt panParts i = some start → 0 ≤ start → k ≤ start) :
    ∃ stored, storeParts uninit outcomes readPoint hEntity nPoints panParts nParts more i k line = some stored ∧
      ∀ line', stored = .ok line' → line'.length = nParts ∧ ∀ entry ∈ line', entry.Filled := by
  induction more generalizing i k line with
  | zero =>
    refine ⟨.ok line, rfl, ?_⟩
    intro line' same
    obtain rfl := Except.ok.inj same
    exact ⟨length, filled⟩
  | succ more ih =>
    obtain ⟨start, isStart⟩ := entryAt_inside (by omega : i < panParts.length)
    obtain ⟨stop, isStop, next⟩ := partStop_inside nPoints starts (by omega : i < nParts)
    rw [storeParts]
    simp only [isStop, isStart, bind_eq_bind, bind_some]
    split
    · exact ⟨_, rfl, fun _ impossible => nomatch impossible⟩
    · rename_i ordered
      have counter := behind (Nat.succ_pos more) start isStart (by omega)
      rw [checkedInt_of_range (by omega) (by unfold INT_MAX; omega), bind_some,
        checkedInt_of_range (by unfold sizeofPointObj; omega) (by unfold sizeofPointObj INT_MAX; omega), bind_some]
      split
      · obtain ⟨entry, fills, isFilled⟩ := fillLine_inside uninit reads (stop - start) (k := k)
          (by omega) (by omega)
        rw [fills, bind_some, setAt_inside (by omega), bind_some]
        apply ih (by omega) (by rw [length_set, length])
        · intro other member
          rcases mem_or_eq_of_mem_set member with old | rfl
          · exact filled other old
          · exact isFilled
        · intro _ later isLater _
          obtain rfl := Option.some.inj ((next (by omega)).symm.trans isLater)
          omega
      · exact ⟨_, rfl, fun _ impossible => nomatch impossible⟩

structure BuffersReady (psSHP : RecordBuffers) : Prop where
  record : psSHP.pabyRec.length = psSHP.nBufSize
  parts : ∀ panParts, psSHP.panParts = some panParts → panParts.length = psSHP.nPartMax
  positive : 0 ≤ psSHP.nPartMax

theorem newBuffers_ready : BuffersReady newBuffers := ⟨rfl, nofun, Int.le_refl 0⟩

variable {psSHP : RecordBuffers}

theorem length_SfRealloc (buffer : List UInt8) (size : Nat) : (SfRealloc malloc buffer size).length = size := by
  rw [SfRealloc, length_append, length_take, length_msSmallMalloc]
  omega

theorem msSHPReadAllocateBuffer_ready (ready : BuffersReady psSHP) (outcomes : Outcomes) (hEntity : Int) {nRecordSize : Int}
    (low : 4 ≤ nRecordSize) (high : nRecordSize ≤ INT_MAX - 8) (pszCallingFunction : String) :
    ∃ buffer, msSHPReadAllocateBuffer malloc outcomes psSHP hEntity nRecordSize pszCallingFunction = some buffer ∧
      ∀ after, buffer = .ok after → BuffersReady after ∧ nRecordSize + 8 ≤ after.pabyRec.length := by
  unfold msSHPReadAllocateBuffer
  rw [if_neg (by omega), checkedInt_of_range (by omega) (by omega)]
  simp only [bind_eq_bind, bind_some]
  split
  · split
    · refine ⟨_, rfl, ?_⟩
      intro after same
      obtain rfl := Except.ok.inj same
      have length := length_SfRealloc malloc psSHP.pabyRec (nRecordSize + 8).toNat
      exact ⟨⟨by simp only [length]; omega, ready.parts, ready.positive⟩, by simp only [length]; omega⟩
    · exact ⟨_, rfl, fun _ impossible => nomatch impossible⟩
  · refine ⟨_, rfl, ?_⟩
    intro after same
    obtain rfl := Except.ok.inj same
    exact ⟨ready, by rw [ready.record]; omega⟩

theorem growParts_ready (ready : BuffersReady psSHP) (outcomes : Outcomes) (hEntity : Int) {nParts : Int} (positive : 0 ≤ nParts)
    (few : nParts ≤ 10000000) :
    ∃ after failed, growParts malloc outcomes psSHP hEntity nParts = some (after, failed) ∧ BuffersReady after ∧
      (failed = none → ∃ panParts, after.panParts = some panParts ∧ nParts ≤ panParts.length) := by
  have fresh (count : Int) (low : 0 ≤ count) :
      (((List.range count.toNat).map fun i => ((malloc i).toNat : Int)).length : Int) = count := by
    rw [length_map, length_range, Int.toNat_of_nonneg low]
  unfold growParts
  rw [checkedInt_of_range (by omega) (by unfold INT_MAX; omega)]
  simp only [bind_eq_bind, bind_some]
  by_cases small : psSHP.nPartMax < nParts
  · rw [if_pos small]
    by_cases allocated : outcomes.parts = true
    · rw [if_pos allocated]
      refine ⟨_, _, rfl, ⟨ready.record, ?_, positive⟩, fun _ => ⟨_, rfl, (fresh nParts positive).ge⟩⟩
      intro panParts same
      obtain rfl := Option.some.inj same
      exact fresh nParts positive
    · rw [if_neg allocated]
      refine ⟨_, _, rfl, ⟨ready.record, ?_, ready.positive⟩, nofun⟩
      intro panParts same
      split at same
      · cases same
      · obtain rfl := Option.some.inj same
        exact fresh _ ready.positive
  · rw [if_neg small]
    refine ⟨_, _, rfl, ready, ?_⟩
    intro there
    cases parts : psSHP.panParts with
    | none =>
      rw [parts] at there
      cases there
    | some panParts =>
      refine ⟨panParts, rfl, ?_⟩
      rw [ready.parts panParts parts]
      exact Int.not_lt.mp small

theorem length_getWords (count : Nat) (bytes : List UInt8) : (getWords big big count bytes).length = count := by
  induction count generalizing bytes with
  | zero => rfl
  | succ count ih => rw [getWords, length_cons, ih]

theorem copyParts_inside {record : List UInt8} {nParts : Int} (positive : 0 ≤ nParts) (few : nParts ≤ 10000000)
    (inside : 44 + 8 + 4 * nParts ≤ record.length) (room : nParts ≤ panParts.length) :
    ∃ copied, copyParts big record panParts nParts = some copied ∧ copied.length = panParts.length := by
  obtain ⟨starts, reads⟩ := readAt_inside (by omega : 44 + 8 + (4 * nParts).toNat ≤ record.length)
  unfold copyParts
  rw [checkedInt_of_range (by omega) (by unfold INT_MAX; omega)]
  simp only [reads, bind_eq_bind, bind_some, if_pos room]
  refine ⟨_, rfl, ?_⟩
  rw [length_append, length_getWords, length_drop]
  omega

/-- A shape as `msInitShape` leaves it, with any bounds. -/
structure Blank (shape : RawShape α) : Prop where
  line : shape.line = none
  numlines : shape.numlines = 0
  type : shape.type = .MS_SHAPE_NULL

/-- An exit before the end leaves a blank shape, and the one at the end a shape whose points are all stored. -/
structure SafeExit (exit : ReadExit α) : Prop where
  refused : exit.finished = false → Blank exit.shape
  numlines : exit.shape.numlines = (exit.shape.line.getD []).length
  filled : ∀ entry ∈ exit.shape.line.getD [], entry.Filled

theorem returnEarly_safe {shape : RawShape α} (blank : Blank shape) (error : Option ErrorObj) :
    SafeExit (returnEarly shape error) where
  refused := fun _ => blank
  numlines := by
    simp only [returnEarly, blank.line, blank.numlines]
    rfl
  filled := by
    intro entry member
    simp only [returnEarly, blank.line, getD_none] at member
    cases member

theorem Blank.null {shape : RawShape α} (blank : Blank shape) : Blank shape.null := ⟨blank.line, blank.numlines, rfl⟩

theorem blank_freeLines (shape : RawShape α) : Blank shape.freeLines.null := ⟨rfl, rfl, rfl⟩

theorem finish_safe {shape : RawShape α} {line : List (RawLine α)} (lines : shape.line = some line)
    (numlines : shape.numlines = line.length) (filled : ∀ entry ∈ line, entry.Filled) (hEntity : Int) :
    SafeExit (finish shape hEntity) where
  refused := nofun
  numlines := by
    simp only [finish, lines, numlines, getD_some]
  filled := by
    simp only [finish, lines, getD_some]
    exact filled

variable (outcomes : Outcomes) (nShapeType hEntity nRecordSize : Int) {nEntitySize : Int} {record : List UInt8} {shape : RawShape α}

theorem readPolyLines_safe (ready : BuffersReady psSHP) (blank : Blank shape) (size : record.length = nEntitySize)
    {nPoints nParts : Int} (points : 0 ≤ nPoints ∧ nPoints ≤ 50000000) (parts : 0 ≤ nParts ∧ nParts ≤ 10000000)
    (there : psSHP.panParts = some panParts) (room : nParts ≤ panParts.length) :
    ∃ after exit, readPolyLines rep big uninit outcomes nShapeType hEntity nEntitySize nPoints nParts record psSHP
      panParts shape = some (after, exit) ∧ BuffersReady after ∧ SafeExit exit := by
  unfold readPolyLines
  rw [checkedInt_of_range (by omega) (by unfold INT_MAX; omega)]
  simp only [bind_eq_bind, bind_some]
  split
  · exact ⟨_, _, rfl, ready, returnEarly_safe blank.null _⟩
  · obtain ⟨copied, copies, length⟩ := copyParts_inside big parts.1 parts.2
      (by omega : 44 + 8 + 4 * nParts ≤ record.length) room
    have still : BuffersReady { psSHP with panParts := some copied } := by
      refine ⟨ready.record, ?_, ready.positive⟩
      intro panParts' same
      obtain rfl := Option.some.inj same
      rw [length]
      exact ready.parts panParts there
    rw [copies, bind_some, checkedInt_of_range (by unfold sizeofLineObj; omega) (by unfold sizeofLineObj INT_MAX; omega)]
    split
    · exact ⟨_, _, rfl, still, returnEarly_safe blank _⟩
    · have empty : ∀ entry ∈ replicate nParts.toNat (⟨0, []⟩ : RawLine α), entry.Filled := by
        intro entry member
        rw [eq_of_mem_replicate member]
        rfl
      have reads : ∀ q < nPoints.toNat,
          ∃ value, readPolyPoint rep big nShapeType record nParts.toNat nPoints.toNat q = some value :=
        fun q point => readPolyPoint_inside rep big (by omega) (by omega) (by omega) point
      obtain ⟨stored, stores, lines⟩ := storeParts_inside uninit outcomes hEntity reads points.2
        (by omega : nParts.toNat ≤ copied.length) (Nat.zero_add nParts.toNat) length_replicate empty
        (fun _ start _ low => low)
      rw [stores, bind_some]
      cases stored with
      | error error => exact ⟨_, _, rfl, still, returnEarly_safe (blank_freeLines _) _⟩
      | ok line =>
        obtain ⟨count, filled⟩ := lines line rfl
        refine ⟨_, _, rfl, still, finish_safe rfl ?_ filled hEntity⟩
        simp only [count]
        omega

theorem readPolyShape_safe (ready : BuffersReady psSHP) (blank : Blank shape) (size : record.length = nEntitySize) :
    ∃ after exit, readPolyShape rep big malloc uninit outcomes nShapeType hEntity nEntitySize record psSHP shape =
      some (after, exit) ∧ BuffersReady after ∧ SafeExit exit := by
  unfold readPolyShape
  split
  · exact ⟨_, _, rfl, ready, returnEarly_safe blank.null _⟩
  · obtain ⟨bounds, isBounds⟩ := readRectAt_inside rep big (by omega : 8 + 4 + 32 ≤ record.length)
    obtain ⟨nPoints, isPoints⟩ := readWordAt_inside big (by omega : 40 + 8 + 4 ≤ record.length)
    obtain ⟨nParts, isParts⟩ := readWordAt_inside big (by omega : 36 + 8 + 4 ≤ record.length)
    have blank : Blank { shape with bounds } := ⟨blank.line, blank.numlines, blank.type⟩
    simp only [isBounds, isPoints, isParts, bind_eq_bind, bind_some]
    split
    · exact ⟨_, _, rfl, ready, returnEarly_safe blank.null _⟩
    · obtain ⟨grown, failed, grows, ready, room⟩ := growParts_ready malloc ready outcomes hEntity
        (by omega : 0 ≤ nParts) (by omega)
      rw [grows, bind_some]
      cases failed with
      | some message => exact ⟨_, _, rfl, ready, returnEarly_safe blank.null _⟩
      | none =>
        obtain ⟨panParts, there, room⟩ := room rfl
        simp only [there]
        exact readPolyLines_safe rep big uninit outcomes nShapeType hEntity ready blank size (by omega) (by omega) there room

theorem readMultiPointShape_safe (blank : Blank shape) (size : record.length = nEntitySize) :
    ∃ exit, readMultiPointShape rep big uninit outcomes nShapeType hEntity nRecordSize nEntitySize record shape =
      some exit ∧ SafeExit exit := by
  unfold readMultiPointShape
  split
  · exact ⟨_, rfl, returnEarly_safe blank.null _⟩
  · obtain ⟨bounds, isBounds⟩ := readRectAt_inside rep big (by omega : 8 + 4 + 32 ≤ record.length)
    obtain ⟨nPoints, isPoints⟩ := readWordAt_inside big (by omega : 44 + 4 ≤ record.length)
    have blank : Blank { shape with bounds } := ⟨blank.line, blank.numlines, blank.type⟩
    simp only [isBounds, isPoints, bind_eq_bind, bind_some]
    split
    · exact ⟨_, rfl, returnEarly_safe blank.null _⟩
    · split
      · exact ⟨_, rfl, returnEarly_safe (blank_freeLines _) _⟩
      · obtain ⟨measures, same, low, high, measured⟩ : ∃ measures : Int,
            (if nShapeType ∈ [SHP_MULTIPOINTZ, SHP_MULTIPOINTM] then 16 + nPoints * 8 else 0) = measures ∧ 0 ≤ measures ∧
              measures ≤ 16 + nPoints * 8 ∧
              (nShapeType ∈ [SHP_MULTIPOINTZ, SHP_MULTIPOINTM] → measures = 16 + nPoints * 8) := by
          refine ⟨_, rfl, ?_⟩
          split
          · exact ⟨by omega, by omega, fun _ => rfl⟩
          · rename_i plain
            exact ⟨by omega, by omega, fun measured => absurd measured plain⟩
        rw [same, checkedInt_of_range (by omega) (by unfold INT_MAX; omega), bind_some,
          checkedInt_of_range (by omega) (by unfold INT_MAX; omega), bind_some]
        split
        · exact ⟨_, rfl, returnEarly_safe (blank_freeLines _) _⟩
        · rename_i fits
          rw [checkedInt_of_range (by unfold sizeofPointObj; omega) (by unfold sizeofPointObj INT_MAX; omega), bind_some]
          split
          · exact ⟨_, rfl, returnEarly_safe (blank_freeLines _) _⟩
          · have inside (long : nShapeType ∈ [SHP_MULTIPOINTZ, SHP_MULTIPOINTM]) :
                48 + 16 * nPoints.toNat + 16 + 8 * nPoints.toNat ≤ record.length := by
              have := measured long
              omega
            have reads : ∀ q < nPoints.toNat,
                ∃ value, readMultiPointPoint rep big nShapeType record nPoints.toNat q = some value :=
              fun q point => readMultiPointPoint_inside rep big (by omega) inside point
            obtain ⟨line, fills, filled⟩ := fillLine_inside uninit reads nPoints (k := 0) (by omega) (by omega)
            rw [fills, bind_some]
            refine ⟨_, rfl, finish_safe rfl rfl ?_ hEntity⟩
            intro entry member
            rwa [mem_singleton.mp member]

theorem readPointShape_safe (blank : Blank shape) (size : record.length = nEntitySize) :
    ∃ exit, readPointShape rep big uninit outcomes nShapeType hEntity nRecordSize nEntitySize record shape =
      some exit ∧ SafeExit exit := by
  unfold readPointShape
  split
  · exact ⟨_, rfl, returnEarly_safe blank.null _⟩
  · split
    · exact ⟨_, rfl, returnEarly_safe blank _⟩
    · obtain ⟨x, isX⟩ := readDoubleAt_inside rep big (by omega : 12 + 8 ≤ record.length)
      obtain ⟨y, isY⟩ := readDoubleAt_inside rep big (by omega : 20 + 8 ≤ record.length)
      have measure := readPointMeasure_inside rep big record
      obtain ⟨z, isZ⟩ := readIf_total rep (nShapeType = SHP_POINTZ) fun _ => measure
      obtain ⟨m, isM⟩ := readIf_total rep (nShapeType = SHP_POINTM) fun _ => measure
      simp only [isX, isY, isZ, isM, bind_eq_bind, bind_some]
      exact ⟨_, rfl, finish_safe rfl rfl (by simp [RawLine.Filled]) hEntity⟩

theorem readShapeRecord_safe (ready : BuffersReady psSHP) (blank : Blank shape) (size : record.length = nEntitySize) :
    ∃ after exit, readShapeRecord rep big malloc uninit outcomes nShapeType hEntity nRecordSize nEntitySize record
      psSHP shape = some (after, exit) ∧ BuffersReady after ∧ SafeExit exit := by
  unfold readShapeRecord
  split
  · exact readPolyShape_safe rep big malloc uninit outcomes nShapeType hEntity ready blank size
  · split
    · obtain ⟨exit, reads, safe⟩ := readMultiPointShape_safe rep big uninit outcomes nShapeType hEntity nRecordSize
        blank size
      exact ⟨psSHP, exit, by rw [reads]; rfl, ready, safe⟩
    · split
      · obtain ⟨exit, reads, safe⟩ := readPointShape_safe rep big uninit outcomes nShapeType hEntity nRecordSize
          blank size
        exact ⟨psSHP, exit, by rw [reads]; rfl, ready, safe⟩
      · refine ⟨_, _, rfl, ready, nofun, ?_, ?_⟩
        · simp only [finish, blank.line, blank.numlines]
          rfl
        · intro entry member
          simp only [finish, blank.line, getD_none] at member
          cases member

theorem msSHPReadShapeBuffers_step (ready : BuffersReady psSHP) (nRecords : Int) (fpSHP : List UInt8) (offset : Int) :
    ∃ after exit, msSHPReadShapeBuffers rep big malloc uninit outcomes nShapeType nRecords fpSHP psSHP hEntity
      nRecordSize offset = some (after, exit) ∧ BuffersReady after ∧ SafeExit exit := by
  have blank : Blank (initRawShape rep) := ⟨rfl, rfl, rfl⟩
  unfold msSHPReadShapeBuffers
  split
  · exact ⟨_, _, rfl, ready, returnEarly_safe blank _⟩
  · split
    · exact ⟨_, _, rfl, ready, returnEarly_safe blank.null _⟩
    · rw [checkedInt_of_range (by omega) (by omega)]
      simp only [bind_eq_bind, bind_some]
      split
      · exact ⟨_, _, rfl, ready, returnEarly_safe blank.null _⟩
      · obtain ⟨buffer, allocates, large⟩ := msSHPReadAllocateBuffer_ready malloc ready outcomes hEntity
          (by omega : 4 ≤ nRecordSize) (by omega) "msSHPReadShape()"
        rw [allocates, bind_some]
        cases buffer with
        | error error => exact ⟨_, _, rfl, ready, returnEarly_safe blank.null _⟩
        | ok psSHP =>
          obtain ⟨ready, large⟩ := large psSHP rfl
          simp only
          split
          · exact ⟨_, _, rfl, ready, returnEarly_safe blank.null _⟩
          · have bound : ((fpSHP.drop offset.toNat).take (nRecordSize + 8).toNat).length ≤ (nRecordSize + 8).toNat :=
              length_take_le ..
            obtain ⟨pabyRec, stores, stored⟩ := storeAt_stored psSHP.pabyRec 0
              ((fpSHP.drop offset.toNat).take (nRecordSize + 8).toNat) (by omega)
            have ready : BuffersReady { psSHP with pabyRec } :=
              ⟨(congrArg Nat.cast stored.length).trans ready.record, ready.parts, ready.positive⟩
            rw [stores, bind_some]
            split
            · exact ⟨_, _, rfl, ready, returnEarly_safe blank.null _⟩
            · apply readShapeRecord_safe rep big malloc uninit outcomes nShapeType hEntity nRecordSize ready blank
              rw [length_take, stored.length]
              omega

/-- A call of `msSHPReadShape`: the entity, and what the index, the file and the allocations are then. -/
structure ShapeCall where
  hEntity : Int
  nRecordSize : Int
  offset : Int
  fpSHP : List UInt8
  outcomes : Outcomes

def readShapes (rep : DoubleRep α) (big : Bool) (malloc : Nat → UInt8) (uninit : PointObj α)
    (nShapeType nRecords : Int) (psSHP : RecordBuffers) : List ShapeCall → Option (RecordBuffers × List (ReadExit α))
  | [] => some (psSHP, [])
  | call :: rest => do
    let (psSHP, exit) ← msSHPReadShapeBuffers rep big malloc uninit call.outcomes nShapeType nRecords call.fpSHP
      psSHP call.hEntity call.nRecordSize call.offset
    let (psSHP, exits) ← readShapes rep big malloc uninit nShapeType nRecords psSHP rest
    some (psSHP, exit :: exits)

theorem readShapes_safe (nRecords : Int) (ready : BuffersReady psSHP) (calls : List ShapeCall) :
    ∃ after exits, readShapes rep big malloc uninit nShapeType nRecords psSHP calls = some (after, exits) ∧
      exits.length = calls.length ∧ ∀ exit ∈ exits, SafeExit exit := by
  induction calls generalizing psSHP with
  | nil => exact ⟨psSHP, [], rfl, rfl, fun _ member => absurd member not_mem_nil⟩
  | cons call rest ih =>
    obtain ⟨next, exit, reads, ready, safe⟩ := msSHPReadShapeBuffers_step rep big malloc uninit call.outcomes nShapeType
      call.hEntity call.nRecordSize ready nRecords call.fpSHP call.offset
    obtain ⟨after, exits, run, count, all⟩ := ih ready
    refine ⟨after, exit :: exits, ?_, by rw [length_cons, length_cons, count], ?_⟩
    · simp only [readShapes, reads, run, bind_eq_bind, bind_some]
    · intro other member
      rcases mem_cons.mp member with rfl | later
      · exact safe
      · exact all other later

end Read

/-- Whatever the index, the file and the allocations are, no read leaves its record or its arrays, and a read that stops early
leaves a shape without lines. -/
theorem msSHPReadShapeBuffers_safe {α : Type} (rep : DoubleRep α) (big : Bool) (malloc : Nat → UInt8)
    (uninit : PointObj α) (nShapeType nRecords : Int) (calls : List ShapeCall) :
    ∃ after exits, readShapes rep big malloc uninit nShapeType nRecords newBuffers calls = some (after, exits) ∧
      exits.length = calls.length ∧ ∀ exit ∈ exits, SafeExit exit :=
  readShapes_safe rep big malloc uninit nShapeType nRecords newBuffers_ready calls

def samplePointReads : List ShapeCall :=
  let outcomes : Outcomes := ⟨true, true, true, fun _ => true, true⟩
  [⟨0, 20, 1, List.replicate 40 0, outcomes⟩, ⟨1, 10, 1, List.replicate 40 0, outcomes⟩]

theorem msSHPReadShapeBuffers_safe_points :
    ∃ after point refused, readShapes bitsRep false (fun _ => 0) ⟨0, 0, 0, 0⟩ SHP_POINT 2 newBuffers samplePointReads =
      some (after, [point, refused]) ∧ point.finished = true ∧ SafeExit point ∧ refused.finished = false ∧
        Blank refused.shape := by
  have finished : (readShapes bitsRep false (fun _ => 0) ⟨0, 0, 0, 0⟩ SHP_POINT 2 newBuffers samplePointReads).map
      (fun run => run.2.map ReadExit.finished) = some [true, false] := by decide
  obtain ⟨after, exits, run, -, safe⟩ :=
    msSHPReadShapeBuffers_safe bitsRep false (fun _ => 0) ⟨0, 0, 0, 0⟩ SHP_POINT 2 samplePointReads
  rw [run, Option.map_some] at finished
  obtain ⟨point, rest, rfl, ends, others⟩ := List.map_eq_cons_iff.mp (Option.some.inj finished)
  obtain ⟨refused, none, rfl, early, nothing⟩ := List.map_eq_cons_iff.mp others
  obtain rfl := List.map_eq_nil_iff.mp nothing
  exact ⟨after, point, refused, run, ends, safe point (by simp), early, (safe refused (by simp)).refused early⟩

end MapServer
