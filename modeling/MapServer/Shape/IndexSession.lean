import MapServer.Shape.IndexAppend

namespace MapServer
open Lib.ByteFile List Option

variable {α : Type}

section Filled
variable (big : Bool) {entries : List (Int × Int)} {opened psSHP : SHPHandle α} {asked : Nat → Prop}

def cachedEntry (entries : List (Int × Int)) (i : Nat) : Int × Int :=
  let entry := entries.getD i (0, 0)
  (2 * entry.1, 2 * entry.2)

theorem halfEntry_cachedEntry (entries : List (Int × Int)) :
    (List.range entries.length).map (fun i => halfEntry (cachedEntry entries i)) = entries := by
  apply ext_getElem
  · rw [length_map, length_range]
  · intro i _ inside
    rw [getElem_map, getElem_range, halfEntry, cachedEntry, getD_eq_getElem?_getD, getElem?_eq_getElem inside]
    simp only [getD_some, Int.mul_tdiv_cancel_left _ (by decide : (2 : Int) ≠ 0)]

theorem cachedEntry_eq {i : Nat} (inside : i < entries.length) {offset size : Int}
    (cached : offset = 2 * entries[i].1 ∧ size = 2 * entries[i].2) : (offset, size) = cachedEntry entries i := by
  rw [cachedEntry, getD_eq_getElem?_getD, getElem?_eq_getElem inside, cached.1, cached.2]
  rfl

structure Found (entries : List (Int × Int)) (malloc : Nat → Int × Int) (asked : Nat → Prop) (base : Nat → Int × Int) :
    Prop where
  cached : ∀ i < entries.length, (∀ page, ¬ asked page) ∨ asked (i / SHX_BUFFER_PAGE) → base i = cachedEntry entries i
  unread : ∀ i, (∃ page, asked page) → ¬ asked (i / SHX_BUFFER_PAGE) → (base i).1 = (malloc i).1

theorem fillIndex_caching (start : Opened big entries opened) (caching : Caching entries opened asked psSHP)
    (some_record : (∃ page, asked page) → 0 < entries.length) {size : Nat} (nFileSize : opened.nFileSize = size)
    {malloc : Nat → Int × Int} (garbage : ∀ i, opened.panRecOffset i = (malloc i).1) :
    ∃ base, Found entries malloc asked base ∧ Appending entries.length base opened.nShapeType opened.fpSHX [] size
      (fillIndex big { psSHP with bUpdated := true }) := by
  obtain ⟨header, length, fpSHX⟩ := start.index
  have same := caching.frame
  have nRecords : psSHP.nRecords = entries.length := by rw [same, ← start.nRecords]
  have sameFile : psSHP.fpSHX = opened.fpSHX := by rw [same]
  have sameType : psSHP.nShapeType = opened.nShapeType := by rw [same]
  have sameSize : psSHP.nFileSize = size := by rw [same, ← nFileSize]
  have partly : psSHP.panRecAllLoaded = false := by rw [same, ← start.panRecAllLoaded]
  rcases caching.position with ⟨nothing, position⟩ | ⟨something, position⟩
  · obtain ⟨posSHX, panRecOffset, panRecSize, run, copied⟩ := fillIndex_from_start big
      { psSHP with bUpdated := true } start.offsets start.sizes length (sameFile.trans fpSHX) nRecords position partly
    refine ⟨cachedEntry entries, ⟨fun i _ _ => rfl, fun i ⟨page, here⟩ => absurd here (nothing page)⟩, ?_⟩
    rw [run]
    refine ⟨nRecords, sameType, sameFile, sameSize, ?_, ?_, .inl rfl, ?_, rfl⟩
    · intro i inside
      exact cachedEntry_eq inside (copied i inside)
    · intro k inside
      cases inside
    · intro record member
      cases member
  · refine ⟨fun i => (psSHP.panRecOffset i, psSHP.panRecSize i), ⟨?_, ?_⟩, ?_⟩
    · rintro i inside (nothing | here)
      · obtain ⟨page, here⟩ := something
        exact absurd here (nothing page)
      · exact cachedEntry_eq inside (caching.cached i inside here)
    · intro i _ away
      exact (caching.fresh i away).trans (garbage i)
    · have short : opened.fpSHX.length < psSHP.posSHX + 8 * psSHP.nRecords := by
        rw [fpSHX, length_append, length, length_putEntries, nRecords]
        omega
      rw [fillIndex_at_end big { psSHP with bUpdated := true } partly (by rwa [← sameFile] at short)]
      refine ⟨nRecords, sameType, sameFile, sameSize, fun i _ => rfl, ?_, ?_, ?_, rfl⟩
      · intro k inside
        cases inside
      · refine .inr ⟨partly, some_record something, ?_⟩
        rw [sameFile]
        exact Nat.le_max_right ..
      · intro record member
        cases member

end Filled

section Session
variable [LT α] [DecidableLT α] (rep : DoubleRep α) (big : Bool)

def session (malloc : Nat → Int × Int) (buffers : Nat → Nat → UInt8) (fpSHP fpSHX : List UInt8) (reads : List ReadCall)
    (shapes : List (ShapeObj α)) : Option (List UInt8 × List UInt8) :=
  match msSHPOpenVirtualFile rep big malloc fpSHP fpSHX with
  | .error _ => none
  | .ok psSHP =>
    (appendShapes rep big buffers (reads.foldl (applyRead rep big) psSHP) shapes).map
      (msSHPClose rep big)

/-- The files have the records `appended` at their places, and an index of all records, the old ones first. -/
structure IndexKept (entries : List (Int × Int)) (appended : List (Nat × List UInt8)) (files : List UInt8 × List UInt8) :
    Prop where
  index : ∃ header, files.2 = header ++ putEntries big (entries ++ appended.map recordEntry) ∧
    header.length = 100 ∧
    Holds header 24 (putWord big (!big) (50 + 4 * (entries.length + appended.length) : Nat))
  records : ∀ record ∈ appended, Holds files.1 record.1 record.2
  words : ∀ record ∈ appended, 2 ∣ record.1 ∧ 2 ∣ record.2.length ∧ 8 ≤ record.2.length

def KeepsIndex (nRecords : Nat) (reads : List ReadCall) (shapes : List (ShapeObj α)) : Prop :=
  shapes = [] ∨ (∀ page, ¬ Asked nRecords reads page) ∨ ∀ i < nRecords, Asked nRecords reads (i / SHX_BUFFER_PAGE)

section Files
variable {rep big} {entries : List (Int × Int)} {nHalfFileSize : Nat} {nShapeType : UInt8}
  {fpSHP fpSHX : List UInt8} (shapefile : IsShapefile big entries nHalfFileSize nShapeType fpSHP fpSHX)
  (malloc : Nat → Int × Int) {buffers : Nat → Nat → UInt8} (reads : List ReadCall) {shapes : List (ShapeObj α)}
  {appended : List (Nat × List UInt8)}

include shapefile

theorem session_unwritten :
    session rep big malloc buffers fpSHP fpSHX reads [] = some (fpSHP, fpSHX) := by
  obtain ⟨opened, opens, start, sameSHP, sameSHX, -⟩ := msSHPOpenVirtualFile_opened rep big shapefile malloc
  have frame := (applyReads_caching rep big start reads).frame
  have clean : (reads.foldl (applyRead rep big) opened).bUpdated = false := by
    rw [frame, ← start.bUpdated]
  rw [session, opens]
  dsimp only
  rw [appendShapes, map_some, msSHPClose, if_neg (by rw [clean]; exact Bool.false_ne_true), frame, ← sameSHP,
    ← sameSHX]

/-- The files after a session that writes: the index has what the first write found, and then the new records. -/
theorem session_written (some_shape : shapes ≠ [])
    (records : appendedRecords rep big buffers nShapeType.toNat (2 * nHalfFileSize) entries.length shapes =
      some appended) :
    ∃ files header base, session rep big malloc buffers fpSHP fpSHX reads shapes = some files ∧
      files.2 = header ++ putEntries big
        ((List.range entries.length).map (fun i => halfEntry (base i)) ++ appended.map recordEntry) ∧
      header.length = 100 ∧
      Holds header 24 (putWord big (!big) (50 + 4 * (entries.length + appended.length) : Nat)) ∧
      (∀ record ∈ appended, Holds files.1 record.1 record.2) ∧
      (∀ record ∈ appended, 2 ∣ record.1 ∧ 2 ∣ record.2.length ∧ 8 ≤ record.2.length) ∧
      Found entries malloc (Asked entries.length reads) base := by
  obtain ⟨opened, opens, start, sameSHP, sameSHX, type, fileSize, garbage⟩ :=
    msSHPOpenVirtualFile_opened rep big shapefile malloc
  have some_record : (∃ page, Asked entries.length reads page) → 0 < entries.length := by
    rintro ⟨page, call, member, low, high, -⟩
    omega
  obtain ⟨base, found, appending⟩ := fillIndex_caching big start (applyReads_caching rep big start reads)
    some_record fileSize garbage
  rw [type] at appending
  have large := shapefile.large
  obtain ⟨after, run, outcome⟩ :=
    appendShapes_appending rep big appending (by omega) (Nat.dvd_mul_right ..) records
  rcases outcome with ⟨nothing, -⟩ | ⟨total, complete⟩
  · exact absurd nothing some_shape
  · rw [nil_append] at complete
    obtain ⟨header, length, fpSHX⟩ := start.index
    obtain ⟨newHeader, newLength, count, index, places⟩ :=
      msSHPClose_appending rep big complete fpSHX length (length_putEntries ..)
    refine ⟨msSHPClose rep big after, newHeader, base, ?_, index, newLength, count, places, ?_, found⟩
    · rw [session, opens]
      dsimp only
      rw [run, map_some]
    · intro record member
      exact (complete.records record member).2.2.2

end Files

theorem putEntries_offset {header header' : List UInt8} (length : header.length = 100) (length' : header'.length = 100)
    {first second : List (Int × Int)} (same : header ++ putEntries big first = header' ++ putEntries big second)
    {i : Nat} (inside : i < first.length) (inside' : i < second.length) :
    int32 first[i].1 = int32 second[i].1 := by
  have bytes := (append_inj same (by rw [length, length'])).2
  have one : Holds (putEntries big first) (0 + 8 * i) (putEntry big first[i].1 first[i].2) :=
    holds_flatMap (fun entry => length_putEntry ..) ⟨[], [], by rw [nil_append, append_nil]; rfl, rfl⟩ inside
  have two : Holds (putEntries big second) (0 + 8 * i) (putEntry big second[i].1 second[i].2) :=
    holds_flatMap (fun entry => length_putEntry ..) ⟨[], [], by rw [nil_append, append_nil]; rfl, rfl⟩ inside'
  rw [bytes] at one
  have words := (take_drop_of_holds one (length_putEntry ..)).symm.trans (take_drop_of_holds two (length_putEntry ..))
  have word := (append_inj words (by rw [length_putWord, length_putWord])).1
  have value : ∀ word, getWord big (!big) (putWord big (!big) word) = int32 word :=
    fun word => getWord_putWord rfl word
  rw [← value, word, value]

theorem index_lost {entries : List (Int × Int)} {nHalfFileSize : Nat} {nShapeType : UInt8} {fpSHP fpSHX : List UInt8}
    (shapefile : IsShapefile big entries nHalfFileSize nShapeType fpSHP fpSHX) {buffers : Nat → Nat → UInt8}
    {reads : List ReadCall} {shapes : List (ShapeObj α)} {appended : List (Nat × List UInt8)}
    (records : appendedRecords rep big buffers nShapeType.toNat (2 * nHalfFileSize) entries.length shapes =
      some appended)
    (some_shape : shapes ≠ []) (some_page : ∃ page, Asked entries.length reads page) {i : Nat}
    (inside : i < entries.length) (away : ¬ Asked entries.length reads (i / SHX_BUFFER_PAGE)) :
    ¬ ∃ files, session rep big (fun _ => (0, 0)) buffers fpSHP fpSHX reads shapes = some files ∧
      IndexKept big entries appended files := by
  rintro ⟨files, runs, ⟨header, index, length, -⟩, -⟩
  obtain ⟨files', header', base, runs', index', length', -, -, -, found⟩ :=
    session_written shapefile (fun _ => (0, 0)) reads some_shape records
  obtain rfl := Option.some.inj (runs.symm.trans runs')
  have same := putEntries_offset big length length' (index.symm.trans index')
    (by rw [length_append]; omega : i < _)
    (by rw [length_append, length_map, length_range]; omega)
  have zero : (base i).1 = 0 := found.unread i some_page away
  obtain ⟨positive, small⟩ := shapefile.offsets entries[i] (getElem_mem inside)
  rw [getElem_append_left inside, getElem_append_left (by rwa [length_map, length_range]),
    getElem_map, getElem_range, halfEntry, zero] at same
  unfold INT_MAX at small
  rw [int32_of_range (by omega) (by omega)] at same
  exact absurd same (by rw [Int.zero_tdiv, int32_of_range (by omega) (by omega)]; omega)

theorem index_kept_iff {entries : List (Int × Int)} {nHalfFileSize : Nat} {nShapeType : UInt8} {fpSHP fpSHX : List UInt8}
    (shapefile : IsShapefile big entries nHalfFileSize nShapeType fpSHP fpSHX) {buffers : Nat → Nat → UInt8}
    (reads : List ReadCall) {shapes : List (ShapeObj α)} {appended : List (Nat × List UInt8)}
    (records : appendedRecords rep big buffers nShapeType.toNat (2 * nHalfFileSize) entries.length shapes =
      some appended) :
    (∀ malloc, ∃ files, session rep big malloc buffers fpSHP fpSHX reads shapes = some files ∧
      IndexKept big entries appended files) ↔ KeepsIndex entries.length reads shapes := by
  constructor
  · intro kept
    by_contra fails
    rw [KeepsIndex, not_or, not_or] at fails
    obtain ⟨some_shape, some_page, some_hole⟩ := fails
    push Not at some_page some_hole
    obtain ⟨i, inside, away⟩ := some_hole
    exact index_lost rep big shapefile records some_shape some_page inside away (kept _)
  · intro keeps malloc
    by_cases nothing : shapes = []
    · subst nothing
      obtain rfl := Option.some.inj records
      obtain ⟨header, index, length, -, count, -⟩ := shapefile.index
      refine ⟨(fpSHP, fpSHX), session_unwritten shapefile malloc reads, ⟨header, ?_, length, count⟩, ?_, ?_⟩
      · rw [List.map_nil, List.append_nil]
        exact index
      · intro record member
        cases member
      · intro record member
        cases member
    · obtain ⟨files, header, base, runs, index, length, count, places, words, found⟩ :=
        session_written shapefile malloc reads nothing records
      have cached : ∀ i < entries.length, base i = cachedEntry entries i := by
        intro i inside
        apply found.cached i inside
        rcases keeps with impossible | none_asked | all_asked
        · exact absurd impossible nothing
        · exact .inl none_asked
        · exact .inr (all_asked i inside)
      have old : (List.range entries.length).map (fun i => halfEntry (base i)) = entries := by
        conv_rhs => rw [← halfEntry_cachedEntry entries]
        apply List.map_congr_left
        intro i member
        rw [cached i (List.mem_range.mp member)]
      rw [old] at index
      exact ⟨files, runs, ⟨header, index, length, count⟩, places, words⟩

end Session

def samplePlace : PointObj (BitVec 64) := { x := 1, y := 2, z := 0, m := 0 }

def samplePoint : ShapeObj (BitVec 64) where
  line := [[samplePlace]]
  bounds := { minx := 1, miny := 2, maxx := 1, maxy := 2 }
  type := .MS_SHAPE_POINT
  index := -1

def pointEntries (n : Nat) : List (Int × Int) := (List.range n).map fun i => ((50 + 14 * i : Nat), 10)

def pointFile (n : Nat) : List UInt8 × List UInt8 :=
  let header (nHalfFileSize : Nat) := shapeFileHeader bitsRep false nHalfFileSize SHP_POINT samplePlace samplePlace
  let record (i : Nat) := putWord false true (i + 1) ++ putWord false true 10 ++ putWord false false SHP_POINT ++
    coordinateBytes bitsRep false samplePlace
  (header (50 + 14 * n) ++ (List.range n).flatMap record, header (50 + 4 * n) ++ putEntries false (pointEntries n))

theorem holds_shapeFileHeader_type (nHalfFileSize nShapeType : Int) (low high : PointObj (BitVec 64)) :
    Holds (shapeFileHeader bitsRep false nHalfFileSize nShapeType low high) 32 (putWord false false nShapeType) := by
  refine ⟨[0, 0, 0x27, 0x0a] ++ replicate 20 0 ++ putWord false true nHalfFileSize ++ putWord false false 1000,
    ?_, ?_, ?_⟩
  rotate_left
  · simp only [shapeFileHeader, append_assoc]
    rfl
  · rfl

theorem pointFile_shapefile {n : Nat} (few : n ≤ 10000) :
    IsShapefile false (pointEntries n) (50 + 14 * n) 1 (pointFile n).1 (pointFile n).2 := by
  have length : (pointEntries n).length = n := by rw [pointEntries, length_map, length_range]
  have entry_bounds : ∀ entry ∈ pointEntries n, 0 < entry.1 ∧ entry.1 < INT_MAX / 2 ∧ entry.2 = 10 := by
    intro entry member
    obtain ⟨i, inside, rfl⟩ := List.mem_map.mp member
    rw [mem_range] at inside
    unfold INT_MAX
    omega
  refine ⟨⟨_, rfl, length_shapeFileHeader .., .inl rfl, ?_, ?_⟩, by omega, ?_, ?_, ?_, ?_, by omega, ?_⟩
  · rw [length]
    exact holds_shapeFileHeader ..
  · have type : Holds (shapeFileHeader bitsRep false (50 + 4 * n : Nat) SHP_POINT samplePlace samplePlace) 32
        ([1] ++ [0, 0, 0]) := holds_shapeFileHeader_type ..
    exact (holds_append type).1
  · intro entry member
    exact ⟨(entry_bounds entry member).1, (entry_bounds entry member).2.1⟩
  · intro entry member
    rw [(entry_bounds entry member).2.2]
    decide
  · rw [pointFile, length_append, length_shapeFileHeader]
    exact Nat.le_add_right ..
  · exact holds_append_right (holds_shapeFileHeader bitsRep false _ SHP_POINT samplePlace samplePlace) _
  · unfold INT_MAX
    omega

def sampleAppended (n : Nat) : List (Nat × List UInt8) :=
  (appendedRecords bitsRep false (fun _ _ => 0) SHP_POINT (2 * (50 + 14 * n)) n [samplePoint]).getD []

theorem index_kept_iff_two :
    (∀ malloc, ∃ files, session bitsRep false malloc (fun _ _ => 0) (pointFile 2).1 (pointFile 2).2
        [.readShape 0, .readBounds 1] [samplePoint] = some files ∧
      IndexKept false (pointEntries 2) (sampleAppended 2) files) ↔
      KeepsIndex (pointEntries 2).length [.readShape 0, .readBounds 1] [samplePoint] :=
  index_kept_iff bitsRep false (pointFile_shapefile (by decide)) _ (by decide +kernel)

theorem index_lost_page :
    ¬ ∀ (malloc : Nat → Int × Int) (reads : List ReadCall) (shapes : List (ShapeObj (BitVec 64)))
      (entries : List (Int × Int)) (nHalfFileSize : Nat) (nShapeType : UInt8) (fpSHP fpSHX : List UInt8)
      (appended : List (Nat × List UInt8)), IsShapefile false entries nHalfFileSize nShapeType fpSHP fpSHX →
      appendedRecords bitsRep false (fun _ _ => 0) nShapeType.toNat (2 * nHalfFileSize) entries.length shapes =
        some appended →
      ∃ files, session bitsRep false malloc (fun _ _ => 0) fpSHP fpSHX reads shapes = some files ∧
        IndexKept false entries appended files := by
  intro always
  have shapefile := pointFile_shapefile (by decide : 1025 ≤ 10000)
  have records : appendedRecords bitsRep false (fun _ _ => 0) (1 : UInt8).toNat (2 * (50 + 14 * 1025))
      (pointEntries 1025).length [samplePoint] = some (sampleAppended 1025) := by decide +kernel
  have length : (pointEntries 1025).length = 1025 := by rw [pointEntries, List.length_map, List.length_range]
  have first : Asked (pointEntries 1025).length [.readShape 0] 0 :=
    ⟨.readShape 0, List.mem_singleton_self _, by decide, by rw [length]; decide, by decide⟩
  have second : ¬ Asked (pointEntries 1025).length [.readShape 0] (1024 / SHX_BUFFER_PAGE) := by
    rintro ⟨call, member, -, -, here⟩
    obtain rfl := List.mem_singleton.mp member
    exact absurd here (by decide)
  exact index_lost bitsRep false shapefile records (by simp) ⟨0, first⟩ (by omega : 1024 < _) second
    (always _ _ _ _ _ _ _ _ _ shapefile records)

end MapServer
