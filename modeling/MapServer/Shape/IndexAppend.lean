import MapServer.Shape.IndexCache

namespace MapServer
open Lib.ByteFile List Option Function

variable {α : Type}

theorem cacheEntries_frame (big : Bool) (psSHP : SHPHandle α) (first count : Nat) (buffer : List UInt8) :
    ∃ panRecOffset panRecSize,
      cacheEntries big psSHP first count buffer = { psSHP with panRecOffset, panRecSize } := by
  induction count generalizing psSHP first buffer with
  | zero => exact ⟨_, _, rfl⟩
  | succ count ih =>
    obtain ⟨panRecOffset, panRecSize, run⟩ := ih (psSHP.setEntry first
      (indexBytes (getWord big (!big) (buffer.take 4)))
      (indexBytes (getWord big (!big) ((buffer.drop 4).take 4)))) (first + 1) (buffer.drop 8)
    exact ⟨panRecOffset, panRecSize, run⟩

theorem fillIndex_frame (big : Bool) (psSHP : SHPHandle α) :
    ∃ posSHX panRecOffset panRecSize panRecAllLoaded,
      fillIndex big psSHP = { psSHP with posSHX, panRecOffset, panRecSize, panRecAllLoaded } := by
  unfold fillIndex
  split
  · exact ⟨_, _, _, _, rfl⟩
  · unfold msSHXLoadAll
    split
    · exact ⟨_, _, _, _, rfl⟩
    · rename_i buffer reads
      obtain ⟨panRecOffset, panRecSize, run⟩ := cacheEntries_frame big psSHP 0 psSHP.nRecords buffer
      rw [run]
      exact ⟨_, _, _, _, rfl⟩

@[simp] theorem fillIndex_nRecords (big : Bool) (psSHP : SHPHandle α) :
    (fillIndex big psSHP).nRecords = psSHP.nRecords := by
  obtain ⟨_, _, _, _, same⟩ := fillIndex_frame big psSHP
  rw [same]

@[simp] theorem fillIndex_nFileSize (big : Bool) (psSHP : SHPHandle α) :
    (fillIndex big psSHP).nFileSize = psSHP.nFileSize := by
  obtain ⟨_, _, _, _, same⟩ := fillIndex_frame big psSHP
  rw [same]

theorem fillIndex_at_end (big : Bool) (psSHP : SHPHandle α) (partly : psSHP.panRecAllLoaded = false)
    (short : psSHP.fpSHX.length < psSHP.posSHX + 8 * psSHP.nRecords) :
    fillIndex big psSHP = { psSHP with posSHX := max psSHP.posSHX psSHP.fpSHX.length } := by
  unfold fillIndex msSHXLoadAll
  rw [if_neg (by rw [partly]; exact Bool.false_ne_true), readAt, if_neg (by omega)]

theorem fillIndex_from_start (big : Bool) (psSHP : SHPHandle α) {entries : List (Int × Int)}
    (offsets : ∀ entry ∈ entries, 0 < entry.1 ∧ entry.1 < INT_MAX / 2)
    (sizes : ∀ entry ∈ entries, 0 < entry.2 ∧ entry.2 < INT_MAX / 2) {header : List UInt8}
    (length : header.length = 100) (fpSHX : psSHP.fpSHX = header ++ putEntries big entries)
    (nRecords : psSHP.nRecords = entries.length) (position : psSHP.posSHX = 100)
    (partly : psSHP.panRecAllLoaded = false) :
    ∃ posSHX panRecOffset panRecSize,
      fillIndex big psSHP = { psSHP with posSHX, panRecOffset, panRecSize, panRecAllLoaded := true } ∧
      ∀ i, (inside : i < entries.length) → panRecOffset i = 2 * entries[i].1 ∧ panRecSize i = 2 * entries[i].2 := by
  have holds : Holds psSHP.fpSHX 100 (putEntries big entries) :=
    ⟨header, [], by rw [fpSHX, append_nil], length⟩
  have reads : readAt psSHP.fpSHX 100 (8 * entries.length) = some (putEntries big entries) :=
    readAt_of_holds holds (length_putEntries ..)
  obtain ⟨panRecOffset, panRecSize, run, copied, -⟩ := cacheEntries_entries big offsets sizes psSHP 0
  refine ⟨100 + 8 * entries.length, panRecOffset, panRecSize, ?_, ?_⟩
  · unfold fillIndex msSHXLoadAll
    rw [if_neg (by rw [partly]; exact Bool.false_ne_true), position, nRecords]
    simp only [reads, run]
    rw [nRecords]
  · intro i inside
    have found := copied i inside
    rwa [Nat.zero_add] at found

/-- A handle while shapes are appended: `base` is the index of the `n` old records, and `done` the place and the bytes of
each new one. A cache that is only partly filled stays so, because `.shx` has been read to its end. -/
structure Appending (n : Nat) (base : Nat → Int × Int) (type : Int) (index : List UInt8)
    (done : List (Nat × List UInt8)) (size : Nat) (psSHP : SHPHandle α) : Prop where
  nRecords : psSHP.nRecords = n + done.length
  nShapeType : psSHP.nShapeType = type
  fpSHX : psSHP.fpSHX = index
  nFileSize : psSHP.nFileSize = size
  kept : ∀ i < n, (psSHP.panRecOffset i, psSHP.panRecSize i) = base i
  added : ∀ k, (inside : k < done.length) →
    psSHP.panRecOffset (n + k) = done[k].1 ∧ psSHP.panRecSize (n + k) + 8 = done[k].2.length
  filled : psSHP.panRecAllLoaded = true ∨ psSHP.panRecAllLoaded = false ∧ 0 < n ∧ index.length ≤ psSHP.posSHX
  records : ∀ record ∈ done, Holds psSHP.fpSHP record.1 record.2 ∧ record.1 + record.2.length ≤ size ∧
    100 ≤ record.1 ∧ 2 ∣ record.1 ∧ 2 ∣ record.2.length ∧ 8 ≤ record.2.length
  bUpdated : psSHP.bUpdated = true

section Append
variable {n : Nat} {base : Nat → Int × Int} {type : Int} {index : List UInt8} {done : List (Nat × List UInt8)}
  {size : Nat} {psSHP : SHPHandle α}

theorem Appending.fill (big : Bool) (appending : Appending n base type index done size psSHP) :
    Appending n base type index done size (fillIndex big { psSHP with bUpdated := true }) := by
  rcases appending.filled with whole | ⟨partly, positive, stuck⟩
  · have same : fillIndex big { psSHP with bUpdated := true } = { psSHP with bUpdated := true } := if_pos whole
    rw [same]
    exact { appending with bUpdated := rfl }
  · have short : psSHP.fpSHX.length < psSHP.posSHX + 8 * psSHP.nRecords := by
      rw [appending.fpSHX, appending.nRecords]
      omega
    rw [fillIndex_at_end big { psSHP with bUpdated := true } partly short]
    exact { appending with filled := .inr ⟨partly, positive, by dsimp only; omega⟩, bUpdated := rfl }

variable [LT α] [DecidableLT α] (rep : DoubleRep α) (big : Bool)

theorem expandBounds_frame {line : List (LineObj α)} {grown : Option (SHPHandle α)}
    (grows : expandBounds psSHP line = grown) (first : psSHP.nRecords = 1 → (firstPoint line).isSome) :
    ∃ adBoundsMin adBoundsMax, grown = some { psSHP with adBoundsMin, adBoundsMax } := by
  subst grows
  unfold expandBounds
  by_cases one : psSHP.nRecords = 1
  · obtain ⟨point, start⟩ := isSome_iff_exists.mp (first one)
    rw [if_pos one, start]
    exact ⟨_, _, rfl⟩
  · rw [if_neg one]
    exact ⟨_, _, rfl⟩

/-- What a write does to a handle whose cache has been filled, when it is given a shape that it can write. -/
theorem msSHPWriteShape_frame {malloc : Nat → UInt8} {filled : SHPHandle α} {shape : ShapeObj α} {record : List UInt8}
    {nRecordSize : Nat} (fill : fillIndex big { psSHP with bUpdated := true } = filled)
    (nFileSize : filled.nFileSize = size) (past_header : 100 ≤ size)
    (made : shapeRecord rep big malloc filled.nShapeType (filled.nRecords + 1 : Nat) shape =
      some (record, nRecordSize))
    (fits : (size : Int) + (nRecordSize + 8) ≤ INT_MAX)
    (start : filled.nRecords = 0 → (firstPoint shape.line).isSome) :
    ∃ adBoundsMin adBoundsMax nMaxRecords, msSHPWriteShape rep big malloc psSHP shape =
      some ({ filled with
        fpSHP := writeAt filled.fpSHP size record, nRecords := filled.nRecords + 1, nMaxRecords
        nFileSize := (size + (nRecordSize + 8) : Nat)
        panRecOffset := update filled.panRecOffset filled.nRecords size
        panRecSize := update filled.panRecSize filled.nRecords nRecordSize
        adBoundsMin, adBoundsMax }, (filled.nRecords : Int)) := by
  have unfilled : psSHP.nFileSize = size := by
    rw [← nFileSize, ← fill, fillIndex_nFileSize]
  have checked : checkedInt ((size : Int) + (nRecordSize + 8)) = some ((size + (nRecordSize + 8) : Nat) : Int) := by
    rw [checkedInt_of_range (by omega) fits]
    rfl
  unfold msSHPWriteShape
  rw [if_neg (by omega)]
  rw [fill]
  dsimp only
  rw [made, bind_eq_bind, bind_some]
  rw [nFileSize, checked, bind_eq_bind, bind_some]
  generalize (if filled.nRecords + 1 > filled.nMaxRecords then _ else _ : Nat) = nMaxRecords
  generalize grows : expandBounds _ shape.line = grown
  obtain ⟨adBoundsMin, adBoundsMax, rfl⟩ := expandBounds_frame grows fun one => start (Nat.succ.inj one)
  refine ⟨adBoundsMin, adBoundsMax, nMaxRecords, ?_⟩
  have last : ((filled.nRecords + 1 : Nat) : Int) - 1 = filled.nRecords := by omega
  rw [bind_eq_bind, bind_some, last]
  rfl

theorem msSHPWriteShape_appending {malloc : Nat → UInt8} {shape : ShapeObj α} {record : List UInt8} {nRecordSize : Nat}
    (appending : Appending n base type index done size (fillIndex big { psSHP with bUpdated := true }))
    (past_header : 100 ≤ size) (even : 2 ∣ size)
    (made : shapeRecord rep big malloc type (n + done.length + 1 : Nat) shape = some (record, nRecordSize))
    (fits : (size : Int) + (nRecordSize + 8) ≤ INT_MAX)
    (start : n + done.length = 0 → (firstPoint shape.line).isSome) :
    ∃ after, msSHPWriteShape rep big malloc psSHP shape = some (after, ((n + done.length : Nat) : Int)) ∧
      Appending n base type index (done ++ [(size, record)]) (size + (nRecordSize + 8)) after := by
  obtain ⟨length, even_record⟩ := shapeRecord_size rep big made
  generalize fill : fillIndex big { psSHP with bUpdated := true } = filled at appending
  rw [← appending.nShapeType, ← appending.nRecords] at made
  rw [← appending.nRecords] at start ⊢
  obtain ⟨adBoundsMin, adBoundsMax, nMaxRecords, run⟩ :=
    msSHPWriteShape_frame rep big fill appending.nFileSize past_header made fits start
  refine ⟨_, run, ?_⟩
  have count := appending.nRecords
  refine { appending with nRecords := ?_, nFileSize := rfl, kept := ?_, added := ?_, records := ?_ }
  · rw [length_append, length_singleton]
    dsimp only
    omega
  · intro i old
    have other : i ≠ filled.nRecords := by omega
    simp only [update_of_ne other]
    exact appending.kept i old
  · intro k inside
    rw [length_append, length_singleton] at inside
    by_cases last : k = done.length
    · subst last
      simp only [← count, update_self, getElem_concat_length]
      exact ⟨trivial, by rw [length]; rfl⟩
    · have other : n + k ≠ filled.nRecords := by omega
      simp only [update_of_ne other]
      rw [getElem_append_left (by omega)]
      exact appending.added k (by omega)
  · intro other member
    rcases mem_append.mp member with old | new
    · obtain ⟨holds, below, rest⟩ := appending.records other old
      exact ⟨writeAt_beside (.inl below) holds, by omega, rest⟩
    · obtain rfl := mem_singleton.mp new
      dsimp only
      exact ⟨holds_writeAt .., by omega, past_header, even, by omega, by omega⟩

def appendShapes (buffers : Nat → Nat → UInt8) (psSHP : SHPHandle α) : List (ShapeObj α) → Option (SHPHandle α)
  | [] => some psSHP
  | shape :: rest => do
    let (psSHP, _) ← msSHPWriteShape rep big (buffers psSHP.nRecords) psSHP shape
    appendShapes buffers psSHP rest

/-- The place and the bytes of each record that the shapes make, after `n` records in a file of `size` bytes. There is no
outcome where a write computes something that C does not define. -/
def appendedRecords (buffers : Nat → Nat → UInt8) (nShapeType : Int) (size n : Nat) :
    List (ShapeObj α) → Option (List (Nat × List UInt8))
  | [] => some []
  | shape :: rest => do
    let (record, nRecordSize) ← shapeRecord rep big (buffers n) nShapeType (n + 1 : Nat) shape
    if (size : Int) + (nRecordSize + 8) > INT_MAX ∨ n = 0 ∧ (firstPoint shape.line).isNone then none
    else do
      let others ← appendedRecords buffers nShapeType (size + (nRecordSize + 8)) (n + 1) rest
      some ((size, record) :: others)

theorem appendShapes_appending {buffers : Nat → Nat → UInt8} {shapes : List (ShapeObj α)}
    {appended : List (Nat × List UInt8)}
    (appending : Appending n base type index done size (fillIndex big { psSHP with bUpdated := true }))
    (past_header : 100 ≤ size) (even : 2 ∣ size)
    (records : appendedRecords rep big buffers type size (n + done.length) shapes = some appended) :
    ∃ after, appendShapes rep big buffers psSHP shapes = some after ∧
      (shapes = [] ∧ after = psSHP ∨ ∃ total, Appending n base type index (done ++ appended) total after) := by
  induction shapes generalizing psSHP done size appended with
  | nil => exact ⟨psSHP, rfl, .inl ⟨rfl, rfl⟩⟩
  | cons shape rest ih =>
    obtain ⟨⟨record, nRecordSize⟩, made, records⟩ := bind_eq_some_iff.mp records
    dsimp only at records
    split at records
    · cases records
    · rename_i defined
      rw [not_or, not_and, not_lt, isNone_iff_eq_none, ← ne_eq, ne_none_iff_isSome] at defined
      obtain ⟨others, rest_records, same⟩ := bind_eq_some_iff.mp records
      obtain rfl := Option.some.inj same
      have count : psSHP.nRecords = n + done.length := by
        rw [← appending.nRecords, fillIndex_nRecords]
      obtain ⟨middle, run, next⟩ :=
        msSHPWriteShape_appending rep big appending past_header even made defined.1 defined.2
      obtain ⟨length, even_record⟩ := shapeRecord_size rep big made
      have more : n + done.length + 1 = n + (done ++ [(size, record)]).length := by
        rw [length_append, length_singleton, Nat.add_assoc]
      rw [more] at rest_records
      obtain ⟨after, later, outcome⟩ := ih (next.fill big) (by omega) (by omega) rest_records
      refine ⟨after, ?_, .inr ?_⟩
      · unfold appendShapes
        rw [count, run, bind_eq_bind, bind_some]
        exact later
      · rcases outcome with ⟨rfl, rfl⟩ | ⟨total, complete⟩
        · obtain rfl := Option.some.inj rest_records
          exact ⟨_, next⟩
        · rw [append_assoc] at complete
          exact ⟨total, complete⟩

end Append

section Close
variable (rep : DoubleRep α) (big : Bool) {n : Nat} {base : Nat → Int × Int} {type : Int} {index : List UInt8}
  {done : List (Nat × List UInt8)} {size : Nat} {psSHP : SHPHandle α}

def recordEntry (record : Nat × List UInt8) : Int × Int := ((record.1 / 2 : Nat), ((record.2.length - 8) / 2 : Nat))

/-- The index of a record as `writeHeader` divides it. -/
def halfEntry (entry : Int × Int) : Int × Int := (entry.1.tdiv 2, entry.2.tdiv 2)

@[simp] theorem length_shapeFileHeader (nHalfFileSize nShapeType : Int) (low high : PointObj α) :
    (shapeFileHeader rep big nHalfFileSize nShapeType low high).length = 100 := by
  simp [shapeFileHeader]

theorem holds_shapeFileHeader (nHalfFileSize nShapeType : Int) (low high : PointObj α) :
    Holds (shapeFileHeader rep big nHalfFileSize nShapeType low high) 24
      (putWord big (!big) nHalfFileSize) := by
  refine ⟨[0, 0, 0x27, 0x0a] ++ replicate 20 0, ?_, ?_, ?_⟩
  rotate_left
  · simp only [shapeFileHeader, append_assoc]
    rfl
  · rfl

theorem Appending.entries (appending : Appending n base type index done size psSHP) :
    (List.range psSHP.nRecords).map (fun i => halfEntry (psSHP.panRecOffset i, psSHP.panRecSize i)) =
      (List.range n).map (fun i => halfEntry (base i)) ++ done.map recordEntry := by
  rw [appending.nRecords, range_add, map_append, List.map_map]
  congr 1
  · apply map_congr_left
    intro i member
    rw [appending.kept i (mem_range.mp member)]
  · apply ext_getElem
    · rw [length_map, length_range, length_map]
    · intro k inside _
      rw [length_map, length_range] at inside
      obtain ⟨offset, recordSize⟩ := appending.added k inside
      have long := (appending.records done[k] (getElem_mem inside)).2.2.2.2.2
      have recordSize : psSHP.panRecSize (n + k) = (done[k].2.length - 8 : Nat) := by omega
      rw [getElem_map, getElem_map, getElem_range, comp_apply, offset, recordSize]
      rfl

theorem msSHPClose_appending (appending : Appending n base type index done size psSHP) {header rest : List UInt8}
    (split : index = header ++ rest) (header_length : header.length = 100) (rest_length : rest.length = 8 * n) :
    ∃ start, start.length = 100 ∧
      Holds start 24 (putWord big (!big) (50 + 4 * (n + done.length) : Nat)) ∧
      (msSHPClose rep big psSHP).2 =
        start ++ putEntries big ((List.range n).map (fun i => halfEntry (base i)) ++ done.map recordEntry) ∧
      ∀ record ∈ done, Holds (msSHPClose rep big psSHP).1 record.1 record.2 := by
  have half : ((psSHP.nRecords * 8 + 100 : Nat) : Int) / 2 = (50 + 4 * (n + done.length) : Nat) := by
    rw [appending.nRecords]
    omega
  have covers : rest.length ≤ ((List.range psSHP.nRecords).flatMap fun i =>
      putEntry big ((psSHP.panRecOffset i).tdiv 2) ((psSHP.panRecSize i).tdiv 2)).length := by
    rw [length_flatMap_of_even (fun i => length_putEntry ..), length_range, rest_length, appending.nRecords]
    omega
  unfold msSHPClose
  rw [if_pos appending.bUpdated]
  simp only [writeHeader, half]
  generalize made : shapeFileHeader rep big (50 + 4 * (n + done.length) : Nat) psSHP.nShapeType
    psSHP.adBoundsMin psSHP.adBoundsMax = start
  have start_length : start.length = 100 := by
    rw [← made, length_shapeFileHeader]
  refine ⟨start, start_length, ?_, ?_, ?_⟩
  · rw [← made]
    exact holds_shapeFileHeader ..
  · rw [← appending.entries, appending.fpSHX, split, writeAt_start (by rw [start_length, header_length]), ← start_length,
      writeAt_tail covers, putEntries, flatMap_map]
    rfl
  · intro record member
    obtain ⟨holds, -, past, -⟩ := appending.records record member
    exact writeAt_beside (.inr (by rw [length_shapeFileHeader]; exact past)) holds

end Close
end MapServer
