import MapServer.Dbf.LastWrite

namespace MapServer
open Lib.ByteFile

def uchar (pabyBuf : List UInt8) (i : Nat) : Option Int := pabyBuf[i]?.map fun c => c.toNat

def headerRecords (pabyBuf : List UInt8) : Option Int := do
  let highest ← uchar pabyBuf 7
  if highest < 128 then do
    let first ← uchar pabyBuf 4
    let second ← uchar pabyBuf 5
    let third ← uchar pabyBuf 6
    checkedInt (first + second * 256 + third * 256 * 256 + highest * 256 * 256 * 256)
  else some 0

def headerLength (pabyBuf : List UInt8) (i : Nat) : Option Int := do
  let low ← uchar pabyBuf i
  let high ← uchar pabyBuf (i + 1)
  some (low + high * 256)

def fieldShape (pabyFInfo : List UInt8) : Option (Char × Int × Int) := do
  let type ← uchar pabyFInfo 11
  let pachFieldType := Char.ofNat type.toNat
  if pachFieldType = 'N' ∨ pachFieldType = 'F' then do
    let panFieldSize ← uchar pabyFInfo 16
    let panFieldDecimals ← uchar pabyFInfo 17
    some (pachFieldType, panFieldSize, panFieldDecimals)
  else do
    let panFieldSize ← headerLength pabyFInfo 16
    some (pachFieldType, panFieldSize, 0)

def nextOffset (fields : List DBFField) : Option Int :=
  match fields.getLast? with
  | none => some 1
  | some field => checkedInt (field.panFieldOffset + field.panFieldSize)

def readFieldInfo (pabyBuf : List UInt8) (fields : List DBFField) (iField : Nat) : Option (List DBFField) := do
  let (pachFieldType, panFieldSize, panFieldDecimals) ← fieldShape (pabyBuf.drop (iField * 32))
  let panFieldOffset ← nextOffset fields
  some (fields ++ [{ panFieldOffset, panFieldSize, panFieldDecimals, pachFieldType }])

def readFieldInfos (pabyBuf : List UInt8) (nFields : Nat) : Option (List DBFField) :=
  (List.range nFields).foldlM (readFieldInfo pabyBuf) []

/-- `msDBFOpenVirtualFile` up to the check of the fields. The inner `none` is `NULL`. -/
def readDBFHeader (malloc : Nat → UInt8) (fp : List UInt8) : Option (Option DBFInfo) :=
  match readAt fp 0 32 with
  | none => some none
  | some header => do
    let pabyBuf := header ++ (msSmallMalloc malloc 500).drop 32
    let nRecords ← headerRecords pabyBuf
    let nHeadLen ← headerLength pabyBuf 8
    let nRecLen ← headerLength pabyBuf 10
    if nHeadLen ≤ 32 then some none
    else
      let nFields := (nHeadLen - 32) / 32
      let pabyBuf := SfRealloc malloc pabyBuf nHeadLen.toNat
      match readAt fp 32 (nHeadLen - 32).toNat with
      | none => some none
      | some infos => do
        let pabyBuf := infos ++ pabyBuf.drop infos.length
        let fields ← readFieldInfos pabyBuf nFields.toNat
        some (some {
          nRecords := nRecords.toNat, fields, fp, nRecordLength := nRecLen.toNat, nHeaderLength := nHeadLen
          pszHeader := pabyBuf, nCurrentRecord := -1, bCurrentRecordModified := false
          pszCurrentRecord := msSmallMalloc malloc nRecLen.toNat, bNoHeader := false, bUpdated := false
          nStringFieldLen := 0 })

def checkFieldExtent (psDBF : DBFInfo) : Option (Option DBFInfo) :=
  match psDBF.fields.getLast? with
  | none => some (some psDBF)
  | some field => do
    let fieldEnd ← checkedInt (field.panFieldOffset + field.panFieldSize)
    some (if fieldEnd > psDBF.nRecordLength then none else some psDBF)

def msDBFOpenVirtualFile (malloc : Nat → UInt8) (fp : List UInt8) : Option (Option DBFInfo) := do
  let opened ← readDBFHeader malloc fp
  match opened with
  | none => some none
  | some psDBF => checkFieldExtent psDBF

end MapServer

namespace MapServer
open Lib.ByteFile

variable {pabyBuf : List UInt8}

theorem uchar_inside {i : Nat} (inside : i < pabyBuf.length) :
    ∃ value, uchar pabyBuf i = some value ∧ 0 ≤ value ∧ value ≤ 255 := by
  refine ⟨pabyBuf[i].toNat, by rw [uchar, List.getElem?_eq_getElem inside]; rfl, by omega, ?_⟩
  have := pabyBuf[i].toNat_lt
  omega

theorem headerLength_inside {i : Nat} (inside : i + 1 < pabyBuf.length) :
    ∃ value, headerLength pabyBuf i = some value ∧ 0 ≤ value ∧ value ≤ 65535 := by
  obtain ⟨low, isLow, _, _⟩ := uchar_inside (Nat.lt_of_succ_lt inside)
  obtain ⟨high, isHigh, _, _⟩ := uchar_inside inside
  refine ⟨low + high * 256, ?_, by omega, by omega⟩
  simp only [headerLength, isLow, isHigh, Option.bind_eq_bind, Option.bind_some]

theorem headerRecords_inside (inside : 32 ≤ pabyBuf.length) : ∃ nRecords, headerRecords pabyBuf = some nRecords := by
  obtain ⟨highest, isHighest, _, _⟩ := uchar_inside (by omega : 7 < pabyBuf.length)
  obtain ⟨first, isFirst, _, _⟩ := uchar_inside (by omega : 4 < pabyBuf.length)
  obtain ⟨second, isSecond, _, _⟩ := uchar_inside (by omega : 5 < pabyBuf.length)
  obtain ⟨third, isThird, _, _⟩ := uchar_inside (by omega : 6 < pabyBuf.length)
  unfold headerRecords
  simp only [isHighest, isFirst, isSecond, isThird, Option.bind_eq_bind, Option.bind_some]
  by_cases small : highest < 128
  · rw [if_pos small, checkedInt_of_range (by omega) (by unfold INT_MAX; omega)]
    exact ⟨_, rfl⟩
  · rw [if_neg small]
    exact ⟨_, rfl⟩

theorem fieldShape_inside {pabyFInfo : List UInt8} (inside : 18 ≤ pabyFInfo.length) :
    ∃ pachFieldType panFieldSize panFieldDecimals,
      fieldShape pabyFInfo = some (pachFieldType, panFieldSize, panFieldDecimals) ∧
        0 ≤ panFieldSize ∧ panFieldSize ≤ 65535 := by
  obtain ⟨type, isType, _, _⟩ := uchar_inside (by omega : 11 < pabyFInfo.length)
  unfold fieldShape
  simp only [isType, Option.bind_eq_bind, Option.bind_some]
  split
  · obtain ⟨size, isSize, _, _⟩ := uchar_inside (by omega : 16 < pabyFInfo.length)
    obtain ⟨decimals, isDecimals, _, _⟩ := uchar_inside (by omega : 17 < pabyFInfo.length)
    rw [isSize, isDecimals]
    exact ⟨_, size, decimals, rfl, by omega, by omega⟩
  · obtain ⟨size, isSize, low, high⟩ := headerLength_inside (by omega : 16 + 1 < pabyFInfo.length)
    rw [isSize]
    exact ⟨_, size, 0, rfl, low, high⟩

def sizes (fields : List DBFField) : Int := (fields.map DBFField.panFieldSize).sum

@[simp] theorem sizes_append (fields : List DBFField) (field : DBFField) :
    sizes (fields ++ [field]) = sizes fields + field.panFieldSize := by
  simp [sizes]

theorem sizes_bounds {fields : List DBFField}
    (each : ∀ field ∈ fields, 0 ≤ field.panFieldSize ∧ field.panFieldSize ≤ 65535) :
    0 ≤ sizes fields ∧ sizes fields ≤ 65535 * fields.length := by
  induction fields with
  | nil => exact ⟨Int.le_refl 0, Int.le_refl 0⟩
  | cons field rest ih =>
    obtain ⟨low, high⟩ := ih fun other member => each other (List.mem_cons_of_mem _ member)
    obtain ⟨low', high'⟩ := each field List.mem_cons_self
    unfold sizes at *
    rw [List.map_cons, List.sum_cons, List.length_cons]
    omega

structure Consecutive (fields : List DBFField) : Prop where
  offset : ∀ i field, fields[i]? = some field → field.panFieldOffset = 1 + sizes (fields.take i)
  size : ∀ field ∈ fields, 0 ≤ field.panFieldSize ∧ field.panFieldSize ≤ 65535

variable {fields : List DBFField}

theorem Consecutive.sizes_take (consecutive : Consecutive fields) (count : Nat) :
    sizes (fields.take count) ≤ sizes fields := by
  obtain ⟨rest, -⟩ := sizes_bounds fun field member =>
    consecutive.size field (List.mem_of_mem_drop (i := count) member)
  have split : sizes fields = sizes (fields.take count) + sizes (fields.drop count) := by
    unfold sizes
    rw [← List.sum_append, ← List.map_append, List.take_append_drop]
  omega

variable {field : DBFField}

theorem Consecutive.fieldEnd (consecutive : Consecutive fields) {i : Nat} (found : fields[i]? = some field) :
    field.panFieldOffset + field.panFieldSize = 1 + sizes (fields.take (i + 1)) := by
  obtain ⟨inside, here⟩ := List.getElem?_eq_some_iff.mp found
  rw [List.take_succ_eq_append_getElem inside, sizes_append, here, consecutive.offset i field found, Int.add_assoc]

theorem Consecutive.lastEnd (consecutive : Consecutive fields) (last : fields.getLast? = some field) :
    field.panFieldOffset + field.panFieldSize = 1 + sizes fields := by
  rw [List.getLast?_eq_getElem?] at last
  rw [consecutive.fieldEnd last, List.take_of_length_le (by omega)]

theorem Consecutive.nextOffset (consecutive : Consecutive fields) (few : fields.length ≤ 2047) :
    nextOffset fields = some (1 + sizes fields) := by
  have bounds := sizes_bounds consecutive.size
  unfold MapServer.nextOffset
  cases last : fields.getLast? with
  | none =>
    obtain rfl := List.getLast?_eq_none_iff.mp last
    rfl
  | some field =>
    simp only
    rw [consecutive.lastEnd last, checkedInt_of_range (by omega) (by unfold INT_MAX; omega)]

theorem Consecutive.snoc (consecutive : Consecutive fields) (offset : field.panFieldOffset = 1 + sizes fields)
    (low : 0 ≤ field.panFieldSize) (high : field.panFieldSize ≤ 65535) : Consecutive (fields ++ [field]) where
  offset := by
    intro i other found
    obtain ⟨inside, -⟩ := List.getElem?_eq_some_iff.mp found
    rw [List.length_append, List.length_singleton] at inside
    rw [List.take_append_of_le_length (by omega)]
    by_cases last : i = fields.length
    · subst last
      rw [List.getElem?_concat_length] at found
      obtain rfl := Option.some.inj found
      rw [offset, List.take_length]
    · rw [List.getElem?_append_left (by omega)] at found
      exact consecutive.offset i other found
  size := by
    intro other member
    rcases List.mem_append.mp member with old | new
    · exact consecutive.size other old
    · rw [List.mem_singleton.mp new]
      exact ⟨low, high⟩

theorem readFieldInfos_consecutive {nFields : Nat} (room : nFields * 32 ≤ pabyBuf.length) (few : nFields ≤ 2047) :
    ∃ fields, readFieldInfos pabyBuf nFields = some fields ∧ Consecutive fields ∧ fields.length = nFields := by
  induction nFields with
  | zero =>
    refine ⟨[], rfl, ⟨?_, ?_⟩, rfl⟩
    · intro i field impossible
      cases impossible
    · intro field impossible
      cases impossible
  | succ n ih =>
    obtain ⟨fields, reads, consecutive, length⟩ := ih (by omega) (by omega)
    have there : 18 ≤ (pabyBuf.drop (n * 32)).length := by
      rw [List.length_drop]
      omega
    obtain ⟨type, size, decimals, shape, low, high⟩ := fieldShape_inside there
    have offset := consecutive.nextOffset (by omega)
    refine ⟨fields ++ [⟨1 + sizes fields, size, decimals, type⟩], ?_, consecutive.snoc rfl low high, ?_⟩
    · rw [readFieldInfos, List.range_succ, List.foldlM_append, ← readFieldInfos, reads]
      simp only [Option.bind_eq_bind, Option.bind_some, List.foldlM_cons, List.foldlM_nil, readFieldInfo, shape, offset,
        Option.pure_def]
    · rw [List.length_append, length, List.length_singleton]

structure HeaderRead (psDBF : DBFInfo) : Prop where
  consecutive : Consecutive psDBF.fields
  few : psDBF.fields.length ≤ 2047
  buffer : psDBF.pszCurrentRecord.length = psDBF.nRecordLength

theorem readDBFHeader_total (malloc : Nat → UInt8) (fp : List UInt8) :
    readDBFHeader malloc fp = some none ∨ ∃ psDBF, readDBFHeader malloc fp = some (some psDBF) ∧ HeaderRead psDBF := by
  unfold readDBFHeader
  cases start : readAt fp 0 32 with
  | none => exact .inl rfl
  | some header =>
    obtain ⟨-, length⟩ := holds_of_readAt start
    simp only
    generalize before : header ++ (msSmallMalloc malloc 500).drop 32 = pabyBuf
    have inside : 32 ≤ pabyBuf.length := by
      rw [← before, List.length_append]
      omega
    obtain ⟨nRecords, isRecords⟩ := headerRecords_inside inside
    obtain ⟨nHeadLen, isHead, _, _⟩ := headerLength_inside (by omega : 8 + 1 < pabyBuf.length)
    obtain ⟨nRecLen, isRec, _, _⟩ := headerLength_inside (by omega : 10 + 1 < pabyBuf.length)
    simp only [isRecords, isHead, isRec, Option.bind_eq_bind, Option.bind_some]
    by_cases short : nHeadLen ≤ 32
    · rw [if_pos short]
      exact .inl rfl
    · rw [if_neg short]
      cases rest : readAt fp 32 (nHeadLen - 32).toNat with
      | none => exact .inl rfl
      | some infos =>
        obtain ⟨-, many⟩ := holds_of_readAt rest
        obtain ⟨fields, reads, consecutive, count⟩ := readFieldInfos_consecutive
          (by rw [List.length_append]; omega : ((nHeadLen - 32) / 32).toNat * 32 ≤
            (infos ++ (SfRealloc malloc pabyBuf nHeadLen.toNat).drop infos.length).length) (by omega)
        simp only [reads, Option.bind_some]
        exact .inr ⟨_, rfl, consecutive, by rw [count]; omega, length_msSmallMalloc ..⟩

structure FieldsInside (psDBF : DBFInfo) : Prop where
  first : ∀ field, psDBF.fields[0]? = some field → field.panFieldOffset = 1
  contiguous : ∀ i field next, psDBF.fields[i]? = some field → psDBF.fields[i + 1]? = some next →
    next.panFieldOffset = field.panFieldOffset + field.panFieldSize
  inside : ∀ field ∈ psDBF.fields, field.panFieldOffset + field.panFieldSize ≤ psDBF.nRecordLength

variable {psDBF : DBFInfo}

theorem HeaderRead.fieldsInside (header : HeaderRead psDBF) (fits : psDBF.fields = [] ∨
    1 + sizes psDBF.fields ≤ psDBF.nRecordLength) : FieldsInside psDBF where
  first := by
    intro field found
    exact header.consecutive.offset 0 field found
  contiguous := by
    intro i field next found follows
    rw [header.consecutive.offset _ _ follows, header.consecutive.fieldEnd found]
  inside := by
    intro field member
    obtain ⟨i, found⟩ := List.getElem?_of_mem member
    rcases fits with none | fits
    · rw [none] at member
      cases member
    · have := header.consecutive.sizes_take (i + 1)
      rw [header.consecutive.fieldEnd found]
      omega

theorem checkFieldExtent_eq (header : HeaderRead psDBF) :
    checkFieldExtent psDBF = some (some psDBF) ∧ FieldsInside psDBF ∨
      checkFieldExtent psDBF = some none ∧ ¬ FieldsInside psDBF := by
  have bounds := sizes_bounds header.consecutive.size
  have few := header.few
  unfold checkFieldExtent
  cases last : psDBF.fields.getLast? with
  | none => exact .inl ⟨rfl, header.fieldsInside (.inl (List.getLast?_eq_none_iff.mp last))⟩
  | some field =>
    simp only
    rw [header.consecutive.lastEnd last, checkedInt_of_range (by omega) (by unfold INT_MAX; omega)]
    simp only [Option.bind_eq_bind, Option.bind_some]
    by_cases past : 1 + sizes psDBF.fields > psDBF.nRecordLength
    · rw [if_pos past]
      refine .inr ⟨rfl, fun inside => ?_⟩
      have := inside.inside field (List.mem_of_getLast? last)
      rw [header.consecutive.lastEnd last] at this
      omega
    · rw [if_neg past]
      exact .inl ⟨rfl, header.fieldsInside (.inr (by omega))⟩

structure Running (psDBF current : DBFInfo) : Prop where
  layout : SameLayout psDBF current
  buffer : current.pszCurrentRecord.length = psDBF.nRecordLength

/-- What a read copies is inside the record, and inside the buffer for strings with the zero after it. -/
structure CopyInside (psDBF : DBFInfo) (field : DBFField) : Prop where
  start : 0 ≤ field.panFieldOffset
  size : 0 ≤ field.panFieldSize
  record : field.panFieldOffset + field.panFieldSize ≤ psDBF.pszCurrentRecord.length
  string : field.panFieldSize + 1 ≤ psDBF.nStringFieldLen

variable {current : DBFInfo}

theorem flushRecord_running (running : Running psDBF current) : Running psDBF (flushRecord current) := by
  unfold flushRecord
  split
  · exact ⟨⟨running.layout.fields, running.layout.nRecordLength, running.layout.nHeaderLength⟩, running.buffer⟩
  · exact running

theorem loadRecord_running (running : Running psDBF current) (hEntity : Int) :
    Running psDBF (loadRecord current hEntity).1 := by
  unfold loadRecord
  split
  · exact running
  · obtain ⟨⟨fields, nRecordLength, nHeaderLength⟩, buffer⟩ := flushRecord_running running
    simp only
    split
    · rename_i record reads
      exact ⟨⟨fields, nRecordLength, nHeaderLength⟩, (holds_of_readAt reads).2.trans nRecordLength⟩
    · rename_i short
      refine ⟨⟨fields, nRecordLength, nHeaderLength⟩, ?_⟩
      have past : (flushRecord current).fp.length <
          recordOffset (flushRecord current) hEntity + (flushRecord current).nRecordLength := by
        by_contra inside
        rw [readAt, if_pos (by omega)] at short
        cases short
      rw [List.length_append, List.length_drop, List.length_drop, buffer]
      omega

theorem startRecord_running (running : Running psDBF current) {hEntity : Int} {started : DBFInfo}
    (starts : startRecord current hEntity = some started) : Running psDBF started := by
  unfold startRecord at starts
  split at starts
  · obtain ⟨⟨fields, nRecordLength, nHeaderLength⟩, buffer⟩ := flushRecord_running running
    obtain ⟨nRecords, -, same⟩ := Option.bind_eq_some_iff.mp starts
    obtain rfl := Option.some.inj same
    exact ⟨⟨fields, nRecordLength, nHeaderLength⟩, List.length_replicate.trans nRecordLength⟩
  · obtain rfl := Option.some.inj starts
    exact running

theorem writeDBFHeader_running (running : Running psDBF current) : Running psDBF (writeDBFHeader current) := by
  obtain ⟨fields, nRecordLength, nHeaderLength⟩ := writeDBFHeader_layout current
  refine ⟨⟨fields.trans running.layout.fields, nRecordLength.trans running.layout.nRecordLength,
    nHeaderLength.trans running.layout.nHeaderLength⟩, ?_⟩
  unfold writeDBFHeader
  split <;> exact running.buffer

variable {after : DBFInfo}

theorem msDBFWriteAttribute_running (running : Running psDBF current) {hEntity iField : Int} {pValue : AttributeValue}
    {written : Bool} (writes : msDBFWriteAttribute current hEntity iField pValue = some (after, written)) :
    Running psDBF after := by
  unfold msDBFWriteAttribute at writes
  split at writes
  · obtain ⟨rfl, -⟩ := Prod.mk.inj (Option.some.inj writes)
    exact running
  · obtain ⟨started, starts, writes⟩ := Option.bind_eq_some_iff.mp writes
    have loads := loadRecord_running (startRecord_running (writeDBFHeader_running running) starts) hEntity
    rcases loaded : loadRecord started hEntity with ⟨ready, _ | _⟩
    · rw [loaded] at writes loads
      obtain ⟨rfl, -⟩ := Prod.mk.inj (Option.some.inj writes)
      exact loads
    · rw [loaded] at writes loads
      obtain ⟨field, -, writes⟩ := Option.bind_eq_some_iff.mp writes
      obtain ⟨text, -, writes⟩ := Option.bind_eq_some_iff.mp writes
      obtain ⟨record, stores, writes⟩ := Option.bind_eq_some_iff.mp writes
      obtain ⟨rfl, -⟩ := Prod.mk.inj (Option.some.inj writes)
      refine ⟨⟨loads.layout.fields, loads.layout.nRecordLength, loads.layout.nHeaderLength⟩, ?_⟩
      simp only [storeAttribute] at stores
      split at stores
      · cases stores
      · exact (length_of_storeAt stores).trans loads.buffer

theorem strncpy_inside {buffer : List UInt8} {pos count : Int} (low : 0 ≤ pos) (some_count : 0 ≤ count)
    (inside : pos + count ≤ buffer.length) : ∃ text, strncpy buffer pos count = some text := by
  unfold strncpy
  rw [if_neg (by omega)]
  rw [if_pos]
  · exact ⟨_, rfl⟩
  · left
    rw [List.length_take, List.length_drop]
    omega

theorem entryAt_mem {α : Type} {entries : List α} {index : Int} {entry : α} (found : entryAt entries index = some entry) :
    entry ∈ entries := by
  unfold entryAt at found
  split at found
  · cases found
  · exact List.mem_of_getElem? found

theorem Consecutive.start (consecutive : Consecutive fields) (member : field ∈ fields) : 1 ≤ field.panFieldOffset := by
  obtain ⟨i, found⟩ := List.getElem?_of_mem member
  obtain ⟨low, -⟩ := sizes_bounds fun other (member : other ∈ fields.take i) =>
    consecutive.size other (List.mem_of_mem_take member)
  rw [consecutive.offset i field found]
  omega

theorem msDBFReadAttribute_running (header : HeaderRead psDBF) (inside : FieldsInside psDBF)
    (running : Running psDBF current) (hEntity iField : Int) :
    ∃ after value, msDBFReadAttribute current hEntity iField = some (after, value) ∧ Running psDBF after ∧
      ∀ text, value = .ok text → ∃ field, entryAt psDBF.fields iField = some field ∧ CopyInside after field := by
  unfold msDBFReadAttribute
  rw [running.layout.fields]
  cases found : entryAt psDBF.fields iField with
  | none => exact ⟨_, _, rfl, running, fun text refused => nomatch refused⟩
  | some field =>
    simp only
    split
    · exact ⟨_, _, rfl, running, fun text refused => nomatch refused⟩
    · have loads := loadRecord_running running hEntity
      rcases loaded : loadRecord current hEntity with ⟨ready, _ | _⟩
      · rw [loaded] at loads
        exact ⟨_, _, rfl, loads, fun text refused => nomatch refused⟩
      · rw [loaded] at loads
        have member := entryAt_mem found
        have start := header.consecutive.start member
        obtain ⟨low, high⟩ := header.consecutive.size field member
        have fits := inside.inside field member
        obtain ⟨nStringFieldLen, grows, room⟩ := growStringField_frame ready
          (show 2 * field.panFieldSize.toNat + 10 ≤ INT_MAX by unfold INT_MAX; omega)
        rw [Int.toNat_of_nonneg low] at grows room
        have record : field.panFieldOffset + field.panFieldSize ≤ ready.pszCurrentRecord.length := by
          rw [loads.buffer]
          exact fits
        obtain ⟨text, copies⟩ := strncpy_inside (by omega) low record
        simp only [grows, copies, Option.bind_eq_bind, Option.bind_some]
        refine ⟨_, _, rfl, ⟨⟨loads.layout.fields, loads.layout.nRecordLength, loads.layout.nHeaderLength⟩,
          loads.buffer⟩, ?_⟩
        intro text same
        exact ⟨field, rfl, by omega, low, record, room⟩

theorem applyDbfCall_running (header : HeaderRead psDBF) (inside : FieldsInside psDBF) (running : Running psDBF current)
    {call : DbfCall} (applies : applyDbfCall current call = some after) : Running psDBF after := by
  cases call with
  | write iRecord iField pszValue =>
    obtain ⟨⟨_, written⟩, writes, rfl⟩ := Option.map_eq_some_iff.mp applies
    exact msDBFWriteAttribute_running running writes
  | read iRecord iField =>
    obtain ⟨after, value, reads, running, -⟩ := msDBFReadAttribute_running header inside running iRecord iField
    obtain ⟨_, reads', rfl⟩ := Option.map_eq_some_iff.mp applies
    obtain rfl := Option.some.inj (reads.symm.trans reads')
    exact running

theorem runDbfCalls_running (header : HeaderRead psDBF) (inside : FieldsInside psDBF) {calls : List DbfCall}
    (running : Running psDBF current) (run : runDbfCalls current calls = some after) : Running psDBF after := by
  induction calls generalizing current with
  | nil =>
    obtain rfl := Option.some.inj run
    exact running
  | cons call rest ih =>
    obtain ⟨next, applies, run⟩ := Option.bind_eq_some_iff.mp run
    exact ih (applyDbfCall_running header inside running applies) run

/-- Opening a table fails exactly when the header cannot be read or has a field that is not inside the record. A table that is
opened has its fields inside the record, and every read of it, after any calls, copies bytes of the record. -/
theorem msDBFOpenVirtualFile_fieldsInside (malloc : Nat → UInt8) (fp : List UInt8) :
    (msDBFOpenVirtualFile malloc fp = some none ∧
      (readDBFHeader malloc fp = some none ∨
        ∃ psDBF, readDBFHeader malloc fp = some (some psDBF) ∧ ¬ FieldsInside psDBF)) ∨
    ∃ psDBF, msDBFOpenVirtualFile malloc fp = some (some psDBF) ∧ FieldsInside psDBF ∧
      ∀ calls current, runDbfCalls psDBF calls = some current → ∀ hEntity iField, ∃ after value,
        msDBFReadAttribute current hEntity iField = some (after, value) ∧
        ∀ text, value = .ok text → ∃ field, entryAt psDBF.fields iField = some field ∧ CopyInside after field := by
  unfold msDBFOpenVirtualFile
  rcases readDBFHeader_total malloc fp with unread | ⟨psDBF, reads, header⟩
  · rw [unread]
    exact .inl ⟨rfl, .inl rfl⟩
  · rw [reads]
    rcases checkFieldExtent_eq header with ⟨accepted, inside⟩ | ⟨rejected, outside⟩
    · refine .inr ⟨psDBF, accepted, inside, ?_⟩
      intro calls current run hEntity iField
      have running := runDbfCalls_running header inside ⟨⟨rfl, rfl, rfl⟩, header.buffer⟩ run
      obtain ⟨after, value, reads, -, copies⟩ := msDBFReadAttribute_running header inside running hEntity iField
      exact ⟨after, value, reads, copies⟩
    · exact .inl ⟨rejected, .inr ⟨psDBF, rfl, outside⟩⟩

def smallTable : List UInt8 :=
  [3, 0, 0, 0, 1, 0, 0, 0, 64, 0, 6, 0] ++ List.replicate 20 0 ++ ascii "FLD" ++ List.replicate 8 0 ++ ascii "C" ++
    List.replicate 4 0 ++ [5] ++ List.replicate 15 0 ++ ascii " AB   "

theorem msDBFOpenVirtualFile_fieldsInside_small :
    ∃ psDBF after field, msDBFOpenVirtualFile (fun _ => 0) smallTable = some (some psDBF) ∧ FieldsInside psDBF ∧
      msDBFReadAttribute psDBF 0 0 = some (after, .ok (ascii "AB")) ∧ CopyInside after field := by
  have computed : (msDBFOpenVirtualFile (fun _ => 0) smallTable).bind (fun opened => opened.bind fun psDBF =>
      (msDBFReadAttribute psDBF 0 0).bind fun read => read.2.toOption) = some (ascii "AB") := by decide +kernel
  rcases msDBFOpenVirtualFile_fieldsInside (fun _ => 0) smallTable with ⟨failed, -⟩ | ⟨psDBF, opened, inside, safe⟩
  · rw [failed] at computed
    cases computed
  · obtain ⟨after, value, reads, copies⟩ := safe [] psDBF rfl 0 0
    rw [opened, Option.bind_some, Option.bind_some, reads, Option.bind_some] at computed
    cases value with
    | error error => cases computed
    | ok text =>
      obtain rfl := Option.some.inj computed
      obtain ⟨field, -, copy⟩ := copies _ rfl
      exact ⟨psDBF, after, field, opened, inside, reads, copy⟩

end MapServer
