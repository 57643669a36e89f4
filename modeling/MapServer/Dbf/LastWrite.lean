import MapServer.Dbf.RecordBuffer

namespace MapServer
open Lib.ByteFile Lib.Overlay List Option

def createTable (malloc : Nat → UInt8) (columns : List (CString × Nat)) : Option DBFInfo :=
  columns.foldlM (fun psDBF column => (msDBFAddField malloc psDBF column.1 .FTString column.2 0).map Prod.fst) msDBFCreate

def columnStart (widths : List Nat) (i : Nat) : Nat := 1 + (widths.take i).sum

/-- The sizes of the table and of its fields are in the range of `int`. -/
def TableFits (widths : List Nat) : Prop :=
  1 + widths.sum ≤ INT_MAX ∧ 33 + 32 * widths.length ≤ INT_MAX ∧ ∀ width ∈ widths, 2 * width + 10 ≤ INT_MAX

/-- The string columns of a table, one after the other from the second byte of a record on. -/
structure Columns (widths : List Nat) (psDBF : DBFInfo) : Prop where
  count : psDBF.fields.length = widths.length
  field : ∀ i, (column : i < widths.length) → ∃ field, entryAt psDBF.fields i = some field ∧
    field.panFieldOffset = columnStart widths i ∧ field.panFieldSize = widths[i] ∧ field.pachFieldType = 'C'
  nRecordLength : psDBF.nRecordLength = 1 + widths.sum
  nHeaderLength : psDBF.nHeaderLength = (33 + 32 * widths.length : Nat)

section Columns
variable {widths : List Nat}

theorem columnStart_end {i : Nat} (column : i < widths.length) :
    columnStart widths i + widths[i] = columnStart widths (i + 1) := by
  unfold columnStart
  rw [take_succ_eq_append_getElem column, sum_append, sum_singleton, Nat.add_assoc]

theorem columnStart_mono {i j : Nat} (before : i ≤ j) : columnStart widths i ≤ columnStart widths j := by
  unfold columnStart
  have split := take_append_drop i (widths.take j)
  rw [take_take, Nat.min_eq_left before] at split
  rw [← split, sum_append]
  omega

theorem columnStart_le (i : Nat) : columnStart widths i ≤ 1 + widths.sum := by
  have last : columnStart widths (max i widths.length) = 1 + widths.sum := by
    rw [columnStart, take_of_length_le (Nat.le_max_right ..)]
  rw [← last]
  exact columnStart_mono (Nat.le_max_left ..)

theorem columns_apart {i j : Nat} (column : i < widths.length) (other : j < widths.length) (different : i ≠ j) :
    columnStart widths i + widths[i] ≤ columnStart widths j ∨ columnStart widths j + widths[j] ≤ columnStart widths i := by
  rw [columnStart_end column, columnStart_end other]
  rcases Nat.lt_or_gt_of_ne different with before | after
  · exact .inl (columnStart_mono before)
  · exact .inr (columnStart_mono after)

theorem Columns.same {before after : DBFInfo} (columns : Columns widths before) (layout : SameLayout before after) :
    Columns widths after where
  count := by rw [layout.fields, columns.count]
  field := by
    rw [layout.fields]
    exact columns.field
  nRecordLength := by rw [layout.nRecordLength, columns.nRecordLength]
  nHeaderLength := by rw [layout.nHeaderLength, columns.nHeaderLength]

end Columns

structure Fresh (psDBF : DBFInfo) : Prop where
  nRecords : psDBF.nRecords = 0
  bNoHeader : psDBF.bNoHeader = true
  nCurrentRecord : psDBF.nCurrentRecord = -1
  bCurrentRecordModified : psDBF.bCurrentRecordModified = false

theorem msDBFAddField_columns (malloc : Nat → UInt8) {psDBF : DBFInfo} {widths : List Nat} (fresh : Fresh psDBF)
    (columns : Columns widths psDBF) (pszFieldName : CString) {width : Nat} (fits : TableFits (widths ++ [width])) :
    ∃ after index, msDBFAddField malloc psDBF pszFieldName .FTString width 0 = some (after, index) ∧ Fresh after ∧
      Columns (widths ++ [width]) after := by
  obtain ⟨record, header, -⟩ := fits
  have sum : (widths ++ [width]).sum = widths.sum + width := by rw [sum_append, sum_singleton]
  have length : (widths ++ [width]).length = widths.length + 1 := by rw [length_append, length_singleton]
  rw [sum] at record
  rw [length] at header
  unfold INT_MAX at record header
  have start : int32 psDBF.nRecordLength = columnStart (widths ++ [width]) widths.length := by
    rw [columns.nRecordLength, int32_of_range (by omega) (by omega), columnStart, take_left' rfl]
  have recordLength : uint32 ((psDBF.nRecordLength : Int) + width) = 1 + (widths ++ [width]).sum := by
    have exactly : (uint32 ((psDBF.nRecordLength : Int) + width) : Int) = (psDBF.nRecordLength : Int) + width :=
      uint32_of_range (by omega) (by rw [columns.nRecordLength]; omega)
    rw [columns.nRecordLength] at exactly ⊢
    omega
  have headerLength : checkedInt (psDBF.nHeaderLength + 32) = some (33 + 32 * (widths ++ [width]).length : Nat) := by
    rw [columns.nHeaderLength, checkedInt_of_range (by omega) (by unfold INT_MAX; omega), length]
    congr 1
  unfold msDBFAddField
  rw [if_neg (by rw [fresh.nRecords]; omega), if_neg (by rw [fresh.bNoHeader]; decide), if_neg (by decide)]
  simp only [headerLength, recordLength, start, bind_eq_bind, bind_some]
  refine ⟨_, _, rfl, ⟨fresh.nRecords, fresh.bNoHeader, fresh.nCurrentRecord, fresh.bCurrentRecordModified⟩, ?_, ?_, rfl,
    rfl⟩
  · rw [length_append, columns.count, length, length_singleton]
  · intro i column
    simp only [entryAt, if_neg (by omega : ¬ (i : Int) < 0), Int.toNat_natCast]
    rw [length] at column
    by_cases last : i = widths.length
    · subst last
      refine ⟨_, by rw [getElem?_append_right (by rw [columns.count]), columns.count, Nat.sub_self]; rfl, rfl, ?_, rfl⟩
      rw [getElem_concat_length rfl]
    · have old : i < widths.length := by omega
      obtain ⟨field, found, offset, size, kind⟩ := columns.field i old
      refine ⟨field, ?_, ?_, ?_, kind⟩
      · rwa [getElem?_append_left (by rw [columns.count]; exact old)]
      · rw [offset, columnStart, columnStart, take_append_of_le_length (Nat.le_of_lt old)]
      · rw [size, getElem_append_left old]

theorem TableFits.of_append {widths : List Nat} {width : Nat} (fits : TableFits (widths ++ [width])) : TableFits widths := by
  obtain ⟨record, header, each⟩ := fits
  rw [sum_append] at record
  rw [length_append] at header
  refine ⟨by omega, by omega, ?_⟩
  intro other member
  exact each other (mem_append_left _ member)

theorem createTable_columns (malloc : Nat → UInt8) {columns : List (CString × Nat)}
    (fits : TableFits (columns.map Prod.snd)) :
    ∃ psDBF, createTable malloc columns = some psDBF ∧ Fresh psDBF ∧ Columns (columns.map Prod.snd) psDBF := by
  induction columns using reverseRecOn with
  | nil =>
    refine ⟨msDBFCreate, rfl, ⟨rfl, rfl, rfl, rfl⟩, rfl, ?_, rfl, rfl⟩
    intro i impossible
    cases impossible
  | append_singleton columns column ih =>
    rw [map_append] at fits ⊢
    obtain ⟨psDBF, made, fresh, sofar⟩ := ih fits.of_append
    obtain ⟨after, index, added, fresh', complete⟩ := msDBFAddField_columns malloc fresh sofar column.1 fits
    refine ⟨after, ?_, fresh', complete⟩
    rw [createTable, foldlM_append, ← createTable, made, bind_eq_bind, bind_some, foldlM_cons,
      added]
    rfl

theorem fresh_table {psDBF : DBFInfo} {widths : List Nat} (fresh : Fresh psDBF) (columns : Columns widths psDBF) :
    Table psDBF [] where
  nRecords := fresh.nRecords
  lengths := by
    intro record member
    cases member
  unwritten := fun _ => rfl
  current := .inl ⟨fresh.nCurrentRecord, fresh.bCurrentRecordModified⟩
  stored := by
    intro r inside
    cases inside
  positive := by
    rw [columns.nHeaderLength]
    omega

inductive DbfCall where
  | write (iRecord iField : Int) (pszValue : CString)
  | read (iRecord iField : Int)

def applyDbfCall (psDBF : DBFInfo) : DbfCall → Option DBFInfo
  | .write iRecord iField pszValue => (msDBFWriteStringAttribute psDBF iRecord iField pszValue).map Prod.fst
  | .read iRecord iField => (msDBFReadStringAttribute psDBF iRecord iField).map Prod.fst

def runDbfCalls (psDBF : DBFInfo) (calls : List DbfCall) : Option DBFInfo := calls.foldlM applyDbfCall psDBF

def recordCount (calls : List DbfCall) : Nat :=
  calls.foldl (fun count call =>
    match call with
    | .write iRecord _ _ => if iRecord = count then count + 1 else count
    | .read _ _ => count) 0

def writtenTo (iRecord iField : Int) : DbfCall → Option CString
  | .write r f value => if r = iRecord ∧ f = iField then some value else none
  | .read _ _ => none

def writesTo (calls : List DbfCall) (iRecord iField : Int) : List CString := calls.filterMap (writtenTo iRecord iField)

/-- Every write is to a field of the table, in a record that exists or is the next one, and its value is a C string
whose length is an `int`. -/
def ValidCalls (nFields : Nat) (calls : List DbfCall) : Prop :=
  ∀ (earlier : List DbfCall) (r f : Int) (value : CString) (later : List DbfCall),
    calls = earlier ++ .write r f value :: later → 0 ≤ r ∧ r ≤ recordCount earlier ∧ 0 ≤ f ∧ f < nFields ∧ 0 ∉ value ∧ value.length ≤ INT_MAX

/-- The records fit in what an `unsigned int` can address, and their number is an `int`. -/
def RunFits (widths : List Nat) (calls : List DbfCall) : Prop :=
  (1 + widths.sum) * recordCount calls + (33 + 32 * widths.length) ≤ 4294967296 ∧ recordCount calls ≤ INT_MAX

section Calls
variable {widths : List Nat} {calls : List DbfCall}

theorem recordCount_append (calls : List DbfCall) (call : DbfCall) :
    recordCount (calls ++ [call]) =
      match call with
      | .write iRecord _ _ => if iRecord = recordCount calls then recordCount calls + 1 else recordCount calls
      | .read _ _ => recordCount calls := by
  rw [recordCount, foldl_append]
  rfl

theorem recordCount_le (calls : List DbfCall) (call : DbfCall) : recordCount calls ≤ recordCount (calls ++ [call]) := by
  rw [recordCount_append]
  cases call with
  | write iRecord iField value => dsimp only; split <;> omega
  | read iRecord iField => exact Nat.le_refl _

theorem RunFits.of_append {call : DbfCall} (fits : RunFits widths (calls ++ [call])) : RunFits widths calls := by
  obtain ⟨bytes, count⟩ := fits
  have fewer := recordCount_le calls call
  have less := Nat.mul_le_mul_left (1 + widths.sum) fewer
  exact ⟨by omega, by omega⟩

theorem ValidCalls.of_append {nFields : Nat} {call : DbfCall} (valid : ValidCalls nFields (calls ++ [call])) :
    ValidCalls nFields calls := by
  intro earlier r f value later split
  exact valid earlier r f value (later ++ [call]) (by rw [split]; simp)

structure Written (widths : List Nat) (calls : List DbfCall) (psDBF : DBFInfo) (records : List (List UInt8)) : Prop where
  table : Table psDBF records
  columns : Columns widths psDBF
  count : records.length = recordCount calls
  cells : ∀ r, (inside : r < records.length) → ∀ i, (column : i < widths.length) →
    Holds records[r] (columnStart widths i) (content BLANK widths[i] (writesTo calls r i))
  unwritten : ∀ r : Nat, records.length ≤ r → ∀ i, writesTo calls r i = []
  text : ∀ r i, ∀ value ∈ writesTo calls r i, 0 ∉ value

theorem writesTo_append (calls : List DbfCall) (call : DbfCall) (r i : Int) :
    writesTo (calls ++ [call]) r i = writesTo calls r i ++ (writtenTo r i call).toList := by
  rw [writesTo, filterMap_append, ← writesTo, filterMap_cons]
  cases writtenTo r i call <;> rfl

variable {value : CString} {psDBF : DBFInfo} {records : List (List UInt8)}

theorem storeAttribute_cell {field : DBFField} {pos : Nat} {pabyRec cell : List UInt8}
    (offset : field.panFieldOffset = pos) (size : field.panFieldSize = cell.length) (holds : Holds pabyRec pos cell)
    (short : value.length ≤ INT_MAX) :
    ∃ after, storeAttribute field value pabyRec = some after ∧ after.length = pabyRec.length ∧
      Holds after pos (overlay cell value) ∧ ∀ {place other}, place + other.length ≤ pos ∨ pos + cell.length ≤ place →
        Holds pabyRec place other → Holds after place other := by
  have inside := holds_length holds
  unfold INT_MAX at short
  have count : (min (int32 value.length) field.panFieldSize).toNat = min value.length cell.length := by
    rw [int32_of_range (by omega) (by omega), size]
    omega
  have copied : value.take (min value.length cell.length) = value.take cell.length := by
    rw [take_eq_take_iff]
    omega
  have copied_length : (value.take cell.length).length = min cell.length value.length := length_take
  obtain ⟨after, stores, stored⟩ := storeAt_stored pabyRec pos (value.take cell.length) (by omega)
  refine ⟨after, ?_, stored.length, ?_, ?_⟩
  · unfold storeAttribute
    simp only [count, copied, offset, Int.toNat_natCast]
    rw [if_neg (by rw [int32_of_range (by omega) (by omega), size]; omega), stores]
  · have parts : cell = cell.take (value.take cell.length).length ++ cell.drop (value.take cell.length).length :=
      (take_append_drop ..).symm
    rw [parts] at holds
    have behind := (holds_append holds).2
    have front_length : (cell.take (value.take cell.length).length).length = (value.take cell.length).length := by
      rw [length_take]
      omega
    rw [front_length] at behind
    have rest : cell.drop value.length = cell.drop (value.take cell.length).length := by
      rw [copied_length]
      by_cases long : cell.length ≤ value.length
      · rw [drop_eq_nil_of_le long, drop_eq_nil_of_le (by omega)]
      · rw [Nat.min_eq_right (by omega)]
    unfold overlay
    rw [rest]
    exact holds_of_append stored.here (stored.beside (.inr (Nat.le_refl _)) behind)
  · intro place other apart
    apply stored.beside
    omega

theorem Written.base (written : Written widths calls psDBF records) {k : Nat} (place : k ≤ records.length) :
    (records.getD k (replicate psDBF.nRecordLength BLANK)).length = psDBF.nRecordLength ∧
      ∀ i, (column : i < widths.length) → Holds (records.getD k (replicate psDBF.nRecordLength BLANK))
        (columnStart widths i) (content BLANK widths[i] (writesTo calls k i)) := by
  rw [getD_eq_getElem?_getD]
  by_cases old : k < records.length
  · rw [getElem?_eq_getElem old, getD_some]
    exact ⟨written.table.lengths _ (getElem_mem old), fun i column => written.cells k old i column⟩
  · rw [getElem?_eq_none (by omega), getD_none]
    refine ⟨length_replicate, ?_⟩
    intro i column
    rw [written.unwritten k (by omega), content, foldl_nil]
    have ends := columnStart_end column
    have inside : columnStart widths (i + 1) ≤ 1 + widths.sum := columnStart_le (i + 1)
    refine ⟨replicate (columnStart widths i) BLANK,
      replicate (psDBF.nRecordLength - columnStart widths (i + 1)) BLANK, ?_, length_replicate⟩
    rw [replicate_append_replicate, replicate_append_replicate, written.columns.nRecordLength]
    congr 1
    omega

theorem Written.addressable (written : Written widths calls psDBF records) (fits : RunFits widths calls) :
    Addressable psDBF records.length := by
  unfold Addressable
  rw [written.columns.nRecordLength, written.columns.nHeaderLength, written.count]
  have := fits.1
  omega

theorem Written.some_byte (written : Written widths calls psDBF records) : 0 < psDBF.nRecordLength := by
  rw [written.columns.nRecordLength]
  omega

theorem writtenTo_write {k i : Nat} (r j : Int) :
    writtenTo r j (.write k i value) = if r = k ∧ j = i then some value else none := by
  by_cases same : r = k ∧ j = i
  · rw [if_pos same]
    exact if_pos ⟨same.1.symm, same.2.symm⟩
  · rw [if_neg same]
    exact if_neg fun other => same ⟨other.1.symm, other.2.symm⟩

theorem Written.write (written : Written widths calls psDBF records) {r f : Int}
    (valid : ValidCalls widths.length (calls ++ [.write r f value])) (fits : RunFits widths (calls ++ [.write r f value])) :
    ∃ after records', applyDbfCall psDBF (.write r f value) = some after ∧
      Written widths (calls ++ [.write r f value]) after records' := by
  obtain ⟨low, high, lowField, highField, text, short⟩ := valid calls r f value [] rfl
  obtain ⟨k, rfl⟩ := Int.eq_ofNat_of_zero_le low
  obtain ⟨i, rfl⟩ := Int.eq_ofNat_of_zero_le lowField
  have place : k ≤ records.length := by rw [written.count]; omega
  have column : i < widths.length := by omega
  have room : k = records.length → (records.length : Int) < INT_MAX := by
    intro new
    have count := fits.2
    rw [recordCount_append, ← written.count, new] at count
    simp only [if_true] at count
    omega
  obtain ⟨length, cells⟩ := written.base place
  obtain ⟨field, found, offset, size, kind⟩ := written.columns.field i column
  obtain ⟨record, stores, same_length, here, beside⟩ :=
    storeAttribute_cell offset (by rw [size, length_content]) (cells i column) short
  obtain ⟨after, run, table, layout⟩ := msDBFWriteStringAttribute_table written.table written.some_byte place
    (written.addressable fits.of_append) room found (by rw [kind]; decide) stores (same_length.trans length)
  refine ⟨after, putRecord records k record, ?_, table, written.columns.same layout, ?_, ?_, ?_, ?_⟩
  · simp only [applyDbfCall, run, map_some]
  · rw [length_putRecord, recordCount_append, written.count]
    dsimp only
    split <;> split <;> omega
  · intro q inside j other
    rw [writesTo_append, writtenTo_write]
    rcases putRecord_get place record inside with ⟨rfl, same⟩ | ⟨different, old, same⟩
    · rw [same]
      by_cases here_too : j = i
      · subst here_too
        rw [if_pos ⟨rfl, rfl⟩, toList_some, content_append]
        exact here
      · rw [if_neg (by omega), toList_none, append_nil]
        apply beside _ (cells j other)
        rw [length_content, length_content]
        exact columns_apart other column here_too
    · rw [same, if_neg (by omega), toList_none, append_nil]
      exact written.cells q old j other
  · intro q beyond j
    rw [length_putRecord] at beyond
    have later : records.length ≤ q ∧ q ≠ k := by split at beyond <;> omega
    rw [writesTo_append, written.unwritten q later.1, writtenTo_write, if_neg (by omega)]
    rfl
  · intro q j other member
    rw [writesTo_append, writtenTo_write] at member
    rcases mem_append.mp member with old | new
    · exact written.text q j other old
    · split at new
      · rw [mem_singleton.mp new]
        exact text
      · cases new

theorem Written.read (written : Written widths calls psDBF records) (fits : RunFits widths calls)
    (tableFits : TableFits widths) {k i : Nat} (inside : k < records.length) (column : i < widths.length) :
    ∃ after, msDBFReadStringAttribute psDBF k i =
        some (after, .ok (trim BLANK (content BLANK widths[i] (writesTo calls k i)))) ∧
      Table after records ∧ SameLayout psDBF after := by
  obtain ⟨field, found, offset, size, kind⟩ := written.columns.field i column
  apply msDBFReadStringAttribute_table written.table written.some_byte inside (written.addressable fits) found
    (by rw [kind]; decide) offset (by rw [size, length_content]) (written.cells k inside i column)
  · intro zero
    rcases mem_content zero with impossible | ⟨value, member, zero⟩
    · exact absurd impossible (by decide)
    · exact written.text k i value member zero
  · rw [length_content]
    exact tableFits.2.2 _ (getElem_mem column)

theorem Written.apply_read (written : Written widths calls psDBF records) (fits : RunFits widths calls)
    (tableFits : TableFits widths) (r f : Int) :
    ∃ after, applyDbfCall psDBF (.read r f) = some after ∧ Written widths (calls ++ [.read r f]) after records := by
  have same_writes : ∀ q j : Int, writesTo (calls ++ [.read r f]) q j = writesTo calls q j := by
    intro q j
    rw [writesTo_append]
    exact append_nil _
  have same_count : recordCount (calls ++ [.read r f]) = recordCount calls := recordCount_append calls _
  have still : ∀ after, Table after records → SameLayout psDBF after → Written widths (calls ++ [.read r f]) after records := by
    intro after table layout
    refine ⟨table, written.columns.same layout, written.count.trans same_count.symm, ?_, ?_, ?_⟩
    · intro q inside j column
      rw [same_writes]
      exact written.cells q inside j column
    · intro q beyond j
      rw [same_writes]
      exact written.unwritten q beyond j
    · intro q j
      rw [same_writes]
      exact written.text q j
  simp only [applyDbfCall]
  by_cases outside : entryAt psDBF.fields f = none ∨ r < 0 ∨ r ≥ psDBF.nRecords
  · obtain ⟨error, refused⟩ := msDBFReadStringAttribute_refused outside
    rw [refused]
    exact ⟨psDBF, rfl, still psDBF written.table ⟨rfl, rfl, rfl⟩⟩
  · rw [not_or, not_or, not_lt, not_le, written.table.nRecords] at outside
    obtain ⟨isField, low, high⟩ := outside
    unfold entryAt at isField
    split at isField
    · exact absurd rfl isField
    · rename_i lowField
      obtain ⟨k, rfl⟩ := Int.eq_ofNat_of_zero_le low
      obtain ⟨i, rfl⟩ := Int.eq_ofNat_of_zero_le (not_lt.mp lowField)
      rw [Int.toNat_natCast, List.getElem?_eq_none_iff, not_le, written.columns.count] at isField
      have inside : k < records.length := by omega
      obtain ⟨after, run, table, layout⟩ := written.read fits tableFits inside isField
      rw [run]
      exact ⟨after, rfl, still after table layout⟩

theorem runDbfCalls_written (fresh : Fresh psDBF) (columns : Columns widths psDBF) (tableFits : TableFits widths)
    (valid : ValidCalls widths.length calls) (fits : RunFits widths calls) :
    ∃ after records, runDbfCalls psDBF calls = some after ∧ Written widths calls after records := by
  induction calls using reverseRecOn with
  | nil =>
    refine ⟨psDBF, [], rfl, fresh_table fresh columns, columns, rfl, ?_, fun r _ i => rfl, ?_⟩
    · intro r inside
      cases inside
    · intro r i value member
      cases member
  | append_singleton calls call ih =>
    obtain ⟨before, records, run, written⟩ := ih valid.of_append fits.of_append
    rw [runDbfCalls, foldlM_append, ← runDbfCalls, run]
    simp only [bind_eq_bind, bind_some, foldlM_cons, foldlM_nil]
    cases call with
    | write r f value =>
      obtain ⟨after, records', applied, written'⟩ := written.write valid fits
      rw [applied]
      exact ⟨after, records', rfl, written'⟩
    | read r f =>
      obtain ⟨after, applied, written'⟩ := written.apply_read fits.of_append tableFits r f
      rw [applied]
      exact ⟨after, records, rfl, written'⟩

end Calls

def tableAfter (malloc : Nat → UInt8) (columns : List (CString × Nat)) (calls : List DbfCall) : Option DBFInfo :=
  (createTable malloc columns).bind fun created => runDbfCalls created calls

theorem tableAfter_written (malloc : Nat → UInt8) {columns : List (CString × Nat)}
    (tableFits : TableFits (columns.map Prod.snd)) {calls : List DbfCall} (valid : ValidCalls columns.length calls)
    (fits : RunFits (columns.map Prod.snd) calls) :
    ∃ psDBF records, tableAfter malloc columns calls = some psDBF ∧
      Written (columns.map Prod.snd) calls psDBF records := by
  obtain ⟨created, made, fresh, layout⟩ := createTable_columns malloc tableFits
  rw [← length_map Prod.snd] at valid
  obtain ⟨psDBF, records, run, written⟩ := runDbfCalls_written fresh layout tableFits valid fits
  exact ⟨psDBF, records, by rw [tableAfter, made, bind_some, run], written⟩

theorem reads_content (malloc : Nat → UInt8) {columns : List (CString × Nat)}
    (tableFits : TableFits (columns.map Prod.snd)) {calls : List DbfCall} (valid : ValidCalls columns.length calls)
    (fits : RunFits (columns.map Prod.snd) calls) {iRecord : Int} (low : 0 ≤ iRecord) (high : iRecord < recordCount calls)
    {iField : Nat} (column : iField < columns.length) :
    ∃ psDBF after, tableAfter malloc columns calls = some psDBF ∧ msDBFReadStringAttribute psDBF iRecord iField =
      some (after, .ok (trim BLANK (content BLANK columns[iField].2 (writesTo calls iRecord iField)))) := by
  obtain ⟨psDBF, records, table, written⟩ := tableAfter_written malloc tableFits valid fits
  obtain ⟨k, rfl⟩ := Int.eq_ofNat_of_zero_le low
  have inside : k < records.length := by
    rw [written.count]
    omega
  obtain ⟨after, read, -, -⟩ := written.read fits tableFits inside (by rwa [length_map])
  rw [getElem_map] at read
  exact ⟨psDBF, after, table, read⟩

/-- After any run on a new table, a read of a field returns what was written to it last exactly when the record exists and
nothing that was written before is left in the field. -/
theorem reads_last_write_iff (malloc : Nat → UInt8) {columns : List (CString × Nat)}
    (tableFits : TableFits (columns.map Prod.snd)) {calls : List DbfCall} (valid : ValidCalls columns.length calls)
    (fits : RunFits (columns.map Prod.snd) calls) (iRecord : Int) {iField : Nat} (column : iField < columns.length) :
    (∃ psDBF after, tableAfter malloc columns calls = some psDBF ∧
      msDBFReadStringAttribute psDBF iRecord iField =
        some (after, .ok (trim BLANK ((latest (writesTo calls iRecord iField)).take columns[iField].2)))) ↔
    (0 ≤ iRecord ∧ iRecord < recordCount calls) ∧
      NothingStale BLANK columns[iField].2 (writesTo calls iRecord iField) := by
  by_cases outside : iRecord < 0 ∨ iRecord ≥ recordCount calls
  · obtain ⟨psDBF, records, table, written⟩ := tableAfter_written malloc tableFits valid fits
    have invalid : iRecord < 0 ∨ iRecord ≥ psDBF.nRecords := by rwa [written.table.nRecords, written.count]
    obtain ⟨error, refused⟩ : ∃ error, msDBFReadStringAttribute psDBF iRecord iField = some (psDBF, .error error) :=
      msDBFReadStringAttribute_refused (.inr invalid)
    apply iff_of_false
    · rintro ⟨psDBF', after, table', read⟩
      obtain rfl := Option.some.inj (table.symm.trans table')
      rw [refused] at read
      cases read
    · omega
  · rw [not_or, not_lt, not_le] at outside
    obtain ⟨psDBF, after, table, read⟩ := reads_content malloc tableFits valid fits outside.1 outside.2 column
    rw [and_iff_right outside, ← trim_content_iff]
    constructor
    · rintro ⟨psDBF', after', table', read'⟩
      obtain rfl := Option.some.inj (table.symm.trans table')
      rw [read] at read'
      exact Except.ok.inj (Prod.mk.inj (Option.some.inj read')).2
    · intro same
      rw [same] at read
      exact ⟨psDBF, after, table, read⟩

def sampleColumns : List (CString × Nat) := [([78], 10)]

def sampleCalls (first second : CString) : List DbfCall := [.write 0 0 first, .write 0 0 second]

theorem sampleColumns_fit : TableFits (sampleColumns.map Prod.snd) := by
  unfold TableFits INT_MAX
  decide

theorem sampleCalls_valid {first second : CString} (text : 0 ∉ first ∧ 0 ∉ second)
    (short : first.length ≤ 10 ∧ second.length ≤ 10) : ValidCalls sampleColumns.length (sampleCalls first second) := by
  intro earlier r f value later split
  have bound : (10 : Int) ≤ INT_MAX := by decide
  rcases earlier with _ | ⟨call, _ | ⟨next, rest⟩⟩
  · obtain ⟨same, -⟩ := List.cons.inj split
    cases same
    exact ⟨by decide, by decide, by decide, by decide, text.1, by omega⟩
  · obtain ⟨same, split⟩ := List.cons.inj split
    obtain ⟨same', -⟩ := List.cons.inj split
    cases same
    cases same'
    exact ⟨by decide, Int.natCast_nonneg _, by decide, by decide, text.2, by omega⟩
  · simp [sampleCalls] at split

theorem sampleCalls_fit (first second : CString) : RunFits (sampleColumns.map Prod.snd) (sampleCalls first second) := by
  have count : recordCount (sampleCalls first second) = 1 := rfl
  rw [RunFits, count]
  decide

theorem reads_last_write_iff_longer :
    (∃ psDBF after, tableAfter (fun _ => 0) sampleColumns (sampleCalls [120, 121] [97, 98, 99]) = some psDBF ∧
      msDBFReadStringAttribute psDBF 0 (0 : Nat) = some (after, .ok (trim BLANK
        ((latest (writesTo (sampleCalls [120, 121] [97, 98, 99]) 0 (0 : Nat))).take 10)))) ↔
    ((0 : Int) ≤ 0 ∧ (0 : Int) < recordCount (sampleCalls [120, 121] [97, 98, 99])) ∧
      NothingStale BLANK 10 (writesTo (sampleCalls [120, 121] [97, 98, 99]) 0 (0 : Nat)) :=
  reads_last_write_iff (fun _ => 0) sampleColumns_fit (sampleCalls_valid (by decide) (by decide))
    (sampleCalls_fit _ _) 0 (by decide : 0 < sampleColumns.length)

theorem reads_stale :
    ¬ ∀ (columns : List (CString × Nat)) (calls : List DbfCall) (iRecord : Int) (iField : Nat)
      (column : iField < columns.length), TableFits (columns.map Prod.snd) → ValidCalls columns.length calls →
      RunFits (columns.map Prod.snd) calls → 0 ≤ iRecord → iRecord < recordCount calls →
      ∃ psDBF after, tableAfter (fun _ => 0) columns calls = some psDBF ∧ msDBFReadStringAttribute psDBF iRecord iField =
        some (after, .ok (trim BLANK ((latest (writesTo calls iRecord iField)).take columns[iField].2))) := by
  intro always
  have valid : ValidCalls sampleColumns.length (sampleCalls [97, 98, 99] [120, 121]) :=
    sampleCalls_valid (by decide) (by decide)
  have fits := sampleCalls_fit [97, 98, 99] [120, 121]
  obtain ⟨psDBF, after, table, read⟩ :=
    always sampleColumns _ 0 0 (by decide) sampleColumns_fit valid fits (by decide) (by decide)
  obtain ⟨psDBF', after', table', read'⟩ := reads_content (fun _ => 0) sampleColumns_fit valid fits (Int.le_refl 0)
    (by decide) (by decide : 0 < sampleColumns.length)
  obtain rfl := Option.some.inj (table.symm.trans table')
  rw [read] at read'
  have same := Except.ok.inj (Prod.mk.inj (Option.some.inj read')).2
  exact absurd same (by decide)

end MapServer
