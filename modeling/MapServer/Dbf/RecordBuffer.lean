import MapServer.Dbf.Table

namespace MapServer
open Lib.ByteFile List Option

/-- A table that stands for the records `records`. -/
structure Table (psDBF : DBFInfo) (records : List (List UInt8)) : Prop where
  nRecords : psDBF.nRecords = records.length
  lengths : ∀ record ∈ records, record.length = psDBF.nRecordLength
  unwritten : psDBF.bNoHeader = true → records = []
  current : psDBF.nCurrentRecord = -1 ∧ psDBF.bCurrentRecordModified = false ∨
    ∃ r, ∃ inside : r < records.length, psDBF.nCurrentRecord = r ∧ psDBF.pszCurrentRecord = records[r]
  stored : ∀ r, (inside : r < records.length) → psDBF.nCurrentRecord = r ∧ psDBF.bCurrentRecordModified = true ∨
    Holds psDBF.fp (recordOffset psDBF r) records[r]
  positive : 0 ≤ psDBF.nHeaderLength

/-- No record of the table is past what an `unsigned int` can address. -/
def Addressable (psDBF : DBFInfo) (count : Nat) : Prop :=
  (psDBF.nRecordLength * count : Nat) + psDBF.nHeaderLength ≤ 4294967296

variable {psDBF : DBFInfo} {records : List (List UInt8)}

theorem recordOffset_eq (positive : 0 ≤ psDBF.nHeaderLength) {count r : Nat} (addressable : Addressable psDBF count)
    (some_byte : 0 < psDBF.nRecordLength) (inside : r < count) :
    recordOffset psDBF r = psDBF.nRecordLength * r + psDBF.nHeaderLength.toNat := by
  unfold Addressable at addressable
  have next : psDBF.nRecordLength * r + psDBF.nRecordLength ≤ psDBF.nRecordLength * count := by
    rw [← Nat.mul_succ]
    exact Nat.mul_le_mul_left _ inside
  have product : (psDBF.nRecordLength : Int) * r = (psDBF.nRecordLength * r : Nat) := by push_cast; rfl
  have exactly : (uint32 ((psDBF.nRecordLength * r : Nat) + psDBF.nHeaderLength) : Int) =
      (psDBF.nRecordLength * r : Nat) + psDBF.nHeaderLength := uint32_of_range (by omega) (by omega)
  rw [recordOffset, product]
  omega

theorem flushRecord_table (table : Table psDBF records) (some_byte : 0 < psDBF.nRecordLength)
    (addressable : Addressable psDBF records.length) :
    ∃ fp, flushRecord psDBF = { psDBF with fp, bCurrentRecordModified := false } ∧
      ∀ r, (inside : r < records.length) → Holds fp (recordOffset psDBF r) records[r] := by
  unfold flushRecord
  by_cases modified : psDBF.bCurrentRecordModified = true
  · rcases table.current with ⟨-, clean⟩ | ⟨k, here, current, buffer⟩
    · rw [modified] at clean
      cases clean
    · rw [if_pos (by rw [modified, current]; simp; omega)]
      refine ⟨_, rfl, ?_⟩
      intro r inside
      rw [current]
      by_cases same : r = k
      · subst same
        rw [buffer]
        exact holds_writeAt ..
      · rcases table.stored r inside with ⟨impossible, -⟩ | holds
        · omega
        · apply writeAt_beside _ holds
          have width := table.lengths records[r] (getElem_mem inside)
          have width' := table.lengths records[k] (getElem_mem here)
          rw [buffer, width, width', recordOffset_eq table.positive addressable some_byte inside,
            recordOffset_eq table.positive addressable some_byte here]
          rcases Nat.lt_or_gt_of_ne same with below | above
          · have := Nat.mul_le_mul_left psDBF.nRecordLength (Nat.succ_le_of_lt below)
            rw [Nat.mul_succ] at this
            omega
          · have := Nat.mul_le_mul_left psDBF.nRecordLength (Nat.succ_le_of_lt above)
            rw [Nat.mul_succ] at this
            omega
  · rw [if_neg (by simp [modified])]
    rw [Bool.not_eq_true] at modified
    refine ⟨psDBF.fp, by rw [← modified], ?_⟩
    intro r inside
    rcases table.stored r inside with ⟨-, impossible⟩ | holds
    · rw [modified] at impossible
      cases impossible
    · exact holds

theorem loadRecord_table (table : Table psDBF records) (some_byte : 0 < psDBF.nRecordLength)
    (addressable : Addressable psDBF records.length) {r : Nat} (inside : r < records.length) :
    ∃ fp bCurrentRecordModified, loadRecord psDBF r = ({ psDBF with
        fp, bCurrentRecordModified, nCurrentRecord := r, pszCurrentRecord := records[r] }, true) ∧
      ∀ k, (other : k < records.length) → (k = r ∧ bCurrentRecordModified = true) ∨
        Holds fp (recordOffset psDBF k) records[k] := by
  unfold loadRecord
  by_cases loaded : psDBF.nCurrentRecord = r
  · rw [if_pos loaded]
    rcases table.current with ⟨none, -⟩ | ⟨k, here, current, buffer⟩
    · omega
    · obtain rfl : k = r := by omega
      refine ⟨psDBF.fp, psDBF.bCurrentRecordModified, by rw [← loaded, ← buffer], ?_⟩
      intro j other
      rcases table.stored j other with ⟨same, modified⟩ | holds
      · exact .inl ⟨by omega, modified⟩
      · exact .inr holds
  · rw [if_neg loaded]
    obtain ⟨fp, flushed, all⟩ := flushRecord_table table some_byte addressable
    have reads : readAt fp (recordOffset psDBF r) psDBF.nRecordLength = some records[r] :=
      readAt_of_holds (all r inside) (table.lengths _ (getElem_mem inside))
    have offset : recordOffset { psDBF with fp, bCurrentRecordModified := false } r = recordOffset psDBF r := rfl
    simp only [flushed, offset, reads]
    exact ⟨fp, false, rfl, fun k other => .inr (all k other)⟩

theorem loadRecord_keeps (table : Table psDBF records) {r : Nat} (inside : r < records.length) {fp : List UInt8}
    {bCurrentRecordModified : Bool}
    (all : ∀ k, (other : k < records.length) → (k = r ∧ bCurrentRecordModified = true) ∨
      Holds fp (recordOffset psDBF k) records[k]) (nStringFieldLen : Int) :
    Table { psDBF with fp, bCurrentRecordModified, nCurrentRecord := r, pszCurrentRecord := records[r], nStringFieldLen }
      records where
  nRecords := table.nRecords
  lengths := table.lengths
  unwritten := table.unwritten
  current := .inr ⟨r, inside, rfl, rfl⟩
  stored := by
    intro k other
    rcases all k other with ⟨rfl, modified⟩ | holds
    · exact .inl ⟨rfl, modified⟩
    · exact .inr holds
  positive := table.positive

theorem writeDBFHeader_table (table : Table psDBF records) : Table (writeDBFHeader psDBF) records := by
  unfold writeDBFHeader
  by_cases written : psDBF.bNoHeader = true
  · have nothing := table.unwritten written
    subst nothing
    rw [if_neg (by simp [written])]
    refine ⟨table.nRecords, ?_, fun _ => rfl, ?_, ?_, table.positive⟩
    · intro record member
      cases member
    · rcases table.current with fresh | ⟨r, impossible, -⟩
      · exact .inl fresh
      · cases impossible
    · intro r impossible
      cases impossible
  · rw [if_pos (by simpa using written)]
    exact table

structure SameLayout (before after : DBFInfo) : Prop where
  fields : after.fields = before.fields
  nRecordLength : after.nRecordLength = before.nRecordLength
  nHeaderLength : after.nHeaderLength = before.nHeaderLength

theorem writeDBFHeader_layout (psDBF : DBFInfo) : SameLayout psDBF (writeDBFHeader psDBF) := by
  unfold writeDBFHeader
  split <;> exact ⟨rfl, rfl, rfl⟩

def putRecord (records : List (List UInt8)) (r : Nat) (record : List UInt8) : List (List UInt8) :=
  if r < records.length then records.set r record else records ++ [record]

theorem putRecord_get {r : Nat} (place : r ≤ records.length) (record : List UInt8) {k : Nat}
    (inside : k < (putRecord records r record).length) :
    k = r ∧ (putRecord records r record)[k] = record ∨
      k ≠ r ∧ ∃ old : k < records.length, (putRecord records r record)[k] = records[k] := by
  unfold putRecord at *
  split at inside
  · rename_i old
    rw [length_set] at inside
    by_cases same : k = r
    · subst same
      exact .inl ⟨rfl, by simp only [if_pos old, getElem_set_self]⟩
    · exact .inr ⟨same, inside, by simp only [if_pos old, getElem_set_ne (Ne.symm same)]⟩
  · rename_i new
    rw [length_append, length_singleton] at inside
    by_cases same : k = r
    · subst same
      obtain rfl : k = records.length := by omega
      exact .inl ⟨rfl, by simp only [if_neg new, getElem_concat_length]⟩
    · have old : k < records.length := by omega
      exact .inr ⟨same, old, by simp only [if_neg new, getElem_append_left old]⟩

@[simp] theorem length_putRecord (records : List (List UInt8)) (r : Nat) (record : List UInt8) :
    (putRecord records r record).length = if r < records.length then records.length else records.length + 1 := by
  unfold putRecord
  split
  · rw [length_set]
  · rw [length_append, length_singleton]

theorem putRecord_table (table : Table psDBF records) (written : psDBF.bNoHeader = false) {r : Nat}
    (place : r ≤ records.length) {record fp : List UInt8} (width : record.length = psDBF.nRecordLength)
    (others : ∀ k, (inside : k < records.length) → k ≠ r → Holds fp (recordOffset psDBF k) records[k]) :
    Table { psDBF with
      nRecords := (putRecord records r record).length, fp, nCurrentRecord := r, bCurrentRecordModified := true
      pszCurrentRecord := record, bUpdated := true } (putRecord records r record) := by
  have there : r < (putRecord records r record).length := by
    rw [length_putRecord]
    split <;> omega
  refine ⟨rfl, ?_, fun impossible => absurd (written.symm.trans impossible) Bool.false_ne_true, .inr ⟨r, there, rfl, ?_⟩, ?_, table.positive⟩
  · intro member isMember
    obtain ⟨k, inside, rfl⟩ := getElem_of_mem isMember
    rcases putRecord_get place record inside with ⟨-, same⟩ | ⟨-, old, same⟩
    · rw [same]
      exact width
    · rw [same]
      exact table.lengths _ (getElem_mem old)
  · rcases putRecord_get place record there with ⟨-, same⟩ | ⟨impossible, -⟩
    · exact same.symm
    · exact absurd rfl impossible
  · intro k inside
    rcases putRecord_get place record inside with ⟨rfl, -⟩ | ⟨other, old, same⟩
    · exact .inl ⟨rfl, rfl⟩
    · rw [same]
      exact .inr (others k old other)

theorem startRecord_table (table : Table psDBF records) (some_byte : 0 < psDBF.nRecordLength) {r : Nat}
    (place : r ≤ records.length) (addressable : Addressable psDBF records.length) (room : r = records.length → records.length < INT_MAX)
    (record : List UInt8) :
    ∃ started fp bCurrentRecordModified, startRecord psDBF r = some started ∧
      loadRecord started r = ({ psDBF with
        nRecords := (putRecord records r record).length, fp, bCurrentRecordModified, nCurrentRecord := r
        pszCurrentRecord := records.getD r (replicate psDBF.nRecordLength BLANK) }, true) ∧
      ∀ k, (inside : k < records.length) → k ≠ r → Holds fp (recordOffset psDBF k) records[k] := by
  have count := table.nRecords
  unfold startRecord
  by_cases new : r = records.length
  · subst new
    obtain ⟨fp, flushed, all⟩ := flushRecord_table table some_byte addressable
    have next : checkedInt ((psDBF.nRecords : Int) + 1) = some (records.length + 1 : Nat) := by
      rw [count, checkedInt_of_range (by omega) (by have := room rfl; omega)]
      rfl
    rw [if_pos (by rw [count])]
    simp only [flushed, next, bind_eq_bind, bind_some]
    refine ⟨_, fp, false, rfl, ?_, fun k inside _ => all k inside⟩
    rw [loadRecord, if_pos rfl, length_putRecord, if_neg (Nat.lt_irrefl _), getD_eq_getElem?_getD,
      getElem?_eq_none (Nat.le_refl _)]
    rfl
  · have inside : r < records.length := by omega
    obtain ⟨fp, modified, loaded, all⟩ := loadRecord_table table some_byte addressable inside
    rw [if_neg (by rw [count]; omega)]
    refine ⟨psDBF, fp, modified, rfl, ?_, ?_⟩
    · rw [loaded, length_putRecord, if_pos inside, ← count, getD_eq_getElem?_getD, getElem?_eq_getElem inside]
      rfl
    · intro k other different
      rcases all k other with ⟨same, -⟩ | holds
      · exact absurd same different
      · exact holds

theorem msDBFWriteStringAttribute_table (table : Table psDBF records) (some_byte : 0 < psDBF.nRecordLength) {r : Nat}
    (place : r ≤ records.length) (addressable : Addressable psDBF records.length) (room : r = records.length → records.length < INT_MAX)
    {iField : Int} {field : DBFField} (found : entryAt psDBF.fields iField = some field)
    (text : field.pachFieldType ∉ numericTypes) {value : CString} {record : List UInt8}
    (stores : storeAttribute field value (records.getD r (replicate psDBF.nRecordLength BLANK)) = some record)
    (width : record.length = psDBF.nRecordLength) :
    ∃ after, msDBFWriteStringAttribute psDBF r iField value = some (after, true) ∧
      Table after (putRecord records r record) ∧ SameLayout psDBF after := by
  have layout := writeDBFHeader_layout psDBF
  have headed := writeDBFHeader_table table
  have written : (writeDBFHeader psDBF).bNoHeader = false := by
    unfold writeDBFHeader
    split
    · rename_i written
      simpa using written
    · rfl
  have valid : ¬ ((r : Int) < 0 ∨ (r : Int) > psDBF.nRecords) := by
    rw [table.nRecords]
    omega
  unfold msDBFWriteStringAttribute msDBFWriteAttribute
  rw [if_neg valid]
  generalize writeDBFHeader psDBF = base at *
  rw [← layout.fields] at found
  rw [← layout.nRecordLength] at some_byte stores width
  have addressable : Addressable base records.length := by
    unfold Addressable
    rw [layout.nRecordLength, layout.nHeaderLength]
    exact addressable
  obtain ⟨started, fp, modified, starts, loads, others⟩ :=
    startRecord_table headed some_byte place addressable room record
  have kind : attributeText field (.string value) = some value := by
    rw [attributeText, if_neg text]
  refine ⟨_, ?_, putRecord_table headed written place width others, ⟨layout.fields, layout.nRecordLength, layout.nHeaderLength⟩⟩
  simp only [starts, loads, found, kind, stores, bind_eq_bind, bind_some]

theorem growStringField_frame (psDBF : DBFInfo) {width : Nat} (small : 2 * width + 10 ≤ INT_MAX) :
    ∃ nStringFieldLen, growStringField psDBF width = some { psDBF with nStringFieldLen } ∧
      width + 1 ≤ nStringFieldLen := by
  unfold growStringField
  rw [checkedInt_of_range (by omega) (by unfold INT_MAX at *; omega), bind_eq_bind, bind_some]
  by_cases grows : (width : Int) + 1 > psDBF.nStringFieldLen
  · rw [if_pos grows, checkedInt_of_range (by omega) (by omega), bind_some,
      checkedInt_of_range (by omega) (by omega)]
    exact ⟨_, rfl, by omega⟩
  · rw [if_neg grows]
    exact ⟨_, rfl, by omega⟩

theorem strncpy_of_holds {buffer cell : List UInt8} {pos : Nat} (holds : Holds buffer pos cell) (text : 0 ∉ cell) :
    strncpy buffer pos cell.length = some cell := by
  have copied : (buffer.drop pos).take cell.length = cell := take_drop_of_holds holds rfl
  unfold strncpy
  rw [if_neg (by omega)]
  simp only [Int.toNat_natCast, copied, true_or, if_true]
  congr 1
  apply takeWhile_eq_self_iff.mpr
  intro c member
  have nonzero : c ≠ 0 := fun zero => text (zero ▸ member)
  simpa using nonzero

theorem msDBFReadStringAttribute_table (table : Table psDBF records) (some_byte : 0 < psDBF.nRecordLength) {r : Nat}
    (inside : r < records.length) (addressable : Addressable psDBF records.length) {iField : Int} {field : DBFField}
    (found : entryAt psDBF.fields iField = some field) (kind : field.pachFieldType ∉ numericTypes) {pos : Nat}
    {cell : CString} (offset : field.panFieldOffset = pos) (size : field.panFieldSize = cell.length)
    (holds : Holds records[r] pos cell) (text : 0 ∉ cell) (small : 2 * cell.length + 10 ≤ INT_MAX) :
    ∃ after, msDBFReadStringAttribute psDBF r iField = some (after, .ok (Lib.Overlay.trim BLANK cell)) ∧
      Table after records ∧ SameLayout psDBF after := by
  obtain ⟨fp, modified, loads, all⟩ := loadRecord_table table some_byte addressable inside
  have valid : ¬ ((r : Int) < 0 ∨ (r : Int) ≥ psDBF.nRecords) := by
    rw [table.nRecords]
    omega
  have value : fieldValue field.pachFieldType cell = Lib.Overlay.trim BLANK cell := by
    rw [fieldValue, if_neg kind]
  obtain ⟨nStringFieldLen, grown, -⟩ := growStringField_frame { psDBF with
    fp, bCurrentRecordModified := modified, nCurrentRecord := r, pszCurrentRecord := records[r] } small
  refine ⟨_, ?_, loadRecord_keeps table inside all nStringFieldLen, rfl, rfl, rfl⟩
  unfold msDBFReadStringAttribute msDBFReadAttribute
  simp only [found]
  rw [if_neg valid]
  simp only [loads, offset, size, grown, strncpy_of_holds holds text, value, bind_eq_bind, bind_some]

theorem msDBFReadStringAttribute_refused {iRecord iField : Int}
    (outside : entryAt psDBF.fields iField = none ∨ iRecord < 0 ∨ iRecord ≥ psDBF.nRecords) :
    ∃ error, msDBFReadStringAttribute psDBF iRecord iField = some (psDBF, .error error) := by
  unfold msDBFReadStringAttribute msDBFReadAttribute
  cases found : entryAt psDBF.fields iField with
  | none => exact ⟨_, rfl⟩
  | some field =>
    rw [found] at outside
    simp only
    rw [if_pos (outside.resolve_left (some_ne_none field))]
    exact ⟨_, rfl⟩

end MapServer
