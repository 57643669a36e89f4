import MapServer.Lib.ByteFile
import MapServer.Lib.Overlay
import MapServer.Runtime
import MapServer.Text

/-!
One record is held in a buffer, which is written back when another record is needed. `none` stands for an access outside
a buffer, or an `int` that overflows.
-/

namespace MapServer
open Lib.ByteFile

inductive DBFFieldType where
  | FTString
  | FTInteger
  | FTDouble
  deriving DecidableEq

structure DBFField where
  panFieldOffset : Int
  panFieldSize : Int
  panFieldDecimals : Int
  pachFieldType : Char

/-- `DBFInfo`. The file is its contents, and the arrays of the fields are one list. -/
structure DBFInfo where
  nRecords : Nat
  fields : List DBFField
  fp : List UInt8
  nRecordLength : Nat
  nHeaderLength : Int
  pszHeader : List UInt8
  nCurrentRecord : Int
  bCurrentRecordModified : Bool
  /-- `nRecordLength` bytes. -/
  pszCurrentRecord : List UInt8
  bNoHeader : Bool
  bUpdated : Bool
  nStringFieldLen : Int

def msDBFCreate : DBFInfo where
  nRecords := 0
  fields := []
  fp := [0]
  nRecordLength := 1
  nHeaderLength := 33
  pszHeader := []
  nCurrentRecord := -1
  bCurrentRecordModified := false
  pszCurrentRecord := []
  bNoHeader := true
  bUpdated := false
  nStringFieldLen := 0

def fieldInfo (pszFieldName : CString) (pachFieldType : Char) (eType : DBFFieldType) (nWidth nDecimals : Int) :
    List UInt8 :=
  let name := pszFieldName.take 10
  let sizes :=
    if eType = .FTString then [byte (nWidth.tmod 256), byte (nWidth.tdiv 256)] else [byte nWidth, byte nDecimals]
  name ++ List.replicate (11 - name.length) 0 ++ [byte pachFieldType.toNat] ++ List.replicate 4 0 ++ sizes ++
    List.replicate 14 0

def msDBFAddField (malloc : Nat → UInt8) (psDBF : DBFInfo) (pszFieldName : CString) (eType : DBFFieldType)
    (nWidth nDecimals : Int) : Option (DBFInfo × Int) :=
  if psDBF.nRecords > 0 then some (psDBF, 0)
  else if !psDBF.bNoHeader then some (psDBF, 0)
  else if eType ≠ .FTDouble ∧ nDecimals ≠ 0 then some (psDBF, 0)
  else do
    let pachFieldType := if eType = .FTString then 'C' else 'N'
    let field : DBFField :=
      { panFieldOffset := int32 psDBF.nRecordLength, panFieldSize := nWidth, panFieldDecimals := nDecimals, pachFieldType }
    let nRecordLength := uint32 (psDBF.nRecordLength + nWidth)
    let nHeaderLength ← checkedInt (psDBF.nHeaderLength + 32)
    some ({ psDBF with
      fields := psDBF.fields ++ [field], nRecordLength, nHeaderLength, bUpdated := false
      pszHeader := psDBF.pszHeader ++ fieldInfo pszFieldName pachFieldType eType nWidth nDecimals
      pszCurrentRecord := SfRealloc malloc psDBF.pszCurrentRecord nRecordLength }, psDBF.fields.length)

def writeDBFHeader (psDBF : DBFInfo) : DBFInfo :=
  if !psDBF.bNoHeader then psDBF
  else
    let nFields := psDBF.fields.length
    let abyHeader : List UInt8 := [0x03] ++ List.replicate 7 0 ++
      [byte (psDBF.nHeaderLength.tmod 256), byte (psDBF.nHeaderLength.tdiv 256),
        byte (psDBF.nRecordLength % 256 : Nat), byte (psDBF.nRecordLength / 256 : Nat)] ++ List.replicate 20 0
    let newline : List UInt8 := if psDBF.nHeaderLength > 32 * nFields + 32 then [0x0d] else []
    { psDBF with bNoHeader := false, fp := writeAt psDBF.fp 0 (abyHeader ++ psDBF.pszHeader ++ newline) }

def recordOffset (psDBF : DBFInfo) (hEntity : Int) : Nat := uint32 (psDBF.nRecordLength * hEntity + psDBF.nHeaderLength)

def flushRecord (psDBF : DBFInfo) : DBFInfo :=
  if psDBF.bCurrentRecordModified && psDBF.nCurrentRecord > -1 then
    { psDBF with
      bCurrentRecordModified := false
      fp := writeAt psDBF.fp (recordOffset psDBF psDBF.nCurrentRecord) psDBF.pszCurrentRecord }
  else psDBF

def loadRecord (psDBF : DBFInfo) (hEntity : Int) : DBFInfo × Bool :=
  if psDBF.nCurrentRecord = hEntity then (psDBF, true)
  else
    let psDBF := flushRecord psDBF
    let nRecordOffset := recordOffset psDBF hEntity
    match readAt psDBF.fp nRecordOffset psDBF.nRecordLength with
    | some record => ({ psDBF with pszCurrentRecord := record, nCurrentRecord := hEntity }, true)
    | none =>
      let rest := psDBF.fp.drop nRecordOffset
      ({ psDBF with pszCurrentRecord := rest ++ psDBF.pszCurrentRecord.drop rest.length }, false)

def numericTypes : List Char := ['N', 'F', 'D']

def BLANK : UInt8 := 32

/-- The text that `strncpy` copies from a place in a buffer, which must have a zero or `count` bytes there. -/
def strncpy (buffer : List UInt8) (pos count : Int) : Option CString :=
  if pos < 0 ∨ count < 0 then none
  else
    let text := (buffer.drop pos.toNat).take count.toNat
    if text.length = count ∨ 0 ∈ text then some (text.takeWhile (· ≠ 0)) else none

def DBFIsValueNULL (pszValue : CString) (type : Char) : Bool :=
  if type = 'N' ∨ type = 'F' then pszValue.head? == some 42
  else if type = 'D' then pszValue.take 8 == ascii "00000000"
  else if type = 'L' then pszValue.head? == some 63
  else pszValue.isEmpty

def dbfError (message : String) : ErrorObj := { code := .MS_DBFERR, message, routine := "msDBFReadAttribute()" }

def growStringField (psDBF : DBFInfo) (panFieldSize : Int) : Option DBFInfo := do
  let needed ← checkedInt (panFieldSize + 1)
  if needed > psDBF.nStringFieldLen then do
    let doubled ← checkedInt (panFieldSize * 2)
    let nStringFieldLen ← checkedInt (doubled + 10)
    some { psDBF with nStringFieldLen }
  else some psDBF

def fieldValue (pachFieldType : Char) (text : CString) : CString :=
  let pszStringField := Lib.Overlay.trim BLANK text
  if pachFieldType ∈ numericTypes then
    let pReturnField := pszStringField.dropWhile (· == BLANK)
    if DBFIsValueNULL pReturnField pachFieldType then ascii "0" else pReturnField
  else pszStringField

def msDBFReadAttribute (psDBF : DBFInfo) (hEntity iField : Int) : Option (DBFInfo × Except ErrorObj CString) :=
  match entryAt psDBF.fields iField with
  | none => some (psDBF, .error (dbfError s!"Invalid field index {iField}."))
  | some field =>
    if hEntity < 0 ∨ hEntity ≥ psDBF.nRecords then
      some (psDBF, .error (dbfError s!"Invalid record number {hEntity}."))
    else
      match loadRecord psDBF hEntity with
      | (psDBF, false) => some (psDBF, .error (dbfError s!"Cannot read record {hEntity}."))
      | (psDBF, true) => do
        let psDBF ← growStringField psDBF field.panFieldSize
        let text ← strncpy psDBF.pszCurrentRecord field.panFieldOffset field.panFieldSize
        some (psDBF, .ok (fieldValue field.pachFieldType text))

def msDBFReadStringAttribute (psDBF : DBFInfo) (iRecord iField : Int) : Option (DBFInfo × Except ErrorObj CString) :=
  msDBFReadAttribute psDBF iRecord iField

/-- What `pValue` points to: a string, or a `double`, of which only the text that `%*.*f` makes of it for a width and a
number of decimals is used. -/
inductive AttributeValue where
  | string (value : CString)
  | double (printed : Int → Int → CString)

/-- The text that is copied into a field. There is none for a value of the other kind than the field. -/
def attributeText (field : DBFField) (pValue : AttributeValue) : Option CString :=
  if field.pachFieldType ∈ numericTypes then
    match pValue with
    | .double printed => some ((printed field.panFieldSize field.panFieldDecimals).take 39)
    | .string _ => none
  else
    match pValue with
    | .string value => some value
    | .double _ => none

def storeAttribute (field : DBFField) (text : CString) (pabyRec : List UInt8) : Option (List UInt8) :=
  let count := min (int32 text.length) field.panFieldSize
  if count < 0 ∨ field.panFieldOffset < 0 then none
  else storeAt pabyRec field.panFieldOffset.toNat (text.take count.toNat)

def startRecord (psDBF : DBFInfo) (hEntity : Int) : Option DBFInfo :=
  if hEntity = psDBF.nRecords then do
    let psDBF := flushRecord psDBF
    let nRecords ← checkedInt (psDBF.nRecords + 1)
    some { psDBF with
      nRecords := nRecords.toNat, pszCurrentRecord := List.replicate psDBF.nRecordLength BLANK, nCurrentRecord := hEntity }
  else some psDBF

def msDBFWriteAttribute (psDBF : DBFInfo) (hEntity iField : Int) (pValue : AttributeValue) : Option (DBFInfo × Bool) :=
  if hEntity < 0 ∨ hEntity > psDBF.nRecords then some (psDBF, false)
  else do
    let psDBF ← startRecord (writeDBFHeader psDBF) hEntity
    match loadRecord psDBF hEntity with
    | (psDBF, false) => some (psDBF, false)
    | (psDBF, true) => do
      let field ← entryAt psDBF.fields iField
      let text ← attributeText field pValue
      let pszCurrentRecord ← storeAttribute field text psDBF.pszCurrentRecord
      some ({ psDBF with pszCurrentRecord, bCurrentRecordModified := true, bUpdated := true }, true)

def msDBFWriteStringAttribute (psDBF : DBFInfo) (iRecord iField : Int) (pszValue : CString) : Option (DBFInfo × Bool) :=
  msDBFWriteAttribute psDBF iRecord iField (.string pszValue)

end MapServer
