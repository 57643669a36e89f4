import MapServer.Lib.Compaction
import MapServer.Text

namespace MapServer

structure ShapeData where
  datavalues : CString
  itemvalue : CString
  utfvalue : UInt32
  serialid : Int32
  deriving DecidableEq, Inhabited

structure UTFGridRenderer where
  table : List ShapeData
  useutfitem : Bool
  duplicates : Bool
  buffer : List UInt32

def UTF_WATER : UInt32 := 32

/-- Encode to avoid the characters that are not available in the JSON, `"` and `\`. -/
def encodeForRendering (toencode : UInt32) : UInt32 :=
  let encoded := toencode + 32
  let encoded := if encoded ≥ 34 then encoded + 1 else encoded
  if encoded ≥ 92 then encoded + 1 else encoded

def decodeRendered (todecode : UInt32) : UInt32 :=
  let todecode := if todecode ≥ 92 then todecode - 1 else todecode
  let todecode := if todecode ≥ 34 then todecode - 1 else todecode
  todecode - 32

def utfgridUpdateChar (oldChar newChar : UInt32) (buffer : List UInt32) : List UInt32 :=
  buffer.map fun ch => if ch = oldChar then newChar else ch

def markUsed (usedChar : List Bool) (ch : UInt32) : Option (List Bool) :=
  let rendered := decodeRendered ch
  if rendered = 0 then some usedChar
  else usedChar[(rendered - 1).toNat]?.map fun isUsed => if isUsed then usedChar else usedChar.set (rendered - 1).toNat true

structure CleanState where
  updatedData : List ShapeData
  buffer : List UInt32
  deriving DecidableEq

def renumber (serialid : Nat) (data : ShapeData) : ShapeData :=
  { data with serialid := Int32.ofNat serialid, utfvalue := encodeForRendering (Int32.ofNat serialid).toUInt32 }

def cleanStep (usedChar : List Bool) (state : CleanState) (tableItem : ShapeData) : Option CleanState := do
  let isUsed ← usedChar[(decodeRendered tableItem.utfvalue - 1).toNat]?
  if isUsed then
    let newData := renumber (state.updatedData.length + 1) tableItem
    return ⟨state.updatedData ++ [newData], utfgridUpdateChar tableItem.utfvalue newData.utfvalue state.buffer⟩
  else return state

def utfgridCleanData (r : UTFGridRenderer) : Option UTFGridRenderer := do
  let usedChar ← r.buffer.foldlM markUsed (List.replicate r.table.length false)
  let state ← r.table.foldlM (cleanStep usedChar) ⟨[], r.buffer⟩
  return { r with table := state.updatedData, buffer := state.buffer }

def codeOf (number : Nat) : UInt32 := encodeForRendering (Int32.ofNat number).toUInt32

theorem toUInt32_ofNat (number : Nat) : (Int32.ofNat number).toUInt32 = UInt32.ofNat number := rfl

theorem toNat_skip {limit encoded : UInt32} (small : encoded.toNat < 2 ^ 32 - 1) :
    (if encoded ≥ limit then encoded + 1 else encoded).toNat =
      if limit.toNat ≤ encoded.toNat then encoded.toNat + 1 else encoded.toNat := by
  simp only [ge_iff_le, UInt32.le_iff_toNat_le]
  split
  · rw [UInt32.toNat_add, UInt32.toNat_one]
    omega
  · rfl

theorem toNat_unskip {limit encoded : UInt32} (positive : 0 < limit.toNat) :
    (if encoded ≥ limit then encoded - 1 else encoded).toNat =
      if limit.toNat ≤ encoded.toNat then encoded.toNat - 1 else encoded.toNat := by
  simp only [ge_iff_le, UInt32.le_iff_toNat_le]
  split
  · rename_i above
    have one : 1 ≤ encoded := UInt32.le_iff_toNat_le.mpr (by rw [UInt32.toNat_one]; omega)
    rw [UInt32.toNat_sub_of_le _ _ one, UInt32.toNat_one]
  · rfl

theorem toNat_codeOf {number : Nat} (small : number < 2 ^ 31) :
    (codeOf number).toNat = if number < 2 then number + 32 else if number < 59 then number + 33 else number + 34 := by
  have start : (UInt32.ofNat number + 32).toNat = number + 32 := by
    rw [UInt32.toNat_add, UInt32.toNat_ofNat', show (32 : UInt32).toNat = 32 from rfl]
    omega
  rw [codeOf, toUInt32_ofNat, encodeForRendering]
  obtain ⟨encoded, quote⟩ : ∃ encoded, encoded =
      if UInt32.ofNat number + 32 ≥ 34 then UInt32.ofNat number + 32 + 1 else UInt32.ofNat number + 32 := ⟨_, rfl⟩
  have skipped : encoded.toNat = if 34 ≤ number + 32 then number + 32 + 1 else number + 32 := by
    rw [quote, toNat_skip (by omega), start]
    rfl
  rw [← quote, toNat_skip (by split at skipped <;> omega), skipped, show (92 : UInt32).toNat = 92 from rfl]
  grind

theorem decodeRendered_codeOf {number : Nat} (small : number < 2 ^ 31) :
    (decodeRendered (codeOf number)).toNat = number := by
  have code := toNat_codeOf small
  rw [decodeRendered]
  obtain ⟨decoded, backslash⟩ : ∃ decoded, decoded =
      if codeOf number ≥ 92 then codeOf number - 1 else codeOf number := ⟨_, rfl⟩
  obtain ⟨both, quote⟩ : ∃ both, both = if decoded ≥ 34 then decoded - 1 else decoded := ⟨_, rfl⟩
  have first : decoded.toNat = if number < 2 then number + 32 else number + 33 := by
    rw [backslash, toNat_unskip (by decide), code, show (92 : UInt32).toNat = 92 from rfl]
    grind
  have second : both.toNat = number + 32 := by
    rw [quote, toNat_unskip (by decide), first, show (34 : UInt32).toNat = 34 from rfl]
    grind
  have base : 32 ≤ both := UInt32.le_iff_toNat_le.mpr (by rw [second]; exact Nat.le_add_left 32 number)
  rw [← backslash, ← quote, UInt32.toNat_sub_of_le _ _ base, second]
  exact Nat.add_sub_cancel number 32

theorem codeOf_inj {number other : Nat} (small : number < 2 ^ 31) (otherSmall : other < 2 ^ 31)
    (same : codeOf number = codeOf other) : number = other := by
  rw [← decodeRendered_codeOf small, same, decodeRendered_codeOf otherSmall]

theorem codeOf_ne_water {number : Nat} (small : number < 2 ^ 31) (positive : 0 < number) : codeOf number ≠ UTF_WATER := by
  intro water
  have zero := decodeRendered_codeOf small
  rw [water, show (decodeRendered UTF_WATER).toNat = 0 from rfl] at zero
  omega

def ValidTable (table : List ShapeData) : Prop :=
  ∀ (i : Nat) (row : ShapeData), table[i]? = some row → row.serialid.toInt = (i : Int) + 1 ∧ row.utfvalue = encodeForRendering row.serialid.toUInt32

section Valid
variable {table : List ShapeData} (valid : ValidTable table)
include valid

theorem ValidTable.length_lt : table.length < 2 ^ 31 := by
  by_contra long
  obtain ⟨i, last⟩ : ∃ i, i + 1 = table.length := ⟨table.length - 1, by omega⟩
  have serial := (valid i _ (List.getElem?_eq_getElem (by omega))).1
  have range := (table[i]).serialid.toInt_lt
  omega

theorem ValidTable.utfvalue {i : Nat} {row : ShapeData} (there : table[i]? = some row) : row.utfvalue = codeOf (i + 1) := by
  obtain ⟨serial, code⟩ := valid i row there
  have within := (List.getElem?_eq_some_iff.mp there).1
  have bound := valid.length_lt
  have number : row.serialid = Int32.ofNat (i + 1) := by
    rw [← Int32.toInt_inj, serial, Int32.toInt_ofNat_of_lt (by omega), Nat.cast_succ]
  rw [code, codeOf, number]

end Valid

end MapServer
