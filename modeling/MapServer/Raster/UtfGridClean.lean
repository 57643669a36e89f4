import Mathlib.Order.Fin.Basic
import MapServer.Raster.UtfGrid

namespace MapServer
open Lib.Compaction List Function

def isUsedIn (buffer : List UInt32) (i : Nat) : Bool := buffer.contains (codeOf (i + 1))

def ValidCells (rows : Nat) (buffer : List UInt32) : Prop := ∀ ch ∈ buffer, ch = UTF_WATER ∨ ∃ i < rows, ch = codeOf (i + 1)

theorem decodeRendered_row {i : Nat} (small : i + 1 < 2 ^ 31) :
    decodeRendered (codeOf (i + 1)) ≠ 0 ∧ (decodeRendered (codeOf (i + 1)) - 1).toNat = i := by
  have number := decodeRendered_codeOf small
  have positive : 1 ≤ decodeRendered (codeOf (i + 1)) := UInt32.le_iff_toNat_le.mpr (by rw [number, UInt32.toNat_one]; omega)
  constructor
  · intro zero
    rw [zero, UInt32.toNat_zero] at number
    omega
  · rw [UInt32.toNat_sub_of_le _ _ positive, number, UInt32.toNat_one, Nat.add_sub_cancel]

theorem markUsed_water (usedChar : List Bool) : markUsed usedChar UTF_WATER = some usedChar := rfl

theorem markUsed_row {rows i : Nat} {marked : Nat → Bool} (small : i + 1 < 2 ^ 31) (row : i < rows) :
    markUsed ((List.range rows).map marked) (codeOf (i + 1)) =
      some ((List.range rows).map fun k => marked k || i == k) := by
  obtain ⟨nonzero, index⟩ := decodeRendered_row small
  have there : ((List.range rows).map marked)[i]? = some (marked i) := by
    rw [getElem?_map, getElem?_range row, Option.map_some]
  rw [markUsed, if_neg nonzero, index, there, Option.map_some, Option.some.injEq]
  split
  · rename_i already
    apply map_congr_left
    intro k _
    by_cases same : i = k
    · rw [← same, already, Bool.true_or]
    · simp [same]
  · apply ext_getElem?
    intro k
    rw [getElem?_set, getElem?_map, getElem?_map, length_map, length_range]
    by_cases same : i = k
    · subst same
      simp [row]
    rw [if_neg same]
    by_cases inside : k < rows
    · simp [inside, same]
    · simp [inside]

theorem foldlM_markUsed {rows : Nat} (small : rows < 2 ^ 31) {buffer : List UInt32} (cells : ValidCells rows buffer)
    (marked : Nat → Bool) :
    buffer.foldlM markUsed ((List.range rows).map marked) =
      some ((List.range rows).map fun k => marked k || isUsedIn buffer k) := by
  induction buffer generalizing marked with
  | nil => simp [isUsedIn]
  | cons ch rest ih =>
    rw [ValidCells, forall_mem_cons] at cells
    obtain ⟨first, others⟩ := cells
    rw [foldlM_cons]
    rcases first with rfl | ⟨i, row, rfl⟩
    · rw [markUsed_water, Option.bind_eq_bind, Option.bind_some, ih others, Option.some.injEq]
      apply map_congr_left
      intro k range
      have number : k + 1 < 2 ^ 31 := by
        rw [mem_range] at range
        omega
      have dry : codeOf (k + 1) ≠ UTF_WATER := codeOf_ne_water number (Nat.succ_pos k)
      simp [isUsedIn, dry]
    · rw [markUsed_row (by omega) row, Option.bind_eq_bind, Option.bind_some, ih others, Option.some.injEq]
      apply map_congr_left
      intro k range
      have number : k + 1 < 2 ^ 31 := by
        rw [mem_range] at range
        omega
      have same : (codeOf (k + 1) = codeOf (i + 1)) ↔ i = k :=
        ⟨fun codes => (Nat.succ.inj (codeOf_inj number (by omega) codes)).symm, fun rows => by rw [rows]⟩
      rw [Bool.eq_iff_iff]
      simp [isUsedIn, same, or_assoc]

def newCode (used : Nat → Bool) (done : Nat) (ch : UInt32) : UInt32 :=
  let i := (decodeRendered ch).toNat - 1
  if ch ≠ UTF_WATER ∧ i < done then codeOf ((kept used done).idxOf i + 1) else ch

theorem newCode_water (used : Nat → Bool) (done : Nat) : newCode used done UTF_WATER = UTF_WATER := by
  simp [newCode]

theorem newCode_row {used : Nat → Bool} {done i : Nat} (small : i + 1 < 2 ^ 31) :
    newCode used done (codeOf (i + 1)) =
      if i < done then codeOf ((kept used done).idxOf i + 1) else codeOf (i + 1) := by
  simp only [newCode, decodeRendered_codeOf small, Nat.add_sub_cancel, ne_eq,
    codeOf_ne_water small (Nat.succ_pos i), not_false_eq_true, true_and]

section Clean
variable {table : List ShapeData} {buffer : List UInt32} (valid : ValidTable table) (cells : ValidCells table.length buffer)

def cleanedTo (table : List ShapeData) (buffer : List UInt32) (done : Nat) : CleanState where
  updatedData := (kept (isUsedIn buffer) done).mapIdx fun k i => renumber (k + 1) (table[i]?.getD default)
  buffer := buffer.map (newCode (isUsedIn buffer) done)

include valid cells

theorem utfgridUpdateChar_row {done : Nat} (row : done < table.length) (isUsed : isUsedIn buffer done = true) :
    utfgridUpdateChar (codeOf (done + 1)) (codeOf ((kept (isUsedIn buffer) done).length + 1))
        (buffer.map (newCode (isUsedIn buffer) done)) = buffer.map (newCode (isUsedIn buffer) (done + 1)) := by
  have bound := valid.length_lt
  rw [utfgridUpdateChar, List.map_map]
  apply map_congr_left
  intro ch member
  rw [comp_apply]
  rcases cells ch member with rfl | ⟨i, within, rfl⟩
  · rw [newCode_water, newCode_water, if_neg (codeOf_ne_water (by omega) (Nat.succ_pos done)).symm]
  have isUsedRow : isUsedIn buffer i = true := contains_iff_mem.mpr member
  rw [newCode_row (by omega), newCode_row (by omega)]
  rcases Nat.lt_trichotomy i done with before | rfl | after
  · -- a row that is done has a lower number than this one
    have stays : i ∈ kept (isUsedIn buffer) done := (mem_kept _).mpr ⟨before, isUsedRow⟩
    have lower := idxOf_kept_lt _ stays
    have other : codeOf ((kept (isUsedIn buffer) done).idxOf i + 1) ≠ codeOf (done + 1) := by
      intro same
      have := codeOf_inj (by omega) (by omega) same
      omega
    rw [if_pos before, if_pos (show i < done + 1 by omega), idxOf_kept_succ _ stays, if_neg other]
  · rw [if_neg (Nat.lt_irrefl i), if_pos rfl, if_pos (Nat.lt_succ_self i), idxOf_kept_self _ isUsed]
  · have other : codeOf (i + 1) ≠ codeOf (done + 1) := by
      intro same
      have := codeOf_inj (by omega) (by omega) same
      omega
    rw [if_neg (show ¬i < done by omega), if_neg (show ¬i < done + 1 by omega), if_neg other]

theorem newCode_skip {done : Nat} (row : done < table.length) (unused : isUsedIn buffer done = false) :
    buffer.map (newCode (isUsedIn buffer) done) = buffer.map (newCode (isUsedIn buffer) (done + 1)) := by
  have bound := valid.length_lt
  apply map_congr_left
  intro ch member
  rcases cells ch member with rfl | ⟨i, within, rfl⟩
  · rw [newCode_water, newCode_water]
  have other : i ≠ done := by
    rintro rfl
    rw [show isUsedIn buffer i = true from contains_iff_mem.mpr member] at unused
    cases unused
  rw [newCode_row (by omega), newCode_row (by omega), kept_succ_of_unused _ unused]
  by_cases before : i < done
  · rw [if_pos before, if_pos (by omega)]
  · rw [if_neg before, if_neg (by omega)]

theorem cleanStep_row {done : Nat} {row : ShapeData} (there : table[done]? = some row) :
    cleanStep ((List.range table.length).map (isUsedIn buffer)) (cleanedTo table buffer done) row =
      some (cleanedTo table buffer (done + 1)) := by
  have bound := valid.length_lt
  have within : done < table.length := (List.getElem?_eq_some_iff.mp there).1
  have code := valid.utfvalue there
  have mark : ((List.range table.length).map (isUsedIn buffer))[done]? = some (isUsedIn buffer done) := by
    rw [getElem?_map, getElem?_range within, Option.map_some]
  rw [cleanStep, code, (decodeRendered_row (by omega)).2, mark, Option.bind_eq_bind, Option.bind_some]
  cases isUsed : isUsedIn buffer done with
  | true =>
    rw [if_pos rfl]
    have update := utfgridUpdateChar_row valid cells within isUsed
    simp only [cleanedTo, length_mapIdx, kept_succ_of_used _ isUsed, mapIdx_concat, there, Option.getD_some]
    rw [← update]
    rfl
  | false =>
    rw [if_neg Bool.false_ne_true]
    simp only [cleanedTo, kept_succ_of_unused _ isUsed, newCode_skip valid cells within isUsed]
    rfl

theorem foldlM_cleanStep {rest : List ShapeData} {done : Nat} (left : table.drop done = rest) (within : done ≤ table.length) :
    rest.foldlM (cleanStep ((List.range table.length).map (isUsedIn buffer))) (cleanedTo table buffer done) =
      some (cleanedTo table buffer table.length) := by
  induction rest generalizing done with
  | nil =>
    have all : done = table.length := le_antisymm within (drop_eq_nil_iff.mp left)
    rw [foldlM_nil, all]
    rfl
  | cons row rest ih =>
    have there : table[done]? = some row := by
      rw [← head?_drop, left, head?_cons]
    have next : table.drop (done + 1) = rest := by
      rw [← tail_drop, left, tail_cons]
    rw [foldlM_cons, cleanStep_row valid cells there, Option.bind_eq_bind, Option.bind_some]
    exact ih next (List.getElem?_eq_some_iff.mp there).1

end Clean

theorem cleanedTo_zero (table : List ShapeData) (buffer : List UInt32) : cleanedTo table buffer 0 = ⟨[], buffer⟩ := by
  have same (ch : UInt32) : newCode (isUsedIn buffer) 0 ch = ch := by simp [newCode]
  rw [cleanedTo, CleanState.mk.injEq]
  exact ⟨rfl, map_id'' same buffer⟩

theorem utfgridCleanData_eq {r : UTFGridRenderer} (valid : ValidTable r.table) (cells : ValidCells r.table.length r.buffer) :
    utfgridCleanData r =
      some { r with
        table := (cleanedTo r.table r.buffer r.table.length).updatedData
        buffer := (cleanedTo r.table r.buffer r.table.length).buffer } := by
  have start : replicate r.table.length false = (List.range r.table.length).map fun _ => false := by
    rw [map_const', length_range]
  have marks := foldlM_markUsed valid.length_lt cells fun _ => false
  simp only [Bool.false_or] at marks
  have loop := foldlM_cleanStep valid cells drop_zero (Nat.zero_le _)
  rw [cleanedTo_zero] at loop
  rw [utfgridCleanData, start, marks, Option.bind_eq_bind, Option.bind_some, loop]
  rfl

/-- The rows that stay are those of `place`, in the old order and numbered again, and every cell has its feature. -/
structure KeepsFeatures (before after : UTFGridRenderer) (place : Fin after.table.length → Fin before.table.length) :
    Prop where
  inOrder : StrictMono place
  sameFeature (k : Fin after.table.length) :
    (after.table.get k).datavalues = (before.table.get (place k)).datavalues ∧
      (after.table.get k).itemvalue = (before.table.get (place k)).itemvalue
  numbered : ValidTable after.table
  sameSize : after.buffer.length = before.buffer.length
  cells (cell : Nat) (ch : UInt32) (there : before.buffer[cell]? = some ch) :
    ch = UTF_WATER ∧ after.buffer[cell]? = some UTF_WATER ∨
      ∃ (k : Fin after.table.length) (code : UInt32), after.buffer[cell]? = some code ∧
        (decodeRendered code).toNat = k + 1 ∧ ch = (before.table.get (place k)).utfvalue
  used (k : Fin after.table.length) : ∃ code ∈ after.buffer, (decodeRendered code).toNat = k + 1

theorem renumber_valid {number : Nat} (small : number < 2 ^ 31) (data : ShapeData) :
    (renumber number data).serialid.toInt = number ∧
      (renumber number data).utfvalue = encodeForRendering (renumber number data).serialid.toUInt32 :=
  ⟨Int32.toInt_ofNat_of_lt small, rfl⟩

theorem updatedData_getElem? (table : List ShapeData) (buffer : List UInt32) (k : Nat) :
    (cleanedTo table buffer table.length).updatedData[k]? =
      ((kept (isUsedIn buffer) table.length)[k]?).map fun i => renumber (k + 1) (table[i]?.getD default) := by
  rw [cleanedTo, getElem?_mapIdx]

theorem cleanedTo_keepsFeatures {r after : UTFGridRenderer} (valid : ValidTable r.table)
    (cells : ValidCells r.table.length r.buffer)
    (table : after.table = (cleanedTo r.table r.buffer r.table.length).updatedData)
    (buffer : after.buffer = (cleanedTo r.table r.buffer r.table.length).buffer) :
    ∃ place, KeepsFeatures r after place := by
  have bound := valid.length_lt
  obtain ⟨rows, rowsDef⟩ : ∃ rows, rows = kept (isUsedIn r.buffer) r.table.length := ⟨_, rfl⟩
  have size : after.table.length = rows.length := by rw [table, cleanedTo, length_mapIdx, rowsDef]
  have isRow (k : Fin after.table.length) : rows.get (k.cast size) < r.table.length ∧
      isUsedIn r.buffer (rows.get (k.cast size)) = true := by
    apply (mem_kept _).mp
    rw [← rowsDef]
    exact List.get_mem _ _
  have few : rows.length ≤ r.table.length := by
    rw [rowsDef]
    exact length_kept_le _
  have number (k : Fin after.table.length) : (rows.idxOf (rows.get (k.cast size))) = k := by
    have nodup : rows.Nodup := by
      rw [rowsDef]
      exact (pairwise_kept _).imp Nat.ne_of_lt
    exact nodup.idxOf_getElem _ _
  have entry (k : Fin after.table.length) : after.table.get k =
      renumber (k + 1) (r.table.get ⟨rows.get (k.cast size), (isRow k).1⟩) := by
    have there : rows[(k : Nat)]? = some (rows.get (k.cast size)) := getElem?_eq_getElem (size ▸ k.isLt)
    have old : r.table[rows.get (k.cast size)]? = some (r.table.get ⟨rows.get (k.cast size), (isRow k).1⟩) :=
      getElem?_eq_getElem (isRow k).1
    have new := updatedData_getElem? r.table r.buffer k
    rw [← table, ← rowsDef, there, Option.map_some, old, Option.getD_some] at new
    exact (List.getElem?_eq_some_iff.mp new).2
  have code (k : Fin after.table.length) : newCode (isUsedIn r.buffer) r.table.length
      (codeOf (rows.get (k.cast size) + 1)) = codeOf (k + 1) := by
    have within := (isRow k).1
    rw [newCode_row (by omega), if_pos within, ← rowsDef, number]
  refine ⟨fun k => ⟨rows.get (k.cast size), (isRow k).1⟩, ?inOrder, ?sameFeature, ?numbered, ?sameSize, ?cells, ?used⟩
  case inOrder =>
    intro k next before
    have sorted : rows.Pairwise (· < ·) := by
      rw [rowsDef]
      exact pairwise_kept _
    exact pairwise_iff_getElem.mp sorted _ _ _ _ before
  case sameFeature =>
    intro k
    rw [entry]
    exact ⟨rfl, rfl⟩
  case numbered =>
    intro k row there
    obtain ⟨within, same⟩ := List.getElem?_eq_some_iff.mp there
    have numbered := renumber_valid (show k + 1 < 2 ^ 31 by omega) (r.table.get ⟨_, (isRow ⟨k, within⟩).1⟩)
    rw [← entry ⟨k, within⟩, get_eq_getElem, same] at numbered
    exact numbered
  case sameSize =>
    rw [buffer, cleanedTo, length_map]
  case cells =>
    intro cell ch there
    have now : after.buffer[cell]? = some (newCode (isUsedIn r.buffer) r.table.length ch) := by
      rw [buffer, cleanedTo, getElem?_map, there, Option.map_some]
    have member := mem_of_getElem? there
    rcases cells ch member with rfl | ⟨i, within, rfl⟩
    · rw [newCode_water] at now
      exact Or.inl ⟨rfl, now⟩
    · have stays : i ∈ rows := by
        rw [rowsDef]
        exact (mem_kept _).mpr ⟨within, contains_iff_mem.mpr member⟩
      obtain ⟨k, isPlace⟩ := List.get_of_mem stays
      have placed : rows.get ((k.cast size.symm).cast size) = i := isPlace
      have renumbered := code (k.cast size.symm)
      rw [placed] at renumbered
      rw [renumbered] at now
      refine Or.inr ⟨k.cast size.symm, _, now, decodeRendered_codeOf (by omega), ?_⟩
      rw [get_eq_getElem, valid.utfvalue (getElem?_eq_getElem (isRow (k.cast size.symm)).1), placed]
  case used =>
    intro k
    have cell : codeOf (rows.get (k.cast size) + 1) ∈ r.buffer := contains_iff_mem.mp (isRow k).2
    refine ⟨codeOf (k + 1), ?_, decodeRendered_codeOf (by omega)⟩
    rw [buffer, cleanedTo, ← code k]
    exact List.mem_map_of_mem cell

/-- After the rows that no cell uses are removed, every cell still has its feature. -/
theorem utfgridCleanData_keepsFeatures {r : UTFGridRenderer} (valid : ValidTable r.table)
    (cells : ∀ ch ∈ r.buffer, ch = UTF_WATER ∨ ∃ row ∈ r.table, ch = row.utfvalue) :
    ∃ after, utfgridCleanData r = some after ∧ ∃ place, KeepsFeatures r after place := by
  have inRows : ValidCells r.table.length r.buffer := by
    intro ch member
    rcases cells ch member with water | ⟨row, isRow, code⟩
    · exact Or.inl water
    · obtain ⟨i, within, there⟩ := List.getElem_of_mem isRow
      refine Or.inr ⟨i, within, code.trans (valid.utfvalue ?_)⟩
      rw [List.getElem?_eq_getElem within, there]
  exact ⟨_, utfgridCleanData_eq valid inRows, cleanedTo_keepsFeatures valid inRows rfl rfl⟩

def overdrawnGrid : UTFGridRenderer where
  table := [⟨[], ascii "a", 33, 1⟩, ⟨[], ascii "b", 35, 2⟩, ⟨[], ascii "c", 36, 3⟩]
  useutfitem := true
  duplicates := true
  buffer := [32, 36, 33, 36]

theorem utfgridCleanData_overdrawnGrid :
    ∃ after, utfgridCleanData overdrawnGrid = some after ∧ ∃ place, KeepsFeatures overdrawnGrid after place := by
  apply utfgridCleanData_keepsFeatures
  · intro i row there
    match i with
    | 0 => cases there; decide
    | 1 => cases there; decide
    | 2 => cases there; decide
    | i + 3 => cases there
  · simp [overdrawnGrid, UTF_WATER]

end MapServer
