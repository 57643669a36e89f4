import Mathlib.Data.List.Induction
import MapServer.Shape.Index
import MapServer.Shape.RecordStores

namespace MapServer
open Lib.ByteFile List Function

variable {α : Type}

/-- The part of the `.shx` file after its header. -/
def putEntries (big : Bool) (entries : List (Int × Int)) : List UInt8 :=
  entries.flatMap fun entry => putEntry big entry.1 entry.2

/-- The `.shp` and `.shx` contents of a shapefile, whose index has `entries` in 16-bit words and whose header gives
`nHalfFileSize`. -/
structure IsShapefile (big : Bool) (entries : List (Int × Int)) (nHalfFileSize : Nat) (nShapeType : UInt8)
    (fpSHP fpSHX : List UInt8) : Prop where
  index : ∃ header, fpSHX = header ++ putEntries big entries ∧
    header.length = 100 ∧ (header.take 4 = [0, 0, 0x27, 0x0a] ∨ header.take 4 = [0, 0, 0x27, 0x0d]) ∧
    Holds header 24 (putWord big (!big) (50 + 4 * entries.length : Nat)) ∧ Holds header 32 [nShapeType]
  supported : entries.length ≤ 256000000
  offsets : ∀ entry ∈ entries, 0 < entry.1 ∧ entry.1 < INT_MAX / 2
  sizes : ∀ entry ∈ entries, 0 < entry.2 ∧ entry.2 < INT_MAX / 2
  header : 100 ≤ fpSHP.length
  size : Holds fpSHP 24 (putWord big (!big) nHalfFileSize)
  large : 50 ≤ nHalfFileSize
  small : nHalfFileSize ≤ INT_MAX / 2

section Entries
variable (big : Bool)

@[simp] theorem length_putEntry (offset size : Int) : (putEntry big offset size).length = 8 := by
  simp [putEntry]

theorem putEntries_cons (entry : Int × Int) (rest : List (Int × Int)) :
    putEntries big (entry :: rest) = putEntry big entry.1 entry.2 ++ putEntries big rest := rfl

theorem putEntries_append (first second : List (Int × Int)) :
    putEntries big (first ++ second) = putEntries big first ++ putEntries big second :=
  flatMap_append

@[simp] theorem length_putEntries (entries : List (Int × Int)) :
    (putEntries big entries).length = 8 * entries.length := by
  induction entries with
  | nil => rfl
  | cons entry rest ih =>
    rw [putEntries_cons, length_append, length_putEntry, ih, length_cons]
    omega

theorem indexBytes_of_range {word : Int} (range : 0 < word ∧ word < INT_MAX / 2) : indexBytes word = 2 * word := by
  rw [indexBytes, if_pos range, Int.mul_comm]

theorem getWord_putWord_of_range {word : Int} (range : 0 < word ∧ word < INT_MAX / 2) :
    getWord big (!big) (putWord big (!big) word) = word := by
  unfold INT_MAX at range
  rw [getWord_putWord rfl, int32_of_range (by omega) (by omega)]

theorem cacheEntries_entries {entries : List (Int × Int)} (offsets : ∀ entry ∈ entries, 0 < entry.1 ∧ entry.1 < INT_MAX / 2)
    (sizes : ∀ entry ∈ entries, 0 < entry.2 ∧ entry.2 < INT_MAX / 2) (psSHP : SHPHandle α) (first : Nat) :
    ∃ panRecOffset panRecSize,
      cacheEntries big psSHP first entries.length
          (putEntries big entries) =
        { psSHP with panRecOffset, panRecSize } ∧
      (∀ i, (inside : i < entries.length) →
        panRecOffset (first + i) = 2 * entries[i].1 ∧ panRecSize (first + i) = 2 * entries[i].2) ∧
      ∀ i, i < first ∨ first + entries.length ≤ i →
        panRecOffset i = psSHP.panRecOffset i ∧ panRecSize i = psSHP.panRecSize i := by
  induction entries generalizing psSHP first with
  | nil =>
    refine ⟨psSHP.panRecOffset, psSHP.panRecSize, rfl, fun i inside => ?_, fun i _ => ⟨rfl, rfl⟩⟩
    cases inside
  | cons entry rest ih =>
    have offset := offsets entry mem_cons_self
    have size := sizes entry mem_cons_self
    obtain ⟨panRecOffset, panRecSize, run, inside, outside⟩ :=
      ih (fun other member => offsets other (mem_cons_of_mem _ member))
        (fun other member => sizes other (mem_cons_of_mem _ member))
        (psSHP.setEntry first (indexBytes entry.1) (indexBytes entry.2)) (first + 1)
    refine ⟨panRecOffset, panRecSize, ?_, fun i bound => ?_, fun i apart => ?_⟩
    · rw [length_cons, putEntries_cons, cacheEntries]
      have first4 : ((putEntry big entry.1 entry.2 ++ putEntries big rest).take 4) =
          putWord big (!big) entry.1 := by
        rw [putEntry, append_assoc, take_left' (length_putWord ..)]
      have next4 : (((putEntry big entry.1 entry.2 ++ putEntries big rest).drop 4).take 4) =
          putWord big (!big) entry.2 := by
        rw [putEntry, append_assoc, drop_left' (length_putWord ..), take_left' (length_putWord ..)]
      rw [drop_left' (length_putEntry ..)]
      simp only [first4, next4, getWord_putWord_of_range big offset, getWord_putWord_of_range big size, run]
      rfl
    · cases i with
      | zero =>
        have kept := outside first (.inl (Nat.lt_succ_self first))
        simp only [SHPHandle.setEntry, update_self, indexBytes_of_range offset, indexBytes_of_range size] at kept
        exact kept
      | succ i =>
        have found := inside i (Nat.lt_of_succ_lt_succ bound)
        rwa [Nat.add_assoc, Nat.add_comm 1] at found
    · rw [length_cons] at apart
      have kept := outside i (by omega)
      have other : i ≠ first := by omega
      simp only [SHPHandle.setEntry, update_of_ne other] at kept
      exact kept

theorem holds_entries {header : List UInt8} (length : header.length = 100) {entries : List (Int × Int)} {first count : Nat}
    (inside : first + count ≤ entries.length) :
    Holds (header ++ putEntries big entries) (100 + 8 * first)
      (putEntries big ((entries.drop first).take count)) := by
  have split : entries = entries.take first ++ ((entries.drop first).take count ++ (entries.drop first).drop count) := by
    rw [take_append_drop, take_append_drop]
  have bytes : putEntries big entries = putEntries big (entries.take first) ++
      (putEntries big ((entries.drop first).take count) ++
        putEntries big ((entries.drop first).drop count)) := by
    rw [← putEntries_append, ← putEntries_append, ← split]
  refine ⟨header ++ putEntries big (entries.take first), putEntries big ((entries.drop first).drop count),
    ?_, ?_⟩
  · rw [bytes]
    simp only [append_assoc]
  · rw [length_append, length, length_putEntries, length_take]
    omega

end Entries

structure Opened (big : Bool) (entries : List (Int × Int)) (psSHP : SHPHandle α) : Prop where
  index : ∃ header, header.length = 100 ∧
    psSHP.fpSHX = header ++ putEntries big entries
  offsets : ∀ entry ∈ entries, 0 < entry.1 ∧ entry.1 < INT_MAX / 2
  sizes : ∀ entry ∈ entries, 0 < entry.2 ∧ entry.2 < INT_MAX / 2
  position : psSHP.posSHX = 100
  nRecords : psSHP.nRecords = entries.length
  room : ∀ page ≤ entries.length / SHX_BUFFER_PAGE, page < psSHP.panRecLoaded.capacity ∧
    msGetBit psSHP.panRecLoaded page = false
  panRecAllLoaded : psSHP.panRecAllLoaded = false
  bUpdated : psSHP.bUpdated = false

variable {entries : List (Int × Int)} {psSHP : SHPHandle α}

theorem msSHPOpenVirtualFile_opened (rep : DoubleRep α) (big : Bool) {nHalfFileSize : Nat} {nShapeType : UInt8}
    {fpSHP fpSHX : List UInt8} (shapefile : IsShapefile big entries nHalfFileSize nShapeType fpSHP fpSHX)
    (malloc : Nat → Int × Int) :
    ∃ psSHP, msSHPOpenVirtualFile rep big malloc fpSHP fpSHX = .ok psSHP ∧ Opened big entries psSHP ∧
      psSHP.fpSHP = fpSHP ∧ psSHP.fpSHX = fpSHX ∧ psSHP.nShapeType = (nShapeType.toNat : Int) ∧
      psSHP.nFileSize = (2 * nHalfFileSize : Nat) ∧ ∀ i, psSHP.panRecOffset i = (malloc i).1 := by
  obtain ⟨header, shx, length, magic, halfSize, type⟩ := shapefile.index
  have supported := shapefile.supported
  have small := shapefile.small
  unfold INT_MAX at small
  have readSHX : readAt fpSHX 0 100 = some header := by
    apply readAt_of_holds _ length
    exact ⟨[], _, by rw [shx, nil_append], rfl⟩
  have readSHP : readAt fpSHP 0 100 = some (fpSHP.take 100) := by
    rw [readAt, if_pos (by have := shapefile.header; omega), drop_zero]
  have count : getWord big (!big) ((header.drop 24).take 4) = (50 + 4 * entries.length : Nat) := by
    rw [take_drop_of_holds halfSize (length_putWord ..), getWord_putWord rfl, int32_of_range (by omega) (by omega)]
  have fileSize : shpFileSize big fpSHP (fpSHP.take 100) = (2 * nHalfFileSize : Nat) := by
    have holds : Holds (fpSHP.take 100) 24 (putWord big (!big) nHalfFileSize) :=
      holds_take shapefile.size (by rw [length_putWord]; omega)
    unfold shpFileSize
    rw [take_drop_of_holds holds (length_putWord ..), getWord_putWord rfl, int32_of_range (by omega) (by omega)]
    rw [if_neg (by unfold INT_MAX; omega)]
    omega
  have typeByte : header.getD 32 0 = nShapeType := by
    obtain ⟨before, after, split, place⟩ := type
    rw [split, getD_eq_getElem?_getD]
    simp [← place]
  have records : (if ((50 + 4 * entries.length : Nat) : Int) ≥ 50 then (((50 + 4 * entries.length : Nat) : Int) - 50) / 4
      else -1) = entries.length := by
    rw [if_pos (by omega)]
    omega
  unfold msSHPOpenVirtualFile
  simp only [readSHP, readSHX, count, records]
  rw [if_neg (by rintro ⟨first, second⟩; exact magic.elim first second), if_neg (by omega)]
  refine ⟨_, rfl, ⟨⟨header, length, shx⟩, shapefile.offsets, shapefile.sizes, rfl, Int.toNat_natCast _, ?_, rfl, rfl⟩,
    rfl, rfl, ?_, fileSize, fun i => rfl⟩
  · intro page inside
    refine ⟨?_, msGetBit_alloc ..⟩
    have fits := capacity_alloc (1 + (entries.length : Int).toNat / SHX_BUFFER_PAGE)
    simp only [Int.toNat_natCast] at fits ⊢
    omega
  · simp only [typeByte]

/-- What the cache holds after some reads. Only the index arrays and the position in the `.shx` file differ from the
handle as it was opened, and the position is past the first record unless nothing was asked for. -/
structure Caching (entries : List (Int × Int)) (opened : SHPHandle α) (asked : Nat → Prop) (psSHP : SHPHandle α) :
    Prop where
  frame : psSHP = { opened with
    posSHX := psSHP.posSHX, panRecOffset := psSHP.panRecOffset, panRecSize := psSHP.panRecSize
    panRecLoaded := psSHP.panRecLoaded }
  loaded : ∀ page ≤ entries.length / SHX_BUFFER_PAGE, page < psSHP.panRecLoaded.capacity ∧
    (msGetBit psSHP.panRecLoaded page = true ↔ asked page)
  cached : ∀ i, (inside : i < entries.length) → asked (i / SHX_BUFFER_PAGE) →
    psSHP.panRecOffset i = 2 * entries[i].1 ∧ psSHP.panRecSize i = 2 * entries[i].2
  fresh : ∀ i, ¬ asked (i / SHX_BUFFER_PAGE) → psSHP.panRecOffset i = opened.panRecOffset i
  position : (∀ page, ¬ asked page) ∧ psSHP.posSHX = 100 ∨ (∃ page, asked page) ∧ 108 ≤ psSHP.posSHX

theorem caching_opened {big : Bool} (opened : Opened big entries psSHP) :
    Caching entries psSHP (fun _ => False) psSHP where
  frame := rfl
  loaded := by
    intro page inside
    obtain ⟨room, clear⟩ := opened.room page inside
    refine ⟨room, ?_⟩
    rw [clear]
    exact iff_of_false Bool.false_ne_true id
  cached := fun i inside asked => asked.elim
  fresh := fun i _ => rfl
  position := .inl ⟨fun page asked => asked, opened.position⟩

theorem msSHXLoadPage_entries {big : Bool} (offsets : ∀ entry ∈ entries, 0 < entry.1 ∧ entry.1 < INT_MAX / 2)
    (sizes : ∀ entry ∈ entries, 0 < entry.2 ∧ entry.2 < INT_MAX / 2) {header : List UInt8} (length : header.length = 100)
    (fpSHX : psSHP.fpSHX = header ++ putEntries big entries) (nRecords : psSHP.nRecords = entries.length)
    {page : Nat} (inside : page * SHX_BUFFER_PAGE < entries.length) :
    ∃ posSHX panRecOffset panRecSize, msSHXLoadPage big psSHP page = { psSHP with
        posSHX, panRecOffset, panRecSize, panRecLoaded := msSetBit psSHP.panRecLoaded page true } ∧ 108 ≤ posSHX ∧
      (∀ i, (bound : i < entries.length) → i / SHX_BUFFER_PAGE = page →
        panRecOffset i = 2 * entries[i].1 ∧ panRecSize i = 2 * entries[i].2) ∧
      ∀ i, i / SHX_BUFFER_PAGE ≠ page → panRecOffset i = psSHP.panRecOffset i ∧ panRecSize i = psSHP.panRecSize i := by
  unfold msSHXLoadPage
  rw [nRecords]
  generalize counts : (if page < entries.length / SHX_BUFFER_PAGE then SHX_BUFFER_PAGE
    else entries.length - page * SHX_BUFFER_PAGE) = count
  have covers : ∀ i < entries.length, i / SHX_BUFFER_PAGE = page ↔ page * SHX_BUFFER_PAGE ≤ i ∧ i < page * SHX_BUFFER_PAGE + count := by
    intro i bound
    unfold SHX_BUFFER_PAGE at *
    split at counts <;> omega
  have fits : page * SHX_BUFFER_PAGE + count ≤ entries.length ∧ 0 < count := by
    unfold SHX_BUFFER_PAGE at *
    split at counts <;> omega
  have beyond : ∀ i, i / SHX_BUFFER_PAGE ≠ page → i < page * SHX_BUFFER_PAGE ∨ page * SHX_BUFFER_PAGE + count ≤ i := by
    intro i other
    by_contra within
    rw [not_or, not_lt, not_le] at within
    exact other ((covers i (by omega)).mpr within)
  generalize places : (entries.drop (page * SHX_BUFFER_PAGE)).take count = part
  have partLength : part.length = count := by
    rw [← places, length_take, length_drop]
    omega
  have holds := holds_entries big length fits.1
  rw [places, ← fpSHX] at holds
  have reads : readAt psSHP.fpSHX (100 + page * SHX_BUFFER_PAGE * 8) (8 * count) = some (putEntries big part) := by
    rw [Nat.mul_comm (page * SHX_BUFFER_PAGE) 8]
    exact readAt_of_holds holds (by rw [length_putEntries, partLength])
  have members : ∀ entry ∈ part, entry ∈ entries := by
    intro entry member
    rw [← places] at member
    exact mem_of_mem_drop (mem_of_mem_take member)
  obtain ⟨panRecOffset, panRecSize, run, copied, kept⟩ := cacheEntries_entries big
    (fun entry member => offsets entry (members entry member)) (fun entry member => sizes entry (members entry member))
    psSHP (page * SHX_BUFFER_PAGE)
  rw [partLength] at run
  simp only [reads, run]
  refine ⟨100 + page * SHX_BUFFER_PAGE * 8 + 8 * count, panRecOffset, panRecSize, by rw [nRecords], by omega, fun i bound here => ?_, fun i other => ?_⟩
  · obtain ⟨low, high⟩ := (covers i bound).mp here
    have place : i - page * SHX_BUFFER_PAGE < part.length := by omega
    have found := copied (i - page * SHX_BUFFER_PAGE) place
    rw [Nat.add_sub_cancel' low] at found
    have same : part[i - page * SHX_BUFFER_PAGE] = entries[i] := by
      simp only [← places, getElem_take, getElem_drop, Nat.add_sub_cancel' low]
    rwa [same] at found
  · rw [partLength] at kept
    exact kept i (beyond i other)

/-- The pages that a call for entity `hEntity` needs. -/
def Asks (nRecords : Nat) (hEntity : Int) (page : Nat) : Prop :=
  0 ≤ hEntity ∧ hEntity < nRecords ∧ page = hEntity.toNat / SHX_BUFFER_PAGE

theorem needPage_caching {big : Bool} {opened : SHPHandle α} (start : Opened big entries opened)
    {asked : Nat → Prop} (caching : Caching entries opened asked psSHP) (hEntity : Int) :
    Caching entries opened (fun page => asked page ∨ Asks entries.length hEntity page)
      (needPage big psSHP hEntity) := by
  have frame := caching.frame
  have nRecords : psSHP.nRecords = entries.length := by rw [frame, ← start.nRecords]
  have allLoaded : psSHP.panRecAllLoaded = false := by rw [frame, ← start.panRecAllLoaded]
  have unchanged : (∀ page, Asks entries.length hEntity page → asked page) →
      Caching entries opened (fun page => asked page ∨ Asks entries.length hEntity page) psSHP := by
    intro known
    have same : (fun page => asked page ∨ Asks entries.length hEntity page) = asked := by
      funext page
      exact propext ⟨fun either => either.elim id (known page), .inl⟩
    rwa [same]
  unfold needPage
  by_cases outside : hEntity < 0 ∨ hEntity ≥ psSHP.nRecords
  · rw [if_pos outside]
    apply unchanged
    rintro page ⟨low, high, -⟩
    omega
  · rw [if_neg outside, allLoaded, Bool.false_or]
    rw [nRecords, not_or, not_lt, not_le] at outside
    obtain ⟨low, high⟩ := outside
    have inside : hEntity.toNat / SHX_BUFFER_PAGE * SHX_BUFFER_PAGE < entries.length := by
      have := Nat.div_mul_le_self hEntity.toNat SHX_BUFFER_PAGE
      omega
    have small : hEntity.toNat / SHX_BUFFER_PAGE ≤ entries.length / SHX_BUFFER_PAGE :=
      Nat.div_le_div_right (by omega)
    obtain ⟨room, bit⟩ := caching.loaded _ small
    by_cases present : msGetBit psSHP.panRecLoaded (hEntity.toNat / SHX_BUFFER_PAGE) = true
    · rw [if_pos present]
      apply unchanged
      rintro page ⟨-, -, rfl⟩
      exact bit.mp present
    · rw [if_neg present]
      obtain ⟨header, length, fpSHX⟩ := start.index
      have sameFile : psSHP.fpSHX = opened.fpSHX := by rw [frame]
      obtain ⟨posSHX, panRecOffset, panRecSize, run, moved, here, elsewhere⟩ :=
        msSHXLoadPage_entries start.offsets start.sizes length (sameFile.trans fpSHX) nRecords inside
      have asks : Asks entries.length hEntity (hEntity.toNat / SHX_BUFFER_PAGE) := ⟨low, high, rfl⟩
      rw [run]
      refine ⟨?_, fun page bound => ?_, fun i bound either => ?_, fun i neither => ?_, .inr ⟨⟨_, .inr asks⟩, moved⟩⟩
      · dsimp only
        rw [frame]
      · obtain ⟨room', bit'⟩ := caching.loaded page bound
        refine ⟨by rwa [capacity_set], ?_⟩
        rw [msGetBit_set _ true room]
        split
        · rename_i same
          exact iff_of_true rfl (.inr (same ▸ asks))
        · rename_i other
          rw [bit']
          exact ⟨.inl, fun either => either.elim id fun asks => absurd asks.2.2 other⟩
      · by_cases same : i / SHX_BUFFER_PAGE = hEntity.toNat / SHX_BUFFER_PAGE
        · exact here i bound same
        · have old := caching.cached i bound (either.elim id fun asks => absurd asks.2.2 same)
          obtain ⟨offset, size⟩ := elsewhere i same
          exact ⟨offset.trans old.1, size.trans old.2⟩
      · have other : i / SHX_BUFFER_PAGE ≠ hEntity.toNat / SHX_BUFFER_PAGE := by
          intro same
          exact neither (.inr (same ▸ asks))
        exact (elsewhere i other).1.trans (caching.fresh i fun old => neither (.inl old))

theorem Caching.congr {opened : SHPHandle α} {asked other : Nat → Prop} (caching : Caching entries opened asked psSHP)
    (same : ∀ page, asked page ↔ other page) : Caching entries opened other psSHP := by
  obtain rfl : asked = other := funext fun page => propext (same page)
  exact caching

inductive ReadCall where
  | readShape (hEntity : Int)
  | readBounds (hEntity : Int)

def ReadCall.hEntity : ReadCall → Int
  | .readShape hEntity => hEntity
  | .readBounds hEntity => hEntity

section Reads
variable (rep : DoubleRep α) (big : Bool)

def applyRead (psSHP : SHPHandle α) : ReadCall → SHPHandle α
  | .readShape hEntity => (msSHPReadShape rep big psSHP hEntity).1
  | .readBounds hEntity => (msSHPReadBounds rep big psSHP hEntity).1

theorem applyRead_cases (psSHP : SHPHandle α) (call : ReadCall) :
    applyRead rep big psSHP call = psSHP ∧ (call.hEntity < 0 ∨ call.hEntity ≥ psSHP.nRecords) ∨
    applyRead rep big psSHP call = needPage big psSHP call.hEntity ∨
    applyRead rep big psSHP call =
      needPage big (needPage big psSHP call.hEntity) call.hEntity := by
  cases call with
  | readShape hEntity =>
    simp only [applyRead, msSHPReadShape, ReadCall.hEntity]
    by_cases outside : hEntity < 0 ∨ hEntity ≥ psSHP.nRecords
    · exact .inl ⟨by rw [if_pos outside], outside⟩
    · rw [if_neg outside]
      exact .inr (.inr rfl)
  | readBounds hEntity =>
    simp only [applyRead, msSHPReadBounds, ReadCall.hEntity]
    by_cases outside : psSHP.nRecords ≤ 0 ∨ hEntity < -1 ∨ hEntity ≥ psSHP.nRecords
    · exact .inl ⟨by rw [if_pos outside], by omega⟩
    · rw [if_neg outside]
      by_cases whole : hEntity = -1
      · exact .inl ⟨by rw [if_pos whole], .inl (by omega)⟩
      · rw [if_neg whole]
        by_cases small : (msSHXReadSize big psSHP hEntity).2 ≤ 4
        · exact .inr (.inl (by rw [if_pos small]; rfl))
        · refine .inr (.inr ?_)
          rw [if_neg small]
          repeat' split
          all_goals rfl

theorem applyRead_caching {entries : List (Int × Int)} {opened psSHP : SHPHandle α}
    (start : Opened big entries opened) {asked : Nat → Prop} (caching : Caching entries opened asked psSHP)
    (call : ReadCall) :
    Caching entries opened (fun page => asked page ∨ Asks entries.length call.hEntity page)
      (applyRead rep big psSHP call) := by
  have nRecords : psSHP.nRecords = entries.length := by rw [caching.frame, ← start.nRecords]
  have once := needPage_caching start caching call.hEntity
  rcases applyRead_cases rep big psSHP call with ⟨same, outside⟩ | same | same
  · rw [same]
    refine caching.congr fun page => ⟨.inl, fun either => either.elim id ?_⟩
    rintro ⟨low, high, -⟩
    omega
  · rwa [same]
  · rw [same]
    apply (needPage_caching start once call.hEntity).congr
    intro page
    rw [or_assoc, or_self]

def Asked (nRecords : Nat) (reads : List ReadCall) (page : Nat) : Prop :=
  ∃ call ∈ reads, Asks nRecords call.hEntity page

theorem applyReads_caching {entries : List (Int × Int)} {opened : SHPHandle α} (start : Opened big entries opened)
    (reads : List ReadCall) :
    Caching entries opened (Asked entries.length reads) (reads.foldl (applyRead rep big) opened) := by
  induction reads using reverseRecOn with
  | nil =>
    apply (caching_opened start).congr
    intro page
    exact ⟨False.elim, fun ⟨call, member, _⟩ => absurd member not_mem_nil⟩
  | append_singleton reads call ih =>
    rw [foldl_append]
    apply (applyRead_caching rep big start ih call).congr
    intro page
    simp only [Asked, mem_append, mem_singleton, or_and_right, exists_or, exists_eq_left]

end Reads
end MapServer
