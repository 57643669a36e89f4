import MapServer.Lib.ByteFile
import MapServer.Spatial.TreeSearch
import MapServer.Words

/-!
`msWriteTree` and `msSearchDiskTree`. A file is the list of its bytes. The writer and the reader run on
hosts whose byte orders are parameters, and a coordinate is stored through its 64 bits.
-/

namespace MapServer
open Lib.Bytes Lib.ByteFile

def MS_LSB_ORDER : Int := -1
def MS_NATIVE_ORDER : Int := 0
def MS_NEW_LSB_ORDER : Int := 1
def MS_NEW_MSB_ORDER : Int := 2

/-- `SHPTreeInfo`, less the file itself. -/
structure SHPTreeInfo where
  signature : List UInt8
  LSB_order : Bool
  needswap : Bool
  version : UInt8
  flags : List UInt8
  nShapes : Int
  nDepth : Int

section Write
variable {α : Type}

mutual
def getSubNodeOffset : TreeNodeObj α → Int
  | .node _ _ subnode => addSubNodeOffsets subnode 0

/-- The loop of `getSubNodeOffset`: 44 bytes and 4 for each id of a subnode, then what is below it. -/
def addSubNodeOffsets : List (TreeNodeObj α) → Int → Int
  | [], offset => offset
  | child :: rest, offset =>
    let offset := int32 (offset + (32 + (child.ids.length + 3) * 4))
    addSubNodeOffsets rest (int32 (offset + getSubNodeOffset child))
end

variable (rep : DoubleRep α) (bBigEndian needswap : Bool)

mutual
def writeTreeNode : TreeNodeObj α → List UInt8
  | .node rect ids subnode =>
    putWord bBigEndian needswap (addSubNodeOffsets subnode 0) ++
      putRect rep bBigEndian needswap rect ++
      putWord bBigEndian needswap ids.length ++
      ids.flatMap (putWord bBigEndian needswap) ++
      putWord bBigEndian needswap subnode.length ++
      writeSubNodes subnode

def writeSubNodes : List (TreeNodeObj α) → List UInt8
  | [] => []
  | child :: rest => writeTreeNode child ++ writeSubNodes rest
end

def writeNeedswap (B_order : Int) : Bool :=
  if B_order = MS_NATIVE_ORDER then false
  else !(bBigEndian ^^ decide (B_order = MS_LSB_ORDER ∨ B_order = MS_NEW_LSB_ORDER))

/-- The bytes of the file that `msWriteTree` leaves. It trims the tree first. -/
def msWriteTree (tree : TreeObj α) (B_order : Int) : List UInt8 :=
  let tree := msTreeTrim tree
  let needswap := writeNeedswap bBigEndian B_order
  let header := if B_order > 0 then [83, 81, 84, UInt8.ofNat B_order.toNat, 1, 0, 0, 0] else []
  header ++ putWord bBigEndian needswap tree.numshapes ++ putWord bBigEndian needswap tree.maxdepth ++
    writeTreeNode rep bBigEndian needswap tree.root

end Write

section Open
variable (bBigEndian : Bool)

/-- `msSHPDiskTreeOpen`, with the position after the header. Files without the signature are of the
old format, whose byte order is guessed from the depth or the shape count. -/
def msSHPDiskTreeOpen (file : List UInt8) : Option (SHPTreeInfo × Nat) :=
  match readAt file 0 8 with
  | none => none
  | some pabyBuf =>
    let byte (i : Nat) : UInt8 := pabyBuf.getD i 0
    if pabyBuf.take 3 ≠ [83, 81, 84] then
      let LSB_order :=
        if byte 4 = 0 ∧ byte 5 = 0 ∧ byte 6 = 0 ∧ byte 7 = 0 then !decide (byte 0 = 0 ∧ byte 1 = 0)
        else !decide (byte 4 = 0 ∧ byte 5 = 0)
      let needswap := LSB_order != !bBigEndian
      some ({ signature := pabyBuf.take 3, LSB_order, needswap, version := 0, flags := [],
              nShapes := getWord bBigEndian needswap (pabyBuf.take 4)
              nDepth := getWord bBigEndian needswap (pabyBuf.drop 4) }, 8)
    else
      let needswap := decide (byte 3 = 2) ^^ bBigEndian
      match readAt file 8 8 with
      | none => none
      | some counts =>
        some ({ signature := pabyBuf.take 3, LSB_order := decide (byte 3 = 1), needswap
                version := byte 4, flags := pabyBuf.drop 5
                nShapes := getWord bBigEndian needswap (counts.take 4)
                nDepth := getWord bBigEndian needswap (counts.drop 4) }, 16)

end Open

structure DiskSearch where
  pos : Nat
  status : BitArray
  failed : Bool := false

def repeatStep {σ : Type} (step : σ → Option σ) : Nat → σ → Option σ
  | 0, s => some s
  | count + 1, s => (step s).bind (repeatStep step count)

section Read
variable {α : Type} [LT α] [DecidableLT α] (rep : DoubleRep α) (bBigEndian : Bool)

/-- A failed `fread` leaves the position at the end of the file. -/
def DiskSearch.shortRead (search : DiskSearch) (file : List UInt8) : DiskSearch :=
  { search with pos := file.length, failed := true }

/-- `searchDiskTreeNode`. A corrupt file can send the reader back to a node again and again, so the
depth of the recursion is bounded by a fuel, and `none` is the lack of it. -/
def searchDiskTreeNode (disktree : SHPTreeInfo) (file : List UInt8) (aoi : RectObj α) :
    Nat → DiskSearch → Option DiskSearch
  | 0, _ => none
  | fuel + 1, search =>
    let word := getWord bBigEndian disktree.needswap
    let pos := search.pos
    match readAt file pos 4, readAt file (pos + 4) 32, readAt file (pos + 36) 4 with
    | some offset, some rect, some numshapes =>
      let rect := getRect rep bBigEndian disktree.needswap rect
      let numshapes := word numshapes
      if numshapes < 0 ∨ numshapes > INT_MAX / 4 then some { search with pos := pos + 40, failed := true }
      else if !msRectOverlap rect aoi then
        -- Skip the rest of this node and its subnodes.
        let target := pos + 40 + int32 (word offset + (numshapes * 4 + 4))
        if target < 0 then some { search with pos := pos + 40, failed := true }
        else some { search with pos := target.toNat }
      else
        match if numshapes > 0 then readAt file (pos + 40) (numshapes.toNat * 4) else some [] with
        | none => some (search.shortRead file)
        | some ids =>
          let ids := getWords bBigEndian disktree.needswap numshapes.toNat ids
          let search := { search with status := setShapeBits disktree.nShapes.toNat ids search.status }
          let pos := pos + 40 + numshapes.toNat * 4
          match readAt file pos 4 with
          | none => some (search.shortRead file)
          | some numsubnodes =>
            let numsubnodes := word numsubnodes
            if numsubnodes < 0 ∨ numsubnodes > INT_MAX / 4 then
              some { search with pos := pos + 4, failed := true }
            else
              repeatStep (searchDiskTreeNode disktree file aoi fuel) numsubnodes.toNat
                { search with pos := pos + 4 }
    | _, _, _ => some (search.shortRead file)

/-- The outer option is the fuel, the inner one the `NULL` of a file that cannot be used. -/
def msSearchDiskTree (file : List UInt8) (aoi : RectObj α) (numshapes : Int) (fuel : Nat) :
    Option (Option BitArray) :=
  match msSHPDiskTreeOpen bBigEndian file with
  | none => some none
  | some (disktree, pos) =>
    if disktree.nShapes ≠ numshapes then some none
    else
      let status := msAllocBitArray disktree.nShapes.toNat
      (searchDiskTreeNode rep bBigEndian disktree file aoi fuel { pos, status }).map (some ·.status)

end Read
end MapServer

namespace MapServer
open Lib.Bytes Lib.ByteFile

section Size
variable {α : Type} (rep : DoubleRep α) (bBigEndian needswap : Bool)

theorem length_writeTreeNode (rect : RectObj α) (ids : List Int) (subnode : List (TreeNodeObj α)) :
    (writeTreeNode rep bBigEndian needswap (.node rect ids subnode)).length =
      44 + ids.length * 4 + (writeSubNodes rep bBigEndian needswap subnode).length := by
  simp only [writeTreeNode, List.length_append, length_putWord, length_putRect, length_flatMap_putWord]
  omega

theorem addSubNodeOffsets_of_children (subnode : List (TreeNodeObj α))
    (exact : ∀ child ∈ subnode, getSubNodeOffset child =
      int32 ((writeTreeNode rep bBigEndian needswap child).length - (44 + child.ids.length * 4 : Int)))
    (offset : Int) :
    addSubNodeOffsets subnode (int32 offset) =
      int32 (offset + (writeSubNodes rep bBigEndian needswap subnode).length) := by
  induction subnode generalizing offset with
  | nil => simp [addSubNodeOffsets, writeSubNodes]
  | cons child rest ih =>
    rw [addSubNodeOffsets, exact child List.mem_cons_self, int32_add_int32, int32_int32_add, Int.add_assoc,
      int32_int32_add, ih fun other member => exact other (List.mem_cons_of_mem _ member), writeSubNodes,
      List.length_append]
    congr 1
    omega

theorem getSubNodeOffset_eq (node : TreeNodeObj α) :
    getSubNodeOffset node =
      int32 ((writeTreeNode rep bBigEndian needswap node).length - (44 + node.ids.length * 4 : Int)) := by
  induction node with
  | node rect ids subnode ih =>
    have total := addSubNodeOffsets_of_children rep bBigEndian needswap subnode ih 0
    rw [getSubNodeOffset, length_writeTreeNode]
    refine total.trans (congrArg int32 ?_)
    simp only [TreeNodeObj.ids_node]
    omega

theorem addSubNodeOffsets_eq (subnode : List (TreeNodeObj α)) :
    addSubNodeOffsets subnode 0 = int32 (writeSubNodes rep bBigEndian needswap subnode).length := by
  have total := addSubNodeOffsets_of_children rep bBigEndian needswap subnode
    (fun child _ => getSubNodeOffset_eq rep bBigEndian needswap child) 0
  rwa [Int.zero_add] at total

theorem length_le_writeSubNodes (subnode : List (TreeNodeObj α)) :
    subnode.length * 44 ≤ (writeSubNodes rep bBigEndian needswap subnode).length := by
  induction subnode with
  | nil => simp
  | cons child rest ih =>
    obtain ⟨rect, ids, below⟩ := child
    rw [writeSubNodes, List.length_append, length_writeTreeNode, List.length_cons]
    omega

theorem length_child_le {subnode : List (TreeNodeObj α)} {child : TreeNodeObj α} (member : child ∈ subnode) :
    (writeTreeNode rep bBigEndian needswap child).length ≤
      (writeSubNodes rep bBigEndian needswap subnode).length := by
  induction subnode with
  | nil => simp at member
  | cons first rest ih =>
    rw [writeSubNodes, List.length_append]
    rcases List.mem_cons.mp member with rfl | member
    · omega
    · have := ih member
      omega

end Size

section Read
variable {α : Type} [LT α] [DecidableLT α] (rep : DoubleRep α)

variable {writer reader swapped : Bool} {disktree : SHPTreeInfo} {file : List UInt8} {aoi : RectObj α}

variable (disktree aoi) in
theorem repeatStep_subnodes {subnode : List (TreeNodeObj α)} {step : DiskSearch → Option DiskSearch}
    (reads : ∀ child ∈ subnode, ∀ search : DiskSearch,
      Holds file search.pos (writeTreeNode rep writer swapped child) →
      step search = some { search with
        pos := search.pos + (writeTreeNode rep writer swapped child).length
        status := setShapeBits disktree.nShapes.toNat (idsWhere (msRectOverlap · aoi) child) search.status })
    (search : DiskSearch) (holds : Holds file search.pos (writeSubNodes rep writer swapped subnode)) :
    repeatStep step subnode.length search = some { search with
      pos := search.pos + (writeSubNodes rep writer swapped subnode).length
      status := setShapeBits disktree.nShapes.toNat
        (subnode.flatMap (idsWhere (msRectOverlap · aoi))) search.status } := by
  induction subnode generalizing search with
  | nil => rfl
  | cons child rest ih =>
    rw [writeSubNodes] at holds
    obtain ⟨first, later⟩ := holds_append holds
    rw [List.length_cons, repeatStep, reads child List.mem_cons_self search first, Option.bind_some,
      ih (fun other member => reads other (List.mem_cons_of_mem _ member)) _ later]
    simp only [writeSubNodes, List.length_append, List.flatMap_cons, setShapeBits_append, Nat.add_assoc]

omit [LT α] [DecidableLT α] in
theorem holds_record {rect : RectObj α} {ids : List Int} {subnode : List (TreeNodeObj α)} {pos : Nat}
    (holds : Holds file pos (writeTreeNode rep writer swapped (.node rect ids subnode))) :
    Holds file pos (putWord writer swapped (addSubNodeOffsets subnode 0)) ∧
    Holds file (pos + 4) (putRect rep writer swapped rect) ∧
    Holds file (pos + 36) (putWord writer swapped ids.length) ∧
    Holds file (pos + 40) (ids.flatMap (putWord writer swapped)) ∧
    Holds file (pos + 40 + ids.length * 4) (putWord writer swapped subnode.length) ∧
    Holds file (pos + 40 + ids.length * 4 + 4) (writeSubNodes rep writer swapped subnode) := by
  rw [writeTreeNode] at holds
  obtain ⟨record, below⟩ := holds_append holds
  obtain ⟨upToIds, count⟩ := holds_append record
  obtain ⟨upToNumshapes, own⟩ := holds_append upToIds
  obtain ⟨upToRect, numshapes⟩ := holds_append upToNumshapes
  obtain ⟨offset, bounds⟩ := holds_append upToRect
  simp only [List.length_append, length_putWord, length_putRect, length_flatMap_putWord] at *
  refine ⟨offset, bounds, numshapes, own, ?_, ?_⟩
  · rwa [Nat.add_assoc]
  · rwa [Nat.add_assoc, Nat.add_assoc, ← Nat.add_assoc 40]

theorem searchDiskTreeNode_at_record (agree : (writer ^^ swapped) = (reader ^^ disktree.needswap))
    {rect : RectObj α} {own : List Int} {subnode : List (TreeNodeObj α)} (fuel : Nat) (search : DiskSearch)
    (size : (writeTreeNode rep writer swapped (.node rect own subnode)).length < 2147483648)
    (holds : Holds file search.pos (writeTreeNode rep writer swapped (.node rect own subnode))) :
    searchDiskTreeNode rep reader disktree file aoi (fuel + 1) search =
      if msRectOverlap rect aoi then
        repeatStep (searchDiskTreeNode rep reader disktree file aoi fuel) subnode.length {
          search with
          pos := search.pos + 40 + own.length * 4 + 4
          status := setShapeBits disktree.nShapes.toNat (own.map int32) search.status }
      else some {
        search with pos := search.pos + (writeTreeNode rep writer swapped (.node rect own subnode)).length } := by
  rw [length_writeTreeNode] at size ⊢
  have children := length_le_writeSubNodes rep writer swapped subnode
  obtain ⟨offsetAt, rectAt, numshapesAt, idsAt, countAt, -⟩ := holds_record rep holds
  have readIds : (if (own.length : Int) > 0 then readAt file (search.pos + 40) (own.length * 4) else some []) =
      some (own.flatMap (putWord writer swapped)) := by
    split
    · exact readAt_of_holds idsAt (length_flatMap_putWord ..)
    · have none : own = [] := List.length_eq_zero_iff.mp (by omega)
      rw [none, List.flatMap_nil]
  have length : int32 own.length = own.length := int32_of_range (by omega) (by omega)
  have inRange : ¬ ((own.length : Int) < 0 ∨ (own.length : Int) > INT_MAX / 4) := by
    unfold INT_MAX
    omega
  rw [searchDiskTreeNode]
  simp only [readAt_of_holds offsetAt (length_putWord ..), readAt_of_holds rectAt (length_putRect ..),
    readAt_of_holds numshapesAt (length_putWord ..), getWord_putWord agree, getRect_putRect rep agree, length,
    if_neg inRange]
  cases msRectOverlap rect aoi with
  | false =>
    have skip : int32 (int32 (addSubNodeOffsets subnode 0) + ((own.length : Int) * 4 + 4)) =
        own.length * 4 + 4 + (writeSubNodes rep writer swapped subnode).length := by
      rw [addSubNodeOffsets_eq rep writer swapped, int32_int32_add, int32_int32_add]
      rw [int32_of_range (by omega) (by omega)]
      omega
    have target : ((search.pos : Int) + 40 +
        (own.length * 4 + 4 + (writeSubNodes rep writer swapped subnode).length)).toNat =
        search.pos + (44 + own.length * 4 + (writeSubNodes rep writer swapped subnode).length) := by omega
    simp only [Bool.not_false, if_true, Bool.false_eq_true, if_false, skip, target]
    rw [if_neg (by omega)]
  | true =>
    have count : int32 subnode.length = subnode.length := int32_of_range (by omega) (by omega)
    have few : ¬ ((subnode.length : Int) < 0 ∨ (subnode.length : Int) > INT_MAX / 4) := by
      unfold INT_MAX
      omega
    simp only [Bool.not_true, Bool.false_eq_true, if_false, if_true, Int.toNat_natCast, readIds,
      getWords_putWords agree, readAt_of_holds countAt (length_putWord ..), getWord_putWord agree,
      count, if_neg few]

theorem searchDiskTreeNode_skip (agree : (writer ^^ swapped) = (reader ^^ disktree.needswap))
    {node : TreeNodeObj α} (apart : msRectOverlap node.rect aoi = false) (fuel : Nat) (search : DiskSearch)
    (size : (writeTreeNode rep writer swapped node).length < 2147483648)
    (holds : Holds file search.pos (writeTreeNode rep writer swapped node)) :
    searchDiskTreeNode rep reader disktree file aoi (fuel + 1) search = some {
      search with pos := search.pos + (writeTreeNode rep writer swapped node).length } := by
  obtain ⟨rect, own, subnode⟩ := node
  rw [searchDiskTreeNode_at_record rep agree fuel search size holds]
  exact if_neg (by simpa using apart)

/-- From the first byte of a node, the reader ends at the first byte after its subtree, and it sets
the bits of the ids that the search in memory meets. -/
theorem searchDiskTreeNode_of_holds (agree : (writer ^^ swapped) = (reader ^^ disktree.needswap))
    (node : TreeNodeObj α) (ids : ∀ id ∈ allIds node, 0 ≤ id ∧ id < 2147483648)
    (size : (writeTreeNode rep writer swapped node).length < 2147483648) (fuel : Nat)
    (enough : (writeTreeNode rep writer swapped node).length ≤ fuel) (search : DiskSearch)
    (holds : Holds file search.pos (writeTreeNode rep writer swapped node)) :
    searchDiskTreeNode rep reader disktree file aoi fuel search = some { search with
      pos := search.pos + (writeTreeNode rep writer swapped node).length
      status := setShapeBits disktree.nShapes.toNat (idsWhere (msRectOverlap · aoi) node) search.status } := by
  induction node generalizing fuel search with
  | node rect own subnode ih =>
    have length := length_writeTreeNode rep writer swapped rect own subnode
    obtain ⟨fuel, rfl⟩ : ∃ deeper, fuel = deeper + 1 := ⟨fuel - 1, by omega⟩
    rw [searchDiskTreeNode_at_record rep agree fuel search size holds, idsWhere_node]
    rw [allIds_node, List.forall_mem_append] at ids
    have ownIds := map_int32_of_range ids.1
    split
    · obtain ⟨-, -, -, -, -, below⟩ := holds_record rep holds
      rw [ownIds, repeatStep_subnodes rep disktree aoi ?_ _ below]
      · have stop : search.pos + 40 + own.length * 4 + 4 + (writeSubNodes rep writer swapped subnode).length =
            search.pos + (writeTreeNode rep writer swapped (.node rect own subnode)).length := by omega
        simp only [setShapeBits_append, stop]
      · intro child member search holds
        have fits := length_child_le rep writer swapped member
        exact ih child member (fun id found => ids.2 id (List.mem_flatMap.mpr ⟨child, member, found⟩))
          (by omega) fuel (by omega) search holds
    · rfl

theorem writeNeedswap_agrees (writer reader : Bool) {B_order : Int}
    (order : B_order = MS_NEW_LSB_ORDER ∨ B_order = MS_NEW_MSB_ORDER) :
    (writer ^^ writeNeedswap writer B_order) = (reader ^^ (decide (UInt8.ofNat B_order.toNat = 2) ^^ reader)) := by
  rcases order with rfl | rfl <;> cases writer <;> cases reader <;> decide

omit [LT α] [DecidableLT α] in
theorem msSHPDiskTreeOpen_of_holds (reader : Bool) {bytes : List UInt8} {order : UInt8}
    {numshapes maxdepth : List UInt8} (header : Holds bytes 0 [83, 81, 84, order, 1, 0, 0, 0])
    (counts : Holds bytes 8 (numshapes ++ maxdepth)) (four : numshapes.length = 4) (depth : maxdepth.length = 4) :
    msSHPDiskTreeOpen reader bytes = some ({
      signature := [83, 81, 84], LSB_order := decide (order = 1), needswap := decide (order = 2) ^^ reader
      version := 1, flags := [0, 0, 0]
      nShapes := getWord reader (decide (order = 2) ^^ reader) numshapes
      nDepth := getWord reader (decide (order = 2) ^^ reader) maxdepth }, 16) := by
  have first : readAt bytes 0 8 = some _ := readAt_of_holds header rfl
  have second : readAt bytes 8 8 = some _ := readAt_of_holds counts (by rw [List.length_append, four, depth])
  simp [msSHPDiskTreeOpen, first, second, List.take_left' four, List.drop_left' four]

omit [LT α] [DecidableLT α] in
theorem msSHPDiskTreeOpen_msWriteTree (writer reader : Bool) (tree : TreeObj α) {B_order : Int}
    (order : B_order = MS_NEW_LSB_ORDER ∨ B_order = MS_NEW_MSB_ORDER) :
    ∃ disktree, msSHPDiskTreeOpen reader (msWriteTree rep writer tree B_order) = some (disktree, 16) ∧
      (writer ^^ writeNeedswap writer B_order) = (reader ^^ disktree.needswap) ∧
      disktree.nShapes = int32 tree.numshapes ∧
      Holds (msWriteTree rep writer tree B_order) 16
        (writeTreeNode rep writer (writeNeedswap writer B_order) (msTreeTrim tree).root) := by
  have agree := writeNeedswap_agrees writer reader order
  have positive : B_order > 0 := by rcases order with rfl | rfl <;> decide
  have written := congrArg (Holds (msWriteTree rep writer tree B_order) 0)
    (msWriteTree.eq_def rep writer tree B_order)
  rw [if_pos positive] at written
  obtain ⟨upToDepth, root⟩ := holds_append (written.mp ⟨[], [], by simp, rfl⟩)
  rw [List.append_assoc] at upToDepth
  obtain ⟨header, counts⟩ := holds_append upToDepth
  refine ⟨_, msSHPDiskTreeOpen_of_holds reader header counts (length_putWord ..) (length_putWord ..), agree,
    getWord_putWord agree _, ?_⟩
  simpa using root

/-- The search of a written file answers as the search of the trimmed tree, and it leaves every node
that does not overlap at the first byte after its subtree. -/
theorem msSearchDiskTree_msWriteTree (writer reader : Bool) (tree : TreeObj α) {B_order : Int}
    (order : B_order = MS_NEW_LSB_ORDER ∨ B_order = MS_NEW_MSB_ORDER) (numshapes : tree.numshapes ≤ INT_MAX)
    (ids : ∀ id ∈ allIds tree.root, 0 ≤ id ∧ id < tree.numshapes)
    (size : (msWriteTree rep writer tree B_order).length < 2 ^ 31) :
    (∀ (aoi : RectObj α) (fuel : Nat), (msWriteTree rep writer tree B_order).length ≤ fuel →
      msSearchDiskTree rep reader (msWriteTree rep writer tree B_order) aoi tree.numshapes fuel =
        some (some (msSearchTree (msTreeTrim tree) aoi))) ∧
    ∃ disktree, msSHPDiskTreeOpen reader (msWriteTree rep writer tree B_order) = some (disktree, 16) ∧
      ∀ (before after : List UInt8) (node : TreeNodeObj α) (aoi : RectObj α) (fuel : Nat) (status : BitArray),
        msWriteTree rep writer tree B_order =
          before ++ writeTreeNode rep writer (writeNeedswap writer B_order) node ++ after →
        msRectOverlap node.rect aoi = false →
        searchDiskTreeNode rep reader disktree (msWriteTree rep writer tree B_order) aoi (fuel + 1)
            { pos := before.length, status } =
          some {
            pos := before.length + (writeTreeNode rep writer (writeNeedswap writer B_order) node).length
            status } := by
  obtain ⟨disktree, opened, agree, nShapes, holds⟩ := msSHPDiskTreeOpen_msWriteTree rep writer reader tree order
  unfold INT_MAX at numshapes
  rw [int32_of_range (by omega) (by omega)] at nShapes
  have rootSize := holds_length holds
  refine ⟨fun aoi fuel enough => ?_, disktree, opened, ?_⟩
  · have trimmedIds : ∀ id ∈ allIds (msTreeTrim tree).root, 0 ≤ id ∧ id < 2147483648 := by
      intro id member
      have range := ids id ((allIds_treeNodeTrim tree.root).mem_iff.mp member)
      omega
    rw [msSearchDiskTree, opened]
    dsimp only
    rw [if_neg (by simpa using nShapes), searchDiskTreeNode_of_holds rep agree (msTreeTrim tree).root trimmedIds
      (by omega) fuel (by omega) _ holds, Option.map_some, msSearchTree, treeCollectShapeIds_eq, nShapes]
    rfl
  · intro before after node aoi fuel status file apart
    have here : Holds (msWriteTree rep writer tree B_order) before.length
        (writeTreeNode rep writer (writeNeedswap writer B_order) node) := ⟨before, after, file, rfl⟩
    have fits := holds_length here
    exact searchDiskTreeNode_skip rep agree apart fuel _ (by omega) here

end Read

def smallTree : TreeObj (BitVec 64) where
  numshapes := 2
  maxdepth := 2
  root := .node ⟨0, 0, 9, 9⟩ [1] [.node ⟨0, 0, 4, 9⟩ [] [], .node ⟨5, 0, 9, 9⟩ [0] []]

theorem msSearchDiskTree_msWriteTree_smallTree :
    msSearchDiskTree bitsRep true (msWriteTree bitsRep false smallTree MS_NEW_MSB_ORDER) ⟨1, 1, 2, 2⟩ 2 200 =
      some (some (msSearchTree (msTreeTrim smallTree) ⟨1, 1, 2, 2⟩)) := by
  have length : (msWriteTree bitsRep false smallTree MS_NEW_MSB_ORDER).length = 112 := by
    simp [msWriteTree, smallTree, msTreeTrim, treeNodeTrim, treeTrimSubnodes, dropEmptySubnodes, moveLastFirst,
      promoteSubnode, length_writeTreeNode, writeSubNodes, MS_NEW_MSB_ORDER]
  exact (msSearchDiskTree_msWriteTree bitsRep false true smallTree (.inr rfl) (by decide)
    (by simp [smallTree, allIds_node]) (by rw [length]; decide)).1 _ 200 (by rw [length]; decide)

end MapServer
