import MapServer.Lib.Loop
import Mathlib.Data.List.Nodup
import Mathlib.Data.List.Perm.Subperm
import Mathlib.Data.List.Range

/-!
The two arrays of a `mapObj` and the operations of `mapobject.c` on them. A step whose outcome C
leaves undefined (a use of a null or freed pointer, a second `free`) is `none`.
-/

namespace MapServer
open Lib.Loop

def MS_LAYER_ALLOCSIZE : Nat := 64

structure LayerObj where
  index : Int
  map : Option Nat
  refcount : Int
  reprojectorLayerToMap : Option Nat
  reprojectorMapToLayer : Option Nat

/-- An entry of `layers`: null, a `calloc`ed layer that is not in use, one that was freed there, or
the address of a layer object. -/
inductive LayerSlot where
  | null
  | fresh
  | freed
  | layer (address : Nat)
  deriving DecidableEq

/-- The fields of a `mapObj` that hold its layers, and all the layer objects there are. -/
structure MapObj where
  address : Nat
  numlayers : Nat
  maxlayers : Nat
  layers : Nat → LayerSlot
  layerorder : Nat → Int
  object : Nat → LayerObj

namespace MapObj

def empty (address : Nat) (object : Nat → LayerObj) : MapObj where
  address := address
  numlayers := 0
  maxlayers := 0
  layers := fun _ => .null
  layerorder := fun _ => 0
  object := object

def setSlot (map : MapObj) (i : Nat) (slot : LayerSlot) : MapObj :=
  { map with layers := Function.update map.layers i slot }

def modifyLayer (map : MapObj) (layer : Nat) (change : LayerObj → LayerObj) : MapObj :=
  { map with object := Function.update map.object layer (change (map.object layer)) }

def setIndex (map : MapObj) (i : Nat) : Option MapObj :=
  match map.layers i with
  | .null | .freed => none
  | .fresh => some map
  | .layer layer => some (map.modifyLayer layer fun object => { object with index := i })

/-- `free(map->layers[i])` of an entry that is not null. The entry keeps the pointer. -/
def freeSlot (map : MapObj) (i : Nat) : Option MapObj :=
  match map.layers i with
  | .null => some map
  | .fresh => some (map.setSlot i .freed)
  | .freed | .layer _ => none

end MapObj

/-- The reallocated arrays of `msGrowMapLayers`. -/
def extendLayers (map : MapObj) : MapObj :=
  let newsize := map.maxlayers + MS_LAYER_ALLOCSIZE
  { map with
    layers := fun i => if map.numlayers ≤ i ∧ i < newsize then .null else map.layers i
    layerorder := fun i => if map.numlayers ≤ i ∧ i < newsize then 0 else map.layerorder i
    maxlayers := newsize }

def allocLayer (granted : Nat) (map : MapObj) : MapObj × Bool :=
  if map.layers map.numlayers = .null then
    if granted = 0 then (map, false) else (map.setSlot map.numlayers .fresh, true)
  else (map, true)

def msGrowMapLayers (granted : Nat) (map : MapObj) : MapObj × Bool :=
  if map.numlayers = map.maxlayers then
    if granted < 2 then (map, false) else allocLayer (granted - 2) (extendLayers map)
  else allocLayer granted map

/-- The check of `msInsertLayer` that there is an entry for one more layer. -/
def ensureRoom (granted : Nat) (map : MapObj) : MapObj × Bool :=
  if map.numlayers = map.maxlayers then msGrowMapLayers granted map else (map, true)

def placeLayer (layer i : Nat) (map : MapObj) : MapObj :=
  (map.setSlot i (.layer layer)).modifyLayer layer fun object =>
    { object with index := i, map := some map.address, refcount := object.refcount + 1 }

def bumpRank (nIndex value : Int) : Int := if value ≥ nIndex then value + 1 else value

/-- The two loops of `msInsertLayer` over the drawing order. -/
def insertOrder (numlayers nIndex : Nat) (layerorder : Nat → Int) : Option (Nat → Int) := do
  let layerorder ← forDown (fun i order => some (Function.update order i (bumpRank nIndex (order (i - 1)))))
    nIndex (numlayers - nIndex) layerorder
  let layerorder ← forUp (fun i order => some (Function.update order i (bumpRank nIndex (order i)))) 0 nIndex
    layerorder
  some (Function.update layerorder nIndex nIndex)

/-- The index at which the layer was inserted, or `-1`. -/
def msInsertLayer (layer : Option Nat) (nIndex : Int) (granted : Nat) (map : MapObj) :
    Option (MapObj × Int) :=
  match layer with
  | none => some (map, -1)
  | some layer =>
    let (map, room) := ensureRoom granted map
    if !room then some (map, -1)
    else do
      let map ← map.freeSlot map.numlayers
      if nIndex ≥ map.numlayers then some (map, -1)
      else if nIndex < 0 then
        let map := { map with layerorder := Function.update map.layerorder map.numlayers map.numlayers }
        let map := placeLayer layer map.numlayers map
        some ({ map with numlayers := map.numlayers + 1 }, map.numlayers)
      else
        let map ← forDown (fun i map => (map.setSlot i (map.layers (i - 1))).setIndex i)
          nIndex.toNat (map.numlayers - nIndex.toNat) map
        let map := placeLayer layer nIndex.toNat map
        let layerorder ← insertOrder map.numlayers nIndex.toNat map.layerorder
        some ({ map with layerorder, numlayers := map.numlayers + 1 }, nIndex)

def dropRank (nIndex value : Int) : Int := if value > nIndex then value - 1 else value

/-- The loop of `msRemoveLayer` that looks for the rank of the removed layer, from rank `i`. It
decrements an entry before it compares it. -/
def findOrderIndex (nIndex : Int) (i : Nat) : Nat → (Nat → Int) → (Nat → Int) × Nat
  | 0, layerorder => (layerorder, 0)
  | count + 1, layerorder =>
    let layerorder := Function.update layerorder i (dropRank nIndex (layerorder i))
    if layerorder i = nIndex then (layerorder, i) else findOrderIndex nIndex (i + 1) count layerorder

def removeOrder (numlayers : Nat) (nIndex : Int) (layerorder : Nat → Int) : Option (Nat → Int) :=
  let (layerorder, order_index) := findOrderIndex nIndex 0 numlayers layerorder
  forUp (fun i order => some (Function.update order i (dropRank nIndex (order (i + 1)))))
    order_index (numlayers - 1 - order_index) layerorder

/-- The removed layer, or `none` for `NULL`. -/
def msRemoveLayer (nIndex : Int) (map : MapObj) : Option (MapObj × Option Nat) :=
  if nIndex < 0 ∨ nIndex ≥ map.numlayers then some (map, none)
  else
    match map.layers nIndex.toNat with
    | .layer layer => do
      let map ← forUp (fun i map => (map.setSlot i (map.layers (i + 1))).setIndex i)
        nIndex.toNat (map.numlayers - 1 - nIndex.toNat) map
      let map := map.setSlot (map.numlayers - 1) .null
      let layerorder ← removeOrder map.numlayers nIndex map.layerorder
      let map := { map with layerorder, numlayers := map.numlayers - 1 }
      some (map.modifyLayer layer fun object => {
        object with
        reprojectorLayerToMap := none
        reprojectorMapToLayer := none
        map := none
        refcount := object.refcount - 1 }, some layer)
    | _ => none

def findRank (nLayerIndex : Int) (map : MapObj) : Option Nat :=
  if nLayerIndex < map.numlayers ∧ nLayerIndex ≥ 0 then
    (List.range map.numlayers).find? fun i => map.layerorder i = nLayerIndex
  else none

def MapObj.swapRanks (map : MapObj) (iCurrentIndex other : Nat) (nLayerIndex : Int) : MapObj :=
  { map with
    layerorder := Function.update
      (Function.update map.layerorder iCurrentIndex (map.layerorder other)) other nLayerIndex }

def msMoveLayerUp (nLayerIndex : Int) (map : MapObj) : MapObj × Bool :=
  match findRank nLayerIndex map with
  | none => (map, false)
  | some iCurrentIndex =>
    if iCurrentIndex = 0 then (map, false)
    else (map.swapRanks iCurrentIndex (iCurrentIndex - 1) nLayerIndex, true)

def msMoveLayerDown (nLayerIndex : Int) (map : MapObj) : MapObj × Bool :=
  match findRank nLayerIndex map with
  | none => (map, false)
  | some iCurrentIndex =>
    if iCurrentIndex = map.numlayers - 1 then (map, false)
    else (map.swapRanks iCurrentIndex (iCurrentIndex + 1) nLayerIndex, true)

/-- `panIndexes` is null or has an entry for each layer. -/
def msSetLayersdrawingOrder (panIndexes : Option (Nat → Int)) (map : MapObj) : MapObj × Bool :=
  match panIndexes with
  | none => (map, false)
  | some panIndexes =>
    if (List.range map.numlayers).all fun i =>
        (List.range map.numlayers).any fun j => panIndexes j = i then
      ({ map with
         layerorder := fun i => if i < map.numlayers then panIndexes i else map.layerorder i }, true)
    else (map, false)

inductive LayerEdit where
  | insert (layer : Option Nat) (nIndex : Int) (granted : Nat)
  | remove (nIndex : Int)
  | moveUp (nLayerIndex : Int)
  | moveDown (nLayerIndex : Int)
  | setOrder (panIndexes : Option (Nat → Int))

def edit (map : MapObj) : LayerEdit → Option (MapObj × Bool)
  | .insert layer nIndex granted =>
    (msInsertLayer layer nIndex granted map).map fun (map, index) => (map, index != -1)
  | .remove nIndex => (msRemoveLayer nIndex map).map fun (map, layer) => (map, layer.isSome)
  | .moveUp nLayerIndex => some (msMoveLayerUp nLayerIndex map)
  | .moveDown nLayerIndex => some (msMoveLayerDown nLayerIndex map)
  | .setOrder panIndexes => some (msSetLayersdrawingOrder panIndexes map)

def runEdits (map : MapObj) : List LayerEdit → Option MapObj
  | [] => some map
  | first :: rest => (edit map first).bind fun (map, _) => runEdits map rest

end MapServer

namespace MapServer
open Lib.Loop

/-- The first `n` ranks hold the numbers below `n`, each once. -/
def Ranks (n : Nat) (layerorder : Nat → Int) : Prop :=
  ((List.range n).map layerorder).Perm ((List.range n).map fun i : Nat => (i : Int))

theorem numbers_nodup (n : Nat) : ((List.range n).map fun i : Nat => (i : Int)).Nodup :=
  List.nodup_range.map fun _ _ => Int.ofNat.inj

variable {n k : Nat} {order : Nat → Int}

theorem ranks_range (ranks : Ranks n order) {i : Nat} (inside : i < n) : 0 ≤ order i ∧ order i < n := by
  have member := ranks.mem_iff.mp (List.mem_map_of_mem (List.mem_range.mpr inside))
  obtain ⟨j, range, same⟩ := List.mem_map.mp member
  have := List.mem_range.mp range
  omega

theorem ranks_injective (ranks : Ranks n order) {i j : Nat} (left : i < n) (right : j < n) (same : order i = order j) :
    i = j :=
  List.inj_on_of_nodup_map (ranks.nodup_iff.mpr (numbers_nodup n)) (List.mem_range.mpr left)
    (List.mem_range.mpr right) same

theorem ranks_surjective (ranks : Ranks n order) (inside : k < n) : ∃ i, i < n ∧ order i = k := by
  have member := ranks.mem_iff.mpr (List.mem_map_of_mem (List.mem_range.mpr inside))
  obtain ⟨i, range, same⟩ := List.mem_map.mp member
  exact ⟨i, List.mem_range.mp range, same⟩

theorem ranks_of_surjective (covers : ∀ k < n, ∃ i < n, order i = k) : Ranks n order := by
  have subset : ((List.range n).map fun i : Nat => (i : Int)) ⊆ (List.range n).map order := by
    intro value member
    obtain ⟨k, range, rfl⟩ := List.mem_map.mp member
    obtain ⟨i, inside, same⟩ := covers k (List.mem_range.mp range)
    exact List.mem_map.mpr ⟨i, List.mem_range.mpr inside, same⟩
  exact (((numbers_nodup n).subperm subset).perm_of_length_le (by simp)).symm

theorem ranks_of_injective (range : ∀ i < n, 0 ≤ order i ∧ order i < n)
    (injective : ∀ i < n, ∀ j < n, order i = order j → i = j) : Ranks n order := by
  have nodup : ((List.range n).map order).Nodup :=
    List.nodup_range.map_on fun i left j right =>
      injective i (List.mem_range.mp left) j (List.mem_range.mp right)
  refine (nodup.subperm ?_).perm_of_length_le (by simp)
  intro value member
  obtain ⟨i, inside, rfl⟩ := List.mem_map.mp member
  have bounds := range i (List.mem_range.mp inside)
  exact List.mem_map.mpr ⟨(order i).toNat, List.mem_range.mpr (by omega), by omega⟩

theorem ranks_congr {other : Nat → Int} (ranks : Ranks n order) (same : ∀ i < n, other i = order i) : Ranks n other := by
  unfold Ranks
  rwa [List.map_congr_left fun i member => same i (List.mem_range.mp member)]

theorem insertOrder_eq (order : Nat → Int) (inside : k ≤ n) : ∃ after, insertOrder n k order = some after ∧ ∀ i ≤ n,
      after i = if i = k then (k : Int) else bumpRank k (order (if i < k then i else i - 1)) := by
  obtain ⟨upper, shift, same, moved⟩ := forDown_invariant
    (fun i order => some (Function.update order i (bumpRank k (order (i - 1))))) k (n - k)
    (fun i now => (∀ j ≤ i, now j = order j) ∧ ∀ j, i < j → j ≤ n → now j = bumpRank k (order (j - 1)))
    ⟨fun _ _ => rfl, fun j low high => by omega⟩ (by
      rintro i now low high ⟨same, done⟩
      refine ⟨_, rfl, fun j bound => ?_, fun j low high => ?_⟩
      · rw [Function.update_of_ne (by omega), same j (by omega)]
      · rcases eq_or_ne j (i + 1) with rfl | other
        · simp [same i (by omega)]
        · rw [Function.update_of_ne other, done j (by omega) high])
  obtain ⟨lower, bump, kept, bumped⟩ := forUp_invariant
    (fun i order => some (Function.update order i (bumpRank k (order i)))) 0 k
    (fun i now => (∀ j, i ≤ j → now j = upper j) ∧ ∀ j < i, now j = bumpRank k (upper j))
    ⟨fun _ _ => rfl, fun j low => by omega⟩ (by
      rintro i now low high ⟨kept, done⟩
      refine ⟨_, rfl, fun j bound => ?_, fun j low => ?_⟩
      · rw [Function.update_of_ne (by omega), kept j (by omega)]
      · rcases eq_or_ne j i with rfl | other
        · simp [kept j (by omega)]
        · rw [Function.update_of_ne other, done j (by omega)])
  refine ⟨Function.update lower k k, ?_, fun i bound => ?_⟩
  · simp only [insertOrder, shift, Option.bind_eq_bind, Option.bind_some, bump]
  · rcases lt_trichotomy i k with less | rfl | more
    · simp [less.ne, less, bumped i (by omega), same i (by omega)]
    · simp
    · rw [Function.update_of_ne more.ne', kept i (by omega), moved i more bound]
      simp [more.ne', Nat.not_lt.mpr more.le]

theorem ranks_insertOrder (ranks : Ranks n order) (inside : k ≤ n) :
    ∃ after, insertOrder n k order = some after ∧ Ranks (n + 1) after := by
  obtain ⟨after, run, value⟩ := insertOrder_eq order inside
  refine ⟨after, run, ranks_of_injective (fun i bound => ?_) fun i left j right same => ?_⟩
  · have range := fun h => ranks_range ranks (i := if i < k then i else i - 1) h
    rw [value i (by omega)]
    grind [bumpRank]
  · rw [value i (by omega), value j (by omega)] at same
    have equal := fun hi hj => ranks_injective ranks (i := if i < k then i else i - 1)
      (j := if j < k then j else j - 1) hi hj
    grind [bumpRank]

theorem ranks_append (ranks : Ranks n order) : Ranks (n + 1) (Function.update order n n) := by
  refine ranks_of_surjective fun k inside => ?_
  rcases eq_or_ne k n with rfl | other
  · exact ⟨k, inside, Function.update_self ..⟩
  · obtain ⟨i, range, same⟩ := ranks_surjective ranks (show k < n by omega)
    exact ⟨i, by omega, by rw [Function.update_of_ne (by omega), same]⟩

theorem findOrderIndex_eq (order : Nat → Int) (i count : Nat) (total : i + count = n)
    (present : ∃ j, i ≤ j ∧ j < n ∧ order j = k) :
    ∃ after m, findOrderIndex k i count order = (after, m) ∧ i ≤ m ∧ m < n ∧ (order m = k ∨ order m = k + 1) ∧
      (∀ j, m < j → after j = order j) ∧ (∀ j, i ≤ j → j < m → after j = dropRank k (order j) ∧ after j ≠ k) ∧
      ∀ j < i, after j = order j := by
  induction count generalizing i order with
  | zero =>
    obtain ⟨j, low, high, -⟩ := present
    omega
  | succ count ih =>
    unfold findOrderIndex
    dsimp only
    rw [Function.update_self]
    split
    · rename_i found
      refine ⟨_, i, rfl, Nat.le_refl i, by omega, ?_, fun j past => ?_, fun j low high => by omega, fun j less => ?_⟩
      · unfold dropRank at found
        split at found <;> omega
      · rw [Function.update_of_ne (by omega)]
      · rw [Function.update_of_ne (by omega)]
    · rename_i other
      obtain ⟨j, low, high, value⟩ := present
      have later : j ≠ i := by
        rintro rfl
        rw [value, dropRank, if_neg (by omega)] at other
        exact other rfl
      obtain ⟨after, m, run, low, inside, removed, past, dropped, before⟩ :=
        ih (Function.update order i (dropRank k (order i))) (i + 1) (by omega)
          ⟨j, by omega, high, by rwa [Function.update_of_ne later]⟩
      refine ⟨after, m, run, by omega, inside, ?_, fun j after => ?_, fun j low high => ?_, fun j less => ?_⟩
      · rwa [Function.update_of_ne (by omega)] at removed
      · rw [past j after, Function.update_of_ne (by omega)]
      · rcases eq_or_ne j i with rfl | differs
        · rw [before j (by omega), Function.update_self]
          exact ⟨rfl, other⟩
        · have later := dropped j (by omega) high
          rwa [Function.update_of_ne differs] at later
      · rw [before j (by omega), Function.update_of_ne (by omega)]

theorem removeOrder_eq (order : Nat → Int) (present : ∃ j < n, order j = k) :
    ∃ after m, removeOrder n k order = some after ∧ m < n ∧ (order m = k ∨ order m = k + 1) ∧
      (∀ i < m, order i ≠ k ∧ order i ≠ k + 1) ∧
      ∀ i, i + 1 < n → after i = dropRank k (order (if i < m then i else i + 1)) := by
  obtain ⟨j, inside, value⟩ := present
  obtain ⟨found, m, scan, -, bound, removed, past, dropped, -⟩ :=
    findOrderIndex_eq order 0 n (Nat.zero_add n) ⟨j, Nat.zero_le j, inside, value⟩
  obtain ⟨after, shift, kept, moved⟩ := forUp_invariant
    (fun i order => some (Function.update order i (dropRank k (order (i + 1))))) m (n - 1 - m)
    (fun i now => (∀ j, j < m ∨ i ≤ j → now j = found j) ∧ ∀ j, m ≤ j → j < i → now j = dropRank k (order (j + 1)))
    ⟨fun _ _ => rfl, fun j low high => by omega⟩ (by
      rintro i now low high ⟨kept, done⟩
      refine ⟨_, rfl, fun j bound => ?_, fun j low high => ?_⟩
      · rw [Function.update_of_ne (by omega), kept j (by omega)]
      · rcases eq_or_ne j i with rfl | other
        · rw [Function.update_self, kept (j + 1) (by omega), past (j + 1) (by omega)]
        · rw [Function.update_of_ne other, done j low (by omega)])
  refine ⟨after, m, ?_, bound, removed, fun i less => ?_, fun i last => ?_⟩
  · rw [removeOrder, scan]
    exact shift
  · obtain ⟨same, other⟩ := dropped i (Nat.zero_le i) less
    rw [same] at other
    unfold dropRank at other
    split at other <;> omega
  · by_cases less : i < m
    · rw [if_pos less, kept i (.inl less), (dropped i (Nat.zero_le i) less).1]
    · rw [if_neg less, moved i (by omega) (by omega)]

theorem ranks_removeOrder (ranks : Ranks n order) (inside : k < n) :
    ∃ after, removeOrder n k order = some after ∧ Ranks (n - 1) after := by
  obtain ⟨after, m, run, bound, removed, -, value⟩ := removeOrder_eq order (ranks_surjective ranks inside)
  have removedRange := ranks_range ranks bound
  have kept : ∀ i < n - 1, ∃ e < n, e ≠ m ∧ after i = dropRank k (order e) ∧ e = if i < m then i else i + 1 := by
    intro i last
    refine ⟨if i < m then i else i + 1, ?_, ?_, value i (by omega), rfl⟩ <;> split <;> omega
  refine ⟨after, run, ranks_of_injective (fun i last => ?_) fun i left j right same => ?_⟩
  · obtain ⟨e, range, other, is, -⟩ := kept i last
    have differs : order e ≠ order m := fun same => other (ranks_injective ranks range bound same)
    have bounds := ranks_range ranks range
    rw [is]
    unfold dropRank
    split <;> omega
  · obtain ⟨e, rangeE, otherE, isE, fromE⟩ := kept i left
    obtain ⟨f, rangeF, otherF, isF, fromF⟩ := kept j right
    have differsE : order e ≠ order m := fun same => otherE (ranks_injective ranks rangeE bound same)
    have differsF : order f ≠ order m := fun same => otherF (ranks_injective ranks rangeF bound same)
    rw [isE, isF] at same
    have equal : order e = order f := by
      unfold dropRank at same
      split at same <;> split at same <;> omega
    have := ranks_injective ranks rangeE rangeF equal
    split at fromE <;> split at fromF <;> omega

theorem ranks_swapRanks {map : MapObj} (ranks : Ranks map.numlayers map.layerorder) {i j : Nat}
    (left : i < map.numlayers) (right : j < map.numlayers) :
    Ranks map.numlayers (map.swapRanks i j (map.layerorder i)).layerorder := by
  refine ranks_of_surjective fun k inside => ?_
  obtain ⟨rank, range, same⟩ := ranks_surjective ranks inside
  simp only [MapObj.swapRanks]
  rcases eq_or_ne rank j with rfl | other
  · rcases eq_or_ne i rank with rfl | differs
    · exact ⟨i, range, by simp [same]⟩
    · exact ⟨i, left, by rw [Function.update_of_ne differs, Function.update_self, same]⟩
  · rcases eq_or_ne rank i with rfl | differs
    · exact ⟨j, right, by rw [Function.update_self, same]⟩
    · exact ⟨rank, range, by rw [Function.update_of_ne other, Function.update_of_ne differs, same]⟩

theorem findRank_some {map : MapObj} {nLayerIndex : Int} {rank : Nat} (found : findRank nLayerIndex map = some rank) :
    rank < map.numlayers ∧ map.layerorder rank = nLayerIndex := by
  unfold findRank at found
  split at found
  · have inside := List.mem_range.mp (List.mem_of_find?_eq_some found)
    exact ⟨inside, by simpa using List.find?_some found⟩
  · contradiction

theorem ranks_of_covered {panIndexes : Nat → Int}
    (covered : ((List.range n).all fun i => (List.range n).any fun j => panIndexes j = i) = true) : Ranks n panIndexes := by
  refine ranks_of_surjective fun k inside => ?_
  have found := List.all_eq_true.mp covered k (List.mem_range.mpr inside)
  obtain ⟨j, range, same⟩ := List.any_eq_true.mp found
  exact ⟨j, List.mem_range.mp range, by simpa using same⟩

section Shifts
open Function
variable {map now : MapObj} {known : Nat → Prop} {source place : Nat → Nat}

/-- The entry `j` has got the slot of the entry `source j`, and the known layer of `j` the index `place j`. -/
structure Shifted (map : MapObj) (known : Nat → Prop) (source place : Nat → Nat) (now : MapObj) : Prop where
  same : ∃ layers object, now = { map with layers, object }
  layers : ∀ j, now.layers j = map.layers (source j)
  known : ∀ j < map.numlayers, known j → ∀ layer, map.layers j = .layer layer →
    (now.object layer).index = (place j : Int) ∧ (now.object layer).map = some map.address

theorem Shifted.congr (shifted : Shifted map known source place now) {source' place' : Nat → Nat}
    (sources : ∀ j, source' j = source j) (places : ∀ j < map.numlayers, known j → place' j = place j) :
    Shifted map known source' place' now where
  same := shifted.same
  layers j := (sources j).symm ▸ shifted.layers j
  known j inside isKnown := (places j inside isKnown).symm ▸ shifted.known j inside isKnown

theorem Shifted.move (shifted : Shifted map known source place now) {i s : Nat} (kept : source s = s)
    (filled : ∃ layer, map.layers s = .layer layer)
    (apart : ∀ j < map.numlayers, known j → map.layers j = map.layers s → j = s) :
    ∃ next, (now.setSlot i (now.layers s)).setIndex i = some next ∧
      Shifted map known (update source i s) (update place s i) next := by
  obtain ⟨layer, here⟩ := filled
  obtain ⟨⟨layers, object, rfl⟩, moved, indexes⟩ := shifted
  have slot : layers s = .layer layer := by rw [← here, ← kept, ← moved s, kept]
  refine ⟨{ map with
    layers := update layers i (.layer layer)
    object := update object layer { object layer with index := i } }, ?_, ⟨_, _, rfl⟩, fun j => ?_,
    fun j inside isKnown other there => ?_⟩
  · simp [MapObj.setIndex, MapObj.setSlot, MapObj.modifyLayer, slot]
  · dsimp only at moved ⊢
    rcases eq_or_ne j i with rfl | differs
    · rw [update_self, update_self, here]
    · rw [update_of_ne differs, update_of_ne differs, moved j]
  · obtain ⟨index, owner⟩ := indexes j inside isKnown other there
    dsimp only at index owner ⊢
    rcases eq_or_ne j s with rfl | differs
    · rw [here, LayerSlot.layer.injEq] at there
      subst there
      rw [update_self, update_self]
      exact ⟨rfl, owner⟩
    · have apart : other ≠ layer := fun same => differs (apart j inside isKnown (by rw [there, here, same]))
      rw [update_of_ne differs, update_of_ne apart]
      exact ⟨index, owner⟩

end Shifts

end MapServer
