import MapServer.Map.LayerOrder

namespace MapServer
open Lib.Loop Option Function

structure LayersConsistent (map : MapObj) : Prop where
  ranks : Ranks map.numlayers map.layerorder
  placed : ∀ i < map.numlayers, ∃ layer, map.layers i = .layer layer ∧
    (map.object layer).index = i ∧ (map.object layer).map = some map.address

structure LayersInvariant (map : MapObj) : Prop extends LayersConsistent map where
  room : map.numlayers ≤ map.maxlayers
  spare : ∀ i, map.numlayers ≤ i → i < map.maxlayers → ∀ layer, map.layers i ≠ .layer layer

structure LayersUnchanged (before after : MapObj) : Prop where
  numlayers : after.numlayers = before.numlayers
  layers : ∀ i < before.numlayers, after.layers i = before.layers i
  layerorder : ∀ i < before.numlayers, after.layerorder i = before.layerorder i
  object : after.object = before.object
  address : after.address = before.address

theorem LayersUnchanged.refl (map : MapObj) : LayersUnchanged map map :=
  ⟨rfl, fun _ _ => rfl, fun _ _ => rfl, rfl, rfl⟩

theorem LayersUnchanged.trans {first second third : MapObj} (left : LayersUnchanged first second)
    (right : LayersUnchanged second third) : LayersUnchanged first third where
  numlayers := right.numlayers.trans left.numlayers
  layers i inside := (right.layers i (by rwa [left.numlayers])).trans (left.layers i inside)
  layerorder i inside := (right.layerorder i (by rwa [left.numlayers])).trans (left.layerorder i inside)
  object := right.object.trans left.object
  address := right.address.trans left.address

theorem LayersConsistent.of_unchanged {before after : MapObj} (consistent : LayersConsistent before)
    (same : LayersUnchanged before after) : LayersConsistent after where
  ranks := by
    rw [same.numlayers]
    exact ranks_congr consistent.ranks same.layerorder
  placed i inside := by
    rw [same.numlayers] at inside
    rw [same.layers i inside, same.object, same.address]
    exact consistent.placed i inside

variable {map : MapObj}

theorem layer_distinct (consistent : LayersConsistent map) {i j p q : Nat} (left : i < map.numlayers)
    (right : j < map.numlayers) (first : map.layers i = .layer p) (second : map.layers j = .layer q) (same : p = q) :
    i = j := by
  obtain ⟨layer, at_i, index_i, -⟩ := consistent.placed i left
  obtain ⟨other, at_j, index_j, -⟩ := consistent.placed j right
  rw [first, LayerSlot.layer.injEq] at at_i
  rw [second, LayerSlot.layer.injEq] at at_j
  subst at_i at_j same
  omega

theorem LayersConsistent.unshifted (consistent : LayersConsistent map) (known : Nat → Prop) : Shifted map known id id map where
  same := ⟨_, _, rfl⟩
  layers _ := rfl
  known j inside _ layer here := by
    obtain ⟨_, there, placed⟩ := consistent.placed j inside
    cases here.symm.trans there
    exact placed

theorem LayersConsistent.move (consistent : LayersConsistent map) {known : Nat → Prop} {source place : Nat → Nat} {now : MapObj}
    (shifted : Shifted map known source place now) {s : Nat} (i : Nat) (inside : s < map.numlayers) (kept : source s = s) :
    ∃ next, (now.setSlot i (now.layers s)).setIndex i = some next ∧
      Shifted map known (update source i s) (update place s i) next := by
  obtain ⟨layer, here, -, -⟩ := consistent.placed s inside
  exact shifted.move kept ⟨layer, here⟩ fun j bound _ same =>
    layer_distinct consistent bound inside (same.trans here) here rfl

theorem shiftUp_spec (consistent : LayersConsistent map) {k : Nat} (inside : k ≤ map.numlayers) :
    ∃ now, forDown (fun i map => (map.setSlot i (map.layers (i - 1))).setIndex i) k (map.numlayers - k) map = some now ∧
      Shifted map (fun _ => True) (fun j => if k < j ∧ j ≤ map.numlayers then j - 1 else j)
        (fun j => if j < k then j else j + 1) now :=
  forDown_invariant _ k (map.numlayers - k)
    (fun i => Shifted map (fun _ => True) (fun j => if i < j ∧ j ≤ map.numlayers then j - 1 else j)
      fun j => if j < i then j else j + 1)
    ((consistent.unshifted _).congr (fun j => if_neg (by omega)) fun j bound _ => if_pos (by omega))
    fun i now low high shifted => by
      obtain ⟨next, run, moved⟩ := consistent.move shifted (i + 1) (show i < map.numlayers by omega) (if_neg (by omega))
      refine ⟨next, run, moved.congr (fun j => ?_) fun j bound _ => ?_⟩ <;> rw [update_apply] <;> grind

theorem shiftDown_spec (consistent : LayersConsistent map) {k : Nat} (inside : k < map.numlayers) :
    ∃ now, forUp (fun i map => (map.setSlot i (map.layers (i + 1))).setIndex i) k (map.numlayers - 1 - k) map = some now ∧
      Shifted map (· ≠ k) (fun j => if k ≤ j ∧ j < k + (map.numlayers - 1 - k) then j + 1 else j)
        (fun j => if k < j ∧ j ≤ k + (map.numlayers - 1 - k) then j - 1 else j) now :=
  forUp_invariant _ k (map.numlayers - 1 - k)
    (fun i => Shifted map (· ≠ k) (fun j => if k ≤ j ∧ j < i then j + 1 else j)
      fun j => if k < j ∧ j ≤ i then j - 1 else j)
    ((consistent.unshifted _).congr (fun j => if_neg (by omega)) fun j bound _ => if_neg (by omega))
    fun i now low high shifted => by
      obtain ⟨next, run, moved⟩ := consistent.move shifted i (show i + 1 < map.numlayers by omega) (if_neg (by omega))
      refine ⟨next, run, moved.congr (fun j => ?_) fun j bound _ => ?_⟩ <;> rw [update_apply] <;> grind

theorem extendLayers_spec (invariant : LayersInvariant map) :
    LayersInvariant (extendLayers map) ∧ LayersUnchanged map (extendLayers map) := by
  have same : LayersUnchanged map (extendLayers map) :=
    ⟨rfl, fun i inside => if_neg (by omega), fun i inside => if_neg (by omega), rfl, rfl⟩
  refine ⟨⟨invariant.toLayersConsistent.of_unchanged same, ?_, fun i low high layer => ?_⟩, same⟩
  · have := invariant.room
    simp only [extendLayers]
    omega
  · have bare : (extendLayers map).layers i = .null := if_pos ⟨low, high⟩
    rw [bare]
    exact LayerSlot.noConfusion

theorem setSpare_spec (invariant : LayersInvariant map) (slot : LayerSlot) (bare : ∀ layer, slot ≠ .layer layer) :
    LayersInvariant (map.setSlot map.numlayers slot) ∧ LayersUnchanged map (map.setSlot map.numlayers slot) := by
  have same : LayersUnchanged map (map.setSlot map.numlayers slot) :=
    ⟨rfl, fun i inside => update_of_ne (by omega) _ _, fun _ _ => rfl, rfl, rfl⟩
  refine ⟨⟨invariant.toLayersConsistent.of_unchanged same, invariant.room, fun i low high => ?_⟩, same⟩
  simp only [MapObj.setSlot]
  rcases eq_or_ne i map.numlayers with rfl | other
  · rw [update_self]
    exact bare
  · rw [update_of_ne other]
    exact invariant.spare i low high

theorem ensureRoom_spec (invariant : LayersInvariant map)
    (usable : map.numlayers < map.maxlayers → map.layers map.numlayers ≠ .freed) (granted : Nat) :
    LayersInvariant (ensureRoom granted map).1 ∧ LayersUnchanged map (ensureRoom granted map).1 ∧
      ((ensureRoom granted map).2 = true → map.numlayers < (ensureRoom granted map).1.maxlayers ∧
        (ensureRoom granted map).1.layers map.numlayers ≠ .freed) := by
  have room := invariant.room
  unfold ensureRoom
  split
  · rename_i full
    unfold msGrowMapLayers
    rw [if_pos full]
    split
    · exact ⟨invariant, .refl map, by simp⟩
    · obtain ⟨extended, same⟩ := extendLayers_spec invariant
      have larger : map.numlayers < (extendLayers map).maxlayers := by
        simp only [extendLayers, MS_LAYER_ALLOCSIZE]
        omega
      have bare : (extendLayers map).layers (extendLayers map).numlayers = .null :=
        if_pos ⟨Nat.le_refl _, larger⟩
      unfold allocLayer
      rw [if_pos bare]
      split
      · exact ⟨extended, same, by simp⟩
      · obtain ⟨kept, unchanged⟩ := setSpare_spec extended .fresh (by simp)
        refine ⟨kept, same.trans unchanged, fun _ => ⟨larger, ?_⟩⟩
        have fresh : ((extendLayers map).setSlot (extendLayers map).numlayers .fresh).layers map.numlayers = .fresh :=
          update_self ..
        rw [fresh]
        simp
  · exact ⟨invariant, .refl map, fun _ => ⟨by dsimp only; omega, usable (by omega)⟩⟩

theorem freeSlot_spec (invariant : LayersInvariant map) (room : map.numlayers < map.maxlayers)
    (usable : map.layers map.numlayers ≠ .freed) :
    ∃ freed, map.freeSlot map.numlayers = some freed ∧ freed.maxlayers = map.maxlayers ∧
      LayersInvariant freed ∧ LayersUnchanged map freed := by
  unfold MapObj.freeSlot
  cases slot : map.layers map.numlayers with
  | null => exact ⟨map, rfl, rfl, invariant, .refl map⟩
  | fresh => exact ⟨_, rfl, rfl, setSpare_spec invariant _ (by simp)⟩
  | freed => exact absurd slot usable
  | layer layer => exact absurd slot (invariant.spare _ (Nat.le_refl _) room layer)

theorem placeLayer_spec (invariant : LayersInvariant map) {k layer : Nat} (inside : k ≤ map.numlayers)
    (room : map.numlayers < map.maxlayers) (absent : ∀ i < map.numlayers, map.layers i ≠ .layer layer)
    {now : MapObj} {layerorder : Nat → Int}
    (shifted : Shifted map (fun _ => True) (fun j => if k < j ∧ j ≤ map.numlayers then j - 1 else j)
      (fun j => if j < k then j else j + 1) now)
    (ranks : Ranks (map.numlayers + 1) layerorder) : LayersInvariant {
      placeLayer layer k now with layerorder, numlayers := map.numlayers + 1 } := by
  obtain ⟨⟨layers, object, rfl⟩, moved, placed⟩ := shifted
  refine ⟨⟨ranks, fun i bound => ?_⟩, room, fun i low high => ?_⟩
  · simp only [placeLayer, MapObj.setSlot, MapObj.modifyLayer] at bound ⊢
    rcases eq_or_ne i k with rfl | other
    · exact ⟨layer, by simp⟩
    · have source : (if k < i ∧ i ≤ map.numlayers then i - 1 else i) < map.numlayers := by split <;> omega
      obtain ⟨old, here, -, -⟩ := invariant.placed _ source
      obtain ⟨index, owner⟩ := placed _ source trivial old here
      have apart : old ≠ layer := by
        rintro rfl
        exact absent _ source here
      refine ⟨old, ?_, ?_, ?_⟩
      · exact (update_of_ne other ..).trans ((moved i).trans here)
      · rw [update_of_ne apart, index]
        grind
      · rw [update_of_ne apart, owner]
  · simp only [placeLayer, MapObj.setSlot, MapObj.modifyLayer] at low high ⊢
    rw [update_of_ne (by omega), show layers i = map.layers i from (moved i).trans (congrArg _ (if_neg (by omega)))]
    exact invariant.spare i (by omega) high

theorem msInsertLayer_spec (invariant : LayersInvariant map) {layer : Nat} (nIndex : Int) (granted : Nat)
    (absent : ∀ i < map.numlayers, map.layers i ≠ .layer layer)
    (usable : map.numlayers < map.maxlayers → map.layers map.numlayers ≠ .freed) :
    ∃ after index, msInsertLayer (some layer) nIndex granted map = some (after, index) ∧ LayersInvariant after ∧
      (index = -1 → LayersUnchanged map after) := by
  obtain ⟨grown, same, fits⟩ := ensureRoom_spec invariant usable granted
  unfold msInsertLayer
  generalize ensureRoom granted map = result at grown same fits ⊢
  obtain ⟨map', room⟩ := result
  cases room with
  | false => exact ⟨map', -1, rfl, grown, fun _ => same⟩
  | true =>
    obtain ⟨larger, unfreed⟩ := fits rfl
    rw [← same.numlayers] at larger unfreed
    obtain ⟨freed, free, maxlayers, invariant', same'⟩ := freeSlot_spec grown larger unfreed
    have kept := same.trans same'
    have room : freed.numlayers < freed.maxlayers := by rwa [maxlayers, same'.numlayers]
    have absent' : ∀ i < freed.numlayers, freed.layers i ≠ .layer layer := by
      intro i inside
      rw [kept.numlayers] at inside
      rw [kept.layers i inside]
      exact absent i inside
    dsimp only
    rw [if_neg (by simp)]
    simp only [free, bind_eq_bind, bind_some]
    split
    · exact ⟨freed, -1, rfl, invariant', fun _ => kept⟩
    · rename_i below
      split
      · refine ⟨_, _, rfl, ?_, fun failed => by omega⟩
        have placed := placeLayer_spec invariant' (Nat.le_refl _) room absent' ((invariant'.unshifted _).congr
          (fun j => if_neg (by omega)) fun j bound _ => if_pos bound) (ranks_append invariant'.ranks)
        exact placed
      · have inside : nIndex.toNat ≤ freed.numlayers := by omega
        obtain ⟨now, shift, shifted⟩ := shiftUp_spec invariant'.toLayersConsistent inside
        obtain ⟨layerorder, ordered, ranks⟩ := ranks_insertOrder invariant'.ranks inside
        have placed := placeLayer_spec invariant' inside room absent' shifted ranks
        obtain ⟨layers, object, rfl⟩ := shifted.same
        rw [shift]
        simp only [bind_some, placeLayer, MapObj.setSlot, MapObj.modifyLayer, ordered]
        exact ⟨_, _, rfl, placed, fun failed => by omega⟩

theorem msRemoveLayer_spec (invariant : LayersInvariant map) (nIndex : Int) :
    ∃ after removed, msRemoveLayer nIndex map = some (after, removed) ∧ LayersInvariant after ∧
      (removed = none → LayersUnchanged map after) := by
  unfold msRemoveLayer
  split
  · exact ⟨map, none, rfl, invariant, fun _ => .refl map⟩
  · have inside : nIndex.toNat < map.numlayers := by omega
    have same : nIndex = (nIndex.toNat : Int) := by omega
    generalize nIndex.toNat = k at inside same
    subst same
    obtain ⟨layer, here, -, -⟩ := invariant.placed k inside
    obtain ⟨_, shift, ⟨layers, object, rfl⟩, moved, placed⟩ := shiftDown_spec invariant.toLayersConsistent inside
    obtain ⟨layerorder, ordered, ranks⟩ := ranks_removeOrder invariant.ranks inside
    rw [here]
    simp only [bind_eq_bind]
    rw [shift]
    simp only [bind_some, MapObj.setSlot, ordered]
    refine ⟨_, _, rfl, ⟨⟨ranks, fun i bound => ?_⟩, ?_, fun i low high other => ?_⟩, by simp⟩
    · simp only [MapObj.modifyLayer] at bound ⊢
      have source : (if k ≤ i ∧ i < k + (map.numlayers - 1 - k) then i + 1 else i) < map.numlayers := by split <;> omega
      have distinct : (if k ≤ i ∧ i < k + (map.numlayers - 1 - k) then i + 1 else i) ≠ k := by split <;> omega
      obtain ⟨old, there, -, -⟩ := invariant.placed _ source
      obtain ⟨index, owner⟩ := placed _ source distinct old there
      have apart : old ≠ layer := fun equal =>
        distinct (layer_distinct invariant.toLayersConsistent source inside there here equal)
      refine ⟨old, ?_, ?_, ?_⟩
      · exact (update_of_ne (by omega) ..).trans ((moved i).trans there)
      · rw [update_of_ne apart, index]
        grind
      · rw [update_of_ne apart, owner]
    · have := invariant.room
      simp only [MapObj.modifyLayer]
      omega
    · simp only [MapObj.modifyLayer] at low high ⊢
      rcases eq_or_ne i (map.numlayers - 1) with rfl | differs
      · rw [update_self]
        exact LayerSlot.noConfusion
      · rw [update_of_ne differs, show layers i = map.layers i from (moved i).trans (congrArg _ (if_neg (by omega)))]
        exact invariant.spare i (by omega) high other

theorem LayersInvariant.reorder (invariant : LayersInvariant map) {layerorder : Nat → Int}
    (ranks : Ranks map.numlayers layerorder) : LayersInvariant { map with layerorder } :=
  ⟨⟨ranks, invariant.placed⟩, invariant.room, invariant.spare⟩

theorem LayersInvariant.swap (invariant : LayersInvariant map) {nLayerIndex : Int} {rank other : Nat}
    (found : findRank nLayerIndex map = some rank) (bound : other < map.numlayers) :
    LayersInvariant (map.swapRanks rank other nLayerIndex) := by
  obtain ⟨inside, rfl⟩ := findRank_some found
  exact invariant.reorder (ranks_swapRanks invariant.ranks inside bound)

theorem msMoveLayerUp_spec (invariant : LayersInvariant map) (nLayerIndex : Int) :
    LayersInvariant (msMoveLayerUp nLayerIndex map).1 ∧
      ((msMoveLayerUp nLayerIndex map).2 = false → LayersUnchanged map (msMoveLayerUp nLayerIndex map).1) := by
  unfold msMoveLayerUp
  split
  · exact ⟨invariant, fun _ => .refl map⟩
  · rename_i rank found
    have inside := (findRank_some found).1
    split
    · exact ⟨invariant, fun _ => .refl map⟩
    · exact ⟨invariant.swap found (by omega), fun failed => by simp at failed⟩

theorem msMoveLayerDown_spec (invariant : LayersInvariant map) (nLayerIndex : Int) :
    LayersInvariant (msMoveLayerDown nLayerIndex map).1 ∧
      ((msMoveLayerDown nLayerIndex map).2 = false → LayersUnchanged map (msMoveLayerDown nLayerIndex map).1) := by
  unfold msMoveLayerDown
  split
  · exact ⟨invariant, fun _ => .refl map⟩
  · rename_i rank found
    have inside := (findRank_some found).1
    split
    · exact ⟨invariant, fun _ => .refl map⟩
    · exact ⟨invariant.swap found (by omega), fun failed => by simp at failed⟩

theorem msSetLayersdrawingOrder_spec (invariant : LayersInvariant map) (panIndexes : Option (Nat → Int)) :
    LayersInvariant (msSetLayersdrawingOrder panIndexes map).1 ∧
      ((msSetLayersdrawingOrder panIndexes map).2 = false →
        LayersUnchanged map (msSetLayersdrawingOrder panIndexes map).1) := by
  unfold msSetLayersdrawingOrder
  split
  · exact ⟨invariant, fun _ => .refl map⟩
  · split
    · rename_i covered
      refine ⟨invariant.reorder ?_, fun failed => by simp at failed⟩
      exact ranks_congr (ranks_of_covered covered) fun i inside => if_pos inside
    · exact ⟨invariant, fun _ => .refl map⟩

def EditAllowed (map : MapObj) : LayerEdit → Prop
  | .insert (some layer) _ _ => (∀ i < map.numlayers, map.layers i ≠ .layer layer) ∧
      (map.numlayers < map.maxlayers → map.layers map.numlayers ≠ .freed)
  | _ => True

theorem edit_spec (invariant : LayersInvariant map) (change : LayerEdit) (allowed : EditAllowed map change) :
    ∃ after success, edit map change = some (after, success) ∧ LayersInvariant after ∧
      (success = false → LayersUnchanged map after) := by
  cases change with
  | insert layer nIndex granted =>
    cases layer with
    | none => exact ⟨map, false, rfl, invariant, fun _ => .refl map⟩
    | some layer =>
      obtain ⟨after, index, run, kept, failed⟩ := msInsertLayer_spec invariant nIndex granted allowed.1 allowed.2
      refine ⟨after, index != -1, ?_, kept, fun refused => failed (by simpa using refused)⟩
      rw [edit, run]
      rfl
  | remove nIndex =>
    obtain ⟨after, removed, run, kept, failed⟩ := msRemoveLayer_spec invariant nIndex
    refine ⟨after, removed.isSome, ?_, kept, fun refused => failed (by simpa using refused)⟩
    rw [edit, run]
    rfl
  | moveUp nLayerIndex =>
    obtain ⟨kept, failed⟩ := msMoveLayerUp_spec invariant nLayerIndex
    exact ⟨_, _, rfl, kept, failed⟩
  | moveDown nLayerIndex =>
    obtain ⟨kept, failed⟩ := msMoveLayerDown_spec invariant nLayerIndex
    exact ⟨_, _, rfl, kept, failed⟩
  | setOrder panIndexes =>
    obtain ⟨kept, failed⟩ := msSetLayersdrawingOrder_spec invariant panIndexes
    exact ⟨_, _, rfl, kept, failed⟩

def RunAllowed (map : MapObj) : List LayerEdit → Prop
  | [] => True
  | first :: rest => EditAllowed map first ∧ ∀ after success, edit map first = some (after, success) →
      RunAllowed after rest

theorem runEdits_invariant (invariant : LayersInvariant map) (edits : List LayerEdit) (allowed : RunAllowed map edits) :
    ∃ after, runEdits map edits = some after ∧ LayersInvariant after := by
  induction edits generalizing map with
  | nil => exact ⟨map, rfl, invariant⟩
  | cons first rest ih =>
    obtain ⟨next, success, run, kept, -⟩ := edit_spec invariant first allowed.1
    obtain ⟨after, later, final⟩ := ih kept (allowed.2 next success run)
    refine ⟨after, ?_, final⟩
    rw [runEdits, run]
    exact later

theorem empty_invariant (address : Nat) (object : Nat → LayerObj) : LayersInvariant (.empty address object) where
  ranks := .refl _
  placed i inside := absurd inside (Nat.not_lt_zero i)
  room := Nat.le_refl 0
  spare i _ high := absurd high (Nat.not_lt_zero i)

/-- After any allowed edits of an empty map its layers are consistent, and one more that reports
failure leaves them as they are. -/
theorem runEdits_consistent (address : Nat) (object : Nat → LayerObj) (edits : List LayerEdit)
    (allowed : RunAllowed (.empty address object) edits) :
    ∃ map, runEdits (.empty address object) edits = some map ∧ LayersConsistent map ∧
      ∀ change, EditAllowed map change → ∃ after success, edit map change = some (after, success) ∧
        (success = false → LayersUnchanged map after) := by
  obtain ⟨map, run, invariant⟩ := runEdits_invariant (empty_invariant address object) edits allowed
  refine ⟨map, run, invariant.toLayersConsistent, fun change fine => ?_⟩
  obtain ⟨after, success, step, -, failed⟩ := edit_spec invariant change fine
  exact ⟨after, success, step, failed⟩

def looseLayer : LayerObj := ⟨0, none, 0, none, none⟩

theorem runEdits_consistent_twoLayers :
    ∃ map, runEdits (.empty 1 fun _ => looseLayer) [.insert (some 10) (-1) 3, .insert (some 11) 0 3] = some map ∧
      LayersConsistent map := by
  obtain ⟨map, run, consistent, -⟩ := runEdits_consistent 1 (fun _ => looseLayer)
    [.insert (some 10) (-1) 3, .insert (some 11) 0 3] (by
      refine ⟨by simp [EditAllowed, MapObj.empty], fun after success step => ⟨?_, fun _ _ _ => trivial⟩⟩
      obtain ⟨rfl, rfl⟩ : _ = after ∧ _ = success := by
        simpa [edit, msInsertLayer, ensureRoom, msGrowMapLayers, allocLayer, extendLayers, MapObj.empty,
          MapObj.freeSlot, MapObj.setSlot, MS_LAYER_ALLOCSIZE] using step
      simp [EditAllowed, placeLayer, MapObj.setSlot, MapObj.modifyLayer])
  exact ⟨map, run, consistent⟩

theorem runEdits_not_consistent :
    ¬ ∀ (edits : List LayerEdit) (map : MapObj),
      runEdits (.empty 1 fun _ => looseLayer) edits = some map → LayersConsistent map := by
  intro always
  obtain ⟨map, run, first, index⟩ : ∃ map,
      runEdits (.empty 1 fun _ => looseLayer) [.insert (some 10) (-1) 3, .insert (some 10) (-1) 3] = some map ∧
      (map.layers 0 = .layer 10 ∧ 0 < map.numlayers) ∧ (map.object 10).index = 1 := by
    refine ⟨_, rfl, ⟨?_, ?_⟩, ?_⟩ <;> decide
  obtain ⟨layer, here, place, -⟩ := (always _ map run).placed 0 first.2
  rw [first.1, LayerSlot.layer.injEq] at here
  subst here
  rw [index] at place
  contradiction

end MapServer
