import MapServer.Map.LayerOrder

namespace MapServer
open Lib.Loop List Option Function

def drawingOrder (map : MapObj) : List LayerSlot := (List.range map.numlayers).map fun i => map.layers (map.layerorder i).toNat

/-- The ranks are a permutation of the layers, and each entry holds a layer object of its own. -/
structure LayersValid (map : MapObj) : Prop where
  ranks : Ranks map.numlayers map.layerorder
  filled : ∀ i < map.numlayers, ∃ layer, map.layers i = .layer layer
  distinct : ∀ i < map.numlayers, ∀ j < map.numlayers, map.layers i = map.layers j → i = j

/-- Layer `n + 1` is drawn before layer `n`, with another layer between them. -/
def NextDrawnApart (map : MapObj) (n : Nat) : Prop :=
  ∃ i j, i + 1 < j ∧ j < map.numlayers ∧ map.layerorder i = n + 1 ∧ map.layerorder j = n

theorem shiftLayers_eq {map : MapObj} (valid : LayersValid map) {k : Nat} (inside : k < map.numlayers) :
    ∃ layers object, forUp (fun i map => (map.setSlot i (map.layers (i + 1))).setIndex i) k
        (map.numlayers - 1 - k) map = some { map with layers, object } ∧
      ∀ j, j + 1 < map.numlayers → layers j = map.layers (if j < k then j else j + 1) := by
  obtain ⟨_, run, _, ⟨layers, object, rfl⟩, moved, -⟩ := forUp_invariant
    (fun i map => (map.setSlot i (map.layers (i + 1))).setIndex i) k (map.numlayers - 1 - k)
    (fun i now => ∃ place, Shifted map (fun _ => False) (fun j => if k ≤ j ∧ j < i then j + 1 else j) place now)
    (s := map) ⟨id, ⟨_, _, rfl⟩, fun j => by rw [if_neg (by omega)], fun _ _ => False.elim⟩
    fun i now low high holds => by
      obtain ⟨_, shifted⟩ := holds
      obtain ⟨next, run, moved⟩ := shifted.move (i := i) (if_neg (by omega)) (valid.filled (i + 1) (by omega))
        fun _ _ => False.elim
      refine ⟨next, run, _, moved.congr (fun j => ?_) fun _ _ _ => rfl⟩
      rw [update_apply]
      grind
  refine ⟨layers, object, run, fun j bound => (moved j).trans (congrArg _ ?_)⟩
  grind

/-- The drawing order after a removal: the entry of rank `m` is gone, and the old rank of the removed layer stands for the layer
behind it. -/
theorem msRemoveLayer_drawing {map : MapObj} (valid : LayersValid map) {n : Nat} (inside : n < map.numlayers) :
    ∃ after removed m, msRemoveLayer n map = some (after, removed) ∧ m < map.numlayers ∧
      (map.layerorder m = n ∨ map.layerorder m = n + 1) ∧
      (∀ i < m, map.layerorder i ≠ n ∧ map.layerorder i ≠ n + 1) ∧
      drawingOrder after = (List.range (map.numlayers - 1)).map fun i =>
        map.layers (if map.layerorder (if i < m then i else i + 1) = n then n + 1
          else (map.layerorder (if i < m then i else i + 1)).toNat) := by
  obtain ⟨layer, here⟩ := valid.filled n inside
  obtain ⟨layers, object, shift, moved⟩ := shiftLayers_eq valid inside
  obtain ⟨layerorder, m, ordered, bound, removed, first, value⟩ :=
    removeOrder_eq map.layerorder (ranks_surjective valid.ranks inside)
  unfold msRemoveLayer
  rw [if_neg (by omega), Int.toNat_natCast, here]
  simp only [bind_eq_bind]
  rw [shift]
  simp only [bind_some, MapObj.setSlot, ordered]
  refine ⟨_, _, m, rfl, bound, removed, first, ?_⟩
  apply map_congr_left
  intro i member
  have last : i + 1 < map.numlayers := by
    have below := mem_range.mp member
    simp only [MapObj.modifyLayer] at below
    omega
  have source : (if i < m then i else i + 1) < map.numlayers := by split <;> omega
  have other : (if i < m then i else i + 1) ≠ m := by split <;> omega
  have range := ranks_range valid.ranks source
  have rank : map.layerorder (if i < m then i else i + 1) ≠ map.layerorder m := fun same =>
    other (ranks_injective valid.ranks source bound same)
  have limit := ranks_range valid.ranks bound
  simp only [MapObj.modifyLayer, value i last]
  generalize map.layerorder (if i < m then i else i + 1) = v at range rank ⊢
  have drop : (dropRank n v).toNat + 1 < map.numlayers := by
    unfold dropRank
    split <;> omega
  rw [update_of_ne (by omega), moved _ drop]
  congr 1
  unfold dropRank
  split <;> split <;> split <;> omega

theorem drawingOrder_erase {map : MapObj} (valid : LayersValid map) {n p : Nat} (inside : p < map.numlayers)
    (rank : map.layerorder p = n) : (drawingOrder map).erase (map.layers n) = (drawingOrder map).eraseIdx p := by
  have nodup : (drawingOrder map).Nodup := by
    apply nodup_range.map_on
    intro i left j right same
    have range_i := ranks_range valid.ranks (mem_range.mp left)
    have range_j := ranks_range valid.ranks (mem_range.mp right)
    have ranks := valid.distinct _ (by omega) _ (by omega) same
    exact ranks_injective valid.ranks (mem_range.mp left) (mem_range.mp right) (by omega)
  have place : p < (drawingOrder map).length := by simpa [drawingOrder] using inside
  have entry : (drawingOrder map)[p] = map.layers n := by simp [drawingOrder, rank]
  rw [← entry]
  exact nodup.erase_getElem p place

/-- A removal keeps the order of the other layers exactly when the next layer is not drawn apart from the removed one. -/
theorem msRemoveLayer_keepsDrawing_iff {map : MapObj} (valid : LayersValid map) {n : Nat} (inside : n < map.numlayers) :
    (∃ after removed, msRemoveLayer n map = some (after, removed) ∧
      drawingOrder after = (drawingOrder map).erase (map.layers n)) ↔ ¬ NextDrawnApart map n := by
  obtain ⟨after, removed, m, run, bound, found, first, drawn⟩ := msRemoveLayer_drawing valid inside
  obtain ⟨p, place, rank⟩ := ranks_surjective valid.ranks inside
  have earlier : m ≤ p := by
    by_contra later
    exact (first p (by omega)).1 rank
  have whole : (∃ after removed, msRemoveLayer n map = some (after, removed) ∧
      drawingOrder after = (drawingOrder map).erase (map.layers n)) ↔ drawingOrder after = (drawingOrder map).erase (map.layers n) := by
    simp [run]
  rw [whole, drawingOrder_erase valid place rank, drawn]
  constructor
  · rintro same ⟨i, j, apart, below, next, last⟩
    have isPlace : j = p := ranks_injective valid.ranks below place (last.trans rank.symm)
    subst isPlace
    have isFound : m = i := by
      rcases Nat.lt_trichotomy m i with less | equal | more
      · rcases found with here | here
        · have := ranks_injective valid.ranks bound below (here.trans last.symm)
          omega
        · have := ranks_injective valid.ranks bound (by omega) (here.trans next.symm)
          omega
      · exact equal
      · exact absurd next (first i more).2
    -- The layer after the gap is the first one of those that were drawn between the two.
    have entry := congrArg (fun list => list[m]?) same
    have gap : m < map.numlayers - 1 := by omega
    have source := ranks_range valid.ranks (show m + 1 < map.numlayers by omega)
    simp only [getElem?_map, getElem?_range gap, map_some, lt_irrefl, if_false, drawingOrder,
      getElem?_eraseIdx, show m < j by omega, if_true, getElem?_range bound] at entry
    have other : map.layerorder (m + 1) ≠ n := fun same =>
      absurd (ranks_injective valid.ranks (by omega) place (same.trans rank.symm)) (by omega)
    rw [if_neg other, Option.some.injEq] at entry
    have distinct := valid.distinct _ (by omega) _ (by have := ranks_range valid.ranks bound; omega) entry
    have again := ranks_injective valid.ranks (show m + 1 < map.numlayers by omega) bound (by omega)
    omega
  · intro together
    apply ext_getElem
    · rw [length_eraseIdx_of_lt (by simpa [drawingOrder] using place)]
      simp [drawingOrder]
    · intro i left right
      have low : i < map.numlayers - 1 := by simpa using left
      simp only [drawingOrder, getElem_map, getElem_range, getElem_eraseIdx]
      by_cases removedFirst : m = p
      · subst removedFirst
        have other : map.layerorder (if i < m then i else i + 1) ≠ n := by
          intro same
          have := ranks_injective valid.ranks (by split <;> omega) place (same.trans rank.symm)
          split at this <;> omega
        rw [if_neg other]
        split <;> rfl
      · have next : map.layerorder m = n + 1 := by
          rcases found with here | here
          · exact absurd (ranks_injective valid.ranks bound place (here.trans rank.symm)) removedFirst
          · exact here
        have behind : p = m + 1 := by
          by_contra apart
          exact together ⟨m, p, by omega, place, next, rank⟩
        subst behind
        rcases Nat.lt_trichotomy i m with less | equal | more
        · have other : map.layerorder i ≠ n := (first i less).1
          simp [less, other, show i < m + 1 by omega]
        · subst equal
          simp [rank, next]
        · have other : map.layerorder (i + 1) ≠ n := by
            intro same
            have := ranks_injective valid.ranks (by omega) place (same.trans rank.symm)
            omega
          simp [show ¬ i < m by omega, show ¬ i < m + 1 by omega, other]

def threeLayers (first second third : Int) : MapObj where
  address := 0
  numlayers := 3
  maxlayers := 64
  layers := fun i => if i < 3 then .layer i else .null
  layerorder := fun i => if i = 0 then first else if i = 1 then second else third
  object := fun i => ⟨i, some 0, 1, none, none⟩

theorem threeLayers_valid {first second third : Int} (ranks : Ranks 3 (threeLayers first second third).layerorder) :
    LayersValid (threeLayers first second third) where
  ranks := ranks
  filled i inside := ⟨i, if_pos inside⟩
  distinct i left j right same := by
    have slot_i : (threeLayers first second third).layers i = .layer i := if_pos left
    have slot_j : (threeLayers first second third).layers j = .layer j := if_pos right
    rw [slot_i, slot_j] at same
    exact LayerSlot.layer.inj same

theorem msRemoveLayer_keepsDrawing_iff_neighbours :
    (∃ after removed, msRemoveLayer (0 : Nat) (threeLayers 1 0 2) = some (after, removed) ∧
      drawingOrder after = (drawingOrder (threeLayers 1 0 2)).erase ((threeLayers 1 0 2).layers 0)) ↔
        ¬ NextDrawnApart (threeLayers 1 0 2) 0 :=
  msRemoveLayer_keepsDrawing_iff (threeLayers_valid (by unfold Ranks; decide)) (by decide)

theorem msRemoveLayer_swapsDrawing :
    LayersValid (threeLayers 1 2 0) ∧
      ¬ ∃ after removed, msRemoveLayer (0 : Nat) (threeLayers 1 2 0) = some (after, removed) ∧
        drawingOrder after = (drawingOrder (threeLayers 1 2 0)).erase ((threeLayers 1 2 0).layers 0) := by
  refine ⟨threeLayers_valid (by unfold Ranks; decide), ?_⟩
  rintro ⟨after, removed, run, same⟩
  have drawn : ((msRemoveLayer (0 : Nat) (threeLayers 1 2 0)).map fun result => drawingOrder result.1) =
      some [.layer 2, .layer 1] := by decide
  rw [run, map_some, same] at drawn
  exact absurd drawn (by decide)

end MapServer
