import MapServer.Graph.Dijkstra
import MapServer.Lib.BinaryHeap

namespace MapServer
open Lib Lib.BinaryHeap Option Function

variable {n count i j : Nat} {heap after : MinHeapObj}

def MinHeapObj.key (heap : MinHeapObj) (i : Nat) : WithTop ℚ := (heap.nodes.get i).dist

/-- `pos` tells where each node is, as far as the first `count` slots go. -/
structure Indexed (n count : Nat) (heap : MinHeapObj) : Prop where
  posSize : heap.pos.size = n
  nodesSize : heap.nodes.size = n
  room : count ≤ n
  idx : ∀ i < count, (heap.nodes.get i).idx < n
  placed : ∀ i < count, heap.pos.get (heap.nodes.get i).idx = i
  found : ∀ v < n, heap.pos.get v < count → (heap.nodes.get (heap.pos.get v)).idx = v

/-- The first `count` slots hold the same nodes. -/
structure Rearranged (n count : Nat) (before after : MinHeapObj) : Prop where
  size : after.size = before.size
  members : ∀ v < n, after.pos.get v < count ↔ before.pos.get v < count
  gone : ∀ v < n, count ≤ before.pos.get v → after.pos.get v = before.pos.get v
  nodes : ∀ v < n, before.pos.get v < count → after.nodes.get (after.pos.get v) = before.nodes.get (before.pos.get v)

theorem Rearranged.refl (n count : Nat) (heap : MinHeapObj) : Rearranged n count heap heap :=
  ⟨rfl, fun _ _ => .rfl, fun _ _ _ => rfl, fun _ _ _ => rfl⟩

theorem Rearranged.trans {middle : MinHeapObj} (first : Rearranged n count heap middle) (second : Rearranged n count middle after) :
    Rearranged n count heap after where
  size := second.size.trans first.size
  members v inside := (second.members v inside).trans (first.members v inside)
  gone v inside out := by
    rw [second.gone v inside, first.gone v inside out]
    rwa [first.gone v inside out]
  nodes v inside here := by
    rw [second.nodes v inside ((first.members v inside).mpr here), first.nodes v inside here]

theorem Indexed.slot_lt (indexed : Indexed n count heap) (inside : i < count) : i < n := inside.trans_le indexed.room

theorem Indexed.idx_inj (indexed : Indexed n count heap) (first : i < count) (second : j < count)
    (same : (heap.nodes.get i).idx = (heap.nodes.get j).idx) : i = j := by
  rw [← indexed.placed i first, ← indexed.placed j second, same]

theorem swap_lt (first : i < count) (second : j < count) {k : Nat} (inside : k < count) : Equiv.swap i j k < count := by
  rw [Equiv.swap_apply_def]
  split_ifs <;> assumption

theorem Indexed.pos_swapped (indexed : Indexed n count heap) (first : i < count) (second : j < count) {v : Nat} (bound : v < n) :
    update (update heap.pos.get (heap.nodes.get i).idx j) (heap.nodes.get j).idx i v =
      if heap.pos.get v < count then Equiv.swap i j (heap.pos.get v) else heap.pos.get v := by
  have placedI := indexed.placed i first
  have placedJ := indexed.placed j second
  by_cases isJ : v = (heap.nodes.get j).idx
  · rw [isJ, update_self, placedJ, if_pos second, Equiv.swap_apply_right]
  · rw [update_of_ne isJ]
    by_cases isI : v = (heap.nodes.get i).idx
    · rw [isI, update_self, placedI, if_pos first, Equiv.swap_apply_left]
    · rw [update_of_ne isI]
      split
      · rename_i inside
        have found := indexed.found v bound inside
        refine (Equiv.swap_apply_of_ne_of_ne ?_ ?_).symm
        · rintro same
          exact isI (same ▸ found.symm)
        · rintro same
          exact isJ (same ▸ found.symm)
      · rfl

theorem swapNodes_spec (indexed : Indexed n count heap) (first : i < count) (second : j < count) :
    ∃ after, swapNodes heap i j = some after ∧ Indexed n count after ∧ Rearranged n count heap after ∧
      after.key = heap.key ∘ Equiv.swap i j := by
  have insideI : i < heap.nodes.size := indexed.nodesSize ▸ indexed.slot_lt first
  have insideJ : j < heap.nodes.size := indexed.nodesSize ▸ indexed.slot_lt second
  have idxI : (heap.nodes.get i).idx < heap.pos.size := indexed.posSize ▸ indexed.idx i first
  have idxJ : (heap.nodes.get j).idx < heap.pos.size := indexed.posSize ▸ indexed.idx j second
  have nodes : update (update heap.nodes.get i (heap.nodes.get j)) j (heap.nodes.get i) =
      heap.nodes.get ∘ Equiv.swap i j := by
    rw [Equiv.swap_comm, Equiv.comp_swap_eq_update]
  have pos := fun v bound => indexed.pos_swapped first second (v := v) bound
  have run : swapNodes heap i j = some { heap with
      pos := { heap.pos with
        get := update (update heap.pos.get (heap.nodes.get i).idx j) (heap.nodes.get j).idx i }
      nodes := { heap.nodes with get := heap.nodes.get ∘ Equiv.swap i j } } := by
    unfold swapNodes
    rw [Slots.load_eq insideI, Slots.load_eq insideJ]
    simp only [bind_eq_bind, bind_some]
    rw [Slots.store_eq idxI, bind_some, Slots.store_eq (by exact idxJ), bind_some, Slots.store_eq insideI,
      bind_some, Slots.store_eq (by exact insideJ), bind_some]
    rw [nodes]
  generalize update (update heap.pos.get (heap.nodes.get i).idx j) (heap.nodes.get j).idx i = moved at pos run
  have swapped (v : Nat) (bound : v < n) (here : heap.pos.get v < count) : moved v = Equiv.swap i j (heap.pos.get v) := by
    rw [pos v bound, if_pos here]
  have members (v : Nat) (bound : v < n) : moved v < count ↔ heap.pos.get v < count := by
    rw [pos v bound]
    split
    · rename_i here
      exact iff_of_true (swap_lt first second here) here
    · rfl
  refine ⟨_, run, ⟨indexed.posSize, indexed.nodesSize, indexed.room, ?_, ?_, ?_⟩, ⟨rfl, members, ?_, ?_⟩, rfl⟩
  · intro k inside
    exact indexed.idx _ (swap_lt first second inside)
  · intro k inside
    have here := swap_lt first second inside
    have placed := indexed.placed _ here
    dsimp only [comp_apply]
    rw [swapped _ (indexed.idx _ here) (placed.trans_lt here), placed, Equiv.swap_apply_self]
  · intro v bound inside
    have here := (members v bound).mp inside
    dsimp only [comp_apply]
    rw [swapped v bound here, Equiv.swap_apply_self]
    exact indexed.found v bound here
  · intro v bound out
    dsimp only
    rw [pos v bound, if_neg (not_lt.mpr out)]
  · intro v bound here
    dsimp only [comp_apply]
    rw [swapped v bound here, Equiv.swap_apply_self]

theorem travelUp_spec {turns : Nat} (indexed : Indexed n count heap) (inside : i < count) (enough : i < turns) :
    ∃ after, travelUp turns heap i = some after ∧ Indexed n count after ∧ Rearranged n count heap after ∧
      (OrderedUpTo count heap.key i → Ordered count after.key) := by
  induction turns generalizing heap i with
  | zero => omega
  | succ turns ih =>
    rw [travelUp]
    by_cases root : i = 0
    · rw [if_pos root]
      exact ⟨heap, rfl, indexed, .refl .., fun up => up.stop (.inl root)⟩
    · have later := Nat.pos_of_ne_zero root
      have above := parent_lt later
      have insideI : i < heap.nodes.size := indexed.nodesSize ▸ indexed.slot_lt inside
      have isParent : (i - 1) / 2 = parent i := rfl
      rw [if_neg root, isParent, Slots.load_eq insideI, Slots.load_eq (above.trans insideI)]
      simp only [bind_eq_bind, bind_some]
      by_cases less : (heap.nodes.get i).dist < (heap.nodes.get (parent i)).dist
      · obtain ⟨swapped, swaps, indexedS, rearranged, keys⟩ := swapNodes_spec indexed inside (above.trans inside)
        obtain ⟨after, run, indexedA, again, ordered⟩ := ih indexedS (above.trans inside) (by omega)
        refine ⟨after, ?_, indexedA, rearranged.trans again, fun up => ordered ?_⟩
        · rw [if_pos less, swaps, bind_some, run]
        · rw [keys]
          exact up.swap later inside less
      · rw [if_neg less]
        exact ⟨heap, rfl, indexed, .refl .., fun up => up.stop (.inr (not_lt.mp less))⟩

theorem smaller_eq {child smallest : Nat} (inside : child < heap.size → child < heap.nodes.size ∧ smallest < heap.nodes.size) :
    smaller heap child smallest = some (leastOf heap.size heap.key child smallest) := by
  unfold smaller leastOf
  by_cases here : child < heap.size
  · obtain ⟨one, two⟩ := inside here
    rw [if_pos here, Slots.load_eq one, Slots.load_eq two]
    simp only [bind_eq_bind, bind_some, here, true_and]
    rfl
  · rw [if_neg here, if_neg (by simp [here])]

theorem minHeapify_spec (calls idx : Nat) (indexed : Indexed n heap.size heap) (inside : heap.size = 0 ∨ idx < heap.size)
    (enough : heap.size - idx < calls) :
    ∃ after, minHeapify calls heap idx = some after ∧ Indexed n heap.size after ∧ Rearranged n heap.size heap after ∧
      (OrderedDownFrom heap.size heap.key idx → Ordered heap.size after.key) := by
  induction calls generalizing heap idx with
  | zero => omega
  | succ calls ih =>
    have room {k : Nat} (here : k < heap.size) : k < heap.nodes.size := indexed.nodesSize ▸ indexed.slot_lt here
    obtain ⟨isLeast, least⟩ := leastOf_children heap.size heap.key idx rfl
    have firstInside (some_ : 2 * idx + 2 < heap.size) : leastOf heap.size heap.key (2 * idx + 1) idx < heap.nodes.size := by
      unfold leastOf
      split <;> exact room (by omega)
    rw [minHeapify]
    simp only [bind_eq_bind]
    rw [smaller_eq fun here => ⟨room here, room (by omega)⟩, bind_some,
      smaller_eq fun here => ⟨room here, firstInside here⟩, bind_some]
    generalize leastOf heap.size heap.key (2 * idx + 2) (leastOf heap.size heap.key (2 * idx + 1) idx) = smallest at *
    by_cases same : smallest = idx
    · rw [if_neg (not_not.mpr same)]
      exact ⟨heap, rfl, indexed, .refl .., fun down => down.stop (same ▸ least)⟩
    · obtain ⟨later, smallestInside, isChild, less⟩ := isLeast.resolve_left same
      have below := isChild ▸ parent_lt later
      obtain ⟨swapped, swaps, indexedS, rearranged, keys⟩ := swapNodes_spec indexed smallestInside (below.trans smallestInside)
      rw [if_pos same, swaps, bind_some]
      have size := rearranged.size
      rw [← size] at indexedS
      obtain ⟨after, run, indexedA, again, ordered⟩ := ih smallest indexedS (by omega) (by omega)
      rw [size] at indexedA again ordered
      refine ⟨after, run, indexedA, rearranged.trans again, fun down => ordered ?_⟩
      rw [keys]
      exact down.swap later smallestInside isChild less least

def MinHeapObj.keyOf (heap : MinHeapObj) (v : Nat) : WithTop ℚ := heap.key (heap.pos.get v)

theorem Rearranged.keyOf (rearranged : Rearranged n count heap after) {v : Nat} (bound : v < n) (here : heap.pos.get v < count) :
    after.keyOf v = heap.keyOf v := congrArg MinHeapNodeObj.dist (rearranged.nodes v bound here)

/-- The store of a key into the node in slot `i`. -/
def MinHeapObj.setKey (heap : MinHeapObj) (i : Nat) (key : WithTop ℚ) : MinHeapObj :=
  { heap with nodes := { heap.nodes with get := Function.update heap.nodes.get i { heap.nodes.get i with dist := key } } }

theorem nodes_setKey (heap : MinHeapObj) (i : Nat) (key : WithTop ℚ) :
    (heap.setKey i key).nodes.get = update heap.nodes.get i { heap.nodes.get i with dist := key } := rfl

theorem idx_setKey (heap : MinHeapObj) (i : Nat) (key : WithTop ℚ) (k : Nat) :
    ((heap.setKey i key).nodes.get k).idx = (heap.nodes.get k).idx := by
  rw [nodes_setKey]
  by_cases same : k = i
  · rw [same, update_self]
  · rw [update_of_ne same]

theorem key_setKey (heap : MinHeapObj) (i : Nat) (key : WithTop ℚ) : (heap.setKey i key).key = update heap.key i key := by
  funext k
  rw [MinHeapObj.key, nodes_setKey]
  by_cases same : k = i
  · rw [same, update_self, update_self]
  · rw [update_of_ne same, update_of_ne same]
    rfl

theorem Indexed.setKey (indexed : Indexed n count heap) (i : Nat) (key : WithTop ℚ) : Indexed n count (heap.setKey i key) where
  posSize := indexed.posSize
  nodesSize := indexed.nodesSize
  room := indexed.room
  idx k inside := (idx_setKey heap i key k).trans_lt (indexed.idx k inside)
  placed k inside := by
    rw [idx_setKey]
    exact indexed.placed k inside
  found u bound inside := by
    rw [idx_setKey]
    exact indexed.found u bound inside

/-- What `decreaseKey` does to the heap. -/
structure Decreased (n count v : Nat) (key : WithTop ℚ) (before after : MinHeapObj) : Prop where
  size : after.size = before.size
  members : ∀ u < n, after.pos.get u < count ↔ before.pos.get u < count
  gone : ∀ u < n, count ≤ before.pos.get u → after.pos.get u = before.pos.get u
  keyOf : after.keyOf v = key
  others : ∀ u < n, before.pos.get u < count → u ≠ v → after.keyOf u = before.keyOf u
  ordered : Ordered count before.key → key ≤ before.keyOf v → Ordered count after.key

theorem decreaseKey_spec (toInt : ℚ → Int) (indexed : Indexed n count heap) {v : Nat} (bound : v < n)
    (here : heap.pos.get v < count) (dist : ℚ) :
    ∃ after, decreaseKey toInt heap v dist = some after ∧ Indexed n count after ∧
      Decreased n count v ((toInt dist : ℚ) : WithTop ℚ) heap after := by
  have posInside : v < heap.pos.size := indexed.posSize ▸ bound
  have nodeInside : heap.pos.get v < heap.nodes.size := indexed.nodesSize ▸ indexed.slot_lt here
  obtain ⟨after, run, indexedA, rearranged, ordered⟩ :=
    travelUp_spec (indexed.setKey (heap.pos.get v) ((toInt dist : ℚ) : WithTop ℚ)) here (Nat.lt_succ_self _)
  have keyOf (u : Nat) (bound : u < n) (inside : heap.pos.get u < count) :
      after.keyOf u = update heap.key (heap.pos.get v) ((toInt dist : ℚ) : WithTop ℚ) (heap.pos.get u) := by
    rw [rearranged.keyOf bound inside, MinHeapObj.keyOf, key_setKey]
    rfl
  refine ⟨after, ?_, indexedA, rearranged.size, rearranged.members, rearranged.gone, ?_, ?_, ?_⟩
  · unfold decreaseKey
    rw [Slots.load_eq posInside]
    simp only [bind_eq_bind, bind_some]
    rw [Slots.load_eq nodeInside, bind_some, Slots.store_eq nodeInside, bind_some, ← run]
    rfl
  · rw [keyOf v bound here, update_self]
  · intro u uBound inside other
    have apart : heap.pos.get u ≠ heap.pos.get v := by
      intro same
      apply other
      rw [← indexed.found u uBound inside, ← indexed.found v bound here, same]
    rw [keyOf u uBound inside, update_of_ne apart]
    rfl
  · intro before lower
    apply ordered
    rw [key_setKey]
    exact before.lower lower

def MinHeapObj.dropRoot (heap : MinHeapObj) : MinHeapObj where
  size := heap.size - 1
  pos := { heap.pos with
    get := Function.update (Function.update heap.pos.get (heap.nodes.get 0).idx (heap.size - 1))
      (heap.nodes.get (heap.size - 1)).idx 0 }
  nodes := { heap.nodes with get := Function.update heap.nodes.get 0 (heap.nodes.get (heap.size - 1)) }

section DropRoot
variable (indexed : Indexed n heap.size heap) (some_ : heap.size ≠ 0)
include indexed some_

theorem Indexed.pos_dropRoot {v : Nat} (bound : v < n) (other : v ≠ (heap.nodes.get 0).idx) :
    heap.dropRoot.pos.get v = 0 ∧ heap.pos.get v = heap.size - 1 ∧ heap.size - 1 ≠ 0 ∨
      heap.dropRoot.pos.get v = heap.pos.get v ∧ heap.pos.get v ≠ 0 ∧ heap.pos.get v ≠ heap.size - 1 := by
  have lastInside : heap.size - 1 < heap.size := by omega
  have pos : heap.dropRoot.pos.get v = update (update heap.pos.get (heap.nodes.get 0).idx (heap.size - 1))
      (heap.nodes.get (heap.size - 1)).idx 0 v := rfl
  rw [pos]
  by_cases last : v = (heap.nodes.get (heap.size - 1)).idx
  · refine .inl ⟨by rw [last, update_self], by rw [last, indexed.placed _ lastInside], ?_⟩
    intro single
    rw [single] at last
    exact other last
  · refine .inr ⟨by rw [update_of_ne last, update_of_ne other], ?_, ?_⟩
    · intro root
      exact other (root ▸ indexed.found v bound (by omega)).symm
    · intro isLast
      exact last (isLast ▸ indexed.found v bound (by omega)).symm

theorem Indexed.pos_root : heap.dropRoot.pos.get (heap.nodes.get 0).idx = heap.size - 1 := by
  have pos : heap.dropRoot.pos.get = update (update heap.pos.get (heap.nodes.get 0).idx (heap.size - 1))
      (heap.nodes.get (heap.size - 1)).idx 0 := rfl
  rw [pos]
  by_cases last : (heap.nodes.get 0).idx = (heap.nodes.get (heap.size - 1)).idx
  · rw [last, update_self]
    exact indexed.idx_inj (by omega) (by omega) last
  · rw [update_of_ne last, update_self]

theorem Indexed.members_dropRoot {v : Nat} (bound : v < n) (other : v ≠ (heap.nodes.get 0).idx) :
    heap.dropRoot.pos.get v < heap.size - 1 ↔ heap.pos.get v < heap.size := by
  rcases indexed.pos_dropRoot some_ bound other with ⟨moved, last, room⟩ | ⟨stays, -, notLast⟩ <;> omega

theorem Indexed.nodes_dropRoot {v : Nat} (bound : v < n) (other : v ≠ (heap.nodes.get 0).idx) :
    heap.dropRoot.nodes.get (heap.dropRoot.pos.get v) = heap.nodes.get (heap.pos.get v) := by
  have nodes : heap.dropRoot.nodes.get = update heap.nodes.get 0 (heap.nodes.get (heap.size - 1)) := rfl
  rw [nodes]
  rcases indexed.pos_dropRoot some_ bound other with ⟨moved, last, -⟩ | ⟨stays, notRoot, -⟩
  · rw [moved, last, update_self]
  · rw [stays, update_of_ne notRoot]

theorem Indexed.dropRoot : Indexed n (heap.size - 1) heap.dropRoot where
  posSize := indexed.posSize
  nodesSize := indexed.nodesSize
  room := (Nat.sub_le _ _).trans indexed.room
  idx k inside := by
    have nodes : heap.dropRoot.nodes.get = update heap.nodes.get 0 (heap.nodes.get (heap.size - 1)) := rfl
    rw [nodes]
    by_cases root : k = 0
    · rw [root, update_self]
      exact indexed.idx _ (by omega)
    · rw [update_of_ne root]
      exact indexed.idx k (by omega)
  placed k inside := by
    have nodes : heap.dropRoot.nodes.get = update heap.nodes.get 0 (heap.nodes.get (heap.size - 1)) := rfl
    rw [nodes]
    by_cases root : k = 0
    · rw [root, update_self]
      exact update_self ..
    · rw [update_of_ne root]
      have placed := indexed.placed k (by omega)
      have other : (heap.nodes.get k).idx ≠ (heap.nodes.get 0).idx :=
        fun same => root (indexed.idx_inj (by omega) (by omega) same)
      rcases indexed.pos_dropRoot some_ (indexed.idx k (by omega)) other with ⟨-, last, -⟩ | ⟨stays, -, -⟩ <;> omega
  found v bound inside := by
    have other : v ≠ (heap.nodes.get 0).idx := by
      rintro rfl
      exact absurd (indexed.pos_root some_) inside.ne
    rw [indexed.nodes_dropRoot some_ bound other]
    exact indexed.found v bound ((indexed.members_dropRoot some_ bound other).mp inside)

end DropRoot

/-- What `extractMin` does to the heap. -/
structure Extracted (n : Nat) (root : MinHeapNodeObj) (before after : MinHeapObj) : Prop where
  size : after.size + 1 = before.size
  bound : root.idx < n
  first : before.pos.get root.idx = 0
  last : after.pos.get root.idx = after.size
  members : ∀ v < n, v ≠ root.idx → (after.pos.get v < after.size ↔ before.pos.get v < before.size)
  gone : ∀ v < n, before.size ≤ before.pos.get v → after.pos.get v = before.pos.get v
  keys : ∀ v < n, v ≠ root.idx → before.pos.get v < before.size → after.keyOf v = before.keyOf v
  ordered : Ordered before.size before.key → Ordered after.size after.key

theorem extractMin_spec (indexed : Indexed n heap.size heap) (some_ : heap.size ≠ 0) :
    ∃ root after, extractMin heap = some (root, after) ∧ Indexed n after.size after ∧ Extracted n root heap after := by
  have inside {k : Nat} (here : k < heap.size) : k < heap.nodes.size := indexed.nodesSize ▸ indexed.slot_lt here
  have idx {k : Nat} (here : k < heap.size) : (heap.nodes.get k).idx < heap.pos.size := indexed.posSize ▸ indexed.idx k here
  have dropped : Indexed n heap.dropRoot.size heap.dropRoot := indexed.dropRoot some_
  obtain ⟨after, run, indexedA, rearranged, ordered⟩ :=
    minHeapify_spec heap.size 0 dropped
      (show heap.size - 1 = 0 ∨ 0 < heap.size - 1 by omega) (show heap.size - 1 - 0 < heap.size by omega)
  have size : after.size = heap.size - 1 := rearranged.size
  rw [show heap.dropRoot.size = heap.size - 1 from rfl] at indexedA rearranged ordered
  have rootGone := indexed.pos_root some_
  have members {v : Nat} (bound : v < n) (other : v ≠ (heap.nodes.get 0).idx) :=
    indexed.members_dropRoot some_ bound other
  refine ⟨heap.nodes.get 0, after, ?_, size ▸ indexedA, ?_⟩
  · unfold extractMin
    rw [if_neg some_, Slots.load_eq (inside (Nat.pos_of_ne_zero some_))]
    simp only [bind_eq_bind, bind_some]
    rw [Slots.load_eq (inside (by omega)), bind_some, Slots.store_eq (inside (Nat.pos_of_ne_zero some_)), bind_some,
      Slots.store_eq (idx (by omega)), bind_some, Slots.store_eq (by exact idx (by omega)), bind_some]
    exact (congrArg (Option.bind · _) run).trans rfl
  · refine ⟨by omega, indexed.idx 0 (by omega), indexed.placed 0 (by omega), ?_, ?_, ?_, ?_, ?_⟩
    · rw [rearranged.gone _ (indexed.idx 0 (by omega)) rootGone.ge, rootGone, size]
    · intro v bound other
      rw [size, rearranged.members v bound]
      exact members bound other
    · intro v bound out
      have other : v ≠ (heap.nodes.get 0).idx := by
        rintro rfl
        have placed := indexed.placed 0 (by omega)
        omega
      have stays : heap.dropRoot.pos.get v = heap.pos.get v := by
        rcases indexed.pos_dropRoot some_ bound other with ⟨-, last, -⟩ | ⟨stays, -, -⟩ <;> omega
      rw [rearranged.gone v bound (show heap.size - 1 ≤ heap.dropRoot.pos.get v by omega), stays]
    · intro v bound other here
      rw [rearranged.keyOf bound ((members bound other).mpr here)]
      exact congrArg MinHeapNodeObj.dist (indexed.nodes_dropRoot some_ bound other)
    · intro before
      rw [size]
      apply ordered
      have key : heap.dropRoot.key = update heap.key 0 (heap.key (heap.size - 1)) := by
        funext k
        exact apply_update (fun _ => MinHeapNodeObj.dist) heap.nodes.get 0 _ k
      obtain ⟨last, isLast⟩ := Nat.exists_eq_succ_of_ne_zero some_
      rw [key]
      rw [isLast] at before ⊢
      exact before.replace_root

end MapServer
