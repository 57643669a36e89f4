import Mathlib.Data.Multiset.MapFold
import MapServer.Spatial.TreeSearch

/-!
The nodes of `maptree.c` lie in memory and name their subnodes by address; a destroyed node can no
longer be read. The run of `treeNodeTrim` over such a tree is `treeNodeTrim` on the tree it holds.
-/

namespace MapServer
open List

section Memory
variable {α : Type}

/-- A `treeNodeObj` in memory. `subnode` holds the first `numsubnodes` addresses of the array. -/
structure TreeNodeCell (α : Type) where
  rect : RectObj α
  ids : List Int
  subnode : List Nat

/-- No cell at an address: nothing was allocated there, or it was destroyed. -/
abbrev TreeHeap (α : Type) := Nat → Option (TreeNodeCell α)

def writeNode (heap : TreeHeap α) (address : Nat) (cell : Option (TreeNodeCell α)) : TreeHeap α :=
  Function.update heap address cell

mutual
def destroyTreeNode : Nat → Nat → TreeHeap α → Option (TreeHeap α)
  | 0, _, _ => none
  | fuel + 1, node, heap => do
    let heap ← destroySubnodes fuel node 0 heap
    let _ ← heap node
    some (writeNode heap node none)

def destroySubnodes : Nat → Nat → Nat → TreeHeap α → Option (TreeHeap α)
  | 0, _, _, _ => none
  | fuel + 1, node, i, heap => do
    let cell ← heap node
    match cell.subnode[i]? with
    | none => some heap
    | some child =>
      let heap ← destroyTreeNode fuel child heap
      destroySubnodes fuel node (i + 1) heap
end

def promoteSubnodeAt (node : Nat) (heap : TreeHeap α) : Option (TreeHeap α) := do
  let cell ← heap node
  match cell.subnode, cell.ids with
  | [psSubNode], [] =>
    let child ← heap psSubNode
    some (writeNode (writeNode heap node (some child)) psSubNode none)
  | _, _ => some heap

mutual
def treeNodeTrimAt : Nat → Nat → TreeHeap α → Option (TreeHeap α × Bool)
  | 0, _, _ => none
  | fuel + 1, node, heap => do
    let heap ← trimSubnodesAt fuel node 0 heap
    let heap ← promoteSubnodeAt node heap
    let cell ← heap node
    some (heap, cell.subnode.isEmpty && cell.ids.isEmpty)

def trimSubnodesAt : Nat → Nat → Nat → TreeHeap α → Option (TreeHeap α)
  | 0, _, _, _ => none
  | fuel + 1, node, i, heap => do
    let cell ← heap node
    match cell.subnode[i]? with
    | none => some heap
    | some child =>
      let (heap, empty) ← treeNodeTrimAt fuel child heap
      if empty then
        let heap ← destroyTreeNode fuel child heap
        let cell ← heap node
        let last ← cell.subnode.getLast?
        let subnode := (cell.subnode.set i last).dropLast
        -- `i` steps back and on again: the entry moved up from the end is looked at next.
        trimSubnodesAt fuel node i (writeNode heap node (some { cell with subnode }))
      else trimSubnodesAt fuel node (i + 1) heap
end

inductive PlacedNode (α : Type) where
  | node (address : Nat) (rect : RectObj α) (ids : List Int) (subnode : List (PlacedNode α))

namespace PlacedNode

@[elab_as_elim, induction_eliminator]
theorem induct {motive : PlacedNode α → Prop}
    (node : ∀ address rect ids subnode, (∀ child ∈ subnode, motive child) →
      motive (.node address rect ids subnode))
    (root : PlacedNode α) : motive root :=
  @PlacedNode.rec α motive (fun children => ∀ child ∈ children, motive child)
    (fun address rect ids subnode ih => node address rect ids subnode ih) (by simp)
    (fun child rest ih ihs => forall_mem_cons.mpr ⟨ih, ihs⟩) root

def address : PlacedNode α → Nat
  | node address _ _ _ => address

def tree : PlacedNode α → TreeNodeObj α
  | node _ rect ids subnode => .node rect ids (subnode.map tree)

def cells : PlacedNode α → List (Nat × TreeNodeCell α)
  | node at_ rect ids subnode =>
    (at_, { rect, ids, subnode := subnode.map address }) :: (subnode.map cells).flatten

def addresses (node : PlacedNode α) : List Nat := node.cells.map Prod.fst

structure HeldIn (heap : TreeHeap α) (node : PlacedNode α) : Prop where
  apart : node.addresses.Nodup
  held : ∀ entry ∈ node.cells, heap entry.1 = some entry.2

variable {heap heap' : TreeHeap α} {root : PlacedNode α} {at_ : Nat} {rect : RectObj α} {ids : List Int}
  {subnode : List (PlacedNode α)}

theorem cells_node : (node at_ rect ids subnode).cells =
    (at_, { rect, ids, subnode := subnode.map address }) :: subnode.flatMap cells := by
  rw [cells, flatMap_def]

theorem addresses_node : (node at_ rect ids subnode).addresses = at_ :: subnode.flatMap addresses := by
  rw [addresses, cells_node, map_cons, map_flatMap]
  rfl

theorem address_mem (root : PlacedNode α) : root.address ∈ root.addresses := by
  cases root
  exact addresses_node ▸ mem_cons_self

theorem HeldIn.congr (same : ∀ x ∈ root.addresses, heap' x = heap x) (held : root.HeldIn heap) :
    root.HeldIn heap' :=
  ⟨held.apart, fun entry member => (same _ (mem_map_of_mem member)).trans (held.held entry member)⟩

theorem heldIn_node : (node at_ rect ids subnode).HeldIn heap ↔
    heap at_ = some { rect, ids, subnode := subnode.map address } ∧
    at_ ∉ subnode.flatMap addresses ∧ (subnode.flatMap addresses).Nodup ∧
    ∀ child ∈ subnode, child.HeldIn heap := by
  constructor
  · rintro ⟨apart, held⟩
    rw [addresses_node, nodup_cons] at apart
    rw [cells_node] at held
    refine ⟨held _ mem_cons_self, apart.1, apart.2, fun child member => ⟨?_, ?_⟩⟩
    · exact (nodup_flatMap.mp apart.2).1 child member
    · exact fun entry found => held entry (mem_cons_of_mem _ (mem_flatMap_of_mem member found))
  · rintro ⟨root, fresh, apart, held⟩
    refine ⟨addresses_node ▸ nodup_cons.mpr ⟨fresh, apart⟩, ?_⟩
    rw [cells_node]
    refine forall_mem_cons.mpr ⟨root, fun entry member => ?_⟩
    obtain ⟨child, inside, found⟩ := mem_flatMap.mp member
    exact (held child inside).held entry found

/-- What a run of `treeNodeTrim` leaves of a tree. -/
structure Trimmed (heap heap' : TreeHeap α) (root after : PlacedNode α) : Prop where
  address : after.address = root.address
  tree : after.tree = (treeNodeTrim root.tree).1
  held : after.HeldIn heap'
  within : after.addresses ⊆ root.addresses
  frame : ∀ x ∉ root.addresses, heap' x = heap x

def Trims (root : PlacedNode α) : Prop :=
  ∀ (fuel : Nat) (heap : TreeHeap α), 3 * root.cells.length ≤ fuel → root.HeldIn heap →
    ∃ heap' after, treeNodeTrimAt fuel root.address heap = some (heap', (treeNodeTrim root.tree).2) ∧
      Trimmed heap heap' root after

variable {child after : PlacedNode α} {done rest moved : List (PlacedNode α)}

theorem Trimmed.replaces (trimmed : Trimmed heap heap' child after)
    (held : (node at_ rect ids (done ++ child :: rest)).HeldIn heap) :
    (node at_ rect ids (done ++ after :: rest)).HeldIn heap' := by
  obtain ⟨root, fresh, apart, below⟩ := heldIn_node.mp held
  simp only [flatMap_append, flatMap_cons, mem_append, not_or, nodup_append] at fresh apart
  have other (x : Nat) (outside : x ∉ child.addresses) := trimmed.frame x outside
  have inside {x : Nat} (member : x ∈ after.addresses) := trimmed.within member
  refine heldIn_node.mpr ⟨?_, ?_, ?_, ?_⟩
  · rw [other _ fresh.2.1, root]
    simp [trimmed.address]
  · simp only [flatMap_append, flatMap_cons, mem_append, not_or]
    exact ⟨fresh.1, fun member => fresh.2.1 (inside member), fresh.2.2⟩
  · simp only [flatMap_append, flatMap_cons, mem_append, nodup_append]
    refine ⟨apart.1, ⟨trimmed.held.apart, apart.2.1.2.1, ?_⟩, ?_⟩
    · exact fun x member => apart.2.1.2.2 x (inside member)
    · rintro x member y (among | among)
      · exact apart.2.2 x member y (.inl (inside among))
      · exact apart.2.2 x member y (.inr among)
  · intro other_ member
    rcases mem_append.mp member with before | member
    · refine (below _ (mem_append_left _ before)).congr fun x among => other x fun here => ?_
      exact apart.2.2 x (mem_flatMap_of_mem before among) x (.inl here) rfl
    · rcases mem_cons.mp member with rfl | behind
      · exact trimmed.held
      · refine (below _ (mem_append_right _ (mem_cons_of_mem _ behind))).congr fun x among => other x fun here => ?_
        exact apart.2.1.2.2 x here x (mem_flatMap_of_mem behind among) rfl

theorem destroyTreeNode_bare {fuel : Nat} (enough : 2 ≤ fuel)
    (bare : heap at_ = some { rect, ids, subnode := [] }) :
    destroyTreeNode fuel at_ heap = some (writeNode heap at_ none) := by
  obtain ⟨fuel, rfl⟩ := Nat.exists_eq_add_of_le' enough
  simp [destroyTreeNode, destroySubnodes, bare]

theorem exists_moved {β : Type} (done : List β) (entry : β) (rest : List β) :
    ∃ last moved, (done ++ entry :: rest).getLast? = some last ∧
      ((done ++ entry :: rest).set done.length last).dropLast = done ++ moved ∧ moved.Perm rest ∧
      ∀ trim : β → TreeNodeObj α × Bool, moveLastFirst (rest.map trim) = moved.map trim := by
  cases rest using reverseRecOn with
  | nil => exact ⟨entry, [], by simp, by simp, .refl _, fun _ => rfl⟩
  | append_singleton rest last =>
    refine ⟨last, last :: rest, ?_, ?_, (perm_append_singleton last rest).symm, fun trim => ?_⟩
    · rw [← cons_append, ← append_assoc, getLast?_concat]
    · rw [set_append_right _ _ le_rfl, Nat.sub_self, set_cons_zero, ← cons_append, ← append_assoc,
        dropLast_concat]
    · simp [moveLastFirst]

theorem HeldIn.dropped (held : (node at_ rect ids (done ++ child :: rest)).HeldIn heap) (same : moved.Perm rest) :
    (node at_ rect ids (done ++ moved)).HeldIn
      (writeNode (writeNode heap child.address none) at_
        (some { rect, ids, subnode := (done ++ moved).map address })) := by
  obtain ⟨_, fresh, apart, below⟩ := heldIn_node.mp held
  have fewer : done ++ moved ⊆ done ++ child :: rest :=
    Subset.trans (same.append_left done).subset ((sublist_cons_self child rest).append_left done).subset
  have kept : ((done ++ moved).flatMap addresses).Perm ((done ++ rest).flatMap addresses) :=
    (same.append_left done).flatMap_right _
  have fewerCells : (done ++ rest).flatMap addresses <+ (done ++ child :: rest).flatMap addresses := by
    simp only [flatMap_append, flatMap_cons]
    exact (sublist_append_right ..).append_left _
  have absent : child.address ∉ (done ++ moved).flatMap addresses := by
    simp only [flatMap_append, flatMap_cons, nodup_append, mem_append] at apart ⊢
    rintro (before | behind)
    · exact apart.2.2 _ before _ (.inl child.address_mem) rfl
    · exact apart.2.1.2.2 _ child.address_mem _ ((same.flatMap_right _).mem_iff.mp behind) rfl
  have outside : at_ ∉ (done ++ moved).flatMap addresses :=
    fun member => fresh (fewerCells.subset (kept.mem_iff.mp member))
  refine heldIn_node.mpr ⟨Function.update_self .., outside, kept.nodup_iff.mpr (apart.sublist fewerCells),
    fun other member => ?_⟩
  refine (below _ (fewer member)).congr fun x among => ?_
  have inside : x ∈ (done ++ moved).flatMap addresses := mem_flatMap_of_mem member among
  have notRoot : x ≠ at_ := fun here => outside (here ▸ inside)
  have notChild : x ≠ child.address := fun here => absent (here ▸ inside)
  simp [writeNode, notRoot, notChild]

theorem dropEmptySubnodes_kept {entry : TreeNodeObj α × Bool} {others : List (TreeNodeObj α × Bool)}
    (used : entry.2 = false) : dropEmptySubnodes (entry :: others) = entry.1 :: dropEmptySubnodes others := by
  obtain ⟨trimmed, empty⟩ := entry
  obtain rfl : empty = false := used
  rw [dropEmptySubnodes]

theorem dropEmptySubnodes_dropped {entry : TreeNodeObj α × Bool} {others : List (TreeNodeObj α × Bool)}
    (empty : entry.2 = true) : dropEmptySubnodes (entry :: others) = dropEmptySubnodes (moveLastFirst others) := by
  obtain ⟨trimmed, flag⟩ := entry
  obtain rfl : flag = true := empty
  rw [dropEmptySubnodes]

theorem length_cells_pos (root : PlacedNode α) : 0 < root.cells.length := by
  cases root
  simp [cells_node]

theorem held_bare (held : root.HeldIn heap) (bare : root.tree = .node rect [] []) :
    heap root.address = some { rect, ids := [], subnode := [] } := by
  obtain ⟨_, _, _, subnode⟩ := root
  simp only [tree, TreeNodeObj.node.injEq, map_eq_nil_iff] at bare
  obtain ⟨rfl, rfl, rfl⟩ := bare
  exact (heldIn_node.mp held).1

theorem trimSubnodesAt_spec (at_ : Nat) (rect : RectObj α) (ids : List Int) (fuel : Nat) :
    ∀ (done todo : List (PlacedNode α)) (heap : TreeHeap α), (∀ child ∈ todo, child.Trims) →
      3 * (todo.flatMap cells).length + 2 ≤ fuel → (node at_ rect ids (done ++ todo)).HeldIn heap →
      ∃ heap' kept, trimSubnodesAt fuel at_ done.length heap = some heap' ∧
        kept.map tree = dropEmptySubnodes (treeTrimSubnodes (todo.map tree)) ∧
        (node at_ rect ids (done ++ kept)).HeldIn heap' ∧
        kept.flatMap addresses ⊆ todo.flatMap addresses ∧
        ∀ x ∉ at_ :: todo.flatMap addresses, heap' x = heap x := by
  simp only [treeTrimSubnodes_eq, map_map]
  induction fuel with
  | zero => intro _ _ _ _ enough; omega
  | succ fuel ih =>
    intro done todo heap trims enough held
    have root := (heldIn_node.mp held).1
    cases todo with
    | nil =>
      refine ⟨heap, [], ?_, by simp [dropEmptySubnodes], held, nil_subset _, fun _ _ => rfl⟩
      simp [trimSubnodesAt, root]
    | cons child rest =>
      simp only [flatMap_cons, length_append] at enough
      have positive := child.length_cells_pos
      have fresh := (heldIn_node.mp held).2.1
      have childHeld := (heldIn_node.mp held).2.2.2 child (by simp)
      obtain ⟨heap₁, after, run, trimmed⟩ := trims child mem_cons_self fuel heap (by omega) childHeld
      have replaced := trimmed.replaces held
      have root₁ := (heldIn_node.mp replaced).1
      have entry : ((done ++ child :: rest).map address)[done.length]? = some child.address := by simp
      simp only [flatMap_append, flatMap_cons, mem_append, not_or] at fresh
      cases empty : (treeNodeTrim child.tree).2 with
      | false =>
        obtain ⟨heap', kept, loop, trees, held', within, frame⟩ := ih (done ++ [after]) rest heap₁
          (fun other member => trims other (mem_cons_of_mem _ member)) (by omega) (by simpa using replaced)
        refine ⟨heap', after :: kept, ?_, ?_, by simpa using held', ?_, fun x outside => ?_⟩
        · rw [← loop, length_append, length_singleton]
          simp only [trimSubnodesAt, root, entry, run, empty, Option.bind_eq_bind, Option.bind_some,
            Bool.false_eq_true, if_false]
        · rw [map_cons, map_cons, trees, trimmed.tree]
          exact (dropEmptySubnodes_kept empty).symm
        · exact append_subset.mpr ⟨Subset.trans trimmed.within (subset_append_left ..),
            Subset.trans within (subset_append_right ..)⟩
        · simp only [flatMap_cons, mem_cons, mem_append, not_or] at outside
          rw [frame x (by simp [outside]), trimmed.frame x outside.2.1]
      | true =>
        -- An emptied subnode is destroyed, and the last entry takes its place.
        obtain ⟨bareRect, bare⟩ := trimmed_empty empty
        have cell := held_bare trimmed.held (trimmed.tree.trans bare)
        have destroyed := destroyTreeNode_bare (show 2 ≤ fuel by omega) cell
        obtain ⟨last, moved, isLast, shortened, same, drops⟩ := exists_moved done after rest
        obtain ⟨heap', kept, loop, trees, held', within, frame⟩ := ih done moved _
          (fun other member => trims other (mem_cons_of_mem _ (same.mem_iff.mp member)))
          (by rw [(same.flatMap_right cells).length_eq]; omega) (replaced.dropped same)
        have different : at_ ≠ after.address := fun here =>
          fresh.2.1 (trimmed.within (here ▸ after.address_mem))
        have root₂ : writeNode heap₁ after.address none at_ = heap₁ at_ :=
          Function.update_of_ne different ..
        refine ⟨heap', kept, ?_, ?_, held', ?_, fun x outside => ?_⟩
        · rw [trimmed.address] at destroyed root₂
          have lastAddress : ((done ++ after :: rest).map address).getLast? = some last.address := by
            rw [getLast?_map, isLast, Option.map_some]
          have shorter : (((done ++ after :: rest).map address).set done.length last.address).dropLast =
              (done ++ moved).map address := by
            rw [← map_set, ← map_dropLast, shortened]
          rw [← loop, trimmed.address]
          simp only [trimSubnodesAt, root, entry, run, empty, destroyed, root₂, root₁, lastAddress, shorter,
            Option.bind_eq_bind, Option.bind_some, if_true]
        · rw [map_cons, trees, ← drops]
          exact (dropEmptySubnodes_dropped empty).symm
        · exact Subset.trans within (Subset.trans (same.flatMap_right addresses).subset (subset_append_right ..))
        · simp only [flatMap_cons, mem_cons, mem_append, not_or] at outside
          have away : x ≠ after.address := fun here =>
            outside.2.1 (trimmed.within (here ▸ after.address_mem))
          have unmoved : x ∉ moved.flatMap addresses := fun member =>
            outside.2.2 ((same.flatMap_right addresses).mem_iff.mp member)
          rw [frame x (by simp [outside.1, unmoved]), writeNode, Function.update_of_ne outside.1, writeNode,
            Function.update_of_ne away, trimmed.frame x outside.2.1]

theorem promoteSubnodeAt_spec (held : (node at_ rect ids subnode).HeldIn heap) :
    ∃ (heap' : TreeHeap α) (after : PlacedNode α), promoteSubnodeAt at_ heap = some heap' ∧
      after.address = at_ ∧
      after.tree = promoteSubnode rect ids (subnode.map tree) ∧ after.HeldIn heap' ∧
      after.addresses ⊆ at_ :: subnode.flatMap addresses ∧
      ∀ x ∉ at_ :: subnode.flatMap addresses, heap' x = heap x := by
  obtain ⟨root, fresh, apart, below⟩ := heldIn_node.mp held
  by_cases only : ∃ child, subnode = [child] ∧ ids = []
  · obtain ⟨⟨inner, innerRect, innerIds, grandchildren⟩, rfl, rfl⟩ := only
    have child := heldIn_node.mp (below _ mem_cons_self)
    simp only [flatMap_cons, flatMap_nil, append_nil, addresses_node, mem_cons, not_or] at fresh ⊢
    let copied : TreeNodeCell α := { rect := innerRect, ids := innerIds, subnode := grandchildren.map address }
    refine ⟨writeNode (writeNode heap at_ (some copied)) inner none, node at_ innerRect innerIds grandchildren,
      ?_, rfl, ?_, ?_, ?_, fun x outside => ?_⟩
    · simp [promoteSubnodeAt, root, address, child.1, copied]
    · simp [promoteSubnode, tree]
    · refine heldIn_node.mpr ⟨?_, fresh.2, child.2.2.1, fun other member => ?_⟩
      · rw [writeNode, Function.update_of_ne fresh.1, writeNode, Function.update_self]
      · refine (child.2.2.2 other member).congr fun x among => ?_
        have inside : x ∈ grandchildren.flatMap addresses := mem_flatMap_of_mem member among
        have notChild : x ≠ inner := fun here => child.2.1 (here ▸ inside)
        have notRoot : x ≠ at_ := fun here => fresh.2 (here ▸ inside)
        rw [writeNode, Function.update_of_ne notChild, writeNode, Function.update_of_ne notRoot]
    · rw [addresses_node]
      exact cons_subset_cons _ (subset_cons_self ..)
    · rw [writeNode, Function.update_of_ne outside.2.1, writeNode, Function.update_of_ne outside.1]
  · have other {β : Type} (f : PlacedNode α → β) (entry : β) (single : subnode.map f = [entry]) : ids ≠ [] := by
      obtain ⟨child, rfl, _⟩ := map_eq_singleton_iff.mp single
      exact fun none => only ⟨child, rfl, none⟩
    refine ⟨heap, node at_ rect ids subnode, ?_, rfl, ?_, held, addresses_node ▸ Subset.refl _, fun _ _ => rfl⟩
    · simp only [promoteSubnodeAt, root, Option.bind_eq_bind, Option.bind_some]
      split
      · exact (other address _ ‹_› rfl).elim
      · rfl
    · rw [tree, promoteSubnode]
      exact other tree

theorem trims (root : PlacedNode α) : root.Trims := by
  induction root with
  | node at_ rect ids subnode ih =>
    intro fuel heap enough held
    simp only [cells_node, length_cons] at enough
    obtain ⟨fuel, rfl⟩ := Nat.exists_eq_add_of_le' (show 1 ≤ fuel by omega)
    obtain ⟨heap₁, kept, loop, trees, held₁, within, frame⟩ :=
      trimSubnodesAt_spec at_ rect ids fuel [] subnode heap ih (by omega) held
    obtain ⟨heap', after, promoted, address, tree_, held', below, frame'⟩ := promoteSubnodeAt_spec held₁
    have trimmed : after.tree = (treeNodeTrim (node at_ rect ids subnode).tree).1 := by
      rw [tree_, nil_append, trees, tree, treeNodeTrim]
    have cell : ∃ cell, heap' at_ = some cell ∧
        (cell.subnode.isEmpty && cell.ids.isEmpty) = (treeNodeTrim (node at_ rect ids subnode).tree).2 := by
      have flag : (treeNodeTrim (node at_ rect ids subnode).tree).2 =
          (after.tree.subnode.isEmpty && after.tree.ids.isEmpty) := by
        rw [trimmed, tree, treeNodeTrim]
      obtain ⟨_, newRect, newIds, newSubnode⟩ := after
      obtain rfl := address
      refine ⟨_, (heldIn_node.mp held').1, ?_⟩
      rw [flag, tree]
      simp
    obtain ⟨cell, read, flag⟩ := cell
    have addresses : after.addresses ⊆ at_ :: subnode.flatMap addresses :=
      Subset.trans below (cons_subset_cons _ within)
    refine ⟨heap', after, ?_, address, trimmed, held', addresses_node ▸ addresses, fun x outside => ?_⟩
    · rw [length_nil] at loop
      simp only [PlacedNode.address, treeNodeTrimAt, loop, promoted, read, flag, Option.bind_eq_bind,
        Option.bind_some]
    · rw [addresses_node] at outside
      rw [frame' x fun member => outside (cons_subset_cons _ within member), frame x outside]

end PlacedNode

def chains : TreeNodeObj α → List (Int × List (RectObj α))
  | .node rect ids subnode =>
    ids.map (·, [rect]) ++ (subnode.map chains).flatten.map fun entry => (entry.1, rect :: entry.2)

def nodesBelow : TreeNodeObj α → List (TreeNodeObj α)
  | .node _ _ subnode => subnode ++ (subnode.map nodesBelow).flatten

def Useful (node : TreeNodeObj α) : Prop := node.ids ≠ [] ∨ 2 ≤ node.subnode.length

theorem chains_node (rect : RectObj α) (ids : List Int) (subnode : List (TreeNodeObj α)) :
    chains (.node rect ids subnode) =
      ids.map (·, [rect]) ++ (subnode.flatMap chains).map fun entry => (entry.1, rect :: entry.2) := by
  rw [chains, flatMap_def]

theorem nodesBelow_node (rect : RectObj α) (ids : List Int) (subnode : List (TreeNodeObj α)) :
    nodesBelow (.node rect ids subnode) = subnode ++ subnode.flatMap nodesBelow := by
  rw [nodesBelow, flatMap_def]

def KeptChain (new old : Int × List (RectObj α)) : Prop := new.1 = old.1 ∧ new.2 ⊆ old.2

theorem keptChain_refl (entries : Multiset (Int × List (RectObj α))) : Multiset.Rel KeptChain entries entries :=
  Multiset.rel_refl_of_refl_on fun _ _ => ⟨rfl, Subset.refl _⟩

theorem rel_flatMap {β γ : Type} {r : γ → γ → Prop} {f g : β → List γ} {entries : List β}
    (each : ∀ entry ∈ entries, Multiset.Rel r (f entry) (g entry)) :
    Multiset.Rel r (entries.flatMap f) (entries.flatMap g) := by
  induction entries with
  | nil => exact .zero
  | cons entry rest ih =>
    rw [flatMap_cons, flatMap_cons, ← Multiset.coe_add, ← Multiset.coe_add]
    exact (each entry mem_cons_self).add (ih fun other member => each other (mem_cons_of_mem _ member))

theorem chains_treeNodeTrim (node : TreeNodeObj α) :
    Multiset.Rel (KeptChain (α := α)) (chains (treeNodeTrim node).1) (chains node) := by
  induction node with
  | node rect ids subnode ih =>
    have kept := flatMap_trimmed_subnodes chains (fun rect => by simp [chains_node]) subnode
    have below : Multiset.Rel (KeptChain (α := α))
        ((dropEmptySubnodes (treeTrimSubnodes subnode)).flatMap chains) (subnode.flatMap chains) :=
      Multiset.coe_eq_coe.mpr kept ▸ rel_flatMap ih
    rw [chains_node, ← Multiset.coe_add]
    rcases treeNodeTrim_cases rect ids subnode with ⟨same, _⟩ | ⟨child, only, rfl, same⟩
    · rw [same, chains_node, ← Multiset.coe_add, ← Multiset.map_coe, ← Multiset.map_coe]
      refine (keptChain_refl _).add (Multiset.rel_map.mpr (below.mono fun new _ old _ kept => ?_))
      exact ⟨kept.1, cons_subset_cons _ kept.2⟩
    · rw [same, map_nil, Multiset.coe_nil, Multiset.zero_add, ← Multiset.map_coe, Multiset.rel_map_right]
      rw [only, flatMap_singleton] at below
      exact below.mono fun new _ old _ kept => ⟨kept.1, Subset.trans kept.2 (subset_cons_self ..)⟩

theorem mem_dropEmptySubnodes {child : TreeNodeObj α} (children : List (TreeNodeObj α × Bool))
    (member : child ∈ dropEmptySubnodes children) : (child, false) ∈ children := by
  induction children using dropEmptySubnodes.induct with
  | case1 => simp [dropEmptySubnodes] at member
  | case2 first rest ih =>
    rw [dropEmptySubnodes] at member
    rcases mem_cons.mp member with rfl | behind
    · exact mem_cons_self
    · exact mem_cons_of_mem _ (ih behind)
  | case3 first rest ih =>
    rw [dropEmptySubnodes] at member
    exact mem_cons_of_mem _ ((moveLastFirst_perm rest).mem_iff.mp (ih member))

theorem useful_treeNodeTrim (node : TreeNodeObj α) :
    (∀ below ∈ nodesBelow (treeNodeTrim node).1, Useful below) ∧
      ((treeNodeTrim node).2 = false → Useful (treeNodeTrim node).1) := by
  induction node with
  | node rect ids subnode ih =>
    have kept : ∀ child ∈ dropEmptySubnodes (treeTrimSubnodes subnode),
        Useful child ∧ ∀ below ∈ nodesBelow child, Useful below := by
      intro child member
      have trimmed := mem_dropEmptySubnodes _ member
      rw [treeTrimSubnodes_eq] at trimmed
      obtain ⟨old, inside, same⟩ := List.mem_map.mp trimmed
      have after : child = (treeNodeTrim old).1 := by rw [same]
      exact after ▸ ⟨(ih old inside).2 (by rw [same]), (ih old inside).1⟩
    rcases treeNodeTrim_cases rect ids subnode with ⟨same, single⟩ | ⟨child, only, rfl, same⟩
    · rw [trimmed_flag, same, nodesBelow_node]
      constructor
      · intro below member
        rcases mem_append.mp member with direct | deeper
        · exact (kept below direct).1
        · obtain ⟨child, inside, found⟩ := mem_flatMap.mp deeper
          exact (kept child inside).2 below found
      · intro used
        by_cases none : ids = []
        · have some_ := single.mt (not_not.mpr none)
          refine .inr ?_
          simp only [TreeNodeObj.subnode_node, TreeNodeObj.ids_node, none, isEmpty_nil, Bool.and_true,
            isEmpty_eq_false_iff] at used ⊢
          have := length_pos_iff.mpr used
          omega
        · exact .inl none
    · have member : child ∈ dropEmptySubnodes (treeTrimSubnodes subnode) := only ▸ mem_singleton_self child
      exact same ▸ ⟨(kept child member).2, fun _ => (kept child member).1⟩

variable [LT α] [DecidableLT α]

def FollowedAsBefore (new old : Int × List (RectObj α)) : Prop :=
  new.1 = old.1 ∧ ∀ aoi, (∀ rect ∈ old.2, msRectOverlap rect aoi) → ∀ rect ∈ new.2, msRectOverlap rect aoi

theorem treeNodeTrim_keeps (root : PlacedNode α) (heap : TreeHeap α) (held : root.HeldIn heap) (fuel : Nat)
    (enough : 3 * root.cells.length ≤ fuel) :
    ∃ (heap' : TreeHeap α) (after : PlacedNode α) (empty : Bool),
      treeNodeTrimAt fuel root.address heap = some (heap', empty) ∧
      after.address = root.address ∧ after.HeldIn heap' ∧ (∀ x ∉ root.addresses, heap' x = heap x) ∧
      (allIds after.tree).Perm (allIds root.tree) ∧
      Multiset.Rel (FollowedAsBefore (α := α)) (chains after.tree) (chains root.tree) ∧
      (∀ below ∈ nodesBelow after.tree, Useful below) ∧
      (empty = true ↔ after.tree.ids = [] ∧ after.tree.subnode = []) := by
  obtain ⟨heap', after, run, trimmed⟩ := root.trims fuel heap enough held
  have tree := trimmed.tree
  refine ⟨heap', after, _, run, trimmed.address, trimmed.held, trimmed.frame, ?_, ?_, ?_, ?_⟩
  · exact tree ▸ allIds_treeNodeTrim root.tree
  · refine tree ▸ (chains_treeNodeTrim root.tree).mono fun new _ old _ kept => ⟨kept.1, ?_⟩
    exact fun aoi overlaps rect member => overlaps rect (kept.2 member)
  · exact tree ▸ (useful_treeNodeTrim root.tree).1
  · rw [trimmed_flag, ← tree, Bool.and_eq_true, List.isEmpty_iff, List.isEmpty_iff, and_comm]

def threeNodes : PlacedNode ℚ :=
  .node 0 ⟨0, 0, 4, 4⟩ [] [.node 1 ⟨0, 0, 2, 2⟩ [] [], .node 2 ⟨2, 2, 4, 4⟩ [7] []]

def threeCells : TreeHeap ℚ
  | 0 => some ⟨⟨0, 0, 4, 4⟩, [], [1, 2]⟩
  | 1 => some ⟨⟨0, 0, 2, 2⟩, [], []⟩
  | 2 => some ⟨⟨2, 2, 4, 4⟩, [7], []⟩
  | _ => none

theorem treeNodeTrim_keeps_threeNodes :
    ∃ (heap' : TreeHeap ℚ) (after : PlacedNode ℚ) (empty : Bool),
      treeNodeTrimAt 9 0 threeCells = some (heap', empty) ∧ after.HeldIn heap' ∧
      (allIds after.tree).Perm (allIds threeNodes.tree) ∧ (∀ below ∈ nodesBelow after.tree, Useful below) := by
  have held : threeNodes.HeldIn threeCells := by
    constructor
    · simp [threeNodes, PlacedNode.addresses_node]
    · simp [threeNodes, PlacedNode.cells_node, threeCells, PlacedNode.address]
  obtain ⟨heap', after, empty, run, _, kept, _, ids, _, useful, _⟩ :=
    treeNodeTrim_keeps threeNodes threeCells held 9 (by simp [threeNodes, PlacedNode.cells_node])
  exact ⟨heap', after, empty, run, kept, ids, useful⟩

end Memory

end MapServer
