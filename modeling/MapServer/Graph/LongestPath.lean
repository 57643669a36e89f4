import MapServer.Graph.ShortestPaths

/-!
# The longest of the shortest paths

`none` stands for an access outside an array or for a loop that goes on; without a path the result is `some none`.
-/

namespace MapServer
open Lib Lib.BinaryHeap Lib.ShortestPaths List Option Function

structure LongestPath where
  path : Slots Int
  path_size : Nat
  path_dist : ℚ

def farthestNode (dist : Slots (WithTop ℚ)) : Nat → Option (ℚ × Int)
  | 0 => some (-1, -1)
  | i + 1 => do
    let (path_dist, dest) ← farthestNode dist i
    match ← dist.load i with
    | none => some (path_dist, dest)
    | some (distance : ℚ) => some (if path_dist < distance then (distance, (i : Int)) else (path_dist, dest))

def pathBack (prev : Slots Int) : Nat → Int → Nat → Slots Int → Option (Slots Int × Nat)
  | 0, _, _, _ => none
  | turns + 1, i, j, path =>
    if i = -1 then some (path, j)
    else do
      let path ← path.store j i
      if i < 0 then none else pathBack prev turns (← prev.load i.toNat) (j + 1) path

def reverseFront (path : Slots Int) (count : Nat) : Slots Int :=
  { path with get := fun k => if k < count then path.get (count - 1 - k) else path.get k }

/-- `fresh` is what `malloc` leaves in the path. -/
def msGraphGetLongestShortestPath (toInt : ℚ → Int) (fresh : Nat → Int) (graph : Option GraphObj) (src : Int) :
    Option (Option LongestPath) :=
  match graph with
  | none => some none
  | some graph =>
    if src < 0 ∨ graph.numnodes < src then some none
    else do
      let output ← dijkstra toInt graph src.toNat
      let (path_dist, dest) ← farthestNode output.dist graph.numnodes
      if dest = -1 then some none
      else
        let (path, j) ← pathBack output.prev (graph.numnodes + 1) dest 0 { size := graph.numnodes, get := fresh }
        some (some { path := reverseFront path j, path_size := j, path_dist })

section Destination
variable {dist : Slots (WithTop ℚ)} {n : Nat}

theorem farthestNode_spec (inside : n ≤ dist.size) (nonneg : ∀ v < n, ∀ distance : ℚ, dist.get v = distance → 0 ≤ distance) :
    ∃ path_dist dest, farthestNode dist n = some (path_dist, dest) ∧
      (∀ v < n, ∀ distance : ℚ, dist.get v = distance → distance ≤ path_dist) ∧
      (dest = -1 ∧ path_dist = -1 ∨ ∃ node < n, dest = (node : Int) ∧ dist.get node = path_dist) := by
  induction n with
  | zero => exact ⟨-1, -1, rfl, nofun, .inl ⟨rfl, rfl⟩⟩
  | succ n ih =>
    obtain ⟨path_dist, dest, run, greatest, isDest⟩ := ih (by omega) fun v bound => nonneg v (by omega)
    have further : (dest = -1 ∧ path_dist = -1 ∨ ∃ node < n, dest = (node : Int) ∧ dist.get node = path_dist) →
        (dest = -1 ∧ path_dist = -1 ∨ ∃ node < n + 1, dest = (node : Int) ∧ dist.get node = path_dist) :=
      Or.imp_right fun ⟨node, bound, rest⟩ => ⟨node, by omega, rest⟩
    unfold farthestNode
    rw [run]
    simp only [bind_eq_bind, bind_some]
    rw [Slots.load_eq (by omega), bind_some]
    cases isLabel : dist.get n with
    | top =>
      refine ⟨path_dist, dest, rfl, fun v bound distance isDistance => ?_, further isDest⟩
      by_cases here : v = n
      · rw [here, isLabel] at isDistance
        cases isDistance
      · exact greatest v (by omega) distance isDistance
    | coe here =>
      by_cases longer : path_dist < here
      · refine ⟨here, n, congrArg some (if_pos longer), fun v bound distance isDistance => ?_, .inr ⟨n, by omega, rfl, isLabel⟩⟩
        by_cases same : v = n
        · rw [same, isLabel] at isDistance
          exact (WithTop.coe_injective isDistance).ge
        · exact (greatest v (by omega) distance isDistance).trans longer.le
      · refine ⟨path_dist, dest, congrArg some (if_neg longer), fun v bound distance isDistance => ?_, further isDest⟩
        by_cases same : v = n
        · rw [same, isLabel] at isDistance
          exact (WithTop.coe_injective isDistance).symm.le.trans (not_lt.mp longer)
        · exact greatest v (by omega) distance isDistance

end Destination

section Back
variable {prev : Slots Int} {src n : Nat}

theorem pathBack_turn {v : Nat} (inside : v < prev.size) (turns : Nat) {j : Nat} {path : Slots Int} (room : j < path.size) :
    ∃ stored, pathBack prev (turns + 1) v j path = pathBack prev turns (prev.get v) (j + 1) stored ∧ stored.size = path.size ∧
      stored.front (j + 1) = path.front j ++ [(v : Int)] := by
  refine ⟨{ path with get := update path.get j v }, ?_, rfl, ?_⟩
  · have notEnd : ¬ (v : Int) = -1 := by omega
    rw [pathBack, if_neg notEnd, Slots.store_eq room]
    simp only [bind_eq_bind, bind_some]
    rw [if_neg (Int.not_lt.mpr (Int.natCast_nonneg v)), Int.toNat_natCast, Slots.load_eq inside, bind_some]
  · rw [Slots.front_succ, Slots.front_update_later _ (Nat.le_refl j)]
    exact congrArg (fun value => path.front j ++ [value]) (update_self ..)

theorem pathBack_spec (source : prev.get src = -1) {via : List Nat} {v : Nat} (linked : (v :: via).IsChain fun v u => prev.get v = (u : Int))
    (last : (v :: via).getLast? = some src) (inside : ∀ u ∈ v :: via, u < prev.size) {turns j : Nat} (enough : via.length + 1 < turns)
    {path : Slots Int} (room : j + via.length < path.size) :
    ∃ after, pathBack prev turns v j path = some (after, j + (v :: via).length) ∧ after.size = path.size ∧
      after.front (j + (v :: via).length) = path.front j ++ (v :: via).map fun u : Nat => (u : Int) := by
  induction via generalizing v turns j path with
  | nil =>
    obtain ⟨turns, rfl⟩ : ∃ fewer, turns = fewer + 2 := ⟨turns - 2, by simp only [length_nil] at enough; omega⟩
    obtain ⟨stored, turn, size, front⟩ := @pathBack_turn prev v (inside v mem_cons_self) (turns + 1) j path (by omega)
    obtain rfl : v = src := Option.some.inj last
    refine ⟨stored, ?_, size, front⟩
    rw [turn, source, pathBack, if_pos rfl]
    rfl
  | cons u via ih =>
    rw [isChain_cons_cons] at linked
    rw [getLast?_cons_cons] at last
    rw [length_cons] at enough room
    have insideU := forall_mem_cons.mp inside
    obtain ⟨turns, rfl⟩ : ∃ fewer, turns = fewer + 1 := ⟨turns - 1, by omega⟩
    obtain ⟨stored, turn, size, front⟩ := @pathBack_turn prev v insideU.1 turns j path (by omega)
    have more : via.length + 1 < turns := by omega
    obtain ⟨after, run, sizeA, frontA⟩ := ih linked.2 last insideU.2 more (by omega : j + 1 + via.length < stored.size)
    refine ⟨after, ?_, sizeA.trans size, ?_⟩
    · have size_ : j + 1 + (u :: via).length = j + (v :: u :: via).length := by
        rw [length_cons, length_cons, length_cons]
        omega
      rw [turn, linked.1, run, size_]
    · rw [front, append_assoc] at frontA
      rw [length_cons, Nat.add_comm _ 1, ← Nat.add_assoc, frontA]
      rfl

theorem front_reverseFront (path : Slots Int) (count : Nat) : (reverseFront path count).front count = (path.front count).reverse := by
  apply ext_getElem?
  intro k
  rw [Slots.getElem?_front]
  by_cases inside : k < count
  · rw [if_pos inside, getElem?_reverse (by rw [Slots.length_front]; exact inside), Slots.length_front, Slots.getElem?_front,
      if_pos (by omega)]
    exact congrArg some (if_pos inside)
  · rw [if_neg inside, getElem?_eq_none (by rw [length_reverse, Slots.length_front]; omega)]

end Back

def shortestLengths (edge : Nat → Nat → ℚ → Prop) (node : Nat) : Set ℚ :=
  { distance | ∃ v, IsLeast { length | ∃ via, Walk edge node v via length } distance }

structure LongestPath.FromNode (edge : Nat → Nat → ℚ → Prop) (numnodes src : Nat) (longest : LongestPath) : Prop where
  walk : ∃ v via, Walk edge src v via longest.path_dist ∧
    longest.path.front longest.path_size = via.reverse.map fun u : Nat => (u : Int)
  first : (longest.path.front longest.path_size).head? = some (src : Int)
  size_pos : 1 ≤ longest.path_size
  size_le : longest.path_size ≤ numnodes
  pathSize : longest.path.size = numnodes

/-- All accesses are inside of the arrays, and what is returned is a path from `src`. -/
def findsPath (edge : Nat → Nat → ℚ → Prop) (numnodes : Nat) (src : Int) (result : Option (Option LongestPath)) : Prop :=
  ∃ found, result = some found ∧ ∀ longest ∈ found, ∃ node < numnodes, src = node ∧ longest.FromNode edge numnodes node

def findsLongest (edge : Nat → Nat → ℚ → Prop) (numnodes : Nat) (src : Int) (result : Option (Option LongestPath)) : Prop :=
  ∃ found, result = some found ∧ ∀ longest ∈ found, ∃ node < numnodes, src = node ∧ longest.FromNode edge numnodes node ∧
    IsGreatest (shortestLengths edge node) longest.path_dist

section Search
variable {toInt : ℚ → Int} {graph : GraphObj} {src : Nat} {search : Search}

theorem Sound.pathBack (sound : Sound toInt graph src search) (isNode : src < graph.numnodes) (valid : graph.Valid) {v : Nat}
    {distance : ℚ} (isLabel : search.label v = distance) (fresh : Nat → Int) :
    ∃ path count, pathBack search.output.prev (graph.numnodes + 1) v 0 { size := graph.numnodes, get := fresh } = some (path, count) ∧
      LongestPath.FromNode graph.edge graph.numnodes src
        { path := reverseFront path count, path_size := count, path_dist := distance } := by
  obtain ⟨via, walk, simple, -, linked⟩ := sound.labelling.walk_linked isLabel
  have nodes : ∀ u ∈ via, u < graph.numnodes := walk.all_nodes isNode valid.dest
  have fits : via.length ≤ graph.numnodes := by
    have fits := (subperm_of_subset simple fun u member => mem_range.mpr (nodes u member)).length_le
    rwa [length_range] at fits
  have last := walk.last
  obtain ⟨others, rfl⟩ := walk.via_cons
  rw [length_cons] at fits
  obtain ⟨path, run, size, front⟩ := @pathBack_spec search.output.prev src sound.source others v linked last
    (fun u member => sound.prevSize ▸ nodes u member) (graph.numnodes + 1) 0 (Nat.succ_lt_succ fits)
    { size := graph.numnodes, get := fresh } (by rw [Nat.zero_add]; exact fits)
  rw [Nat.zero_add] at run front
  have entries : (reverseFront path (v :: others).length).front (v :: others).length =
      (v :: others).reverse.map fun u : Nat => (u : Int) := by
    rw [front_reverseFront, front, map_reverse]
    rfl
  refine ⟨path, _, run, ⟨v, _, walk, entries⟩, ?_, Nat.succ_pos _, fits, size⟩
  rw [entries, head?_map, head?_reverse, last]
  rfl

end Search

theorem startSearch_outside (toInt : ℚ → Int) (graph : GraphObj) : startSearch toInt graph graph.numnodes = none := by
  have outside (pos : Slots Nat) (size : pos.size = graph.numnodes) : pos.store graph.numnodes graph.numnodes = none :=
    if_neg (by rw [size]; exact Nat.lt_irrefl _)
  unfold startSearch
  simp only [bind_eq_bind]
  rw [outside _ rfl]
  rfl

/-- From a node the result is a path from it, and a longest one of the shortest if the distances are the shortest. -/
theorem msGraphGetLongestShortestPath_node {toInt : ℚ → Int} {graph : GraphObj} (valid : graph.Valid) {src : Nat}
    (isNode : src < graph.numnodes) (fresh : Nat → Int) :
    ∃ longest, msGraphGetLongestShortestPath toInt fresh (some graph) src = some (some longest) ∧
      longest.FromNode graph.edge graph.numnodes src ∧
      (searchesInTime toInt graph src → IsGreatest (shortestLengths graph.edge src) longest.path_dist) := by
  obtain ⟨start, begins, sound, size, unsettled, -⟩ := startSearch_spec toInt isNode
  obtain ⟨final, runs, soundF, -, -, inTime, -⟩ := settleNodes_spec valid sound size.le
  have output : dijkstra toInt graph src = some final.output := by
    unfold dijkstra
    rw [begins]
    simp only [bind_eq_bind, bind_some]
    rw [runs, bind_some]
  have nonneg : ∀ v < graph.numnodes, ∀ distance : ℚ, final.output.dist.get v = distance → 0 ≤ distance := by
    intro v _ distance isLabel
    obtain ⟨via, walk, -, -⟩ := soundF.labelling.walk isLabel
    exact walk.nonneg valid.weight
  obtain ⟨path_dist, dest, farthest, greatest, isDest⟩ := farthestNode_spec soundF.distSize.ge nonneg
  -- the source has the distance 0, so there is a destination
  have sourceDist : (0 : ℚ) ≤ path_dist := greatest src isNode 0 soundF.labelling.source
  obtain ⟨-, missing⟩ | ⟨node, bound, rfl, isLabel⟩ := isDest
  · rw [missing] at sourceDist
    norm_num at sourceDist
  obtain ⟨path, count, back, fromNode⟩ := soundF.pathBack isNode valid isLabel fresh
  refine ⟨_, ?_, fromNode, fun isInTime => ⟨?_, ?_⟩⟩
  · have inRange : ¬ ((src : Int) < 0 ∨ (graph.numnodes : Int) < src) := by omega
    have isDest : ¬ (node : Int) = -1 := by omega
    unfold msGraphGetLongestShortestPath
    simp only [bind_eq_bind]
    rw [if_neg inRange, Int.toNat_natCast, output, bind_some, farthest, bind_some, if_neg isDest, back, bind_some]
  all_goals
    have shortest : ShortestPaths graph.edge src graph.numnodes final.output := by
      rw [soundF.shortest_iff_relaxed valid]
      exact fun u bound => inTime.mp (isInTime start begins) u bound (unsettled u)
  · exact ⟨node, (shortest.reached node bound path_dist isLabel).1⟩
  · rintro distance ⟨v, isLeast⟩
    obtain ⟨via, walk⟩ := isLeast.1
    have vBound : v < graph.numnodes := walk.all_nodes (P := (· < graph.numnodes)) isNode valid.dest v walk.mem
    cases isLabel : final.output.dist.get v with
    | top => exact absurd walk ((shortest.unreached v vBound).mp isLabel _ _)
    | coe known =>
      rw [isLeast.unique (shortest.reached v vBound known isLabel).1]
      exact greatest v vBound known isLabel

/-- A source equal to the number of nodes passes the check. All other sources give a path inside of the graph, which is a longest
one if no edge comes late in the search. -/
theorem msGraphGetLongestShortestPath_finds (toInt : ℚ → Int) (fresh : Nat → Int) (numnodes : Nat) (isGraph : 0 < numnodes)
    (edges : List GraphEdge) (inside : ∀ edge ∈ edges, edge.1 < numnodes ∧ edge.2.1 < numnodes)
    (nonneg : ∀ edge ∈ edges, 0 ≤ edge.2.2) (src : Int) :
    ∃ graph, (msCreateGraph numnodes).bind (addEdges · edges) = some graph ∧
      (findsPath (joined edges) numnodes src (msGraphGetLongestShortestPath toInt fresh (some graph) src) ↔ src ≠ numnodes) ∧
      (src ≠ numnodes → (∀ node < numnodes, src = node → searchesInTime toInt graph node) →
        findsLongest (joined edges) numnodes src (msGraphGetLongestShortestPath toInt fresh (some graph) src)) := by
  obtain ⟨graph, build, number, valid, edge⟩ := addEdges_valid numnodes isGraph edges inside nonneg
  subst number
  refine ⟨graph, build, ?_, ?_⟩
  all_goals rw [← edge]
  · constructor
    · rintro ⟨found, run, -⟩ rfl
      have inRange : ¬ ((graph.numnodes : Int) < 0 ∨ (graph.numnodes : Int) < graph.numnodes) := by omega
      unfold msGraphGetLongestShortestPath dijkstra at run
      simp only [Option.bind_eq_bind] at run
      rw [if_neg inRange, Int.toNat_natCast, startSearch_outside] at run
      cases run
    · intro notNumber
      by_cases isNode : 0 ≤ src ∧ src < graph.numnodes
      · obtain ⟨node, rfl⟩ := Int.eq_ofNat_of_zero_le isNode.1
        obtain ⟨longest, run, fromNode, -⟩ := @msGraphGetLongestShortestPath_node toInt graph valid node (by omega) fresh
        refine ⟨some longest, run, ?_⟩
        intro other member
        obtain rfl := Option.mem_some_iff.mp member
        exact ⟨node, by omega, rfl, fromNode⟩
      · have refused : src < 0 ∨ (graph.numnodes : Int) < src := by omega
        exact ⟨none, if_pos refused, nofun⟩
  · intro notNumber inTime
    by_cases isNode : 0 ≤ src ∧ src < graph.numnodes
    · obtain ⟨node, rfl⟩ := Int.eq_ofNat_of_zero_le isNode.1
      have bound : node < graph.numnodes := by omega
      obtain ⟨longest, run, fromNode, isGreatest⟩ := msGraphGetLongestShortestPath_node valid bound fresh
      refine ⟨some longest, run, ?_⟩
      intro other member
      obtain rfl := Option.mem_some_iff.mp member
      exact ⟨node, bound, rfl, fromNode, isGreatest (inTime node bound rfl)⟩
    · have refused : src < 0 ∨ (graph.numnodes : Int) < src := by omega
      exact ⟨none, if_pos refused, nofun⟩

theorem msGraphGetLongestShortestPath_finds_triangle :
    ∃ graph, (msCreateGraph 3).bind (addEdges · [(0, 1, 1), (0, 2, 3), (1, 2, 1)]) = some graph ∧
      findsLongest (joined [(0, 1, 1), (0, 2, 3), (1, 2, 1)]) 3 0 (msGraphGetLongestShortestPath Int.floor (fun _ => 0) (some graph) 0) := by
  obtain ⟨graph, build, -, finds⟩ := msGraphGetLongestShortestPath_finds Int.floor (fun _ => 0) 3 (by decide)
    [(0, 1, 1), (0, 2, 3), (1, 2, 1)] (by decide) (by decide) 0
  obtain ⟨same, build', number, valid, edge⟩ := addEdges_valid 3 (by decide) [(0, 1, 1), (0, 2, 3), (1, 2, 1)] (by decide) (by decide)
  obtain rfl : same = graph := Option.some.inj (build'.symm.trans build)
  refine ⟨same, build, finds (by decide) fun node bound isSource => ?_⟩
  obtain rfl : node = 0 := by omega
  refine searchesInTime_of_wholeSteps (fun _ _ _ => rfl) valid (number ▸ Nat.succ_pos 2) (edge ▸ wholeSteps_triangle)

theorem msGraphGetLongestShortestPath_fails :
    ∃ graph, (msCreateGraph 1).bind (addEdges · []) = some graph ∧
      ¬ findsLongest (joined []) 1 1 (msGraphGetLongestShortestPath Int.floor (fun _ => 0) (some graph) 1) := by
  refine ⟨{ numnodes := 1, head := { size := 1, get := fun _ => [] } }, rfl, ?_⟩
  rintro ⟨found, run, -⟩
  cases run

end MapServer
