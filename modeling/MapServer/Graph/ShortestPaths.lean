import MapServer.Graph.SearchSteps
import Mathlib.Data.Rat.Floor

namespace MapServer
open Lib Lib.BinaryHeap Lib.ShortestPaths

variable {toInt : ℚ → Int} {graph : GraphObj} {src n : Nat} {search after : Search}

section Extraction
variable {root : MinHeapNodeObj} {minHeap : MinHeapObj} (extracted : Extracted n root search.minHeap minHeap)
include extracted

theorem settled_extracted (v : Nat) :
    ({ search with minHeap } : Search).settled n v ↔ search.settled n v ∨ v = root.idx := by
  unfold Search.settled
  by_cases isRoot : v = root.idx
  · refine iff_of_true ?_ (.inr isRoot)
    rw [isRoot]
    exact ⟨extracted.bound, extracted.last.ge⟩
  · rw [or_iff_left isRoot]
    refine and_congr_right fun bound => ?_
    rw [← not_lt, ← not_lt, extracted.members v bound isRoot]

theorem sound_extracted (sound : Sound toInt graph src search) (isNumnodes : graph.numnodes = n)
    (indexed : Indexed n minHeap.size minHeap) : Sound toInt graph src { search with minHeap } := by
  subst isNumnodes
  have size := extracted.size
  have settled := settled_extracted extracted
  have stays (u : Nat) (isSettled : search.settled graph.numnodes u) :
      ({ search with minHeap } : Search).rank graph.numnodes u = search.rank graph.numnodes u := by
    rw [rank_of_settled ((settled u).mpr (.inl isSettled)), rank_of_settled isSettled]
    exact congrArg (graph.numnodes - ·) (extracted.gone u isSettled.1 isSettled.2)
  refine ⟨indexed, sound.distSize, sound.prevSize, sound.outside, sound.source, ?_, ?_⟩
  · refine sound.labelling.settle (fun u isSettled => (settled u).mpr (.inl isSettled)) stays fun u v isSettled lower => ?_
    by_cases isRoot : v = root.idx
    · rw [rank_of_settled ((settled v).mpr (.inr isRoot)), rank_of_settled isSettled, isRoot]
      have room := sound.indexed.room
      have last := extracted.last
      have out := isSettled.2
      dsimp only
      omega
    · by_cases isSettledV : search.settled graph.numnodes v
      · rwa [stays v isSettledV]
      · have unsettled : ¬ ({ search with minHeap } : Search).settled graph.numnodes v := fun here =>
          ((settled v).mp here).elim isSettledV isRoot
        rwa [rank_of_not_settled unsettled, ← rank_of_not_settled isSettledV]
  · intro v bound here
    have other : v ≠ root.idx := by
      rintro rfl
      exact absurd here (not_lt.mpr extracted.last.ge)
    have inside := (extracted.members v bound other).mp here
    exact (extracted.keys v bound other inside).trans (sound.keys v bound inside)

end Extraction

def settlesInTime (toInt : ℚ → Int) (graph : GraphObj) : Nat → Search → Prop
  | 0, _ => True
  | turns + 1, search =>
    ∀ root minHeap, extractMin search.minHeap = some (root, minHeap) →
      scansInTime toInt root.idx (graph.head.get root.idx) { search with minHeap } ∧
        ∀ next ∈ settleNode toInt graph search, settlesInTime toInt graph turns next

/-- What a turn does: the node `u` leaves the heap and its edges are scanned. -/
structure Settles (toInt : ℚ → Int) (graph : GraphObj) (src u : Nat) (before after : Search) : Prop where
  sound : Sound toInt graph src after
  size : after.minHeap.size + 1 = before.minHeap.size
  bound : u < graph.numnodes
  unsettled : ¬ before.settled graph.numnodes u
  settled : ∀ v, after.settled graph.numnodes v ↔ before.settled graph.numnodes v ∨ v = u
  later : Later graph.numnodes before after
  label : after.label u = before.label u
  relaxed : ∀ v weight, graph.edge u v weight → ¬ after.settled graph.numnodes v → after.label v ≤ after.label u + weight
  least : Ordered before.minHeap.size before.minHeap.key → ∀ v < graph.numnodes, ¬ before.settled graph.numnodes v →
    keyed toInt (before.label u) ≤ keyed toInt (before.label v)
  ordered : KeepsOrder toInt graph src → Ordered before.minHeap.size before.minHeap.key →
    Ordered after.minHeap.size after.minHeap.key

theorem settleNode_spec (valid : graph.Valid) (sound : Sound toInt graph src search) (some_ : search.minHeap.size ≠ 0) :
    ∃ root minHeap after, extractMin search.minHeap = some (root, minHeap) ∧ settleNode toInt graph search = some after ∧
      Settles toInt graph src root.idx search after ∧
      ∀ final, Later graph.numnodes after final →
        (scansInTime toInt root.idx (graph.head.get root.idx) { search with minHeap } ↔
          ∀ node ∈ graph.head.get root.idx, final.label node.dest ≤ final.label root.idx + node.weight) := by
  obtain ⟨root, minHeap, extracts, indexed, extracted⟩ := extractMin_spec sound.indexed some_
  have settled := settled_extracted extracted
  have soundE := sound_extracted extracted sound rfl indexed
  have bound := extracted.bound
  have inHeap : search.minHeap.pos.get root.idx < search.minHeap.size := by
    rw [extracted.first]
    exact Nat.pos_of_ne_zero some_
  obtain ⟨after, runs, soundA, scanned, relaxed, inTime, order⟩ :=
    scanNodes_spec valid soundE ((settled root.idx).mpr (.inr rfl)) (graph.head.get root.idx) fun _ => id
  have first : Later graph.numnodes search { search with minHeap } :=
    ⟨fun v isSettled => (settled v).mpr (.inl isSettled), fun _ _ => rfl, fun _ => le_rfl⟩
  refine ⟨root, minHeap, after, extracts, ?_, ?_, inTime⟩
  · unfold settleNode
    rw [extracts]
    simp only [Option.bind_eq_bind, Option.bind_some]
    rw [Slots.load_eq (valid.headSize ▸ bound), Option.bind_some, runs]
  · have sameLabel := scanned.kept root.idx ((settled root.idx).mpr (.inr rfl))
    refine ⟨soundA, by rw [scanned.size, extracted.size], bound, fun out => absurd inHeap (not_lt.mpr out.2), ?_,
      first.trans scanned.later, sameLabel, ?_, ?_, ?_⟩
    · intro v
      rw [scanned.settled]
      exact settled v
    · intro v weight isEdge unsettled
      rw [scanned.settled] at unsettled
      rw [sameLabel]
      exact relaxed _ isEdge.2 unsettled
    · intro ordered v vBound unsettled
      have here : search.minHeap.pos.get v < search.minHeap.size := not_le.mp fun out => unsettled ⟨vBound, out⟩
      have key := ordered.root_le here
      rw [← sound.keys v vBound here, ← sound.keys root.idx bound inHeap, MinHeapObj.keyOf, extracted.first]
      exact key
    · intro keeps ordered
      exact order keeps (extracted.ordered ordered)

def Search.relaxed (graph : GraphObj) (search : Search) : Prop :=
  ∀ u v weight, search.settled graph.numnodes u → ¬ search.settled graph.numnodes v → graph.edge u v weight →
    search.label v ≤ search.label u + weight

def Search.exact (graph : GraphObj) (src : Nat) (search : Search) : Prop :=
  ∀ u, search.settled graph.numnodes u → ∀ via (length : ℚ), Walk graph.edge src u via length → search.label u ≤ length

/-- Where a walk is shorter than one that goes through no node twice to the same node, it has fewer whole units. -/
structure WholeSteps (edge : Nat → Nat → ℚ → Prop) (src : Nat) : Prop where
  range : ∀ v via (length : ℚ), Walk edge src v via length → via.Nodup → length < 2147483648
  apart : ∀ v via (length : ℚ), Walk edge src v via length → via.Nodup → ∀ other (shorter : ℚ), Walk edge src v other shorter →
    shorter < length → ⌊shorter⌋ < ⌊length⌋

variable (truncates : ∀ d : ℚ, 0 ≤ d → d < 2147483648 → toInt d = ⌊d⌋) (whole : WholeSteps graph.edge src)
include truncates whole

theorem Sound.toInt_eq (valid : graph.Valid) (sound : Sound toInt graph src search) {v : Nat} {dist : ℚ}
    (isLabel : search.label v = dist) : toInt dist = ⌊dist⌋ := by
  obtain ⟨via, walk, simple, -⟩ := sound.labelling.walk isLabel
  exact truncates dist (walk.nonneg valid.weight) (whole.range v via dist walk simple)

theorem WholeSteps.keepsOrder (valid : graph.Valid) : KeepsOrder toInt graph src := by
  rintro a b ⟨v, via, walk, simple⟩ ⟨w, other, walk', simple'⟩ less
  rw [truncates a (walk.nonneg valid.weight) (whole.range v via a walk simple),
    truncates b (walk'.nonneg valid.weight) (whole.range w other b walk' simple')]
  exact Int.floor_le_floor less.le

theorem Settles.label_le (valid : graph.Valid) (sound : Sound toInt graph src search) {u : Nat}
    (settles : Settles toInt graph src u search after) (ordered : Ordered search.minHeap.size search.minHeap.key)
    (relaxed : search.relaxed graph) (exact_ : search.exact graph src) {via : List Nat} {length : ℚ}
    (walk : Walk graph.edge src u via length) : search.label u ≤ length := by
  by_contra longer
  obtain ⟨y, unsettled, bound⟩ := walk.frontier sound.labelling.source exact_ relaxed valid.weight settles.unsettled
  obtain ⟨distY, isY, short⟩ := WithTop.le_coe_iff.mp bound
  have inside : y < graph.numnodes := by
    by_contra out
    rw [sound.outside y (not_lt.mp out)] at isY
    exact WithTop.top_ne_coe isY
  have least := settles.least ordered y inside unsettled
  rw [isY] at least
  cases isLabel : search.label u with
  | top =>
    rw [isLabel] at least
    exact WithTop.coe_ne_top (top_le_iff.mp least)
  | coe dist =>
    rw [isLabel] at least longer
    obtain ⟨other, walk', simple, -⟩ := sound.labelling.walk isLabel
    have shorter : length < dist := not_le.mp fun less => longer (WithTop.coe_le_coe.mpr less)
    have fewer := whole.apart u other dist walk' simple via length walk shorter
    have keys : ((toInt dist : ℚ) : WithTop ℚ) ≤ ((toInt distY : ℚ) : WithTop ℚ) := least
    rw [WithTop.coe_le_coe, Int.cast_le, sound.toInt_eq truncates whole valid isLabel,
      sound.toInt_eq truncates whole valid isY] at keys
    exact absurd (keys.trans (Int.floor_le_floor short)) (not_le.mpr fewer)

omit truncates whole in
theorem Settles.relaxed_after {u : Nat} (settles : Settles toInt graph src u search after) (relaxed : search.relaxed graph) :
    after.relaxed graph := by
  intro x v weight isSettled unsettled isEdge
  rcases (settles.settled x).mp isSettled with earlier | rfl
  · have unsettledB : ¬ search.settled graph.numnodes v := fun here => unsettled (settles.later.settled v here)
    rw [settles.later.kept x earlier]
    exact (settles.later.label v).trans (relaxed x v weight earlier unsettledB isEdge)
  · exact settles.relaxed v weight isEdge unsettled

theorem Settles.exact_after (valid : graph.Valid) (sound : Sound toInt graph src search) {u : Nat}
    (settles : Settles toInt graph src u search after) (ordered : Ordered search.minHeap.size search.minHeap.key)
    (relaxed : search.relaxed graph) (exact_ : search.exact graph src) : after.exact graph src := by
  intro x isSettled via length walk
  rcases (settles.settled x).mp isSettled with earlier | rfl
  · rw [settles.later.kept x earlier]
    exact exact_ x earlier via length walk
  · rw [settles.label]
    exact settles.label_le truncates whole valid sound ordered relaxed exact_ walk

omit truncates whole in
theorem settleNodes_spec (valid : graph.Valid) {turns : Nat} (sound : Sound toInt graph src search)
    (enough : search.minHeap.size ≤ turns) :
    ∃ final, settleNodes toInt graph turns search = some final ∧ Sound toInt graph src final ∧ final.minHeap.size = 0 ∧
      Later graph.numnodes search final ∧
      (settlesInTime toInt graph turns search ↔ ∀ u < graph.numnodes, ¬ search.settled graph.numnodes u →
        ∀ node ∈ graph.head.get u, final.label node.dest ≤ final.label u + node.weight) ∧
      ((∀ d : ℚ, 0 ≤ d → d < 2147483648 → toInt d = ⌊d⌋) → WholeSteps graph.edge src →
        Ordered search.minHeap.size search.minHeap.key → search.relaxed graph → search.exact graph src → final.exact graph src) := by
  have stop (empty : search.minHeap.size = 0) (u : Nat) (bound : u < graph.numnodes) : search.settled graph.numnodes u :=
    ⟨bound, empty ▸ Nat.zero_le _⟩
  have done (empty : search.minHeap.size = 0) : extractMin search.minHeap = none := if_pos empty
  have here : Later graph.numnodes search search := ⟨fun _ => id, fun _ _ => rfl, fun _ => le_rfl⟩
  induction turns generalizing search with
  | zero =>
    have empty := Nat.le_zero.mp enough
    refine ⟨search, if_pos empty, sound, empty, here, ?_, fun _ _ _ _ exact_ => exact_⟩
    exact iff_of_true trivial fun u bound unsettled => absurd (stop empty u bound) unsettled
  | succ turns ih =>
    by_cases empty : search.minHeap.size = 0
    · refine ⟨search, if_pos empty, sound, empty, here, ?_, fun _ _ _ _ exact_ => exact_⟩
      refine iff_of_true ?_ fun u bound unsettled => absurd (stop empty u bound) unsettled
      intro root minHeap extracts
      rw [done empty] at extracts
      cases extracts
    · obtain ⟨root, minHeap, next, extracts, run, settles, inTime⟩ := settleNode_spec valid sound empty
      have size := settles.size
      obtain ⟨final, runs, soundF, emptyF, later, rest, exactF⟩ := ih settles.sound (by omega)
        (fun empty u bound => ⟨bound, empty ▸ Nat.zero_le _⟩) (fun empty => if_pos empty)
        ⟨fun _ => id, fun _ _ => rfl, fun _ => le_rfl⟩
      refine ⟨final, ?_, soundF, emptyF, settles.later.trans later, ?_, ?_⟩
      · rw [settleNodes, if_neg empty, run]
        exact runs
      · have unfolded : settlesInTime toInt graph (turns + 1) search ↔
            scansInTime toInt root.idx (graph.head.get root.idx) { search with minHeap } ∧ settlesInTime toInt graph turns next := by
          rw [settlesInTime, extracts, run]
          constructor
          · intro all
            exact (all root minHeap rfl).imp_right fun each => each next rfl
          · rintro both _ _ ⟨⟩
            exact both.imp_right fun each _ isNext => Option.some.inj isNext ▸ each
        rw [unfolded, inTime final later, rest]
        constructor
        · rintro ⟨first, others⟩ u bound unsettled
          by_cases isRoot : u = root.idx
          · rw [isRoot]
            exact first
          · exact others u bound fun isSettled => ((settles.settled u).mp isSettled).elim unsettled isRoot
        · intro all
          refine ⟨all root.idx settles.bound settles.unsettled, fun u bound unsettled => all u bound fun isSettled => ?_⟩
          exact unsettled (settles.later.settled u isSettled)
      · intro truncates whole ordered relaxed exact_
        exact exactF truncates whole (settles.ordered (whole.keepsOrder truncates valid) ordered) (settles.relaxed_after relaxed)
          (settles.exact_after truncates whole valid sound ordered relaxed exact_)

end MapServer

namespace MapServer
open Lib Lib.BinaryHeap Lib.ShortestPaths

variable {toInt : ℚ → Int} {graph : GraphObj} {src n : Nat}

abbrev GraphEdge := Nat × Nat × ℚ

def addEdges (graph : GraphObj) (edges : List GraphEdge) : Option GraphObj :=
  edges.foldlM (fun graph edge => msGraphAddEdge graph edge.1 edge.2.1 edge.2.2) graph

def joined (edges : List GraphEdge) (u v : Nat) (weight : ℚ) : Prop := (u, v, weight) ∈ edges ∨ (v, u, weight) ∈ edges

theorem msGraphAddEdge_spec {dest : Nat} (weight : ℚ) (srcInside : src < graph.head.size) (destInside : dest < graph.head.size) :
    ∃ after, msGraphAddEdge graph src dest weight = some after ∧ after.numnodes = graph.numnodes ∧
      after.head.size = graph.head.size ∧
      ∀ u node, node ∈ after.head.get u ↔
        u = src ∧ node = { dest, weight } ∨ u = dest ∧ node = { dest := src, weight } ∨ node ∈ graph.head.get u := by
  unfold msGraphAddEdge
  simp only [Option.bind_eq_bind]
  rw [Slots.load_eq srcInside, Option.bind_some, Slots.store_eq srcInside, Option.bind_some, Slots.load_eq (by exact destInside),
    Option.bind_some, Slots.store_eq (by exact destInside), Option.bind_some]
  refine ⟨_, rfl, rfl, rfl, fun u node => ?_⟩
  by_cases isDest : u = dest <;> by_cases isSrc : u = src <;> grind

theorem addEdges_spec (graph : GraphObj) (edges : List GraphEdge) (inside : ∀ edge ∈ edges, edge.1 < graph.head.size ∧ edge.2.1 < graph.head.size) :
    ∃ after, addEdges graph edges = some after ∧ after.numnodes = graph.numnodes ∧ after.head.size = graph.head.size ∧
      ∀ u node, node ∈ after.head.get u ↔ joined edges u node.dest node.weight ∨ node ∈ graph.head.get u := by
  induction edges generalizing graph with
  | nil => exact ⟨graph, rfl, rfl, rfl, by simp [joined]⟩
  | cons edge edges ih =>
    rw [List.forall_mem_cons] at inside
    obtain ⟨next, run, number, size, nodes⟩ := msGraphAddEdge_spec edge.2.2 inside.1.1 inside.1.2
    obtain ⟨after, runs, numberA, sizeA, nodesA⟩ := ih next (size ▸ inside.2)
    refine ⟨after, ?_, numberA.trans number, sizeA.trans size, fun u node => ?_⟩
    · unfold addEdges at runs ⊢
      rw [List.foldlM_cons, run]
      exact runs
    · rw [nodesA, nodes]
      unfold joined
      obtain ⟨dest, nodeWeight⟩ := node
      grind

theorem addEdges_valid (numnodes : Nat) (some_ : 0 < numnodes) (edges : List GraphEdge)
    (inside : ∀ edge ∈ edges, edge.1 < numnodes ∧ edge.2.1 < numnodes) (nonneg : ∀ edge ∈ edges, 0 ≤ edge.2.2) :
    ∃ graph, (msCreateGraph numnodes).bind (addEdges · edges) = some graph ∧ graph.numnodes = numnodes ∧ graph.Valid ∧
      graph.edge = joined edges := by
  have notNone : ¬ ((numnodes : Int) ≤ 0) := by omega
  obtain ⟨graph, run, number, size, nodes⟩ := addEdges_spec
    { numnodes := numnodes, head := { size := numnodes, get := fun _ => [] } } edges inside
  have edge : graph.edge = joined edges := by
    funext u v weight
    rw [GraphObj.edge, nodes, number, or_iff_left List.not_mem_nil]
    refine propext (and_iff_right_of_imp fun isJoined => ?_)
    rcases isJoined with forth | back
    · exact (inside _ forth).1
    · exact (inside _ back).2
  refine ⟨graph, ?_, number, ⟨size.trans number.symm, ?_, ?_⟩, edge⟩
  · rw [msCreateGraph, if_neg notNone, Option.bind_some]
    exact run
  · rw [edge, number]
    rintro u v weight (forth | back)
    · exact (inside _ forth).2
    · exact (inside _ back).1
  · rw [edge]
    rintro u v weight (forth | back)
    · exact nonneg _ forth
    · exact nonneg _ back

def Search.first (n src : Nat) (minHeap : MinHeapObj) : Search where
  minHeap := { minHeap with size := n }
  output := { dist := { size := n, get := Function.update (fun _ => ⊤) src 0 }, prev := { size := n, get := fun _ => -1 } }

theorem label_first (n src : Nat) (minHeap : MinHeapObj) :
    (Search.first n src minHeap).label = Function.update (fun _ => ⊤) src 0 := rfl

theorem startSearch_spec (toInt : ℚ → Int) (inside : src < graph.numnodes) :
    ∃ search, startSearch toInt graph src = some search ∧ Sound toInt graph src search ∧
      search.minHeap.size = graph.numnodes ∧ (∀ v, ¬ search.settled graph.numnodes v) ∧
      Ordered search.minHeap.size search.minHeap.key := by
  obtain ⟨start, isStart⟩ : ∃ start : MinHeapObj, start =
    { size := 0, pos := { size := graph.numnodes, get := id }, nodes := { size := graph.numnodes, get := fun i => ⟨i, ⊤⟩ } } :=
    ⟨_, rfl⟩
  have pos (v : Nat) : start.pos.get v = v := by
    rw [isStart]
    rfl
  have key (v : Nat) : start.key v = ⊤ := by
    rw [isStart]
    rfl
  have indexed : Indexed graph.numnodes graph.numnodes start := by
    rw [isStart]
    exact ⟨rfl, rfl, le_rfl, fun _ => id, fun _ _ => rfl, fun _ _ _ => rfl⟩
  obtain ⟨minHeap, run, indexedA, decreased⟩ := decreaseKey_spec toInt indexed inside ((pos src).trans_lt inside) 0
  have members (v : Nat) (bound : v < graph.numnodes) : minHeap.pos.get v < graph.numnodes :=
    (decreased.members v bound).mpr ((pos v).trans_lt bound)
  have unsettled (v : Nat) : ¬ (v < graph.numnodes ∧ graph.numnodes ≤ minHeap.pos.get v) := fun both =>
    absurd (members v both.1) (not_lt.mpr both.2)
  refine ⟨.first graph.numnodes src minHeap, ?_, ?_, rfl, unsettled, ?_⟩
  · have placed : Function.update (id : Nat → Nat) src src = id := Function.update_eq_self src id
    unfold startSearch
    simp only [Option.bind_eq_bind]
    rw [Slots.store_eq (by exact inside), Option.bind_some, placed, Slots.store_eq (by exact inside), Option.bind_some, ← isStart, run]
    rfl
  · refine ⟨⟨indexedA.posSize, indexedA.nodesSize, indexedA.room, indexedA.idx, indexedA.placed, indexedA.found⟩, rfl, rfl, ?_, rfl,
      ⟨?_, ?_⟩, ?_⟩
    · intro v out
      rw [label_first, Function.update_of_ne (inside.trans_le out).ne']
    · rw [label_first, Function.update_self]
    · intro v length isLabel notSource
      rw [label_first, Function.update_of_ne notSource] at isLabel
      exact absurd isLabel WithTop.top_ne_coe
    · intro v bound _
      rw [label_first]
      by_cases isSource : v = src
      · rw [isSource, Function.update_self]
        exact decreased.keyOf
      · rw [Function.update_of_ne isSource]
        exact (decreased.others v bound ((pos v).trans_lt bound) isSource).trans (key _)
  · apply decreased.ordered
    · intro i _ _
      rw [key, key]
    · exact le_top.trans_eq (key _).symm

structure ShortestPaths (edge : Nat → Nat → ℚ → Prop) (src n : Nat) (output : DijkstraOutputObj) : Prop where
  reached : ∀ v < n, ∀ dist : ℚ, output.dist.get v = dist →
    IsLeast {length | ∃ via, Walk edge src v via length} dist ∧ Traced edge src (fun v u => output.prev.get v = (u : Int)) v dist
  unreached : ∀ v < n, output.dist.get v = ⊤ ↔ ∀ via length, ¬ Walk edge src v via length
  source : output.prev.get src = -1

def searchesInTime (toInt : ℚ → Int) (graph : GraphObj) (src : Nat) : Prop :=
  ∀ search ∈ startSearch toInt graph src, settlesInTime toInt graph graph.numnodes search

theorem Sound.shortest_iff {search : Search} (sound : Sound toInt graph src search) :
    ShortestPaths graph.edge src graph.numnodes search.output ↔
      ∀ v < graph.numnodes, ∀ via (length : ℚ), Walk graph.edge src v via length → search.label v ≤ length := by
  constructor
  · intro shortest v bound via length walk
    cases isLabel : search.label v with
    | top => exact absurd walk ((shortest.unreached v bound).mp isLabel via length)
    | coe dist => exact WithTop.coe_le_coe.mpr ((shortest.reached v bound dist isLabel).1.2 ⟨via, walk⟩)
  · intro least
    refine ⟨?_, ?_, sound.source⟩
    · intro v bound dist isLabel
      obtain ⟨via, walk, -, -⟩ := sound.labelling.walk isLabel
      refine ⟨⟨⟨via, walk⟩, ?_⟩, sound.labelling.traced isLabel⟩
      rintro length ⟨other, walk'⟩
      exact WithTop.coe_le_coe.mp (isLabel ▸ least v bound other length walk')
    · intro v bound
      constructor
      · intro far via length walk
        have short := least v bound via length walk
        rw [show search.label v = ⊤ from far] at short
        exact WithTop.coe_ne_top (top_le_iff.mp short)
      · intro none
        cases isLabel : search.label v with
        | top => exact isLabel
        | coe dist =>
          obtain ⟨via, walk, -, -⟩ := sound.labelling.walk isLabel
          exact absurd walk (none via dist)

theorem Sound.shortest_iff_relaxed {search : Search} (valid : graph.Valid) (sound : Sound toInt graph src search) :
    ShortestPaths graph.edge src graph.numnodes search.output ↔
      ∀ u < graph.numnodes, ∀ node ∈ graph.head.get u, search.label node.dest ≤ search.label u + node.weight := by
  rw [sound.shortest_iff]
  constructor
  · intro least u bound node member
    have isEdge : graph.edge u node.dest node.weight := ⟨bound, member⟩
    cases isLabel : search.label u with
    | top => exact le_top
    | coe dist =>
      obtain ⟨via, walk, -, -⟩ := sound.labelling.walk isLabel
      exact least node.dest (valid.dest _ _ _ isEdge) _ _ (.step walk isEdge)
  · intro relaxed v bound via length walk
    exact walk.label_le sound.labelling.source fun u v weight isEdge => relaxed u isEdge.1 _ isEdge.2

theorem wholeSteps_of_whole (most : ℚ) {edges : List GraphEdge} (inside : ∀ edge ∈ edges, edge.1 < n ∧ edge.2.1 < n)
    (isNode : src < n) (whole : ∀ edge ∈ edges, (∃ units : ℤ, edge.2.2 = units) ∧ edge.2.2 ≤ most) (notNegative : 0 ≤ most)
    (few : n * most < 2147483648) : WholeSteps (joined edges) src := by
  have weights (u v : Nat) (weight : ℚ) (isEdge : joined edges u v weight) :
      v < n ∧ (∃ units : ℤ, weight = units) ∧ weight ≤ most := by
    rcases isEdge with forth | back
    · exact ⟨(inside _ forth).2, whole _ forth⟩
    · exact ⟨(inside _ back).1, whole _ back⟩
  have units {v : Nat} {via : List Nat} {length : ℚ} (walk : Walk (joined edges) src v via length) : ∃ units : ℤ, length = units := by
    induction walk with
    | start => exact ⟨0, by simp⟩
    | step _ isEdge ih =>
      obtain ⟨first, rfl⟩ := ih
      obtain ⟨second, rfl⟩ := (weights _ _ _ isEdge).2.1
      exact ⟨first + second, by push_cast; rfl⟩
  constructor
  · intro v via length walk simple
    have nodes : ∀ u ∈ via, u < n := walk.all_nodes isNode fun u v weight isEdge => (weights u v weight isEdge).1
    have steps : via.length ≤ n := by
      have fits := (List.subperm_of_subset simple fun u member => List.mem_range.mpr (nodes u member)).length_le
      rwa [List.length_range] at fits
    have bound := walk.length_le fun u v weight isEdge => (weights u v weight isEdge).2.2
    rw [nsmul_eq_mul] at bound
    have all : (via.length : ℚ) * most ≤ n * most := mul_le_mul_of_nonneg_right (Nat.cast_le.mpr steps) notNegative
    linarith
  · intro v via length walk _ other shorter walk' less
    obtain ⟨a, rfl⟩ := units walk
    obtain ⟨b, rfl⟩ := units walk'
    rw [Int.floor_intCast, Int.floor_intCast]
    exact Int.cast_lt.mp less

theorem wholeSteps_triangle : WholeSteps (joined [(0, 1, 1), (0, 2, 3), (1, 2, 1)]) 0 := by
  refine wholeSteps_of_whole (n := 3) 3 (by decide) (by decide) ?_ ?_ ?_
  · intro edge member
    simp only [List.mem_cons, List.not_mem_nil, or_false] at member
    rcases member with rfl | rfl | rfl
    · exact ⟨⟨1, by simp⟩, by norm_num⟩
    · exact ⟨⟨3, by simp⟩, by norm_num⟩
    · exact ⟨⟨1, by simp⟩, by norm_num⟩
  · norm_num
  · norm_num

theorem searchesInTime_of_wholeSteps (truncates : ∀ d : ℚ, 0 ≤ d → d < 2147483648 → toInt d = ⌊d⌋) (valid : graph.Valid)
    (isNode : src < graph.numnodes) (whole : WholeSteps graph.edge src) : searchesInTime toInt graph src := by
  obtain ⟨start, begins, sound, size, unsettled, ordered⟩ := startSearch_spec toInt isNode
  obtain ⟨final, -, soundF, empty, -, inTime, exactF⟩ := settleNodes_spec valid sound size.le
  rw [searchesInTime, begins]
  simp only [Option.mem_some_iff, forall_eq']
  rw [inTime]
  refine fun u bound _ => (soundF.shortest_iff_relaxed valid).mp (soundF.shortest_iff.mpr ?_) u bound
  intro v bound
  refine exactF truncates whole ordered ?_ ?_ v ⟨bound, empty ▸ Nat.zero_le _⟩
  · intro u _ _ isSettled
    exact absurd isSettled (unsettled u)
  · intro u isSettled
    exact absurd isSettled (unsettled u)

/-- `dijkstra` finds the shortest paths exactly if no edge comes late. It does where the lengths of walks to a node differ by
whole units. -/
theorem dijkstra_shortest_iff (toInt : ℚ → Int) (truncates : ∀ d : ℚ, 0 ≤ d → d < 2147483648 → toInt d = ⌊d⌋) (numnodes : Nat)
    (edges : List GraphEdge) (inside : ∀ edge ∈ edges, edge.1 < numnodes ∧ edge.2.1 < numnodes)
    (nonneg : ∀ edge ∈ edges, 0 ≤ edge.2.2) (src : Nat) (isNode : src < numnodes) :
    ∃ graph output, (msCreateGraph numnodes).bind (addEdges · edges) = some graph ∧ dijkstra toInt graph src = some output ∧
      (ShortestPaths (joined edges) src numnodes output ↔ searchesInTime toInt graph src) ∧
      (WholeSteps (joined edges) src → ShortestPaths (joined edges) src numnodes output) := by
  obtain ⟨graph, build, number, valid, edge⟩ := addEdges_valid numnodes (Nat.zero_lt_of_lt isNode) edges inside nonneg
  subst number
  obtain ⟨start, begins, sound, size, unsettled, -⟩ := startSearch_spec toInt isNode
  obtain ⟨final, runs, soundF, -, -, inTime, -⟩ := settleNodes_spec valid sound size.le
  have shortest_iff : ShortestPaths (joined edges) src graph.numnodes final.output ↔ searchesInTime toInt graph src := by
    rw [← edge, soundF.shortest_iff_relaxed valid, searchesInTime, begins]
    simp only [Option.mem_some_iff, forall_eq']
    rw [inTime]
    exact forall₂_congr fun u _ => ⟨fun all _ => all, fun all => all (unsettled u)⟩
  refine ⟨graph, final.output, build, ?_, shortest_iff, ?_⟩
  · unfold dijkstra
    rw [begins]
    simp only [Option.bind_eq_bind, Option.bind_some]
    rw [runs, Option.bind_some]
  · intro whole
    rw [← edge] at whole
    exact shortest_iff.mpr (searchesInTime_of_wholeSteps truncates valid isNode whole)

theorem dijkstra_shortest_triangle :
    ∃ graph output, (msCreateGraph 3).bind (addEdges · [(0, 1, 1), (0, 2, 3), (1, 2, 1)]) = some graph ∧
      dijkstra Int.floor graph 0 = some output ∧ ShortestPaths (joined [(0, 1, 1), (0, 2, 3), (1, 2, 1)]) 0 3 output := by
  obtain ⟨graph, output, build, run, -, shortest⟩ := dijkstra_shortest_iff Int.floor (fun _ _ _ => rfl) 3
    [(0, 1, 1), (0, 2, 3), (1, 2, 1)] (by decide) (by decide) 0 (by decide)
  exact ⟨graph, output, build, run, shortest wholeSteps_triangle⟩

/-- The whole part of both distances is 0, and the longer one leaves the heap first. -/
theorem dijkstra_late_edge :
    ∃ graph output, (msCreateGraph 3).bind (addEdges · [(0, 1, 1 / 2), (0, 2, 9 / 10), (1, 2, 1 / 10)]) = some graph ∧
      dijkstra Int.floor graph 0 = some output ∧
      ¬ ShortestPaths (joined [(0, 1, 1 / 2), (0, 2, 9 / 10), (1, 2, 1 / 10)]) 0 3 output := by
  have late : (((msCreateGraph 3).bind (addEdges · [(0, 1, 1 / 2), (0, 2, 9 / 10), (1, 2, 1 / 10)])).bind fun graph =>
      (dijkstra Int.floor graph 0).map fun output => output.dist.get 2) = some ((9 / 10 : ℚ) : WithTop ℚ) := by decide +kernel
  obtain ⟨graph, build, late⟩ := Option.bind_eq_some_iff.mp late
  obtain ⟨output, run, isDist⟩ := Option.map_eq_some_iff.mp late
  refine ⟨graph, output, build, run, fun shortest => ?_⟩
  have least := (shortest.reached 2 (by decide) _ isDist).1.2
  have walk : Walk (joined [(0, 1, 1 / 2), (0, 2, 9 / 10), (1, 2, 1 / 10)]) 0 2 [2, 1, 0] ((0 : ℚ) + 1 / 2 + 1 / 10) :=
    .step (.step .start (.inl (by simp))) (.inl (by simp))
  have short : (9 / 10 : ℚ) ≤ 0 + 1 / 2 + 1 / 10 := least ⟨_, walk⟩
  norm_num at short

end MapServer
