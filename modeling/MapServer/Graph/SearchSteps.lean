import Mathlib.Tactic.Linarith
import MapServer.Graph.HeapOperations
import MapServer.Lib.ShortestPaths

namespace MapServer
open Lib Lib.BinaryHeap Lib.ShortestPaths List Option Function

def GraphObj.edge (graph : GraphObj) (u v : Nat) (weight : ℚ) : Prop :=
  u < graph.numnodes ∧ { dest := v, weight } ∈ graph.head.get u

structure GraphObj.Valid (graph : GraphObj) : Prop where
  headSize : graph.head.size = graph.numnodes
  dest : ∀ u v weight, graph.edge u v weight → v < graph.numnodes
  weight : ∀ u v weight, graph.edge u v weight → 0 ≤ weight

def Search.label (search : Search) : Nat → WithTop ℚ := search.output.dist.get

def Search.prev (search : Search) (v u : Nat) : Prop := search.output.prev.get v = u

def Search.settled (n : Nat) (search : Search) (v : Nat) : Prop := v < n ∧ search.minHeap.size ≤ search.minHeap.pos.get v

instance (n : Nat) (search : Search) (v : Nat) : Decidable (search.settled n v) :=
  inferInstanceAs (Decidable (v < n ∧ search.minHeap.size ≤ search.minHeap.pos.get v))

def Search.rank (n : Nat) (search : Search) (v : Nat) : Nat :=
  if search.settled n v then n - search.minHeap.pos.get v else n + 1

def keyed (toInt : ℚ → Int) (label : WithTop ℚ) : WithTop ℚ := label.map fun dist => (toInt dist : ℚ)

structure Sound (toInt : ℚ → Int) (graph : GraphObj) (src : Nat) (search : Search) : Prop where
  indexed : Indexed graph.numnodes search.minHeap.size search.minHeap
  distSize : search.output.dist.size = graph.numnodes
  prevSize : search.output.prev.size = graph.numnodes
  outside : ∀ v, graph.numnodes ≤ v → search.label v = ⊤
  source : search.output.prev.get src = -1
  labelling : Labelling graph.edge src (search.settled graph.numnodes) (search.rank graph.numnodes) search.prev search.label
  keys : ∀ v < graph.numnodes, search.minHeap.pos.get v < search.minHeap.size →
    search.minHeap.keyOf v = keyed toInt (search.label v)

structure Scanned (n : Nat) (before after : Search) : Prop where
  size : after.minHeap.size = before.minHeap.size
  settled : after.settled n = before.settled n
  rank : after.rank n = before.rank n
  kept : ∀ v, before.settled n v → after.label v = before.label v
  label : ∀ v, after.label v ≤ before.label v

variable {toInt : ℚ → Int} {graph : GraphObj} {src n : Nat} {search after : Search}

theorem rank_of_settled {v : Nat} (isSettled : search.settled n v) : search.rank n v = n - search.minHeap.pos.get v :=
  if_pos isSettled

theorem rank_of_not_settled {v : Nat} (unsettled : ¬ search.settled n v) : search.rank n v = n + 1 := if_neg unsettled

theorem rank_lt {u v : Nat} (isSettled : search.settled n u) (unsettled : ¬ search.settled n v) :
    search.rank n u < search.rank n v := by
  rw [rank_of_settled isSettled, rank_of_not_settled unsettled]
  omega

theorem Scanned.refl (n : Nat) (search : Search) : Scanned n search search :=
  ⟨rfl, rfl, rfl, fun _ _ => rfl, fun _ => le_rfl⟩

theorem Scanned.trans {middle : Search} (first : Scanned n search middle) (second : Scanned n middle after) :
    Scanned n search after where
  size := second.size.trans first.size
  settled := second.settled.trans first.settled
  rank := second.rank.trans first.rank
  kept v isSettled := (second.kept v (first.settled ▸ isSettled)).trans (first.kept v isSettled)
  label v := (second.label v).trans (first.label v)

theorem scanned_of_heap (size : after.minHeap.size = search.minHeap.size)
    (members : ∀ v < n, after.minHeap.pos.get v < search.minHeap.size ↔ search.minHeap.pos.get v < search.minHeap.size)
    (gone : ∀ v < n, search.minHeap.size ≤ search.minHeap.pos.get v → after.minHeap.pos.get v = search.minHeap.pos.get v)
    (kept : ∀ v, search.settled n v → after.label v = search.label v) (label : ∀ v, after.label v ≤ search.label v) :
    Scanned n search after := by
  have settled (v : Nat) : after.settled n v ↔ search.settled n v := by
    unfold Search.settled
    rw [size]
    refine and_congr_right fun bound => ?_
    rw [← not_lt, ← not_lt, members v bound]
  refine ⟨size, funext fun v => propext (settled v), funext fun v => ?_, kept, label⟩
  by_cases isSettled : search.settled n v
  · rw [rank_of_settled ((settled v).mpr isSettled), rank_of_settled isSettled, gone v isSettled.1 isSettled.2]
  · rw [rank_of_not_settled (mt (settled v).mp isSettled), rank_of_not_settled isSettled]

theorem Sound.label_nonneg (sound : Sound toInt graph src search) (valid : graph.Valid) {v : Nat} {dist : ℚ}
    (isLabel : search.label v = dist) : 0 ≤ dist := by
  obtain ⟨via, walk, -, -⟩ := sound.labelling.walk isLabel
  exact walk.nonneg valid.weight

/-- The search after `v` has got the label `dist` by way of `u`. -/
def Search.relabel (search : Search) (minHeap : MinHeapObj) (u v : Nat) (dist : ℚ) : Search where
  minHeap := minHeap
  output :=
    { dist := { search.output.dist with get := Function.update search.label v (dist : WithTop ℚ) }
      prev := { search.output.prev with get := Function.update search.output.prev.get v u } }

theorem label_relabel (search : Search) (minHeap : MinHeapObj) (u v : Nat) (dist : ℚ) :
    (search.relabel minHeap u v dist).label = update search.label v (dist : WithTop ℚ) := rfl

section Relabel
variable {minHeap : MinHeapObj} {u v : Nat} {dist : ℚ}
  (decreased : Decreased n search.minHeap.size v ((toInt dist : ℚ) : WithTop ℚ) search.minHeap minHeap)
include decreased

theorem relabel_scanned (unsettled : ¬ search.settled n v) (less : (dist : WithTop ℚ) < search.label v) :
    Scanned n search (search.relabel minHeap u v dist) := by
  refine scanned_of_heap decreased.size decreased.members decreased.gone ?_ ?_
  · intro x isSettled
    have other : x ≠ v := fun same => unsettled (same ▸ isSettled)
    rw [label_relabel, update_of_ne other]
  · intro x
    rw [label_relabel]
    by_cases same : x = v
    · rw [same, update_self]
      exact less.le
    · rw [update_of_ne same]

theorem relabel_sound (sound : Sound toInt graph src search) (isNumnodes : graph.numnodes = n)
    (indexed : Indexed n search.minHeap.size minHeap) (isSettled : search.settled n u) (bound : v < n)
    (unsettled : ¬ search.settled n v) (less : (dist : WithTop ℚ) < search.label v) (notSource : v ≠ src)
    {before weight : ℚ} (isEdge : graph.edge u v weight) (isBefore : search.label u = before) (sum : before + weight = dist) :
    Sound toInt graph src (search.relabel minHeap u v dist) := by
  subst isNumnodes
  have scanned := relabel_scanned (u := u) decreased unsettled less
  refine ⟨?_, sound.distSize, sound.prevSize, ?_, ?_, ?_, ?_⟩
  · rw [scanned.size]
    exact indexed
  · intro x out
    have other : x ≠ v := fun same => absurd bound (not_lt.mpr (same ▸ out))
    rw [label_relabel, update_of_ne other]
    exact sound.outside x out
  · exact (update_of_ne notSource.symm _ _).trans sound.source
  · rw [scanned.settled, scanned.rank, ← sum]
    refine sound.labelling.relax isSettled unsettled isEdge isBefore (rank_lt isSettled unsettled) notSource ?_ ?_
    · exact update_self ..
    · intro x other y isPrev
      exact (update_of_ne other _ _).trans isPrev
  · intro x bound here
    rw [scanned.size] at here
    have here := (decreased.members x bound).mp here
    by_cases same : x = v
    · rw [label_relabel, same, update_self]
      exact decreased.keyOf
    · rw [label_relabel, update_of_ne same]
      exact (decreased.others x bound here same).trans (sound.keys x bound here)

end Relabel

theorem scanNode_spec (valid : graph.Valid) (sound : Sound toInt graph src search) {u : Nat}
    (isSettled : search.settled graph.numnodes u) {node : GraphNodeObj} (member : node ∈ graph.head.get u) :
    ∃ after, scanNode toInt u search node = some after ∧ Sound toInt graph src after ∧ Scanned graph.numnodes search after ∧
      (¬ search.settled graph.numnodes node.dest → after.label node.dest ≤ search.label u + node.weight) ∧
      ((∀ a b : ℚ, after.label node.dest = a → search.label node.dest = b → a < b → toInt a ≤ toInt b) →
        Ordered search.minHeap.size search.minHeap.key → Ordered after.minHeap.size after.minHeap.key) := by
  have isEdge : graph.edge u node.dest node.weight := ⟨isSettled.1, member⟩
  have bound := valid.dest _ _ _ isEdge
  have loadPos : search.minHeap.pos.load node.dest = some _ := Slots.load_eq (sound.indexed.posSize ▸ bound)
  have loadU : search.output.dist.load u = some _ := Slots.load_eq (sound.distSize ▸ isSettled.1)
  have loadV : search.output.dist.load node.dest = some _ := Slots.load_eq (sound.distSize ▸ bound)
  have stay (run : scanNode toInt u search node = some search)
      (relaxed : ¬ search.settled graph.numnodes node.dest → search.label node.dest ≤ search.label u + node.weight) :
      ∃ after, scanNode toInt u search node = some after ∧ Sound toInt graph src after ∧ Scanned graph.numnodes search after ∧
        (¬ search.settled graph.numnodes node.dest → after.label node.dest ≤ search.label u + node.weight) ∧
        ((∀ a b : ℚ, after.label node.dest = a → search.label node.dest = b → a < b → toInt a ≤ toInt b) →
          Ordered search.minHeap.size search.minHeap.key → Ordered after.minHeap.size after.minHeap.key) :=
    ⟨search, run, sound, .refl .., relaxed, fun _ ordered => ordered⟩
  by_cases here : search.minHeap.pos.get node.dest < search.minHeap.size
  · have unsettled : ¬ search.settled graph.numnodes node.dest := fun out => absurd here (not_lt.mpr out.2)
    cases isLabel : search.output.dist.get u with
    | top =>
      apply stay
      · unfold scanNode
        simp only [bind_eq_bind]
        rw [loadPos, bind_some, if_pos here, loadU, bind_some, isLabel]
      · intro _
        have far : search.label u = ⊤ := isLabel
        rw [far, WithTop.top_add]
        exact le_top
    | coe distU =>
      have isLabel : search.label u = distU := isLabel
      by_cases less : ((node.weight + distU : ℚ) : WithTop ℚ) < search.label node.dest
      · obtain ⟨minHeap, decreases, indexed, decreased⟩ := decreaseKey_spec toInt sound.indexed bound here (distU + node.weight)
        have less : ((distU + node.weight : ℚ) : WithTop ℚ) < search.label node.dest := add_comm node.weight distU ▸ less
        have positive := add_nonneg (sound.label_nonneg valid isLabel) (valid.weight _ _ _ isEdge)
        have notSource : node.dest ≠ src := by
          intro same
          rw [same, sound.labelling.source] at less
          exact absurd (WithTop.coe_lt_coe.mp less) (not_lt.mpr positive)
        have label : (search.relabel minHeap u node.dest (distU + node.weight)).label node.dest =
            ((distU + node.weight : ℚ) : WithTop ℚ) := by rw [label_relabel, update_self]
        refine ⟨search.relabel minHeap u node.dest (distU + node.weight), ?_,
          relabel_sound decreased sound rfl indexed isSettled bound unsettled less notSource isEdge isLabel rfl,
          relabel_scanned decreased unsettled less, ?_, ?_⟩
        · unfold scanNode
          simp only [bind_eq_bind]
          rw [loadPos, bind_some, if_pos here, loadU, bind_some, show search.output.dist.get u = distU from isLabel]
          dsimp only
          have lessHere : ((node.weight + distU : ℚ) : WithTop ℚ) < search.output.dist.get node.dest := add_comm distU node.weight ▸ less
          rw [loadV, bind_some, if_pos lessHere, Slots.store_eq (sound.distSize ▸ bound), bind_some,
            Slots.store_eq (sound.prevSize ▸ bound), bind_some, decreases]
          rfl
        · intro _
          rw [label, isLabel, WithTop.coe_add]
        · intro lower ordered
          have size : minHeap.size = search.minHeap.size := decreased.size
          show Ordered minHeap.size minHeap.key
          rw [size]
          apply decreased.ordered ordered
          rw [sound.keys node.dest bound here]
          cases isOld : search.label node.dest with
          | top => exact le_top
          | coe old =>
            rw [isOld] at less
            exact WithTop.coe_le_coe.mpr (Int.cast_le.mpr (lower _ old label isOld (WithTop.coe_lt_coe.mp less)))
      · apply stay
        · unfold scanNode
          simp only [bind_eq_bind]
          rw [loadPos, bind_some, if_pos here, loadU, bind_some, show search.output.dist.get u = some distU from isLabel]
          dsimp only
          rw [loadV, bind_some]
          exact if_neg less
        · intro _
          rw [isLabel, ← WithTop.coe_add, add_comm]
          exact not_lt.mp less
  · apply stay
    · unfold scanNode
      simp only [bind_eq_bind]
      rw [loadPos, bind_some, if_neg here]
    · intro unsettled
      exact absurd ⟨bound, not_lt.mp here⟩ unsettled

def GraphObj.isLength (graph : GraphObj) (src : Nat) (length : ℚ) : Prop :=
  ∃ v via, Walk graph.edge src v via length ∧ via.Nodup

theorem Sound.isLength (sound : Sound toInt graph src search) {v : Nat} {dist : ℚ} (isLabel : search.label v = dist) :
    graph.isLength src dist := by
  obtain ⟨via, walk, simple, -⟩ := sound.labelling.walk isLabel
  exact ⟨v, via, walk, simple⟩

def KeepsOrder (toInt : ℚ → Int) (graph : GraphObj) (src : Nat) : Prop :=
  ∀ a b, graph.isLength src a → graph.isLength src b → a < b → toInt a ≤ toInt b

/-- A search from which `after` is reached. -/
structure Later (n : Nat) (before after : Search) : Prop where
  settled : ∀ v, before.settled n v → after.settled n v
  kept : ∀ v, before.settled n v → after.label v = before.label v
  label : ∀ v, after.label v ≤ before.label v

theorem Later.trans {middle : Search} (first : Later n search middle) (second : Later n middle after) : Later n search after where
  settled v isSettled := second.settled v (first.settled v isSettled)
  kept v isSettled := (second.kept v (first.settled v isSettled)).trans (first.kept v isSettled)
  label v := (second.label v).trans (first.label v)

theorem Scanned.later (scanned : Scanned n search after) : Later n search after where
  settled _ isSettled := scanned.settled ▸ isSettled
  kept := scanned.kept
  label := scanned.label

def comesLate (u : Nat) (search : Search) (node : GraphNodeObj) : Prop :=
  ¬ search.minHeap.pos.get node.dest < search.minHeap.size ∧ search.label u + node.weight < search.label node.dest

def scansInTime (toInt : ℚ → Int) (u : Nat) : List GraphNodeObj → Search → Prop
  | [], _ => True
  | node :: rest, search =>
    ¬ comesLate u search node ∧ ∀ next ∈ scanNode toInt u search node, scansInTime toInt u rest next

theorem comesLate_iff {u : Nat} {node : GraphNodeObj} {final : Search} (isSettled : search.settled n u) (bound : node.dest < n)
    (scanned : Scanned n search after) (later : Later n after final)
    (relaxed : ¬ search.settled n node.dest → after.label node.dest ≤ search.label u + node.weight) :
    ¬ comesLate u search node ↔ final.label node.dest ≤ final.label u + node.weight := by
  have whole := scanned.later.trans later
  rw [whole.kept u isSettled]
  by_cases here : search.minHeap.pos.get node.dest < search.minHeap.size
  · have unsettled : ¬ search.settled n node.dest := fun out => absurd here (not_lt.mpr out.2)
    exact iff_of_true (fun late => late.1 here) ((later.label _).trans (relaxed unsettled))
  · rw [whole.kept node.dest ⟨bound, not_lt.mp here⟩, comesLate, ← not_lt]
    simp [here]

theorem scanNodes_spec (valid : graph.Valid) (sound : Sound toInt graph src search) {u : Nat}
    (isSettled : search.settled graph.numnodes u) (nodes : List GraphNodeObj) (members : ∀ node ∈ nodes, node ∈ graph.head.get u) :
    ∃ after, nodes.foldlM (scanNode toInt u) search = some after ∧ Sound toInt graph src after ∧
      Scanned graph.numnodes search after ∧
      (∀ node ∈ nodes, ¬ search.settled graph.numnodes node.dest → after.label node.dest ≤ search.label u + node.weight) ∧
      (∀ final, Later graph.numnodes after final →
        (scansInTime toInt u nodes search ↔ ∀ node ∈ nodes, final.label node.dest ≤ final.label u + node.weight)) ∧
      (KeepsOrder toInt graph src → Ordered search.minHeap.size search.minHeap.key →
        Ordered after.minHeap.size after.minHeap.key) := by
  induction nodes generalizing search with
  | nil => exact ⟨search, rfl, sound, .refl .., by simp, by simp [scansInTime], fun _ ordered => ordered⟩
  | cons node rest ih =>
    rw [forall_mem_cons] at members
    obtain ⟨next, run, soundN, scanned, relaxed, order⟩ := scanNode_spec valid sound isSettled members.1
    obtain ⟨after, runs, soundA, scannedA, relaxedA, inTime, orders⟩ := ih soundN (scanned.settled ▸ isSettled) members.2
    have bound := valid.dest u node.dest node.weight ⟨isSettled.1, members.1⟩
    have sameU := scanned.kept u isSettled
    refine ⟨after, ?_, soundA, scanned.trans scannedA, ?_, ?_, ?_⟩
    · rw [foldlM_cons, run]
      exact runs
    · rw [forall_mem_cons]
      refine ⟨fun unsettled => (scannedA.label _).trans (relaxed unsettled), fun other member unsettled => ?_⟩
      rw [← sameU]
      exact relaxedA other member (scanned.settled ▸ unsettled)
    · intro final later
      rw [scansInTime, forall_mem_cons, run, ← inTime final later,
        comesLate_iff isSettled bound scanned (scannedA.later.trans later) relaxed]
      simp
    · intro keeps ordered
      refine orders keeps (order ?_ ordered)
      intro a b isA isB
      exact keeps a b (soundN.isLength isA) (sound.isLength isB)

end MapServer
