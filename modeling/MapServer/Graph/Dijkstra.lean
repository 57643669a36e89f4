import Mathlib.Algebra.Order.Ring.Rat
import Mathlib.Algebra.Order.WithTop.Untop0
import MapServer.Lib.Slots

/-!
Weights are exact numbers and `⊤` is `HUGE_VAL`. Allocations succeed. `none` stands for an access outside an array or for a loop
that goes on.
-/

namespace MapServer
open Lib

structure GraphNodeObj where
  dest : Nat
  weight : ℚ
  deriving DecidableEq

structure GraphObj where
  numnodes : Nat
  head : Slots (List GraphNodeObj)

def msCreateGraph (numnodes : Int) : Option GraphObj :=
  if numnodes ≤ 0 then none else some { numnodes := numnodes.toNat, head := { size := numnodes.toNat, get := fun _ => [] } }

def msGraphAddEdge (graph : GraphObj) (src dest : Nat) (weight : ℚ) : Option GraphObj := do
  let head ← graph.head.store src ({ dest, weight } :: (← graph.head.load src))
  let head ← head.store dest ({ dest := src, weight } :: (← head.load dest))
  some { graph with head }

structure MinHeapNodeObj where
  idx : Nat
  dist : WithTop ℚ
  deriving DecidableEq

structure MinHeapObj where
  size : Nat
  pos : Slots Nat
  nodes : Slots MinHeapNodeObj

def swapNodes (heap : MinHeapObj) (i j : Nat) : Option MinHeapObj := do
  let first ← heap.nodes.load i
  let second ← heap.nodes.load j
  let pos ← heap.pos.store first.idx j
  let pos ← pos.store second.idx i
  let nodes ← heap.nodes.store i second
  let nodes ← nodes.store j first
  some { heap with pos, nodes }

def smaller (heap : MinHeapObj) (child smallest : Nat) : Option Nat :=
  if child < heap.size then do
    let node ← heap.nodes.load child
    let least ← heap.nodes.load smallest
    some (if node.dist < least.dist then child else smallest)
  else some smallest

def minHeapify : Nat → MinHeapObj → Nat → Option MinHeapObj
  | 0, _, _ => none
  | calls + 1, heap, idx => do
    let left := 2 * idx + 1
    let right := 2 * idx + 2
    let smallest ← smaller heap left idx
    let smallest ← smaller heap right smallest
    if smallest ≠ idx then
      let heap ← swapNodes heap smallest idx
      minHeapify calls heap smallest
    else some heap

def extractMin (heap : MinHeapObj) : Option (MinHeapNodeObj × MinHeapObj) := do
  if heap.size = 0 then none
  else
    let root ← heap.nodes.load 0
    let lastNode ← heap.nodes.load (heap.size - 1)
    let nodes ← heap.nodes.store 0 lastNode
    let pos ← heap.pos.store root.idx (heap.size - 1)
    let pos ← pos.store lastNode.idx 0
    let heap ← minHeapify heap.size { size := heap.size - 1, pos, nodes } 0
    some (root, heap)

/-- The loop of `decreaseKey`. The first argument bounds its turns. -/
def travelUp : Nat → MinHeapObj → Nat → Option MinHeapObj
  | 0, _, _ => none
  | turns + 1, heap, i =>
    if i = 0 then some heap
    else do
      let node ← heap.nodes.load i
      let parent ← heap.nodes.load ((i - 1) / 2)
      if node.dist < parent.dist then
        let heap ← swapNodes heap i ((i - 1) / 2)
        travelUp turns heap ((i - 1) / 2)
      else some heap

/-- `toInt` is the conversion of `dist` to the type of the parameter. -/
def decreaseKey (toInt : ℚ → Int) (heap : MinHeapObj) (idx : Nat) (dist : ℚ) : Option MinHeapObj := do
  let i ← heap.pos.load idx
  let node ← heap.nodes.load i
  let nodes ← heap.nodes.store i { node with dist := (toInt dist : ℚ) }
  travelUp (i + 1) { heap with nodes } i

structure DijkstraOutputObj where
  dist : Slots (WithTop ℚ)
  prev : Slots Int

structure Search where
  minHeap : MinHeapObj
  output : DijkstraOutputObj

/-- One turn of the loop over the nodes adjacent to `u`. -/
def scanNode (toInt : ℚ → Int) (u : Nat) (search : Search) (node : GraphNodeObj) : Option Search := do
  let v := node.dest
  if (← search.minHeap.pos.load v) < search.minHeap.size then
    match ← search.output.dist.load u with
    | none => some search
    | some (distU : ℚ) =>
      if ((node.weight + distU : ℚ) : WithTop ℚ) < (← search.output.dist.load v) then
        let dist ← search.output.dist.store v ((distU + node.weight : ℚ) : WithTop ℚ)
        let prev ← search.output.prev.store v u
        let minHeap ← decreaseKey toInt search.minHeap v (distU + node.weight)
        some { minHeap, output := { dist, prev } }
      else some search
  else some search

def settleNode (toInt : ℚ → Int) (graph : GraphObj) (search : Search) : Option Search := do
  let (root, minHeap) ← extractMin search.minHeap
  (← graph.head.load root.idx).foldlM (scanNode toInt root.idx) { search with minHeap }

def settleNodes (toInt : ℚ → Int) (graph : GraphObj) : Nat → Search → Option Search
  | 0, search => if search.minHeap.size = 0 then some search else none
  | turns + 1, search =>
    if search.minHeap.size = 0 then some search
    else do
      let search ← settleNode toInt graph search
      settleNodes toInt graph turns search

def startSearch (toInt : ℚ → Int) (graph : GraphObj) (src : Nat) : Option Search := do
  let n := graph.numnodes
  let dist : Slots (WithTop ℚ) := { size := n, get := fun _ => ⊤ }
  let prev : Slots Int := { size := n, get := fun _ => -1 }
  let pos ← ({ size := n, get := id } : Slots Nat).store src src
  let dist ← dist.store src 0
  let minHeap ← decreaseKey toInt { size := 0, pos, nodes := { size := n, get := fun i => ⟨i, ⊤⟩ } } src 0
  some { minHeap := { minHeap with size := n }, output := { dist, prev } }

def dijkstra (toInt : ℚ → Int) (graph : GraphObj) (src : Nat) : Option DijkstraOutputObj := do
  let search ← startSearch toInt graph src
  let search ← settleNodes toInt graph graph.numnodes search
  some search.output

end MapServer
