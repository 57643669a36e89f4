import Mathlib.Data.List.Nodup

namespace Lib.LinkedChain
open List Option Function
variable {Addr Node : Type} {next : Node → Option Addr} {heap : Addr → Option Node}

inductive Chain (next : Node → Option Addr) (heap : Addr → Option Node) : Option Addr → List Addr → Prop
  | nil : Chain next heap none []
  | cons {a : Addr} {node : Node} {rest : List Addr} (here : heap a = some node) (others : Chain next heap (next node) rest) :
      Chain next heap (some a) (a :: rest)

theorem Chain.functional {p : Option Addr} {first second : List Addr} (one : Chain next heap p first)
    (two : Chain next heap p second) : first = second := by
  induction one generalizing second with
  | nil => cases two; rfl
  | cons here _ ih =>
    cases two with
    | cons there others =>
      rw [here, Option.some.injEq] at there
      subst there
      rw [ih others]

theorem Chain.split {p : Option Addr} {front back : List Addr} {a : Addr} (chain : Chain next heap p (front ++ a :: back)) :
    ∃ node, heap a = some node ∧ Chain next heap (next node) back := by
  induction front generalizing p with
  | nil =>
    cases chain with
    | cons here others => exact ⟨_, here, others⟩
  | cons b front ih =>
    cases chain with
    | cons _ others => exact ih others

theorem Chain.allocated {p : Option Addr} {list : List Addr} (chain : Chain next heap p list) {a : Addr} (member : a ∈ list) :
    ∃ node, heap a = some node := by
  obtain ⟨front, back, rfl⟩ := append_of_mem member
  obtain ⟨node, here, _⟩ := chain.split
  exact ⟨node, here⟩

theorem Chain.nodup {p : Option Addr} {list : List Addr} (chain : Chain next heap p list) : list.Nodup := by
  induction chain with
  | nil => exact nodup_nil
  | @cons a node rest here others ih =>
    apply nodup_cons.mpr
    refine ⟨?_, ih⟩
    intro again
    obtain ⟨front, back, rfl⟩ := append_of_mem again
    obtain ⟨other, there, shorter⟩ := others.split
    rw [here, Option.some.injEq] at there
    subst there
    have lengths := congrArg List.length (others.functional shorter)
    simp at lengths
    omega

theorem Chain.sameLinks {after : Addr → Option Node} {p : Option Addr} {list : List Addr} (chain : Chain next heap p list)
    (same : ∀ a ∈ list, (after a).map next = (heap a).map next) : Chain next after p list := by
  induction chain with
  | nil => exact Chain.nil
  | cons here _ ih =>
    rw [forall_mem_cons, here, map_some, map_eq_some_iff] at same
    obtain ⟨⟨changed, there, isNext⟩, rest⟩ := same
    exact Chain.cons there (isNext ▸ ih rest)

theorem Chain.congr {after : Addr → Option Node} {p : Option Addr} {list : List Addr} (chain : Chain next heap p list)
    (same : ∀ a ∈ list, after a = heap a) : Chain next after p list :=
  chain.sameLinks fun a member => congrArg _ (same a member)

theorem Chain.replace {after : Addr → Option Node} {p : Option Addr} {front back others : List Addr} {a : Addr} {node : Node}
    (chain : Chain next heap p (front ++ a :: back)) (same : ∀ b ∈ front, after b = heap b) (here : after a = some node)
    (rest : Chain next after (next node) others) : Chain next after p (front ++ a :: others) := by
  induction front generalizing p with
  | nil =>
    cases chain with
    | cons _ _ => exact Chain.cons here rest
  | cons b front ih =>
    rw [forall_mem_cons] at same
    cases chain with
    | cons there others => exact Chain.cons (same.1.trans there) (ih others same.2)

theorem Chain.push {after : Addr → Option Node} {p : Option Addr} {list : List Addr} (chain : Chain next heap p list) {a : Addr}
    {node : Node} (here : after a = some node) (isNext : next node = p) (same : ∀ b ∈ list, after b = heap b) :
    Chain next after (some a) (a :: list) :=
  Chain.cons here (isNext ▸ chain.congr same)

theorem Chain.unlink {after : Addr → Option Node} {p : Option Addr} {front back : List Addr} {a target : Addr} {node following : Node}
    (chain : Chain next heap p (front ++ a :: target :: back)) (isTarget : heap target = some following)
    (here : after a = some node) (isNext : next node = next following)
    (same : ∀ b, b ≠ a → b ≠ target → after b = heap b) : Chain next after p (front ++ a :: back) := by
  have distinct := chain.nodup
  rw [nodup_append, nodup_cons, nodup_cons] at distinct
  obtain ⟨_, ⟨notAgain, targetOnce, _⟩, apart⟩ := distinct
  have whole : Chain next heap p ((front ++ [a]) ++ target :: back) := by simpa using chain
  obtain ⟨_, found, rest⟩ := whole.split
  rw [isTarget, Option.some.injEq] at found
  subst found
  apply chain.replace _ here
  · rw [isNext]
    apply rest.congr
    intro b member
    apply same
    · intro isA
      exact notAgain (mem_cons_of_mem _ (isA ▸ member))
    · intro isTarget
      exact targetOnce (isTarget ▸ member)
  · intro b member
    apply same
    · exact apart b member a mem_cons_self
    · exact apart b member target (mem_cons_of_mem _ mem_cons_self)

theorem Chain.promote {after : Addr → Option Node} {p : Option Addr} {front back : List Addr} {a target : Addr}
    {node following promoted : Node} (chain : Chain next heap p (front ++ a :: target :: back))
    (isTarget : heap target = some following) (here : after a = some node) (isNext : next node = next following)
    (there : after target = some promoted) (isFirst : next promoted = p)
    (same : ∀ b, b ≠ a → b ≠ target → after b = heap b) : Chain next after (some target) (target :: (front ++ a :: back)) :=
  Chain.cons there (isFirst ▸ chain.unlink isTarget here isNext same)

section Owners
variable {Owner Bare : Type} {owner : Node → Owner} {bare : Node → Bare} {key : Owner}

def IsNodeOf (owner : Node → Owner) (heap : Addr → Option Node) (key : Owner) (a : Addr) : Prop :=
  (heap a).map owner = some key

theorem isNodeOf_of_some {a : Addr} {node : Node} (here : heap a = some node) : IsNodeOf owner heap key a ↔ owner node = key := by
  simp [IsNodeOf, here]

theorem Chain.first_differs {p : Option Addr} {front back : List Addr} {a : Addr} (chain : Chain next heap p (front ++ a :: back))
    (others : ∀ b ∈ front ++ [a], ¬ IsNodeOf owner heap key b) :
    ∃ head node, p = some head ∧ heap head = some node ∧ owner node ≠ key := by
  obtain ⟨head, rest, listed, other⟩ : ∃ head rest, front ++ a :: back = head :: rest ∧ ¬ IsNodeOf owner heap key head := by
    cases front with
    | nil => exact ⟨a, back, rfl, others a (by simp)⟩
    | cons b front => exact ⟨b, _, rfl, others b (by simp)⟩
  rw [listed] at chain
  cases chain with
  | cons here _ => exact ⟨head, _, rfl, here, (isNodeOf_of_some here).not.mp other⟩

structure OwnedList (next : Node → Option Addr) (owner : Node → Owner) (heap : Addr → Option Node) (p : Option Addr)
    (list : List Addr) : Prop where
  chain : Chain next heap p list
  single : ∀ a ∈ list, ∀ b ∈ list, (heap a).map owner = (heap b).map owner → a = b

theorem OwnedList.nil : OwnedList next owner heap none [] :=
  ⟨Chain.nil, by simp⟩

theorem OwnedList.relinked {after : Addr → Option Node} {p q : Option Addr} {list rest : List Addr}
    (owned : OwnedList next owner heap p list) (chain : Chain next after q rest) (among : ∀ a ∈ rest, a ∈ list)
    (same : ∀ a ∈ rest, (after a).map owner = (heap a).map owner) : OwnedList next owner after q rest := by
  refine ⟨chain, ?_⟩
  intro a left b right equal
  apply owned.single a (among a left) b (among b right)
  rwa [← same a left, ← same b right]

theorem OwnedList.push {after : Addr → Option Node} {p : Option Addr} {list : List Addr}
    (owned : OwnedList next owner heap p list) {a : Addr} {node : Node} (here : after a = some node) (isNext : next node = p)
    (same : ∀ b ∈ list, after b = heap b) (unowned : ∀ b ∈ list, ¬ IsNodeOf owner heap (owner node) b) :
    OwnedList next owner after (some a) (a :: list) := by
  refine ⟨owned.chain.push here isNext same, ?_⟩
  intro b left c right equal
  rcases mem_cons.mp left with first | left <;> rcases mem_cons.mp right with second | right
  · rw [first, second]
  · rw [first, here, same c right] at equal
    exact absurd equal.symm (unowned c right)
  · rw [second, here, same b left] at equal
    exact absurd equal (unowned b left)
  · rw [same b left, same c right] at equal
    exact owned.single b left c right equal

def SameNode (bare : Node → Bare) (heap after : Addr → Option Node) (a : Addr) : Prop :=
  (after a).map bare = (heap a).map bare

theorem SameNode.sameOwner {after : Addr → Option Node} {a : Addr} (same : SameNode bare heap after a)
    (ofBare : ∀ node other, bare node = bare other → owner node = owner other) : (after a).map owner = (heap a).map owner := by
  unfold SameNode at same
  cases here : heap a with
  | none =>
    rw [here, map_none, map_eq_none_iff] at same
    rw [same]
  | some node =>
    rw [here, map_some, map_eq_some_iff] at same
    obtain ⟨other, there, equal⟩ := same
    rw [there]
    exact congrArg some (ofBare other node equal)

theorem SameNode.trans {middle after : Addr → Option Node} {a : Addr} (first : SameNode bare heap middle a)
    (second : SameNode bare middle after a) : SameNode bare heap after a :=
  Eq.trans second first

theorem SameNode.update [DecidableEq Addr] {a : Addr} {node : Node} (here : heap a = some node) (changed : Node)
    (same : bare changed = bare node) (b : Addr) : SameNode bare heap (update heap a (some changed)) b := by
  unfold SameNode
  rcases eq_or_ne b a with rfl | other
  · rw [update_self, here, map_some, map_some, same]
  · rw [update_of_ne other]

theorem OwnedList.update [DecidableEq Addr] {p : Option Addr} {list : List Addr} (owned : OwnedList next owner heap p list)
    {a : Addr} {node changed : Node} (here : heap a = some node) (isNext : next changed = next node)
    (same : owner changed = owner node) : OwnedList next owner (update heap a (some changed)) p list :=
  owned.relinked (owned.chain.sameLinks fun b _ => SameNode.update here changed isNext b) (fun _ member => member)
    fun b _ => SameNode.update here changed same b

/-- An access that moves the node of `key` to the front, or makes one: `created`. -/
structure Fetches (next : Node → Option Addr) (owner : Node → Owner) (bare : Node → Bare) (key : Owner) (created : Bare)
    (heap : Addr → Option Node) (list : List Addr) (object : Addr) (after : Addr → Option Node) (q : Option Addr)
    (relinked : List Addr) : Prop where
  nodes : OwnedList next owner after q relinked
  head : q = some object
  own : IsNodeOf owner after key object
  members : ∀ a, a ∈ relinked ↔ a = object ∨ a ∈ list
  kept : ∀ a, (heap a).isSome → SameNode bare heap after a
  new : object ∈ list ∨ (∀ b ∈ list, ¬ IsNodeOf owner heap key b) ∧ (after object).map bare = some created

variable {created : Bare} {after : Addr → Option Node} {p : Option Addr} {a target : Addr} {node changed following promoted : Node}

theorem Fetches.first {rest : List Addr} (owned : OwnedList next owner heap (some a) (a :: rest))
    (own : IsNodeOf owner heap key a) : Fetches next owner bare key created heap (a :: rest) a heap (some a) (a :: rest) :=
  ⟨owned, rfl, own, by simp, fun _ _ => rfl, .inl mem_cons_self⟩

theorem Fetches.create {list : List Addr} (owned : OwnedList next owner heap p list) (fresh : heap a = none)
    (here : after a = some node) (isNext : next node = p) (same : ∀ b, b ≠ a → after b = heap b)
    (unowned : ∀ b ∈ list, ¬ IsNodeOf owner heap (owner node) b) :
    Fetches next owner bare (owner node) (bare node) heap list a after (some a) (a :: list) := by
  have differ : ∀ b, (heap b).isSome → b ≠ a := by
    intro b allocated same
    rw [same, fresh] at allocated
    cases allocated
  constructor
  · apply owned.push here isNext _ unowned
    intro b member
    obtain ⟨_, there⟩ := owned.chain.allocated member
    exact same b (differ b (by simp [there]))
  · rfl
  · exact (isNodeOf_of_some here).mpr rfl
  · exact fun b => mem_cons
  · intro b allocated
    exact congrArg _ (same b (differ b allocated))
  · right
    exact ⟨unowned, congrArg _ here⟩

/-- The two stores that move a node of a list to its front. -/
theorem Fetches.move [DecidableEq Addr] {front back : List Addr} (owned : OwnedList next owner heap p (front ++ a :: target :: back))
    (ofBare : ∀ node other, bare node = bare other → owner node = owner other) (here : heap a = some node)
    (isTarget : heap target = some following) (own : owner following = key) (apart : target ≠ a)
    (isNext : next changed = next following) (sameNode : bare changed = bare node) (isFirst : next promoted = p)
    (sameTarget : bare promoted = bare following) :
    Fetches next owner bare key created heap (front ++ a :: target :: back) target
      (update (update heap a (some changed)) target (some promoted)) (some target) (target :: (front ++ a :: back)) := by
  have kept (b : Addr) : SameNode bare heap (update (update heap a (some changed)) target (some promoted)) b :=
    (SameNode.update here changed sameNode b).trans
      (SameNode.update ((update_of_ne apart ..).trans isTarget) promoted sameTarget b)
  have among : ∀ b, b ∈ target :: (front ++ a :: back) ↔ b ∈ front ++ a :: target :: back := by
    intro b
    simp only [mem_cons, mem_append]
    tauto
  have member : target ∈ front ++ a :: target :: back := by simp
  constructor
  · apply owned.relinked (owned.chain.promote isTarget ((update_of_ne apart.symm ..).trans (update_self ..)) isNext
      (update_self ..) isFirst fun b notA notTarget => (update_of_ne notTarget ..).trans (update_of_ne notA ..))
    · exact fun b => (among b).mp
    · exact fun b _ => (kept b).sameOwner ofBare
  · rfl
  · exact ((kept target).sameOwner ofBare).trans ((isNodeOf_of_some isTarget).mpr own)
  · intro b
    rw [among]
    constructor
    · exact .inr
    · rintro (isTarget | old)
      · exact isTarget ▸ member
      · exact old
  · exact fun b _ => kept b
  · exact .inl member

/-- A step that takes the node of `key` out. -/
structure Removes (next : Node → Option Addr) (owner : Node → Owner) (bare : Node → Bare) (key : Owner)
    (heap : Addr → Option Node) (list : List Addr) (object : Addr) (after : Addr → Option Node) (q : Option Addr)
    (relinked : List Addr) : Prop where
  nodes : OwnedList next owner after q relinked
  own : IsNodeOf owner heap key object
  members : ∀ a, a ∈ relinked ↔ a ≠ object ∧ a ∈ list
  freed : after object = none
  kept : ∀ a, a ≠ object → SameNode bare heap after a

theorem mem_without {front back : List Addr} (distinct : (front ++ a :: back).Nodup) (b : Addr) :
    b ∈ front ++ back ↔ b ≠ a ∧ b ∈ front ++ a :: back := by
  rw [nodup_middle, nodup_cons] at distinct
  have once := distinct.1
  simp only [mem_append, mem_cons] at once ⊢
  constructor
  · intro member
    refine ⟨?_, by tauto⟩
    intro same
    exact once (same ▸ member)
  · tauto

theorem Removes.first {rest : List Addr} (owned : OwnedList next owner heap (some a) (a :: rest)) (here : heap a = some node)
    (own : owner node = key) (freed : after a = none) (same : ∀ b, b ≠ a → after b = heap b) :
    Removes next owner bare key heap (a :: rest) a after (next node) rest := by
  have without : ∀ b, b ∈ rest ↔ b ≠ a ∧ b ∈ a :: rest := @mem_without _ a [] rest owned.chain.nodup
  have unchanged : ∀ b ∈ rest, after b = heap b := fun b member => same b ((without b).mp member).1
  constructor
  · obtain ⟨_, found, others⟩ := @Chain.split _ _ next heap _ [] rest a owned.chain
    rw [here, Option.some.injEq] at found
    subst found
    apply owned.relinked (others.congr unchanged)
    · exact fun b => mem_cons_of_mem a
    · exact fun b member => congrArg _ (unchanged b member)
  · exact (isNodeOf_of_some here).mpr own
  · exact without
  · exact freed
  · exact fun b other => congrArg _ (same b other)

theorem Removes.behind [DecidableEq Addr] {front back : List Addr} (owned : OwnedList next owner heap p (front ++ a :: target :: back))
    (ofBare : ∀ node other, bare node = bare other → owner node = owner other) (here : heap a = some node)
    (isTarget : heap target = some following) (own : owner following = key) (apart : target ≠ a)
    (isNext : next changed = next following) (sameNode : bare changed = bare node) :
    Removes next owner bare key heap (front ++ a :: target :: back) target
      (update (update heap a (some changed)) target none) p (front ++ a :: back) := by
  have kept (b : Addr) (other : b ≠ target) : SameNode bare heap (update (update heap a (some changed)) target none) b :=
    (SameNode.update here changed sameNode b).trans (congrArg _ (update_of_ne other ..))
  have distinct := owned.chain.nodup
  rw [append_cons front a] at distinct
  have without : ∀ b, b ∈ front ++ a :: back ↔ b ≠ target ∧ b ∈ front ++ a :: target :: back := by
    intro b
    have without := mem_without distinct b
    rwa [← append_cons, ← append_cons] at without
  constructor
  · apply owned.relinked (owned.chain.unlink isTarget ((update_of_ne apart.symm ..).trans (update_self ..)) isNext
      fun b notA notTarget => (update_of_ne notTarget ..).trans (update_of_ne notA ..))
    · exact fun b member => ((without b).mp member).2
    · exact fun b member => (kept b ((without b).mp member).1).sameOwner ofBare
  · exact (isNodeOf_of_some isTarget).mpr own
  · exact without
  · exact update_self ..
  · exact kept

end Owners

end Lib.LinkedChain
