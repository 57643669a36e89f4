import MapServer.Lib.LinkedChain
import MapServer.Threads.ErrorList

namespace MapServer
open Lib.LinkedChain Option Function

section ErrorList
variable {Thread : Type} {heap : Addr → Option (TeInfo Thread)} {thread_id : Thread}

def TeInfo.unlinked (node : TeInfo Thread) : TeInfo Thread :=
  { node with next := none }

theorem thread_id_of_unlinked (node other : TeInfo Thread) (same : node.unlinked = other.unlinked) :
    node.thread_id = other.thread_id :=
  (congrArg TeInfo.thread_id same :)

def ErrorNodes (memory : ErrorMemory Thread) (links : List Addr) : Prop :=
  OwnedList TeInfo.next TeInfo.thread_id memory.heap memory.error_list links

def emptyInfo (thread_id : Thread) : TeInfo Thread :=
  ⟨none, thread_id, noError, [], 0⟩

def ErrorFetch (thread_id : Thread) (memory : ErrorMemory Thread) (links : List Addr) (object : Addr)
    (after : ErrorMemory Thread) (relinked : List Addr) : Prop :=
  Fetches TeInfo.next TeInfo.thread_id TeInfo.unlinked thread_id (emptyInfo thread_id) memory.heap links object after.heap
    after.error_list relinked

def ErrorRemoval (thread_id : Thread) (memory : ErrorMemory Thread) (links : List Addr) (object : Addr)
    (after : ErrorMemory Thread) (relinked : List Addr) : Prop :=
  Removes TeInfo.next TeInfo.thread_id TeInfo.unlinked thread_id memory.heap links object after.heap after.error_list relinked

inductive StopsAt (heap : Addr → Option (TeInfo Thread)) (thread_id : Thread) : List Addr → Option Addr → Prop
  | empty : StopsAt heap thread_id [] none
  | first {a : Addr} {rest : List Addr} (own : IsNodeOf TeInfo.thread_id heap thread_id a) :
      StopsAt heap thread_id (a :: rest) (some a)
  | before {front back : List Addr} {a target : Addr}
      (others : ∀ b ∈ front ++ [a], ¬ IsNodeOf TeInfo.thread_id heap thread_id b)
      (own : IsNodeOf TeInfo.thread_id heap thread_id target) : StopsAt heap thread_id (front ++ a :: target :: back) (some a)
  | last {front : List Addr} {a : Addr} (others : ∀ b ∈ front ++ [a], ¬ IsNodeOf TeInfo.thread_id heap thread_id b) :
      StopsAt heap thread_id (front ++ [a]) (some a)

variable {link : Option Addr} {links : List Addr}

theorem StopsAt.cons {a b : Addr} (other : ¬ IsNodeOf TeInfo.thread_id heap thread_id a)
    (different : ¬ IsNodeOf TeInfo.thread_id heap thread_id b) (stops : StopsAt heap thread_id (b :: links) link) :
    StopsAt heap thread_id (a :: b :: links) link := by
  generalize listed : b :: links = list at stops
  cases stops with
  | empty => simp at listed
  | first own =>
    rw [List.cons.injEq] at listed
    exact absurd (listed.1 ▸ own) different
  | @before front back c target others own =>
    apply @StopsAt.before _ heap thread_id (a :: front) back c target _ own
    simpa using ⟨other, by simpa using others⟩
  | @last front c others =>
    apply @StopsAt.last _ heap thread_id (a :: front) c
    simpa using ⟨other, by simpa using others⟩

variable [DecidableEq Thread]
variable {fuel : Nat}

theorem findLink_stopsAt {p : Option Addr} (chain : Chain TeInfo.next heap p links)
    (found : findLink heap thread_id fuel p = some link) : StopsAt heap thread_id links link := by
  induction fuel generalizing p links with
  | zero => simp [findLink] at found
  | succ fuel ih =>
    cases chain with
    | nil =>
      obtain rfl := Option.some.inj found
      exact .empty
    | @cons a node rest here others =>
      rw [findLink, here, bind_eq_bind, bind_some] at found
      split at found
      · rename_i own
        obtain rfl := Option.some.inj found
        exact .first ((isNodeOf_of_some here).mpr own)
      rename_i other
      rw [← isNodeOf_of_some here] at other
      cases following : node.next with
      | none =>
        rw [following] at others found
        cases others
        obtain rfl := Option.some.inj found
        apply @StopsAt.last _ heap thread_id [] a
        simpa using other
      | some next =>
        rw [following] at others found
        have chain := others
        cases others with
        | @cons _ second rest there others =>
          simp only [there, bind_some] at found
          split at found
          · rename_i own
            obtain rfl := Option.some.inj found
            apply @StopsAt.before _ heap thread_id [] rest a next
            · simpa using other
            · exact (isNodeOf_of_some there).mpr own
          · rename_i different
            rw [← isNodeOf_of_some there] at different
            exact StopsAt.cons other different (ih chain found)

theorem findLink_ends {p : Option Addr} (chain : Chain TeInfo.next heap p links) (enough : links.length < fuel) :
    ∃ link, findLink heap thread_id fuel p = some link := by
  induction fuel generalizing p links with
  | zero => omega
  | succ fuel ih =>
    cases chain with
    | nil => exact ⟨none, rfl⟩
    | @cons a node rest here others =>
      rw [findLink, here, bind_eq_bind, bind_some]
      split
      · exact ⟨_, rfl⟩
      cases following : node.next with
      | none => exact ⟨_, rfl⟩
      | some next =>
        rw [following] at others
        have chain := others
        cases others with
        | cons there _ =>
          simp only [there, bind_some]
          split
          · exact ⟨_, rfl⟩
          · exact ih chain (Nat.lt_of_succ_lt_succ enough)

variable {memory : ErrorMemory Thread}

theorem isHead_false {front back : List Addr} {a : Addr}
    (chain : Chain TeInfo.next memory.heap memory.error_list (front ++ a :: back))
    (others : ∀ b ∈ front ++ [a], ¬ IsNodeOf TeInfo.thread_id memory.heap thread_id b) :
    isHead thread_id memory = some false := by
  obtain ⟨head, node, isList, here, other⟩ := chain.first_differs others
  simp [isHead, isList, here, other]

variable {new_link : Addr}

omit [DecidableEq Thread] in
theorem addLink_fetch (nodes : ErrorNodes memory links) (fresh : memory.heap new_link = none)
    (unowned : ∀ b ∈ links, ¬ IsNodeOf TeInfo.thread_id memory.heap thread_id b) :
    ErrorFetch thread_id memory links new_link (addLink new_link thread_id memory) (new_link :: links) := by
  have here : (addLink new_link thread_id memory).heap new_link = some ⟨memory.error_list, thread_id, noError, [], 0⟩ :=
    update_self ..
  apply Fetches.create nodes fresh here rfl _ unowned
  intro b other
  exact update_of_ne other ..

theorem msGetErrorObj_of_found (nodes : ErrorNodes memory links) (fresh : memory.heap new_link = none)
    (found : findLink memory.heap thread_id fuel memory.error_list = some link) :
    ∃ after object relinked, msGetErrorObj fuel new_link thread_id memory = some after ∧
      ErrorFetch thread_id memory links object after relinked := by
  have chain := nodes.chain
  rw [msGetErrorObj, found]
  cases findLink_stopsAt chain found with
  | empty =>
    generalize isList : memory.error_list = p at chain
    cases chain
    refine ⟨_, _, _, ?_, addLink_fetch nodes fresh (by simp)⟩
    simp [isHead, isList]
  | @first a rest own =>
    generalize isList : memory.error_list = p at chain
    cases chain with
    | cons here _ =>
      unfold ErrorNodes at nodes
      rw [isList] at nodes
      refine ⟨memory, a, a :: rest, ?_, ?_⟩
      · simp [isHead, isList, here, (isNodeOf_of_some here).mp own]
      · rw [ErrorFetch, isList]
        exact Fetches.first nodes own
  | last others =>
    obtain ⟨node, here, rest⟩ := chain.split
    generalize following : node.next = q at rest
    cases rest
    refine ⟨_, _, _, ?_, addLink_fetch nodes fresh others⟩
    simp [isHead_false chain others, here, following]
  | @before front back a target others own =>
    obtain ⟨node, here, rest⟩ := chain.split
    generalize isTarget : node.next = q at rest
    cases rest with
    | @cons _ following _ there _ =>
      have apart : target ≠ a := by
        intro same
        exact others a (by simp) (same ▸ own)
      refine ⟨⟨update (update memory.heap a (some { node with next := following.next })) target
        (some { following with next := memory.error_list }), some target⟩, target, target :: (front ++ a :: back), ?_, ?_⟩
      · simp [isHead_false chain others, here, isTarget, there, update_of_ne apart]
      · exact Fetches.move nodes thread_id_of_unlinked here there ((isNodeOf_of_some there).mp own) apart rfl rfl rfl rfl

theorem msGetErrorObj_fetches {after : ErrorMemory Thread} (nodes : ErrorNodes memory links)
    (fresh : memory.heap new_link = none) (got : msGetErrorObj fuel new_link thread_id memory = some after) :
    ∃ object relinked, ErrorFetch thread_id memory links object after relinked := by
  obtain ⟨link, found, _⟩ := bind_eq_some_iff.mp got
  obtain ⟨_, object, relinked, same, fetch⟩ := msGetErrorObj_of_found nodes fresh found
  rw [got, Option.some.injEq] at same
  exact ⟨object, relinked, same ▸ fetch⟩

theorem msGetErrorObj_ends (nodes : ErrorNodes memory links) (fresh : memory.heap new_link = none)
    (enough : links.length < fuel) : ∃ after, msGetErrorObj fuel new_link thread_id memory = some after := by
  obtain ⟨link, found⟩ := findLink_ends nodes.chain enough
  obtain ⟨after, _, _, got, _⟩ := msGetErrorObj_of_found nodes fresh found
  exact ⟨after, got⟩

theorem unlinkThread_of_found {own : Addr} (nodes : ErrorNodes memory links) (member : own ∈ links)
    (isOwn : IsNodeOf TeInfo.thread_id memory.heap thread_id own)
    (found : findLink memory.heap thread_id fuel memory.error_list = some link) :
    ∃ after object relinked, unlinkThread fuel thread_id memory = some (some object, after) ∧
      ErrorRemoval thread_id memory links object after relinked := by
  have chain := nodes.chain
  rw [unlinkThread, found]
  cases findLink_stopsAt chain found with
  | empty => cases member
  | @first a rest first =>
    generalize isList : memory.error_list = p at chain
    cases chain with
    | @cons _ node _ here _ =>
      unfold ErrorNodes at nodes
      rw [isList] at nodes
      have own := (isNodeOf_of_some here).mp first
      refine ⟨⟨update memory.heap a none, node.next⟩, a, rest, ?_, ?_⟩
      · simp [here, own]
      · apply Removes.first nodes here own (update_self ..)
        intro b other
        exact update_of_ne other ..
  | last others => exact absurd isOwn (others own member)
  | @before front back a target others second =>
    obtain ⟨node, here, rest⟩ := chain.split
    generalize isTarget : node.next = q at rest
    cases rest with
    | @cons _ following _ there _ =>
      have apart : target ≠ a := by
        intro same
        exact others a (by simp) (same ▸ second)
      have notFirst := (isNodeOf_of_some here).not.mp (others a (by simp))
      have own := (isNodeOf_of_some there).mp second
      refine ⟨⟨update (update memory.heap a (some { node with next := following.next })) target none,
        memory.error_list⟩, target, front ++ a :: back, ?_, ?_⟩
      · simp [here, notFirst, isTarget, there, own]
      · exact Removes.behind nodes thread_id_of_unlinked here there own apart rfl rfl

theorem unlinkThread_removes {after : ErrorMemory Thread} {freed : Option Addr} {own : Addr}
    (nodes : ErrorNodes memory links) (member : own ∈ links) (isOwn : IsNodeOf TeInfo.thread_id memory.heap thread_id own)
    (unlinked : unlinkThread fuel thread_id memory = some (freed, after)) :
    ∃ object relinked, freed = some object ∧ ErrorRemoval thread_id memory links object after relinked := by
  obtain ⟨_, found, _⟩ := bind_eq_some_iff.mp unlinked
  obtain ⟨_, object, relinked, same, removal⟩ := unlinkThread_of_found nodes member isOwn found
  rw [unlinked, Option.some.injEq, Prod.mk.injEq] at same
  obtain ⟨isFreed, rfl⟩ := same
  exact ⟨object, relinked, isFreed, removal⟩

theorem unlinkThread_ends {own : Addr} (nodes : ErrorNodes memory links) (member : own ∈ links)
    (isOwn : IsNodeOf TeInfo.thread_id memory.heap thread_id own) (enough : links.length < fuel) :
    ∃ freed after, unlinkThread fuel thread_id memory = some (freed, after) := by
  obtain ⟨link, found⟩ := findLink_ends nodes.chain enough
  obtain ⟨after, object, _, unlinked, _⟩ := unlinkThread_of_found nodes member isOwn found
  exact ⟨some object, after, unlinked⟩

end ErrorList

section Contexts
variable {Thread Contexts : Type} {heap : Addr → Option (ContextGroup Thread Contexts)} {thread_id : Thread}

def ContextGroup.unlinked (node : ContextGroup Thread Contexts) : ContextGroup Thread Contexts :=
  { node with next := none }

theorem group_thread_id_of_unlinked (node other : ContextGroup Thread Contexts) (same : node.unlinked = other.unlinked) :
    node.thread_id = other.thread_id :=
  (congrArg ContextGroup.thread_id same :)

def ContextNodes (memory : ContextMemory Thread Contexts) (groups : List Addr) : Prop :=
  OwnedList ContextGroup.next ContextGroup.thread_id memory.heap memory.io_context_list groups

def ContextFetch (default_contexts : Contexts) (thread_id : Thread) (memory : ContextMemory Thread Contexts)
    (groups : List Addr) (object : Addr) (after : ContextMemory Thread Contexts) (relinked : List Addr) : Prop :=
  Fetches ContextGroup.next ContextGroup.thread_id ContextGroup.unlinked thread_id ⟨default_contexts, thread_id, none⟩
    memory.heap groups object after.heap after.io_context_list relinked

inductive FindsGroup (heap : Addr → Option (ContextGroup Thread Contexts)) (thread_id : Thread) :
    List Addr → Option Addr → Option Addr × Option Addr → Prop
  | missing {groups : List Addr} {prev last : Option Addr}
      (others : ∀ b ∈ groups, ¬ IsNodeOf ContextGroup.thread_id heap thread_id b) :
      FindsGroup heap thread_id groups prev (last, none)
  | first {a : Addr} {rest : List Addr} {prev : Option Addr} (own : IsNodeOf ContextGroup.thread_id heap thread_id a) :
      FindsGroup heap thread_id (a :: rest) prev (prev, some a)
  | later {front back : List Addr} {a target : Addr} {prev : Option Addr}
      (own : IsNodeOf ContextGroup.thread_id heap thread_id target)
      (others : ∀ b ∈ front ++ [a], ¬ IsNodeOf ContextGroup.thread_id heap thread_id b) :
      FindsGroup heap thread_id (front ++ a :: target :: back) prev (some a, some target)

variable [DecidableEq Thread]
variable {fuel : Nat} {groups : List Addr} {default_contexts : Contexts} {memory : ContextMemory Thread Contexts}
  {new_group : Addr}

theorem findGroup_finds {p prev : Option Addr} {found : Option Addr × Option Addr}
    (chain : Chain ContextGroup.next heap p groups) (finds : findGroup heap thread_id fuel prev p = some found) :
    FindsGroup heap thread_id groups prev found := by
  induction fuel generalizing p prev groups with
  | zero => simp [findGroup] at finds
  | succ fuel ih =>
    cases chain with
    | nil =>
      obtain rfl := Option.some.inj finds
      exact .missing (by simp)
    | @cons a node rest here others =>
      rw [findGroup, here, bind_eq_bind, bind_some] at finds
      split at finds
      · rename_i own
        obtain rfl := Option.some.inj finds
        exact .first ((isNodeOf_of_some here).mpr own)
      · rename_i other
        rw [← isNodeOf_of_some here] at other
        cases ih others finds with
        | missing missing =>
          apply FindsGroup.missing
          simpa using ⟨other, missing⟩
        | @first target back _ own =>
          apply @FindsGroup.later _ _ heap thread_id [] back a target _ own
          simpa using other
        | @later front back b target _ own missing =>
          apply @FindsGroup.later _ _ heap thread_id (a :: front) back b target _ own
          simpa using ⟨other, by simpa using missing⟩

theorem findGroup_ends {p : Option Addr} (chain : Chain ContextGroup.next heap p groups) (enough : groups.length < fuel)
    (prev : Option Addr) : ∃ found, findGroup heap thread_id fuel prev p = some found := by
  induction fuel generalizing p prev groups with
  | zero => omega
  | succ fuel ih =>
    cases chain with
    | nil => exact ⟨_, rfl⟩
    | @cons a node rest here others =>
      rw [findGroup, here, bind_eq_bind, bind_some]
      split
      · exact ⟨_, rfl⟩
      · exact ih others (Nat.lt_of_succ_lt_succ enough) (some a)

omit [DecidableEq Thread] in
theorem addGroup_fetch (nodes : ContextNodes memory groups) (fresh : memory.heap new_group = none)
    (unowned : ∀ b ∈ groups, ¬ IsNodeOf ContextGroup.thread_id memory.heap thread_id b) :
    ContextFetch default_contexts thread_id memory groups new_group
      ⟨update memory.heap new_group (some ⟨default_contexts, thread_id, memory.io_context_list⟩), some new_group⟩
      (new_group :: groups) := by
  have here : update memory.heap new_group (some ⟨default_contexts, thread_id, memory.io_context_list⟩) new_group =
      some ⟨default_contexts, thread_id, memory.io_context_list⟩ := update_self ..
  apply Fetches.create nodes fresh here rfl _ unowned
  intro b other
  exact update_of_ne other ..

theorem firstGroup_fetch {a : Addr} {rest : List Addr} (fuel : Nat) (new_group : Addr) (default_contexts : Contexts)
    (nodes : ContextNodes memory (a :: rest)) (own : IsNodeOf ContextGroup.thread_id memory.heap thread_id a) :
    msIO_GetContextGroup fuel new_group default_contexts thread_id memory = some memory ∧
      ContextFetch default_contexts thread_id memory (a :: rest) a memory (a :: rest) := by
  have chain := nodes.chain
  generalize isList : memory.io_context_list = p at chain
  cases chain with
  | cons here _ =>
    unfold ContextNodes at nodes
    rw [isList] at nodes
    constructor
    · simp [msIO_GetContextGroup, isList, here, (isNodeOf_of_some here).mp own]
    · rw [ContextFetch, isList]
      exact Fetches.first nodes own

theorem msIO_GetContextGroup_of_found {found : Option Addr × Option Addr} (nodes : ContextNodes memory groups)
    (fresh : memory.heap new_group = none)
    (finds : findGroup memory.heap thread_id fuel none memory.io_context_list = some found) :
    ∃ after object relinked, msIO_GetContextGroup fuel new_group default_contexts thread_id memory = some after ∧
      ContextFetch default_contexts thread_id memory groups object after relinked := by
  have chain := nodes.chain
  cases findGroup_finds chain finds with
  | missing others =>
    refine ⟨_, _, _, ?_, addGroup_fetch nodes fresh others⟩
    rw [msIO_GetContextGroup]
    generalize memory.io_context_list = p at chain finds ⊢
    cases chain with
    | nil => simp [finds]
    | cons here _ =>
      have other := (isNodeOf_of_some here).not.mp (others _ (by simp))
      simp [here, other, finds]
  | @first a rest _ own =>
    obtain ⟨got, fetch⟩ := firstGroup_fetch fuel new_group default_contexts nodes own
    exact ⟨memory, a, a :: rest, got, fetch⟩
  | @later front back a target _ own others =>
    obtain ⟨node, here, rest⟩ := chain.split
    generalize isTarget : node.next = q at rest
    cases rest with
    | @cons _ following _ there _ =>
      have apart : target ≠ a := by
        intro same
        exact others a (by simp) (same ▸ own)
      refine ⟨⟨update (update memory.heap a (some { node with next := following.next })) target
        (some { following with next := memory.io_context_list }), some target⟩, target, target :: (front ++ a :: back), ?_, ?_⟩
      · obtain ⟨head, first, isList, isFirst, other⟩ := chain.first_differs others
        rw [isList] at finds
        simp [msIO_GetContextGroup, isList, isFirst, other, finds, here, there, update_of_ne apart]
      · exact Fetches.move nodes group_thread_id_of_unlinked here there ((isNodeOf_of_some there).mp own) apart rfl rfl rfl rfl

theorem msIO_GetContextGroup_fetches {after : ContextMemory Thread Contexts} (nodes : ContextNodes memory groups)
    (fresh : memory.heap new_group = none)
    (got : msIO_GetContextGroup fuel new_group default_contexts thread_id memory = some after) :
    ∃ object relinked, ContextFetch default_contexts thread_id memory groups object after relinked := by
  cases finds : findGroup memory.heap thread_id fuel none memory.io_context_list with
  | some found =>
    obtain ⟨_, object, relinked, same, fetch⟩ := msIO_GetContextGroup_of_found nodes fresh finds
    rw [got, Option.some.injEq] at same
    exact ⟨object, relinked, same ▸ fetch⟩
  | none =>
    -- only the first test returns
    have chain := nodes.chain
    rw [msIO_GetContextGroup] at got
    generalize isList : memory.io_context_list = p at chain finds got
    cases chain with
    | nil => simp [finds] at got
    | @cons a node rest here _ =>
      by_cases own : node.thread_id = thread_id
      · obtain ⟨same, fetch⟩ :=
          firstGroup_fetch fuel new_group default_contexts nodes ((isNodeOf_of_some here).mpr own)
        simp only [here, own, map_some, decide_true, bind_eq_bind, bind_some, if_true,
          Option.some.injEq] at got
        exact ⟨a, a :: rest, got ▸ fetch⟩
      · simp [here, own, finds] at got

theorem msIO_GetContextGroup_ends (nodes : ContextNodes memory groups) (fresh : memory.heap new_group = none)
    (enough : groups.length < fuel) :
    ∃ after, msIO_GetContextGroup fuel new_group default_contexts thread_id memory = some after := by
  obtain ⟨found, finds⟩ := findGroup_ends nodes.chain enough none
  obtain ⟨after, _, _, got, _⟩ := msIO_GetContextGroup_of_found nodes fresh finds
  exact ⟨after, got⟩

end Contexts

end MapServer
