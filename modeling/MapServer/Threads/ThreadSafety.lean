import MapServer.Threads.ThreadSystem

namespace MapServer
open Lib.LinkedChain Option Function

def ThreadState.Holds (object : Addr) : ThreadState → Prop
  | inserting mine _ => mine = object
  | clearing mine => mine = object
  | _ => False

section Safety
variable {Thread Contexts : Type} {seen : ErrorFields → ErrorFields}

structure ErrorsSound (seen : ErrorFields → ErrorFields) (s : ThreadSystem Thread Contexts) (links : List Addr) : Prop where
  nodes : ErrorNodes s.errors links
  held : ∀ thread object, (s.doing thread).Holds object → object ∈ links ∧ IsNodeOf TeInfo.thread_id s.errors.heap thread object
  leaving : ∀ thread, s.doing thread = .unlinking →
    s.inserted thread = [] ∧ ∃ object ∈ links, IsNodeOf TeInfo.thread_id s.errors.heap thread object
  contents : ∀ a ∈ links, ∀ node, s.errors.heap a = some node → StackHolds seen node (s.inserted node.thread_id)
  absent : ∀ thread, (∀ a ∈ links, ¬ IsNodeOf TeInfo.thread_id s.errors.heap thread a) → s.inserted thread = []

theorem initial_sound : ErrorsSound seen (.initial Thread Contexts) [] where
  nodes := OwnedList.nil
  held thread object holds := by cases holds
  leaving thread leaving := by cases leaving
  contents a member := by cases member
  absent thread _ := rfl

variable {heap : Addr → Option (TeInfo Thread)} {node : TeInfo Thread}

theorem isNodeOf_of_same {after : Addr → Option (TeInfo Thread)} {thread : Thread} {a : Addr}
    (same : SameNode TeInfo.unlinked heap after a) :
    IsNodeOf TeInfo.thread_id after thread a ↔ IsNodeOf TeInfo.thread_id heap thread a := by
  unfold IsNodeOf
  rw [same.sameOwner thread_id_of_unlinked]

theorem stackHolds_of_same {after : Addr → Option (TeInfo Thread)} {a : Addr} {inserted : Thread → List NewError}
    (same : SameNode TeInfo.unlinked heap after a) (there : after a = some node)
    (holds : ∀ node, heap a = some node → StackHolds seen node (inserted node.thread_id)) :
    StackHolds seen node (inserted node.thread_id) := by
  rw [SameNode, there, map_some, eq_comm, map_eq_some_iff] at same
  obtain ⟨old, here, equal⟩ := same
  have isSame : old.thread_id = node.thread_id := thread_id_of_unlinked old node equal
  rw [← isSame]
  exact stackHolds_congr equal.symm (holds old here)

variable {s : ThreadSystem Thread Contexts} {links : List Addr} {thread : Thread}
variable {relinked : List Addr}

theorem fetch_keeps {errors : ErrorMemory Thread} {object : Addr} (nodes : ErrorNodes s.errors links)
    (fetch : ErrorFetch thread s.errors links object errors relinked) :
    ∀ a ∈ links, a ∈ relinked ∧ SameNode TeInfo.unlinked s.errors.heap errors.heap a := by
  intro a member
  obtain ⟨node, here⟩ := nodes.chain.allocated member
  exact ⟨(fetch.members a).mpr (.inr member), fetch.kept a (by simp [here])⟩

variable [DecidableEq Thread]

theorem fetch_sound (sound : ErrorsSound seen s links) {errors : ErrorMemory Thread} {object : Addr}
    (isIdle : s.doing thread = .idle) (fetch : ErrorFetch thread s.errors links object errors relinked) (caller : Caller) :
    ErrorsSound seen { s with errors, doing := update s.doing thread (caller.continues object) } relinked := by
  have kept := fetch_keeps sound.nodes fetch
  have stays : ∀ other a, a ∈ links → IsNodeOf TeInfo.thread_id s.errors.heap other a →
      a ∈ relinked ∧ IsNodeOf TeInfo.thread_id errors.heap other a := by
    intro other a member own
    exact ⟨(kept a member).1, (isNodeOf_of_same (kept a member).2).mpr own⟩
  constructor
  · exact fetch.nodes
  · intro other mine holds
    rcases eq_or_ne other thread with rfl | differs
    · dsimp only at holds
      rw [update_self] at holds
      have isObject : mine = object := by
        cases caller with
        | reader => cases holds
        | msInsertErrorObj error => exact Eq.symm holds
        | msResetErrorList => exact Eq.symm holds
      rw [isObject]
      exact ⟨(fetch.members object).mpr (.inl rfl), fetch.own⟩
    · dsimp only at holds
      rw [update_of_ne differs] at holds
      obtain ⟨member, own⟩ := sound.held other mine holds
      exact stays other mine member own
  · intro other leaving
    rcases eq_or_ne other thread with rfl | differs
    · dsimp only at leaving
      rw [update_self] at leaving
      cases caller <;> cases leaving
    · dsimp only at leaving
      rw [update_of_ne differs] at leaving
      obtain ⟨nothing, mine, member, own⟩ := sound.leaving other leaving
      exact ⟨nothing, mine, stays other mine member own⟩
  · intro a member node there
    by_cases old : a ∈ links
    · exact stackHolds_of_same (kept a old).2 there (sound.contents a old)
    · -- the node is new, and the thread had none
      have isObject : a = object := ((fetch.members a).mp member).resolve_right old
      rcases fetch.new with known | ⟨unowned, created⟩
      · exact absurd (isObject ▸ known) old
      · rw [← isObject, there, map_some, Option.some.injEq] at created
        have isThread : node.thread_id = thread := thread_id_of_unlinked node (emptyInfo thread) created
        show StackHolds seen node (s.inserted node.thread_id)
        rw [isThread, sound.absent thread unowned]
        exact @stackHolds_congr _ seen (emptyInfo thread) _ node created (stackHolds_empty thread)
  · intro other unowned
    apply sound.absent other
    intro a member own
    obtain ⟨among, still⟩ := stays other a member own
    exact unowned a among still

theorem store_sound (sound : ErrorsSound seen s links) {object : Addr} (holds : (s.doing thread).Holds object)
    (here : s.errors.heap object = some node) (changed : TeInfo Thread) (isNext : changed.next = node.next)
    (isThread : changed.thread_id = node.thread_id) (inserted : List NewError)
    (contents : StackHolds seen changed inserted) (next : ThreadState) (released : ∀ a, ¬ next.Holds a)
    (leaves : next = .unlinking → inserted = []) : ErrorsSound seen { s.store object changed with
      doing := update s.doing thread next, inserted := update s.inserted thread inserted } links := by
  obtain ⟨member, own⟩ := sound.held thread object holds
  have mine : node.thread_id = thread := (isNodeOf_of_some here).mp own
  have owners : ∀ other a, IsNodeOf TeInfo.thread_id (s.store object changed).errors.heap other a ↔
      IsNodeOf TeInfo.thread_id s.errors.heap other a := by
    intro other a
    unfold IsNodeOf
    have same : SameNode TeInfo.thread_id s.errors.heap (s.store object changed).errors.heap a :=
      SameNode.update here changed isThread a
    rw [same]
  constructor
  · exact sound.nodes.update here isNext isThread
  · intro other held holding
    rcases eq_or_ne other thread with rfl | differs
    · dsimp only at holding
      rw [update_self] at holding
      exact absurd holding (released held)
    · dsimp only at holding
      rw [update_of_ne differs] at holding
      obtain ⟨among, owned⟩ := sound.held other held holding
      exact ⟨among, (owners other held).mpr owned⟩
  · intro other leaving
    rcases eq_or_ne other thread with rfl | differs
    · dsimp only at leaving ⊢
      rw [update_self] at leaving
      rw [update_self]
      exact ⟨leaves leaving, object, member, (owners other object).mpr own⟩
    · dsimp only at leaving ⊢
      rw [update_of_ne differs] at leaving
      rw [update_of_ne differs]
      obtain ⟨nothing, held, among, owned⟩ := sound.leaving other leaving
      exact ⟨nothing, held, among, (owners other held).mpr owned⟩
  · intro a among other there
    change update s.errors.heap object (some changed) a = some other at there
    rcases eq_or_ne a object with rfl | differs
    · rw [update_self, Option.some.injEq] at there
      rw [← there, isThread, mine]
      show StackHolds seen changed (update s.inserted thread inserted thread)
      rwa [update_self]
    · rw [update_of_ne differs] at there
      have notMine : other.thread_id ≠ thread := by
        intro same
        apply differs
        apply sound.nodes.single a among object member
        rw [here, there, map_some, map_some, same, mine]
      show StackHolds seen other (update s.inserted thread inserted other.thread_id)
      rw [update_of_ne notMine]
      exact sound.contents a among other there
  · intro other unowned
    have differs : other ≠ thread := by
      intro same
      exact unowned object member ((owners other object).mpr (same ▸ own))
    show update s.inserted thread inserted other = []
    rw [update_of_ne differs]
    apply sound.absent other
    intro a among owned
    exact unowned a among ((owners other a).mpr owned)

theorem unlink_sound (sound : ErrorsSound seen s links) {errors : ErrorMemory Thread} {object : Addr}
    (unlinking : s.doing thread = .unlinking) (removal : ErrorRemoval thread s.errors links object errors relinked) :
    ErrorsSound seen { s with errors, doing := update s.doing thread .idle } relinked := by
  have stays : ∀ other a, other ≠ thread → a ∈ links → IsNodeOf TeInfo.thread_id s.errors.heap other a →
      a ∈ relinked ∧ IsNodeOf TeInfo.thread_id errors.heap other a := by
    intro other a differs member own
    have apart : a ≠ object := by
      intro same
      have both := removal.own
      rw [← same, IsNodeOf, own, Option.some.injEq] at both
      exact differs both
    exact ⟨(removal.members a).mpr ⟨apart, member⟩, (isNodeOf_of_same (removal.kept a apart)).mpr own⟩
  constructor
  · exact removal.nodes
  · intro other held holding
    rcases eq_or_ne other thread with rfl | differs
    · dsimp only at holding
      rw [update_self] at holding
      cases holding
    · dsimp only at holding
      rw [update_of_ne differs] at holding
      obtain ⟨member, own⟩ := sound.held other held holding
      exact stays other held differs member own
  · intro other leaving
    rcases eq_or_ne other thread with rfl | differs
    · dsimp only at leaving
      rw [update_self] at leaving
      cases leaving
    · dsimp only at leaving
      rw [update_of_ne differs] at leaving
      obtain ⟨nothing, held, member, own⟩ := sound.leaving other leaving
      exact ⟨nothing, held, stays other held differs member own⟩
  · intro a member node there
    obtain ⟨apart, old⟩ := (removal.members a).mp member
    exact stackHolds_of_same (removal.kept a apart) there (sound.contents a old)
  · intro other unowned
    rcases eq_or_ne other thread with rfl | differs
    · exact (sound.leaving other unlinking).1
    · apply sound.absent other
      intro a member own
      obtain ⟨among, still⟩ := stays other a differs member own
      exact unowned a among still

def KeepsSeen (seen : ErrorFields → ErrorFields) (s : ThreadSystem Thread Contexts) (thread : Thread) : ThreadEvent → Prop
  | .stored http_status => ∀ object error node, s.doing thread = .inserting object error → s.errors.heap object = some node →
    node.ms_error.code ≠ MS_NOERR → node.totalerrorcount < 100 → seen { node.ms_error with http_status } = seen node.ms_error
  | _ => True

omit [DecidableEq Thread] in
theorem inserted_links (node : TeInfo Thread) (error : NewError) (http_status : CString) :
    (fillErrorObj error (insertErrorObj http_status node)).next = node.next ∧
      (fillErrorObj error (insertErrorObj http_status node)).thread_id = node.thread_id := by
  simp only [fillErrorObj, insertErrorObj]
  split <;> exact ⟨rfl, rfl⟩

variable {after : ThreadSystem Thread Contexts} {default_contexts : Contexts} {event : ThreadEvent}

theorem step_sound (sound : ErrorsSound seen s links) (step : ThreadStep default_contexts s thread event after)
    (keeps : KeepsSeen seen s thread event) : ∃ relinked, ErrorsSound seen after relinked := by
  cases step with
  | fetch caller isIdle fresh got head =>
    obtain ⟨mine, relinked, fetch⟩ := msGetErrorObj_fetches sound.nodes fresh got
    obtain rfl := Option.some.inj (head.symm.trans fetch.head)
    exact ⟨relinked, fetch_sound sound isIdle fetch caller⟩
  | @insert object error node inserting here http_status =>
    have holds : (s.doing thread).Holds object := by
      rw [inserting]
      rfl
    obtain ⟨member, own⟩ := sound.held thread object holds
    have mine : node.thread_id = thread := (isNodeOf_of_some here).mp own
    have contents := sound.contents object member node here
    rw [mine] at contents
    have pushed := insertErrorObj_holds contents error http_status (keeps object error node inserting here)
    obtain ⟨sameNext, sameThread⟩ := inserted_links node error http_status
    exact ⟨links, store_sound sound holds here _ sameNext sameThread _ pushed .idle (fun _ holds => holds) nofun⟩
  | @clear object node clearing here =>
    have holds : (s.doing thread).Holds object := by
      rw [clearing]
      rfl
    exact ⟨links, store_sound sound holds here (clearErrorObj node) rfl rfl [] clearErrorObj_holds .unlinking (fun _ holds => holds) fun _ => rfl⟩
  | unlink unlinking unlinked =>
    obtain ⟨_, mine, member, own⟩ := sound.leaving thread unlinking
    obtain ⟨object, relinked, _, removal⟩ := unlinkThread_removes sound.nodes member own unlinked
    exact ⟨relinked, unlink_sound sound unlinking removal⟩
  | group fresh got head => exact ⟨links, { sound with }⟩

variable {groups : List Addr}

theorem step_contexts (nodes : ContextNodes s.contexts groups) (step : ThreadStep default_contexts s thread event after) :
    ∃ regrouped, ContextNodes after.contexts regrouped := by
  cases step with
  | fetch => exact ⟨groups, nodes⟩
  | insert => exact ⟨groups, nodes⟩
  | clear => exact ⟨groups, nodes⟩
  | unlink => exact ⟨groups, nodes⟩
  | group fresh got head =>
    obtain ⟨_, regrouped, fetch⟩ := msIO_GetContextGroup_fetches nodes fresh got
    exact ⟨regrouped, fetch.nodes⟩

def OwnNode (seen : ErrorFields → ErrorFields) (s : ThreadSystem Thread Contexts) (thread : Thread)
    (after : ThreadSystem Thread Contexts) : ThreadEvent → Prop
  | .fetched object => ∃ node, after.errors.heap object = some node ∧ node.thread_id = thread ∧
    (readErrors node).map seen = (errorStack (s.inserted thread)).map seen
  | .unlinked freed => ∃ object node, freed = some object ∧ s.errors.heap object = some node ∧ node.thread_id = thread ∧
    after.errors.heap object = none
  | .fetchedGroup group => ∃ node, after.contexts.heap group = some node ∧ node.thread_id = thread
  | .stored _ => True
  | .cleared => True

structure OthersKept (s : ThreadSystem Thread Contexts) (thread : Thread) (after : ThreadSystem Thread Contexts) : Prop where
  errors : ∃ links relinked, ErrorNodes s.errors links ∧ ErrorNodes after.errors relinked ∧
    ∀ a ∈ links, ∀ node, s.errors.heap a = some node → node.thread_id ≠ thread →
      a ∈ relinked ∧ SameNode TeInfo.unlinked s.errors.heap after.errors.heap a
  contexts : ∃ groups regrouped, ContextNodes s.contexts groups ∧ ContextNodes after.contexts regrouped ∧
    ∀ a ∈ groups, ∀ node, s.contexts.heap a = some node → node.thread_id ≠ thread →
      a ∈ regrouped ∧ SameNode ContextGroup.unlinked s.contexts.heap after.contexts.heap a

/-- What the thread calls next goes through, at whatever address memory is allocated. -/
structure Proceeds (default_contexts : Contexts) (s : ThreadSystem Thread Contexts) (thread : Thread) : Prop where
  errorObj : ∃ fuel, ∀ new_link, s.errors.heap new_link = none →
    ∃ errors, msGetErrorObj fuel new_link thread s.errors = some errors
  object : ∀ object, (s.doing thread).Holds object → ∃ node, s.errors.heap object = some node
  unlinking : s.doing thread = .unlinking → ∃ fuel freed errors, unlinkThread fuel thread s.errors = some (freed, errors)
  contextGroup : ∃ fuel, ∀ new_group, s.contexts.heap new_group = none →
    ∃ contexts, msIO_GetContextGroup fuel new_group default_contexts thread s.contexts = some contexts

structure ThreadsSafe (default_contexts : Contexts) (seen : ErrorFields → ErrorFields) (s : ThreadSystem Thread Contexts) : Prop where
  errorList : ∃ links, ErrorNodes s.errors links ∧ links.Nodup
  contextList : ∃ groups, ContextNodes s.contexts groups ∧ groups.Nodup
  own : ∀ thread event after, ThreadStep default_contexts s thread event after → OwnNode seen s thread after event
  others : ∀ thread event after, ThreadStep default_contexts s thread event after → OthersKept s thread after
  proceeds : ∀ thread, Proceeds default_contexts s thread

theorem step_ownNode (keepsCode : ∀ error, (seen error).code = error.code) (sound : ErrorsSound seen s links)
    (nodes : ContextNodes s.contexts groups) (step : ThreadStep default_contexts s thread event after) :
    OwnNode seen s thread after event := by
  cases step with
  | fetch caller isIdle fresh got head =>
    obtain ⟨mine, relinked, fetch⟩ := msGetErrorObj_fetches sound.nodes fresh got
    obtain rfl := Option.some.inj (head.symm.trans fetch.head)
    have still := fetch_sound sound isIdle fetch .reader
    obtain ⟨node, here, isThread⟩ := map_eq_some_iff.mp fetch.own
    have contents := still.contents _ ((fetch.members _).mpr (.inl rfl)) node here
    rw [isThread] at contents
    exact ⟨node, here, isThread, readErrors_eq keepsCode contents⟩
  | insert => trivial
  | clear => trivial
  | unlink unlinking unlinked =>
    obtain ⟨_, mine, member, own⟩ := sound.leaving thread unlinking
    obtain ⟨object, relinked, freed, removal⟩ := unlinkThread_removes sound.nodes member own unlinked
    obtain ⟨node, here, isThread⟩ := map_eq_some_iff.mp removal.own
    exact ⟨object, node, freed, here, isThread, removal.freed⟩
  | group fresh got head =>
    obtain ⟨mine, regrouped, fetch⟩ := msIO_GetContextGroup_fetches nodes fresh got
    obtain rfl := Option.some.inj (head.symm.trans fetch.head)
    exact map_eq_some_iff.mp fetch.own

omit [DecidableEq Thread] in
theorem store_othersKept (sound : ErrorsSound seen s links) (nodes : ContextNodes s.contexts groups) {object : Addr}
    (holds : (s.doing thread).Holds object) (here : s.errors.heap object = some node) (changed : TeInfo Thread)
    (isNext : changed.next = node.next) (isThread : changed.thread_id = node.thread_id) (doing : Thread → ThreadState)
    (inserted : Thread → List NewError) : OthersKept s thread { s.store object changed with doing, inserted } := by
  refine ⟨⟨links, links, sound.nodes, sound.nodes.update here isNext isThread, ?_⟩, groups, groups, nodes, nodes,
    fun a member _ _ _ => ⟨member, rfl⟩⟩
  intro a member other there differs
  obtain ⟨_, own⟩ := sound.held thread object holds
  have apart : a ≠ object := by
    intro same
    rw [← same] at own
    exact differs ((isNodeOf_of_some there).mp own)
  exact ⟨member, congrArg _ (update_of_ne apart ..)⟩

theorem step_othersKept (sound : ErrorsSound seen s links) (nodes : ContextNodes s.contexts groups)
    (step : ThreadStep default_contexts s thread event after) : OthersKept s thread after := by
  have sameGroups : ∀ a ∈ groups, ∀ node, s.contexts.heap a = some node → node.thread_id ≠ thread →
      a ∈ groups ∧ SameNode ContextGroup.unlinked s.contexts.heap s.contexts.heap a :=
    fun a member _ _ _ => ⟨member, rfl⟩
  cases step with
  | fetch caller isIdle fresh got head =>
    obtain ⟨mine, relinked, fetch⟩ := msGetErrorObj_fetches sound.nodes fresh got
    refine ⟨⟨links, relinked, sound.nodes, fetch.nodes, ?_⟩, groups, groups, nodes, nodes, sameGroups⟩
    exact fun a member _ _ _ => fetch_keeps sound.nodes fetch a member
  | @insert object error node inserting here http_status =>
    have holds : (s.doing thread).Holds object := by
      rw [inserting]
      rfl
    obtain ⟨sameNext, sameThread⟩ := inserted_links node error http_status
    exact store_othersKept sound nodes holds here _ sameNext sameThread _ _
  | @clear object node clearing here =>
    have holds : (s.doing thread).Holds object := by
      rw [clearing]
      rfl
    exact store_othersKept sound nodes holds here (clearErrorObj node) rfl rfl _ _
  | unlink unlinking unlinked =>
    obtain ⟨_, mine, member, own⟩ := sound.leaving thread unlinking
    obtain ⟨object, relinked, _, removal⟩ := unlinkThread_removes sound.nodes member own unlinked
    refine ⟨⟨links, relinked, sound.nodes, removal.nodes, ?_⟩, groups, groups, nodes, nodes, sameGroups⟩
    intro a among node here differs
    have apart : a ≠ object := by
      intro same
      have owned := removal.own
      rw [← same] at owned
      exact differs ((isNodeOf_of_some here).mp owned)
    exact ⟨(removal.members a).mpr ⟨apart, among⟩, removal.kept a apart⟩
  | group fresh got head =>
    obtain ⟨mine, regrouped, fetch⟩ := msIO_GetContextGroup_fetches nodes fresh got
    refine ⟨⟨links, links, sound.nodes, sound.nodes, fun a member _ _ _ => ⟨member, rfl⟩⟩, groups, regrouped, nodes,
      fetch.nodes, ?_⟩
    intro a member node here _
    exact ⟨(fetch.members a).mpr (.inr member), fetch.kept a (by simp [here])⟩

theorem sound_proceeds (default_contexts : Contexts) (sound : ErrorsSound seen s links)
    (nodes : ContextNodes s.contexts groups) (thread : Thread) : Proceeds default_contexts s thread where
  errorObj := ⟨links.length + 1, fun _ fresh => msGetErrorObj_ends sound.nodes fresh (Nat.lt_succ_self _)⟩
  object object holds := sound.nodes.chain.allocated (sound.held thread object holds).1
  unlinking leaving := by
    obtain ⟨_, mine, member, own⟩ := sound.leaving thread leaving
    exact ⟨links.length + 1, unlinkThread_ends sound.nodes member own (Nat.lt_succ_self _)⟩
  contextGroup := ⟨groups.length + 1, fun _ fresh => msIO_GetContextGroup_ends nodes fresh (Nat.lt_succ_self _)⟩

theorem reached_sound (run : ReachedBy default_contexts (KeepsSeen seen) s) :
    (∃ links, ErrorsSound seen s links) ∧ ∃ groups, ContextNodes s.contexts groups := by
  induction run with
  | initial => exact ⟨⟨[], initial_sound⟩, [], OwnedList.nil⟩
  | step _ next fits ih =>
    obtain ⟨⟨links, sound⟩, groups, nodes⟩ := ih
    exact ⟨step_sound sound next fits, step_contexts nodes next⟩

theorem reached_safe (keepsCode : ∀ error, (seen error).code = error.code)
    (run : ReachedBy default_contexts (KeepsSeen seen) s) : ThreadsSafe default_contexts seen s := by
  obtain ⟨⟨links, sound⟩, groups, nodes⟩ := reached_sound run
  constructor
  · exact ⟨links, sound.nodes, sound.nodes.chain.nodup⟩
  · exact ⟨groups, nodes, nodes.chain.nodup⟩
  · exact fun _ _ _ step => step_ownNode keepsCode sound nodes step
  · exact fun _ _ _ step => step_othersKept sound nodes step
  · exact sound_proceeds default_contexts sound nodes

/-- When the memory for an older error happens to hold the `http_status` of the error that is copied into it. -/
def KeepsStatus (s : ThreadSystem Thread Contexts) (thread : Thread) : ThreadEvent → Prop
  | .stored http_status => ∀ object error node, s.doing thread = .inserting object error → s.errors.heap object = some node →
    node.ms_error.code ≠ MS_NOERR → node.totalerrorcount < 100 → http_status = node.ms_error.http_status
  | _ => True

theorem threads_safe {default_contexts : Contexts} (run : ReachedBy default_contexts KeepsStatus s) :
    ThreadsSafe default_contexts id s := by
  apply reached_safe fun _ => rfl
  induction run with
  | initial => exact .initial
  | @step _ _ _ event _ next fits ih =>
    apply ih.step next
    cases event with
    | stored http_status =>
      intro object error node inserting here used room
      rw [fits object error node inserting here used room]
    | fetched => trivial
    | cleared => trivial
    | unlinked => trivial
    | fetchedGroup => trivial

end Safety

def sampleError (code : Int) (isError : code ≠ MS_NOERR) : NewError :=
  ⟨code, ascii "msLoadMap()", ascii "Failed.", ascii "404 Not Found", isError⟩

theorem unusedObject_keepsStatus {s : ThreadSystem Nat Unit} {thread object : Nat} {error : NewError} {node : TeInfo Nat}
    (inserting : s.doing thread = .inserting object error) (here : s.errors.heap object = some node)
    (unused : node.ms_error.code = MS_NOERR) (http_status : CString) : KeepsStatus s thread (.stored http_status) := by
  intro other _ found isOther there used
  rw [inserting, ThreadState.inserting.injEq] at isOther
  rw [← isOther.1, here, Option.some.injEq] at there
  exact absurd (there ▸ unused) used

/-- Two threads insert an error each, and the first one reads while the second one resets its list. -/
theorem threads_safe_interleaved : ∃ s : ThreadSystem Nat Unit,
    (s.inserted 1 = [sampleError 1 (by decide)] ∧ s.inserted 2 = []) ∧ ThreadsSafe () id s := by
  have run := ReachedBy.step (@ReachedBy.initial Nat Unit _ () KeepsStatus)
    (@ThreadStep.fetch _ _ _ _ _ 1 1 0 _ _ (.msInsertErrorObj (sampleError 1 (by decide))) rfl rfl rfl rfl) trivial
  have run := run.step
    (@ThreadStep.fetch _ _ _ _ _ 2 2 1 _ _ (.msInsertErrorObj (sampleError 2 (by decide))) rfl rfl rfl rfl) trivial
  have run := run.step (@ThreadStep.insert Nat Unit _ () _ 1 0 (sampleError 1 (by decide)) _ rfl rfl [])
    (unusedObject_keepsStatus rfl rfl rfl [])
  have run := run.step (@ThreadStep.insert Nat Unit _ () _ 2 1 (sampleError 2 (by decide)) _ rfl rfl [])
    (unusedObject_keepsStatus rfl rfl rfl [])
  have run := run.step (@ThreadStep.fetch _ _ _ _ _ 2 3 2 _ _ .msResetErrorList rfl rfl rfl rfl) trivial
  have run := run.step (@ThreadStep.clear Nat Unit _ () _ 2 1 _ rfl rfl) trivial
  have run := run.step (@ThreadStep.fetch _ _ _ _ _ 1 3 2 _ _ .reader rfl rfl rfl rfl) trivial
  have run := run.step (@ThreadStep.unlink _ _ _ _ _ 2 3 _ _ rfl rfl) trivial
  exact ⟨_, ⟨rfl, rfl⟩, threads_safe run⟩

theorem secondError_losesStatus :
    ¬ ∀ s : ThreadSystem Unit Unit, ReachedBy () (fun _ _ _ => True) s → ThreadsSafe () id s := by
  intro all
  have run := ReachedBy.step (@ReachedBy.initial Unit Unit _ () fun _ _ _ => True)
    (@ThreadStep.fetch _ _ _ _ _ () 1 0 _ _ (.msInsertErrorObj (sampleError 1 (by decide))) rfl rfl rfl rfl) trivial
  have run := run.step (@ThreadStep.insert Unit Unit _ () _ () 0 (sampleError 1 (by decide)) _ rfl rfl []) trivial
  have run := run.step
    (@ThreadStep.fetch _ _ _ _ _ () 1 1 _ _ (.msInsertErrorObj (sampleError 2 (by decide))) rfl rfl rfl rfl) trivial
  have run := run.step
    (@ThreadStep.insert Unit Unit _ () _ () 0 (sampleError 2 (by decide)) _ rfl rfl (ascii "503 ")) trivial
  obtain ⟨node, here, _, read⟩ := (all _ run).own () _ _ (@ThreadStep.fetch _ _ _ _ _ () 1 1 _ _ .reader rfl rfl rfl rfl)
  obtain rfl := Option.some.inj here
  exact absurd read (by decide)

end MapServer
