import Mathlib.Data.List.Induction
import Mathlib.Data.List.Nodup
import Mathlib.Data.List.Perm.Basic
import MapServer.Pool.ConnPool

namespace MapServer
open List Option
open scoped List

def outstanding (held : List Acquisition) (handle : Nat) : Nat :=
  held.countP fun acquisition => acquisition.handle = handle

def PoolLayer.closesAlways (layer : PoolLayer) : Bool :=
  layer.close_connection.any fun value => sameIgnoringCase value (ascii "ALWAYS")

theorem lifespanOf_always {layer : PoolLayer} (always : layer.closesAlways = true) :
    (lifespanOf layer).1 = MS_LIFE_SINGLE := by
  obtain ⟨value, given, same⟩ := (Option.any_eq_true _ _).mp always
  rw [sameIgnoringCase_iff] at same
  have normal : sameIgnoringCase value (ascii "NORMAL") = false := by
    rw [sameIgnoringCase, same]
    decide
  have defer : sameIgnoringCase value (ascii "DEFER") = false := by
    rw [sameIgnoringCase, same]
    decide
  unfold lifespanOf
  simp [given, normal, defer, sameIgnoringCase_iff.mpr same]

theorem outstanding_eq_zero {held : List Acquisition} {handle : Nat} :
    outstanding held handle = 0 ↔ ∀ a ∈ held, a.handle ≠ handle := by
  simp [outstanding, countP_eq_zero]

theorem outstanding_cons (a : Acquisition) (held : List Acquisition) (handle : Nat) :
    outstanding (a :: held) handle = outstanding held handle + if a.handle = handle then 1 else 0 := by
  simp [outstanding, List.countP_cons]

theorem outstanding_erase {a : Acquisition} {held : List Acquisition} (member : a ∈ held) (handle : Nat) :
    outstanding held handle = outstanding (held.erase a) handle + if a.handle = handle then 1 else 0 := by
  rw [← outstanding_cons]
  exact (perm_cons_erase member).countP_eq _

structure EntrySound (held : List Acquisition) (registered : List (Nat × PoolLayer)) (conn : ConnectionObj) : Prop where
  counted : conn.ref_count = outstanding held conn.conn_handle
  owned : ∀ a ∈ held, a.handle = conn.conn_handle → a.thread = conn.thread_id ∧
    ∃ connection, a.layer.connection = some connection ∧ sameConnection a.layer connection conn = true
  known : ∃ layer, (conn.conn_handle, layer) ∈ registered ∧ conn.lifespan = (lifespanOf layer).1

structure PoolInvariant (s : PoolSystem) : Prop where
  entries : ∀ conn ∈ s.pool.connections, EntrySound s.held s.registered conn
  distinct : (s.pool.connections.map (·.conn_handle)).Nodup
  registeredOnce : (s.registered.map Prod.fst).Nodup
  heldKnown : ∀ a ∈ s.held, a.handle ∈ s.registered.map Prod.fst
  oneThread : ∀ a ∈ s.held, ∀ b ∈ s.held, a.handle = b.handle → a.thread = b.thread
  closedOnce : s.pool.closed.Nodup
  closedKnown : ∀ handle ∈ s.pool.closed, handle ∈ s.registered.map Prod.fst
  closedGone : ∀ handle ∈ s.pool.closed, ∀ conn ∈ s.pool.connections, conn.conn_handle ≠ handle
  closedUnused : ∀ handle ∈ s.pool.closed, outstanding s.held handle = 0
  neverInUse : ∀ connection ref_count, .closingReferenced connection ref_count ∉ s.pool.errors

theorem initial_invariant : PoolInvariant .initial := by
  constructor <;> simp [PoolSystem.initial, ConnectionPool.initial]

theorem mem_modify {α : Type} {l : List α} {i : Nat} {f : α → α} {x : α} (member : x ∈ l.modify i f) :
    ∃ j old, l[j]? = some old ∧ x = if i = j then f old else old := by
  obtain ⟨j, here⟩ := mem_iff_getElem?.mp member
  rw [getElem?_modify] at here
  obtain ⟨old, there, rfl⟩ := map_eq_some_iff.mp here
  refine ⟨j, old, there, ?_⟩
  split <;> rfl

theorem handle_differs {connections : List ConnectionObj} (distinct : (connections.map (·.conn_handle)).Nodup)
    {i j : Nat} {first second : ConnectionObj} (left : connections[i]? = some first)
    (right : connections[j]? = some second) (differ : i ≠ j) : first.conn_handle ≠ second.conn_handle := by
  intro same
  have bound : i < (connections.map (·.conn_handle)).length := by
    rw [length_map]
    exact (List.getElem?_eq_some_iff.mp left).1
  refine differ ((getElem?_inj bound distinct).mp ?_)
  rw [getElem?_map, getElem?_map, left, right, map_some, map_some, same]

theorem distinct_modify {connections : List ConnectionObj} (distinct : (connections.map (·.conn_handle)).Nodup)
    {f : ConnectionObj → ConnectionObj} (keeps : ∀ conn, (f conn).conn_handle = conn.conn_handle) (i : Nat) :
    ((connections.modify i f).map (·.conn_handle)).Nodup := by
  have same : (connections.modify i f).map (·.conn_handle) = connections.map (·.conn_handle) := by
    refine ext_getElem? fun j => ?_
    rw [getElem?_map, getElem?_map, getElem?_modify]
    cases connections[j]? with
    | none => rfl
    | some conn => by_cases here : i = j <;> simp [here, keeps]
  rwa [same]

theorem removed_perm {α : Type} {l : List α} {i : Nat} {x last : α} (here : l[i]? = some x)
    (final : l.getLast? = some last) : (x :: (l.set i last).dropLast).Perm l := by
  obtain ⟨bound, rfl⟩ := List.getElem?_eq_some_iff.mp here
  cases l using reverseRecOn with
  | nil => simp at bound
  | append_singleton rest other =>
    obtain rfl : other = last := by simpa using final
    rw [length_append, length_singleton] at bound
    rcases Nat.lt_or_ge i rest.length with inside | past
    · rw [set_append_left _ _ inside, dropLast_concat, getElem_append_left inside]
      calc rest[i] :: rest.set i other
        _ ~ rest[i] :: other :: rest.eraseIdx i := (set_perm_cons_eraseIdx inside other).cons _
        _ ~ other :: rest[i] :: rest.eraseIdx i := .swap ..
        _ ~ other :: rest := (getElem_cons_eraseIdx_perm inside).cons _
        _ ~ rest ++ [other] := (perm_append_singleton other rest).symm
    · obtain rfl : i = rest.length := by omega
      rw [set_append_right _ _ (Nat.le_refl _), Nat.sub_self, set_cons_zero, dropLast_concat,
        getElem_concat_length rfl]
      exact (perm_append_singleton other rest).symm

section Closing
variable {s : PoolSystem}

theorem msConnPoolClose_invariant (invariant : PoolInvariant s) {i : Nat} {conn : ConnectionObj}
    (here : s.pool.connections[i]? = some conn) (unused : conn.ref_count = 0) :
    PoolInvariant { s with pool := msConnPoolClose i s.pool } := by
  have present : conn ∈ s.pool.connections := mem_of_getElem? here
  obtain ⟨last, final⟩ : ∃ last, s.pool.connections.getLast? = some last :=
    ⟨_, getLast?_eq_some_getLast (ne_nil_of_mem present)⟩
  have perm := removed_perm here final
  have sound := invariant.entries conn present
  have kept : ∀ other ∈ (s.pool.connections.set i last).dropLast, other ∈ s.pool.connections :=
    fun other member => perm.mem_iff.mp (mem_cons_of_mem _ member)
  have distinct := (perm.map (·.conn_handle)).nodup_iff.mpr invariant.distinct
  rw [map_cons, nodup_cons] at distinct
  have gone : ∀ other ∈ (s.pool.connections.set i last).dropLast, other.conn_handle ≠ conn.conn_handle :=
    fun other member same => distinct.1 (List.mem_map.mpr ⟨other, member, same⟩)
  have noError : ¬ conn.ref_count > 0 := by omega
  have none : outstanding s.held conn.conn_handle = 0 := by
    have := sound.counted
    omega
  have closing : ∀ handle ∈ (if conn.close then conn.conn_handle :: s.pool.closed else s.pool.closed),
      handle = conn.conn_handle ∨ handle ∈ s.pool.closed := by
    intro handle member
    split at member
    · exact mem_cons.mp member
    · exact .inr member
  unfold msConnPoolClose
  rw [here, final]
  simp only [if_neg noError]
  refine ⟨fun other member => invariant.entries other (kept other member), distinct.2, invariant.registeredOnce,
    invariant.heldKnown, invariant.oneThread, ?_, fun handle member => ?_, fun handle member other among => ?_,
    fun handle member => ?_, invariant.neverInUse⟩
  · dsimp only
    split
    · refine nodup_cons.mpr ⟨fun before => ?_, invariant.closedOnce⟩
      exact invariant.closedGone _ before conn present rfl
    · exact invariant.closedOnce
  · rcases closing handle member with rfl | before
    · obtain ⟨layer, registered, -⟩ := sound.known
      exact List.mem_map.mpr ⟨_, registered, rfl⟩
    · exact invariant.closedKnown handle before
  · rcases closing handle member with rfl | before
    · exact gone other among
    · exact invariant.closedGone handle before other (kept other among)
  · rcases closing handle member with rfl | before
    · exact none
    · exact invariant.closedUnused handle before

theorem closeIf_invariant (invariant : PoolInvariant s) (i : Nat) (test : ConnectionObj → Bool)
    (unused : ∀ conn, test conn = true → conn.ref_count = 0) :
    PoolInvariant { s with pool := if s.pool.connections[i]?.any test then msConnPoolClose i s.pool else s.pool } := by
  split
  · rename_i found
    obtain ⟨conn, here, passes⟩ := (Option.any_eq_true _ _).mp found
    exact msConnPoolClose_invariant invariant here (unused conn passes)
  · exact invariant

theorem closeUnreferencedBelow_invariant (n : Nat) (pool : ConnectionPool)
    (invariant : PoolInvariant { s with pool }) :
    PoolInvariant { s with pool := closeUnreferencedBelow n pool } := by
  induction n generalizing pool with
  | zero => exact invariant
  | succ i ih => exact ih _ (closeIf_invariant invariant i _ (by simp))

theorem hold_invariant (invariant : PoolInvariant s) {handle : Nat} (fresh : handle ∉ s.registered.map Prod.fst)
    (thread : Nat) (layer : PoolLayer) :
    PoolInvariant { s with held := ⟨thread, handle, layer⟩ :: s.held, registered := (handle, layer) :: s.registered } := by
  have unheld : ∀ a ∈ s.held, a.handle ≠ handle := by
    rintro a member rfl
    exact fresh (invariant.heldKnown a member)
  refine ⟨fun conn member => ?_, invariant.distinct, ?_, ?_, ?_, invariant.closedOnce, fun other member => ?_,
    invariant.closedGone, fun other member => ?_, invariant.neverInUse⟩
  · obtain ⟨counted, owned, known⟩ := invariant.entries conn member
    have apart : handle ≠ conn.conn_handle := by
      rintro rfl
      obtain ⟨old, registered, -⟩ := known
      exact fresh (List.mem_map.mpr ⟨_, registered, rfl⟩)
    refine ⟨?_, fun a held same => ?_, ?_⟩
    · rw [counted, outstanding_cons, if_neg apart, Nat.add_zero]
    · rcases mem_cons.mp held with rfl | held
      · exact absurd same apart
      · exact owned a held same
    · obtain ⟨old, registered, lifespan⟩ := known
      exact ⟨old, mem_cons_of_mem _ registered, lifespan⟩
  · exact nodup_cons.mpr ⟨fresh, invariant.registeredOnce⟩
  · intro a held
    rw [map_cons]
    rcases mem_cons.mp held with rfl | held
    · exact mem_cons_self
    · exact mem_cons_of_mem _ (invariant.heldKnown a held)
  · intro a left b right same
    rcases mem_cons.mp left with rfl | left <;> rcases mem_cons.mp right with rfl | right
    · rfl
    · exact absurd same.symm (unheld b right)
    · exact absurd same (unheld a left)
    · exact invariant.oneThread a left b right same
  · exact mem_cons_of_mem _ (invariant.closedKnown other member)
  · rw [outstanding_cons, invariant.closedUnused other member, if_neg]
    rintro rfl
    exact fresh (invariant.closedKnown _ member)

theorem error_invariant (invariant : PoolInvariant s) {raised : PoolError}
    (other : ∀ connection ref_count, raised ≠ .closingReferenced connection ref_count) :
    PoolInvariant { s with pool := s.pool.error raised } := by
  refine { invariant with neverInUse := fun connection ref_count member => ?_ }
  rcases mem_cons.mp member with same | member
  · exact other connection ref_count same.symm
  · exact invariant.neverInUse connection ref_count member

theorem lifespanOf_error {layer : PoolLayer} {raised : PoolError} (raises : (lifespanOf layer).2 = some raised) :
    ∀ connection ref_count, raised ≠ .closingReferenced connection ref_count := by
  unfold lifespanOf at raises
  dsimp only at raises
  split at raises
  · simp at raises
  split at raises
  · simp at raises
  split at raises
  · simp at raises
  · simp only [Option.some.injEq] at raises
    simp [← raises]

theorem register_invariant (invariant : PoolInvariant s) {handle : Nat} (fresh : handle ∉ s.registered.map Prod.fst)
    (thread : Nat) (layer : PoolLayer) (close memory : Bool) :
    PoolInvariant {
      pool := msConnPoolRegister thread layer handle close memory s.pool
      held := ⟨thread, handle, layer⟩ :: s.held
      registered := (handle, layer) :: s.registered } := by
  have held := hold_invariant invariant fresh thread layer
  unfold msConnPoolRegister
  split
  · split
    · exact held
    · exact error_invariant held (by simp)
  · rename_i connection given
    dsimp only
    split
    · exact error_invariant held (by simp)
    · have newHandle : ∀ conn ∈ s.pool.connections, conn.conn_handle ≠ handle := by
        rintro conn member rfl
        obtain ⟨old, registered, -⟩ := (invariant.entries conn member).known
        exact fresh (List.mem_map.mpr ⟨_, registered, rfl⟩)
      have unheld : outstanding s.held handle = 0 := by
        rw [outstanding_eq_zero]
        rintro a member rfl
        exact fresh (invariant.heldKnown a member)
      refine { held with
        entries := fun conn member => ?_, distinct := ?_, closedGone := fun other closed conn member => ?_
        neverInUse := fun connection ref_count member => ?_ }
      · rcases mem_append.mp member with member | new
        · exact held.entries conn member
        · obtain rfl := mem_singleton.mp new
          refine ⟨?_, fun a held same => ?_, layer, mem_cons_self, rfl⟩
          · simp [outstanding_cons, unheld]
          · rcases mem_cons.mp held with rfl | held
            · exact ⟨rfl, connection, given, by simp [sameConnection]⟩
            · exact absurd same (outstanding_eq_zero.mp unheld a held)
      · rw [map_append, map_singleton]
        refine nodup_append.mpr ⟨invariant.distinct, nodup_singleton _, ?_⟩
        intro other old new member
        obtain ⟨conn, among, rfl⟩ := List.mem_map.mp old
        rw [mem_singleton.mp member]
        exact newHandle conn among
      · rcases mem_append.mp member with member | new
        · exact invariant.closedGone other closed conn member
        · obtain rfl := mem_singleton.mp new
          rintro rfl
          exact fresh (invariant.closedKnown _ closed)
      · rcases mem_append.mp member with raised | member
        · exact lifespanOf_error (mem_toList.mp raised) connection ref_count rfl
        · exact invariant.neverInUse connection ref_count member

theorem findIdx?_found {α : Type} {l : List α} {p : α → Bool} {i : Nat} (found : l.findIdx? p = some i) :
    ∃ x, l[i]? = some x ∧ p x = true := by
  obtain ⟨bound, holds, -⟩ := findIdx?_eq_some_iff_getElem.mp found
  exact ⟨l[i], getElem?_eq_getElem bound, holds⟩

theorem msConnPoolRequest_cases (thread : Nat) (layer : PoolLayer) (pool : ConnectionPool) :
    msConnPoolRequest thread layer pool = (pool, none) ∨
    ∃ connection i conn, layer.connection = some connection ∧ pool.connections[i]? = some conn ∧
      sameConnection layer connection conn = true ∧ (conn.ref_count = 0 ∨ conn.thread_id = thread) ∧
      conn.lifespan ≠ MS_LIFE_SINGLE ∧
      msConnPoolRequest thread layer pool =
        ({ pool with connections := pool.connections.modify i (takeReference thread) }, some conn.conn_handle) := by
  unfold msConnPoolRequest
  split
  · exact .inl rfl
  · rename_i connection given
    split
    · exact .inl rfl
    · dsimp only
      split
      · exact .inl rfl
      · rename_i i found
        obtain ⟨conn, here, fits⟩ := findIdx?_found found
        simp only [Bool.and_eq_true, Bool.or_eq_true, decide_eq_true_eq, bne_iff_ne] at fits
        obtain ⟨⟨same, free⟩, shared⟩ := fits
        exact .inr ⟨connection, i, conn, given, here, same, free, shared, by rw [here, map_some]⟩

theorem request_invariant (invariant : PoolInvariant s) (thread : Nat) (layer : PoolLayer) :
    PoolInvariant {
      s with
      pool := (msConnPoolRequest thread layer s.pool).1
      held := ((msConnPoolRequest thread layer s.pool).2.map (⟨thread, ·, layer⟩)).toList ++ s.held } := by
  rcases msConnPoolRequest_cases thread layer s.pool with
    nothing | ⟨connection, i, conn, given, here, same, free, -, result⟩
  · rw [nothing]
    exact invariant
  · rw [result]
    have present : conn ∈ s.pool.connections := mem_of_getElem? here
    obtain ⟨counted, owned, known⟩ := invariant.entries conn present
    have mine : ∀ a ∈ s.held, a.handle = conn.conn_handle → a.thread = thread := by
      intro a member handle
      rcases free with unused | own
      · have none : outstanding s.held conn.conn_handle = 0 := by omega
        exact absurd handle (outstanding_eq_zero.mp none a member)
      · exact (owned a member handle).1.trans own
    have handles : ∀ a ∈ (⟨thread, conn.conn_handle, layer⟩ : Acquisition) :: s.held,
        a.handle = conn.conn_handle → a.thread = thread := by
      intro a member handle
      rcases mem_cons.mp member with rfl | member
      · rfl
      · exact mine a member handle
    refine { invariant with
      entries := fun entry member => ?_, distinct := ?_, heldKnown := fun a member => ?_
      oneThread := fun a left b right same => ?_, closedGone := fun handle closed entry member => ?_
      closedUnused := fun handle closed => ?_ }
    · obtain ⟨j, old, there, rfl⟩ := mem_modify member
      obtain ⟨countedOld, ownedOld, knownOld⟩ := invariant.entries old (mem_of_getElem? there)
      by_cases at_i : i = j
      · subst at_i
        obtain rfl : conn = old := by simpa [here] using there
        rw [if_pos rfl]
        refine ⟨?_, fun a held handle => ⟨handles a held handle, ?_⟩, knownOld⟩
        · simp [outstanding_cons, takeReference, countedOld]
        · rcases mem_cons.mp held with rfl | held
          · exact ⟨connection, given, same⟩
          · exact (ownedOld a held handle).2
      · rw [if_neg at_i]
        have apart := handle_differs invariant.distinct here there at_i
        refine ⟨?_, fun a held handle => ?_, knownOld⟩
        · simp [outstanding_cons, countedOld, apart]
        · rcases mem_cons.mp held with rfl | held
          · exact absurd handle apart
          · exact ownedOld a held handle
    · exact distinct_modify invariant.distinct (f := takeReference thread) (fun _ => rfl) i
    · rcases mem_cons.mp member with rfl | member
      · obtain ⟨old, registered, -⟩ := known
        exact List.mem_map.mpr ⟨_, registered, rfl⟩
      · exact invariant.heldKnown a member
    · by_cases handle : a.handle = conn.conn_handle
      · rw [handles a left handle, handles b right (same.symm.trans handle)]
      · rcases mem_cons.mp left with rfl | left
        · exact absurd rfl handle
        · rcases mem_cons.mp right with rfl | right
          · exact absurd same handle
          · exact invariant.oneThread a left b right same
    · obtain ⟨j, old, there, rfl⟩ := mem_modify member
      have gone := invariant.closedGone handle closed old (mem_of_getElem? there)
      split <;> exact gone
    · have gone := invariant.closedGone handle closed conn present
      have unused := invariant.closedUnused handle closed
      simp [outstanding_cons, unused, gone]

theorem drop_invariant (invariant : PoolInvariant s) {a : Acquisition} (member : a ∈ s.held)
    (absent : ∀ conn ∈ s.pool.connections, conn.conn_handle ≠ a.handle) :
    PoolInvariant { s with held := s.held.erase a } := by
  refine { invariant with
    entries := fun conn among => ?_, heldKnown := fun b held => invariant.heldKnown b (mem_of_mem_erase held)
    oneThread := fun b left c right =>
      invariant.oneThread b (mem_of_mem_erase left) c (mem_of_mem_erase right)
    closedUnused := fun handle closed => ?_ }
  · obtain ⟨counted, owned, known⟩ := invariant.entries conn among
    refine ⟨?_, fun b held => owned b (mem_of_mem_erase held), known⟩
    rw [counted, outstanding_erase member, if_neg (absent conn among).symm, Nat.add_zero]
  · have unused := invariant.closedUnused handle closed
    rw [outstanding_erase member] at unused
    dsimp only
    omega

theorem releaseReference_invariant (invariant : PoolInvariant s) {a : Acquisition} (member : a ∈ s.held) {i : Nat}
    {conn : ConnectionObj} (here : s.pool.connections[i]? = some conn) (handle : conn.conn_handle = a.handle) :
    PoolInvariant {
      s with
      pool := { s.pool with connections := s.pool.connections.modify i releaseReference }
      held := s.held.erase a } := by
  refine { invariant with
    entries := fun entry among => ?_, distinct := ?_
    heldKnown := fun b held => invariant.heldKnown b (mem_of_mem_erase held)
    oneThread := fun b left c right =>
      invariant.oneThread b (mem_of_mem_erase left) c (mem_of_mem_erase right)
    closedGone := fun other closed entry among => ?_, closedUnused := fun other closed => ?_ }
  · obtain ⟨j, old, there, rfl⟩ := mem_modify among
    obtain ⟨counted, owned, known⟩ := invariant.entries old (mem_of_getElem? there)
    have count := outstanding_erase member old.conn_handle
    by_cases at_i : i = j
    · subst at_i
      obtain rfl : conn = old := by simpa [here] using there
      rw [if_pos rfl]
      rw [if_pos handle.symm] at count
      refine ⟨?_, fun b held same => ?_, known⟩
      · simp only [releaseReference]
        omega
      · obtain ⟨thread, connection⟩ := owned b (mem_of_mem_erase held) same
        have used : outstanding (s.held.erase a) conn.conn_handle ≠ 0 :=
          fun none => outstanding_eq_zero.mp none b held same
        refine ⟨?_, connection⟩
        simp only [releaseReference]
        rw [if_neg (by omega)]
        exact thread
    · rw [if_neg at_i]
      have apart := handle_differs invariant.distinct here there at_i
      refine ⟨?_, fun b held => owned b (mem_of_mem_erase held), known⟩
      rw [counted, count, if_neg (fun same => apart (handle.trans same)), Nat.add_zero]
  · exact distinct_modify invariant.distinct (f := releaseReference) (fun _ => rfl) i
  · obtain ⟨j, old, there, rfl⟩ := mem_modify among
    have gone := invariant.closedGone other closed old (mem_of_getElem? there)
    split <;> exact gone
  · have unused := invariant.closedUnused other closed
    rw [outstanding_erase member] at unused
    dsimp only
    omega

theorem release_invariant (invariant : PoolInvariant s) {a : Acquisition} (member : a ∈ s.held) :
    PoolInvariant { s with pool := msConnPoolRelease a.layer a.handle s.pool, held := s.held.erase a } := by
  unfold msConnPoolRelease
  split
  · rename_i missing
    refine drop_invariant invariant member fun conn among same => ?_
    obtain ⟨-, connection, given, -⟩ := (invariant.entries conn among).owned a member same.symm
    rw [missing] at given
    contradiction
  · rename_i connection given
    dsimp only
    split
    · rename_i nowhere
      refine error_invariant (drop_invariant invariant member fun conn among same => ?_) (by simp)
      obtain ⟨-, other, asked, fits⟩ := (invariant.entries conn among).owned a member same.symm
      obtain rfl : connection = other := by simpa [given] using asked
      have missed := findIdx?_eq_none_iff.mp nowhere conn among
      simp [fits, same] at missed
    · rename_i i found
      obtain ⟨conn, here, fits⟩ := findIdx?_found found
      rw [Bool.and_eq_true, decide_eq_true_eq] at fits
      refine closeIf_invariant (releaseReference_invariant invariant member here fits.2) i _ fun conn passes => ?_
      rw [Bool.and_eq_true, decide_eq_true_eq] at passes
      exact passes.1

end Closing

theorem step_invariant {s next : PoolSystem} (step : PoolStep s next) (invariant : PoolInvariant s) :
    PoolInvariant next := by
  cases step with
  | register thread layer handle close memory fresh =>
    exact register_invariant invariant fresh thread layer close memory
  | request thread layer => exact request_invariant invariant thread layer
  | release acquisition member => exact release_invariant invariant member
  | closeUnreferenced => exact closeUnreferencedBelow_invariant _ _ invariant

theorem run_invariant {s : PoolSystem} (run : Relation.ReflTransGen PoolStep .initial s) : PoolInvariant s := by
  induction run with
  | refl => exact initial_invariant
  | tail _ step ih => exact step_invariant step ih

structure PoolSafe (s : PoolSystem) : Prop where
  counted : ∀ conn ∈ s.pool.connections, conn.ref_count = outstanding s.held conn.conn_handle
  oneThread : ∀ a ∈ s.held, ∀ b ∈ s.held, a.handle = b.handle → a.thread = b.thread
  alwaysPrivate : ∀ thread layer handle registration,
    (msConnPoolRequest thread layer s.pool).2 = some handle → (handle, registration) ∈ s.registered →
    registration.closesAlways = false
  closedOnce : s.pool.closed.Nodup
  closedUnused : ∀ handle ∈ s.pool.closed, outstanding s.held handle = 0

theorem request_not_always {s : PoolSystem} (invariant : PoolInvariant s) {thread handle : Nat}
    {layer registration : PoolLayer} (handed : (msConnPoolRequest thread layer s.pool).2 = some handle)
    (registered : (handle, registration) ∈ s.registered) : registration.closesAlways = false := by
  rcases msConnPoolRequest_cases thread layer s.pool with nothing | ⟨_, i, conn, -, here, -, -, shared, result⟩
  · rw [nothing] at handed
    contradiction
  · rw [result] at handed
    obtain rfl : conn.conn_handle = handle := by simpa using handed
    obtain ⟨old, known, lifespan⟩ := (invariant.entries conn (mem_of_getElem? here)).known
    have same : (conn.conn_handle, old) = (conn.conn_handle, registration) :=
      inj_on_of_nodup_map invariant.registeredOnce known registered rfl
    obtain rfl : old = registration := (Prod.mk.inj same).2
    by_contra always
    exact shared (lifespan.trans (lifespanOf_always (by simpa using always)))

/-- The pool is safe after every sequence of calls by any threads. -/
theorem connPool_safe {s : PoolSystem} (run : Relation.ReflTransGen PoolStep .initial s) : PoolSafe s := by
  have invariant := run_invariant run
  exact {
    counted := fun conn member => (invariant.entries conn member).counted
    oneThread := invariant.oneThread
    alwaysPrivate := fun _ _ _ _ handed registered => request_not_always invariant handed registered
    closedOnce := invariant.closedOnce
    closedUnused := invariant.closedUnused }

def deferLayer : PoolLayer := ⟨ascii "roads", .MS_POSTGIS, some (ascii "dbname=gis"), none, some (ascii "Defer")⟩

theorem connPool_safe_sharing :
    PoolSafe {
      pool := (msConnPoolRequest 1 deferLayer (msConnPoolRegister 1 deferLayer 7 true true .initial)).1
      held := [⟨1, 7, deferLayer⟩, ⟨1, 7, deferLayer⟩]
      registered := [(7, deferLayer)] } :=
  connPool_safe (.tail (.tail .refl (.register 1 deferLayer 7 true true (by simp [PoolSystem.initial])))
    (.request 1 deferLayer))

end MapServer
