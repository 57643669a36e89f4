import MapServer.Pool.PoolSafety

namespace MapServer
open List Option Relation

/-- Only the references of a connection and its thread change. -/
def SameEntry (conn kept : ConnectionObj) : Prop := kept = { conn with ref_count := kept.ref_count, thread_id := kept.thread_id }

/-- An entry stays in the table until it is closed. -/
structure PoolKeeps (pool after : ConnectionPool) : Prop where
  entries : ∀ conn ∈ pool.connections, (∃ kept ∈ after.connections, SameEntry conn kept) ∨
    (conn.close = true → conn.conn_handle ∈ after.closed)
  closed : pool.closed ⊆ after.closed

theorem poolKeeps_of_mem {pool after : ConnectionPool} (kept : ∀ conn ∈ pool.connections, ∃ kept ∈ after.connections, SameEntry conn kept)
    (closed : after.closed = pool.closed) : PoolKeeps pool after :=
  ⟨fun conn member => .inl (kept conn member), closed ▸ Subset.refl _⟩

theorem poolKeeps_refl (pool : ConnectionPool) : PoolKeeps pool pool :=
  poolKeeps_of_mem (fun conn member => ⟨conn, member, rfl⟩) rfl

theorem PoolKeeps.trans {first second third : ConnectionPool} (left : PoolKeeps first second) (right : PoolKeeps second third) :
    PoolKeeps first third where
  entries conn member := by
    rcases left.entries conn member with ⟨kept, there, same⟩ | gone
    · have handle : kept.conn_handle = conn.conn_handle := by rw [same]
      have close : kept.close = conn.close := by rw [same]
      rcases right.entries kept there with ⟨last, here, again⟩ | gone
      · exact .inl ⟨last, here, again.trans (by rw [same])⟩
      · exact .inr (handle ▸ close ▸ gone)
    · exact .inr fun close => right.closed (gone close)
  closed := Subset.trans left.closed right.closed

theorem poolKeeps_modify (pool : ConnectionPool) (i : Nat) {f : ConnectionObj → ConnectionObj} (same : ∀ conn, SameEntry conn (f conn)) :
    PoolKeeps pool { pool with connections := pool.connections.modify i f } := by
  refine poolKeeps_of_mem (fun conn member => ?_) rfl
  obtain ⟨j, here⟩ := mem_iff_getElem?.mp member
  have there : (pool.connections.modify i f)[j]? = some (if i = j then f conn else conn) := by
    rw [getElem?_modify, here, Option.map_eq_map, map_some]
  refine ⟨_, mem_of_getElem? there, ?_⟩
  split
  · exact same conn
  · rfl

theorem msConnPoolClose_eq {pool : ConnectionPool} {i : Nat} {conn : ConnectionObj} (here : pool.connections[i]? = some conn) :
    ∃ rest, (conn :: rest).Perm pool.connections ∧ (msConnPoolClose i pool).connections = rest ∧
      (msConnPoolClose i pool).closed = if conn.close then conn.conn_handle :: pool.closed else pool.closed := by
  obtain ⟨last, final⟩ : ∃ last, pool.connections.getLast? = some last :=
    ⟨_, getLast?_eq_some_getLast (ne_nil_of_mem (mem_of_getElem? here))⟩
  refine ⟨_, removed_perm here final, ?_, ?_⟩
  · rw [msConnPoolClose, here, final]
  · rw [msConnPoolClose, here, final]

theorem poolKeeps_closeIf (pool : ConnectionPool) (i : Nat) (test : ConnectionObj → Bool) :
    PoolKeeps pool (if pool.connections[i]?.any test then msConnPoolClose i pool else pool) := by
  split
  · rename_i found
    obtain ⟨conn, here, -⟩ := (Option.any_eq_true _ _).mp found
    obtain ⟨rest, perm, connections, closed⟩ := msConnPoolClose_eq here
    refine ⟨fun other member => ?_, ?_⟩
    · rcases mem_cons.mp (perm.mem_iff.mpr member) with rfl | kept
      · exact .inr fun close => by rw [closed, if_pos close]; exact mem_cons_self
      · exact .inl ⟨other, connections ▸ kept, rfl⟩
    · rw [closed]
      split
      · exact subset_cons_self ..
      · exact Subset.refl _
  · exact poolKeeps_refl pool

theorem poolKeeps_closeUnreferencedBelow (n : Nat) (pool : ConnectionPool) : PoolKeeps pool (closeUnreferencedBelow n pool) := by
  induction n generalizing pool with
  | zero => exact poolKeeps_refl pool
  | succ i ih => exact (poolKeeps_closeIf pool i _).trans (ih _)

theorem poolKeeps_register (thread : Nat) (layer : PoolLayer) (handle : Nat) (close memory : Bool) (pool : ConnectionPool) :
    PoolKeeps pool (msConnPoolRegister thread layer handle close memory pool) := by
  unfold msConnPoolRegister
  split
  · split <;> exact poolKeeps_of_mem (fun conn member => ⟨conn, member, rfl⟩) rfl
  · dsimp only
    split
    · exact poolKeeps_of_mem (fun conn member => ⟨conn, member, rfl⟩) rfl
    · exact poolKeeps_of_mem (fun conn member => ⟨conn, mem_append_left _ member, rfl⟩) rfl

theorem poolKeeps_release (layer : PoolLayer) (handle : Nat) (pool : ConnectionPool) :
    PoolKeeps pool (msConnPoolRelease layer handle pool) := by
  unfold msConnPoolRelease
  split
  · exact poolKeeps_refl pool
  · dsimp only
    split
    · exact poolKeeps_of_mem (fun conn member => ⟨conn, member, rfl⟩) rfl
    · have same (conn : ConnectionObj) : SameEntry conn (releaseReference conn) := rfl
      exact (poolKeeps_modify pool _ same).trans (poolKeeps_closeIf _ _ _)

theorem step_keeps {s next : PoolSystem} (step : PoolStep s next) : PoolKeeps s.pool next.pool := by
  cases step with
  | register thread layer handle close memory fresh => exact poolKeeps_register thread layer handle close memory s.pool
  | request thread layer =>
    rcases msConnPoolRequest_cases thread layer s.pool with nothing | ⟨_, i, _, -, -, -, -, -, result⟩
    · rw [nothing]
      exact poolKeeps_refl s.pool
    · have same (conn : ConnectionObj) : SameEntry conn (takeReference thread conn) := rfl
      rw [result]
      exact poolKeeps_modify s.pool i same
  | release acquisition member => exact poolKeeps_release acquisition.layer acquisition.handle s.pool
  | closeUnreferenced => exact poolKeeps_closeUnreferencedBelow _ s.pool

theorem run_keeps {s t : PoolSystem} (run : ReflTransGen PoolStep s t) : PoolKeeps s.pool t.pool := by
  induction run with
  | refl => exact poolKeeps_refl s.pool
  | tail _ step ih => exact ih.trans (step_keeps step)

theorem closeUnreferencedBelow_all {n : Nat} {pool : ConnectionPool} (length : pool.connections.length = n)
    (unused : ∀ conn ∈ pool.connections, conn.ref_count = 0) : (closeUnreferencedBelow n pool).connections = [] := by
  induction n generalizing pool with
  | zero => exact length_eq_zero_iff.mp length
  | succ i ih =>
    obtain ⟨conn, here⟩ : ∃ conn, pool.connections[i]? = some conn := ⟨_, getElem?_eq_getElem (by omega)⟩
    obtain ⟨rest, perm, connections, -⟩ := msConnPoolClose_eq here
    have count := perm.length_eq
    rw [length_cons, length] at count
    rw [closeUnreferencedBelow, here, Option.any_some, if_pos (decide_eq_true (unused conn (mem_of_getElem? here)))]
    refine ih (by rw [connections]; omega) fun other member => unused other ?_
    rw [connections] at member
    exact perm.mem_iff.mp (mem_cons_of_mem conn member)

/-- What became of the connections that were in the table at some time: each is still there or was closed, once, and when no
thread holds one `msConnPoolCloseUnreferenced` closes them all. -/
structure NoneLost (s t : PoolSystem) : Prop where
  kept : PoolKeeps s.pool t.pool
  once : t.pool.closed.Nodup
  emptied : t.held = [] → (msConnPoolCloseUnreferenced t.pool).connections = [] ∧
    ∀ conn ∈ s.pool.connections, conn.close = true → conn.conn_handle ∈ (msConnPoolCloseUnreferenced t.pool).closed

theorem connPool_loses_none {s t : PoolSystem} (before : ReflTransGen PoolStep .initial s) (run : ReflTransGen PoolStep s t) :
    NoneLost s t := by
  have invariant := run_invariant (before.trans run)
  refine ⟨run_keeps run, invariant.closedOnce, fun idle => ?_⟩
  have unused : ∀ conn ∈ t.pool.connections, conn.ref_count = 0 := by
    intro conn member
    rw [(invariant.entries conn member).counted, idle]
    rfl
  have emptied := closeUnreferencedBelow_all rfl unused
  refine ⟨emptied, fun conn member close => ?_⟩
  have kept := (run_keeps run).trans (poolKeeps_closeUnreferencedBelow t.pool.connections.length t.pool)
  rcases kept.entries conn member with ⟨other, there, -⟩ | closed
  · rw [emptied] at there
    cases there
  · exact closed close

/-- A connection that is opened and released. -/
theorem connPool_loses_none_released :
    NoneLost
      { pool := msConnPoolRegister 1 deferLayer 7 true true .initial, held := [⟨1, 7, deferLayer⟩], registered := [(7, deferLayer)] }
      { pool := msConnPoolRelease deferLayer 7 (msConnPoolRegister 1 deferLayer 7 true true .initial), held := []
        registered := [(7, deferLayer)] } :=
  connPool_loses_none (.tail .refl (.register 1 deferLayer 7 true true (by simp [PoolSystem.initial])))
    (.tail .refl (.release ⟨1, 7, deferLayer⟩ mem_cons_self))

end MapServer
