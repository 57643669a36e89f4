import MapServer.Decimal
import MapServer.Project.PjCache

namespace MapServer
open ProjState List Option
variable {Crs : Type} {proj : Proj Crs}

def requested (proj : Proj Crs) (reprojector : ReprojectionObj Crs) : Option (List CString × List CString) :=
  (projectionsBetween proj reprojector.input reprojector.output).map fun (source, target) => (source.args, target.args)

/-- A live reprojector has a transformation that is not destroyed and was created for its argument lists, and no
transformation was destroyed twice. -/
structure LifetimesHold (proj : Proj Crs) (session : ReprojectorSession Crs) : Prop where
  carries : ∀ r reprojector pj, session.reprojector r = some reprojector → reprojector.pj = some pj →
    ∃ source target, session.state.objects[pj]? = some ⟨source, target, 0⟩ ∧
      requested proj reprojector = some (source, target)
  once : ∀ object ∈ session.state.objects, object.destructions ≤ 1

def Borrowed (session : ReprojectorSession Crs) (pj : PJ) : Prop :=
  ∃ r reprojector, session.reprojector r = some reprojector ∧ reprojector.bFreePJ = false ∧ reprojector.pj = some pj

def UsesCache (proj : Proj Crs) (source target : ProjectionObj Crs) : Prop :=
  source.proj ≠ target.proj ∧ hasText proj source = true ∧ hasText proj target = true ∧
    source.proj_ctx = target.proj_ctx

def Creatable (proj : Proj Crs) (source target : ProjectionObj Crs) : Prop :=
  ∃ first last, source.proj = some first ∧ target.proj = some last ∧ proj.proj_create_crs_to_crs first last = true

def KeepsLifetimes (proj : Proj Crs) (session : ReprojectorSession Crs) : ReprojectorCall Crs → Prop
  | .msProjectCreateReprojector input output =>
    ∀ source target, projectionsBetween proj input output = some (source, target) → UsesCache proj source target →
      let entries := session.state.pj_cache source.proj_ctx
      (∀ i entry, findEntry source target entries = some (i, entry) →
        ∃ object, session.state.objects[entry.pj]? = some object ∧
          object.source = source.args ∧ object.target = target.args) ∧
      (findEntry source target entries = none → Creatable proj source target →
        PJ_CACHE_ENTRY_SIZE ≤ entries.length →
        ∀ evicted, entries.getLast? = some evicted → ¬ Borrowed session evicted.pj)
  | _ => True

/-- The outcomes of `createNormalizedPJ`. -/
inductive Normalized (proj : Proj Crs) (source target : ProjectionObj Crs) (state : ProjState) :
    ProjState → Option (PJ × Bool) → Prop where
  | failed (unmade : UsesCache proj source target →
        findEntry source target (state.pj_cache source.proj_ctx) = none ∧ ¬ Creatable proj source target) :
      Normalized proj source target state state none
  | owned (uncached : ¬ UsesCache proj source target) :
      Normalized proj source target state (state.create source.args target.args) (some (state.objects.length, true))
  | borrowed (i : Nat) (entry : PjCacheEntry) (uses : UsesCache proj source target)
      (found : findEntry source target (state.pj_cache source.proj_ctx) = some (i, entry)) :
      Normalized proj source target state
        (state.setCache source.proj_ctx (moveToTop i entry (state.pj_cache source.proj_ctx)))
        (some (entry.pj, false))
  | inserted (uses : UsesCache proj source target) (creatable : Creatable proj source target)
      (missing : findEntry source target (state.pj_cache source.proj_ctx) = none) :
      Normalized proj source target state
        (insertEntry source.proj_ctx ⟨getStringFromArgv source.args, getStringFromArgv target.args, state.objects.length⟩
          (state.create source.args target.args))
        (some (state.objects.length, false))

theorem createNormalizedPJ_normalized [DecidableEq Crs] (proj : Proj Crs) (source target : ProjectionObj Crs)
    (state : ProjState) : Normalized proj source target state (createNormalizedPJ proj source target state).1
      (createNormalizedPJ proj source target state).2 := by
  unfold createNormalizedPJ
  by_cases same : source.proj = target.proj
  · have unused : ¬ UsesCache proj source target := fun uses => uses.1 same
    rw [if_pos same]
    by_cases noop : proj.proj_create_noop = true
    · rw [if_pos noop]
      exact .owned unused
    · rw [if_neg noop]
      exact .failed fun uses => absurd uses unused
  rw [if_neg same]
  by_cases texts : hasText proj source = true ∧ hasText proj target = true
  case neg =>
    have unused : ¬ UsesCache proj source target := fun uses => texts ⟨uses.2.1, uses.2.2.1⟩
    rw [← Bool.and_eq_true, Bool.not_eq_true] at texts
    rw [texts]
    exact .failed fun uses => absurd uses unused
  simp only [texts.1, texts.2, Bool.and_true, Bool.not_true, Bool.false_eq_true, if_false]
  rcases missing : (if source.proj_ctx = target.proj_ctx then findEntry source target (state.pj_cache source.proj_ctx)
      else none) with _ | ⟨i, entry⟩
  case some =>
    by_cases shared : source.proj_ctx = target.proj_ctx
    · rw [if_pos shared] at missing
      exact .borrowed i entry ⟨same, texts.1, texts.2, shared⟩ missing
    · rw [if_neg shared] at missing
      cases missing
  have unfound : UsesCache proj source target → findEntry source target (state.pj_cache source.proj_ctx) = none := by
    intro uses
    rwa [if_pos uses.2.2.2] at missing
  rcases first : source.proj with _ | crs
  · refine .failed fun uses => ⟨unfound uses, ?_⟩
    rintro ⟨_, _, from_, _⟩
    cases first.symm.trans from_
  rcases last : target.proj with _ | other
  · refine .failed fun uses => ⟨unfound uses, ?_⟩
    rintro ⟨_, _, _, end_, _⟩
    cases last.symm.trans end_
  by_cases created : proj.proj_create_crs_to_crs crs other = true
  case neg =>
    have uncreated : ¬ Creatable proj source target := by
      rintro ⟨_, _, from_, end_, works⟩
      cases first.symm.trans from_
      cases last.symm.trans end_
      exact created works
    simp only [created, Bool.not_false, if_true]
    exact .failed fun uses => ⟨unfound uses, uncreated⟩
  simp only [created, Bool.not_true, Bool.false_eq_true, if_false]
  by_cases shared : source.proj_ctx = target.proj_ctx
  · rw [if_pos shared] at missing ⊢
    exact .inserted ⟨same, texts.1, texts.2, shared⟩ ⟨crs, other, first, last, created⟩ missing
  · rw [if_neg shared]
    exact .owned fun uses => shared uses.2.2.2

variable {entries : List PjCacheEntry} {entry : PjCacheEntry} {source target : ProjectionObj Crs} {pj : PJ}
  {state after : ProjState} {context : Nat} {call : ReprojectorCall Crs} {next : ReprojectorSession Crs}
  {made : Option (ReprojectionObj Crs)} {reprojector : ReprojectionObj Crs}
  {input output : Option (ProjectionObj Crs)}

theorem findEntry_some {i : Nat} (found : findEntry source target entries = some (i, entry)) : entries[i]? = some entry := by
  obtain ⟨j, _, place⟩ := bind_eq_some_iff.mp found
  obtain ⟨e, here, same⟩ := map_eq_some_iff.mp place
  obtain ⟨rfl, rfl⟩ := Prod.mk.inj same
  exact here

theorem moveToTop_perm {i : Nat} (here : entries[i]? = some entry) : (moveToTop i entry entries).Perm entries := by
  obtain ⟨inside, rfl⟩ := List.getElem?_eq_some_iff.mp here
  exact getElem_cons_eraseIdx_perm inside

def Cached (state : ProjState) (pj : PJ) : Prop := ∃ context, ∃ entry ∈ state.pj_cache context, entry.pj = pj

def Alive (state : ProjState) (pj : PJ) : Prop := ∃ source target, state.objects[pj]? = some ⟨source, target, 0⟩

structure CachesSound (state : ProjState) : Prop where
  alive : ∀ context, ∀ entry ∈ state.pj_cache context, Alive state entry.pj
  distinct : ∀ context, ((state.pj_cache context).map (·.pj)).Nodup
  apart : ∀ context other, context ≠ other → ∀ entry ∈ state.pj_cache context, ∀ e ∈ state.pj_cache other, entry.pj ≠ e.pj
  once : ∀ object ∈ state.objects, object.destructions ≤ 1

/-- A transformation that a live reprojector owns is in no cache and no other reprojector has it. -/
structure OwnersSound (proj : Proj Crs) (session : ReprojectorSession Crs) : Prop where
  known : ∀ r reprojector pj, session.reprojector r = some reprojector → reprojector.pj = some pj →
    pj < session.state.objects.length
  owned : ∀ r reprojector pj, session.reprojector r = some reprojector → reprojector.bFreePJ = true →
    reprojector.pj = some pj →
    (∃ source target, session.state.objects[pj]? = some ⟨source, target, 0⟩ ∧
      requested proj reprojector = some (source, target)) ∧ ¬ Cached session.state pj
  alone : ∀ r reprojector q other pj, session.reprojector r = some reprojector → session.reprojector q = some other →
    reprojector.bFreePJ = true → reprojector.pj = some pj → other.pj = some pj → r = q

theorem Alive.lt (alive : Alive state pj) : pj < state.objects.length := by
  obtain ⟨source, target, here⟩ := alive
  exact (List.getElem?_eq_some_iff.mp here).1

theorem create_objects_old (state : ProjState) (source target : List CString) (old : pj < state.objects.length) :
    (state.create source target).objects[pj]? = state.objects[pj]? :=
  getElem?_append_left old

theorem create_objects_new (state : ProjState) (source target : List CString) :
    (state.create source target).objects[state.objects.length]? = some ⟨source, target, 0⟩ := by
  simp [create]

theorem proj_destroy_objects_other (state : ProjState) {other : PJ} (different : other ≠ pj) :
    (state.proj_destroy pj).objects[other]? = state.objects[other]? := by
  simp [proj_destroy, Ne.symm different]

theorem proj_destroy_once (alive : Alive state pj) (once : ∀ object ∈ state.objects, object.destructions ≤ 1) :
    ∀ object ∈ (state.proj_destroy pj).objects, object.destructions ≤ 1 := by
  intro object member
  obtain ⟨i, here⟩ := mem_iff_getElem?.mp member
  by_cases same : i = pj
  · obtain ⟨source, target, was⟩ := alive
    subst same
    simp [proj_destroy, was] at here
    simp [← here]
  · rw [proj_destroy_objects_other state same] at here
    exact once object (mem_of_getElem? here)

theorem proj_destroy_destroyed (source target : List CString) :
    (state.proj_destroy pj).objects[pj]? ≠ some ⟨source, target, 0⟩ := by
  intro here
  simp [proj_destroy] at here

theorem insertEntry_room (entry : PjCacheEntry) (room : (state.pj_cache context).length < PJ_CACHE_ENTRY_SIZE) :
    insertEntry context entry state = state.setCache context (state.pj_cache context ++ [entry]) := by
  simp [insertEntry, room]

theorem insertEntry_full (entry : PjCacheEntry) (full : PJ_CACHE_ENTRY_SIZE ≤ (state.pj_cache context).length) :
    ∃ kept evicted, state.pj_cache context = kept ++ [evicted] ∧
      insertEntry context entry state = (state.proj_destroy evicted.pj).setCache context (entry :: kept) := by
  have crowded : ¬ (state.pj_cache context).length < PJ_CACHE_ENTRY_SIZE := Nat.not_lt.mpr full
  rcases eq_nil_or_concat' (state.pj_cache context) with empty | ⟨kept, evicted, entries⟩
  · rw [empty] at crowded
    simp [PJ_CACHE_ENTRY_SIZE] at crowded
  · refine ⟨kept, evicted, entries, ?_⟩
    simp only [insertEntry, if_neg crowded]
    simp [entries]

theorem mem_setCache {c : Nat} : entry ∈ (state.setCache context entries).pj_cache c ↔
    if c = context then entry ∈ entries else entry ∈ state.pj_cache c := by
  by_cases here : c = context <;> simp [setCache, here]

theorem mem_of_insertEntry {c : Nat} {e : PjCacheEntry} (member : e ∈ (insertEntry context entry state).pj_cache c) :
    e = entry ∨ e ∈ state.pj_cache c := by
  rcases Nat.lt_or_ge (state.pj_cache context).length PJ_CACHE_ENTRY_SIZE with room | full
  · rw [insertEntry_room entry room, mem_setCache] at member
    split at member
    · subst c
      simpa [or_comm] using member
    · exact .inr member
  · obtain ⟨kept, evicted, entries, run⟩ := insertEntry_full entry full
    rw [run, mem_setCache] at member
    split at member
    · subst c
      rw [entries]
      exact (mem_cons.mp member).imp_right (mem_append_left [evicted])
    · exact .inr member

theorem mem_insertEntry {c : Nat} {e : PjCacheEntry} (member : e ∈ state.pj_cache c)
    (stays : PJ_CACHE_ENTRY_SIZE ≤ (state.pj_cache context).length →
      ∀ evicted, (state.pj_cache context).getLast? = some evicted → evicted.pj ≠ e.pj) :
    e ∈ (insertEntry context entry state).pj_cache c := by
  rcases Nat.lt_or_ge (state.pj_cache context).length PJ_CACHE_ENTRY_SIZE with room | full
  · rw [insertEntry_room entry room, mem_setCache]
    split
    · subst c
      exact mem_append_left _ member
    · exact member
  · obtain ⟨kept, evicted, entries, run⟩ := insertEntry_full entry full
    have different : evicted.pj ≠ e.pj := stays full evicted (by simp [entries])
    rw [run, mem_setCache]
    split
    · subst c
      rw [entries, mem_append, mem_singleton] at member
      rcases member with old | rfl
      · exact mem_cons_of_mem _ old
      · exact absurd rfl different
    · exact member

theorem CachesSound.replace (sound : CachesSound state) (same : after.pj_cache = state.pj_cache)
    (fresh : Option PjCacheEntry) (few : entries.Subperm (fresh.toList ++ state.pj_cache context))
    (new : ∀ e ∈ fresh, Alive after e.pj ∧ ¬ Cached state e.pj)
    (stays : ∀ c, ∀ e ∈ state.pj_cache c, (c = context → e ∈ entries) → Alive after e.pj)
    (once : ∀ object ∈ after.objects, object.destructions ≤ 1) : CachesSound (after.setCache context entries) := by
  have origin : ∀ c e, e ∈ (after.setCache context entries).pj_cache c → (e ∈ fresh ∧ c = context) ∨ e ∈ state.pj_cache c := by
    intro c e member
    rw [mem_setCache, same] at member
    split at member
    · rename_i here
      rw [here]
      simpa using few.subset member
    · exact .inr member
  refine ⟨?_, ?_, ?_, once⟩
  · intro c e member
    rcases origin c e member with ⟨isFresh, _⟩ | old
    · exact (new e isFresh).1
    · apply stays c e old
      intro here
      rwa [mem_setCache, if_pos here] at member
  · intro c
    by_cases here : c = context
    · have cached : (after.setCache context entries).pj_cache c = entries := by simp [setCache, here]
      obtain ⟨placed, perm, part⟩ := few
      rw [cached, ← (perm.map _).nodup_iff]
      apply Nodup.sublist (part.map _)
      cases fresh with
      | none => exact sound.distinct context
      | some entry =>
        refine nodup_cons.mpr ⟨?_, sound.distinct context⟩
        intro member
        obtain ⟨e, old, same⟩ := List.mem_map.mp member
        exact (new entry rfl).2 ⟨context, e, old, same⟩
    · have cached : (after.setCache context entries).pj_cache c = state.pj_cache c := by simp [setCache, here, same]
      rw [cached]
      exact sound.distinct c
  · intro c other different entry member e belongs same
    rcases origin c entry member with ⟨isFresh, here⟩ | old
    · rcases origin other e belongs with ⟨_, there⟩ | older
      · exact different (here.trans there.symm)
      · exact (new entry isFresh).2 ⟨other, e, older, same.symm⟩
    · rcases origin other e belongs with ⟨isFresh, _⟩ | older
      · exact (new e isFresh).2 ⟨c, entry, old, same⟩
      · exact sound.apart c other different entry old e older same

theorem CachesSound.create (sound : CachesSound state) (source target : List CString) :
    CachesSound (state.create source target) where
  alive := by
    intro context entry member
    obtain ⟨first, last, here⟩ := sound.alive context entry member
    exact ⟨first, last, (create_objects_old state source target (sound.alive context entry member).lt).trans here⟩
  distinct := sound.distinct
  apart := sound.apart
  once := by
    intro object member
    rcases mem_append.mp member with old | new
    · exact sound.once object old
    · rw [mem_singleton.mp new]
      exact Nat.zero_le 1

theorem CachesSound.old (sound : CachesSound state) (cached : Cached state pj) : pj < state.objects.length := by
  obtain ⟨context, entry, member, rfl⟩ := cached
  exact (sound.alive context entry member).lt

theorem alive_proj_destroy {other : PJ} (alive : Alive state other) (different : other ≠ pj) :
    Alive (state.proj_destroy pj) other := by
  obtain ⟨source, target, here⟩ := alive
  exact ⟨source, target, (proj_destroy_objects_other state different).trans here⟩

theorem CachesSound.insert (sound : CachesSound state) (alive : Alive state entry.pj) (uncached : ¬ Cached state entry.pj) :
    CachesSound (insertEntry context entry state) := by
  rcases Nat.lt_or_ge (state.pj_cache context).length PJ_CACHE_ENTRY_SIZE with room | full
  · rw [insertEntry_room entry room]
    apply sound.replace rfl (some entry) perm_append_comm.subperm
    · rintro e ⟨⟩
      exact ⟨alive, uncached⟩
    · intro c e member _
      exact sound.alive c e member
    · exact sound.once
  · obtain ⟨kept, evicted, entries, run⟩ := insertEntry_full entry full
    have last : evicted ∈ state.pj_cache context := by simp [entries]
    have distinct := sound.distinct context
    rw [entries, map_append, map_singleton] at distinct
    obtain ⟨_, _, disjoint⟩ := nodup_append.mp distinct
    have same : (state.proj_destroy evicted.pj).pj_cache = state.pj_cache := rfl
    rw [run]
    apply sound.replace same (some entry)
    · rw [entries]
      exact ((sublist_append_left kept [evicted]).cons_cons entry).subperm
    · rintro e ⟨⟩
      refine ⟨alive_proj_destroy alive ?_, uncached⟩
      intro same
      exact uncached ⟨context, evicted, last, same.symm⟩
    · intro c e member remains
      apply alive_proj_destroy (sound.alive c e member)
      by_cases here : c = context
      · rcases mem_cons.mp (remains here) with rfl | old
        · exact absurd ⟨c, e, member, rfl⟩ uncached
        · exact disjoint e.pj (List.mem_map_of_mem old) evicted.pj (by simp)
      · exact sound.apart c context here e member evicted last
    · exact proj_destroy_once (sound.alive context evicted last) sound.once

theorem Normalized.caches {made : Option (PJ × Bool)} (outcome : Normalized proj source target state after made)
    (sound : CachesSound state) : CachesSound after := by
  cases outcome with
  | failed => exact sound
  | owned => exact sound.create _ _
  | borrowed i entry uses found =>
    have perm := moveToTop_perm (findEntry_some found)
    apply sound.replace rfl none perm.subperm
    · rintro e ⟨⟩
    · intro c e member _
      exact sound.alive c e member
    · exact sound.once
  | inserted uses creatable missing =>
    apply (sound.create source.args target.args).insert
    · exact ⟨_, _, create_objects_new state _ _⟩
    · intro cached
      exact lt_irrefl _ (sound.old cached)

theorem insertEntry_objects (entry : PjCacheEntry)
    (stays : PJ_CACHE_ENTRY_SIZE ≤ (state.pj_cache context).length →
      ∀ evicted, (state.pj_cache context).getLast? = some evicted → evicted.pj ≠ pj) :
    (insertEntry context entry state).objects[pj]? = state.objects[pj]? := by
  rcases Nat.lt_or_ge (state.pj_cache context).length PJ_CACHE_ENTRY_SIZE with room | full
  · rw [insertEntry_room entry room]
    rfl
  · obtain ⟨kept, evicted, entries, run⟩ := insertEntry_full entry full
    have different : evicted.pj ≠ pj := stays full evicted (by simp [entries])
    rw [run]
    exact proj_destroy_objects_other state (Ne.symm different)

theorem evicted_cached {evicted : PjCacheEntry} (last : (state.pj_cache context).getLast? = some evicted) :
    Cached state evicted.pj :=
  ⟨context, evicted, mem_of_getLast? last, rfl⟩

theorem insertEntry_uncached (uncached : ¬ Cached state pj) (different : pj ≠ entry.pj) :
    (insertEntry context entry state).objects[pj]? = state.objects[pj]? ∧ ¬ Cached (insertEntry context entry state) pj := by
  constructor
  · apply insertEntry_objects
    intro _ evicted last same
    rw [← same] at uncached
    exact uncached (evicted_cached last)
  rintro ⟨c, e, member, same⟩
  rcases mem_of_insertEntry member with rfl | old
  · exact different same.symm
  · exact uncached ⟨c, e, old, same⟩

theorem cached_moveToTop {i : Nat} (here : (state.pj_cache context)[i]? = some entry) (pj : PJ) :
    Cached (state.setCache context (moveToTop i entry (state.pj_cache context))) pj ↔ Cached state pj := by
  have members : ∀ c e, e ∈ (state.setCache context (moveToTop i entry (state.pj_cache context))).pj_cache c ↔
      e ∈ state.pj_cache c := by
    intro c e
    rw [mem_setCache]
    split
    · subst c
      exact (moveToTop_perm here).mem_iff
    · rfl
  simp only [Cached, members]

theorem Normalized.uncached {made : Option (PJ × Bool)} (outcome : Normalized proj source target state after made)
    (old : pj < state.objects.length) (uncached : ¬ Cached state pj) :
    after.objects[pj]? = state.objects[pj]? ∧ ¬ Cached after pj := by
  cases outcome with
  | failed => exact ⟨rfl, uncached⟩
  | owned => exact ⟨create_objects_old state _ _ old, uncached⟩
  | borrowed i entry uses found =>
    refine ⟨rfl, ?_⟩
    rw [cached_moveToTop (findEntry_some found)]
    exact uncached
  | inserted uses creatable missing =>
    have created : ¬ Cached (state.create source.args target.args) pj := uncached
    have apart := @insertEntry_uncached
      ⟨getStringFromArgv source.args, getStringFromArgv target.args, state.objects.length⟩ pj _ source.proj_ctx created old.ne
    exact ⟨apart.1.trans (create_objects_old state _ _ old), apart.2⟩

theorem length_insertEntry (context : Nat) (entry : PjCacheEntry) (state : ProjState) :
    (insertEntry context entry state).objects.length = state.objects.length := by
  rcases Nat.lt_or_ge (state.pj_cache context).length PJ_CACHE_ENTRY_SIZE with room | full
  · rw [insertEntry_room entry room]
    rfl
  · obtain ⟨kept, evicted, entries, run⟩ := insertEntry_full entry full
    simp [run, setCache, proj_destroy]

theorem Normalized.length {made : Option (PJ × Bool)} (outcome : Normalized proj source target state after made) :
    state.objects.length ≤ after.objects.length := by
  cases outcome with
  | failed => exact le_rfl
  | owned => simp [create]
  | borrowed => exact le_rfl
  | inserted =>
    rw [length_insertEntry]
    simp [create]

theorem Normalized.owns (outcome : Normalized proj source target state after (some (pj, true)))
    (sound : CachesSound state) :
    pj = state.objects.length ∧ after.objects[pj]? = some ⟨source.args, target.args, 0⟩ ∧ ¬ Cached after pj := by
  cases outcome with
  | owned =>
    refine ⟨rfl, create_objects_new state _ _, ?_⟩
    intro cached
    have cached : Cached state state.objects.length := cached
    exact lt_irrefl _ (sound.old cached)

theorem cached_insertEntry (context : Nat) (entry : PjCacheEntry) (state : ProjState) :
    Cached (insertEntry context entry state) entry.pj := by
  refine ⟨context, entry, ?_, rfl⟩
  rcases Nat.lt_or_ge (state.pj_cache context).length PJ_CACHE_ENTRY_SIZE with room | full
  · simp [insertEntry_room entry room, mem_setCache]
  · obtain ⟨kept, evicted, entries, run⟩ := insertEntry_full entry full
    simp [run, mem_setCache]

theorem Normalized.borrows (outcome : Normalized proj source target state after (some (pj, false))) : Cached after pj := by
  cases outcome with
  | borrowed i entry uses found =>
    rw [cached_moveToTop (findEntry_some found)]
    exact ⟨source.proj_ctx, entry, mem_of_getElem? (findEntry_some found), rfl⟩
  | inserted =>
    have cached := cached_insertEntry source.proj_ctx
      ⟨getStringFromArgv source.args, getStringFromArgv target.args, state.objects.length⟩
      (state.create source.args target.args)
    exact cached

/-- The outcomes of `msProjectCreateReprojector`. -/
inductive ReprojectorMade (proj : Proj Crs) (input output : Option (ProjectionObj Crs)) (state : ProjState) :
    ProjState → Option (ReprojectionObj Crs) → Prop where
  | without (none_needed : projectionsBetween proj input output = none) :
      ReprojectorMade proj input output state state (some ⟨input, output, none, false⟩)
  | failed {source target : ProjectionObj Crs} {after : ProjState}
      (between : projectionsBetween proj input output = some (source, target))
      (outcome : Normalized proj source target state after none) : ReprojectorMade proj input output state after none
  | made {source target : ProjectionObj Crs} {after : ProjState} {pj : PJ} {bFreePJ : Bool}
      (between : projectionsBetween proj input output = some (source, target))
      (outcome : Normalized proj source target state after (some (pj, bFreePJ))) :
      ReprojectorMade proj input output state after (some ⟨input, output, some pj, bFreePJ⟩)

theorem msProjectCreateReprojector_made [DecidableEq Crs] (proj : Proj Crs) (input output : Option (ProjectionObj Crs))
    (state : ProjState) :
    ReprojectorMade proj input output state (msProjectCreateReprojector proj input output state).1
      (msProjectCreateReprojector proj input output state).2 := by
  unfold msProjectCreateReprojector
  rcases between : projectionsBetween proj input output with _ | ⟨source, target⟩
  · exact .without between
  have outcome := createNormalizedPJ_normalized proj source target state
  rcases result : createNormalizedPJ proj source target state with ⟨after, _ | ⟨pj, bFreePJ⟩⟩
  · rw [result] at outcome
    simp only [result]
    exact .failed between outcome
  · rw [result] at outcome
    simp only [result]
    exact .made between outcome

inductive SessionStep (proj : Proj Crs) (session : ReprojectorSession Crs) :
    ReprojectorCall Crs → ReprojectorSession Crs → Prop where
  | create {input output : Option (ProjectionObj Crs)} {after : ProjState} {made : Option (ReprojectionObj Crs)}
      (outcome : ReprojectorMade proj input output session.state after made) :
      SessionStep proj session (.msProjectCreateReprojector input output) ⟨after, session.reprojectors ++ [made]⟩
  | transform {r : Nat} : SessionStep proj session (.msProjectTransformPoints r) session
  | destroy {r : Nat} {reprojector : ReprojectionObj Crs} (live : session.reprojector r = some reprojector) :
      SessionStep proj session (.msProjectDestroyReprojector r)
        ⟨msProjectDestroyReprojector reprojector session.state, session.reprojectors.set r none⟩

theorem step_sessionStep [DecidableEq Crs] {session : ReprojectorSession Crs} (legal : session.step proj call = some next) :
    SessionStep proj session call next := by
  cases call with
  | msProjectCreateReprojector input output =>
    obtain rfl := Option.some.inj legal
    exact .create (msProjectCreateReprojector_made proj input output session.state)
  | msProjectTransformPoints r =>
    obtain ⟨_, _, rfl⟩ := map_eq_some_iff.mp legal
    exact .transform
  | msProjectDestroyReprojector r =>
    obtain ⟨reprojector, live, rfl⟩ := map_eq_some_iff.mp legal
    exact .destroy live

theorem reprojector_append {session : ReprojectorSession Crs} {r : Nat} :
    (ReprojectorSession.mk after (session.reprojectors ++ [made])).reprojector r = some reprojector ↔
      session.reprojector r = some reprojector ∨ r = session.reprojectors.length ∧ made = some reprojector := by
  simp only [ReprojectorSession.reprojector]
  rcases Nat.lt_trichotomy r session.reprojectors.length with before | here | beyond
  · rw [getElem?_append_left before]
    simp [before.ne]
  · subst here
    simp
  · have none_left : (session.reprojectors ++ [made])[r]? = none := by
      rw [List.getElem?_eq_none_iff, length_append, length_singleton]
      omega
    simp [none_left, beyond.le, beyond.ne']

theorem reprojector_set {session : ReprojectorSession Crs} {gone r : Nat}
    (live : (ReprojectorSession.mk after (session.reprojectors.set gone none)).reprojector r = some reprojector) :
    session.reprojector r = some reprojector ∧ r ≠ gone := by
  simp only [ReprojectorSession.reprojector, getElem?_set] at live ⊢
  by_cases same : gone = r
  · rw [if_pos same] at live
    split at live <;> simp at live
  · rw [if_neg same] at live
    exact ⟨live, Ne.symm same⟩

structure SessionSound (proj : Proj Crs) (session : ReprojectorSession Crs) : Prop where
  caches : CachesSound session.state
  owners : OwnersSound proj session

theorem sessionSound_initial (proj : Proj Crs) : SessionSound proj .initial where
  caches := by
    constructor <;> simp [ReprojectorSession.initial, ProjState.initial]
  owners := by
    constructor <;> simp [ReprojectorSession.initial, ReprojectorSession.reprojector]

/-- A creation leaves what the others own alone, and its reprojector owns a new transformation or borrows a cached one. -/
theorem OwnersSound.append {session : ReprojectorSession Crs} (owners : OwnersSound proj session)
    (longer : session.state.objects.length ≤ after.objects.length)
    (kept : ∀ pj, pj < session.state.objects.length → ¬ Cached session.state pj →
      after.objects[pj]? = session.state.objects[pj]? ∧ ¬ Cached after pj)
    (caches : CachesSound after)
    (new : ∀ reprojector pj, made = some reprojector → reprojector.pj = some pj → if reprojector.bFreePJ then
      pj = session.state.objects.length ∧ (∃ source target, after.objects[pj]? = some ⟨source, target, 0⟩ ∧
        requested proj reprojector = some (source, target)) ∧ ¬ Cached after pj else Cached after pj) :
    OwnersSound proj ⟨after, session.reprojectors ++ [made]⟩ where
  known := by
    intro r reprojector pj live has
    rcases reprojector_append.mp live with old | ⟨_, isNew⟩
    · exact lt_of_lt_of_le (owners.known r reprojector pj old has) longer
    · have has := new reprojector pj isNew has
      split at has
      · obtain ⟨_, ⟨_, _, object, _⟩, _⟩ := has
        exact (List.getElem?_eq_some_iff.mp object).1
      · exact caches.old has
  owned := by
    intro r reprojector pj live free has
    rcases reprojector_append.mp live with old | ⟨_, isNew⟩
    · obtain ⟨⟨source, target, object, lists⟩, uncached⟩ := owners.owned r reprojector pj old free has
      obtain ⟨same, still⟩ := kept pj (owners.known r reprojector pj old has) uncached
      exact ⟨⟨source, target, same.trans object, lists⟩, still⟩
    · have has := new reprojector pj isNew has
      rw [if_pos free] at has
      exact has.2
  alone := by
    intro r reprojector q other pj live also free has shares
    rcases reprojector_append.mp live with old | ⟨last, isNew⟩
    · have inside := owners.known r reprojector pj old has
      rcases reprojector_append.mp also with older | ⟨_, isNew⟩
      · exact owners.alone r reprojector q other pj old older free has shares
      · have shares := new other pj isNew shares
        split at shares
        · exact absurd shares.1 inside.ne
        · exact absurd shares (kept pj inside (owners.owned r reprojector pj old free has).2).2
    · rcases reprojector_append.mp also with older | ⟨place, _⟩
      · have has := new reprojector pj isNew has
        rw [if_pos free] at has
        exact absurd has.1 (owners.known q other pj older shares).ne
      · exact last.trans place.symm

theorem ReprojectorMade.sound {session : ReprojectorSession Crs}
    (outcome : ReprojectorMade proj input output session.state after made) (sound : SessionSound proj session) :
    SessionSound proj ⟨after, session.reprojectors ++ [made]⟩ := by
  obtain ⟨caches, owners⟩ := sound
  cases outcome with
  | without none_needed =>
    refine ⟨caches, owners.append le_rfl (fun pj _ uncached => ⟨rfl, uncached⟩) caches ?_⟩
    intro reprojector pj new has
    cases new
    cases has
  | failed between outcome =>
    have after := outcome.caches caches
    refine ⟨after, owners.append outcome.length (fun pj => outcome.uncached) after ?_⟩
    intro reprojector pj new
    cases new
  | @made source target after pj bFreePJ between outcome =>
    have sound := outcome.caches caches
    refine ⟨sound, owners.append outcome.length (fun pj => outcome.uncached) sound ?_⟩
    intro reprojector pj new has
    cases new
    cases has
    cases bFreePJ with
    | true =>
      obtain ⟨fresh, object, uncached⟩ := outcome.owns caches
      exact ⟨fresh, ⟨_, _, object, by simp [requested, between]⟩, uncached⟩
    | false => exact outcome.borrows

theorem SessionSound.destroy {session : ReprojectorSession Crs} (sound : SessionSound proj session) {r : Nat}
    (live : session.reprojector r = some reprojector) :
    SessionSound proj ⟨msProjectDestroyReprojector reprojector session.state, session.reprojectors.set r none⟩ := by
  obtain ⟨caches, owners⟩ := sound
  by_cases frees : ∃ pj, reprojector.pj = some pj ∧ reprojector.bFreePJ = true
  case neg =>
    have same : msProjectDestroyReprojector reprojector session.state = session.state := by
      unfold msProjectDestroyReprojector
      split
      · rename_i pj has
        rw [if_neg]
        exact fun free => frees ⟨pj, has, free⟩
      · rfl
    rw [same]
    refine ⟨caches, ⟨?_, ?_, ?_⟩⟩
    · intro q other pj also has
      exact owners.known q other pj (reprojector_set also).1 has
    · intro q other pj also free has
      exact owners.owned q other pj (reprojector_set also).1 free has
    · intro q other p third pj also and_ free has shares
      exact owners.alone q other p third pj (reprojector_set also).1 (reprojector_set and_).1 free has shares
  obtain ⟨pj, has, free⟩ := frees
  obtain ⟨⟨source, target, object, _⟩, uncached⟩ := owners.owned r reprojector pj live free has
  have run : msProjectDestroyReprojector reprojector session.state = session.state.proj_destroy pj := by
    simp [msProjectDestroyReprojector, has, free]
  rw [run]
  constructor
  · constructor
    · intro context entry member
      apply alive_proj_destroy (caches.alive context entry member)
      intro same
      exact uncached ⟨context, entry, member, same⟩
    · exact caches.distinct
    · exact caches.apart
    · exact proj_destroy_once ⟨source, target, object⟩ caches.once
  · constructor
    · intro q other p also has
      have old := owners.known q other p (reprojector_set also).1 has
      simpa [proj_destroy] using old
    · intro q other p also otherFree otherHas
      obtain ⟨old, different⟩ := reprojector_set also
      obtain ⟨⟨first, last, was, lists⟩, still⟩ := owners.owned q other p old otherFree otherHas
      have apart : p ≠ pj := by
        intro same
        exact different (owners.alone q other r reprojector p old live otherFree otherHas (by rw [has, same]))
      exact ⟨⟨first, last, (proj_destroy_objects_other session.state apart).trans was, lists⟩, still⟩
    · intro q other p third x also and_ otherFree otherHas shares
      exact owners.alone q other p third x (reprojector_set also).1 (reprojector_set and_).1 otherFree otherHas shares

theorem SessionStep.sound {session : ReprojectorSession Crs} (step : SessionStep proj session call next)
    (sound : SessionSound proj session) : SessionSound proj next := by
  cases step with
  | create outcome => exact outcome.sound sound
  | transform => exact sound
  | destroy live => exact sound.destroy live

def BorrowsSound (proj : Proj Crs) (session : ReprojectorSession Crs) : Prop :=
  ∀ r reprojector pj, session.reprojector r = some reprojector → reprojector.bFreePJ = false →
    reprojector.pj = some pj → Cached session.state pj ∧
      ∃ source target, session.state.objects[pj]? = some ⟨source, target, 0⟩ ∧
        requested proj reprojector = some (source, target)

theorem lifetimesHold_of_sound {session : ReprojectorSession Crs} (sound : SessionSound proj session)
    (borrows : BorrowsSound proj session) : LifetimesHold proj session where
  carries := by
    intro r reprojector pj live has
    cases free : reprojector.bFreePJ with
    | true => exact (sound.owners.owned r reprojector pj live free has).1
    | false => exact (borrows r reprojector pj live free has).2
  once := sound.caches.once

/-- A cached transformation stays as it is, unless it is the last of a full cache that a new one enters. -/
theorem Normalized.cached {made : Option (PJ × Bool)} (outcome : Normalized proj source target state after made)
    (sound : CachesSound state) (cached : Cached state pj)
    (stays : UsesCache proj source target → findEntry source target (state.pj_cache source.proj_ctx) = none →
      Creatable proj source target → PJ_CACHE_ENTRY_SIZE ≤ (state.pj_cache source.proj_ctx).length →
      ∀ evicted, (state.pj_cache source.proj_ctx).getLast? = some evicted → evicted.pj ≠ pj) :
    Cached after pj ∧ after.objects[pj]? = state.objects[pj]? := by
  cases outcome with
  | failed => exact ⟨cached, rfl⟩
  | owned => exact ⟨cached, create_objects_old state _ _ (sound.old cached)⟩
  | borrowed i entry uses found =>
    rw [cached_moveToTop (findEntry_some found)]
    exact ⟨cached, rfl⟩
  | inserted uses creatable missing =>
    have kept := stays uses missing creatable
    obtain ⟨c, e, member, rfl⟩ := cached
    refine ⟨⟨c, e, mem_insertEntry member kept, rfl⟩, ?_⟩
    rw [insertEntry_objects]
    · exact create_objects_old state _ _ (sound.alive c e member).lt
    · exact kept

theorem ReprojectorMade.borrows {session : ReprojectorSession Crs}
    (outcome : ReprojectorMade proj input output session.state after made) (sound : SessionSound proj session)
    (borrows : BorrowsSound proj session) (keeps : KeepsLifetimes proj session (.msProjectCreateReprojector input output)) :
    BorrowsSound proj ⟨after, session.reprojectors ++ [made]⟩ := by
  have old : ∀ {source target : ProjectionObj Crs} {made : Option (PJ × Bool)},
      projectionsBetween proj input output = some (source, target) →
      Normalized proj source target session.state after made →
      ∀ r reprojector pj, session.reprojector r = some reprojector → reprojector.bFreePJ = false →
        reprojector.pj = some pj → Cached after pj ∧ ∃ first last, after.objects[pj]? = some ⟨first, last, 0⟩ ∧
          requested proj reprojector = some (first, last) := by
    intro source target made between outcome r reprojector pj live free has
    obtain ⟨cached, first, last, object, lists⟩ := borrows r reprojector pj live free has
    have kept := outcome.cached sound.caches cached ?_
    · exact ⟨kept.1, first, last, kept.2.trans object, lists⟩
    · intro uses missing creatable full evicted is_last same
      have unborrowed := (keeps source target between uses).2 missing creatable full evicted is_last
      exact unborrowed ⟨r, reprojector, live, free, by rw [has, same]⟩
  cases outcome with
  | without none_needed =>
    intro r reprojector pj live free has
    rcases reprojector_append.mp live with before | ⟨_, new⟩
    · exact borrows r reprojector pj before free has
    · cases new
      cases has
  | failed between outcome =>
    intro r reprojector pj live free has
    rcases reprojector_append.mp live with before | ⟨_, new⟩
    · exact old between outcome r reprojector pj before free has
    · cases new
  | @made source target after pj bFreePJ between outcome =>
    intro r reprojector p live free has
    rcases reprojector_append.mp live with before | ⟨_, new⟩
    · exact old between outcome r reprojector p before free has
    · cases new
      cases has
      cases free
      refine ⟨outcome.borrows, source.args, target.args, ?_, by simp [requested, between]⟩
      cases outcome with
      | borrowed i entry uses found =>
        obtain ⟨object, here, first, last⟩ := (keeps source target between uses).1 i entry found
        obtain ⟨s, t, alive⟩ := sound.caches.alive _ entry (mem_of_getElem? (findEntry_some found))
        cases here.symm.trans alive
        subst first last
        exact alive
      | inserted uses creatable missing =>
        refine (insertEntry_objects _ ?_).trans (create_objects_new session.state source.args target.args)
        intro _ evicted last
        have old := sound.caches.old (evicted_cached last)
        exact old.ne

theorem SessionStep.borrows {session : ReprojectorSession Crs} (step : SessionStep proj session call next)
    (sound : SessionSound proj session) (borrows : BorrowsSound proj session) (keeps : KeepsLifetimes proj session call) :
    BorrowsSound proj next := by
  cases step with
  | create outcome => exact outcome.borrows sound borrows keeps
  | transform => exact borrows
  | @destroy r reprojector live =>
    intro q other pj also free has
    obtain ⟨cached, first, last, object, lists⟩ := borrows q other pj (reprojector_set also).1 free has
    unfold msProjectDestroyReprojector
    split
    · rename_i owned owns
      split
      · rename_i frees
        have uncached := (sound.owners.owned r reprojector owned live frees owns).2
        have apart : pj ≠ owned := by
          intro same
          rw [same] at cached
          exact uncached cached
        exact ⟨cached, first, last, (proj_destroy_objects_other session.state apart).trans object, lists⟩
      · exact ⟨cached, first, last, object, lists⟩
    · exact ⟨cached, first, last, object, lists⟩

/-- A reprojector made with a transformation for other lists, or the loss of a borrowed one, ends what holds. -/
theorem ReprojectorMade.keeps {session : ReprojectorSession Crs}
    (outcome : ReprojectorMade proj input output session.state after made)
    (hold : LifetimesHold proj ⟨after, session.reprojectors ++ [made]⟩) :
    KeepsLifetimes proj session (.msProjectCreateReprojector input output) := by
  intro source target between uses
  cases outcome with
  | without none_needed => cases none_needed.symm.trans between
  | failed given outcome =>
    cases given.symm.trans between
    cases outcome with
    | failed unmade =>
      obtain ⟨missing, uncreated⟩ := unmade uses
      constructor
      · intro i entry found
        cases missing.symm.trans found
      · intro _ creatable
        exact absurd creatable uncreated
  | @made _ _ after pj bFreePJ given outcome =>
    cases given.symm.trans between
    have live : (ReprojectorSession.mk after (session.reprojectors ++ [some ⟨input, output, some pj, bFreePJ⟩])).reprojector
        session.reprojectors.length = some ⟨input, output, some pj, bFreePJ⟩ :=
      reprojector_append.mpr (.inr ⟨rfl, rfl⟩)
    obtain ⟨first, last, object, lists⟩ := hold.carries _ _ pj live rfl
    simp only [requested, between, map_some, Option.some.injEq, Prod.mk.injEq] at lists
    obtain ⟨rfl, rfl⟩ := lists
    cases outcome with
    | owned unused => exact absurd uses unused
    | borrowed i entry _ found =>
      constructor
      · intro j other here
        cases found.symm.trans here
        exact ⟨_, object, rfl, rfl⟩
      · intro missing
        cases missing.symm.trans found
    | inserted _ creatable missing =>
      constructor
      · intro i entry found
        cases missing.symm.trans found
      · rintro _ _ full evicted last ⟨r, reprojector, old, free, has⟩
        obtain ⟨s, t, alive, _⟩ := hold.carries r reprojector evicted.pj (reprojector_append.mpr (.inl old)) has
        have filled : PJ_CACHE_ENTRY_SIZE ≤
            ((session.state.create source.args target.args).pj_cache source.proj_ctx).length := full
        obtain ⟨kept, gone, entries, run⟩ := insertEntry_full
          ⟨getStringFromArgv source.args, getStringFromArgv target.args, session.state.objects.length⟩ filled
        have same : gone = evicted := by
          have last : ((session.state.create source.args target.args).pj_cache source.proj_ctx).getLast? = some evicted := last
          simpa [entries] using last
        rw [run, same] at alive
        exact proj_destroy_destroyed _ _ alive

theorem SessionStep.keeps {session : ReprojectorSession Crs} (step : SessionStep proj session call next)
    (hold : LifetimesHold proj next) : KeepsLifetimes proj session call := by
  cases step with
  | create outcome => exact outcome.keeps hold
  | transform => trivial
  | destroy => trivial

variable [DecidableEq Crs] {steps : List (ReprojectorSession Crs × ReprojectorCall Crs)}
  {session : ReprojectorSession Crs}

theorem ReprojectorRun.sound (run : ReprojectorRun proj steps session) : SessionSound proj session := by
  induction run with
  | start => exact sessionSound_initial proj
  | call before call legal ih => exact (step_sessionStep legal).sound ih

theorem ReprojectorRun.borrows (run : ReprojectorRun proj steps session)
    (keeps : ∀ step ∈ steps, KeepsLifetimes proj step.1 step.2) : BorrowsSound proj session := by
  induction run with
  | start =>
    intro r reprojector pj live
    simp [ReprojectorSession.initial, ReprojectorSession.reprojector] at live
  | @call steps session next before call legal ih =>
    have here := keeps (session, call) (by simp)
    exact (step_sessionStep legal).borrows before.sound (ih fun step member => keeps step (by simp [member])) here

/-- In every run, transformations stay with the live reprojectors that have them exactly when each step meets the condition. -/
theorem lifetimesHold_iff (run : ReprojectorRun proj steps session) :
    ((∀ step ∈ steps, LifetimesHold proj step.1) ∧ LifetimesHold proj session) ↔
      ∀ step ∈ steps, KeepsLifetimes proj step.1 step.2 := by
  induction run with
  | start =>
    have hold := lifetimesHold_of_sound (sessionSound_initial proj)
      (ReprojectorRun.start.borrows (by simp))
    simp [hold]
  | @call steps session next before call legal ih =>
    have step := step_sessionStep legal
    simp only [List.forall_mem_append, List.forall_mem_singleton]
    constructor
    · rintro ⟨⟨earlier, here⟩, hold⟩
      exact ⟨ih.mp ⟨earlier, here⟩, step.keeps hold⟩
    · rintro ⟨earlier, here⟩
      refine ⟨ih.mpr earlier, ?_⟩
      exact lifetimesHold_of_sound (step.sound before.sound) (step.borrows before.sound (before.borrows earlier) here)

def utmZone (zone : Nat) : ProjectionObj Nat := ⟨[ascii "proj=utm", ascii "zone=" ++ natText zone], some zone, 0⟩

def webMercator : ProjectionObj Nat := ⟨[ascii "init=epsg:3857"], some 0, 0⟩

def workingProj : Proj Nat := ⟨fun _ => true, fun _ => true, true, fun _ _ => true, fun _ => false, fun crs => some (crs + 1)⟩

theorem lifetimesHold_iff_twice :
    let call : ReprojectorCall Nat := .msProjectCreateReprojector (some (utmZone 31)) (some webMercator)
    let once : ReprojectorSession Nat :=
      ⟨⟨[⟨(utmZone 31).args, webMercator.args, 0⟩], Function.update (fun _ => []) 0
        [⟨getStringFromArgv (utmZone 31).args, getStringFromArgv webMercator.args, 0⟩]⟩,
        [some ⟨some (utmZone 31), some webMercator, some 0, false⟩]⟩
    ((∀ step ∈ [(.initial, call)], LifetimesHold workingProj step.1) ∧ LifetimesHold workingProj once) ↔
      ∀ step ∈ [(.initial, call)], KeepsLifetimes workingProj step.1 step.2 := by
  intro call once
  have run : ReprojectorRun workingProj [(.initial, call)] once := .call .start call rfl
  exact lifetimesHold_iff run

theorem reprojectorRun_calls {calls : List (ReprojectorCall Crs)} (before : ReprojectorRun proj steps session)
    (legal : calls.foldlM (ReprojectorSession.step proj) session = some next) : ∃ more, ReprojectorRun proj more next := by
  induction calls generalizing steps session with
  | nil =>
    obtain rfl := Option.some.inj legal
    exact ⟨steps, before⟩
  | cons call calls ih =>
    rw [foldlM_cons] at legal
    obtain ⟨middle, first, rest⟩ := bind_eq_some_iff.mp legal
    exact ih (.call before call first) rest

def manyZones : List (ReprojectorCall Nat) :=
  (List.range 33).map (fun i => .msProjectCreateReprojector (some (utmZone (i + 1))) (some webMercator)) ++
    [.msProjectTransformPoints 31]

theorem lifetimesHold_fails :
    ¬ ∀ steps session, ReprojectorRun workingProj steps session → LifetimesHold workingProj session := by
  intro always
  have used : ((manyZones.foldlM (ReprojectorSession.step workingProj) .initial).bind fun session =>
      (session.reprojector 31).bind fun reprojector => reprojector.pj.bind fun pj =>
        session.state.objects[pj]?.map fun object => (pj, object.destructions)) = some (31, 1) := by
    decide +kernel
  obtain ⟨session, legal, used⟩ := Option.bind_eq_some_iff.mp used
  obtain ⟨reprojector, live, used⟩ := Option.bind_eq_some_iff.mp used
  obtain ⟨pj, has, used⟩ := Option.bind_eq_some_iff.mp used
  obtain ⟨object, here, destroyed⟩ := Option.map_eq_some_iff.mp used
  obtain ⟨steps, run⟩ := reprojectorRun_calls .start legal
  obtain ⟨source, target, alive, _⟩ := (always steps session run).carries 31 reprojector pj live has
  cases here.symm.trans alive
  cases destroyed

end MapServer
