import MapServer.Lib.Loop
import MapServer.Union.UnionOfSources

namespace MapServer
open List Option
variable {N Rect G : Type} {layer : UnionLayer G}

def StillActive (layer : UnionLayer G) (earlier : List Rect) (opened : UnionSource N Rect G) : Prop :=
  opened.status = .MS_SUCCESS ∧ ∀ before ∈ earlier, answer layer opened.layer before ≠ none

/-- A source layer as it is after the searches of `earlier`. -/
structure FollowsOpened (layer : UnionLayer G) (earlier : List Rect) (source opened : UnionSource N Rect G) : Prop where
  sameLayer : source.layer = opened.layer
  active : source.status = .MS_SUCCESS ↔ StillActive layer earlier opened
  project : ProjectSound source

structure Searched (layer : UnionLayer G) (earlier : List Rect) (rect : Rect) (source opened : UnionSource N Rect G) : Prop where
  sameLayer : source.layer = opened.layer
  found : StillActive layer earlier opened → source.left = (answer layer opened.layer rect).getD []
  lost : ¬ StillActive layer earlier opened → source.left = []

variable {source : UnionSource N Rect G} {earlier : List Rect} {opened sources : List (UnionSource N Rect G)}
  {groups : Option (List Nat) × Nat} {rect : Rect}

theorem sourceRect_eq (project : ProjectSound source) (rect : Rect) :
    sourceRect layer source rect = searchRect layer source.layer rect := by
  unfold sourceRect searchRect
  unfold ProjectSound at project
  generalize source.layer.msProjectionsDiffer = differ at *
  cases differ with
  | false => simp
  | true =>
    simp only [Bool.and_true] at project ⊢
    rw [project]

theorem searchSource_follows {opened : UnionSource N Rect G} (follows : FollowsOpened layer earlier source opened)
    (rect : Rect) : FollowsOpened layer (earlier ++ [rect]) (searchSource layer rect source) opened ∧
      Searched layer earlier rect (searchSource layer rect source) opened := by
  have isAnswer : source.layer.whichShapes (sourceRect layer source rect) = answer layer opened.layer rect := by
    rw [sourceRect_eq follows.project, follows.sameLayer]
    rfl
  have activeAfter : StillActive layer (earlier ++ [rect]) opened ↔
      StillActive layer earlier opened ∧ answer layer opened.layer rect ≠ none := by
    unfold StillActive
    rw [forall_mem_append, forall_mem_singleton, and_assoc]
  unfold searchSource
  cases isStatus : source.status with
  | MS_DONE =>
    have inactive : ¬ StillActive layer earlier opened := by
      rw [← follows.active, isStatus]
      decide
    refine ⟨⟨follows.sameLayer, ?_, follows.project⟩, follows.sameLayer, fun active => absurd active inactive, fun _ => ?_⟩
    · rw [isStatus, activeAfter]
      constructor
      · nofun
      · intro both
        exact absurd both.1 inactive
    · show source.left = []
      rw [UnionSource.left, isStatus]
  | MS_SUCCESS =>
    have active := follows.active.mp isStatus
    simp only [isAnswer]
    cases found : answer layer opened.layer rect with
    | none =>
      refine ⟨⟨follows.sameLayer, ?_, follows.project⟩, follows.sameLayer, fun _ => by rw [found]; rfl, fun _ => rfl⟩
      rw [activeAfter, found]
      simp
    | some shapes =>
      refine ⟨⟨follows.sameLayer, ?_, follows.project⟩, follows.sameLayer, fun _ => ?_, fun inactive => absurd active inactive⟩
      · rw [activeAfter, found]
        simp [active]
      · rw [found]
        simp [UnionSource.left]

theorem followsOpened_of_same {others : List (UnionSource N Rect G)}
    (follow : Forall₂ (FollowsOpened layer earlier) sources opened)
    (sameLayers : others.map (·.layer) = sources.map (·.layer))
    (sameStatuses : others.map (·.status) = sources.map (·.status)) (project : ∀ source ∈ others, ProjectSound source) :
    Forall₂ (FollowsOpened layer earlier) others opened := by
  induction follow generalizing others with
  | nil =>
    obtain rfl := map_eq_nil_iff.mp sameLayers
    exact .nil
  | cons first rest ih =>
    obtain ⟨other, others, rfl, sameLayer, sameLayers⟩ := map_eq_cons_iff.mp sameLayers
    obtain ⟨sameStatus, sameStatuses⟩ := List.cons.inj sameStatuses
    refine .cons ⟨sameLayer.trans first.sameLayer, ?_, project other (mem_cons_self ..)⟩ (ih sameLayers sameStatuses ?_)
    · have status : other.status = _ := sameStatus
      rw [status]
      exact first.active
    · intro source member
      exact project source (mem_cons_of_mem _ member)

/-- The class groups that the shapes of the source layer at `j` are classified with. -/
def groupsBefore (groups : Option (List Nat) × Nat) (sources : List (UnionSource N Rect G)) : Nat → Option (List Nat) × Nat
  | 0 => groups
  | j + 1 => match sources[j]? with
    | some previous => msAllocateValidClassGroups previous.layer
    | none => groups

def GroupsKept (layer : UnionLayer G) (groups : Option (List Nat) × Nat) (sources : List (UnionSource N Rect G)) : Prop :=
  layer.styleitem = true → ∀ (j : Nat) source, sources[j]? = some source → source.left ≠ [] →
    groupsBefore groups sources j = msAllocateValidClassGroups source.layer

theorem groupsBefore_cons (groups : Option (List Nat) × Nat) (source : UnionSource N Rect G) {j : Nat}
    (inside : j ≤ sources.length) :
    groupsBefore groups (source :: sources) (j + 1) = groupsBefore (msAllocateValidClassGroups source.layer) sources j := by
  cases j with
  | zero => rfl
  | succ j =>
    have here : sources[j]? = some sources[j] := getElem?_eq_getElem inside
    simp only [groupsBefore, getElem?_cons_succ, here]

theorem mem_leftToClassify {entry : Nat × Option (List Nat) × Nat} {k : Nat} (sources : List (UnionSource N Rect G)) :
    entry ∈ leftToClassify layer k groups sources ↔ layer.styleitem = true ∧
      ∃ (j : Nat) (source : UnionSource N Rect G), sources[j]? = some source ∧ source.left ≠ [] ∧
        entry = (k + j, groupsBefore groups sources j) := by
  induction sources generalizing k groups with
  | nil => simp [leftToClassify]
  | cons first sources ih =>
    have here : entry ∈ classifications layer k groups first.left ↔
        layer.styleitem = true ∧ first.left ≠ [] ∧ entry = (k, groups) := by
      unfold classifications
      cases layer.styleitem <;> simp
    rw [leftToClassify, mem_append, here, ih]
    constructor
    · rintro (⟨styled, some_, rfl⟩ | ⟨styled, j, source, isHere, some_, rfl⟩)
      · exact ⟨styled, 0, first, rfl, some_, rfl⟩
      · obtain ⟨inside, _⟩ := List.getElem?_eq_some_iff.mp isHere
        refine ⟨styled, j + 1, source, isHere, some_, ?_⟩
        rw [groupsBefore_cons _ _ (by omega), show k + 1 + j = k + (j + 1) by omega]
    · rintro ⟨styled, j, source, isHere, some_, rfl⟩
      cases j with
      | zero =>
        obtain rfl := Option.some.inj isHere
        exact .inl ⟨styled, some_, rfl⟩
      | succ j =>
        rw [getElem?_cons_succ] at isHere
        obtain ⟨inside, _⟩ := List.getElem?_eq_some_iff.mp isHere
        refine .inr ⟨styled, j, source, isHere, some_, ?_⟩
        rw [groupsBefore_cons _ _ (by omega), show k + 1 + j = k + (j + 1) by omega]

theorem GroupsKept.tail (kept : GroupsKept layer groups (source :: sources)) :
    GroupsKept layer (msAllocateValidClassGroups source.layer) sources := by
  intro styled j other isHere some_
  obtain ⟨inside, _⟩ := List.getElem?_eq_some_iff.mp isHere
  rw [← groupsBefore_cons groups source (by omega)]
  exact kept styled (j + 1) other isHere some_

theorem delivered_of_unstyled (unstyled : layer.styleitem = false) (k : Nat) (source : SourceLayer N Rect G)
    (groups others : Option (List Nat) × Nat) : delivered layer k source groups = delivered layer k source others := by
  funext shape
  simp only [delivered, isVisible, unstyled, Bool.false_and]

theorem left_delivered (kept : GroupsKept layer groups (source :: sources)) (k : Nat) :
    source.left.filterMap (delivered layer k source.layer groups) =
      source.left.filterMap (delivered layer k source.layer (msAllocateValidClassGroups source.layer)) := by
  by_cases nothing : source.left = []
  · rw [nothing]
    rfl
  cases styled : layer.styleitem with
  | false => rw [delivered_of_unstyled styled]
  | true =>
    have same : groups = msAllocateValidClassGroups source.layer := kept styled 0 source rfl nothing
    rw [same]

theorem leftToGive_length (searched : Forall₂ (Searched layer earlier rect) sources opened) (k : Nat)
    (kept : GroupsKept layer groups sources) :
    (leftToGive layer k groups sources).length ≤ (unionOf layer rect k opened).length := by
  induction searched generalizing groups k with
  | nil => exact Nat.le_refl _
  | @cons source source' sources opened first rest ih =>
    have more := ih (k + 1) kept.tail
    rw [leftToGive, unionOf, left_delivered kept, length_append, length_append]
    by_cases active : StillActive layer earlier source'
    · rw [first.found active, if_pos active.1, first.sameLayer] at *
      show (shapesOf layer k source'.layer rect).length + _ ≤ _
      omega
    · rw [first.lost active]
      show 0 + _ ≤ _
      omega

/-- With the right class groups, the union is given if and only if no source layer that was lost has shapes. -/
theorem leftToGive_iff (searched : Forall₂ (Searched layer earlier rect) sources opened) (k : Nat)
    (kept : GroupsKept layer groups sources) : leftToGive layer k groups sources = unionOf layer rect k opened ↔
      ∀ (j : Nat) source, opened[j]? = some source → source.status = .MS_SUCCESS → ¬ StillActive layer earlier source →
        shapesOf layer (k + j) source.layer rect = [] := by
  induction searched generalizing groups k with
  | nil =>
    refine ⟨fun _ j source isHere => ?_, fun _ => rfl⟩
    cases isHere
  | @cons source source' sources opened first rest ih =>
    have more := ih (k + 1) kept.tail
    have short := leftToGive_length rest (k + 1) kept.tail
    -- What the condition says of the first source layer, and of the others.
    have parts : (∀ (j : Nat) source, (source' :: opened)[j]? = some source → source.status = .MS_SUCCESS →
          ¬ StillActive layer earlier source → shapesOf layer (k + j) source.layer rect = []) ↔
        (source'.status = .MS_SUCCESS → ¬ StillActive layer earlier source' → shapesOf layer k source'.layer rect = []) ∧
        ∀ (j : Nat) source, opened[j]? = some source → source.status = .MS_SUCCESS → ¬ StillActive layer earlier source →
          shapesOf layer (k + 1 + j) source.layer rect = [] := by
      constructor
      · intro all
        refine ⟨all 0 source' rfl, fun j other isHere => ?_⟩
        rw [show k + 1 + j = k + (j + 1) by omega]
        exact all (j + 1) other isHere
      · rintro ⟨here, others⟩ j other isHere
        cases j with
        | zero =>
          obtain rfl := Option.some.inj isHere
          exact here
        | succ j =>
          rw [show k + (j + 1) = k + 1 + j by omega]
          exact others j other isHere
    rw [parts, leftToGive, unionOf, left_delivered kept, ← more]
    by_cases active : StillActive layer earlier source'
    · rw [first.found active, if_pos active.1, first.sameLayer]
      show shapesOf layer k source'.layer rect ++ _ = _ ↔ _
      rw [append_cancel_left_eq]
      exact ⟨fun same => ⟨fun _ lost => absurd active lost, same⟩, fun both => both.2⟩
    · rw [first.lost active, filterMap_nil, nil_append]
      by_cases opens : source'.status = .MS_SUCCESS
      · rw [if_pos opens]
        constructor
        · intro same
          have lengths := congrArg List.length same
          rw [length_append] at lengths
          have none_ : shapesOf layer k source'.layer rect = [] := length_eq_zero_iff.mp (by omega)
          rw [none_, nil_append] at same
          exact ⟨fun _ _ => none_, same⟩
        · rintro ⟨none_, same⟩
          rw [none_ opens active, nil_append]
          exact same
      · rw [if_neg opens, nil_append]
        exact ⟨fun same => ⟨fun isOpen => absurd isOpen opens, same⟩, fun both => both.2⟩

theorem sameLayers_of {R : UnionSource N Rect G → UnionSource N Rect G → Prop} (all : Forall₂ R sources opened)
    (same : ∀ source other, R source other → source.layer = other.layer) : sources.map (·.layer) = opened.map (·.layer) := by
  rw [← forall₂_eq_eq_eq, forall₂_map_left_iff, forall₂_map_right_iff]
  exact all.imp same

theorem forall₂_at {α β : Type} {R : α → β → Prop} {list : List α} {others : List β} (all : Forall₂ R list others) {j : Nat}
    {a : α} {b : β} (here : list[j]? = some a) (there : others[j]? = some b) : R a b := by
  obtain ⟨inside, rfl⟩ := List.getElem?_eq_some_iff.mp here
  obtain ⟨bound, rfl⟩ := List.getElem?_eq_some_iff.mp there
  exact all.get inside bound

theorem other_at {α β : Type} {list others : List α} {f : α → β} (same : list.map f = others.map f) {j : Nat} {a : α}
    (here : list[j]? = some a) : ∃ b, others[j]? = some b ∧ f b = f a := by
  have entry : (others.map f)[j]? = some (f a) := by
    rw [← same, getElem?_map, here]
    rfl
  rw [getElem?_map, map_eq_some_iff] at entry
  exact entry

theorem classified_iff (layer : UnionLayer G) (sameLayers : sources.map (·.layer) = opened.map (·.layer))
    (groups : Option (List Nat) × Nat) :
    (∀ entry ∈ leftToClassify layer 0 groups sources, ∃ source, opened[entry.1]? = some source ∧
      entry.2 = msAllocateValidClassGroups source.layer) ↔ GroupsKept layer groups sources := by
  constructor
  · intro all styled j source here some_
    obtain ⟨other, there, right⟩ := all (0 + j, _) ((mem_leftToClassify sources).mpr ⟨styled, j, source, here, some_, rfl⟩)
    obtain ⟨same, isSame, layers⟩ := other_at sameLayers here
    rw [Nat.zero_add, isSame] at there
    obtain rfl := Option.some.inj there
    rw [← layers]
    exact right
  · intro kept entry member
    obtain ⟨styled, j, source, here, some_, rfl⟩ := (mem_leftToClassify sources).mp member
    obtain ⟨other, there, layers⟩ := other_at sameLayers here
    refine ⟨other, by rw [Nat.zero_add]; exact there, ?_⟩
    rw [layers]
    exact kept styled j source here some_

theorem left_iff {opened : UnionSource N Rect G} (searched : Searched layer earlier rect source opened) :
    source.left ≠ [] ↔ StillActive layer earlier opened ∧ (answer layer opened.layer rect).getD [] ≠ [] := by
  by_cases active : StillActive layer earlier opened
  · rw [searched.found active]
    exact ⟨fun some_ => ⟨active, some_⟩, fun both => both.2⟩
  · rw [searched.lost active]
    exact ⟨fun some_ => absurd rfl some_, fun both => absurd both.1 active⟩

/-- The first source layer is classified with its own class groups, and the others with those before them. -/
theorem groupsKept_iff (searched : Forall₂ (Searched layer earlier rect) sources opened)
    {first : UnionSource N Rect G} (isFirst : sources[0]? = some first) :
    GroupsKept layer (msAllocateValidClassGroups first.layer) sources ↔
      (layer.styleitem = true → ∀ (k : Nat) source previous, opened[k + 1]? = some source → opened[k]? = some previous →
        StillActive layer earlier source → (answer layer source.layer rect).getD [] ≠ [] →
        msAllocateValidClassGroups previous.layer = msAllocateValidClassGroups source.layer) := by
  have sameLayers := sameLayers_of searched fun _ _ both => both.sameLayer
  constructor
  · intro kept styled k source previous here before active some_
    obtain ⟨found, there, same⟩ := other_at sameLayers.symm here
    obtain ⟨other, isOther, sameOther⟩ := other_at sameLayers.symm before
    have right := kept styled (k + 1) found there ((left_iff (forall₂_at searched there here)).mpr ⟨active, some_⟩)
    simp only [groupsBefore, isOther] at right
    rw [← same, ← sameOther]
    exact right
  · intro kept styled j source here some_
    cases j with
    | zero =>
      obtain rfl := Option.some.inj (isFirst.symm.trans here)
      rfl
    | succ k =>
      obtain ⟨inside, _⟩ := List.getElem?_eq_some_iff.mp here
      have isBefore : sources[k]? = some sources[k] := getElem?_eq_getElem _
      obtain ⟨found, there, same⟩ := other_at sameLayers here
      obtain ⟨other, isOther, sameOther⟩ := other_at sameLayers isBefore
      obtain ⟨active, shapes⟩ := (left_iff (forall₂_at searched here there)).mp some_
      simp only [groupsBefore, isBefore]
      rw [← same, ← sameOther]
      exact kept styled k found other there isOther active shapes

theorem search_spec {info : UnionLayerInfo N Rect G}
    (follow : Forall₂ (FollowsOpened layer earlier) info.layers opened)
    (cursor : CursorSound (opened.map (·.layer)) info.cursor) (some_ : opened ≠ []) (rect : Rect) :
    ∃ shapes classified after, Drains layer (msUnionLayerWhichShapes layer rect info) shapes after ∧
      after.cursor.classified = classified ++ info.cursor.classified ∧
      Forall₂ (FollowsOpened layer (earlier ++ [rect])) after.layers opened ∧
      CursorSound (opened.map (·.layer)) after.cursor ∧
      (UnionRight layer opened rect (shapes, classified) ↔ KeepsUnion layer opened earlier rect) := by
  obtain ⟨sources, isSources⟩ : ∃ sources, sources = info.layers.map (searchSource layer rect) := ⟨_, rfl⟩
  have follows : Forall₂ (FollowsOpened layer (earlier ++ [rect])) sources opened := by
    rw [isSources, forall₂_map_left_iff]
    exact follow.imp fun _ _ one => (searchSource_follows one rect).1
  have searched : Forall₂ (Searched layer earlier rect) sources opened := by
    rw [isSources, forall₂_map_left_iff]
    exact follow.imp fun _ _ one => (searchSource_follows one rect).2
  have sameLayers := sameLayers_of searched fun _ _ both => both.sameLayer
  obtain ⟨first, rest, isCons⟩ : ∃ first rest, sources = first :: rest := by
    cases searched with
    | nil => exact absurd rfl some_
    | cons _ _ => exact ⟨_, _, rfl⟩
  have isFirst : sources[0]? = some first := by rw [isCons]; rfl
  have which : msUnionLayerWhichShapes layer rect info =
      { layerIndex := 0, layers := sources, cursor := info.cursor.setClassgroup first.layer } := by
    unfold msUnionLayerWhichShapes
    rw [← isSources, isCons]
  have sound : InfoSound (opened.map (·.layer)) (sources.map (·.status)) (msUnionLayerWhichShapes layer rect info) := by
    rw [which]
    refine ⟨sameLayers, rfl, fun source member => ?_, cursor⟩
    obtain ⟨j, here⟩ := mem_iff_getElem?.mp member
    obtain ⟨other, there, _⟩ := other_at sameLayers here
    exact (forall₂_at follows here there).project
  have inside : (msUnionLayerWhichShapes layer rect info).layerIndex < (msUnionLayerWhichShapes layer rect info).layers.length := by
    rw [which, isCons]
    exact Nat.succ_pos _
  obtain ⟨after, drains, afterSound, log⟩ := drains_toGive layer sound inside
  have toGive : (msUnionLayerWhichShapes layer rect info).toGive layer =
      leftToGive layer 0 (msAllocateValidClassGroups first.layer) sources := by
    rw [which]
    rfl
  have toClassify : (msUnionLayerWhichShapes layer rect info).toClassify layer =
      leftToClassify layer 0 (msAllocateValidClassGroups first.layer) sources := by
    rw [which]
    rfl
  have before : (msUnionLayerWhichShapes layer rect info).cursor.classified = info.cursor.classified := by
    rw [which]
    rfl
  rw [toGive] at drains
  rw [toClassify, before] at log
  refine ⟨_, (leftToClassify layer 0 (msAllocateValidClassGroups first.layer) sources).reverse, after, drains, ?_, ?_,
    afterSound.cursor, ?_⟩
  · rw [← reverse_reverse after.cursor.classified, log, reverse_append, reverse_reverse]
  · exact followsOpened_of_same follows (afterSound.layers.trans sameLayers.symm) afterSound.statuses afterSound.project
  have classified := classified_iff layer sameLayers (msAllocateValidClassGroups first.layer)
  have groups := groupsKept_iff searched isFirst
  constructor
  · rintro ⟨shapes, right⟩
    have kept := classified.mp fun entry member => right entry (mem_reverse.mpr member)
    have lost := (leftToGive_iff searched 0 kept).mp shapes
    constructor
    · intro k source here opens empty
      rw [← Nat.zero_add k]
      apply lost k source here opens
      rintro ⟨_, never⟩
      obtain ⟨before, member, isEmpty⟩ := empty
      exact never before member isEmpty
    · intro styled k source previous here there opens never shapes
      exact groups.mp kept styled k source previous here there ⟨opens, never⟩ shapes
  · rintro ⟨lost, kept⟩
    have kept' : GroupsKept layer (msAllocateValidClassGroups first.layer) sources := by
      apply groups.mpr
      intro styled k source previous here there active shapes
      exact kept styled k source previous here there active.1 active.2 shapes
    constructor
    · apply (leftToGive_iff searched 0 kept').mpr
      intro j source here opens inactive
      rw [Nat.zero_add]
      apply lost j source here opens
      by_contra never
      exact inactive ⟨opens, fun before member isEmpty => never ⟨before, member, isEmpty⟩⟩
    · intro entry member
      exact classified.mpr kept' entry (mem_reverse.mp member)

theorem searches_spec (some_ : opened ≠ []) (rects : List Rect) {info : UnionLayerInfo N Rect G}
    (follow : Forall₂ (FollowsOpened layer earlier) info.layers opened)
    (cursor : CursorSound (opened.map (·.layer)) info.cursor) : ∃ results, UnionSearches layer info rects results ∧
      (Forall₂ (UnionRight layer opened) rects results ↔
        ∀ before rect later, rects = before ++ rect :: later → KeepsUnion layer opened (earlier ++ before) rect) := by
  induction rects generalizing earlier info with
  | nil =>
    refine ⟨[], .nil, fun _ before rect later same => ?_, fun _ => .nil⟩
    cases before <;> cases same
  | cons rect rects ih =>
    obtain ⟨shapes, classified, after, drains, log, follows, afterSound, right⟩ := search_spec follow cursor some_ rect
    obtain ⟨results, searches, all⟩ := ih follows afterSound
    refine ⟨(shapes, classified) :: results, .cons drains log searches, ?_⟩
    rw [forall₂_cons, right, all]
    constructor
    · rintro ⟨here, others⟩ before other later same
      cases before with
      | nil =>
        obtain ⟨rfl, rfl⟩ := List.cons.inj same
        rw [append_nil]
        exact here
      | cons first before =>
        obtain ⟨rfl, tails⟩ := List.cons.inj same
        rw [append_cons]
        exact others before other later tails
    · intro each
      refine ⟨?_, fun before other later same => ?_⟩
      · have here := each [] rect rects rfl
        rwa [append_nil] at here
      · rw [← append_cons]
        exact each (rect :: before) other later (by rw [same]; rfl)

section Opened
variable [LT N] [LE N] [Zero N] [DecidableLT N] [DecidableLE N] {map : UnionMap N Rect G}

theorem openSource_follows {name : CString} {source : UnionSource N Rect G} (opened : openSource layer map name = some source) :
    FollowsOpened layer [] source source := by
  have active : source.status = .MS_SUCCESS ↔ StillActive layer [] source := by simp [StillActive]
  refine ⟨rfl, active, ?_⟩
  obtain ⟨srclayer, _, opened⟩ := bind_eq_some_iff.mp opened
  dsimp only at opened
  split at opened
  · cases opened
  split at opened
  · cases opened
    rfl
  split at opened
  · cases opened
    rfl
  split at opened
  · cases opened
    rfl
  · cases opened

theorem msUnionLayerOpen_follows {info : UnionLayerInfo N Rect G} (opened : msUnionLayerOpen layer map = some info) :
    info.layers ≠ [] ∧ Forall₂ (FollowsOpened layer []) info.layers info.layers ∧
      CursorSound (info.layers.map (·.layer)) info.cursor := by
  obtain ⟨connection, _, opened⟩ := bind_eq_some_iff.mp opened
  obtain ⟨layers, run, opened⟩ := bind_eq_some_iff.mp opened
  have each := Lib.Loop.mapM_each run
  cases opened
  refine ⟨?_, ?_, nofun⟩
  · show layers ≠ []
    rw [← length_pos_iff, ← each.length_eq, msStringSplit, length_append]
    exact Nat.succ_pos _
  · show Forall₂ _ layers layers
    rw [forall₂_same]
    intro source member
    obtain ⟨j, here⟩ := mem_iff_getElem?.mp member
    obtain ⟨inside, _⟩ := List.getElem?_eq_some_iff.mp here
    have isName := getElem?_eq_getElem (each.length_eq ▸ inside)
    exact openSource_follows (forall₂_at each isName here)

/-- Every search of an opened union layer ends, and all of them give the union of its source layers if and only if the source
layers keep it at each search. -/
theorem unionSearches_right {info : UnionLayerInfo N Rect G} (opened : msUnionLayerOpen layer map = some info)
    (rects : List Rect) :
    ∃ results, UnionSearches layer info rects results ∧ (∀ others, UnionSearches layer info rects others → others = results) ∧
      (List.Forall₂ (UnionRight layer info.layers) rects results ↔
        ∀ earlier rect later, rects = earlier ++ rect :: later → KeepsUnion layer info.layers earlier rect) := by
  obtain ⟨some_, follow, cursor⟩ := msUnionLayerOpen_follows opened
  obtain ⟨results, searches, right⟩ := searches_spec some_ rects follow cursor
  refine ⟨results, searches, fun others also => also.unique searches, right⟩

end Opened

def unionShapeOf (geometry : Nat) : UnionShape Nat := { geometry, values := [], tileindex := 0 }

def sourceNamed (name : CString) (whichShapes : Nat → Option (List (UnionShape Nat))) : SourceLayer Nat Nat Nat :=
  { name := some name, group := none, type := 0, isOff := false, minscaledenom := 0, maxscaledenom := 0, mingeowidth := 0
    maxgeowidth := 0, classgroup := none, classes := [], transform := true, project := true, msProjectionsDiffer := false
    msProjectRect := id, reprojector := none, opens := true, whichShapes }

def parcelsAndLakes : UnionMap Nat Nat Nat where
  scaledenom := 0
  extentWidth := 0
  layers := [sourceNamed (ascii "parcels") fun rect => some [unionShapeOf rect],
    sourceNamed (ascii "lakes") fun rect => if rect = 0 then none else some [unionShapeOf rect]]

def bothLayers : UnionLayer Nat where
  connection := some (ascii "parcels,lakes")
  type := 0
  unionStatusCheck := none
  unionScaleCheck := none
  transform := true
  project := true
  styleitem := false
  numitems := 0
  iteminfo := none
  filter := none

theorem unionSearches_right_both : ∃ info, msUnionLayerOpen bothLayers parcelsAndLakes = some info ∧
    ∃ results, UnionSearches bothLayers info [1, 0, 2] results ∧
      (∀ others, UnionSearches bothLayers info [1, 0, 2] others → others = results) ∧
      (List.Forall₂ (UnionRight bothLayers info.layers) [1, 0, 2] results ↔
        ∀ earlier rect later, [1, 0, 2] = earlier ++ rect :: later → KeepsUnion bothLayers info.layers earlier rect) :=
  ⟨_, rfl, unionSearches_right (show msUnionLayerOpen bothLayers parcelsAndLakes = some _ from rfl) [1, 0, 2]⟩

theorem union_loses_lakes : ¬ ∀ (layer : UnionLayer Nat) (map : UnionMap Nat Nat Nat) (info : UnionLayerInfo Nat Nat Nat)
    (rects : List Nat) (results : List (List (UnionShape Nat) × List (Nat × Option (List Nat) × Nat))),
    msUnionLayerOpen layer map = some info → UnionSearches layer info rects results →
    List.Forall₂ (UnionRight layer info.layers) rects results := by
  intro all
  have searches : UnionSearches bothLayers ((msUnionLayerOpen bothLayers parcelsAndLakes).get rfl) [0, 1]
      [([unionShapeOf 0], []), ([unionShapeOf 1], [])] := by
    apply UnionSearches.cons (.shape rfl (.done rfl)) rfl
    exact UnionSearches.cons (.shape rfl (.done rfl)) rfl .nil
  have right := all bothLayers parcelsAndLakes _ _ _ rfl searches
  obtain ⟨_, rest⟩ := List.forall₂_cons.mp right
  obtain ⟨second, _⟩ := List.forall₂_cons.mp rest
  have shapes := second.shapes
  revert shapes
  decide

end MapServer
