import MapServer.Union.UnionLayer

namespace MapServer
open List
variable {N Rect G : Type} {layer : UnionLayer G}

def reprojectorOf (source : SourceLayer N Rect G) : Option (G → G) :=
  if source.project && source.msProjectionsDiffer then source.reprojector else none

def unionShape (layer : UnionLayer G) (k : Nat) (source : SourceLayer N Rect G) (shape : UnionShape G) : UnionShape G :=
  finishShape layer k source (reprojectorOf source) shape

def isVisible (layer : UnionLayer G) (source : SourceLayer N Rect G) (groups : Option (List Nat) × Nat) (shape : UnionShape G) :
    Bool :=
  let classIndex := msShapeGetClass source shape groups.1 groups.2
  !(layer.styleitem && (decide (classIndex < 0) || decide (source.classes.length ≤ classIndex)))

def delivered (layer : UnionLayer G) (k : Nat) (source : SourceLayer N Rect G) (groups : Option (List Nat) × Nat)
    (shape : UnionShape G) : Option (UnionShape G) :=
  if isVisible layer source groups shape && !isFiltered layer (unionShape layer k source shape)
  then some (unionShape layer k source shape) else none

def searchRect (layer : UnionLayer G) (source : SourceLayer N Rect G) (rect : Rect) : Rect :=
  if source.transform && source.project && layer.transform && layer.project && source.msProjectionsDiffer
  then source.msProjectRect rect else rect

def answer (layer : UnionLayer G) (source : SourceLayer N Rect G) (rect : Rect) : Option (List (UnionShape G)) :=
  source.whichShapes (searchRect layer source rect)

def shapesOf (layer : UnionLayer G) (k : Nat) (source : SourceLayer N Rect G) (rect : Rect) : List (UnionShape G) :=
  ((answer layer source rect).getD []).filterMap (delivered layer k source (msAllocateValidClassGroups source))

/-- The shapes of the source layers that were active at opening, the first one at position `k`. -/
def unionOf (layer : UnionLayer G) (rect : Rect) : Nat → List (UnionSource N Rect G) → List (UnionShape G)
  | _, [] => []
  | k, source :: sources =>
    (if source.status = .MS_SUCCESS then shapesOf layer k source.layer rect else []) ++ unionOf layer rect (k + 1) sources

/-- The shapes given for a search are the union, and each was classified with the class groups of its source layer. -/
structure UnionRight (layer : UnionLayer G) (opened : List (UnionSource N Rect G)) (rect : Rect)
    (result : List (UnionShape G) × List (Nat × Option (List Nat) × Nat)) : Prop where
  shapes : result.1 = unionOf layer rect 0 opened
  classified : ∀ entry ∈ result.2, ∃ source, opened[entry.1]? = some source ∧
    entry.2 = msAllocateValidClassGroups source.layer

/-- A source layer that a search found empty has nothing to give any more, and a shape that is classified is of a source
layer with the class groups of the source layer before it. -/
structure KeepsUnion (layer : UnionLayer G) (opened : List (UnionSource N Rect G)) (earlier : List Rect) (rect : Rect) : Prop where
  lost : ∀ (k : Nat) source, opened[k]? = some source → source.status = .MS_SUCCESS →
    (∃ before ∈ earlier, answer layer source.layer before = none) → shapesOf layer k source.layer rect = []
  groups : layer.styleitem = true → ∀ (k : Nat) source previous, opened[k + 1]? = some source → opened[k]? = some previous →
    source.status = .MS_SUCCESS → (∀ before ∈ earlier, answer layer source.layer before ≠ none) →
    (answer layer source.layer rect).getD [] ≠ [] →
    msAllocateValidClassGroups previous.layer = msAllocateValidClassGroups source.layer

def UnionCursor.groups (cursor : UnionCursor G) : Option (List Nat) × Nat := (cursor.classgroup, cursor.nclasses)

def UnionSource.left (source : UnionSource N Rect G) : List (UnionShape G) :=
  match source.status with
  | .MS_SUCCESS => source.found
  | .MS_DONE => []

/-- What is given for the shapes that are left of these source layers. The class groups are those of the source layer
before each, and `groups` for the first. -/
def leftToGive (layer : UnionLayer G) : Nat → Option (List Nat) × Nat → List (UnionSource N Rect G) → List (UnionShape G)
  | _, _, [] => []
  | k, groups, source :: sources => source.left.filterMap (delivered layer k source.layer groups) ++
    leftToGive layer (k + 1) (msAllocateValidClassGroups source.layer) sources

def classifications (layer : UnionLayer G) (k : Nat) (groups : Option (List Nat) × Nat) (shapes : List (UnionShape G)) :
    List (Nat × Option (List Nat) × Nat) :=
  if layer.styleitem then List.replicate shapes.length (k, groups) else []

def leftToClassify (layer : UnionLayer G) : Nat → Option (List Nat) × Nat → List (UnionSource N Rect G) →
    List (Nat × Option (List Nat) × Nat)
  | _, _, [] => []
  | k, groups, source :: sources => classifications layer k groups source.left ++
    leftToClassify layer (k + 1) (msAllocateValidClassGroups source.layer) sources

def CursorSound (sources : List (SourceLayer N Rect G)) (cursor : UnionCursor G) : Prop :=
  ∀ k source, cursor.reprojectorCurSrcLayer = some k → sources[k]? = some source →
    cursor.reprojectorSrcLayerToLayer = reprojectorOf source

def ProjectSound (source : UnionSource N Rect G) : Prop :=
  (source.project && source.layer.msProjectionsDiffer) = (source.layer.project && source.layer.msProjectionsDiffer)

variable {source : UnionSource N Rect G} {sources : List (SourceLayer N Rect G)} {info : UnionLayerInfo N Rect G}

theorem updateReprojector_spec {k : Nat} {cursor : UnionCursor G} (here : sources[k]? = some source.layer)
    (project : ProjectSound source) (sound : CursorSound sources cursor) :
    ∃ flag reprojector, updateReprojector k source cursor = ({ source with project := flag }, { cursor with
        reprojectorCurSrcLayer := some k, reprojectorSrcLayerToLayer := reprojector }) ∧
      reprojector = reprojectorOf source.layer ∧ ProjectSound { source with project := flag } := by
  unfold updateReprojector
  by_cases current : cursor.reprojectorCurSrcLayer = some k
  · rw [if_pos current]
    refine ⟨source.project, cursor.reprojectorSrcLayerToLayer, ?_, sound k source.layer current here, project⟩
    rw [← current]
  rw [if_neg current]
  by_cases projected : (source.project && source.layer.msProjectionsDiffer) = true
  · rw [if_pos projected]
    refine ⟨source.project, _, rfl, ?_, project⟩
    rw [reprojectorOf, ← project, if_pos projected]
  · rw [if_neg projected]
    have unprojected : (source.layer.project && source.layer.msProjectionsDiffer) = false := by
      rw [← project]
      simpa using projected
    refine ⟨false, none, rfl, ?_, ?_⟩
    · rw [reprojectorOf, unprojected, if_neg Bool.false_ne_true]
    · rw [ProjectSound, unprojected]
      rfl

theorem classifyShape_spec (k : Nat) (source : SourceLayer N Rect G) (shape : UnionShape G) (cursor : UnionCursor G) :
    ∃ after, classifyShape layer k source shape cursor = (isVisible layer source cursor.groups shape, after) ∧
      after.groups = cursor.groups ∧ after.reprojectorCurSrcLayer = cursor.reprojectorCurSrcLayer ∧
      after.reprojectorSrcLayerToLayer = cursor.reprojectorSrcLayerToLayer ∧
      after.classified = (if layer.styleitem then [(k, cursor.groups)] else []) ++ cursor.classified := by
  unfold classifyShape isVisible
  cases layer.styleitem with
  | false => exact ⟨cursor, rfl, rfl, rfl, rfl, rfl⟩
  | true => exact ⟨_, rfl, rfl, rfl, rfl, rfl⟩

/-- What is taken of a source layer: the shapes up to one that is given, or all of them. -/
structure TakenFrom (layer : UnionLayer G) (sources : List (SourceLayer N Rect G)) (k : Nat) (found : List (UnionShape G))
    (source : UnionSource N Rect G) (cursor : UnionCursor G) (given : Option (UnionShape G)) (taken rest : List (UnionShape G))
    (flag : Bool) (after : UnionCursor G) : Prop where
  run : nextOfSource layer k found source cursor = (given, { source with found := rest, project := flag }, after)
  parts : found = taken ++ rest
  shapes : taken.filterMap (delivered layer k source.layer cursor.groups) = given.toList
  ended : given = none → rest = []
  project : ProjectSound { source with project := flag }
  sound : CursorSound sources after
  groups : after.groups = cursor.groups
  classified : after.classified =
    (if layer.styleitem then List.replicate taken.length (k, cursor.groups) else []) ++ cursor.classified

theorem nextOfSource_spec {k : Nat} (found : List (UnionShape G)) {cursor : UnionCursor G}
    (here : sources[k]? = some source.layer) (project : ProjectSound source) (sound : CursorSound sources cursor) :
    ∃ given taken rest flag after, TakenFrom layer sources k found source cursor given taken rest flag after := by
  induction found generalizing source cursor with
  | nil =>
    refine ⟨none, [], [], source.project, cursor, rfl, rfl, rfl, fun _ => rfl, project, sound, rfl, ?_⟩
    simp
  | cons shape found ih =>
    obtain ⟨classified, run, groups, current, reprojector, log⟩ := classifyShape_spec k source.layer shape cursor
    have classifiedSound : CursorSound sources classified := by
      intro j other isCurrent isOther
      rw [reprojector]
      exact sound j other (current.symm.trans isCurrent) isOther
    -- A shape that is skipped is taken, with what is taken after it.
    have skipped {flag : Bool} {next : UnionCursor G} (hidden : delivered layer k source.layer cursor.groups shape = none)
        (same : nextOfSource layer k (shape :: found) source cursor =
          nextOfSource layer k found { source with project := flag } next)
        (project : ProjectSound { source with project := flag }) (nextSound : CursorSound sources next)
        (nextGroups : next.groups = cursor.groups) (nextLog : next.classified = classified.classified) :
        ∃ given taken rest flag after, TakenFrom layer sources k (shape :: found) source cursor given taken rest flag after := by
      obtain ⟨given, taken, rest, flag, after, more⟩ := @ih { source with project := flag } next here project nextSound
      have shapes := more.shapes
      have logged := more.classified
      rw [nextGroups] at shapes logged
      refine ⟨given, shape :: taken, rest, flag, after, same.trans more.run, by rw [more.parts]; rfl, ?_, more.ended,
        more.project, more.sound, more.groups.trans nextGroups, ?_⟩
      · rw [filterMap_cons, hidden]
        exact shapes
      · rw [logged, nextLog, log]
        cases layer.styleitem
        · rfl
        · simp [replicate_succ']
    cases visible : isVisible layer source.layer cursor.groups shape with
    | false =>
      apply @skipped source.project classified
      · rw [delivered, visible]
        rfl
      · rw [nextOfSource, run, visible]
        rfl
      · exact project
      · exact classifiedSound
      · exact groups
      · rfl
    | true =>
      obtain ⟨flag, reprojector', update, right, flagSound⟩ := updateReprojector_spec here project classifiedSound
      subst right
      have unfolded : nextOfSource layer k (shape :: found) source cursor =
          if isFiltered layer (unionShape layer k source.layer shape) then
            nextOfSource layer k found { source with project := flag } { classified with
              reprojectorCurSrcLayer := some k, reprojectorSrcLayerToLayer := reprojectorOf source.layer }
          else (some (unionShape layer k source.layer shape), { source with found, project := flag }, { classified with
              reprojectorCurSrcLayer := some k, reprojectorSrcLayerToLayer := reprojectorOf source.layer }) := by
        rw [nextOfSource, run, visible]
        simp only [Bool.not_true, Bool.false_eq_true, if_false, update]
        rfl
      have updatedSound : CursorSound sources { classified with
          reprojectorCurSrcLayer := some k, reprojectorSrcLayerToLayer := reprojectorOf source.layer } := by
        intro j other isCurrent isOther
        obtain rfl := Option.some.inj isCurrent
        cases here.symm.trans isOther
        rfl
      cases filtered : isFiltered layer (unionShape layer k source.layer shape) with
      | true =>
        rw [filtered, if_pos rfl] at unfolded
        apply skipped _ unfolded flagSound updatedSound groups rfl
        rw [delivered, visible, filtered]
        rfl
      | false =>
        rw [filtered, if_neg Bool.false_ne_true] at unfolded
        refine ⟨_, [shape], found, flag, _, unfolded, rfl, ?_, nofun, flagSound, updatedSound, groups, log⟩
        rw [filterMap_cons, delivered, visible, filtered]
        rfl

structure InfoSound (sources : List (SourceLayer N Rect G)) (statuses : List SourceStatus) (info : UnionLayerInfo N Rect G) :
    Prop where
  layers : info.layers.map (·.layer) = sources
  statuses : info.layers.map (·.status) = statuses
  project : ∀ source ∈ info.layers, ProjectSound source
  cursor : CursorSound sources info.cursor

def UnionLayerInfo.toGive (layer : UnionLayer G) (info : UnionLayerInfo N Rect G) : List (UnionShape G) :=
  leftToGive layer info.layerIndex info.cursor.groups (info.layers.drop info.layerIndex)

def UnionLayerInfo.toClassify (layer : UnionLayer G) (info : UnionLayerInfo N Rect G) : List (Nat × Option (List Nat) × Nat) :=
  leftToClassify layer info.layerIndex info.cursor.groups (info.layers.drop info.layerIndex)

variable {statuses : List SourceStatus}

theorem InfoSound.set (sound : InfoSound sources statuses info) {i : Nat} {replaced : UnionSource N Rect G}
    (here : info.layers[i]? = some source) (sameLayer : replaced.layer = source.layer)
    (sameStatus : replaced.status = source.status) (project : ProjectSound replaced) {cursor : UnionCursor G}
    (cursorSound : CursorSound sources cursor) (layerIndex : Nat) :
    InfoSound sources statuses { layerIndex, layers := info.layers.set i replaced, cursor } where
  layers := by
    rw [map_set, sameLayer, ← sound.layers]
    have entry : (info.layers.map (·.layer))[i]? = some source.layer := by rw [getElem?_map, here]; rfl
    obtain ⟨bound, same⟩ := List.getElem?_eq_some_iff.mp entry
    rw [← same, set_getElem_self]
  statuses := by
    rw [map_set, sameStatus, ← sound.statuses]
    have entry : (info.layers.map (·.status))[i]? = some source.status := by rw [getElem?_map, here]; rfl
    obtain ⟨bound, same⟩ := List.getElem?_eq_some_iff.mp entry
    rw [← same, set_getElem_self]
  project := by
    intro other member
    rcases mem_or_eq_of_mem_set member with old | new
    · exact sound.project other old
    · rw [new]
      exact project
  cursor := cursorSound

theorem sourceTurn_spec {k : Nat} {cursor : UnionCursor G} (here : sources[k]? = some source.layer)
    (project : ProjectSound source) (sound : CursorSound sources cursor) :
    ∃ given next after, sourceTurn layer k source cursor = (given, next, after) ∧ next.layer = source.layer ∧
      next.status = source.status ∧ ProjectSound next ∧ CursorSound sources after ∧ after.groups = cursor.groups ∧
      source.left.filterMap (delivered layer k source.layer cursor.groups) =
        given.toList ++ next.left.filterMap (delivered layer k source.layer cursor.groups) ∧
      (given = none → next.left = []) ∧ after.classified.reverse ++ classifications layer k cursor.groups next.left =
        cursor.classified.reverse ++ classifications layer k cursor.groups source.left := by
  unfold sourceTurn UnionSource.left
  cases isStatus : source.status with
  | MS_DONE =>
    refine ⟨none, source, cursor, rfl, rfl, isStatus, project, sound, rfl, ?_, ?_, ?_⟩
    · rw [isStatus]
      rfl
    · intro _
      rw [isStatus]
    · rw [isStatus]
  | MS_SUCCESS =>
    obtain ⟨given, taken, rest, flag, after, took⟩ := nextOfSource_spec source.found here project sound
    refine ⟨given, _, after, took.run, rfl, isStatus, took.project, took.sound, took.groups, ?_, ?_, ?_⟩
    · show source.found.filterMap _ = given.toList ++ _
      rw [took.parts, filterMap_append, took.shapes, isStatus]
    · intro isNone
      simp only [isStatus]
      exact took.ended isNone
    · rw [took.classified, isStatus, took.parts]
      unfold classifications
      cases layer.styleitem with
      | false => rfl
      | true =>
        simp only [if_true, reverse_append, reverse_replicate, length_append, replicate_add,
          append_assoc]

theorem nextFrom_spec (layer : UnionLayer G) (left : Nat) (sound : InfoSound sources statuses info)
    (bound : info.layerIndex + left = info.layers.length) (some_ : 0 < left) :
    ∃ given after, nextFrom layer left info = (given, after) ∧ InfoSound sources statuses after ∧
      after.layerIndex < after.layers.length ∧
      (∀ shape, given = some shape → info.toGive layer = shape :: after.toGive layer ∧
        after.cursor.classified.reverse ++ after.toClassify layer = info.cursor.classified.reverse ++ info.toClassify layer) ∧
      (given = none → info.toGive layer = [] ∧
        after.cursor.classified.reverse = info.cursor.classified.reverse ++ info.toClassify layer) := by
  induction left generalizing info with
  | zero => cases some_
  | succ left ih =>
    have inside : info.layerIndex < info.layers.length := by omega
    obtain ⟨source, here⟩ : ∃ source, info.layers[info.layerIndex]? = some source := ⟨_, getElem?_eq_getElem inside⟩
    have member : source ∈ info.layers := mem_of_getElem? here
    have isSource : sources[info.layerIndex]? = some source.layer := by
      rw [← sound.layers, getElem?_map, here]
      rfl
    have dropped : info.layers.drop info.layerIndex = source :: info.layers.drop (info.layerIndex + 1) := by
      rw [drop_eq_getElem_cons inside]
      rw [getElem?_eq_getElem inside] at here
      rw [Option.some.inj here]
    obtain ⟨given, next, after, turn, sameLayer, sameStatus, project, cursorSound, groups, shapes, ended, log⟩ :=
      @sourceTurn_spec _ _ _ layer _ _ _ _ isSource (sound.project source member) sound.cursor
    have unfolded : nextFrom layer (left + 1) info = match given with
        | some shape => (some shape, { info with layers := info.layers.set info.layerIndex next, cursor := after })
        | none => if info.layerIndex + 1 = (info.layers.set info.layerIndex next).length then
            (none, { layerIndex := 0, layers := info.layers.set info.layerIndex next, cursor := after })
          else nextFrom layer left (UnionLayerInfo.mk (info.layerIndex + 1) (info.layers.set info.layerIndex next)
            (after.setClassgroup next.layer)) := by
      rw [nextFrom, here]
      simp only [turn]
      cases given <;> rfl
    have rest : (info.layers.set info.layerIndex next).drop (info.layerIndex + 1) = info.layers.drop (info.layerIndex + 1) :=
      drop_set_of_lt (Nat.lt_succ_self _)
    have length : (info.layers.set info.layerIndex next).length = info.layers.length := length_set
    rw [unfolded]
    cases given with
    | some shape =>
      refine ⟨some shape, _, rfl, sound.set here sameLayer sameStatus project cursorSound _, by rw [length]; exact inside, ?_,
        nofun⟩
      intro other same
      obtain rfl := Option.some.inj same
      have dropped' : (info.layers.set info.layerIndex next).drop info.layerIndex =
          next :: info.layers.drop (info.layerIndex + 1) := by
        rw [drop_eq_getElem_cons (by rw [length]; exact inside), rest, getElem_set_self]
      simp only [UnionLayerInfo.toGive, UnionLayerInfo.toClassify, dropped, dropped', leftToGive, leftToClassify, groups,
        sameLayer, shapes]
      refine ⟨rfl, ?_⟩
      rw [← append_assoc, log, append_assoc]
    | none =>
      have nothing := ended rfl
      rw [nothing] at shapes log
      have given : source.left.filterMap (delivered layer info.layerIndex source.layer info.cursor.groups) = [] := shapes
      have logged : after.classified.reverse = info.cursor.classified.reverse ++
          classifications layer info.layerIndex info.cursor.groups source.left := by
        rw [← log]
        unfold classifications
        cases layer.styleitem <;> simp
      by_cases last : info.layerIndex + 1 = (info.layers.set info.layerIndex next).length
      · rw [if_pos last]
        refine ⟨none, _, rfl, sound.set here sameLayer sameStatus project cursorSound _, ?_, nofun, ?_⟩
        · show 0 < (info.layers.set info.layerIndex next).length
          omega
        intro _
        have ended : info.layers.drop (info.layerIndex + 1) = [] := drop_eq_nil_of_le (by omega)
        simp only [UnionLayerInfo.toGive, UnionLayerInfo.toClassify, dropped, ended, leftToGive, leftToClassify, given, logged,
          append_nil, and_self]
      · rw [if_neg last]
        have groupsSound : CursorSound sources (after.setClassgroup next.layer) := cursorSound
        have nextSound := sound.set here sameLayer sameStatus project groupsSound (info.layerIndex + 1)
        obtain ⟨following, isNext⟩ : ∃ following, following = UnionLayerInfo.mk (info.layerIndex + 1)
            (info.layers.set info.layerIndex next) (after.setClassgroup next.layer) := ⟨_, rfl⟩
        have nextBound : following.layerIndex + left = following.layers.length := by
          rw [isNext]
          show info.layerIndex + 1 + left = (info.layers.set info.layerIndex next).length
          omega
        have toGive : info.toGive layer = following.toGive layer := by
          rw [isNext]
          simp only [UnionLayerInfo.toGive, dropped, leftToGive, given, rest, nil_append]
          rw [← sameLayer]
          rfl
        have toClassify : info.cursor.classified.reverse ++ info.toClassify layer =
            following.cursor.classified.reverse ++ following.toClassify layer := by
          have same : following.cursor.classified.reverse = after.classified.reverse := by rw [isNext]; rfl
          rw [same, logged, isNext]
          simp only [UnionLayerInfo.toClassify, dropped, leftToClassify, rest, append_assoc]
          rw [← sameLayer]
          rfl
        rw [← isNext] at nextSound ⊢
        obtain ⟨other, final, run, finalSound, finalBound, some_, none_⟩ := ih nextSound nextBound (by omega)
        refine ⟨other, final, run, finalSound, finalBound, ?_, ?_⟩
        · intro shape same
          rw [toGive, toClassify]
          exact some_ shape same
        · intro isNone
          rw [toGive, toClassify]
          exact none_ isNone

theorem drains_toGive (layer : UnionLayer G) (sound : InfoSound sources statuses info)
    (inside : info.layerIndex < info.layers.length) :
    ∃ after, Drains layer info (info.toGive layer) after ∧ InfoSound sources statuses after ∧
      after.cursor.classified.reverse = info.cursor.classified.reverse ++ info.toClassify layer := by
  generalize isLeft : info.toGive layer = shapes
  induction shapes generalizing info with
  | nil =>
    obtain ⟨given, after, run, afterSound, _, some_, none_⟩ :=
      nextFrom_spec layer (info.layers.length - info.layerIndex) sound (by omega) (by omega)
    cases given with
    | some shape =>
      rw [(some_ shape rfl).1] at isLeft
      cases isLeft
    | none =>
      refine ⟨after, .done ?_, afterSound, (none_ rfl).2⟩
      rw [msUnionLayerNextShape, if_pos inside, run]
  | cons shape shapes ih =>
    obtain ⟨given, between, run, betweenSound, bound, some_, none_⟩ :=
      nextFrom_spec layer (info.layers.length - info.layerIndex) sound (by omega) (by omega)
    cases given with
    | none =>
      rw [(none_ rfl).1] at isLeft
      cases isLeft
    | some first =>
      obtain ⟨toGive, log⟩ := some_ first rfl
      rw [toGive] at isLeft
      obtain ⟨rfl, rest⟩ := List.cons.inj isLeft
      obtain ⟨after, drains, afterSound, logged⟩ := ih betweenSound bound rest
      refine ⟨after, .shape ?_ drains, afterSound, logged.trans log⟩
      rw [msUnionLayerNextShape, if_pos inside, run]

theorem Drains.unique {first last : UnionLayerInfo N Rect G} {shapes others : List (UnionShape G)}
    (drains : Drains layer info shapes first) (also : Drains layer info others last) : shapes = others ∧ first = last := by
  induction drains generalizing others last with
  | done call =>
    cases also with
    | done other =>
      rw [call] at other
      cases other
      exact ⟨rfl, rfl⟩
    | shape other rest =>
      rw [call] at other
      cases other
  | shape call rest ih =>
    cases also with
    | done other =>
      rw [call] at other
      cases other
    | shape other more =>
      rw [call] at other
      cases other
      obtain ⟨same, ends⟩ := ih more
      exact ⟨by rw [same], ends⟩

theorem UnionSearches.unique {rects : List Rect}
    {results others : List (List (UnionShape G) × List (Nat × Option (List Nat) × Nat))}
    (searches : UnionSearches layer info rects results) (also : UnionSearches layer info rects others) :
    results = others := by
  induction searches generalizing others with
  | nil =>
    cases also
    rfl
  | cons drains calls rest ih =>
    cases also with
    | cons others logs more =>
      obtain ⟨rfl, rfl⟩ := drains.unique others
      obtain rfl := append_cancel_right (calls.symm.trans logs)
      rw [ih more]

end MapServer
