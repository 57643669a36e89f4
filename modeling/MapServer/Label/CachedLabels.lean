import Mathlib.Data.Rat.Floor
import MapServer.Label.LabelCache

namespace MapServer
open List Option Function

section Slots
variable {τ K : Type} {slot : LabelCacheSlotObj τ K}

/-- The lists fit, and the id of each marker is the index of the one member with its number. -/
structure SlotSound (slot : LabelCacheSlotObj τ K) : Prop where
  labels_fit : slot.labels.length ≤ slot.cachesize
  markers_fit : slot.markers.length ≤ slot.markercachesize
  room : slot.markercachesize ≤ slot.markersRoom
  fewer : slot.markers.length ≤ slot.labels.length
  numbered : ∀ member ∈ slot.labels, member.markerid < (slot.markers.length : Int)
  owned : ∀ (m : Nat) marker, slot.markers[m]? = some marker →
    ∃ member, slot.labels[marker.id]? = some member ∧ member.markerid = (m : Int)
  one : ∀ (m : Nat) marker, slot.markers[m]? = some marker →
    ∀ j member, slot.labels[j]? = some member → member.markerid = (m : Int) → j = marker.id

theorem slotSound_initial : SlotSound (msInitLabelCacheSlot : LabelCacheSlotObj τ K) where
  labels_fit := Nat.zero_le _
  markers_fit := Nat.zero_le _
  room := Nat.le_refl _
  fewer := Nat.le_refl _
  numbered := by simp [msInitLabelCacheSlot]
  owned := by simp [msInitLabelCacheSlot]
  one := by simp [msInitLabelCacheSlot]

@[simp] theorem growLabels_labels (slot : LabelCacheSlotObj τ K) : slot.growLabels.labels = slot.labels := by
  unfold LabelCacheSlotObj.growLabels
  split <;> rfl

@[simp] theorem growLabels_markers (slot : LabelCacheSlotObj τ K) : slot.growLabels.markers = slot.markers := by
  unfold LabelCacheSlotObj.growLabels
  split <;> rfl

@[simp] theorem growMarkers_labels (slot : LabelCacheSlotObj τ K) : slot.growMarkers.labels = slot.labels := by
  unfold LabelCacheSlotObj.growMarkers
  split <;> rfl

@[simp] theorem growMarkers_markers (slot : LabelCacheSlotObj τ K) : slot.growMarkers.markers = slot.markers := by
  unfold LabelCacheSlotObj.growMarkers
  split <;> rfl

@[simp] theorem growMarkers_cachesize (slot : LabelCacheSlotObj τ K) : slot.growMarkers.cachesize = slot.cachesize := by
  unfold LabelCacheSlotObj.growMarkers
  split <;> rfl

theorem SlotSound.growLabels (sound : SlotSound slot) :
    SlotSound slot.growLabels ∧ slot.growLabels.labels.length < slot.growLabels.cachesize := by
  obtain ⟨labels_fit, markers_fit, room, fewer, numbered, owned, one⟩ := sound
  unfold LabelCacheSlotObj.growLabels
  split
  case isTrue full =>
    refine ⟨⟨?_, markers_fit, room, fewer, numbered, owned, one⟩, ?_⟩ <;> simp only [MS_LABELCACHEINCREMENT] <;> omega
  case isFalse => exact ⟨⟨labels_fit, markers_fit, room, fewer, numbered, owned, one⟩, by omega⟩

theorem SlotSound.growMarkers (sound : SlotSound slot) (spare : slot.labels.length < slot.cachesize) :
    SlotSound slot.growMarkers ∧ slot.growMarkers.markers.length < slot.growMarkers.markersRoom ∧
      slot.growMarkers.markers.length < slot.growMarkers.markercachesize := by
  obtain ⟨labels_fit, markers_fit, room, fewer, numbered, owned, one⟩ := sound
  unfold LabelCacheSlotObj.growMarkers
  split
  case isTrue full =>
    refine ⟨⟨labels_fit, ?_, ?_, fewer, numbered, owned, one⟩, ?_, ?_⟩ <;> simp only [MS_LABELCACHEINCREMENT] <;> omega
  case isFalse =>
    exact ⟨⟨labels_fit, markers_fit, room, fewer, numbered, owned, one⟩, by omega, by omega⟩

theorem SlotSound.storeMember (sound : SlotSound slot) (spare : slot.labels.length < slot.cachesize)
    (member : LabelCacheMemberObj τ K) (unmarked : member.markerid = -1) :
    ∃ after, slot.storeMember member = some after ∧ SlotSound after ∧
      after.labels = slot.labels ++ [member] ∧ after.markers = slot.markers := by
  obtain ⟨labels_fit, markers_fit, room, fewer, numbered, owned, one⟩ := sound
  refine ⟨_, if_pos spare, ⟨?_, markers_fit, room, ?_, ?_, ?_, ?_⟩, rfl, rfl⟩
  · rw [length_append, length_singleton]
    exact spare
  · simp only [length_append, length_singleton]
    omega
  · intro other known
    rcases mem_append.mp known with old | new
    · exact numbered other old
    · rw [mem_singleton.mp new, unmarked]
      omega
  · intro m marker found
    obtain ⟨owner, at_, number⟩ := owned m marker found
    exact ⟨owner, (getElem?_append_left (List.getElem?_eq_some_iff.mp at_).1).trans at_, number⟩
  · intro m marker found j other at_ number
    rcases Nat.lt_or_ge j slot.labels.length with old | new
    · rw [getElem?_append_left old] at at_
      exact one m marker found j other at_ number
    · rw [getElem?_append_right new] at at_
      have same : other = member := by simpa using mem_of_getElem? at_
      rw [same, unmarked] at number
      omega

theorem SlotSound.storeWithMarker [Field K] (sound : SlotSound slot) (spare : slot.labels.length < slot.cachesize)
    (inside : slot.markers.length < slot.markersRoom) (counted : slot.markers.length < slot.markercachesize)
    (member : LabelCacheMemberObj τ K) (w h : K) :
    ∃ after, MapServer.storeWithMarker slot member w h = some after ∧ SlotSound after ∧
      after.labels = slot.labels ++ [{ member with markerid := slot.markers.length }] ∧
      after.markers = slot.markers ++ [{ id := slot.labels.length, bounds := markerBounds member.point w h }] := by
  obtain ⟨labels_fit, markers_fit, room, fewer, numbered, owned, one⟩ := sound
  let last : MarkerCacheMemberObj K := { id := slot.labels.length, bounds := markerBounds member.point w h }
  have stored : slot.storeMarker last = some { slot with markers := slot.markers ++ [last] } := if_pos inside
  refine ⟨{ slot with labels := slot.labels ++ [{ member with markerid := slot.markers.length }], markers := slot.markers ++ [last] },
    ?_, ⟨?_, ?_, room, ?_, ?_, ?_, ?_⟩, rfl, rfl⟩
  · rw [MapServer.storeWithMarker, stored]
    exact if_pos spare
  · rw [length_append, length_singleton]
    exact spare
  · rw [length_append, length_singleton]
    exact counted
  · simp only [length_append, length_singleton]
    omega
  · intro other known
    rw [length_append, length_singleton]
    rcases mem_append.mp known with old | new
    · have := numbered other old
      omega
    · rw [mem_singleton.mp new]
      simp
  · intro m marker found
    rcases Nat.lt_or_ge m slot.markers.length with old | new
    · rw [getElem?_append_left old] at found
      obtain ⟨owner, at_, number⟩ := owned m marker found
      exact ⟨owner, (getElem?_append_left (List.getElem?_eq_some_iff.mp at_).1).trans at_, number⟩
    · rw [getElem?_append_right new] at found
      have bound := (List.getElem?_eq_some_iff.mp found).1
      have same := mem_of_getElem? found
      rw [length_singleton] at bound
      rw [mem_singleton] at same
      refine ⟨{ member with markerid := slot.markers.length }, ?_, ?_⟩
      · rw [same, getElem?_append_right (Nat.le_refl _), Nat.sub_self]
        rfl
      · dsimp only
        omega
  · intro m marker found j other at_ number
    rcases Nat.lt_or_ge j slot.labels.length with old | new
    · rw [getElem?_append_left old] at at_
      have below := numbered other (mem_of_getElem? at_)
      rw [getElem?_append_left (by omega)] at found
      exact one m marker found j other at_ number
    · rw [getElem?_append_right new] at at_
      have bound := (List.getElem?_eq_some_iff.mp at_).1
      have same : other = { member with markerid := slot.markers.length } := by simpa using mem_of_getElem? at_
      rw [length_singleton] at bound
      rw [same] at number
      have last : m = slot.markers.length := (Int.ofNat.inj number).symm
      rw [last, getElem?_append_right (Nat.le_refl _), Nat.sub_self, getElem?_cons_zero, Option.some.injEq] at found
      have isId : slot.labels.length = marker.id := congrArg MarkerCacheMemberObj.id found
      omega

end Slots

section Calls
variable {ψ τ σ K : Type}

def CacheSound (cache : LabelCacheObj τ K) : Prop := ∀ k, SlotSound (cache k)

theorem cacheSound_update {cache : LabelCacheObj τ K} (sound : CacheSound cache) (k : Fin MS_MAX_LABEL_PRIORITY)
    {slot : LabelCacheSlotObj τ K} (holds : SlotSound slot) : CacheSound (update cache k slot) := by
  intro other
  by_cases same : other = k
  · rw [same, update_self]
    exact holds
  · rw [update_of_ne same]
    exact sound other

def AddsNothing (cache after : LabelCacheObj τ K) : Prop :=
  ∀ k, (after k).labels = (cache k).labels ∧ (after k).markers = (cache k).markers

structure AddsOne (cache after : LabelCacheObj τ K) (k : Fin MS_MAX_LABEL_PRIORITY) (member : LabelCacheMemberObj τ K)
    (marker : Option (MarkerCacheMemberObj K)) : Prop where
  labels : (after k).labels = (cache k).labels ++ [member]
  markers : (after k).markers = (cache k).markers ++ marker.toList
  others : ∀ other, other ≠ k → after other = cache other

theorem AddsOne.not_nothing {cache after : LabelCacheObj τ K} {k : Fin MS_MAX_LABEL_PRIORITY}
    {member : LabelCacheMemberObj τ K} {marker : Option (MarkerCacheMemberObj K)} (one : AddsOne cache after k member marker) :
    ¬ AddsNothing cache after := by
  intro nothing
  have lengths := congrArg List.length (one.labels.symm.trans (nothing k).1)
  simp at lengths

theorem addsNothing_refl (cache : LabelCacheObj τ K) : AddsNothing cache cache := fun _ => ⟨rfl, rfl⟩

theorem addsNothing_update {cache : LabelCacheObj τ K} {k : Fin MS_MAX_LABEL_PRIORITY} {slot : LabelCacheSlotObj τ K}
    (labels : slot.labels = (cache k).labels) (markers : slot.markers = (cache k).markers) :
    AddsNothing cache (update cache k slot) := by
  intro other
  by_cases same : other = k
  · rw [same, update_self]
    exact ⟨labels, markers⟩
  · rw [update_of_ne same]
    exact ⟨rfl, rfl⟩

theorem addsOne_update {cache : LabelCacheObj τ K} {k : Fin MS_MAX_LABEL_PRIORITY} {slot : LabelCacheSlotObj τ K}
    {member : LabelCacheMemberObj τ K} {marker : Option (MarkerCacheMemberObj K)}
    (labels : slot.labels = (cache k).labels ++ [member]) (markers : slot.markers = (cache k).markers ++ marker.toList) :
    AddsOne cache (update cache k slot) k member marker := by
  refine ⟨?_, ?_, fun other different => update_of_ne different slot cache⟩
  · rwa [update_self]
  · rwa [update_self]

structure LabelCall (ψ τ σ K : Type) where
  services : LabelServices ψ τ σ K
  resolutionfactor : K
  layer : LabelLayerObj τ σ K
  classindex : Nat
  classPtr : LabelClassObj τ σ
  found : layer.classes[classindex]? = some classPtr
  shape : ψ
  point : PointObj K
  featuresize : K

variable [Field K]

/-- The size of the marker for a call, where there is one; `none` when it cannot be had. -/
def LabelCall.markerSize (call : LabelCall ψ τ σ K) : Option (Option (K × K)) :=
  match call.layer.isPoint, call.classPtr.styles with
  | true, style :: _ => (call.services.msGetMarkerSize style call.layer.scalefactor).map some
  | _, _ => some none

structure LabelPlan (τ K : Type) where
  k : Fin MS_MAX_LABEL_PRIORITY
  textsymbols : List (TextSymbolObj τ K)
  size : Option (K × K)

def LabelCall.marker (call : LabelCall ψ τ σ K) (slot : LabelCacheSlotObj τ K) (plan : LabelPlan τ K) : Option (MarkerCacheMemberObj K) :=
  plan.size.map fun size => { id := slot.labels.length, bounds := markerBounds call.point size.1 size.2 }

def LabelCall.member (call : LabelCall ψ τ σ K) (slot : LabelCacheSlotObj τ K) (plan : LabelPlan τ K) : LabelCacheMemberObj τ K :=
  { newMember call.layer call.classindex plan.textsymbols call.point with
    markerid := if plan.size.isSome then slot.markers.length else -1 }

def PlanDone (call : LabelCall ψ τ σ K) (cache after : LabelCacheObj τ K) : Option (LabelPlan τ K) → Prop
  | none => AddsNothing cache after
  | some plan => AddsOne cache after plan.k (call.member (cache plan.k) plan) (call.marker (cache plan.k) plan)

variable (call : LabelCall ψ τ σ K) {cache : LabelCacheObj τ K}

theorem storeGroup_eq (k : Fin MS_MAX_LABEL_PRIORITY) (member : LabelCacheMemberObj τ K) :
    storeGroup call.services cache call.layer call.classPtr.styles k member = match call.markerSize with
      | none => some (leaveSlot cache .MS_FAILURE k (cache k).growLabels)
      | some none => ((cache k).growLabels.storeMember member).bind fun slot => some (leaveSlot cache .MS_SUCCESS k slot)
      | some (some size) => (storeWithMarker (cache k).growLabels.growMarkers member size.1 size.2).bind fun slot =>
        some (leaveSlot cache .MS_SUCCESS k slot) := by
  unfold storeGroup LabelCall.markerSize
  cases call.layer.isPoint with
  | false => rfl
  | true =>
    cases call.classPtr.styles with
    | nil => rfl
    | cons style _ =>
      dsimp only
      cases call.services.msGetMarkerSize style call.layer.scalefactor <;> rfl

theorem storeSingle_eq (k : Fin MS_MAX_LABEL_PRIORITY) (member : LabelCacheMemberObj τ K) :
    storeSingle call.services cache call.layer call.classPtr.styles (some call.point) k member = match call.markerSize with
      | none => some (leaveSlot cache .MS_FAILURE k (cache k).growLabels.growMarkers)
      | some _ => storeGroup call.services cache call.layer call.classPtr.styles k member := by
  unfold storeSingle storeGroup LabelCall.markerSize
  cases call.layer.isPoint with
  | false => rfl
  | true =>
    cases call.classPtr.styles with
    | nil => rfl
    | cons style _ =>
      dsimp only
      cases call.services.msGetMarkerSize style call.layer.scalefactor <;> rfl

theorem storeGroup_spec (sound : CacheSound cache) (k : Fin MS_MAX_LABEL_PRIORITY) (textsymbols : List (TextSymbolObj τ K)) :
    ∃ outcome, storeGroup call.services cache call.layer call.classPtr.styles k
        (newMember call.layer call.classindex textsymbols call.point) = some outcome ∧
      CacheSound outcome.cache ∧ PlanDone call cache outcome.cache (call.markerSize.map fun size => ⟨k, textsymbols, size⟩) := by
  obtain ⟨grown, spare⟩ := (sound k).growLabels
  rw [storeGroup_eq]
  match call.markerSize with
  | none => exact ⟨_, rfl, cacheSound_update sound k grown, addsNothing_update (by simp) (by simp)⟩
  | some none =>
    obtain ⟨after, stored, holds, labels, markers⟩ :=
      grown.storeMember spare (newMember call.layer call.classindex textsymbols call.point) rfl
    refine ⟨_, congrArg (Option.bind · _) stored, cacheSound_update sound k holds, addsOne_update ?_ ?_⟩
    · simpa [LabelCall.member, newMember] using labels
    · simpa [LabelCall.marker] using markers
  | some (some (w, h)) =>
    obtain ⟨room, inside, counted⟩ := grown.growMarkers spare
    obtain ⟨after, stored, holds, labels, markers⟩ :=
      room.storeWithMarker (by simpa using spare) inside counted (newMember call.layer call.classindex textsymbols call.point) w h
    refine ⟨_, congrArg (Option.bind · _) stored, cacheSound_update sound k holds, addsOne_update ?_ ?_⟩
    · simpa [LabelCall.member] using labels
    · simpa [LabelCall.marker, newMember] using markers

theorem storeSingle_spec (sound : CacheSound cache) (k : Fin MS_MAX_LABEL_PRIORITY) (textsymbols : List (TextSymbolObj τ K)) :
    ∃ outcome, storeSingle call.services cache call.layer call.classPtr.styles (some call.point) k
        (newMember call.layer call.classindex textsymbols call.point) = some outcome ∧
      CacheSound outcome.cache ∧ PlanDone call cache outcome.cache (call.markerSize.map fun size => ⟨k, textsymbols, size⟩) := by
  have planned := storeGroup_spec call sound k textsymbols
  rw [storeSingle_eq]
  cases sized : call.markerSize with
  | some size => rwa [sized] at planned
  | none =>
    obtain ⟨grown, spare⟩ := (sound k).growLabels
    exact ⟨_, rfl, cacheSound_update sound k (grown.growMarkers spare).1, addsNothing_update (by simp) (by simp)⟩

variable [LinearOrder K] [FloorRing K]

def LabelCall.group (call : LabelCall ψ τ σ K) (cache : LabelCacheObj τ K) : Option (AddOutcome τ K) :=
  msAddLabelGroup call.services call.resolutionfactor cache call.layer call.classindex call.shape call.point call.featuresize

/-- A call of `msAddLabel` for the shape and the point. -/
def LabelCall.single (call : LabelCall ψ τ σ K) (label : LabelObj τ) (ts : Option (TextSymbolObj τ K)) (cache : LabelCacheObj τ K) :
    Option (AddOutcome τ K × LabelObj τ) :=
  msAddLabel call.services call.resolutionfactor cache call.layer call.classindex label (some call.shape) (some call.point)
    call.featuresize ts

def LabelCall.groupPlan : Option (LabelPlan τ K) :=
  match call.classPtr.labels with
  | [] => none
  | first :: _ =>
    if checkMask call.layer.mask [call.point] = .shown then
      match groupSymbols call.services call.resolutionfactor call.layer.scalefactor call.shape call.featuresize call.classPtr.labels with
      | some (ts :: rest) => call.markerSize.map fun size => ⟨slotIndex first.priority, ts :: rest, size⟩
      | _ => none
    else none

theorem group_spec (sound : CacheSound cache) :
    ∃ outcome, call.group cache = some outcome ∧ CacheSound outcome.cache ∧ PlanDone call cache outcome.cache call.groupPlan := by
  unfold LabelCall.group msAddLabelGroup LabelCall.groupPlan
  rw [call.found, bind_eq_bind, bind_some]
  cases call.classPtr.labels with
  | nil => exact ⟨_, rfl, sound, addsNothing_refl cache⟩
  | cons first rest =>
    dsimp only
    cases checkMask call.layer.mask [call.point] with
    | failed | hidden | unsupported => exact ⟨_, rfl, sound, addsNothing_refl cache⟩
    | shown =>
      rw [if_pos rfl]
      match groupSymbols call.services call.resolutionfactor call.layer.scalefactor call.shape call.featuresize (first :: rest) with
      | none | some [] => exact ⟨_, rfl, sound, addsNothing_refl cache⟩
      | some (ts :: others) => exact storeGroup_spec call sound _ _

def LabelCall.singlePlan (label : LabelObj τ) (ts : Option (TextSymbolObj τ K)) : Option (LabelPlan τ K) :=
  let annotext := labelText call.services label (some call.shape) ts
  if annotext = none ∧ !hasLabelPoint label then none
  else if call.classPtr.leader ∧ ((ts.bind TextSymbolObj.textpath).any TextPathObj.absolute) then none
  else if checkMask call.layer.mask [call.point] = .shown then
    let ts := ts.getD (msPopulateTextSymbolForLabelAndString call.resolutionfactor label annotext call.layer.scalefactor)
    match sizedSymbol call.services ts label call.featuresize with
    | none => none
    | some ts =>
      if annotext ≠ none ∧ label.autominfeaturesize ∧ call.featuresize > 0 ∧
          (ts.textpath.any fun textpath => call.featuresize > textpath.bbox.maxx - textpath.bbox.minx) then none
      else call.markerSize.map fun size => ⟨slotIndex (clampPriority label.priority), [ts], size⟩
  else none

theorem single_spec (sound : CacheSound cache) (label : LabelObj τ) (ts : Option (TextSymbolObj τ K)) :
    ∃ outcome after, call.single label ts cache = some (outcome, after) ∧ CacheSound outcome.cache ∧
      PlanDone call cache outcome.cache (call.singlePlan label ts) := by
  unfold LabelCall.single msAddLabel LabelCall.singlePlan
  rw [call.found, bind_eq_bind, bind_some]
  have leaves (status : AddStatus) (error : Option ErrorObj) : ∃ outcome after,
      some (({ leaveCache cache status with error } : AddOutcome τ K), label) = some (outcome, after) ∧
      CacheSound outcome.cache ∧ PlanDone call cache outcome.cache none := ⟨_, _, rfl, sound, addsNothing_refl cache⟩
  dsimp only [bind_some]
  split
  · exact leaves .MS_SUCCESS none
  · split
    · exact leaves .MS_FAILURE _
    · rw [maskPoints]
      cases checkMask call.layer.mask [call.point] with
      | failed | hidden | unsupported => exact ⟨_, _, rfl, sound, addsNothing_refl cache⟩
      | shown =>
        rw [if_pos rfl]
        match sizedSymbol call.services (ts.getD (msPopulateTextSymbolForLabelAndString call.resolutionfactor label
          (labelText call.services label (some call.shape) ts) call.layer.scalefactor)) label call.featuresize with
        | none => exact leaves .MS_FAILURE none
        | some sized =>
          dsimp only
          split
          · exact leaves .MS_SUCCESS none
          · obtain ⟨outcome, stored, holds, done⟩ := storeSingle_spec call sound (slotIndex (clampPriority label.priority)) [sized]
            rw [memberPoint, bind_eq_bind, bind_some, stored]
            exact ⟨_, _, rfl, holds, done⟩

inductive AddCall (ψ τ σ K : Type) where
  | group (call : LabelCall ψ τ σ K)
  | single (call : LabelCall ψ τ σ K) (label : LabelObj τ) (ts : Option (TextSymbolObj τ K))

def AddCall.run (cache : LabelCacheObj τ K) : AddCall ψ τ σ K → Option (LabelCacheObj τ K)
  | .group call => (call.group cache).map AddOutcome.cache
  | .single call label ts => (call.single label ts cache).map fun outcome => outcome.1.cache

def runCalls (cache : LabelCacheObj τ K) : List (AddCall ψ τ σ K) → Option (LabelCacheObj τ K)
  | [] => some cache
  | call :: calls => (call.run cache).bind (runCalls · calls)

theorem addCall_sound (sound : CacheSound cache) (call : AddCall ψ τ σ K) :
    ∃ after, call.run cache = some after ∧ CacheSound after := by
  cases call with
  | group call =>
    obtain ⟨outcome, run, holds, _⟩ := group_spec call sound
    exact ⟨outcome.cache, by rw [AddCall.run, run]; rfl, holds⟩
  | single call label ts =>
    obtain ⟨outcome, _, run, holds, _⟩ := single_spec call sound label ts
    exact ⟨outcome.cache, by rw [AddCall.run, run]; rfl, holds⟩

theorem runCalls_sound (sound : CacheSound cache) (calls : List (AddCall ψ τ σ K)) :
    ∃ after, runCalls cache calls = some after ∧ CacheSound after := by
  induction calls generalizing cache with
  | nil => exact ⟨cache, rfl, sound⟩
  | cons call calls ih =>
    obtain ⟨next, run, holds⟩ := addCall_sound sound call
    obtain ⟨after, rest, final⟩ := ih holds
    exact ⟨after, by rw [runCalls, run, bind_some, rest], final⟩

omit [Field K] [LinearOrder K] [FloorRing K] in
theorem cacheSound_initial : CacheSound (msInitLabelCache : LabelCacheObj τ K) := fun _ => slotSound_initial

structure OneLabelCall (ψ τ σ K : Type) extends LabelCall ψ τ σ K where
  label : LabelObj τ
  text : String
  only : classPtr.labels = [label]
  isOn : services.msGetLabelStatus shape label = true
  hasText : services.msShapeGetLabelAnnotation shape label = some text
  nonempty : text ≠ ""

variable (one : OneLabelCall ψ τ σ K)

def OneLabelCall.symbol : TextSymbolObj τ K :=
  msPopulateTextSymbolForLabelAndString one.resolutionfactor one.label (some one.text) one.layer.scalefactor

abbrev OneLabelCall.Sizes : Prop := one.label.autominfeaturesize = true ∧ one.featuresize > 0

def TextPathObj.width (textpath : TextPathObj K) : K := textpath.bbox.maxx - textpath.bbox.minx

def OneLabelCall.Storable : Prop := checkMask one.layer.mask [one.point] = .shown ∧ one.markerSize ≠ none

/-- What is added when a text path with `skipped` leads to nothing. -/
def OneLabelCall.plan (skipped : TextPathObj K → Prop) [DecidablePred skipped] : Option (LabelPlan τ K) :=
  if checkMask one.layer.mask [one.point] = .shown then
    if one.label.autominfeaturesize = true ∧ one.featuresize > 0 then
      (one.services.msComputeTextPath one.symbol).bind fun textpath =>
        if skipped textpath then none
        else one.markerSize.map fun size => ⟨slotIndex one.label.priority, [{ one.symbol with textpath := some textpath }], size⟩
    else one.markerSize.map fun size => ⟨slotIndex one.label.priority, [one.symbol], size⟩
  else none

theorem clampPriority_clamp (priority : Int) : clampPriority (clampPriority priority) = clampPriority priority := by
  unfold clampPriority MS_MAX_LABEL_PRIORITY
  split
  · decide
  · split
    · decide
    · rfl

theorem slotIndex_clamp (priority : Int) : slotIndex (clampPriority priority) = slotIndex priority := by
  unfold slotIndex
  simp only [clampPriority_clamp]

theorem groupPlan_one : one.groupPlan = one.plan fun textpath => one.featuresize < textpath.width := by
  unfold LabelCall.groupPlan OneLabelCall.plan
  rw [one.only]
  dsimp only
  split
  case isFalse => rfl
  case isTrue =>
    have turn : groupSymbols one.services one.resolutionfactor one.layer.scalefactor one.shape one.featuresize [one.label] =
        if one.label.autominfeaturesize = true ∧ one.featuresize > 0 then
          (one.services.msComputeTextPath one.symbol).bind fun textpath =>
            if one.featuresize < textpath.width then some [] else some [{ one.symbol with textpath := some textpath }]
        else some [one.symbol] := by
      simp [groupSymbols, one.isOn, one.hasText, one.nonempty, OneLabelCall.symbol, TextPathObj.width]
      rfl
    rw [turn]
    by_cases sizes : one.label.autominfeaturesize = true ∧ one.featuresize > 0
    · rw [if_pos sizes, if_pos sizes]
      cases one.services.msComputeTextPath one.symbol with
      | none => rfl
      | some textpath =>
        rw [bind_some, bind_some]
        by_cases less : one.featuresize < textpath.width
        · rw [if_pos less, if_pos less]
        · rw [if_neg less, if_neg less]
    · rw [if_neg sizes, if_neg sizes]

theorem singlePlan_one : one.singlePlan one.label none = one.plan fun textpath => one.featuresize > textpath.width := by
  unfold LabelCall.singlePlan OneLabelCall.plan
  have text : labelText one.services one.label (some one.shape) (none : Option (TextSymbolObj τ K)) = some one.text := one.hasText
  rw [text, slotIndex_clamp]
  dsimp only
  rw [if_neg (by simp), if_neg (by simp)]
  split
  case isFalse => rfl
  case isTrue =>
    have symbol : (none : Option (TextSymbolObj τ K)).getD (msPopulateTextSymbolForLabelAndString one.resolutionfactor one.label
      (some one.text) one.layer.scalefactor) = one.symbol := rfl
    have turn : sizedSymbol one.services one.symbol one.label one.featuresize =
        if one.label.autominfeaturesize = true ∧ one.featuresize > 0 then
          (one.services.msComputeTextPath one.symbol).bind fun textpath => some { one.symbol with textpath := some textpath }
        else some one.symbol := by
      simp [sizedSymbol, OneLabelCall.symbol, msPopulateTextSymbolForLabelAndString]
    rw [symbol, turn]
    by_cases sizes : one.label.autominfeaturesize = true ∧ one.featuresize > 0
    · rw [if_pos sizes, if_pos sizes]
      cases one.services.msComputeTextPath one.symbol with
      | none => rfl
      | some textpath => simp [sizes, TextPathObj.width]
    · rw [if_neg sizes, if_neg sizes]
      dsimp only
      rw [if_neg]
      rintro ⟨_, auto, positive, _⟩
      exact sizes ⟨auto, positive⟩

theorem plan_skipped (skipped : TextPathObj K → Prop) [DecidablePred skipped] (sizes : one.Sizes) {textpath : TextPathObj K}
    (computed : one.services.msComputeTextPath one.symbol = some textpath) (skips : skipped textpath) : one.plan skipped = none := by
  unfold OneLabelCall.plan
  rw [if_pos sizes, computed, bind_some, if_pos skips, ite_self]

theorem plan_kept (skipped : TextPathObj K → Prop) [DecidablePred skipped] (storable : one.Storable) (sizes : one.Sizes)
    {textpath : TextPathObj K} (computed : one.services.msComputeTextPath one.symbol = some textpath)
    (kept : ¬ skipped textpath) : ∃ plan, one.plan skipped = some plan := by
  obtain ⟨size, sized⟩ := ne_none_iff_exists'.mp storable.2
  unfold OneLabelCall.plan
  rw [if_pos storable.1, if_pos sizes, computed, bind_some, if_neg kept, sized]
  exact ⟨_, rfl⟩

theorem plan_textsymbols {skipped : TextPathObj K → Prop} [DecidablePred skipped] {plan : LabelPlan τ K}
    (planned : one.plan skipped = some plan) : plan.textsymbols.length = 1 ∧ plan.k = slotIndex one.label.priority := by
  unfold OneLabelCall.plan at planned
  split at planned
  · split at planned
    · obtain ⟨textpath, _, planned⟩ := bind_eq_some_iff.mp planned
      split at planned
      · cases planned
      · obtain ⟨size, _, rfl⟩ := map_eq_some_iff.mp planned
        exact ⟨rfl, rfl⟩
    · obtain ⟨size, _, rfl⟩ := map_eq_some_iff.mp planned
      exact ⟨rfl, rfl⟩
  · cases planned

def OneLabelCall.AsWideAsText : Prop :=
  one.Storable → one.Sizes → ∀ textpath, one.services.msComputeTextPath one.symbol = some textpath → one.featuresize = textpath.width

theorem plan_congr {p q : TextPathObj K → Prop} [DecidablePred p] [DecidablePred q]
    (same : one.Storable → one.Sizes → ∀ textpath, one.services.msComputeTextPath one.symbol = some textpath → (p textpath ↔ q textpath)) :
    one.plan p = one.plan q := by
  unfold OneLabelCall.plan
  split
  case isFalse => rfl
  case isTrue shown =>
    split
    case isFalse => rfl
    case isTrue sizes =>
      cases computed : one.services.msComputeTextPath one.symbol with
      | none => rfl
      | some textpath =>
        rw [bind_some, bind_some]
        cases sized : one.markerSize with
        | none => simp
        | some size => simp only [same ⟨shown, by simp [sized]⟩ sizes textpath computed]

/-- What the two calls leave: nothing more, or the same member and marker in the same slot; and where a text path is
computed and stored, nothing exactly for a feature smaller than the text. -/
structure CachedAlike (cache group single : LabelCacheObj τ K) : Prop where
  same : AddsNothing cache group ∧ AddsNothing cache single ∨
    ∃ plan : LabelPlan τ K, plan.textsymbols.length = 1 ∧ plan.k = slotIndex one.label.priority ∧
      PlanDone one.toLabelCall cache group (some plan) ∧ PlanDone one.toLabelCall cache single (some plan)
  smaller : one.Storable → one.Sizes → ∀ textpath, one.services.msComputeTextPath one.symbol = some textpath →
    (AddsNothing cache group ↔ one.featuresize < textpath.width) ∧ (AddsNothing cache single ↔ one.featuresize < textpath.width)

theorem cachedAlike_iff (sound : CacheSound cache) :
    ∃ group single after, one.group cache = some group ∧ one.single one.label none cache = some (single, after) ∧
      (CachedAlike one cache group.cache single.cache ↔ one.AsWideAsText) := by
  obtain ⟨group, runGroup, _, doneGroup⟩ := group_spec one.toLabelCall sound
  obtain ⟨single, after, runSingle, _, doneSingle⟩ := single_spec one.toLabelCall sound one.label none
  refine ⟨group, single, after, runGroup, runSingle, ?_⟩
  rw [groupPlan_one] at doneGroup
  rw [singlePlan_one] at doneSingle
  constructor
  · intro alike storable sizes textpath computed
    obtain ⟨groupLess, singleLess⟩ := alike.smaller storable sizes textpath computed
    rcases lt_trichotomy one.featuresize textpath.width with less | equal | more
    · -- `msAddLabel` adds a feature that is smaller
      obtain ⟨plan, planned⟩ := plan_kept one (fun textpath => one.featuresize > textpath.width) storable sizes
        computed (not_lt_of_gt less)
      rw [planned] at doneSingle
      exact absurd (singleLess.mpr less) (AddsOne.not_nothing doneSingle)
    · exact equal
    · -- and skips one that is larger
      rw [plan_skipped one _ sizes computed more] at doneSingle
      exact absurd (singleLess.mp doneSingle) (not_lt_of_gt more)
  · intro wide
    have samePlan : (one.plan fun textpath => one.featuresize < textpath.width) =
        one.plan fun textpath => one.featuresize > textpath.width := by
      apply plan_congr
      intro storable sizes textpath computed
      rw [wide storable sizes textpath computed]
    rw [← samePlan] at doneSingle
    refine ⟨?_, ?_⟩
    · cases planned : one.plan fun textpath => one.featuresize < textpath.width with
      | none =>
        rw [planned] at doneGroup doneSingle
        exact Or.inl ⟨doneGroup, doneSingle⟩
      | some plan =>
        rw [planned] at doneGroup doneSingle
        obtain ⟨symbols, slot⟩ := plan_textsymbols one planned
        exact Or.inr ⟨plan, symbols, slot, doneGroup, doneSingle⟩
    · intro storable sizes textpath computed
      have equal := wide storable sizes textpath computed
      have notLess : ¬ one.featuresize < textpath.width := equal ▸ lt_irrefl _
      obtain ⟨plan, planned⟩ := plan_kept one (fun textpath => one.featuresize < textpath.width) storable sizes
        computed notLess
      rw [planned] at doneGroup doneSingle
      exact ⟨iff_of_false (AddsOne.not_nothing doneGroup) notLess, iff_of_false (AddsOne.not_nothing doneSingle) notLess⟩

/-- Any calls from an empty cache stay in the arrays and keep the numbers of markers and members in step, and one more call
for one label has the same outcome by both functions exactly when MINFEATURESIZE AUTO meets no feature of another width. -/
theorem labels_cachedAlike_iff (calls : List (AddCall ψ τ σ K)) :
    ∃ cache, runCalls msInitLabelCache calls = some cache ∧ CacheSound cache ∧ ∀ one : OneLabelCall ψ τ σ K,
      ∃ group single after, one.group cache = some group ∧ one.single one.label none cache = some (single, after) ∧
        (CachedAlike one cache group.cache single.cache ↔ one.AsWideAsText) := by
  obtain ⟨cache, run, sound⟩ := runCalls_sound cacheSound_initial calls
  exact ⟨cache, run, sound, fun one => cachedAlike_iff one sound⟩

end Calls

def plainServices : LabelServices Unit Unit Unit ℚ where
  msGetLabelStatus := fun _ _ => true
  msShapeGetLabelAnnotation := fun _ _ => some "A1"
  msComputeTextPath := fun _ => some ⟨false, [], ⟨0, -10, 30, 2⟩⟩
  msGetMarkerSize := fun _ _ => some (8, 8)

def smallFeature : OneLabelCall Unit Unit Unit ℚ where
  services := plainServices
  resolutionfactor := 1
  layer := ⟨0, "towns", true, 1, none, [⟨[⟨5, true, [], ()⟩], [()], false⟩]⟩
  classindex := 0
  classPtr := ⟨[⟨5, true, [], ()⟩], [()], false⟩
  found := rfl
  shape := ()
  point := ⟨100, 50, 0, 0⟩
  featuresize := 20
  label := ⟨5, true, [], ()⟩
  text := "A1"
  only := rfl
  isOn := rfl
  hasText := rfl
  nonempty := by decide

theorem smallFeature_differs : ∃ group single after, smallFeature.group msInitLabelCache = some group ∧
    smallFeature.single smallFeature.label none msInitLabelCache = some (single, after) ∧
    AddsNothing msInitLabelCache group.cache ∧ ¬ CachedAlike smallFeature msInitLabelCache group.cache single.cache := by
  obtain ⟨group, single, after, runGroup, runSingle, alike⟩ := cachedAlike_iff smallFeature cacheSound_initial
  have storable : smallFeature.Storable := ⟨rfl, by decide +kernel⟩
  have sizes : smallFeature.Sizes := ⟨rfl, by decide +kernel⟩
  refine ⟨group, single, after, runGroup, runSingle, ?_, ?_⟩
  · obtain ⟨other, run, _, done⟩ := group_spec smallFeature.toLabelCall cacheSound_initial
    rw [runGroup, Option.some.injEq] at run
    rw [← run, groupPlan_one, plan_skipped smallFeature _ sizes rfl (by decide +kernel)] at done
    exact done
  · intro holds
    have equal := alike.mp holds storable sizes _ rfl
    revert equal
    decide +kernel

end MapServer
