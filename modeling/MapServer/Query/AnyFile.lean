import Mathlib.Data.List.Induction
import MapServer.Query.LoadsBack

namespace MapServer
open Lib.Bytes List Option

section Blocks
variable (bigEndian : Bool)

def resultsOf : Nat → List UInt8 → List ResultObj
  | 0, _ => []
  | count + 1, bytes => resultOfBytes bigEndian (bytes.take 32) :: resultsOf count (bytes.drop 32)

def readBlock (stream : List UInt8) : Option (ResultCacheObj × List UInt8) := do
  let (numresults, stream) ← freadInt bigEndian stream
  if numresults < 0 then none
  else
    let (bounds, stream) ← fread 32 stream
    let (results, stream) ← fread (32 * numresults.toNat) stream
    some (⟨resultsOf bigEndian numresults.toNat results, boundsOfBytes bigEndian bounds⟩, stream)

def fileBlocks (numlayers : Nat) : Nat → List UInt8 → List (Nat × Option ResultCacheObj)
  | 0, _ => []
  | n + 1, stream =>
    match freadInt bigEndian stream with
    | none => []
    | some (j, stream) =>
      if j < 0 ∨ j.toNat ≥ numlayers then []
      else match readBlock bigEndian stream with
        | none => [(j.toNat, none)]
        | some (block, stream) => (j.toNat, some block) :: fileBlocks numlayers n stream

def queryBlocks (numlayers : Nat) (stream : List UInt8) : List (Nat × Option ResultCacheObj) :=
  match freadInt bigEndian stream with
  | none => []
  | some (n, stream) => if n > INT_MAX - 1 then [] else fileBlocks bigEndian numlayers n.toNat stream

end Blocks

def lastBlock (i : Nat) (blocks : List (Nat × Option ResultCacheObj)) : Option (Option ResultCacheObj) :=
  (blocks.filter fun block => block.1 = i).getLast?.map Prod.snd

def LayerSound (blocks : List (Nat × Option ResultCacheObj)) (i : Nat) (lp after : QueryLayer) : Prop :=
  ((∀ block, (i, block) ∉ blocks) ∧ after = lp) ∨
    (∃ block, (i, block) ∈ blocks) ∧ (after = { lp with resultcache := none } ∨
      ∃ cache, (i, some cache) ∈ blocks ∧ after = { lp with resultcache := some (loadedCache lp.tileindex.isSome cache) } ∧
        ∀ result ∈ cache.results, result.shape = 0)

def LoadsSoundly (bigEndian : Bool) (stream : List UInt8) (layer : List QueryLayer) : Prop :=
  ∀ i lp, layer[i]? = some lp → ∃ after, (loadQueryResults bigEndian stream layer).2[i]? = some after ∧
    LayerSound (queryBlocks bigEndian layer.length stream) i lp after

def LastBlocksNull (bigEndian : Bool) (stream : List UInt8) (layer : List QueryLayer) : Prop :=
  ∀ i < layer.length, ∀ cache, lastBlock i (queryBlocks bigEndian layer.length stream) = some (some cache) →
    ∀ result ∈ cache.results, result.shape = 0

section Loading
variable {bigEndian : Bool}

theorem fread_add (first second : Nat) (stream : List UInt8) :
    fread (first + second) stream = (fread first stream).bind fun (bytes, rest) =>
      (fread second rest).map fun (more, rest) => (bytes ++ more, rest) := by
  unfold fread
  by_cases enough : first ≤ stream.length
  · rw [if_pos enough, bind_some]
    dsimp only
    rw [length_drop]
    by_cases all : first + second ≤ stream.length
    · rw [if_pos all, if_pos (by omega), map_some, take_add, drop_drop]
    · rw [if_neg all, if_neg (by omega), map_none]
  · rw [if_neg enough, if_neg (by omega), bind_none]

theorem fread_length {count : Nat} {stream bytes rest : List UInt8} (read : fread count stream = some (bytes, rest)) :
    bytes.length = count := by
  unfold fread at read
  split at read
  · rename_i enough
    rw [Option.some.injEq, Prod.mk.injEq] at read
    rw [← read.1, length_take]
    omega
  · cases read

theorem loadResults_eq (tiled : Bool) (count : Nat) (stream : List UInt8) :
    loadResults bigEndian tiled count stream =
      (fread (32 * count) stream).map fun (bytes, rest) => ((resultsOf bigEndian count bytes).map (resetIndexes tiled), rest) := by
  induction count generalizing stream with
  | zero => simp [loadResults, fread, resultsOf]
  | succ count ih =>
    have split : 32 * (count + 1) = 32 + 32 * count := by omega
    rw [loadResults, split, fread_add]
    cases first : fread 32 stream with
    | none => rfl
    | some read =>
      obtain ⟨bytes, rest⟩ := read
      have length := fread_length first
      simp only [bind_eq_bind, bind_some, ih]
      cases fread (32 * count) rest with
      | none => rfl
      | some read =>
        obtain ⟨more, rest⟩ := read
        have here : (bytes ++ more).take 32 = bytes := take_left' length
        have others : (bytes ++ more).drop 32 = more := drop_left' length
        simp only [map_some, bind_some, resultsOf, here, others, map_cons]

theorem loadCache_eq (tiled : Bool) (stream : List UInt8) :
    loadCache bigEndian tiled stream = (readBlock bigEndian stream).map fun (block, rest) => (loadedCache tiled block, rest) := by
  unfold loadCache readBlock
  cases freadInt bigEndian stream with
  | none => rfl
  | some read =>
    obtain ⟨numresults, stream⟩ := read
    simp only [bind_eq_bind, bind_some]
    split
    · rfl
    · cases fread 32 stream with
      | none => rfl
      | some read =>
        obtain ⟨bounds, stream⟩ := read
        simp only [bind_some, loadResults_eq]
        cases fread (32 * numresults.toNat) stream <;> rfl

def applyBlock (layer : List QueryLayer) (block : Nat × Option ResultCacheObj) : List QueryLayer :=
  layer.modify block.1 fun lp => { lp with resultcache := block.2.map (loadedCache lp.tileindex.isSome) }

theorem loadLayers_eq (n : Nat) (stream : List UInt8) (layer : List QueryLayer) :
    (loadLayers bigEndian n stream layer).2 = (fileBlocks bigEndian layer.length n stream).foldl applyBlock layer := by
  induction n generalizing stream layer with
  | zero => rfl
  | succ n ih =>
    rw [loadLayers, fileBlocks]
    cases freadInt bigEndian stream with
    | none => rfl
    | some read =>
      obtain ⟨j, stream⟩ := read
      dsimp only
      by_cases negative : j < 0
      · rw [if_pos negative, if_pos (.inl negative)]
        rfl
      rw [if_neg negative]
      cases here : layer[j.toNat]? with
      | none =>
        rw [if_pos (.inr (List.getElem?_eq_none_iff.mp here))]
        rfl
      | some lp =>
        have bound := (List.getElem?_eq_some_iff.mp here).1
        rw [if_neg (by omega)]
        simp only [loadCache_eq]
        cases readBlock bigEndian stream with
        | none => rfl
        | some read =>
          obtain ⟨block, stream⟩ := read
          have same : setCache layer j.toNat (some (loadedCache lp.tileindex.isSome block)) = applyBlock layer (j.toNat, some block) := by
            unfold setCache applyBlock
            rw [modify_eq_set_getElem?, modify_eq_set_getElem?, here]
            rfl
          have length : (applyBlock layer (j.toNat, some block)).length = layer.length := length_modify ..
          rw [foldl_cons, ← length, ← ih, ← same]
          rfl

theorem loadQueryResults_eq (stream : List UInt8) (layer : List QueryLayer) :
    (loadQueryResults bigEndian stream layer).2 = (queryBlocks bigEndian layer.length stream).foldl applyBlock layer := by
  unfold loadQueryResults queryBlocks
  cases freadInt bigEndian stream with
  | none => rfl
  | some read =>
    obtain ⟨n, stream⟩ := read
    dsimp only
    split
    · rfl
    · exact loadLayers_eq n.toNat stream layer

theorem foldl_applyBlock (blocks : List (Nat × Option ResultCacheObj)) (layer : List QueryLayer) (i : Nat) :
    (blocks.foldl applyBlock layer)[i]? = layer[i]?.map fun lp =>
      match lastBlock i blocks with
      | none => lp
      | some block => { lp with resultcache := block.map (loadedCache lp.tileindex.isSome) } := by
  induction blocks using reverseRecOn with
  | nil => simp [lastBlock]
  | append_singleton blocks block ih =>
    rw [foldl_append, foldl_cons, foldl_nil, applyBlock, getElem?_modify, ih]
    cases layer[i]? with
    | none => rfl
    | some lp =>
      rw [Option.map_eq_map, map_some, map_some, map_some, Option.some.injEq, lastBlock, lastBlock,
        filter_append]
      by_cases same : block.1 = i
      · have last : [block].filter (fun block => decide (block.1 = i)) = [block] := by simp [same]
        rw [last, getLast?_append_of_ne_nil _ (by simp), if_pos same]
        cases (blocks.filter fun block => decide (block.1 = i)).getLast? <;> rfl
      · have other : [block].filter (fun block => decide (block.1 = i)) = [] := by simp [same]
        rw [other, append_nil, if_neg same]

theorem lastBlock_none {i : Nat} {blocks : List (Nat × Option ResultCacheObj)} :
    lastBlock i blocks = none ↔ ∀ block, (i, block) ∉ blocks := by
  rw [lastBlock, map_eq_none_iff, getLast?_eq_none_iff, filter_eq_nil_iff]
  constructor
  · intro others block member
    exact others (i, block) member (by simp)
  · rintro missing ⟨j, block⟩ member same
    obtain rfl := of_decide_eq_true same
    exact missing block member

theorem lastBlock_mem {i : Nat} {blocks : List (Nat × Option ResultCacheObj)} {block : Option ResultCacheObj}
    (last : lastBlock i blocks = some block) : (i, block) ∈ blocks := by
  obtain ⟨⟨j, found⟩, isLast, rfl⟩ := map_eq_some_iff.mp last
  obtain ⟨member, same⟩ := mem_filter.mp (mem_of_getLast? isLast)
  obtain rfl := of_decide_eq_true same
  exact member

theorem loadedCache_shapes (tiled : Bool) (cache : ResultCacheObj) :
    (loadedCache tiled cache).results.map ResultObj.shape = cache.results.map ResultObj.shape := by
  rw [loadedCache, List.map_map]
  rfl

theorem loadsSoundly_iff (stream : List UInt8) (layer : List QueryLayer) :
    LoadsSoundly bigEndian stream layer ↔ LastBlocksNull bigEndian stream layer := by
  unfold LoadsSoundly LastBlocksNull
  generalize isBlocks : queryBlocks bigEndian layer.length stream = blocks
  have loaded := foldl_applyBlock blocks layer
  rw [← isBlocks, ← loadQueryResults_eq] at loaded
  constructor
  · intro sound i bound cache last result member
    obtain ⟨after, there, holds⟩ := sound i layer[i] (getElem?_eq_getElem bound)
    rw [loaded, getElem?_eq_getElem bound, isBlocks, last, map_some, Option.some.injEq] at there
    rcases holds with ⟨missing, _⟩ | ⟨_, gone | ⟨other, _, isAfter, noShapes⟩⟩
    · exact absurd (lastBlock_mem last) (missing _)
    · rw [gone, QueryLayer.mk.injEq] at there
      cases there.2
    · rw [isAfter, QueryLayer.mk.injEq] at there
      have same := congrArg (fun cache => cache.results.map ResultObj.shape) (Option.some.inj there.2)
      rw [loadedCache_shapes, loadedCache_shapes] at same
      have among := List.mem_map_of_mem (f := ResultObj.shape) member
      rw [same] at among
      obtain ⟨twin, isTwin, equal⟩ := List.mem_map.mp among
      rw [← equal]
      exact noShapes twin isTwin
  · intro noShapes i lp here
    have bound := (List.getElem?_eq_some_iff.mp here).1
    refine ⟨_, by rw [loaded, here, map_some], ?_⟩
    rw [isBlocks]
    cases last : lastBlock i blocks with
    | none => exact .inl ⟨lastBlock_none.mp last, rfl⟩
    | some block =>
      right
      refine ⟨⟨block, lastBlock_mem last⟩, ?_⟩
      cases block with
      | none => exact .inl rfl
      | some cache => exact .inr ⟨cache, lastBlock_mem last, rfl, noShapes i bound cache last⟩

end Loading

/-- Saved results load back just when no result has a cached shape, and other files load soundly just when none of the blocks
that are kept has a pointer. -/
theorem queryResults_iff (bigEndian : Bool) (loadQueryParams : List UInt8 → List QueryLayer → Bool × List QueryLayer)
    (filename : CString) (map : QueryMap) (target : List QueryLayer) (same : SameLayers map.layer target) (stream : List UInt8)
    (layer : List QueryLayer) :
    (LoadsBack bigEndian loadQueryParams filename map.layer target ↔
      (ascii ".qy").isSuffixOf filename = true ∧ NoCachedShapes map.layer) ∧
    (LoadsSoundly bigEndian stream layer ↔ LastBlocksNull bigEndian stream layer) :=
  ⟨loadsBack_iff map same, loadsSoundly_iff stream layer⟩

def oneResult (shape : BitVec 64) : QueryMap where
  layer := [⟨none, some ⟨[⟨shape, 7, 2, 3, 1, 0⟩], ⟨0, 0, 0, 0⟩⟩⟩]
  numlayers := (by decide : 1 ≤ 2 ^ 31 - 64)
  numresults := by
    intro lp member cache isCache
    rw [List.mem_singleton.mp member, Option.mem_def, Option.some.injEq] at isCache
    rw [← isCache]
    exact (by decide : 1 < 2 ^ 31)

theorem queryResults_iff_oneResult :
    LoadsBack false (fun _ layer => (false, layer)) (ascii "result.qy") (oneResult 0).layer [⟨none, none⟩] := by
  have same : SameLayers (oneResult 0).layer [⟨none, none⟩] := .cons rfl .nil
  have noShapes : NoCachedShapes (oneResult 0).layer := by
    intro lp member cache isCache result among
    rw [List.mem_singleton.mp member, Option.mem_def, Option.some.injEq] at isCache
    rw [← isCache] at among
    rw [List.mem_singleton.mp among]
  exact (queryResults_iff false (fun _ layer => (false, layer)) (ascii "result.qy") (oneResult 0) [⟨none, none⟩] same [] []).1.mpr
    ⟨by decide, noShapes⟩

theorem cachedShape_loadsAsPointer :
    ¬ LoadsBack false (fun _ layer => (false, layer)) (ascii "result.qy") (oneResult 4096).layer [⟨none, none⟩] ∧
    ¬ LoadsSoundly false (encode false 4 1 ++ saveLayers false 0 (oneResult 4096).layer) [⟨none, none⟩] := by
  have same : SameLayers (oneResult 4096).layer [⟨none, none⟩] := .cons rfl .nil
  constructor
  · rw [loadsBack_iff (oneResult 4096) same]
    rintro ⟨_, noShapes⟩
    have := noShapes _ List.mem_cons_self _ rfl _ List.mem_cons_self
    revert this
    decide
  · rw [loadsSoundly_iff]
    intro null
    have := null 0 (by decide) ⟨[⟨4096, 7, 2, 3, 1, 0⟩], ⟨0, 0, 0, 0⟩⟩ (by decide) _ List.mem_cons_self
    revert this
    decide

end MapServer
