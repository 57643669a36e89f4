import Mathlib.Data.List.Forall2
import MapServer.Query.ResultFile

namespace MapServer
open Lib.Bytes List Option

section File
variable {bigEndian : Bool}

theorem fread_append {bytes : List UInt8} {count : Nat} (length : bytes.length = count) (rest : List UInt8) :
    fread count (bytes ++ rest) = some (bytes, rest) := by
  subst length
  simp [fread]

theorem ofNat_decode_encode {width bits : Nat} (wide : 2 ^ bits = 256 ^ width) (value : BitVec bits) :
    BitVec.ofNat bits (decode bigEndian (encode bigEndian width value.toNat)) = value := by
  rw [decode_encode, ← wide, Nat.mod_eq_of_lt value.isLt, BitVec.ofNat_toNat, BitVec.setWidth_eq]

theorem length_resultBytes (result : ResultObj) : (resultBytes bigEndian result).length = 32 := by
  simp [resultBytes]

theorem length_boundsBytes (bounds : RectObj (BitVec 64)) : (boundsBytes bigEndian bounds).length = 32 := by
  simp [boundsBytes]

theorem drop_encode {width value offset : Nat} (past : width ≤ offset) : (encode bigEndian width value).drop offset = [] :=
  drop_eq_nil_of_le (by rwa [length_encode])

theorem take_encode {width value count : Nat} (whole : width ≤ count) :
    (encode bigEndian width value).take count = encode bigEndian width value :=
  take_of_length_le (by rwa [length_encode])

theorem resultOfBytes_resultBytes (result : ResultObj) :
    resultOfBytes bigEndian (resultBytes bigEndian result) = result := by
  have long := @ofNat_decode_encode bigEndian 8 64 rfl
  have int := @ofNat_decode_encode bigEndian 4 32 rfl
  simp [resultOfBytes, resultBytes, wordAt, drop_append, drop_encode, take_encode, long, int]

theorem boundsOfBytes_boundsBytes (bounds : RectObj (BitVec 64)) :
    boundsOfBytes bigEndian (boundsBytes bigEndian bounds) = bounds := by
  have double := @ofNat_decode_encode bigEndian 8 64 rfl
  simp [boundsOfBytes, boundsBytes, wordAt, drop_append, drop_encode, take_encode, double]

theorem freadInt_append {value : Nat} (small : value < 2 ^ 31) (rest : List UInt8) :
    freadInt bigEndian (encode bigEndian 4 value ++ rest) = some ((value : Int), rest) := by
  have same : decodeInt bigEndian (encode bigEndian 4 value) = (value : Int) := by
    rw [decodeInt, decode_encode, length_encode, Nat.mod_eq_of_lt (by omega)]
    exact Int.bmod_eq_of_le_mul_two (by omega) (by omega)
  rw [freadInt, fread_append (length_encode ..), map_some]
  exact congrArg (fun i => some (i, rest)) same

theorem loadResults_append (tiled : Bool) (results : List ResultObj) (rest : List UInt8) :
    loadResults bigEndian tiled results.length (results.flatMap (resultBytes bigEndian) ++ rest) =
      some (results.map (resetIndexes tiled), rest) := by
  induction results with
  | nil => rfl
  | cons result results ih =>
    rw [flatMap_cons, append_assoc, length_cons, loadResults, fread_append (length_resultBytes result)]
    simp [ih, resultOfBytes_resultBytes]

def loadedCache (tiled : Bool) (cache : ResultCacheObj) : ResultCacheObj :=
  { cache with results := cache.results.map (resetIndexes tiled) }

theorem loadCache_append (tiled : Bool) {cache : ResultCacheObj} (small : cache.results.length < 2 ^ 31) (rest : List UInt8) :
    loadCache bigEndian tiled (cacheBytes bigEndian cache ++ rest) = some (loadedCache tiled cache, rest) := by
  rw [cacheBytes, append_assoc, append_assoc, loadCache, freadInt_append small]
  have counted : ¬ ((cache.results.length : Int) < 0) := by omega
  simp only [bind_eq_bind, bind_some, counted, if_false, fread_append (length_boundsBytes cache.bounds),
    Int.toNat_natCast, loadResults_append, boundsOfBytes_boundsBytes]
  rfl

def restore (target saved : QueryLayer) : QueryLayer :=
  match saved.resultcache with
  | none => target
  | some cache => { target with resultcache := some (loadedCache target.tileindex.isSome cache) }

theorem setCache_middle (done : List QueryLayer) (lp : QueryLayer) (rest : List QueryLayer) (cache : Option ResultCacheObj) :
    setCache (done ++ lp :: rest) done.length cache = done ++ { lp with resultcache := cache } :: rest := by
  unfold setCache
  induction done with
  | nil => rfl
  | cons other done ih =>
    rw [cons_append, length_cons, modify_succ_cons, ih]
    rfl

theorem loadLayers_saveLayers {done target saved : List QueryLayer} (same : target.length = saved.length)
    (numlayers : done.length + saved.length < 2 ^ 31)
    (numresults : ∀ lp ∈ saved, ∀ cache ∈ lp.resultcache, cache.results.length < 2 ^ 31) :
    loadLayers bigEndian (saved.countP fun lp => lp.resultcache.isSome) (saveLayers bigEndian done.length saved) (done ++ target) =
      (true, done ++ zipWith restore target saved) := by
  induction saved generalizing done target with
  | nil =>
    rw [eq_nil_of_length_eq_zero same]
    rfl
  | cons lp saved ih =>
    obtain ⟨t, rest, rfl⟩ := exists_cons_of_length_eq_add_one same
    rw [length_cons, length_cons, Nat.add_right_cancel_iff] at same
    rw [length_cons] at numlayers
    rw [forall_mem_cons] at numresults
    have next : ∀ t', loadLayers bigEndian (saved.countP fun lp => lp.resultcache.isSome)
        (saveLayers bigEndian (done.length + 1) saved) (done ++ t' :: rest) =
          (true, done ++ t' :: zipWith restore rest saved) := by
      intro t'
      have loaded := @ih (done ++ [t']) rest same (by rw [length_append, length_singleton]; omega) numresults.2
      rw [length_append, length_singleton] at loaded
      simpa using loaded
    rw [List.countP_cons, saveLayers, zipWith_cons_cons]
    cases isCache : lp.resultcache with
    | none =>
      have unchanged : restore t lp = t := by rw [restore, isCache]
      rw [unchanged]
      exact next t
    | some cache =>
      have small := numresults.1 cache isCache
      have index := @freadInt_append bigEndian done.length (by omega)
        (cacheBytes bigEndian cache ++ saveLayers bigEndian (done.length + 1) saved)
      have here : (done ++ t :: rest)[done.length]? = some t := by simp
      have restored : restore t lp = { t with resultcache := some (loadedCache t.tileindex.isSome cache) } := by
        rw [restore, isCache]
      have notNegative : ¬ (done.length : Int) < 0 := by omega
      simp only [append_assoc, isSome_some, if_true, loadLayers, index, here, loadCache_append _ small,
        setCache_middle, next, restored, Int.toNat_natCast, notNegative, if_false]

theorem fgets_saveQueryResults (layer : List QueryLayer) :
    fgets MS_BUFFER_LENGTH (saveQueryResults bigEndian layer) =
      (MS_QUERY_RESULTS_MAGIC_STRING ++ ascii " - Generated by msSaveQuery()\n",
        encode bigEndian 4 (layer.countP fun lp => lp.resultcache.isSome) ++ saveLayers bigEndian 0 layer) := by
  generalize isRest : encode bigEndian 4 (layer.countP fun lp => lp.resultcache.isSome) ++ saveLayers bigEndian 0 layer = rest
  have file : saveQueryResults bigEndian layer =
      ascii "MapServer Query Results - Generated by msSaveQuery()" ++ 10 :: rest := by
    rw [saveQueryResults, append_assoc _ _ (saveLayers bigEndian 0 layer), isRest]
    rfl
  have header : ∀ c ∈ ascii "MapServer Query Results - Generated by msSaveQuery()", decide (c ≠ 10) = true := by
    decide +kernel
  have stop : (10 :: rest).takeWhile (fun c => decide (c ≠ 10)) = [] := by simp
  have found : (10 :: rest).dropWhile (fun c => decide (c ≠ 10)) = 10 :: rest := by simp
  have line : ((ascii "MapServer Query Results - Generated by msSaveQuery()" ++ []) ++ [10]).take (MS_BUFFER_LENGTH - 1) =
      ascii "MapServer Query Results - Generated by msSaveQuery()" ++ [10] := by
    decide +kernel
  have behind : (ascii "MapServer Query Results - Generated by msSaveQuery()" ++ 10 :: rest).drop
      (ascii "MapServer Query Results - Generated by msSaveQuery()" ++ [10]).length = rest := by
    rw [append_cons]
    exact drop_left
  have magic : MS_QUERY_RESULTS_MAGIC_STRING ++ ascii " - Generated by msSaveQuery()\n" =
      ascii "MapServer Query Results - Generated by msSaveQuery()" ++ [10] := by
    decide +kernel
  rw [file, fgets, takeWhile_append_of_pos header, dropWhile_append_of_pos header, stop, found,
    take_succ_cons, take_zero, line, behind, magic]

def SameLayers (saved target : List QueryLayer) : Prop :=
  List.Forall₂ (fun lp other => other.tileindex = lp.tileindex) saved target

theorem sameLayers_at {saved target : List QueryLayer} (same : SameLayers saved target) {i : Nat} {lp : QueryLayer}
    (here : saved[i]? = some lp) : ∃ other, target[i]? = some other ∧ other.tileindex = lp.tileindex := by
  obtain ⟨length, layers⟩ := forall₂_iff_get.mp same
  obtain ⟨bound, rfl⟩ := List.getElem?_eq_some_iff.mp here
  exact ⟨_, getElem?_eq_getElem (length ▸ bound), layers i bound (length ▸ bound)⟩

def ResultSurvives (tiled : Bool) (saved loaded : ResultObj) : Prop :=
  loaded.shapeindex = saved.shapeindex ∧ loaded.classindex = saved.classindex ∧
    (tiled = true → loaded.tileindex = saved.tileindex) ∧ loaded.shape = 0

def CacheSurvives (tiled : Bool) (saved loaded : ResultCacheObj) : Prop :=
  loaded.bounds = saved.bounds ∧ List.Forall₂ (ResultSurvives tiled) saved.results loaded.results

def LoadsBack (bigEndian : Bool) (loadQueryParams : List UInt8 → List QueryLayer → Bool × List QueryLayer) (filename : CString)
    (saved target : List QueryLayer) : Prop :=
  ∃ after, msLoadQuery bigEndian loadQueryParams filename (some (saveQueryResults bigEndian saved)) target = (true, after) ∧
    ∀ (i : Nat) lp cache, saved[i]? = some lp → lp.resultcache = some cache →
      ∃ other loaded, after[i]? = some other ∧ other.resultcache = some loaded ∧
        CacheSurvives lp.tileindex.isSome cache loaded

def NoCachedShapes (layer : List QueryLayer) : Prop :=
  ∀ lp ∈ layer, ∀ cache ∈ lp.resultcache, ∀ result ∈ cache.results, result.shape = 0

theorem msLoadQuery_saved {loadQueryParams : List UInt8 → List QueryLayer → Bool × List QueryLayer} {filename : CString}
    (map : QueryMap) {target : List QueryLayer} (same : target.length = map.layer.length)
    (named : (ascii ".qy").isSuffixOf filename = true) :
    msLoadQuery bigEndian loadQueryParams filename (some (saveQueryResults bigEndian map.layer)) target =
      (true, zipWith restore target map.layer) := by
  have bound : map.layer.countP (fun lp => lp.resultcache.isSome) ≤ map.layer.length := countP_le_length
  have layers := map.numlayers
  have counted : map.layer.countP (fun lp => lp.resultcache.isSome) < 2 ^ 31 := by omega
  have few : ¬ ((map.layer.countP fun lp => lp.resultcache.isSome : Nat) : Int) > INT_MAX - 1 := by
    unfold INT_MAX
    omega
  have fits : ([] : List QueryLayer).length + map.layer.length < 2 ^ 31 := by
    rw [length_nil]
    omega
  have loaded := @loadLayers_saveLayers bigEndian [] target map.layer same fits map.numresults
  have isResults : startsWith (MS_QUERY_RESULTS_MAGIC_STRING ++ ascii " - Generated by msSaveQuery()\n")
      MS_QUERY_RESULTS_MAGIC_STRING = true := by
    decide +kernel
  have notEmpty : MS_QUERY_RESULTS_MAGIC_STRING ++ ascii " - Generated by msSaveQuery()\n" ≠ [] := by decide
  simp only [msLoadQuery, named, Bool.not_true, Bool.false_eq_true, if_false, fgets_saveQueryResults, notEmpty, isResults, if_true,
    loadQueryResults, freadInt_append counted, few, Int.toNat_natCast]
  exact loaded

theorem msLoadQuery_otherName {loadQueryParams : List UInt8 → List QueryLayer → Bool × List QueryLayer} {filename : CString}
    (file : Option (List UInt8)) (layer : List QueryLayer) (named : (ascii ".qy").isSuffixOf filename = false) :
    msLoadQuery bigEndian loadQueryParams filename file layer = (false, layer) := by
  unfold msLoadQuery
  rw [named]
  rfl

theorem restore_survives {lp target : QueryLayer} {cache : ResultCacheObj} (isCache : lp.resultcache = some cache)
    (same : target.tileindex = lp.tileindex) (noShapes : ∀ result ∈ cache.results, result.shape = 0) :
    ∃ loaded, (restore target lp).resultcache = some loaded ∧ CacheSurvives lp.tileindex.isSome cache loaded := by
  refine ⟨loadedCache target.tileindex.isSome cache, by rw [restore, isCache], rfl, ?_⟩
  rw [loadedCache, forall₂_map_right_iff, forall₂_same]
  intro result member
  refine ⟨rfl, rfl, ?_, noShapes result member⟩
  intro tiled
  rw [← same] at tiled
  show (if target.tileindex.isSome then result.tileindex else -1) = result.tileindex
  rw [if_pos tiled]

theorem loadsBack_iff {loadQueryParams : List UInt8 → List QueryLayer → Bool × List QueryLayer} {filename : CString}
    (map : QueryMap) {target : List QueryLayer} (same : SameLayers map.layer target) :
    LoadsBack bigEndian loadQueryParams filename map.layer target ↔
      (ascii ".qy").isSuffixOf filename = true ∧ NoCachedShapes map.layer := by
  have length := same.length_eq
  constructor
  · rintro ⟨after, run, survives⟩
    cases named : (ascii ".qy").isSuffixOf filename with
    | false =>
      rw [msLoadQuery_otherName _ _ named, Prod.mk.injEq] at run
      cases run.1
    | true =>
      refine ⟨rfl, ?_⟩
      rw [msLoadQuery_saved map length.symm named, Prod.mk.injEq] at run
      intro lp member cache isCache result among
      obtain ⟨i, here⟩ := mem_iff_getElem?.mp member
      obtain ⟨other, loaded, there, isLoaded, _, results⟩ := survives i lp cache here isCache
      obtain ⟨target', isTarget, _⟩ := sameLayers_at same here
      rw [← run.2, getElem?_zipWith, isTarget, here, Option.some.injEq] at there
      rw [← there, restore, isCache, Option.some.injEq] at isLoaded
      rw [← isLoaded, loadedCache, forall₂_map_right_iff, forall₂_same] at results
      exact (results result among).2.2.2
  · rintro ⟨named, noShapes⟩
    refine ⟨_, msLoadQuery_saved map length.symm named, ?_⟩
    intro i lp cache here isCache
    obtain ⟨other, isTarget, sameTile⟩ := sameLayers_at same here
    obtain ⟨loaded, isLoaded, survives⟩ :=
      restore_survives isCache sameTile (noShapes lp (mem_of_getElem? here) cache isCache)
    exact ⟨restore other lp, loaded, by rw [getElem?_zipWith, isTarget, here], isLoaded, survives⟩

end File

end MapServer
