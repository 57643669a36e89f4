import Mathlib.Data.List.Dedup
import Mathlib.Data.List.FinRange
import MapServer.Hash.HashTable

namespace MapServer
open List Option Function

def folded (key : CString) : CString := key.map tolower

theorem tolower_tolower (c : UInt8) : tolower (tolower c) = tolower c := by
  unfold tolower
  split
  · rename_i upper
    have low : 65 ≤ c.toNat := upper.1
    have high : c.toNat ≤ 90 := upper.2
    rw [if_neg]
    rintro ⟨-, small⟩
    have small : (c + 32).toNat ≤ 90 := small
    rw [UInt8.toNat_add] at small
    change (c.toNat + 32) % 256 ≤ 90 at small
    omega
  · rfl

theorem folded_folded (key : CString) : folded (folded key) = folded key := by
  simp [folded, tolower_tolower]

variable {left right key : CString} {chain : List HashObj} {table : HashTableObj} {i : Fin MS_HASHSIZE}

theorem sameIgnoringCase_folded : sameIgnoringCase left right = true ↔ folded left = folded right := sameIgnoringCase_iff

theorem hash_folded (key : CString) : hash (folded key) = hash key := by
  simp only [hash, folded, foldl_map, tolower_tolower]

theorem hash_congr (same : folded left = folded right) : hash left = hash right := by
  rw [← hash_folded left, same, hash_folded]

def chainValue (key : CString) (chain : List HashObj) : Option CString :=
  (chain.find? fun tp => sameIgnoringCase key tp.key).map (·.data)

def chainKeys (chain : List HashObj) : List CString := chain.map fun tp => folded tp.key

theorem chainValue_cons (key : CString) (tp : HashObj) (next : List HashObj) :
    chainValue key (tp :: next) = if folded key = folded tp.key then some tp.data else chainValue key next := by
  unfold chainValue
  by_cases same : folded key = folded tp.key
  · rw [if_pos same, find?_cons, sameIgnoringCase_folded.mpr same, map_some]
  · have differ := mt sameIgnoringCase_folded.mp same
    rw [if_neg same, find?_cons, Bool.eq_false_iff.mpr differ]

theorem chainValue_isSome : (chainValue key chain).isSome = true ↔ folded key ∈ chainKeys chain := by
  induction chain with
  | nil => simp [chainValue, chainKeys]
  | cons tp next ih =>
    rw [chainValue_cons, chainKeys, map_cons, mem_cons, ← chainKeys]
    split
    · simp [*]
    · simp [*]

theorem replaceData_none {value : CString} (absent : replaceData key value chain = none) : folded key ∉ chainKeys chain := by
  induction chain with
  | nil => simp [chainKeys]
  | cons tp next ih =>
    unfold replaceData at absent
    split at absent
    · contradiction
    · rename_i other
      rw [sameIgnoringCase_folded] at other
      rw [chainKeys, map_cons, mem_cons, not_or]
      exact ⟨other, ih (map_eq_none_iff.mp absent)⟩

theorem replaceData_some {value : CString} {after : List HashObj} {tp : HashObj}
    (replaced : replaceData key value chain = some (after, tp)) :
    chainKeys after = chainKeys chain ∧ (∀ entry ∈ after, ∃ old ∈ chain, entry.key = old.key) ∧
      ∀ other, chainValue other after = if folded other = folded key then some value else chainValue other chain := by
  induction chain generalizing after tp with
  | nil => contradiction
  | cons first next ih =>
    unfold replaceData at replaced
    split at replaced
    · rename_i same
      rw [sameIgnoringCase_folded] at same
      obtain ⟨rfl, -⟩ := Prod.mk.inj (Option.some.inj replaced)
      refine ⟨rfl, fun entry member => ?_, fun other => ?_⟩
      · rcases mem_cons.mp member with rfl | member
        · exact ⟨first, mem_cons_self, rfl⟩
        · exact ⟨entry, mem_cons_of_mem _ member, rfl⟩
      · rw [chainValue_cons, chainValue_cons, same]
        split <;> rfl
    · rename_i differ
      rw [sameIgnoringCase_folded] at differ
      obtain ⟨⟨rest, found⟩, inner, built⟩ := map_eq_some_iff.mp replaced
      obtain ⟨rfl, rfl⟩ := Prod.mk.inj built
      obtain ⟨keys, entries, values⟩ := ih inner
      refine ⟨?_, fun entry member => ?_, fun other => ?_⟩
      · rw [chainKeys, map_cons, ← chainKeys, keys]
        rfl
      · rcases mem_cons.mp member with rfl | member
        · exact ⟨entry, mem_cons_self, rfl⟩
        · obtain ⟨old, among, same⟩ := entries entry member
          exact ⟨old, mem_cons_of_mem _ among, same⟩
      · rw [chainValue_cons, chainValue_cons, values]
        split
        · rename_i here
          rw [if_neg fun same => differ (same.symm.trans here)]
        · rfl

theorem unlink_none (absent : unlink key chain = none) : folded key ∉ chainKeys chain := by
  induction chain with
  | nil => simp [chainKeys]
  | cons tp next ih =>
    unfold unlink at absent
    split at absent
    · contradiction
    · rename_i other
      rw [sameIgnoringCase_folded] at other
      rw [chainKeys, map_cons, mem_cons, not_or]
      exact ⟨other, ih (map_eq_none_iff.mp absent)⟩

theorem unlink_some {after : List HashObj} (removed : unlink key chain = some after) (distinct : (chainKeys chain).Nodup) :
    after.Sublist chain ∧ after.length + 1 = chain.length ∧
      ∀ other, chainValue other after = if folded other = folded key then none else chainValue other chain := by
  induction chain generalizing after with
  | nil => contradiction
  | cons first next ih =>
    rw [chainKeys, map_cons, nodup_cons, ← chainKeys] at distinct
    unfold unlink at removed
    split at removed
    · rename_i same
      rw [sameIgnoringCase_folded] at same
      obtain rfl := Option.some.inj removed
      refine ⟨sublist_cons_self first next, rfl, fun other => ?_⟩
      rw [chainValue_cons, ← same]
      split
      · rename_i here
        rw [← not_isSome_iff_eq_none, chainValue_isSome, here, same]
        exact distinct.1
      · rfl
    · rename_i differ
      rw [sameIgnoringCase_folded] at differ
      obtain ⟨rest, inner, rfl⟩ := map_eq_some_iff.mp removed
      obtain ⟨sublist, length, values⟩ := ih inner distinct.2
      refine ⟨sublist.cons_cons first, by rw [length_cons, length, length_cons], fun other => ?_⟩
      rw [chainValue_cons, chainValue_cons, values]
      split
      · rename_i here
        rw [if_neg fun same => differ (same.symm.trans here)]
      · rfl

def entriesFrom (table : HashTableObj) (hash_index : Nat) : List HashObj :=
  ((List.finRange MS_HASHSIZE).drop hash_index).flatMap table.items

structure TableInvariant (table : HashTableObj) : Prop where
  placed : ∀ i, ∀ tp ∈ table.items i, hash tp.key = i
  distinct : ∀ i, (chainKeys (table.items i)).Nodup
  counted : table.numitems = (entriesFrom table 0).length

theorem entries_update_perm (table : HashTableObj) (i : Fin MS_HASHSIZE) (chain : List HashObj) :
    (entriesFrom (table.setItems i chain) 0).Perm (chain ++ ((finRange MS_HASHSIZE).erase i).flatMap table.items) := by
  have first := (perm_cons_erase (mem_finRange i)).flatMap_right (table.setItems i chain).items
  refine first.trans ?_
  rw [flatMap_cons, items_setItems, update_self]
  refine Perm.append_left chain (Perm.of_eq ?_)
  refine flatMap_congr fun j member => ?_
  have other : j ≠ i := ((nodup_finRange MS_HASHSIZE).mem_erase_iff.mp member).1
  exact update_of_ne other _ _

theorem length_entries_update (table : HashTableObj) (i : Fin MS_HASHSIZE) (chain : List HashObj) :
    (entriesFrom (table.setItems i chain) 0).length + (table.items i).length =
      (entriesFrom table 0).length + chain.length := by
  have same : table.setItems i (table.items i) = table := by
    rw [HashTableObj.setItems, update_eq_self]
  have before := (entries_update_perm table i (table.items i)).length_eq
  have after := (entries_update_perm table i chain).length_eq
  rw [same, length_append] at before
  rw [length_append] at after
  omega

theorem msLookupHashTable_eq (table : HashTableObj) (key : CString) :
    msLookupHashTable (some key) table = chainValue key (table.items (hash key)) := rfl

theorem lookup_congr (table : HashTableObj) (same : folded left = folded right) :
    msLookupHashTable (some left) table = msLookupHashTable (some right) table := by
  rw [msLookupHashTable_eq, msLookupHashTable_eq, hash_congr same]
  induction table.items (hash right) with
  | nil => rfl
  | cons tp next ih => rw [chainValue_cons, chainValue_cons, same, ih]

theorem lookup_setItems {value : Option CString}
    (values : ∀ other, chainValue other chain = if folded other = folded key then value else chainValue other (table.items (hash key)))
    (other : CString) : msLookupHashTable (some other) (table.setItems (hash key) chain) =
      if folded other = folded key then value else msLookupHashTable (some other) table := by
  rw [msLookupHashTable_eq, msLookupHashTable_eq, items_setItems]
  by_cases bucket : hash other = hash key
  · rw [bucket, update_self, values]
  · rw [update_of_ne bucket, if_neg (mt hash_congr bucket)]

theorem setItems_invariant (invariant : TableInvariant table) (placed : ∀ tp ∈ chain, hash tp.key = i)
    (distinct : (chainKeys chain).Nodup) {numitems : Int}
    (counted : numitems + (table.items i).length = table.numitems + chain.length) :
    TableInvariant { table.setItems i chain with numitems } := by
  refine ⟨fun j => ?_, fun j => ?_, ?_⟩
  · rw [items_setItems]
    rcases eq_or_ne j i with rfl | other
    · rwa [update_self]
    · rw [update_of_ne other]
      exact invariant.placed j
  · rw [items_setItems]
    rcases eq_or_ne j i with rfl | other
    · rwa [update_self]
    · rw [update_of_ne other]
      exact invariant.distinct j
  · have lengths := length_entries_update table i chain
    have total := invariant.counted
    change numitems = ((entriesFrom (table.setItems i chain) 0).length : Int)
    omega

theorem insert_spec (invariant : TableInvariant table) (key value : CString) :
    TableInvariant (msInsertHashTable (some key) (some value) table).1 ∧
      ∀ other, msLookupHashTable (some other) (msInsertHashTable (some key) (some value) table).1 =
        if folded other = folded key then some value else msLookupHashTable (some other) table := by
  unfold msInsertHashTable
  dsimp only
  split
  · rename_i chain tp replaced
    obtain ⟨keys, entries, values⟩ := replaceData_some replaced
    refine ⟨setItems_invariant invariant (fun tp member => ?_) ?_ ?_, lookup_setItems values⟩
    · obtain ⟨old, among, same⟩ := entries tp member
      rw [same]
      exact invariant.placed _ old among
    · rw [keys]
      exact invariant.distinct _
    · have lengths := congrArg List.length keys
      rw [chainKeys, chainKeys, length_map, length_map] at lengths
      rw [lengths]
  · rename_i absent
    have new := replaceData_none absent
    refine ⟨setItems_invariant invariant (fun tp member => ?_) ?_ ?_, lookup_setItems fun other => ?_⟩
    · rcases mem_cons.mp member with rfl | member
      · rfl
      · exact invariant.placed _ tp member
    · exact nodup_cons.mpr ⟨new, invariant.distinct _⟩
    · rw [length_cons]
      omega
    · exact chainValue_cons ..

theorem remove_spec (invariant : TableInvariant table) (key : CString) :
    TableInvariant (msRemoveHashTable (some key) table).1 ∧
      ∀ other, msLookupHashTable (some other) (msRemoveHashTable (some key) table).1 =
        if folded other = folded key then none else msLookupHashTable (some other) table := by
  have unchanged (absent : folded key ∉ chainKeys (table.items (hash key))) (other : CString) :
      msLookupHashTable (some other) table =
        if folded other = folded key then none else msLookupHashTable (some other) table := by
    split
    · rename_i same
      rw [msLookupHashTable_eq, hash_congr same, ← not_isSome_iff_eq_none, chainValue_isSome, same]
      exact absent
    · rfl
  unfold msRemoveHashTable
  dsimp only
  split
  · rename_i empty
    refine ⟨invariant, unchanged ?_⟩
    rw [List.isEmpty_iff.mp empty]
    simp [chainKeys]
  · split
    · rename_i absent
      exact ⟨invariant, unchanged (unlink_none absent)⟩
    · rename_i chain removed
      obtain ⟨sublist, length, values⟩ := unlink_some removed (invariant.distinct _)
      refine ⟨setItems_invariant invariant (fun tp member => ?_) ?_ ?_, lookup_setItems values⟩
      · exact invariant.placed _ tp (sublist.subset member)
      · exact (sublist.map _).nodup (invariant.distinct _)
      · omega

/-- The calls of `msNextKeyFromHashTable` from `start` on give these keys and then `NULL`. -/
def KeyChain (table : HashTableObj) : Option CString → List CString → Prop
  | start, [] => start = none
  | start, key :: rest => start = some key ∧ KeyChain table (msNextKeyFromHashTable (some key) table) rest

theorem firstKeyFrom_eq (table : HashTableObj) (i : Nat) :
    firstKeyFrom table i = (entriesFrom table i).head?.map (·.key) := by
  unfold firstKeyFrom entriesFrom
  induction (finRange MS_HASHSIZE).drop i with
  | nil => rfl
  | cons j rest ih =>
    rw [findSome?_cons, flatMap_cons, ih]
    cases table.items j <;> rfl

theorem entriesFrom_bucket (table : HashTableObj) (i : Fin MS_HASHSIZE) :
    entriesFrom table i = table.items i ++ entriesFrom table (i + 1) := by
  have bound : i.val < (finRange MS_HASHSIZE).length := by rw [length_finRange]; exact i.isLt
  rw [entriesFrom, drop_eq_getElem_cons bound, flatMap_cons, getElem_finRange]
  rfl

theorem msNextKeyFromHashTable_eq (invariant : TableInvariant table) {before next : List HashObj} {tp : HashObj}
    (bucket : table.items i = before ++ tp :: next) :
    msNextKeyFromHashTable (some tp.key) table = ((next ++ entriesFrom table (i + 1)).head?).map (·.key) := by
  have member : tp ∈ table.items i := by simp [bucket]
  have home : hash tp.key = i := invariant.placed i tp member
  have differ : ∀ link ∈ before, (!sameIgnoringCase tp.key link.key) = true := by
    intro link among
    have distinct := invariant.distinct i
    rw [bucket, chainKeys, map_append, map_cons, nodup_append] at distinct
    rw [Bool.not_eq_true', Bool.eq_false_iff, ne_eq, sameIgnoringCase_folded]
    exact fun same => distinct.2.2 _ (List.mem_map_of_mem among) _ mem_cons_self same.symm
  unfold msNextKeyFromHashTable
  dsimp only
  rw [home, bucket, dropWhile_append_of_pos differ, dropWhile_cons_of_neg (by simp)]
  cases next with
  | nil => exact firstKeyFrom_eq table (i + 1)
  | cons other rest => rfl

theorem keyChain_bucket (invariant : TableInvariant table)
    (later : KeyChain table (firstKeyFrom table (i + 1)) ((entriesFrom table (i + 1)).map (·.key)))
    (before chain : List HashObj) (bucket : table.items i = before ++ chain) :
    KeyChain table ((chain ++ entriesFrom table (i + 1)).head?.map (·.key))
      ((chain ++ entriesFrom table (i + 1)).map (·.key)) := by
  induction chain generalizing before with
  | nil => rwa [nil_append, ← firstKeyFrom_eq]
  | cons tp next ih =>
    refine ⟨rfl, ?_⟩
    rw [msNextKeyFromHashTable_eq invariant bucket]
    exact ih (before ++ [tp]) (by rw [bucket, append_assoc, singleton_append])

theorem keyChain_entries (invariant : TableInvariant table) (count i : Nat) (total : i + count = MS_HASHSIZE) :
    KeyChain table (firstKeyFrom table i) ((entriesFrom table i).map (·.key)) := by
  induction count generalizing i with
  | zero =>
    have none : entriesFrom table i = [] := by
      rw [entriesFrom, drop_eq_nil_of_le (by rw [length_finRange]; omega), flatMap_nil]
    rw [firstKeyFrom_eq, none]
    rfl
  | succ count ih =>
    have later := ih (i + 1) (by omega)
    have split := entriesFrom_bucket table ⟨i, by omega⟩
    rw [firstKeyFrom_eq, show i = (⟨i, by omega⟩ : Fin MS_HASHSIZE).val from rfl, split]
    exact keyChain_bucket invariant later [] _ rfl

def valueAfter (key : CString) (value : Option CString) : HashCall → Option CString
  | .insert (some other) (some data) => if folded key = folded other then some data else value
  | .remove (some other) => if folded key = folded other then none else value
  | _ => value

def lastValue (key : CString) (calls : List HashCall) : Option CString := calls.foldl (valueAfter key) none

def insertedKey : HashCall → Option CString
  | .insert (some key) (some _) => some (folded key)
  | _ => none

def liveKeys (calls : List HashCall) : List CString :=
  (calls.filterMap insertedKey).dedup.filter fun key => (lastValue key calls).isSome

theorem applyCall_spec (invariant : TableInvariant table) (call : HashCall) :
    TableInvariant (applyCall table call) ∧ ∀ key, msLookupHashTable (some key) (applyCall table call) =
      valueAfter key (msLookupHashTable (some key) table) call := by
  cases call with
  | insert key value =>
    cases key with
    | none => exact ⟨invariant, fun _ => rfl⟩
    | some key =>
      cases value with
      | none => exact ⟨invariant, fun _ => rfl⟩
      | some value => exact insert_spec invariant key value
  | remove key =>
    cases key with
    | none => exact ⟨invariant, fun _ => rfl⟩
    | some key => exact remove_spec invariant key

theorem foldl_applyCall_spec (calls : List HashCall) (invariant : TableInvariant table) :
    TableInvariant (calls.foldl applyCall table) ∧ ∀ key, msLookupHashTable (some key) (calls.foldl applyCall table) =
      calls.foldl (valueAfter key) (msLookupHashTable (some key) table) := by
  induction calls generalizing table with
  | nil => exact ⟨invariant, fun _ => rfl⟩
  | cons call rest ih =>
    obtain ⟨kept, values⟩ := applyCall_spec invariant call
    obtain ⟨final, later⟩ := ih kept
    refine ⟨final, fun key => ?_⟩
    rw [foldl_cons, later, values, foldl_cons]

theorem create_invariant : TableInvariant msCreateHashTable where
  placed _ _ member := by cases member
  distinct _ := nodup_nil
  counted := by simp [entriesFrom, msCreateHashTable]

theorem applyCalls_spec (calls : List HashCall) :
    TableInvariant (applyCalls calls) ∧
      ∀ key, msLookupHashTable (some key) (applyCalls calls) = lastValue key calls :=
  foldl_applyCall_spec calls create_invariant

theorem valueAfter_folded (key : CString) (value : Option CString) (call : HashCall) :
    valueAfter (folded key) value call = valueAfter key value call := by
  unfold valueAfter
  simp only [folded_folded]

theorem lastValue_folded (key : CString) (calls : List HashCall) : lastValue (folded key) calls = lastValue key calls := by
  have same : valueAfter (folded key) = valueAfter key := by
    funext value call
    exact valueAfter_folded key value call
  rw [lastValue, lastValue, same]

theorem folded_mem_of_value {calls : List HashCall} {value : Option CString}
    (live : (calls.foldl (valueAfter key) value).isSome = true) :
    value.isSome = true ∨ folded key ∈ calls.filterMap insertedKey := by
  induction calls generalizing value with
  | nil => exact .inl live
  | cons call rest ih =>
    rw [filterMap_cons]
    rcases ih live with now | later
    · unfold valueAfter at now
      split at now
      · rename_i other data
        split at now
        · rename_i same
          exact .inr (by rw [insertedKey, same]; exact mem_cons_self)
        · exact .inl now
      · split at now
        · contradiction
        · exact .inl now
      · exact .inl now
    · refine .inr ?_
      split
      · exact later
      · exact mem_cons_of_mem _ later

theorem mem_liveKeys {calls : List HashCall} :
    key ∈ liveKeys calls ↔ ∃ spelled, folded spelled = key ∧ (lastValue spelled calls).isSome = true := by
  unfold liveKeys
  rw [mem_filter, mem_dedup]
  constructor
  · rintro ⟨inserted, live⟩
    obtain ⟨call, -, key_eq⟩ := mem_filterMap.mp inserted
    obtain ⟨spelled, rfl⟩ : ∃ spelled, folded spelled = key := by
      unfold insertedKey at key_eq
      split at key_eq
      · exact ⟨_, Option.some.inj key_eq⟩
      · contradiction
    exact ⟨folded spelled, folded_folded spelled, live⟩
  · rintro ⟨spelled, rfl, live⟩
    rw [lastValue_folded]
    refine ⟨?_, live⟩
    rcases folded_mem_of_value live with none | inserted
    · contradiction
    · exact inserted

theorem liveKeys_nodup (calls : List HashCall) : (liveKeys calls).Nodup :=
  (nodup_dedup _).filter _

theorem entries_keys_nodup (invariant : TableInvariant table) : (chainKeys (entriesFrom table 0)).Nodup := by
  unfold chainKeys entriesFrom
  rw [drop_zero, map_flatMap, nodup_flatMap]
  refine ⟨fun i _ => invariant.distinct i, (nodup_finRange _).imp_of_mem fun {i j} _ _ differ => ?_⟩
  intro key left right
  obtain ⟨first, inLeft, rfl⟩ := List.mem_map.mp left
  obtain ⟨second, inRight, same⟩ := List.mem_map.mp right
  have same_hash := hash_congr same
  rw [invariant.placed i first inLeft, invariant.placed j second inRight] at same_hash
  exact differ same_hash.symm

theorem mem_entries_keys (invariant : TableInvariant table) : key ∈ chainKeys (entriesFrom table 0) ↔
    ∃ spelled, folded spelled = key ∧ (msLookupHashTable (some spelled) table).isSome = true := by
  simp only [msLookupHashTable_eq, chainValue_isSome, chainKeys, entriesFrom, drop_zero]
  constructor
  · intro member
    obtain ⟨tp, among, rfl⟩ := List.mem_map.mp member
    obtain ⟨i, -, inside⟩ := mem_flatMap.mp among
    refine ⟨tp.key, rfl, ?_⟩
    rw [invariant.placed i tp inside]
    exact List.mem_map_of_mem inside
  · rintro ⟨spelled, rfl, member⟩
    obtain ⟨tp, inside, same⟩ := List.mem_map.mp member
    exact List.mem_map.mpr ⟨tp, mem_flatMap.mpr ⟨_, mem_finRange _, inside⟩, same⟩

/-- After any calls the table has the last value of every key, counts the keys that have one, and its
iteration gives each of them once. -/
theorem hashTable_isMap (calls : List HashCall) :
    (∀ key, msLookupHashTable (some key) (applyCalls calls) = lastValue key calls) ∧
    (applyCalls calls).numitems = (liveKeys calls).length ∧
    ∃ keys, KeyChain (applyCalls calls) (msFirstKeyFromHashTable (applyCalls calls)) keys ∧
      (keys.map folded).Perm (liveKeys calls) := by
  obtain ⟨invariant, values⟩ := applyCalls_spec calls
  have perm : (chainKeys (entriesFrom (applyCalls calls) 0)).Perm (liveKeys calls) := by
    refine (List.perm_ext_iff_of_nodup (entries_keys_nodup invariant) (liveKeys_nodup calls)).mpr fun key => ?_
    rw [mem_entries_keys invariant, mem_liveKeys]
    simp only [values]
  refine ⟨values, ?_, (entriesFrom (applyCalls calls) 0).map HashObj.key,
    keyChain_entries invariant MS_HASHSIZE 0 (Nat.zero_add _), ?_⟩
  · rw [invariant.counted, ← perm.length_eq, chainKeys, List.length_map]
  · rw [List.map_map]
    exact perm

end MapServer
