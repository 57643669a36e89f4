import MapServer.Text

namespace MapServer

def MS_HASHSIZE : Nat := 41

/-- A byte as the `int` that a `char` is promoted to. -/
def charBits (c : UInt8) : BitVec 32 := c.toBitVec.signExtend 32

def hash (key : CString) : Fin MS_HASHSIZE :=
  let hashval := key.foldl (fun hashval c => charBits (tolower c) + 31 * hashval) (0 : BitVec 32)
  ⟨hashval.toNat % MS_HASHSIZE, Nat.mod_lt _ (by decide)⟩

/-- `hashObj`; the link to the next one is the tail of the list. -/
structure HashObj where
  key : CString
  data : CString

structure HashTableObj where
  items : Fin MS_HASHSIZE → List HashObj
  numitems : Int

def msCreateHashTable : HashTableObj := ⟨fun _ => [], 0⟩

def HashTableObj.setItems (table : HashTableObj) (hashval : Fin MS_HASHSIZE) (chain : List HashObj) : HashTableObj :=
  { table with items := Function.update table.items hashval chain }

theorem items_setItems (table : HashTableObj) (hashval : Fin MS_HASHSIZE) (chain : List HashObj) :
    (table.setItems hashval chain).items = Function.update table.items hashval chain := rfl

def replaceData (key value : CString) : List HashObj → Option (List HashObj × HashObj)
  | [] => none
  | tp :: next =>
    if sameIgnoringCase key tp.key then some ({ tp with data := value } :: next, { tp with data := value })
    else (replaceData key value next).map fun (chain, found) => (tp :: chain, found)

def msInsertHashTable (key value : Option CString) (table : HashTableObj) : HashTableObj × Except String HashObj :=
  match key, value with
  | some key, some value =>
    match replaceData key value (table.items (hash key)) with
    | some (chain, tp) => (table.setItems (hash key) chain, .ok tp)
    | none =>
      let tp : HashObj := ⟨key, value⟩
      ({ table.setItems (hash key) (tp :: table.items (hash key)) with numitems := table.numitems + 1 }, .ok tp)
  | _, _ => (table, .error "Invalid hash table or key")

def msLookupHashTable (key : Option CString) (table : HashTableObj) : Option CString :=
  match key with
  | none => none
  | some key => ((table.items (hash key)).find? fun tp => sameIgnoringCase key tp.key).map (·.data)

def unlink (key : CString) : List HashObj → Option (List HashObj)
  | [] => none
  | tp :: next => if sameIgnoringCase key tp.key then some next else (unlink key next).map (tp :: ·)

def msRemoveHashTable (key : Option CString) (table : HashTableObj) : HashTableObj × Bool × Option String :=
  match key with
  | none => (table, false, some "No hash table")
  | some key =>
    if (table.items (hash key)).isEmpty then (table, false, some "No such hash entry")
    else
      match unlink key (table.items (hash key)) with
      | none => (table, false, none)
      | some chain => ({ table.setItems (hash key) chain with numitems := table.numitems - 1 }, true, none)

def firstKeyFrom (table : HashTableObj) (hash_index : Nat) : Option CString :=
  ((List.finRange MS_HASHSIZE).drop hash_index).findSome? fun i => (table.items i).head?.map (·.key)

def msFirstKeyFromHashTable (table : HashTableObj) : Option CString := firstKeyFrom table 0

def msNextKeyFromHashTable (lastKey : Option CString) (table : HashTableObj) : Option CString :=
  match lastKey with
  | none => msFirstKeyFromHashTable table
  | some lastKey =>
    match (table.items (hash lastKey)).dropWhile fun link => !sameIgnoringCase lastKey link.key with
    | _ :: next :: _ => some next.key
    | _ => firstKeyFrom table (hash lastKey + 1)

inductive HashCall where
  | insert (key value : Option CString)
  | remove (key : Option CString)

def applyCall (table : HashTableObj) : HashCall → HashTableObj
  | .insert key value => (msInsertHashTable key value table).1
  | .remove key => (msRemoveHashTable key table).1

def applyCalls (calls : List HashCall) : HashTableObj := calls.foldl applyCall msCreateHashTable

end MapServer
