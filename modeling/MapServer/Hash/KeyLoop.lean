import MapServer.Hash.HashMap

namespace MapServer
open List Option Function

/-- A table that was only changed by the functions of `maphash.c`. -/
abbrev SoundTable := { table : HashTableObj // TableInvariant table }

def SoundTable.lookup (table : SoundTable) (key : CString) : Option CString := msLookupHashTable (some key) table.1

def SoundTable.insert (table : SoundTable) (key value : CString) : SoundTable :=
  ⟨(msInsertHashTable (some key) (some value) table.1).1, (insert_spec table.2 key value).1⟩

def SoundTable.keys (table : SoundTable) : List CString := (entriesFrom table.1 0).map (·.key)

variable {σ : Type} (table : σ → SoundTable) (body : CString → σ → σ)

theorem SoundTable.lookup_congr (table : SoundTable) {left right : CString} (same : folded left = folded right) :
    table.lookup left = table.lookup right := MapServer.lookup_congr table.1 same

end MapServer
