import MapServer.Hash.HashTable
import MapServer.Lib.ByteFile
import MapServer.Runtime

/-!
# The buffered standard output and its headers

`none` stands for a read past the byte at `data_offset`, a store outside the allocation, or a negative length.
-/

namespace MapServer
open Lib.ByteFile

/-- Without bytes `data` is the null pointer. -/
structure MsIOBuffer where
  data : List UInt8
  data_len : Nat
  data_offset : Nat

def emptyBuffer : MsIOBuffer := ⟨[], 0, 0⟩

def msIO_bufferWrite (malloc : Nat → UInt8) (bytes : List UInt8) (buf : MsIOBuffer) : Option MsIOBuffer :=
  let byteCount := bytes.length
  let data_len :=
    if buf.data_offset + byteCount ≥ buf.data_len then buf.data_len * 2 + byteCount + 100 else buf.data_len
  let grown := if buf.data_offset + byteCount ≥ buf.data_len then SfRealloc malloc buf.data data_len else buf.data
  do
    let copied ← storeAt grown buf.data_offset bytes
    let data ← storeAt copied (buf.data_offset + byteCount) [0]
    some { data, data_len, data_offset := buf.data_offset + byteCount }

def bufferWrites (malloc : Nat → UInt8) (writes : List (List UInt8)) : Option MsIOBuffer :=
  writes.foldlM (fun buf bytes => msIO_bufferWrite malloc bytes buf) emptyBuffer

namespace MsIOBuffer
variable (buf : MsIOBuffer)

/-- The byte at `data_offset` is the terminating zero. -/
def readByte (i : Nat) : Option UInt8 := if i ≤ buf.data_offset then buf.data[i]? else none

/-- `memcpy` from the data, or `strncpy` of what has no zero. -/
def readBytes (start : Nat) (length : Int) : Option (List UInt8) :=
  if 0 ≤ length ∧ start + length ≤ buf.data_offset then readAt buf.data start length.toNat else none

/-- The `memmove` of the data to the front, and the new end. -/
def moveToFront (start : Nat) : Option MsIOBuffer := do
  let rest ← buf.readBytes start (buf.data_offset - start)
  let moved ← storeAt buf.data 0 rest
  let data ← storeAt moved (buf.data_offset - start) [0]
  some { buf with data, data_offset := buf.data_offset - start }

/-- `strncasecmp(data + start, word, strlen(word)) == 0`. -/
def startsWith (start : Nat) : CString → Option Bool
  | [] => some true
  | c :: word => do
    let byte ← buf.readByte start
    if tolower byte = tolower c then startsWith (start + 1) word else some false

/-- `while (i < data_offset && data[i] != '\r') i++`. -/
def skipToReturn (i : Nat) : Nat → Option Nat
  | 0 => some i
  | count + 1 => do
    let byte ← buf.readByte i
    if byte = 13 then some i else skipToReturn (i + 1) count

end MsIOBuffer

section Strip

/-- What is returned or reported, and the buffer afterwards. -/
abbrev Stripped (β : Type) := Except ErrorObj β × MsIOBuffer

def terminated (bytes : List UInt8) : CString := bytes.takeWhile (· ≠ 0)

/-- The inner loop: where it stops, and `pos_of_column` when it is not negative. -/
def findColumn (buf : MsIOBuffer) (current_pos : Nat) (pos_of_column : Option Nat) : Nat → Option (Nat × Option Nat)
  | 0 => some (current_pos, pos_of_column)
  | count + 1 => do
    let byte ← buf.readByte current_pos
    if byte = 13 then
      if current_pos + 1 = buf.data_offset then some (current_pos, none)
      else
        let next ← buf.readByte (current_pos + 1)
        some (current_pos, if next = 10 then pos_of_column else none)
    else if byte = 58 then
      if current_pos + 1 = buf.data_offset then some (current_pos, none)
      else
        let next ← buf.readByte (current_pos + 1)
        if next = 32 then findColumn buf (current_pos + 1) (some current_pos) count else some (current_pos, none)
    else findColumn buf (current_pos + 1) pos_of_column count

def corruptMimeHeaders (buf : MsIOBuffer) : Stripped HashTableObj :=
  (.error ⟨.MS_MISCERR, "Corrupt mime headers.", "msIO_getAndStripStdoutBufferMimeHeaders"⟩, buf)

def stripHeaders (buf : MsIOBuffer) (hashTable : HashTableObj) (start_of_mime_header : Nat) :
    Nat → Option (Stripped HashTableObj)
  | 0 => none
  | fuel + 1 => do
    match ← findColumn buf start_of_mime_header none (buf.data_offset - start_of_mime_header) with
    | (_, none) => some (corruptMimeHeaders buf)
    | (current_pos, some pos_of_column) =>
      if current_pos = buf.data_offset then some (corruptMimeHeaders buf)
      else
        let key ← buf.readBytes start_of_mime_header (pos_of_column - start_of_mime_header)
        let value ← buf.readBytes (pos_of_column + 2) (current_pos - (pos_of_column + 2))
        let hashTable := (msInsertHashTable (terminated key) (terminated value) hashTable).1
        let current_pos := current_pos + 2
        if current_pos = buf.data_offset then some (corruptMimeHeaders buf)
        else
          let byte ← buf.readByte current_pos
          if byte = 13 then
            if current_pos + 1 = buf.data_offset then some (corruptMimeHeaders buf)
            else
              let next ← buf.readByte (current_pos + 1)
              if next ≠ 10 then some (corruptMimeHeaders buf)
              else do
                let stripped ← buf.moveToFront (current_pos + 2)
                some (.ok hashTable, stripped)
          else stripHeaders buf hashTable current_pos fuel

def msIO_getAndStripStdoutBufferMimeHeaders (buf : MsIOBuffer) : Option (Stripped HashTableObj) :=
  stripHeaders buf msCreateHashTable 0 (buf.data_offset + 1)

def corruptContentType (buf : MsIOBuffer) : Stripped (Option CString) :=
  (.error ⟨.MS_MISCERR, "Corrupt Content-Type header.", "msIO_stripStdoutBufferContentType"⟩, buf)

def skipEmptyLine (buf : MsIOBuffer) (start_of_data : Nat) : Option Nat :=
  if start_of_data < buf.data_offset then do
    let byte ← buf.readByte start_of_data
    some (if byte = 13 then start_of_data + 2 else start_of_data)
  else some start_of_data

def msIO_stripStdoutBufferContentType (buf : MsIOBuffer) : Option (Stripped (Option CString)) :=
  if buf.data_offset < 14 then some (.ok none, buf)
  else do
    if !(← buf.startsWith 0 (ascii "Content-Type: ")) then some (.ok none, buf)
    else
      -- one more than `end_of_ct`
      let next ← buf.skipToReturn 14 (buf.data_offset - 14)
      if next = buf.data_offset then some (corruptContentType buf)
      else
        let start_of_data ← skipEmptyLine buf (next + 2)
        if start_of_data = buf.data_offset then some (corruptContentType buf)
        else
          let content_type ← buf.readBytes 14 (next - 14)
          let stripped ← buf.moveToFront start_of_data
          some (.ok (some (terminated content_type)), stripped)

def corruptContentHeader (buf : MsIOBuffer) : Stripped Unit :=
  (.error ⟨.MS_MISCERR, "Corrupt Content-* header.", "msIO_stripStdoutBufferContentHeaders"⟩, buf)

def skipContentHeaders (buf : MsIOBuffer) (start_of_data : Nat) : Nat → Option (Option Nat)
  | 0 => none
  | fuel + 1 =>
    if buf.data_offset > start_of_data then do
      if !(← buf.startsWith start_of_data (ascii "Content-")) then some (some start_of_data)
      else
        -- one more than `start_of_data`
        let next ← buf.skipToReturn (start_of_data + 8) (buf.data_offset - (start_of_data + 8))
        if next = buf.data_offset then some none else skipContentHeaders buf (next + 2) fuel
    else some (some start_of_data)

def msIO_stripStdoutBufferContentHeaders (buf : MsIOBuffer) : Option (Stripped Unit) :=
  if buf.data_offset < 8 then some (.ok (), buf)
  else do
    if !(← buf.startsWith 0 (ascii "Content-")) then some (.ok (), buf)
    else
      match ← skipContentHeaders buf 0 (buf.data_offset + 1) with
      | none => some (corruptContentHeader buf)
      | some start_of_data =>
        let start_of_data ← skipEmptyLine buf start_of_data
        if start_of_data = buf.data_offset then some (corruptContentHeader buf)
        else
          let stripped ← buf.moveToFront start_of_data
          some (.ok (), stripped)

end Strip

end MapServer
