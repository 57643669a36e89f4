import Mathlib.Algebra.Order.Ring.Int
import MapServer.Lib.ByteFile

/-! Buffers that are filled from a position on. A chunk may be longer than what is kept of it. -/

namespace Lib.Filling
open Lib.ByteFile List Option

structure Cursor where
  buffer : List UInt8
  pos : Nat

def Cursor.store (out : Cursor) (bytes : List UInt8) : Option Cursor :=
  (storeAt out.buffer out.pos bytes).map fun buffer => { out with buffer }

def Cursor.advance (out : Cursor) (count : Nat) : Cursor := { out with pos := out.pos + count }

structure Chunk where
  bytes : List UInt8
  kept : Nat

def Cursor.put (out : Cursor) (chunk : Chunk) : Option Cursor :=
  (out.store chunk.bytes).map fun out => out.advance chunk.kept

def Cursor.puts (out : Cursor) (chunks : List Chunk) : Option Cursor := chunks.foldlM Cursor.put out

def keptLength (chunks : List Chunk) : Nat := (chunks.map Chunk.kept).sum

theorem Cursor.store_eq_some {out after : Cursor} {bytes : List UInt8} (stores : out.store bytes = some after) :
    after.pos = out.pos ∧ after.buffer.length = out.buffer.length ∧ out.pos + bytes.length ≤ out.buffer.length ∧
      ∃ rest, after.buffer.drop out.pos = bytes ++ rest := by
  obtain ⟨buffer, stored, rfl⟩ := map_eq_some_iff.mp stores
  refine ⟨rfl, length_of_storeAt stored, ?_⟩
  unfold storeAt at stored
  split at stored
  · rename_i inside
    obtain rfl := Option.some.inj stored
    have start : (out.buffer.take out.pos).length = out.pos := by
      rw [length_take]
      omega
    exact ⟨inside, _, by rw [append_assoc, drop_left' start]⟩
  · cases stored

theorem Cursor.store_of_room {out : Cursor} {bytes : List UInt8} (room : out.pos + bytes.length ≤ out.buffer.length) :
    ∃ after, out.store bytes = some after := by
  obtain ⟨buffer, stored, -⟩ := storeAt_stored out.buffer out.pos bytes room
  exact ⟨_, by rw [Cursor.store, stored]; rfl⟩

theorem Cursor.put_eq_some {out after : Cursor} {chunk : Chunk} (puts : out.put chunk = some after) :
    after.pos = out.pos + chunk.kept ∧ after.buffer.length = out.buffer.length ∧
      out.pos + chunk.bytes.length ≤ out.buffer.length := by
  obtain ⟨stored, stores, rfl⟩ := map_eq_some_iff.mp puts
  obtain ⟨pos, length, room, -⟩ := Cursor.store_eq_some stores
  exact ⟨congrArg (· + chunk.kept) pos, length, room⟩

theorem Cursor.puts_append (out : Cursor) (first second : List Chunk) :
    out.puts (first ++ second) = (out.puts first).bind fun out => out.puts second :=
  foldlM_append ..

/-- All chunks are stored exactly when each has room after what was kept of the ones before it. -/
theorem Cursor.puts_iff (out : Cursor) (chunks : List Chunk) :
    (∃ after, out.puts chunks = some after) ↔ ∀ before chunk after, chunks = before ++ chunk :: after →
      out.pos + keptLength before + chunk.bytes.length ≤ out.buffer.length := by
  induction chunks generalizing out with
  | nil =>
    refine iff_of_true ⟨out, rfl⟩ ?_
    intro before chunk after impossible
    simp at impossible
  | cons first rest ih =>
    constructor
    · rintro ⟨last, run⟩ before chunk after split
      obtain ⟨next, puts, run⟩ := bind_eq_some_iff.mp run
      obtain ⟨pos, length, room⟩ := Cursor.put_eq_some puts
      cases before with
      | nil =>
        obtain ⟨rfl, -⟩ := List.cons.inj split
        exact room
      | cons head before =>
        obtain ⟨rfl, others⟩ := List.cons.inj split
        have fits := (ih next).mp ⟨last, run⟩ before chunk after others
        rw [pos, length] at fits
        unfold keptLength at *
        rw [map_cons, sum_cons]
        omega
    · intro fits
      obtain ⟨stored, stores⟩ := Cursor.store_of_room (fits [] first rest rfl)
      have puts : out.put first = some (stored.advance first.kept) := by rw [Cursor.put, stores]; rfl
      obtain ⟨pos, length, -⟩ := Cursor.put_eq_some puts
      have more : ∀ before chunk after, rest = before ++ chunk :: after →
          (stored.advance first.kept).pos + keptLength before + chunk.bytes.length ≤
            (stored.advance first.kept).buffer.length := by
        intro before chunk after split
        have later := fits (first :: before) chunk after (by rw [split]; rfl)
        rw [pos, length]
        unfold keptLength at *
        rw [map_cons, sum_cons] at later
        omega
      obtain ⟨last, run⟩ := (ih _).mpr more
      exact ⟨last, bind_eq_some_iff.mpr ⟨_, puts, run⟩⟩

end Lib.Filling
