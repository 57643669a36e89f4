import MapServer.Lib.Crossings
import MapServer.Primitive.RingNesting

namespace MapServer
open Lib.EvenOdd List

section Chords
variable {α : Type}

def chordRing (ring : LineObj α) (i j : Nat) : LineObj α := (ring.drop i).take (j - i + 1)

/-- The ring of the vertices from `j` on and those up to `i`. -/
def restRing (ring : LineObj α) (i j : Nat) : LineObj α := ring.drop j ++ ring.take (i + 1)

theorem chordRing_eq (front : LineObj α) (a : PointObj α) (between : LineObj α) (b : PointObj α) (back : LineObj α) :
    chordRing (front ++ a :: between ++ b :: back) front.length (front.length + 1 + between.length) =
      a :: between ++ [b] := by
  have count : front.length + 1 + between.length - front.length + 1 = (a :: between).length + 1 := by
    rw [length_cons]
    omega
  rw [chordRing, append_assoc, drop_left, count, take_append, take_of_length_le (by simp)]
  simp

theorem restRing_eq (front : LineObj α) (a : PointObj α) (between : LineObj α) (b : PointObj α) (back : LineObj α) :
    restRing (front ++ a :: between ++ b :: back) front.length (front.length + 1 + between.length) =
      b :: back ++ front ++ [a] := by
  have start : (front ++ a :: between).length = front.length + 1 + between.length := by
    rw [length_append, length_cons]
    omega
  rw [restRing, drop_left' start, append_assoc, take_append, take_of_length_le (by simp)]
  simp

theorem exists_chord (ring : LineObj α) {i j : Fin ring.length} (before : i < j) :
    ∃ front a between b back, ring = front ++ a :: between ++ b :: back ∧ (i : Nat) = front.length ∧
      (j : Nat) = front.length + 1 + between.length := by
  have order : (i : Nat) < j := before
  have inside := j.isLt
  refine ⟨ring.take i, ring[i], (ring.drop (i + 1)).take (j - (i + 1)), ring[j], ring.drop (j + 1), ?_, ?_, ?_⟩
  · have middle : (ring.drop (i + 1)).drop (j - (i + 1)) = ring.drop j := by
      rw [drop_drop, Nat.add_sub_cancel' order]
    calc ring = ring.take i ++ ring.drop i := (take_append_drop ..).symm
      _ = ring.take i ++ ring[i] :: ring.drop (i + 1) := by rw [drop_eq_getElem_cons i.isLt]; rfl
      _ = ring.take i ++ ring[i] :: ((ring.drop (i + 1)).take (j - (i + 1)) ++ ring.drop j) := by
        rw [← middle, take_append_drop]
      _ = ring.take i ++ ring[i] :: (ring.drop (i + 1)).take (j - (i + 1)) ++ ring[j] :: ring.drop (j + 1) := by
        rw [drop_eq_getElem_cons inside, append_assoc, cons_append]
        rfl
  · rw [length_take]
    omega
  · rw [length_take, length_take, length_drop]
    omega

end Chords

/-- The rings on both sides of a chord are filled apart, and together as the whole ring. -/
theorem msPointInPolygon_tiles (ring : LineObj ℚ) (p : PointObj ℚ) :
    (∀ i j : Fin ring.length, i < j → msPointInPolygon p ring =
      (msPointInPolygon p (chordRing ring i j) ^^ msPointInPolygon p (restRing ring i j))) ∧
    (∀ n, msPointInPolygon p (ring.rotate n) = msPointInPolygon p ring) ∧
    (∀ first ∈ ring.head?, msPointInPolygon p (ring ++ [first]) = msPointInPolygon p ring) ∧
    msPointInPolygon p ring.reverse = msPointInPolygon p ring := by
  refine ⟨fun i j before => ?_, fun n => ?_, fun first isFirst => ?_, ?_⟩
  · obtain ⟨front, a, between, b, back, whole, first, second⟩ := exists_chord ring before
    rw [first, second, whole, chordRing_eq, restRing_eq]
    simp only [msPointInPolygon_eq, map_append, map_cons, map_nil]
    exact inside_chord ..
  · have turned : ring.rotate n = ring.drop (n % ring.length) ++ ring.take (n % ring.length) := by
      cases ring with
      | nil => simp
      | cons a rest =>
        rw [← rotate_mod]
        exact rotate_eq_drop_append_take (Nat.mod_lt _ (by simp)).le
    rw [msPointInPolygon_eq, msPointInPolygon_eq, turned, map_append, inside_rotate, ← map_append,
      take_append_drop]
  · obtain ⟨rest, rfl⟩ := head?_eq_some_iff.mp isFirst
    rw [msPointInPolygon_eq, msPointInPolygon_eq]
    simp only [map_append, map_cons, map_nil, cons_append]
    exact inside_closed ..
  · rw [msPointInPolygon_eq, msPointInPolygon_eq, map_reverse, inside_reverse]

def unitSquare : LineObj ℚ := [⟨0, 0, 0, 0⟩, ⟨1, 0, 0, 0⟩, ⟨1, 1, 0, 0⟩, ⟨0, 1, 0, 0⟩]

theorem msPointInPolygon_tiles_square :
    msPointInPolygon ⟨1 / 2, 0, 0, 0⟩ unitSquare = (msPointInPolygon ⟨1 / 2, 0, 0, 0⟩ (chordRing unitSquare 0 2) ^^
        msPointInPolygon ⟨1 / 2, 0, 0, 0⟩ (restRing unitSquare 0 2)) ∧
      msPointInPolygon ⟨1 / 2, 0, 0, 0⟩ (unitSquare ++ [⟨0, 0, 0, 0⟩]) = msPointInPolygon ⟨1 / 2, 0, 0, 0⟩ unitSquare :=
  have tiles := msPointInPolygon_tiles unitSquare ⟨1 / 2, 0, 0, 0⟩
  ⟨tiles.1 ⟨0, by decide⟩ ⟨2, by decide⟩ (by decide), tiles.2.2.1 _ rfl⟩

end MapServer
