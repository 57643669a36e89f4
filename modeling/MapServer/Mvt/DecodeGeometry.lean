import Mathlib.Algebra.Order.BigOperators.Group.List
import Mathlib.Algebra.Order.Ring.Nat
import MapServer.Mvt.WriteShape

namespace MapServer
open List Option

inductive PathOp where
  | moveTo (x y : Int)
  | lineTo (x y : Int)
  | closePath
  deriving DecidableEq

def decodeParameter (word : Nat) : Int := if word % 2 = 0 then (word / 2 : Nat) else -(word / 2 : Nat) - 1

def pathOp (isLine : Bool) (x y : Int) : PathOp := if isLine then .lineTo x y else .moveTo x y

/-- The decoder at the cursor `(x, y)` with so many points of a command still to be read. -/
def decodeCommands (x y : Int) (isLine : Bool) : Nat → List Nat → Option (List PathOp)
  | 0, [] => some []
  | 0, word :: rest =>
    if word % 8 = 1 then decodeCommands x y false (word / 8) rest
    else if word % 8 = 2 then decodeCommands x y true (word / 8) rest
    else if word = 15 then (decodeCommands x y false 0 rest).map (PathOp.closePath :: ·)
    else none
  | count + 1, dx :: dy :: rest =>
    let x' := x + decodeParameter dx
    let y' := y + decodeParameter dy
    (decodeCommands x' y' isLine count rest).map (pathOp isLine x' y' :: ·)
  | _ + 1, _ => none

def decodeGeometry (geometry : List Nat) : Option (List PathOp) := decodeCommands 0 0 false 0 geometry

def IsInt32 (value : Int) : Prop := -2147483648 ≤ value ∧ value < 2147483648

section Drawing
variable {α : Type} (MS_NINT : α → Int)

def rounded (point : PointObj α) : Int × Int := (MS_NINT point.x, MS_NINT point.y)

def shownPoints (layerType : MvtLayerType) (line : LineObj α) : List (Int × Int) :=
  match layerType with
  | .MS_LAYER_POINT => line.map (rounded MS_NINT)
  | .MS_LAYER_LINE => if 2 ≤ line.length then line.map (rounded MS_NINT) else []
  | .MS_LAYER_POLYGON => if 4 ≤ line.length then line.dropLast.map (rounded MS_NINT) else []

def path (layerType : MvtLayerType) : List (Int × Int) → List PathOp
  | [] => []
  | first :: rest =>
    .moveTo first.1 first.2 :: (rest.map fun point => .lineTo point.1 point.2) ++
      if layerType = .MS_LAYER_POLYGON then [.closePath] else []

/-- The differences of successive points fit an `int`. -/
def DeltasFit : Int × Int → List (Int × Int) → Prop
  | _, [] => True
  | last, point :: rest =>
    IsInt32 (point.1 - last.1) ∧ IsInt32 (point.2 - last.2) ∧ DeltasFit point rest

end Drawing

variable {count : Nat} {isLine : Bool} {ops : List PathOp} {out : GeometryOut}

theorem COMMAND_eq {id : Nat} (idBound : id < 8) (countBound : count < 536870912) : COMMAND id count = 8 * count + id := by
  have low : id &&& 0x7 = id := by
    rw [show (0x7 : Nat) = 2 ^ 3 - 1 from rfl, Nat.and_two_pow_sub_one_eq_mod]
    exact Nat.mod_eq_of_lt idBound
  rw [COMMAND, low, Nat.shiftLeft_eq, Nat.or_comm, Nat.mul_comm, ← Nat.two_pow_add_eq_or_of_lt idBound]
  omega

theorem xor_zero (n : Int) : n.xor 0 = n := by
  cases n <;> simp [Int.xor]

theorem xor_neg_one (n : Int) : n.xor (-1) = -n - 1 := by
  rw [show (-1 : Int) = Int.negSucc 0 from rfl]
  cases n with
  | ofNat n => simp [Int.xor, Int.negSucc_eq]; omega
  | negSucc n => simp [Int.xor, Int.negSucc_eq]

theorem PARAMETER_eq {n : Int} (range : IsInt32 n) :
    PARAMETER n = (if 0 ≤ n then 2 * n else -2 * n - 1).toNat := by
  obtain ⟨low, high⟩ := range
  rw [PARAMETER, Int.shiftLeft_eq, Int.shiftRight_eq_div_pow]
  by_cases nonneg : 0 ≤ n
  · have sign : n / ((2 ^ 31 : Nat) : Int) = 0 := by omega
    rw [sign, xor_zero, if_pos nonneg, uint32]
    omega
  · have sign : n / ((2 ^ 31 : Nat) : Int) = -1 := by omega
    rw [sign, xor_neg_one, if_neg nonneg, uint32]
    omega

theorem decodeParameter_PARAMETER {n : Int} (range : IsInt32 n) : decodeParameter (PARAMETER n) = n := by
  rw [PARAMETER_eq range, decodeParameter]
  split <;> split <;> omega

/-- The words written so far draw `ops`, and the decoder then still expects `count` points. -/
def Wrote (out : GeometryOut) (ops : List PathOp) (isLine : Bool) (count : Nat) : Prop :=
  ∀ rest, decodeGeometry (out.geometry ++ rest) =
    (decodeCommands out.lastx out.lasty isLine count rest).map (ops ++ ·)

theorem Wrote.decode (wrote : Wrote out ops isLine 0) : decodeGeometry out.geometry = some ops := by
  have done := wrote []
  rw [append_nil] at done
  simpa [decodeCommands] using done

theorem Wrote.between (wrote : Wrote out ops isLine 0) : Wrote out ops false 0 := by
  intro rest
  rw [wrote]
  cases rest <;> simp only [decodeCommands]

theorem Wrote.putMoveTo (wrote : Wrote out ops isLine 0) (bound : count < 536870912) :
    Wrote (putCommand out MOVETO count) ops false count := by
  intro rest
  have word : COMMAND MOVETO count = 8 * count + 1 := COMMAND_eq (by decide) bound
  rw [putCommand, append_assoc, wrote, word, singleton_append, decodeCommands, if_pos (by omega),
    show (8 * count + 1) / 8 = count by omega]

theorem Wrote.putLineTo (wrote : Wrote out ops isLine 0) (bound : count < 536870912) :
    Wrote (putCommand out LINETO count) ops true count := by
  intro rest
  have word : COMMAND LINETO count = 8 * count + 2 := COMMAND_eq (by decide) bound
  rw [putCommand, append_assoc, wrote, word, singleton_append, decodeCommands, if_neg (by omega),
    if_pos (by omega), show (8 * count + 2) / 8 = count by omega]

theorem Wrote.putClosePath (wrote : Wrote out ops isLine 0) :
    Wrote (putCommand out CLOSEPATH 1) (ops ++ [.closePath]) false 0 := by
  intro rest
  have word : COMMAND CLOSEPATH 1 = 15 := COMMAND_eq (by decide) (by decide)
  rw [putCommand, append_assoc, wrote, word, singleton_append, decodeCommands, if_neg (by decide),
    if_neg (by decide), if_pos rfl, Option.map_map]
  congr 1
  funext later
  simp

section Points
variable {α : Type} {MS_NINT : α → Int}
variable {ops : List PathOp} {out : GeometryOut} {later : List (Int × Int)} {layerType : MvtLayerType}
  {line : LineObj α} {lines : List (LineObj α)}

theorem Wrote.putPoint {isLine : Bool} {count : Nat} {point : PointObj α} (wrote : Wrote out ops isLine (count + 1))
    (inRange : IsInt32 (MS_NINT point.x) ∧ IsInt32 (MS_NINT point.y)) (deltax : IsInt32 (MS_NINT point.x - out.lastx))
    (deltay : IsInt32 (MS_NINT point.y - out.lasty)) : Wrote (putPoint MS_NINT out point)
      (ops ++ [pathOp isLine (MS_NINT point.x) (MS_NINT point.y)]) isLine count := by
  intro rest
  have lastx : int32 (MS_NINT point.x) = MS_NINT point.x := int32_of_range inRange.1.1 inRange.1.2
  have lasty : int32 (MS_NINT point.y) = MS_NINT point.y := int32_of_range inRange.2.1 inRange.2.2
  have x : out.lastx + (MS_NINT point.x - out.lastx) = MS_NINT point.x := by omega
  have y : out.lasty + (MS_NINT point.y - out.lasty) = MS_NINT point.y := by omega
  simp only [MapServer.putPoint, lastx, lasty]
  rw [append_assoc, wrote]
  simp only [cons_append, nil_append, decodeCommands, decodeParameter_PARAMETER deltax,
    decodeParameter_PARAMETER deltay, x, y, Option.map_map]
  congr 1
  funext later
  simp

/-- The words so far draw `ops`, and the points in `later` can follow them. -/
structure Ready (MS_NINT : α → Int) (out : GeometryOut) (ops : List PathOp) (isLine : Bool) (count : Nat)
    (later : List (Int × Int)) : Prop where
  wrote : Wrote out ops isLine count
  inRange : ∀ point ∈ later, IsInt32 point.1 ∧ IsInt32 point.2
  deltas : DeltasFit (out.lastx, out.lasty) later

theorem Ready.putPoint {isLine : Bool} {count : Nat} {point : PointObj α}
    (ready : Ready MS_NINT out ops isLine (count + 1) (rounded MS_NINT point :: later)) :
    Ready MS_NINT (putPoint MS_NINT out point) (ops ++ [pathOp isLine (MS_NINT point.x) (MS_NINT point.y)]) isLine count
      later := by
  obtain ⟨wrote, inRange, deltax, deltay, deltas⟩ := ready
  have here := inRange _ mem_cons_self
  constructor
  · exact wrote.putPoint here deltax deltay
  · intro next member
    exact inRange next (mem_cons_of_mem _ member)
  · have lastx : int32 (MS_NINT point.x) = MS_NINT point.x := int32_of_range here.1.1 here.1.2
    have lasty : int32 (MS_NINT point.y) = MS_NINT point.y := int32_of_range here.2.1 here.2.2
    rw [MapServer.putPoint, lastx, lasty]
    exact deltas

theorem Ready.putPoints {points : List (PointObj α)} {isLine : Bool}
    (ready : Ready MS_NINT out ops isLine points.length (points.map (rounded MS_NINT) ++ later)) :
    Ready MS_NINT (points.foldl (MapServer.putPoint MS_NINT) out)
      (ops ++ (points.map (rounded MS_NINT)).map fun point => pathOp isLine point.1 point.2) isLine 0 later := by
  induction points generalizing out ops with
  | nil => simpa using ready
  | cons point rest ih =>
    have next := ih ready.putPoint
    simpa [rounded] using next

theorem foldl_putVertex (points : List (PointObj α)) (numpoints start : Nat) (out : GeometryOut) :
    (points.zipIdx (start + 2)).foldl (putVertex MS_NINT numpoints) out =
      points.foldl (MapServer.putPoint MS_NINT) out := by
  induction points generalizing start out with
  | nil => rfl
  | cons point rest ih =>
    rw [zipIdx_cons, foldl_cons, foldl_cons, show start + 2 + 1 = start + 1 + 2 by omega, ih]
    rfl

theorem map_keptPoints (layerType : MvtLayerType) (line : LineObj α) :
    (keptPoints layerType line).map (rounded MS_NINT) = shownPoints MS_NINT layerType line := by
  cases layerType with
  | MS_LAYER_POINT => rfl
  | MS_LAYER_LINE =>
    simp only [keptPoints, shownPoints]
    split <;> simp_all
  | MS_LAYER_POLYGON =>
    simp only [keptPoints, shownPoints, dropLast_eq_take]
    split <;> simp_all

theorem length_keptPoints (layerType : MvtLayerType) (line : LineObj α) :
    (keptPoints layerType line).length = (shownPoints MS_NINT layerType line).length := by
  rw [← map_keptPoints, length_map]

theorem two_le_keptPoints (line : LineObj α) (notPoint : layerType ≠ .MS_LAYER_POINT)
    (kept : keptPoints layerType line ≠ []) : 2 ≤ (keptPoints layerType line).length := by
  cases layerType with
  | MS_LAYER_POINT => exact absurd rfl notPoint
  | MS_LAYER_LINE =>
    simp only [keptPoints] at kept ⊢
    split at kept
    · rename_i enough
      rw [if_pos enough]
      exact enough
    · exact absurd rfl kept
  | MS_LAYER_POLYGON =>
    simp only [keptPoints] at kept ⊢
    split at kept
    · rename_i enough
      rw [if_pos enough, length_take]
      omega
    · exact absurd rfl kept

theorem Ready.putPart (notPoint : layerType ≠ .MS_LAYER_POINT)
    (ready : Ready MS_NINT out ops false 0 (shownPoints MS_NINT layerType line ++ later))
    (bound : (shownPoints MS_NINT layerType line).length ≤ 536870912) : Ready MS_NINT (putPart MS_NINT layerType out line)
      (ops ++ path layerType (shownPoints MS_NINT layerType line)) false 0 later := by
  rw [← map_keptPoints] at ready ⊢
  rw [← length_keptPoints] at bound
  have enough := two_le_keptPoints line notPoint
  rw [MapServer.putPart]
  generalize keptPoints layerType line = points at ready bound enough ⊢
  match points with
  | [] => simpa [path] using ready
  | [point] => exact absurd (enough (cons_ne_nil _ _)) (by simp)
  | first :: second :: rest =>
    have moved : Ready MS_NINT (MapServer.putCommand out MOVETO 1) ops false 1
        (rounded MS_NINT first :: rounded MS_NINT second :: (rest.map (rounded MS_NINT) ++ later)) :=
      ⟨ready.wrote.putMoveTo (by decide), ready.inRange, ready.deltas⟩
    have begun := moved.putPoint
    have lined : Ready MS_NINT (MapServer.putCommand (MapServer.putPoint MS_NINT (MapServer.putCommand out MOVETO 1) first)
        LINETO (rest.length + 1)) (ops ++ [pathOp false (MS_NINT first.x) (MS_NINT first.y)]) true
        (second :: rest).length ((second :: rest).map (rounded MS_NINT) ++ later) :=
      ⟨begun.wrote.putLineTo (by simp at bound; omega), begun.inRange, begun.deltas⟩
    have done := lined.putPoints
    rw [if_neg (cons_ne_nil _ _), zipIdx_cons, zipIdx_cons, foldl_cons, foldl_cons,
      foldl_putVertex rest _ 0]
    by_cases polygon : layerType = .MS_LAYER_POLYGON
    · rw [if_pos polygon]
      constructor
      · have closed := done.wrote.putClosePath
        simpa [path, polygon, putVertex, pathOp, rounded] using closed
      · exact done.inRange
      · exact done.deltas
    · rw [if_neg polygon]
      constructor
      · have unclosed := done.wrote.between
        simpa [path, polygon, putVertex, pathOp, rounded] using unclosed
      · exact done.inRange
      · exact done.deltas

end Points

section Features
variable {α : Type} (numbers : TextToNumber α) {MS_NINT : α → Int}
  {mvtTransformShape mvtClipShape : ShapeObj α → Option (ShapeObj α)}

end Features

end MapServer
