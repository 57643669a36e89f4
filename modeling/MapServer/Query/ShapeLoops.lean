import Mathlib.Tactic.Ring
import MapServer.Lib.FirstMatches
import MapServer.Query.LayerQueries

namespace MapServer.LayerQueries
open Lib.FirstMatches

variable {K : Type} [Field K] [LinearOrder K]

section Cells

variable {map : MapObj K} {extent : RectObj K}

variable [IsStrictOrderedRing K]

end Cells

section Shapes
variable {map : MapObj K} {s : LoopState K} {lp : LayerObj K}

def filterLimit (map : MapObj K) (lp : LayerObj K) : Option Nat :=
  if map.query.mode = .MS_QUERY_SINGLE then some 1
  else if lp.maxfeatures > 0 then some lp.maxfeatures.toNat else none

def rectLimit (lp : LayerObj K) : Option Nat := if lp.maxfeatures > 0 then some lp.maxfeatures.toNat else none

def limitBehind (limit : Option Nat) (results : List ResultObj) : Option Nat := limit.map (· - results.length)

theorem hasRoom_limitBehind {limit : Option Nat} {results : List ResultObj} (room : HasRoom limit results.length) :
    HasRoom (limitBehind limit results) 0 := by
  intro most left
  obtain ⟨other, isLimit, rfl⟩ := Option.map_eq_some_iff.mp left
  have := room other isLimit
  show 0 < other - results.length
  omega

theorem limitBehind_append (limit : Option Nat) (results : List ResultObj) (result : ResultObj) :
    limitBehind limit (results ++ [result]) = lessOne (limitBehind limit results) := by
  unfold limitBehind lessOne
  rw [Option.map_map, List.length_append]
  rfl

theorem limited_add {limit : Option Nat} {results : List ResultObj} (room : HasRoom limit results.length) (result : ResultObj)
    (rest : List ResultObj) : results ++ limited (limitBehind limit results) (result :: rest) =
      (results ++ [result]) ++ limited (limitBehind limit (results ++ [result])) rest := by
  rw [limited_cons (hasRoom_limitBehind room), limitBehind_append, List.append_assoc]
  rfl

theorem limited_reached {limit : Option Nat} {results : List ResultObj} (reached : limit = some results.length)
    (rest : List ResultObj) : results ++ limited (limitBehind limit results) rest = results := by
  rw [reached]
  show results ++ rest.take (results.length - results.length) = results
  rw [Nat.sub_self, List.take_zero, List.append_nil]

theorem hasRoom_append {limit : Option Nat} {results : List ResultObj} (room : HasRoom limit results.length) (result : ResultObj)
    (open_ : limit ≠ some (results ++ [result]).length) : HasRoom limit (results ++ [result]).length := by
  intro most isLimit
  have := room most isLimit
  rw [List.length_append, List.length_singleton] at open_ ⊢
  have : most ≠ results.length + 1 := fun same => open_ (by rw [Option.mem_def.mp isLimit, same])
  omega

omit [Field K] [LinearOrder K] in
theorem rectLimit_reached {count : Nat} (positive : 0 < count) :
    rectLimit lp = some count ↔ lp.maxfeatures > 0 ∧ lp.maxfeatures = count := by
  unfold rectLimit
  split
  · rename_i limit
    rw [Option.some.injEq]
    omega
  · rename_i unlimited
    exact iff_of_false (fun none_ => by cases none_) fun reached => unlimited reached.1

def recorded (map : MapObj K) (extent : RectObj K) (lp : LayerObj K) (found : QueryShape K) : ResultObj :=
  found.result ((shapeClass map extent lp found).getD (-1))

theorem recorded_eq {extent : RectObj K} {found : QueryShape K} {classindex : Int}
    (cls : shapeClass map extent lp found = some classindex) : found.result classindex = recorded map extent lp found := by
  rw [recorded, cls, Option.getD_some]

def filterAccepts (map : MapObj K) (s : LoopState K) (lp : LayerObj K) (found : QueryShape K) : Bool :=
  sizeAccepts s.minfeaturesize found.shape && (shapeClass map s.extent lp found).isSome

theorem filterShapes_spec (shapes : List (QueryShape K)) {startindex : Int} (first : startindex ≤ 1) {results : List ResultObj}
    (room : HasRoom (filterLimit map lp) results.length) :
    ∃ left, filterShapes map s lp shapes startindex results =
      (results ++ limited (limitBehind (filterLimit map lp) results)
        ((shapes.filter (filterAccepts map s lp)).map (recorded map s.extent lp)), startindex, left) := by
  induction shapes generalizing results with
  | nil =>
    refine ⟨false, ?_⟩
    rw [List.filter_nil, List.map_nil, limited_nil, List.append_nil]
    rfl
  | cons found rest ih =>
    rw [filterShapes]
    cases fits : sizeAccepts s.minfeaturesize found.shape with
    | false =>
      have refused : ¬ filterAccepts map s lp found = true := by simp [filterAccepts, fits]
      rw [List.filter_cons_of_neg refused]
      exact ih room
    | true =>
      rw [if_neg (by decide)]
      cases cls : shapeClass map s.extent lp found with
      | none =>
        have refused : ¬ filterAccepts map s lp found = true := by simp [filterAccepts, cls]
        rw [List.filter_cons_of_neg refused]
        exact ih room
      | some classindex =>
        have accepted : filterAccepts map s lp found = true := by simp [filterAccepts, fits, cls]
        dsimp only
        rw [if_neg (by omega), List.filter_cons_of_pos accepted, List.map_cons, limited_add room, ← recorded_eq cls]
        by_cases single : map.query.mode = .MS_QUERY_SINGLE
        · rw [if_pos single, limited_reached]
          · exact ⟨true, rfl⟩
          · have limit : filterLimit map lp = some 1 := if_pos single
            have := room 1 limit
            rw [limit, List.length_append, Nat.lt_one_iff.mp this]
            rfl
        · rw [if_neg single]
          have limit : filterLimit map lp = rectLimit lp := if_neg single
          have reached := @rectLimit_reached _ lp (results ++ [found.result classindex]).length (by simp)
          rw [← limit] at reached
          by_cases full : lp.maxfeatures > 0 ∧ lp.maxfeatures = (results ++ [found.result classindex]).length
          · rw [if_pos full, limited_reached (reached.mpr full)]
            exact ⟨true, rfl⟩
          · rw [if_neg full]
            exact ih (hasRoom_append room _ fun limit => full (reached.mp limit))

def rectAccepts (map : MapObj K) (s : LoopState K) (lp : LayerObj K) (searchrect : RectObj K) (found : QueryShape K) : Bool :=
  filterAccepts map s lp found && shapeInSearch searchrect s.searchshape found.shape

theorem rectShapes_spec (searchrect : RectObj K) (shapes : List (QueryShape K)) {startindex maxfeatures : Int}
    (first : startindex ≤ 1) {results : List ResultObj} (room : HasRoom (rectLimit lp) results.length) :
    ∃ after left, rectShapes map s lp searchrect shapes startindex maxfeatures results =
      (results ++ limited (limitBehind (rectLimit lp) results)
        ((shapes.filter (rectAccepts map s lp searchrect)).map (recorded map s.extent lp)), startindex, after, left) ∧
      after ≤ maxfeatures := by
  induction shapes generalizing results maxfeatures with
  | nil =>
    refine ⟨maxfeatures, false, ?_, le_refl _⟩
    rw [List.filter_nil, List.map_nil, limited_nil, List.append_nil]
    rfl
  | cons found rest ih =>
    rw [rectShapes]
    cases fits : sizeAccepts s.minfeaturesize found.shape with
    | false =>
      have refused : ¬ rectAccepts map s lp searchrect found = true := by simp [rectAccepts, filterAccepts, fits]
      rw [List.filter_cons_of_neg refused]
      exact ih room
    | true =>
      rw [if_neg (by decide)]
      cases cls : shapeClass map s.extent lp found with
      | none =>
        have refused : ¬ rectAccepts map s lp searchrect found = true := by simp [rectAccepts, filterAccepts, cls]
        rw [List.filter_cons_of_neg refused]
        exact ih room
      | some classindex =>
        dsimp only
        rw [if_neg (by omega)]
        cases inside : shapeInSearch searchrect s.searchshape found.shape with
        | false =>
          have refused : ¬ rectAccepts map s lp searchrect found = true := by simp [rectAccepts, inside]
          have open_ : ¬ (lp.maxfeatures > 0 ∧ lp.maxfeatures = results.length) := by
            rintro ⟨limit, reached⟩
            have := room lp.maxfeatures.toNat (if_pos limit)
            omega
          rw [List.filter_cons_of_neg refused, if_neg Bool.false_ne_true, if_neg Bool.false_ne_true, if_neg open_]
          exact ih room
        | true =>
          have accepted : rectAccepts map s lp searchrect found = true := by simp [rectAccepts, filterAccepts, fits, cls, inside]
          rw [List.filter_cons_of_pos accepted, List.map_cons, limited_add room, ← recorded_eq cls, if_pos rfl, if_pos rfl]
          have reached := @rectLimit_reached _ lp (results ++ [found.result classindex]).length (by simp)
          by_cases full : lp.maxfeatures > 0 ∧ lp.maxfeatures = (results ++ [found.result classindex]).length
          · rw [if_pos full, limited_reached (reached.mpr full)]
            exact ⟨maxfeatures - 1, true, rfl, by omega⟩
          · rw [if_neg full]
            obtain ⟨after, left, run, fewer⟩ := ih (hasRoom_append room _ fun limit => full (reached.mp limit))
            exact ⟨after, left, run, fewer.trans (by omega)⟩

end Shapes

end MapServer.LayerQueries
