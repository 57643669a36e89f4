import Mathlib.Algebra.BigOperators.Group.List.Basic
import Mathlib.Data.List.GetD
import Mathlib.Data.List.Nodup
import Mathlib.Data.List.Range
import MapServer.Raster.Quantization

namespace MapServer.Quantization
open List Option

def Box.range (box : Box) : List Nat := List.range' box.ind box.colors

def values (items : List AcolorhistItem) : Int := (items.map (·.value)).sum

structure Boxed (hist : List AcolorhistItem) (state : List AcolorhistItem × List Box) : Prop where
  perm : state.1.Perm hist
  ranges : (state.2.flatMap Box.range).Perm (List.range hist.length)
  nonempty : ∀ box ∈ state.2, 1 ≤ box.colors
  sums : ∀ box ∈ state.2, box.sum = values (boxItems state.1 box)

theorem values_append (left right : List AcolorhistItem) : values (left ++ right) = values left + values right := by
  rw [values, map_append, sum_append]
  rfl

theorem values_perm {left right : List AcolorhistItem} (perm : left.Perm right) : values left = values right :=
  (perm.map _).sum_eq

theorem median_spec (halfsum : Int) (items : List AcolorhistItem) (i : Nat) (lowersum : Int) :
    ∃ count ≤ items.length, median halfsum items i lowersum = (i + count, lowersum + values (items.take count)) := by
  induction items generalizing i lowersum with
  | nil => exact ⟨0, le_rfl, by simp [median, values]⟩
  | cons item rest ih =>
    unfold median
    split
    · exact ⟨0, Nat.zero_le _, by simp [values]⟩
    · obtain ⟨count, short, found⟩ := ih (i + 1) (lowersum + item.value)
      refine ⟨count + 1, Nat.succ_le_succ short, ?_⟩
      rw [found, take_succ_cons, values, values, map_cons, sum_cons]
      refine Prod.ext (by dsimp only; omega) ?_
      omega

theorem halves_spec (box : Box) (items : List AcolorhistItem) (several : 2 ≤ box.colors) (length : items.length = box.colors) :
    ∃ i, 1 ≤ i ∧ i < box.colors ∧
      halves box items = (⟨box.ind, i, values (items.take i)⟩, ⟨box.ind + i, box.colors - i, box.sum - values (items.take i)⟩) := by
  cases items with
  | nil =>
    rw [length_nil] at length
    omega
  | cons first rest =>
    obtain ⟨count, short, found⟩ := median_spec (box.sum.tdiv 2) (rest.take (box.colors - 2)) 1 first.value
    rw [length_take] at short
    have lowersum : first.value + values ((rest.take (box.colors - 2)).take count) = values ((first :: rest).take (1 + count)) := by
      rw [take_take, Nat.min_eq_left (by omega), Nat.add_comm 1, take_succ_cons]
      exact (sum_cons).symm
    refine ⟨1 + count, Nat.le_add_right _ _, by omega, ?_⟩
    rw [halves, drop_succ_cons, drop_zero, map_cons, headD_cons, found]
    dsimp only
    rw [lowersum]

section Items
variable {achv items : List AcolorhistItem} {box other : Box}

theorem getElem?_boxItems (achv : List AcolorhistItem) (box : Box) (k : Nat) :
    (boxItems achv box)[k]? = if k < box.colors then achv[box.ind + k]? else none := by
  rw [boxItems, getElem?_take, getElem?_drop]

theorem length_boxItems (inside : box.ind + box.colors ≤ achv.length) : (boxItems achv box).length = box.colors := by
  rw [boxItems, length_take, length_drop]
  omega

def replaceItems (achv : List AcolorhistItem) (box : Box) (items : List AcolorhistItem) : List AcolorhistItem :=
  achv.take box.ind ++ items ++ achv.drop (box.ind + box.colors)

theorem replaceItems_perm (perm : items.Perm (boxItems achv box)) : (replaceItems achv box items).Perm achv := by
  have parts : achv.take box.ind ++ boxItems achv box ++ achv.drop (box.ind + box.colors) = achv := by
    rw [boxItems, append_assoc, ← drop_drop, take_append_drop, take_append_drop]
  exact ((perm.append_left _).append_right _).trans (.of_eq parts)

theorem replaceItems_parts (inside : box.ind + box.colors ≤ achv.length) (length : items.length = box.colors) :
    (replaceItems achv box items).drop box.ind = items ++ achv.drop (box.ind + box.colors) := by
  rw [replaceItems, append_assoc, drop_left']
  rw [length_take]
  omega

theorem boxItems_other (inside : box.ind + box.colors ≤ achv.length) (length : items.length = box.colors)
    (apart : other.ind + other.colors ≤ box.ind ∨ box.ind + box.colors ≤ other.ind) :
    boxItems (replaceItems achv box items) other = boxItems achv other := by
  have before : (achv.take box.ind).length = box.ind := by
    rw [length_take]
    omega
  apply ext_getElem?
  intro k
  rw [getElem?_boxItems, getElem?_boxItems]
  by_cases near : k < other.colors
  · rw [if_pos near, if_pos near, replaceItems, append_assoc]
    rcases apart with below | above
    · rw [getElem?_append_left (by omega), getElem?_take, if_pos (by omega)]
    · rw [getElem?_append_right (by omega), getElem?_append_right (by omega), getElem?_drop, before, length]
      congr 1
      omega
  · rw [if_neg near, if_neg near]

theorem boxItems_lower {i : Nat} (inside : box.ind + box.colors ≤ achv.length) (length : items.length = box.colors)
    (short : i ≤ box.colors) (sum : Int) : boxItems (replaceItems achv box items) ⟨box.ind, i, sum⟩ = items.take i := by
  have short : i ≤ items.length := by omega
  rw [boxItems, replaceItems_parts inside length]
  exact take_append_of_le_length short

theorem boxItems_upper {i : Nat} (inside : box.ind + box.colors ≤ achv.length) (length : items.length = box.colors)
    (short : i ≤ box.colors) (sum : Int) :
    boxItems (replaceItems achv box items) ⟨box.ind + i, box.colors - i, sum⟩ = items.drop i := by
  rw [boxItems, ← drop_drop, replaceItems_parts inside length, drop_append_of_le_length (by omega)]
  exact take_left' (by rw [length_drop, length])

end Items

theorem splitBox_spec {qsort : Qsort} {achv : List AcolorhistItem} {bv : List Box}
    {state : List AcolorhistItem × List Box} (splits : splitBox qsort (achv, bv) = some state) :
    ∃ before box after items, bv = before ++ box :: after ∧ 2 ≤ box.colors ∧ items.Perm (boxItems achv box) ∧
      state.1 = replaceItems achv box items ∧
      state.2.Perm (before ++ (halves box items).1 :: after ++ [(halves box items).2]) := by
  obtain ⟨bi, found, splits⟩ := bind_eq_some_iff.mp splits
  obtain ⟨box, here, splits⟩ := bind_eq_some_iff.mp splits
  obtain ⟨inside, several, _⟩ := findIdx?_eq_some_iff_getElem.mp found
  have box_eq : bv[bi] = box := by
    rw [getElem?_eq_getElem inside] at here
    exact Option.some.inj here
  obtain rfl := Option.some.inj splits
  refine ⟨bv.take bi, box, bv.drop (bi + 1), _, ?_, ?_, qsort.perm _ _, rfl, ?_⟩
  · rw [← box_eq, getElem_cons_drop, take_append_drop]
  · rw [← box_eq]
    exact of_decide_eq_true several
  · refine (qsort.perm _ _).trans (.of_eq ?_)
    rw [set_eq_take_append_cons_drop, if_pos inside]
    rfl

section Rounds
variable {hist : List AcolorhistItem} {state next : List AcolorhistItem × List Box} {qsort : Qsort}

theorem Boxed.length (boxed : Boxed hist state) : state.1.length = hist.length := boxed.perm.length_eq

theorem Boxed.inside (boxed : Boxed hist state) {box : Box} (member : box ∈ state.2) :
    box.ind + box.colors ≤ state.1.length := by
  have some_ := boxed.nonempty box member
  have last : box.ind + (box.colors - 1) ∈ box.range := mem_range'_1.mpr ⟨by omega, by omega⟩
  have below := mem_range.mp (boxed.ranges.mem_iff.mp (mem_flatMap.mpr ⟨box, member, last⟩))
  rw [boxed.length]
  omega

theorem apart_of_disjoint {box other : Box} (some_ : 1 ≤ box.colors) (others : 1 ≤ other.colors)
    (disjoint : ∀ k ∈ other.range, k ∉ box.range) :
    other.ind + other.colors ≤ box.ind ∨ box.ind + box.colors ≤ other.ind := by
  by_contra meet
  rcases Nat.le_total box.ind other.ind with below | above
  · exact disjoint other.ind (mem_range'_1.mpr ⟨le_rfl, by omega⟩) (mem_range'_1.mpr ⟨below, by omega⟩)
  · exact disjoint box.ind (mem_range'_1.mpr ⟨above, by omega⟩) (mem_range'_1.mpr ⟨le_rfl, by omega⟩)

theorem Boxed.apart {before after : List Box} {achv : List AcolorhistItem} {box other : Box}
    (boxed : Boxed hist (achv, before ++ box :: after)) (member : other ∈ before ∨ other ∈ after) :
    other.ind + other.colors ≤ box.ind ∨ box.ind + box.colors ≤ other.ind := by
  have distinct := boxed.ranges.nodup_iff.mpr nodup_range
  obtain ⟨_, apart⟩ := nodup_flatMap.mp distinct
  obtain ⟨_, later, first⟩ := pairwise_append.mp apart
  have inside : box ∈ before ++ box :: after := mem_append_right _ mem_cons_self
  rcases member with early | late
  · have others := boxed.nonempty other (mem_append_left _ early)
    refine apart_of_disjoint (boxed.nonempty box inside) others fun k mine yours => ?_
    exact first other early box mem_cons_self mine yours
  · have others := boxed.nonempty other (mem_append_right _ (mem_cons_of_mem _ late))
    refine apart_of_disjoint (boxed.nonempty box inside) others fun k mine yours => ?_
    exact (pairwise_cons.mp later).1 other late yours mine

theorem ranges_split (before after : List Box) (box : Box) {i : Nat} (short : i ≤ box.colors) (lowersum uppersum : Int) :
    ((before ++ (⟨box.ind, i, lowersum⟩ : Box) :: after ++ [(⟨box.ind + i, box.colors - i, uppersum⟩ : Box)]).flatMap Box.range).Perm
      ((before ++ box :: after).flatMap Box.range) := by
  have joined : range' box.ind i ++ range' (box.ind + i) (box.colors - i) = box.range := by
    rw [range'_append_1, Nat.add_sub_cancel' short]
    rfl
  simp only [flatMap_append, flatMap_cons, flatMap_nil, append_nil, append_assoc]
  refine Perm.append_left _ ?_
  rw [← joined, append_assoc]
  exact Perm.append_left _ perm_append_comm

theorem Boxed.split (boxed : Boxed hist state) (splits : splitBox qsort state = some next) :
    Boxed hist next ∧ next.2.length = state.2.length + 1 := by
  obtain ⟨achv, bv⟩ := state
  obtain ⟨before, box, after, items, rfl, several, sorted, replaced, boxes⟩ := splitBox_spec splits
  have member : box ∈ before ++ box :: after := mem_append_right _ mem_cons_self
  have inside : box.ind + box.colors ≤ achv.length := boxed.inside member
  have length : items.length = box.colors := sorted.length_eq.trans (length_boxItems inside)
  obtain ⟨i, least, most, half⟩ := halves_spec box items several length
  rw [half] at boxes
  have whole : box.sum = values items := (boxed.sums box member).trans (values_perm sorted).symm
  have cut : values items = values (items.take i) + values (items.drop i) := by
    rw [← values_append, take_append_drop]
  refine ⟨⟨?_, ?_, fun other has => ?_, fun other has => ?_⟩, ?_⟩
  · rw [replaced]
    exact (replaceItems_perm sorted).trans boxed.perm
  · exact (boxes.flatMap_right _).trans ((ranges_split before after box most.le _ _).trans boxed.ranges)
  · have has := boxes.mem_iff.mp has
    simp only [mem_append, mem_cons, not_mem_nil, or_false] at has
    rcases has with (early | rfl | late) | rfl
    · exact boxed.nonempty other (mem_append_left _ early)
    · exact least
    · exact boxed.nonempty other (mem_append_right _ (mem_cons_of_mem _ late))
    · exact Nat.sub_pos_of_lt most
  · have has := boxes.mem_iff.mp has
    simp only [mem_append, mem_cons, not_mem_nil, or_false] at has
    rw [replaced]
    rcases has with (early | rfl | late) | rfl
    · rw [boxItems_other inside length (boxed.apart (.inl early))]
      exact boxed.sums other (mem_append_left _ early)
    · rw [boxItems_lower inside length most.le]
    · rw [boxItems_other inside length (boxed.apart (.inr late))]
      exact boxed.sums other (mem_append_right _ (mem_cons_of_mem _ late))
    · rw [boxItems_upper inside length most.le]
      show box.sum - values (items.take i) = values (items.drop i)
      omega
  · rw [boxes.length_eq]
    simp only [length_append, length_cons, length_nil, Nat.zero_add]

theorem Boxed.first (hist : List AcolorhistItem) (some_ : hist ≠ []) :
    Boxed hist (firstBoxes hist hist.length (values hist)) where
  perm := .refl hist
  ranges := by
    rw [firstBoxes, flatMap_cons, flatMap_nil, append_nil, Box.range, ← range_eq_range']
  nonempty box member := by
    obtain rfl := mem_singleton.mp member
    exact length_pos_iff.mpr some_
  sums box member := by
    obtain rfl := mem_singleton.mp member
    rw [boxItems, firstBoxes, drop_zero, take_length]

theorem Boxed.rounds (boxed : Boxed hist state) (rounds : Nat) : Boxed hist (splitBoxes qsort rounds state) := by
  induction rounds generalizing state with
  | zero => exact boxed
  | succ rounds ih =>
    unfold splitBoxes
    cases splits : splitBox qsort state with
    | none => exact boxed
    | some next => exact ih (boxed.split splits).1

theorem Boxed.total (boxed : Boxed hist state) : (state.2.map (·.colors)).sum = hist.length := by
  have length := boxed.ranges.length_eq
  rw [length_flatMap, length_range] at length
  simpa only [Box.range, length_range'] using length

theorem sum_eq_length {bv : List Box} (nonempty : ∀ box ∈ bv, 1 ≤ box.colors) (single : ∀ box ∈ bv, box.colors < 2) :
    (bv.map (·.colors)).sum = bv.length := by
  induction bv with
  | nil => rfl
  | cons box rest ih =>
    have least := nonempty box mem_cons_self
    have most := single box mem_cons_self
    have others := ih (fun other has => nonempty other (mem_cons_of_mem _ has))
      fun other has => single other (mem_cons_of_mem _ has)
    rw [map_cons, sum_cons, length_cons, others]
    omega

theorem Boxed.splits (qsort : Qsort) (boxed : Boxed hist state) (fewer : state.2.length < hist.length) : (splitBox qsort state).isSome := by
  obtain ⟨achv, bv⟩ := state
  have found : ∃ box ∈ bv, 2 ≤ box.colors := by
    by_contra none
    have single : ∀ box ∈ bv, box.colors < 2 := fun box has => Nat.lt_of_not_le fun several => none ⟨box, has, several⟩
    have total := boxed.total
    rw [sum_eq_length boxed.nonempty single] at total
    exact absurd total fewer.ne
  obtain ⟨box, has, several⟩ := found
  have first : (bv.findIdx? fun box => decide (box.colors ≥ 2)).isSome :=
    findIdx?_isSome.trans (List.any_eq_true.mpr ⟨box, has, decide_eq_true several⟩)
  obtain ⟨bi, found⟩ := isSome_iff_exists.mp first
  obtain ⟨inside, _⟩ := findIdx?_eq_some_iff_getElem.mp found
  unfold splitBox
  dsimp only
  rw [found]
  show (Option.bind bv[bi]? _).isSome
  rw [getElem?_eq_getElem inside]
  rfl

theorem length_splitBoxes (boxed : Boxed hist state) {rounds : Nat} (enough : state.2.length + rounds ≤ hist.length) :
    (splitBoxes qsort rounds state).2.length = state.2.length + rounds := by
  induction rounds generalizing state with
  | zero => rfl
  | succ rounds ih =>
    obtain ⟨next, splits⟩ := isSome_iff_exists.mp (boxed.splits qsort (by omega))
    obtain ⟨still, longer⟩ := boxed.split splits
    rw [splitBoxes, splits, ih still (by omega), longer]
    omega

end Rounds

theorem ofInt_toNat (v : UInt8) : UInt8.ofInt (v.toNat : Int) = v := by
  have small := v.toNat_lt
  have same : ((v.toNat : Int) % 2 ^ 8).toNat = v.toNat := by omega
  rw [UInt8.ofInt, same]
  exact UInt8.ofNat_toNat

theorem average_single (channel : RgbaPixel → UInt8) (item : AcolorhistItem) (counted : 0 < item.value) :
    average channel 255 [item] = channel item.acolor := by
  have mean : Int.tdiv (((channel item.acolor).toNat : Int) * item.value) item.value = (channel item.acolor).toNat :=
    Int.mul_tdiv_cancel _ counted.ne'
  have small : ¬ ((channel item.acolor).toNat : Int) > (255 : Nat) := by
    have := (channel item.acolor).toNat_lt
    omega
  unfold average
  simp only [map_cons, map_nil, sum_cons, sum_nil, add_zero]
  rw [if_pos counted, mean, if_neg small]
  exact ofInt_toNat _

theorem representative_single (item : AcolorhistItem) (counted : 0 < item.value) : representative 255 [item] = item.acolor := by
  unfold representative
  simp only [average_single _ item counted]

section Palettes
variable {hist : List AcolorhistItem} {qsort : Qsort} {newcolors : Nat}

theorem finalBoxes (qsort : Qsort) (some_ : 1 ≤ newcolors) (enough : newcolors ≤ hist.length) :
    Boxed hist (splitBoxes qsort (newcolors - 1) (firstBoxes hist hist.length (values hist))) ∧
      (splitBoxes qsort (newcolors - 1) (firstBoxes hist hist.length (values hist))).2.length = newcolors := by
  have boxed := Boxed.first hist (length_pos_iff.mp (by omega))
  refine ⟨boxed.rounds _, ?_⟩
  rw [length_splitBoxes boxed (by show 1 + _ ≤ _; omega)]
  show 1 + (newcolors - 1) = newcolors
  omega

theorem mediancut_eq (maxval : Nat) (some_ : 1 ≤ newcolors) (enough : newcolors ≤ hist.length) :
    mediancut qsort hist hist.length (values hist) maxval newcolors =
      (splitBoxes qsort (newcolors - 1) (firstBoxes hist hist.length (values hist))).2.map fun box =>
        representative maxval
          (boxItems (splitBoxes qsort (newcolors - 1) (firstBoxes hist hist.length (values hist))).1 box) := by
  unfold mediancut
  dsimp only
  rw [(finalBoxes qsort some_ enough).2, Nat.sub_self, replicate_zero, append_nil]

theorem length_mediancut (maxval : Nat) (some_ : 1 ≤ newcolors) (enough : newcolors ≤ hist.length) :
    (mediancut qsort hist hist.length (values hist) maxval newcolors).length = newcolors := by
  rw [mediancut_eq maxval some_ enough, length_map, (finalBoxes qsort some_ enough).2]

theorem length_le_sum {bv : List Box} (nonempty : ∀ box ∈ bv, 1 ≤ box.colors) : bv.length ≤ (bv.map (·.colors)).sum := by
  induction bv with
  | nil => exact le_rfl
  | cons box rest ih =>
    have least := nonempty box mem_cons_self
    have others := ih fun other has => nonempty other (mem_cons_of_mem _ has)
    rw [map_cons, sum_cons, length_cons]
    omega

theorem single_of_sum {bv : List Box} (nonempty : ∀ box ∈ bv, 1 ≤ box.colors) (total : (bv.map (·.colors)).sum ≤ bv.length) :
    ∀ box ∈ bv, box.colors = 1 := by
  induction bv with
  | nil => nofun
  | cons box rest ih =>
    have least := nonempty box mem_cons_self
    have others : ∀ other ∈ rest, 1 ≤ other.colors := fun other has => nonempty other (mem_cons_of_mem _ has)
    have length := length_le_sum others
    rw [map_cons, sum_cons, length_cons] at total
    intro other has
    rcases mem_cons.mp has with rfl | later
    · omega
    · exact ih others (by omega) other later

theorem mediancut_perm (some_ : hist ≠ []) (counted : ∀ item ∈ hist, 0 < item.value) :
    (mediancut qsort hist hist.length (values hist) 255 hist.length).Perm (hist.map (·.acolor)) := by
  have least := length_pos_iff.mpr some_
  rw [mediancut_eq 255 least le_rfl]
  obtain ⟨boxed, length⟩ := finalBoxes qsort least le_rfl
  generalize splitBoxes qsort (hist.length - 1) (firstBoxes hist hist.length (values hist)) = state at boxed length
  have single := single_of_sum boxed.nonempty (boxed.total.trans length.symm).le
  have inds : state.2.flatMap Box.range = state.2.map (·.ind) := by
    rw [map_eq_flatMap]
    refine flatMap_congr fun box has => ?_
    rw [Box.range, single box has]
    rfl
  have each : ∀ box ∈ state.2, representative 255 (boxItems state.1 box) =
      (state.1.map (·.acolor)).getD box.ind ⟨0, 0, 0, 0⟩ := by
    intro box has
    have inside := boxed.inside has
    have alone := single box has
    have here : box.ind < state.1.length := by omega
    have item : boxItems state.1 box = [state.1[box.ind]] := by
      rw [boxItems, alone, drop_eq_getElem_cons here]
      rfl
    rw [item, representative_single _ (counted _ (boxed.perm.mem_iff.mp (getElem_mem here)))]
    rw [getD_eq_getElem _ _ (by rwa [length_map]), getElem_map]
  have ordered : (List.range hist.length).map (fun i => (state.1.map (·.acolor)).getD i ⟨0, 0, 0, 0⟩) = state.1.map (·.acolor) := by
    refine ext_getElem (by simp [boxed.length]) fun i _ inside => ?_
    rw [getElem_map, getElem_range, getD_eq_getElem _ _ inside]
  have ranges := boxed.ranges
  rw [inds] at ranges
  have placed := ranges.map fun i => (state.1.map (·.acolor)).getD i ⟨0, 0, 0, 0⟩
  rw [List.map_map, ordered] at placed
  rw [map_congr_left each]
  exact placed.trans (boxed.perm.map _)

end Palettes

end MapServer.Quantization
