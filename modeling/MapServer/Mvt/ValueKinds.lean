import MapServer.Lib.Interning
import MapServer.Mvt.WriteShape

namespace MapServer
open Lib.Interning List Option

inductive MvtKind where
  | int
  | sint
  | float
  | bool
  | string
  deriving DecidableEq

def GmlItemObj.kind (item : GmlItemObj) : MvtKind :=
  if item.type.any (sameIgnoringCase · (ascii "Integer")) then .int
  else if item.type.any (sameIgnoringCase · (ascii "Long")) then .sint
  else if item.type.any (sameIgnoringCase · (ascii "Real")) then .float
  else if item.type.any (sameIgnoringCase · (ascii "Boolean")) then .bool
  else .string

abbrev Attribute := GmlItemObj × CString

def visibleAttributes (items : List GmlItemObj) (values : List CString) : List Attribute :=
  (items.zip values).filter (·.1.visible)

def Refers {V : Type} (values : List V) (tags : List Nat) (results : List V) : Prop :=
  tags.length = 2 * results.length ∧ ∀ (j : Nat) (result : V), results[j]? = some result →
    tags[2 * j]? = some j ∧ ∃ index, tags[2 * j + 1]? = some index ∧ values[index]? = some result

section Kinds
variable {α : Type} (numbers : TextToNumber α) (MS_NINT : α → Int)
  (mvtTransformShape mvtClipShape : ShapeObj α → Option (ShapeObj α)) (layerType : MvtLayerType) (items : List GmlItemObj)

def converted (text : CString) : MvtKind → MvtValue α
  | .int => .int_value (numbers.atoi text)
  | .sint => .sint_value (numbers.atol text)
  | .float => .float_value (numbers.atof text)
  | .bool => .bool_value (!(sameIgnoringCase text (ascii "0") || sameIgnoringCase text (ascii "false")))
  | .string => .string_value text

def writeShapes (writes : List (ShapeObj α × List CString)) : Option (MvtLayer α × ValueLookupTable) :=
  writes.foldlM
    (fun state write =>
      mvtWriteShape numbers MS_NINT mvtTransformShape mvtClipShape layerType write.1 write.2 items state.1 state.2)
    (⟨[], []⟩, [])

def isWritten (shape : ShapeObj α) : Bool :=
  match mvtTransformShape shape >>= mvtClipShape with
  | none => false
  | some shape => countGeometry layerType shape.line ≠ some 0

def writtenAttributes (writes : List (ShapeObj α × List CString)) : List (List Attribute) :=
  (writes.filter fun write => isWritten mvtTransformShape mvtClipShape layerType write.1).map fun write =>
    visibleAttributes items write.2

def KeepsTypes (writes : List (ShapeObj α × List CString)) (mvt_layer : MvtLayer α) : Prop :=
  List.Forall₂
    (fun attributes feature => Refers mvt_layer.values feature.tags
      (attributes.map fun entry => converted numbers entry.2 entry.1.kind))
    (writtenAttributes mvtTransformShape mvtClipShape layerType items writes) mvt_layer.features

def SameKinds (attributes : List Attribute) : Prop :=
  ∀ one ∈ attributes, ∀ other ∈ attributes, one.2 = other.2 → one.1.kind = other.1.kind

end Kinds

section Steps
variable {α : Type} (numbers : TextToNumber α)

theorem mvtValue_eq_converted (item : GmlItemObj) (text : CString) :
    mvtValue numbers item text = converted numbers text item.kind := by
  simp only [mvtValue, GmlItemObj.kind]
  repeat' split
  all_goals rfl

theorem converted_inj {text : CString} {kind other : MvtKind} :
    converted numbers text kind = converted numbers text other ↔ kind = other := by
  constructor
  · intro same
    cases kind <;> cases other <;> first | rfl | cases same
  · rintro rfl
    rfl

variable {tags : List Nat}

theorem Refers.unique {V : Type} {values : List V} {results others : List V} (refers : Refers values tags results)
    (also : Refers values tags others) : results = others := by
  have size : results.length = others.length := by
    have one := refers.1
    have two := also.1
    omega
  apply ext_getElem size
  intro j left right
  obtain ⟨_, index, tag, value⟩ := refers.2 j _ (getElem?_eq_getElem left)
  obtain ⟨_, same, sameTag, other⟩ := also.2 j _ (getElem?_eq_getElem right)
  rw [tag] at sameTag
  cases Option.some.inj sameTag
  rw [value] at other
  exact Option.some.inj other

theorem Refers.mono {V : Type} {values more : List V} {results : List V} (refers : Refers values tags results)
    (grows : values <+: more) : Refers more tags results := by
  refine ⟨refers.1, fun j result there => ?_⟩
  obtain ⟨key, index, tag, value⟩ := refers.2 j result there
  obtain ⟨added, rfl⟩ := grows
  refine ⟨key, index, tag, ?_⟩
  rw [getElem?_append_left (List.getElem?_eq_some_iff.mp value).1, value]

theorem Refers.push {V : Type} {values : List V} {results : List V} {index : Nat} {result : V}
    (refers : Refers values tags results) (value : values[index]? = some result) :
    Refers values (tags ++ [tags.length / 2, index]) (results ++ [result]) := by
  have size := refers.1
  refine ⟨by simp only [length_append, length_cons, length_nil]; omega, fun j found there => ?_⟩
  rw [getElem?_append] at there
  split at there
  · rename_i before
    obtain ⟨key, old, tag, stored⟩ := refers.2 j found there
    rw [getElem?_append_left (by omega), getElem?_append_left (by omega)]
    exact ⟨key, old, tag, stored⟩
  · have last : j = results.length := by
      have within := (List.getElem?_eq_some_iff.mp there).1
      simp only [length_cons, length_nil] at within
      omega
    subst last
    rw [Nat.sub_self, getElem?_cons_zero] at there
    cases Option.some.inj there
    rw [← size]
    refine ⟨?_, index, ?_, value⟩
    · rw [getElem?_append_right (Nat.le_refl _), Nat.sub_self, getElem?_cons_zero, size]
      simp
    · rw [getElem?_append_right (Nat.le_succ _), Nat.succ_sub (Nat.le_refl _), Nat.sub_self]
      rfl

def storedValue (all : List Attribute) (text : CString) : MvtValue α :=
  match firstWith Prod.snd all text with
  | some first => mvtValue numbers first.1 first.2
  | none => .string_value text

def sharedValues (out : ValuesOut α) : Pool CString (MvtValue α) := ⟨out.values, out.cache⟩

theorem putValue_eq (out : ValuesOut α) (entry : Attribute) :
    putValue numbers out entry =
      if entry.1.visible then
        let shared := intern Prod.snd (fun entry => mvtValue numbers entry.1 entry.2) (sharedValues out) entry
        ⟨shared.2.values, shared.2.cache, out.tags ++ [out.tags.length / 2, shared.1]⟩
      else out := by
  cases visible : entry.1.visible with
  | true =>
    simp only [putValue, intern, sharedValues, visible, Bool.not_true, Bool.false_eq_true, if_false, if_true]
    cases out.cache.lookup entry.2 <;> rfl
  | false => simp [putValue, visible]

/-- What the loop over the items keeps: the lookup of the texts, and what the tags written so far refer to. -/
structure ValuesKept (all done : List Attribute) (out : ValuesOut α) (results : List (MvtValue α)) : Prop where
  shared : Holds Prod.snd (fun entry => mvtValue numbers entry.1 entry.2) all done (sharedValues out)
  refers : Refers out.values out.tags results

theorem putValue_kept {all done rest : List Attribute} {entry : Attribute} {out : ValuesOut α}
    {results : List (MvtValue α)} (kept : ValuesKept numbers all done out results) (visible : entry.1.visible = true)
    (split : all = done ++ entry :: rest) :
    ValuesKept numbers all (done ++ [entry]) (putValue numbers out entry) (results ++ [storedValue numbers all entry.2]) ∧
      out.values <+: (putValue numbers out entry).values := by
  obtain ⟨shared, first, isFirst, value⟩ := intern_holds kept.shared split
  have grows := intern_values_prefix Prod.snd (fun entry => mvtValue numbers entry.1 entry.2) (sharedValues out) entry
  rw [putValue_eq, if_pos visible]
  refine ⟨⟨shared, (kept.refers.mono grows).push ?_⟩, grows⟩
  rw [value, storedValue, isFirst]

theorem foldl_putValue_kept {all done rest entries : List Attribute} {out : ValuesOut α} {results : List (MvtValue α)}
    (kept : ValuesKept numbers all done out results) (split : all = done ++ entries.filter (·.1.visible) ++ rest) :
    ValuesKept numbers all (done ++ entries.filter (·.1.visible)) (entries.foldl (putValue numbers) out)
        (results ++ (entries.filter (·.1.visible)).map fun entry => storedValue numbers all entry.2) ∧
      out.values <+: (entries.foldl (putValue numbers) out).values := by
  induction entries generalizing done out results with
  | nil => simpa using kept
  | cons entry entries ih =>
    rw [foldl_cons]
    cases visible : entry.1.visible with
    | true =>
      simp only [filter_cons, visible, if_true] at split ⊢
      have head : all = done ++ entry :: (entries.filter (·.1.visible) ++ rest) := by
        rw [split]
        simp
      obtain ⟨next, grows⟩ := putValue_kept numbers kept visible head
      obtain ⟨whole, more⟩ := ih next (by rw [split]; simp)
      rw [append_assoc, singleton_append] at whole
      refine ⟨?_, grows.trans more⟩
      simpa using whole
    | false =>
      simp only [filter_cons, visible, Bool.false_eq_true, if_false] at split ⊢
      rw [putValue_eq, if_neg (by simp [visible])]
      exact ih kept split

end Steps

theorem forall₂_iff_of_forall₂ {A B : Type} {R S : A → B → Prop} {P : A → Prop} (along : ∀ a b, R a b → (S a b ↔ P a))
    {left : List A} {right : List B} (related : Forall₂ R left right) :
    Forall₂ S left right ↔ ∀ a ∈ left, P a := by
  induction related with
  | nil => simp
  | cons head tail ih => rw [forall₂_cons, along _ _ head, ih, forall_mem_cons]

section Run
variable {α : Type} {numbers : TextToNumber α} {MS_NINT : α → Int}
  {mvtTransformShape mvtClipShape : ShapeObj α → Option (ShapeObj α)} {layerType : MvtLayerType} {items : List GmlItemObj}
variable {cache : ValueLookupTable} {mvt_layer : MvtLayer α} {writes : List (ShapeObj α × List CString)}

/-- A shape of which nothing is left changes nothing; another one adds a feature with the tags of the loop. -/
theorem mvtWriteShape_cases {shape : ShapeObj α} {values : List CString} {after : MvtLayer α}
    {cacheAfter : ValueLookupTable}
    (writes : mvtWriteShape numbers MS_NINT mvtTransformShape mvtClipShape layerType shape values items mvt_layer cache =
      some (after, cacheAfter)) :
    let out := (items.zip values).foldl (putValue numbers) ⟨mvt_layer.values, cache, []⟩
    (isWritten mvtTransformShape mvtClipShape layerType shape = false ∧ after = mvt_layer ∧ cacheAfter = cache) ∨
      (isWritten mvtTransformShape mvtClipShape layerType shape = true ∧ cacheAfter = out.cache ∧
        ∃ feature : MvtFeature, feature.tags = out.tags ∧ after = ⟨out.values, mvt_layer.features ++ [feature]⟩) := by
  intro out
  rw [mvtWriteShape] at writes
  cases transformed : mvtTransformShape shape with
  | none =>
    rw [transformed] at writes
    cases writes
    exact Or.inl ⟨by simp [isWritten, transformed], rfl, rfl⟩
  | some inTile =>
    cases clipped : mvtClipShape inTile with
    | none =>
      simp only [transformed, clipped] at writes
      cases writes
      exact Or.inl ⟨by simp [isWritten, transformed, clipped], rfl, rfl⟩
    | some kept =>
      simp only [transformed, clipped] at writes
      obtain ⟨n_geometry, counts, writes⟩ := bind_eq_some_iff.mp writes
      split at writes
      · rename_i empty
        cases writes
        subst empty
        exact Or.inl ⟨by simp [isWritten, transformed, clipped, counts], rfl, rfl⟩
      · rename_i some_words
        obtain ⟨_, _, writes⟩ := bind_eq_some_iff.mp writes
        cases writes
        exact Or.inr ⟨by simp [isWritten, transformed, clipped, counts, some_words], rfl, _, rfl, rfl⟩

theorem writeShapes_refers {all done : List Attribute} {after : MvtLayer α} {cacheAfter : ValueLookupTable}
    (run : writes.foldlM (fun state write =>
      mvtWriteShape numbers MS_NINT mvtTransformShape mvtClipShape layerType write.1 write.2 items state.1 state.2)
      (mvt_layer, cache) = some (after, cacheAfter))
    (shared : Holds Prod.snd (fun entry : Attribute => mvtValue numbers entry.1 entry.2) all done ⟨mvt_layer.values, cache⟩)
    (split : all = done ++ (writtenAttributes mvtTransformShape mvtClipShape layerType items writes).flatten) :
    mvt_layer.values <+: after.values ∧ ∃ added, after.features = mvt_layer.features ++ added ∧
      Forall₂
        (fun attributes (feature : MvtFeature) => Refers after.values feature.tags
          (attributes.map fun entry => storedValue numbers all entry.2))
        (writtenAttributes mvtTransformShape mvtClipShape layerType items writes) added := by
  induction writes generalizing mvt_layer cache done with
  | nil =>
    cases run
    exact ⟨prefix_refl _, [], (append_nil _).symm, Forall₂.nil⟩
  | cons write writes ih =>
    rw [foldlM_cons] at run
    obtain ⟨⟨next, nextCache⟩, one, rest⟩ := bind_eq_some_iff.mp run
    rcases mvtWriteShape_cases one with ⟨nothing, rfl, rfl⟩ | ⟨written, rfl, feature, tags, rfl⟩
    · have same : writtenAttributes mvtTransformShape mvtClipShape layerType items (write :: writes) =
          writtenAttributes mvtTransformShape mvtClipShape layerType items writes := by
        simp [writtenAttributes, nothing]
      rw [same] at split ⊢
      exact ih rest shared split
    · have head : writtenAttributes mvtTransformShape mvtClipShape layerType items (write :: writes) =
          visibleAttributes items write.2 :: writtenAttributes mvtTransformShape mvtClipShape layerType items writes := by
        simp [writtenAttributes, written]
      rw [head, flatten_cons, ← append_assoc] at split
      have start : ValuesKept numbers all done ⟨mvt_layer.values, cache, []⟩ [] := ⟨shared, rfl, by simp⟩
      obtain ⟨kept, grows⟩ := foldl_putValue_kept numbers start split
      obtain ⟨more, added, features, related⟩ := ih rest kept.shared split
      refine ⟨grows.trans more, feature :: added, by rw [features]; simp, ?_⟩
      rw [head]
      refine Forall₂.cons ?_ related
      rw [tags]
      exact kept.refers.mono more

variable (numbers) in
theorem converted_eq_stored_iff {all : List Attribute} :
    (∀ entry ∈ all, converted numbers entry.2 entry.1.kind = storedValue numbers all entry.2) ↔ SameKinds all := by
  constructor
  · intro keeps one isOne other isOther text
    have value := (keeps one isOne).trans ((congrArg _ text).trans (keeps other isOther).symm)
    rw [text] at value
    exact (converted_inj numbers).mp value
  · intro same entry member
    cases found : firstWith Prod.snd all entry.2 with
    | none => exact absurd (find?_eq_none.mp found entry member) (by simp)
    | some first =>
      have text : first.2 = entry.2 := by simpa using find?_some found
      rw [storedValue, found]
      dsimp only
      rw [mvtValue_eq_converted, text, same first (mem_of_find?_eq_some found) entry member text]

/-- Features that refer to the stored values keep the types exactly when no text is written in two kinds. -/
theorem keepsTypes_iff_of_refers
    (related : Forall₂
      (fun attributes (feature : MvtFeature) => Refers mvt_layer.values feature.tags
        (attributes.map fun entry => storedValue numbers
          (writtenAttributes mvtTransformShape mvtClipShape layerType items writes).flatten entry.2))
      (writtenAttributes mvtTransformShape mvtClipShape layerType items writes) mvt_layer.features) :
    KeepsTypes numbers mvtTransformShape mvtClipShape layerType items writes mvt_layer ↔
      SameKinds (writtenAttributes mvtTransformShape mvtClipShape layerType items writes).flatten := by
  rw [← converted_eq_stored_iff numbers, KeepsTypes, forall_mem_flatten]
  refine forall₂_iff_of_forall₂ (fun attributes feature refers => ?_) related
  constructor
  · intro right
    exact map_inj_left.mp (right.unique refers)
  · intro same
    rw [map_congr_left same]
    exact refers

theorem writeShapes_related
    (run : writeShapes numbers MS_NINT mvtTransformShape mvtClipShape layerType items writes = some (mvt_layer, cache)) :
    Forall₂
      (fun attributes (feature : MvtFeature) => Refers mvt_layer.values feature.tags
        (attributes.map fun entry => storedValue numbers
          (writtenAttributes mvtTransformShape mvtClipShape layerType items writes).flatten entry.2))
      (writtenAttributes mvtTransformShape mvtClipShape layerType items writes) mvt_layer.features := by
  obtain ⟨_, added, features, related⟩ := writeShapes_refers run (holds_empty _ _ _) (nil_append _).symm
  rw [features]
  exact related

/-- In every run, the attributes keep their types exactly when no text is written in two kinds. -/
theorem writeShapes_keepsTypes_iff {writes : List (ShapeObj α × List CString)} {mvt_layer : MvtLayer α}
    {cache : ValueLookupTable}
    (run : writeShapes numbers MS_NINT mvtTransformShape mvtClipShape layerType items writes = some (mvt_layer, cache)) :
    KeepsTypes numbers mvtTransformShape mvtClipShape layerType items writes mvt_layer ↔
      SameKinds (writtenAttributes mvtTransformShape mvtClipShape layerType items writes).flatten :=
  keepsTypes_iff_of_refers (writeShapes_related run)

end Run

def wholeNumbers : TextToNumber Int := ⟨atoi, strtol, strtol⟩

def pointWith (first second : CString) : ShapeObj Int × List CString :=
  ({ line := [[⟨1, 1, 0, 0⟩]], bounds := ⟨1, 1, 1, 1⟩, type := .MS_SHAPE_POINT, index := 0 }, [first, second])

def countAndName : List GmlItemObj := [⟨some (ascii "Integer"), true⟩, ⟨none, true⟩]

theorem pointWith_isWritten (first second : CString) :
    ∃ mvt_layer cache, writeShapes wholeNumbers id some some .MS_LAYER_POINT countAndName [pointWith first second] =
      some (mvt_layer, cache) := by
  have run : (writeShapes wholeNumbers id some some .MS_LAYER_POINT countAndName [pointWith first second]).isSome := by rfl
  obtain ⟨⟨mvt_layer, cache⟩, result⟩ := isSome_iff_exists.mp run
  exact ⟨mvt_layer, cache, result⟩

theorem writeShapes_keepsTypes_distinct :
    ∃ mvt_layer cache, writeShapes wholeNumbers id some some .MS_LAYER_POINT countAndName [pointWith [49] [50]] =
        some (mvt_layer, cache) ∧
      (KeepsTypes wholeNumbers some some .MS_LAYER_POINT countAndName [pointWith [49] [50]] mvt_layer ↔
        SameKinds (writtenAttributes some some .MS_LAYER_POINT countAndName [pointWith [49] [50]]).flatten) := by
  obtain ⟨mvt_layer, cache, result⟩ := pointWith_isWritten [49] [50]
  exact ⟨mvt_layer, cache, result, writeShapes_keepsTypes_iff result⟩

theorem writeShapes_name_becomes_number :
    ∃ mvt_layer cache, writeShapes wholeNumbers id some some .MS_LAYER_POINT countAndName [pointWith [49] [49]] =
        some (mvt_layer, cache) ∧
      ¬KeepsTypes wholeNumbers some some .MS_LAYER_POINT countAndName [pointWith [49] [49]] mvt_layer := by
  obtain ⟨mvt_layer, cache, result⟩ := pointWith_isWritten [49] [49]
  refine ⟨mvt_layer, cache, result, fun keeps => ?_⟩
  have same := (keepsTypes_iff_of_refers (writeShapes_related result)).mp keeps
  have attributes : (writtenAttributes some some .MS_LAYER_POINT countAndName [pointWith [49] [49]]).flatten =
      [(⟨some (ascii "Integer"), true⟩, [49]), (⟨none, true⟩, [49])] := rfl
  rw [attributes] at same
  have kinds := same _ List.mem_cons_self _ (List.mem_cons_of_mem _ List.mem_cons_self) rfl
  simp [GmlItemObj.kind, ascii] at kinds

end MapServer
