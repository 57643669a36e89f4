import MapServer.Map.ScaleTokens

namespace MapServer
open List Option Function

@[ext]
structure LayerValues where
  strings : LayerString → Option CString
  filterType : ExpressionType
  filter : Option CString
  insensitive : Bool
  processing : List CString

def ScaleLayer.values (layer : ScaleLayer) : LayerValues where
  strings field := (layer.strings field).map (·.text)
  filterType := layer.filter.type
  filter := layer.filter.string.map (·.text)
  insensitive := layer.filter.insensitive
  processing := layer.processing.map (·.text)

def replaceAll (pairs : List (CString × CString)) (text : CString) : CString :=
  pairs.foldl (fun text pair => msReplaceSubstring pair.1 pair.2 text) text

def LayerValues.replaced (pairs : List (CString × CString)) (values : LayerValues) : LayerValues where
  strings field := (values.strings field).map (replaceAll pairs)
  filterType := values.filterType
  filter := values.filter.map (replaceAll pairs)
  insensitive := values.insensitive
  processing := values.processing.map (replaceAll pairs)

def hits : List (CString × CString) → CString → Nat
  | [], _ => 0
  | (name, value) :: pairs, text => (if strstr text name then 1 else 0) + hits pairs (msReplaceSubstring name value text)

def stringsOf (strings : LayerString → Option CharPtr) : List CharPtr :=
  [.data, .tileindex, .tileitem, .filteritem].filterMap strings

def liveStrings (layer : ScaleLayer) : List CharPtr :=
  stringsOf layer.strings ++ layer.filter.string.toList ++ layer.processing

def savedStrings (saved : OriginalScaleTokenStrings) : List CharPtr :=
  stringsOf saved.strings ++ saved.filter.toList ++ saved.processing.getD []

def countAt (address : Nat) (strings : List CharPtr) : Nat := strings.countP fun string => string.address = address

def uses (layer : ScaleLayer) (address : Nat) : Nat :=
  layer.heap.freed.count address + countAt address (liveStrings layer) + countAt address (savedStrings (check_st_alloc layer))

variable {name text : CString} {pairs : List (CString × CString)} {after layer : ScaleLayer}
  {original : Option CString} {saved : Option CharPtr}

theorem msReplaceSubstring_absent (value : CString) (absent : strstr text name = false) :
    msReplaceSubstring name value text = text := by
  have missing : ¬ name <:+: text := by simpa [strstr] using absent
  clear absent
  induction text with
  | nil => rw [msReplaceSubstring]
  | cons c rest ih =>
    have differs : name.isPrefixOf (c :: rest) = false := by
      rw [← Bool.not_eq_true, isPrefixOf_iff_prefix]
      exact fun front => missing front.isInfix
    rw [msReplaceSubstring, differs, if_neg Bool.false_ne_true, ih]
    exact fun inside => missing (inside.trans (suffix_cons c rest).isInfix)

theorem replaceAll_append (front back : List (CString × CString)) (text : CString) :
    replaceAll (front ++ back) text = replaceAll back (replaceAll front text) := foldl_append

theorem hits_append (front back : List (CString × CString)) (text : CString) :
    hits (front ++ back) text = hits front text + hits back (replaceAll front text) := by
  induction front generalizing text with
  | nil => simp [hits, replaceAll]
  | cons pair front ih =>
    rw [cons_append, hits, hits, ih, Nat.add_assoc]
    rfl

theorem replaceAll_of_hits (none_found : hits pairs text = 0) : replaceAll pairs text = text := by
  induction pairs generalizing text with
  | nil => rfl
  | cons pair pairs ih =>
    obtain ⟨name, value⟩ := pair
    rw [hits, Nat.add_eq_zero_iff] at none_found
    have absent : strstr text name = false := by simpa using none_found.1
    rw [msReplaceSubstring_absent value absent] at none_found
    show replaceAll pairs (msReplaceSubstring name value text) = text
    rw [msReplaceSubstring_absent value absent]
    exact ih none_found.2

theorem countAt_append (address : Nat) (front back : List CharPtr) :
    countAt address (front ++ back) = countAt address front + countAt address back := countP_append

theorem countAt_stringsOf (address : Nat) (strings : LayerString → Option CharPtr) : countAt address (stringsOf strings) =
    countAt address (strings .data).toList + countAt address (strings .tileindex).toList +
      countAt address (strings .tileitem).toList + countAt address (strings .filteritem).toList := by
  have cons (x : LayerString) (fields : List LayerString) : countAt address ((x :: fields).filterMap strings) =
      countAt address (strings x).toList + countAt address (fields.filterMap strings) := by
    rw [filterMap_cons, ← countAt_append]
    cases strings x <;> rfl
  rw [stringsOf, cons, cons, cons, cons, ← Nat.add_assoc, ← Nat.add_assoc, ← Nat.add_assoc]
  rfl

theorem countAt_stringsOf_update (address : Nat) (strings : LayerString → Option CharPtr) (field : LayerString)
    (string : Option CharPtr) :
    countAt address (stringsOf (update strings field string)) + countAt address (strings field).toList =
      countAt address (stringsOf strings) + countAt address string.toList := by
  rw [countAt_stringsOf, countAt_stringsOf]
  cases field <;> simp [update] <;> omega

theorem count_msFree (address : Nat) (string : Option CharPtr) (heap : StringHeap) :
    (heap.msFree string).freed.count address = heap.freed.count address + countAt address string.toList := by
  cases string with
  | none => simp [StringHeap.msFree, countAt]
  | some string => simp [StringHeap.msFree, countAt, count_cons]

theorem count_destroy (address : Nat) (strings : List CharPtr) (heap : StringHeap) :
    (heap.destroy strings).freed.count address = heap.freed.count address + countAt address strings := by
  rw [StringHeap.destroy, count_append, Nat.add_comm, countAt, List.count, countP_map]
  rfl

def newAt (address first last : Nat) : Nat := if first ≤ address ∧ address < last then 1 else 0

theorem newAt_append (address : Nat) {first middle last : Nat} (low : first ≤ middle) (high : middle ≤ last) :
    newAt address first last = newAt address first middle + newAt address middle last := by
  unfold newAt
  split <;> split <;> split <;> omega

theorem countAt_new (address next : Nat) (text : CString) : countAt address [⟨next, text⟩] = newAt address next (next + 1) := by
  simp only [countAt, newAt, countP_singleton, decide_eq_true_eq]
  split <;> split <;> omega

theorem countAt_duplicate (address : Nat) (strings : List CharPtr) (heap : StringHeap) :
    countAt address (heap.duplicate strings).1 = newAt address heap.next (heap.next + strings.length) := by
  obtain ⟨next, freed⟩ := heap
  show countAt address (strings.mapIdx fun i string => ⟨next + i, string.text⟩) = newAt address next (next + strings.length)
  induction strings generalizing next with
  | nil => simp [countAt, newAt]
  | cons string strings ih =>
    have shifted : (fun i (string : CharPtr) => CharPtr.mk (next + (i + 1)) string.text) =
        fun i (string : CharPtr) => CharPtr.mk (next + 1 + i) string.text := by
      funext i string
      rw [Nat.add_assoc, Nat.add_comm 1]
    rw [mapIdx_cons, shifted, ← singleton_append, countAt_append, ih, Nat.add_zero, countAt_new, length_cons,
      Nat.add_assoc, Nat.add_comm 1, ← newAt_append address (Nat.le_succ next) (by omega)]

/-- A step frees and saves strings, and allocates new ones, without losing one or freeing one twice. -/
structure Grows (before after : ScaleLayer) : Prop where
  next : before.heap.next ≤ after.heap.next
  uses : ∀ address, uses after address = uses before address + newAt address before.heap.next after.heap.next

theorem Grows.refl (layer : ScaleLayer) : Grows layer layer where
  next := le_rfl
  uses address := by
    have nothing : newAt address layer.heap.next layer.heap.next = 0 := by
      unfold newAt
      rw [if_neg (by omega)]
    rw [nothing, Nat.add_zero]

theorem Grows.trans {before between : ScaleLayer} (first : Grows before between) (second : Grows between after) :
    Grows before after where
  next := first.next.trans second.next
  uses address := by
    rw [second.uses, first.uses, Nat.add_assoc, newAt_append address first.next second.next]

theorem replaceString_grows {value : CString} {field : LayerString}
    (unsaved : ∀ string, layer.strings field = some string → strstr string.text name = true → (check_st_alloc layer).strings field = none) :
    Grows layer (replaceString name value layer field) := by
  unfold replaceString
  split
  case h_2 => exact .refl layer
  rename_i string here
  by_cases found : strstr string.text name = true
  case neg =>
    rw [if_neg found]
    exact .refl layer
  rw [if_pos found]
  refine ⟨Nat.le_succ _, ?_⟩
  intro address
  have live := countAt_stringsOf_update address layer.strings field
    (some ⟨layer.heap.next, msReplaceSubstring name value string.text⟩)
  have saved := countAt_stringsOf_update address (check_st_alloc layer).strings field (some string)
  rw [here] at live
  rw [unsaved string here found] at saved
  have new := countAt_new address layer.heap.next (msReplaceSubstring name value string.text)
  have empty : countAt address [] = 0 := rfl
  simp only [toList_some, toList_none, new, empty] at live saved
  simp only [uses, liveStrings, savedStrings, countAt_append, StringHeap.msStrdup, check_st_alloc,
    getD_some] at live saved ⊢
  omega

theorem msLoadExpressionString_loaded {exp filter : FilterExpression} {value : CString} {heap after : StringHeap}
    (run : msLoadExpressionString exp value heap = some (filter, after)) :
    ∃ loaded, loadExpressionString value = some loaded ∧
      filter = ⟨loaded.type, some ⟨heap.next, loaded.string⟩, loaded.insensitive⟩ ∧ after.next = heap.next + 1 ∧
      ∀ address, after.freed.count address = heap.freed.count address + countAt address exp.string.toList := by
  unfold msLoadExpressionString at run
  obtain ⟨loaded, isLoaded, run⟩ := bind_eq_some_iff.mp run
  obtain ⟨rfl, rfl⟩ := run
  exact ⟨loaded, isLoaded, rfl, rfl, fun address => count_msFree address exp.string heap⟩

theorem replaceFilter_grows {value : CString}
    (unsaved : ∀ string, layer.filter.string = some string → strstr string.text name = true → (check_st_alloc layer).filter = none)
    (run : replaceFilter name value layer = some after) : Grows layer after := by
  unfold replaceFilter at run
  split at run
  case h_2 =>
    obtain rfl := Option.some.inj run
    exact .refl layer
  rename_i string here
  by_cases found : strstr string.text name = true
  case neg =>
    rw [if_neg found] at run
    obtain rfl := Option.some.inj run
    exact .refl layer
  rw [if_pos found] at run
  obtain ⟨⟨filter, heap⟩, load, run⟩ := bind_eq_some_iff.mp run
  obtain rfl := Option.some.inj run
  obtain ⟨loaded, _, rfl, next, freed⟩ := msLoadExpressionString_loaded load
  refine ⟨by simp only [next]; omega, ?_⟩
  intro address
  have copy := countAt_new address layer.heap.next string.text
  have new := countAt_new address (layer.heap.next + 1) loaded.string
  have both : newAt address layer.heap.next (layer.heap.next + 1 + 1) = newAt address layer.heap.next (layer.heap.next + 1) +
      newAt address (layer.heap.next + 1) (layer.heap.next + 1 + 1) := newAt_append address (by omega) (by omega)
  have empty : countAt address [] = 0 := rfl
  simp only [uses, liveStrings, savedStrings, countAt_append, check_st_alloc, getD_some, next, freed, here,
    toList_some, copy, new] at both ⊢
  have saved := unsaved string here found
  simp only [check_st_alloc] at saved
  rw [saved, toList_none, empty]
  omega

theorem countAt_set (address : Nat) {strings : List CharPtr} {p : Nat} {old : CharPtr} (here : strings[p]? = some old)
    (new : CharPtr) : countAt address (strings.set p new) + countAt address [old] = countAt address strings + countAt address [new] := by
  obtain ⟨inside, same⟩ := List.getElem?_eq_some_iff.mp here
  rw [set_eq_take_append_cons_drop, if_pos inside, countAt_append, ← singleton_append, countAt_append]
  have whole : countAt address strings = countAt address (strings.take p) + (countAt address [old] + countAt address (strings.drop (p + 1))) := by
    rw [← countAt_append, singleton_append, ← same, ← drop_eq_getElem_cons inside, ← countAt_append,
      take_append_drop]
  omega

theorem keptProcessing_grows (layer : ScaleLayer) : layer.heap.next ≤ (keptProcessing layer).2.next ∧
    (keptProcessing layer).2.freed = layer.heap.freed ∧ ∀ address, countAt address (keptProcessing layer).1 =
      countAt address ((check_st_alloc layer).processing.getD []) + newAt address layer.heap.next (keptProcessing layer).2.next := by
  unfold keptProcessing
  cases (check_st_alloc layer).processing with
  | some processing => exact ⟨le_rfl, rfl, fun address => by simp [newAt]⟩
  | none =>
    refine ⟨Nat.le_add_right _ _, rfl, ?_⟩
    intro address
    rw [countAt_duplicate]
    exact (Nat.zero_add _).symm

theorem replaceDirective_grows (name value : CString) (layer : ScaleLayer) (p : Nat) :
    Grows layer (replaceDirective name value layer p) := by
  unfold replaceDirective
  split
  case h_2 => exact .refl layer
  rename_i directive here
  by_cases found : strstr directive.text name = true
  case neg =>
    rw [if_neg found]
    exact .refl layer
  rw [if_pos found]
  obtain ⟨longer, same, kept⟩ := keptProcessing_grows layer
  generalize keptProcessing layer = saved at longer same kept
  obtain ⟨processing, heap⟩ := saved
  dsimp only at longer same kept
  refine ⟨Nat.le_succ_of_le longer, ?_⟩
  intro address
  have live := countAt_set address here ⟨heap.next, msReplaceSubstring name value directive.text⟩
  have new := countAt_new address heap.next (msReplaceSubstring name value directive.text)
  have both := newAt_append address longer (Nat.le_add_right heap.next 1)
  have freed := count_msFree address (some directive) heap
  have saved := kept address
  show List.count address (heap.msFree (some directive)).freed + countAt address (stringsOf layer.strings ++
    layer.filter.string.toList ++ layer.processing.set p ⟨heap.next, msReplaceSubstring name value directive.text⟩) +
    countAt address (stringsOf (check_st_alloc layer).strings ++ (check_st_alloc layer).filter.toList ++ processing) =
    uses layer address + newAt address layer.heap.next (heap.next + 1)
  simp only [uses, liveStrings, savedStrings, countAt_append, toList_some] at freed saved ⊢
  rw [same] at freed
  omega

theorem restoreString_spec (saved : OriginalScaleTokenStrings) (layer : ScaleLayer) (field : LayerString) :
    ∃ strings heap, restoreString saved layer field = { layer with strings, heap } ∧
      strings = update layer.strings field ((saved.strings field).or (layer.strings field)) ∧
      heap.next = layer.heap.next ∧ ∀ address, heap.freed.count address + countAt address (stringsOf strings) =
        layer.heap.freed.count address + countAt address (stringsOf layer.strings) +
          countAt address (saved.strings field).toList := by
  unfold restoreString
  cases saved.strings field with
  | none =>
    refine ⟨layer.strings, layer.heap, rfl, ?_, rfl, fun address => rfl⟩
    rw [none_or, update_eq_self]
  | some string =>
    refine ⟨_, _, rfl, rfl, rfl, ?_⟩
    intro address
    have live := countAt_stringsOf_update address layer.strings field (some string)
    rw [count_msFree]
    omega

def FilterRestorable (layer : ScaleLayer) : Prop :=
  ∀ string, (check_st_alloc layer).filter = some string → layer.filter.type ≠ .MS_EXPRESSION ∧
    loadExpressionString string.text = some ⟨layer.filter.type, string.text, layer.filter.insensitive⟩

theorem restoreFilter_spec {saved : OriginalScaleTokenStrings}
    (restorable : ∀ string, saved.filter = some string → layer.filter.type ≠ .MS_EXPRESSION ∧
      loadExpressionString string.text = some ⟨layer.filter.type, string.text, layer.filter.insensitive⟩) :
    ∃ string heap, restoreFilter saved layer = some { layer with filter := { layer.filter with string }, heap } ∧
      string.map (·.text) = (saved.filter.or layer.filter.string).map (·.text) ∧
      layer.heap.next ≤ heap.next ∧ ∀ address, heap.freed.count address + countAt address string.toList =
        layer.heap.freed.count address + countAt address layer.filter.string.toList +
          countAt address saved.filter.toList + newAt address layer.heap.next heap.next := by
  unfold restoreFilter
  cases here : saved.filter with
  | none =>
    refine ⟨layer.filter.string, layer.heap, rfl, by rw [none_or], le_rfl, ?_⟩
    intro address
    simp [countAt, newAt]
  | some copy =>
    obtain ⟨notLogical, loads⟩ := restorable copy here
    simp only [if_neg notLogical, msLoadExpressionString, loads, bind_eq_bind, bind_some, some_or]
    refine ⟨_, _, rfl, rfl, Nat.le_succ _, ?_⟩
    intro address
    rw [count_msFree]
    have new := countAt_new address layer.heap.next copy.text
    have freed := count_msFree address layer.filter.string layer.heap
    simp only [StringHeap.msStrdup, StringHeap.msFree, toList_some] at freed new ⊢
    omega

theorem restoreProcessing_spec (saved : OriginalScaleTokenStrings) (layer : ScaleLayer) :
    ∃ heap, restoreProcessing saved layer =
        { layer with processing := saved.processing.getD layer.processing, heap } ∧
      heap.next = layer.heap.next ∧ ∀ address,
        heap.freed.count address + countAt address (saved.processing.getD layer.processing) =
          layer.heap.freed.count address + countAt address layer.processing +
            countAt address (saved.processing.getD []) := by
  unfold restoreProcessing
  cases saved.processing with
  | none => exact ⟨layer.heap, rfl, rfl, fun address => rfl⟩
  | some processing =>
    refine ⟨_, rfl, rfl, ?_⟩
    intro address
    rw [count_destroy]
    simp only [getD_some]

def restoredValues (layer : ScaleLayer) : LayerValues where
  strings field := (((check_st_alloc layer).strings field).or (layer.strings field)).map (·.text)
  filterType := layer.filter.type
  filter := ((check_st_alloc layer).filter.or layer.filter.string).map (·.text)
  insensitive := layer.filter.insensitive
  processing := ((check_st_alloc layer).processing.getD layer.processing).map (·.text)

structure StringReplaced (original : Option CString) (pairs : List (CString × CString)) (current saved : Option CharPtr) :
    Prop where
  value : current.map (·.text) = original.map (replaceAll pairs)
  restored : (saved.or current).map (·.text) = original
  unsaved : ∀ text, original = some text → hits pairs text = 0 → saved = none

theorem hits_snoc (pairs : List (CString × CString)) (name value text : CString) :
    hits (pairs ++ [(name, value)]) text = hits pairs text + if strstr (replaceAll pairs text) name then 1 else 0 := by
  rw [hits_append]
  rfl

theorem replaceAll_snoc (pairs : List (CString × CString)) (name value text : CString) :
    replaceAll (pairs ++ [(name, value)]) text = msReplaceSubstring name value (replaceAll pairs text) := by
  rw [replaceAll_append]
  rfl

theorem StringReplaced.absent {current : Option CharPtr} (replaced : StringReplaced original pairs current saved)
    {value : CString} (absent : ∀ string, current = some string → strstr string.text name = false) :
    StringReplaced original (pairs ++ [(name, value)]) current saved := by
  obtain ⟨isValue, restored, unsaved⟩ := replaced
  refine ⟨?_, restored, ?_⟩
  · rw [isValue]
    cases original with
    | none => rfl
    | some text =>
      obtain ⟨string, isCurrent, same⟩ := map_eq_some_iff.mp isValue
      rw [map_some, map_some, replaceAll_snoc, ← same, msReplaceSubstring_absent value (absent string isCurrent)]
  · intro text here none_found
    rw [hits_snoc] at none_found
    exact unsaved text here (by omega)

theorem StringReplaced.first {string : CharPtr} (replaced : StringReplaced original pairs (some string) saved)
    {value : CString} (once : ∀ text, original = some text → hits (pairs ++ [(name, value)]) text ≤ 1)
    (found : strstr string.text name = true) : saved = none ∧ original = some string.text ∧ hits pairs string.text = 0 := by
  obtain ⟨isValue, restored, unsaved⟩ := replaced
  obtain ⟨text, isOriginal, same⟩ := map_eq_some_iff.mp isValue.symm
  have few := once text isOriginal
  rw [hits_snoc, same, if_pos found] at few
  have none_found : hits pairs text = 0 := by omega
  have none_saved := unsaved text isOriginal none_found
  rw [replaceAll_of_hits none_found] at same
  subst same
  exact ⟨none_saved, isOriginal, none_found⟩

theorem StringReplaced.found {string copy new : CharPtr} (replaced : StringReplaced original pairs (some string) saved)
    {value : CString} (once : ∀ text, original = some text → hits (pairs ++ [(name, value)]) text ≤ 1)
    (found : strstr string.text name = true) (copied : copy.text = string.text)
    (made : new.text = msReplaceSubstring name value string.text) :
    StringReplaced original (pairs ++ [(name, value)]) (some new) (some copy) := by
  obtain ⟨_, isOriginal, none_found⟩ := replaced.first once found
  refine ⟨?_, ?_, ?_⟩
  · rw [isOriginal, map_some, map_some, replaceAll_snoc, replaceAll_of_hits none_found, made]
  · rw [isOriginal, some_or, map_some, copied]
  · intro text here zero
    rw [isOriginal] at here
    obtain rfl := Option.some.inj here
    rw [hits_snoc, replaceAll_of_hits none_found, if_pos found] at zero
    omega

theorem StringReplaced.of_texts {current current' saved' : Option CharPtr}
    (replaced : StringReplaced original pairs current saved) (value : current'.map (·.text) = current.map (·.text))
    (restored : (saved'.or current').map (·.text) = (saved.or current).map (·.text)) (same : saved' = saved) :
    StringReplaced original pairs current' saved' where
  value := value.trans replaced.value
  restored := restored.trans replaced.restored
  unsaved text here none_found := same.trans (replaced.unsaved text here none_found)

/-- The filter, its saved string, the directives and the saved directives are the same. -/
structure SameApartFromStrings (before after : ScaleLayer) : Prop where
  filter : after.filter = before.filter
  processing : after.processing = before.processing
  savedFilter : (check_st_alloc after).filter = (check_st_alloc before).filter
  savedProcessing : (check_st_alloc after).processing = (check_st_alloc before).processing

theorem SameApartFromStrings.trans {before between : ScaleLayer} (first : SameApartFromStrings before between)
    (second : SameApartFromStrings between after) : SameApartFromStrings before after where
  filter := second.filter.trans first.filter
  processing := second.processing.trans first.processing
  savedFilter := second.savedFilter.trans first.savedFilter
  savedProcessing := second.savedProcessing.trans first.savedProcessing

def StringsReplaced (original : LayerString → Option CString) (pairs : LayerString → List (CString × CString))
    (layer : ScaleLayer) : Prop :=
  ∀ field, StringReplaced (original field) (pairs field) (layer.strings field) ((check_st_alloc layer).strings field)

theorem replaceString_spec {original : LayerString → Option CString} {pairs : LayerString → List (CString × CString)}
    (replaced : StringsReplaced original pairs layer) {value : CString} {field : LayerString}
    (once : ∀ text, original field = some text → hits (pairs field ++ [(name, value)]) text ≤ 1) :
    StringsReplaced original (update pairs field (pairs field ++ [(name, value)])) (replaceString name value layer field) ∧
      SameApartFromStrings layer (replaceString name value layer field) ∧
      Grows layer (replaceString name value layer field) := by
  have here := replaced field
  have grows : Grows layer (replaceString name value layer field) := by
    apply replaceString_grows
    intro string isCurrent found
    rw [isCurrent] at here
    exact (here.first once found).1
  refine ⟨?_, ?_, grows⟩
  · intro other
    by_cases same : other = field
    · subst same
      rw [update_self]
      unfold replaceString
      split
      case h_2 isNone =>
        apply here.absent
        intro string isCurrent
        cases isNone.symm.trans isCurrent
      rename_i string isCurrent
      split
      case isTrue found =>
        rw [isCurrent] at here
        have made : (CharPtr.mk layer.heap.next (msReplaceSubstring name value string.text)).text =
            msReplaceSubstring name value string.text := rfl
        have done := here.found once found rfl made
        simp only [StringHeap.msStrdup, check_st_alloc, getD_some, update_self]
        exact done
      case isFalse absent =>
        apply here.absent
        intro current isOther
        cases isCurrent.symm.trans isOther
        simpa using absent
    · rw [update_of_ne same]
      have unchanged := replaced other
      unfold replaceString
      split
      case h_2 => exact unchanged
      split
      case isFalse => exact unchanged
      simp only [StringHeap.msStrdup, check_st_alloc, getD_some, update_of_ne same]
      exact unchanged
  · unfold replaceString
    split
    case h_2 => exact ⟨rfl, rfl, rfl, rfl⟩
    split
    case isFalse => exact ⟨rfl, rfl, rfl, rfl⟩
    exact ⟨rfl, rfl, rfl, rfl⟩

theorem replaceFilter_spec (replaced : StringReplaced original pairs layer.filter.string (check_st_alloc layer).filter)
    {value : CString} (once : ∀ text, original = some text → hits (pairs ++ [(name, value)]) text ≤ 1)
    (loads : ∀ text, original = some text → hits pairs text = 0 → strstr text name = true →
      loadExpressionString (msReplaceSubstring name value (withParentheses layer.filter.type text)) =
        some ⟨layer.filter.type, msReplaceSubstring name value text, layer.filter.insensitive⟩) :
    ∃ after, replaceFilter name value layer = some after ∧ Grows layer after ∧
      StringReplaced original (pairs ++ [(name, value)]) after.filter.string (check_st_alloc after).filter ∧
      after.filter.type = layer.filter.type ∧ after.filter.insensitive = layer.filter.insensitive ∧
      after.strings = layer.strings ∧ (check_st_alloc after).strings = (check_st_alloc layer).strings ∧
      after.processing = layer.processing ∧ (check_st_alloc after).processing = (check_st_alloc layer).processing := by
  have grows (after : ScaleLayer) (run : replaceFilter name value layer = some after) : Grows layer after := by
    apply replaceFilter_grows _ run
    intro string isCurrent found
    rw [isCurrent] at replaced
    exact (replaced.first once found).1
  refine (exists_congr fun after => and_congr_right fun run => and_iff_right (grows after run)).mpr ?_
  unfold replaceFilter
  split
  case h_2 isNone =>
    refine ⟨layer, rfl, replaced.absent ?_, rfl, rfl, rfl, rfl, rfl, rfl⟩
    intro string isCurrent
    cases isNone.symm.trans isCurrent
  rename_i string isCurrent
  by_cases found : strstr string.text name = true
  case neg =>
    rw [if_neg found]
    refine ⟨layer, rfl, replaced.absent ?_, rfl, rfl, rfl, rfl, rfl, rfl⟩
    intro current isOther
    cases isCurrent.symm.trans isOther
    simpa using found
  rw [isCurrent] at replaced
  obtain ⟨_, isOriginal, none_found⟩ := replaced.first once found
  rw [if_pos found]
  simp only [msLoadExpressionString, loads string.text isOriginal none_found found, bind_eq_bind, bind_some]
  exact ⟨_, rfl, replaced.found once found rfl rfl, rfl, rfl, rfl, rfl, rfl, rfl⟩

theorem texts_set {strings : List CharPtr} {p : Nat} {old new : CharPtr} (here : strings[p]? = some old) {f : CString → CString}
    (made : new.text = f old.text) : (strings.set p new).map (·.text) = (strings.map (·.text)).modify p f := by
  apply ext_getElem?
  intro i
  rw [getElem?_map, getElem?_set, getElem?_modify, getElem?_map]
  by_cases same : p = i
  · subst same
    have inside := (List.getElem?_eq_some_iff.mp here).1
    rw [if_pos rfl, if_pos inside, here, map_some, made]
    simp
  · simp [same]

theorem texts_duplicate (strings : List CharPtr) (heap : StringHeap) :
    (heap.duplicate strings).1.map (·.text) = strings.map (·.text) := by
  apply ext_getElem?
  intro i
  simp only [StringHeap.duplicate, getElem?_map, getElem?_mapIdx, Option.map_map]
  rfl

theorem modify_absent {texts : List CString} {p : Nat} {value : CString}
    (absent : ∀ text, texts[p]? = some text → strstr text name = false) :
    texts.modify p (msReplaceSubstring name value) = texts := by
  apply ext_getElem?
  intro i
  rw [getElem?_modify]
  by_cases same : p = i
  · subst same
    cases here : texts[p]? with
    | none => rfl
    | some text => simp [msReplaceSubstring_absent value (absent text here)]
  · cases texts[i]? <;> simp [same]

theorem replaceDirective_spec (name value : CString) (layer : ScaleLayer) (p : Nat) :
    (replaceDirective name value layer p).values =
        { layer.values with processing := layer.values.processing.modify p (msReplaceSubstring name value) } ∧
      restoredValues (replaceDirective name value layer p) = restoredValues layer ∧
      (check_st_alloc (replaceDirective name value layer p)).filter = (check_st_alloc layer).filter ∧
      (check_st_alloc (replaceDirective name value layer p)).strings = (check_st_alloc layer).strings := by
  have unchanged (absent : ∀ directive, layer.processing[p]? = some directive → strstr directive.text name = false) :
      layer.values = { layer.values with processing := layer.values.processing.modify p (msReplaceSubstring name value) } := by
    rw [modify_absent]
    intro text here
    rw [ScaleLayer.values, getElem?_map] at here
    obtain ⟨directive, isHere, same⟩ := map_eq_some_iff.mp here
    rw [← same]
    exact absent directive isHere
  unfold replaceDirective
  split
  case h_2 isNone =>
    refine ⟨unchanged ?_, rfl, rfl, rfl⟩
    intro directive here
    cases isNone.symm.trans here
  rename_i directive here
  split
  case isFalse absent =>
    refine ⟨unchanged ?_, rfl, rfl, rfl⟩
    intro other isHere
    cases here.symm.trans isHere
    simpa using absent
  have kept : (keptProcessing layer).1.map (·.text) = ((check_st_alloc layer).processing.getD layer.processing).map (·.text) := by
    unfold keptProcessing
    cases (check_st_alloc layer).processing with
    | some processing => rfl
    | none => exact texts_duplicate layer.processing layer.heap
  generalize keptProcessing layer = saved at kept
  obtain ⟨processing, heap⟩ := saved
  refine ⟨?_, ?_, rfl, rfl⟩
  · have set := @texts_set layer.processing p directive ⟨heap.next, msReplaceSubstring name value directive.text⟩ here
      (msReplaceSubstring name value) rfl
    exact congrArg (LayerValues.mk layer.values.strings layer.filter.type layer.values.filter layer.filter.insensitive) set
  · exact congrArg (LayerValues.mk (restoredValues layer).strings layer.filter.type (restoredValues layer).filter
      layer.filter.insensitive) kept

theorem prefix_of_modify {β : Type} (f : β → β) {list : List β} {count : Nat} (inside : count < list.length) :
    ((list.take count).map f ++ list.drop count).modify count f = (list.take (count + 1)).map f ++ list.drop (count + 1) := by
  induction count generalizing list with
  | zero =>
    cases list with
    | nil => cases inside
    | cons x list => simp
  | succ count ih =>
    cases list with
    | nil => cases inside
    | cons x list =>
      have rest := ih (Nat.lt_of_succ_lt_succ inside)
      simp only [take_succ_cons, map_cons, cons_append, drop_succ_cons, modify_succ_cons, rest]

theorem replaceProcessing_spec (name value : CString) (layer : ScaleLayer) (count : Nat) (bound : count ≤ layer.processing.length) :
    let after := (List.range count).foldl (replaceDirective name value) layer
    Grows layer after ∧ after.values = { layer.values with
        processing := (layer.values.processing.take count).map (msReplaceSubstring name value) ++ layer.values.processing.drop count } ∧
      restoredValues after = restoredValues layer ∧ (check_st_alloc after).filter = (check_st_alloc layer).filter ∧
      (check_st_alloc after).strings = (check_st_alloc layer).strings := by
  intro after
  induction count with
  | zero => exact ⟨.refl layer, rfl, rfl, rfl, rfl⟩
  | succ count ih =>
    obtain ⟨grows, values, restored, filter, strings⟩ := ih (by omega)
    have isAfter : after = replaceDirective name value ((List.range count).foldl (replaceDirective name value) layer) count := by
      show (List.range (count + 1)).foldl _ layer = _
      rw [range_succ, foldl_append]
      rfl
    obtain ⟨values', restored', filter', strings'⟩ := replaceDirective_spec name value
      ((List.range count).foldl (replaceDirective name value) layer) count
    have grows' := replaceDirective_grows name value ((List.range count).foldl (replaceDirective name value) layer) count
    rw [isAfter]
    refine ⟨grows.trans grows', ?_, restored'.trans restored, filter'.trans filter, strings'.trans strings⟩
    rw [values', values]
    have length : layer.values.processing.length = layer.processing.length := length_map _
    have inside : count < layer.values.processing.length := by omega
    exact congrArg (LayerValues.mk layer.values.strings layer.values.filterType layer.values.filter layer.values.insensitive)
      (prefix_of_modify (msReplaceSubstring name value) inside)

/-- The pairs were replaced in the layer, and a restoration would put back the original values. -/
structure Replacing (original : LayerValues) (pairs : List (CString × CString)) (layer : ScaleLayer) : Prop where
  strings : StringsReplaced original.strings (fun _ => pairs) layer
  filterType : layer.filter.type = original.filterType
  insensitive : layer.filter.insensitive = original.insensitive
  filter : StringReplaced original.filter pairs layer.filter.string (check_st_alloc layer).filter
  processing : layer.values.processing = original.processing.map (replaceAll pairs)
  restored : (restoredValues layer).processing = original.processing

theorem Replacing.values {original : LayerValues} (replacing : Replacing original pairs layer) :
    layer.values = original.replaced pairs := by
  apply LayerValues.ext
  · funext field
    exact (replacing.strings field).value
  · exact replacing.filterType
  · exact replacing.filter.value
  · exact replacing.insensitive
  · exact replacing.processing

theorem Replacing.restoredValues {original : LayerValues} (replacing : Replacing original pairs layer) :
    restoredValues layer = original := by
  apply LayerValues.ext
  · funext field
    exact (replacing.strings field).restored
  · exact replacing.filterType
  · exact replacing.filter.restored
  · exact replacing.insensitive
  · exact replacing.restored

/-- No string has two tokens to replace, and what is loaded for the filter is what stands in it. -/
structure ReplacedOnce (original : LayerValues) (pairs : List (CString × CString)) : Prop where
  strings : ∀ field text, original.strings field = some text → hits pairs text ≤ 1
  filter : ∀ text, original.filter = some text → hits pairs text ≤ 1
  loads : ∀ text name value, original.filter = some text →
    pairs.find? (fun pair => strstr text pair.1) = some (name, value) →
    loadExpressionString (msReplaceSubstring name value (withParentheses original.filterType text)) =
      some ⟨original.filterType, msReplaceSubstring name value text, original.insensitive⟩

theorem hits_of_front (front back : List (CString × CString)) (text : CString) : hits front text ≤ hits (front ++ back) text := by
  rw [hits_append]
  exact Nat.le_add_right _ _

theorem find_none_of_hits (none_found : hits pairs text = 0) : pairs.find? (fun pair => strstr text pair.1) = none := by
  induction pairs with
  | nil => rfl
  | cons pair pairs ih =>
    obtain ⟨name, value⟩ := pair
    rw [hits, Nat.add_eq_zero_iff] at none_found
    have absent : strstr text name = false := by simpa using none_found.1
    rw [msReplaceSubstring_absent value absent] at none_found
    rw [find?_cons_of_neg (by simp [absent]), ih none_found.2]

theorem replaceStrings_spec {original : LayerString → Option CString}
    (replaced : StringsReplaced original (fun _ => pairs) layer) {value : CString}
    (once : ∀ field text, original field = some text → hits (pairs ++ [(name, value)]) text ≤ 1) :
    let after := [.data, .tileindex, .tileitem, .filteritem].foldl (replaceString name value) layer
    StringsReplaced original (fun _ => pairs ++ [(name, value)]) after ∧ SameApartFromStrings layer after ∧ Grows layer after := by
  intro after
  obtain ⟨one, same₁, grows₁⟩ := replaceString_spec replaced (once .data)
  obtain ⟨two, same₂, grows₂⟩ := replaceString_spec one (once .tileindex)
  obtain ⟨three, same₃, grows₃⟩ := replaceString_spec two (once .tileitem)
  obtain ⟨four, same₄, grows₄⟩ := replaceString_spec three (once .filteritem)
  refine ⟨?_, ((same₁.trans same₂).trans same₃).trans same₄, ((grows₁.trans grows₂).trans grows₃).trans grows₄⟩
  intro field
  have here := four field
  cases field <;> exact here

theorem applyToken_spec {original : LayerValues} {rest : List (CString × CString)} {value : CString}
    (once : ReplacedOnce original (pairs ++ (name, value) :: rest)) (replacing : Replacing original pairs layer) :
    ∃ after, applyToken name value layer = some after ∧ Grows layer after ∧
      Replacing original (pairs ++ [(name, value)]) after := by
  have whole : pairs ++ (name, value) :: rest = (pairs ++ [(name, value)]) ++ rest := by simp
  have fieldOnce : ∀ field text, original.strings field = some text → hits (pairs ++ [(name, value)]) text ≤ 1 := by
    intro field text here
    have few := once.strings field text here
    rw [whole] at few
    exact (hits_of_front _ rest text).trans few
  have filterOnce : ∀ text, original.filter = some text → hits (pairs ++ [(name, value)]) text ≤ 1 := by
    intro text here
    have few := once.filter text here
    rw [whole] at few
    exact (hits_of_front _ rest text).trans few
  obtain ⟨strings, same, grows⟩ := replaceStrings_spec replacing.strings fieldOnce
  rw [applyToken]
  generalize [.data, .tileindex, .tileitem, .filteritem].foldl (replaceString name value) layer = replaced at strings same grows
  have filter : StringReplaced original.filter pairs replaced.filter.string (check_st_alloc replaced).filter := by
    rw [same.filter, same.savedFilter]
    exact replacing.filter
  have loads : ∀ text, original.filter = some text → hits pairs text = 0 → strstr text name = true →
      loadExpressionString (msReplaceSubstring name value (withParentheses replaced.filter.type text)) =
        some ⟨replaced.filter.type, msReplaceSubstring name value text, replaced.filter.insensitive⟩ := by
    intro text here none_found found
    rw [same.filter, replacing.filterType, replacing.insensitive]
    apply once.loads text name value here
    rw [find?_append, find_none_of_hits none_found, none_or, find?_cons_of_pos (by simpa using found)]
  obtain ⟨filtered, run, grows', filter', type, insensitive, strings', savedStrings', processing', savedProcessing'⟩ :=
    replaceFilter_spec filter filterOnce loads
  obtain ⟨grows'', values, restored, savedFilter, savedStrings''⟩ :=
    replaceProcessing_spec name value filtered filtered.processing.length le_rfl
  rw [run, bind_eq_bind, bind_some]
  refine ⟨_, rfl, (grows.trans grows').trans grows'', ?_⟩
  generalize (List.range filtered.processing.length).foldl (replaceDirective name value) filtered = after at *
  have whole : filtered.values.processing.length = filtered.processing.length := length_map _
  rw [← whole, take_length, drop_length, append_nil] at values
  constructor
  · intro field
    have here : StringReplaced (original.strings field) (pairs ++ [(name, value)]) (filtered.strings field)
        ((check_st_alloc filtered).strings field) := by
      rw [strings', savedStrings']
      exact strings field
    apply here.of_texts
    · exact congrFun (congrArg LayerValues.strings values) field
    · exact congrFun (congrArg LayerValues.strings restored) field
    · rw [savedStrings'']
  · exact (congrArg LayerValues.filterType values).trans (type.trans (by rw [same.filter, replacing.filterType]))
  · exact (congrArg LayerValues.insensitive values).trans (insensitive.trans (by rw [same.filter, replacing.insensitive]))
  · apply filter'.of_texts
    · exact congrArg LayerValues.filter values
    · exact congrArg LayerValues.filter restored
    · exact savedFilter
  · have before : filtered.values.processing = layer.values.processing := by
      show filtered.processing.map (·.text) = layer.processing.map (·.text)
      rw [processing', same.processing]
    rw [congrArg LayerValues.processing values, before, replacing.processing, List.map_map]
    apply map_congr_left
    intro text _
    exact (replaceAll_snoc pairs name value text).symm
  · rw [congrArg LayerValues.processing restored, ← replacing.restored]
    show ((check_st_alloc filtered).processing.getD filtered.processing).map (·.text) =
      ((check_st_alloc layer).processing.getD layer.processing).map (·.text)
    rw [processing', savedProcessing', same.processing, same.savedProcessing]

section Calls
variable {α : Type} {scaletokens : List (ScaleTokenObj α)}
variable {layer : ScaleLayer}

theorem msLayerRestoreFromScaletokens_spec (some_ : scaletokens ≠ []) (restorable : FilterRestorable layer) :
    ∃ after, msLayerRestoreFromScaletokens scaletokens layer = some after ∧ Grows layer after ∧ after.orig_st = none ∧
      after.values = restoredValues layer := by
  unfold msLayerRestoreFromScaletokens
  cases isSaved : layer.orig_st with
  | none =>
    refine ⟨layer, rfl, .refl layer, isSaved, ?_⟩
    simp [ScaleLayer.values, restoredValues, check_st_alloc, isSaved, OriginalScaleTokenStrings.empty]
  | some saved =>
    have kept : check_st_alloc layer = saved := by simp [check_st_alloc, isSaved]
    obtain ⟨data, heap, run, isData, next, freed⟩ := restoreString_spec saved layer .data
    obtain ⟨tileindex, heap₁, run₁, isTileindex, next₁, freed₁⟩ :=
      restoreString_spec saved { layer with strings := data, heap } .tileindex
    obtain ⟨tileitem, heap₂, run₂, isTileitem, next₂, freed₂⟩ :=
      restoreString_spec saved { layer with strings := tileindex, heap := heap₁ } .tileitem
    have filterRestorable : ∀ string, saved.filter = some string → layer.filter.type ≠ .MS_EXPRESSION ∧
        loadExpressionString string.text = some ⟨layer.filter.type, string.text, layer.filter.insensitive⟩ := by
      rw [← kept]
      exact restorable
    obtain ⟨string, heap₃, run₃, text, next₃, freed₃⟩ :=
      @restoreFilter_spec { layer with strings := tileitem, heap := heap₂ } saved filterRestorable
    obtain ⟨filteritem, heap₄, run₄, isFilteritem, next₄, freed₄⟩ := restoreString_spec saved
      { layer with strings := tileitem, filter := { layer.filter with string }, heap := heap₃ } .filteritem
    obtain ⟨heap₅, run₅, next₅, freed₅⟩ := restoreProcessing_spec saved
      { layer with strings := filteritem, filter := { layer.filter with string }, heap := heap₄ }
    dsimp only at run₁ run₂ run₃ run₄ run₅ next next₁ next₂ next₃ next₄ next₅ freed freed₁ freed₂ freed₃ freed₄ freed₅ text
    have fields : filteritem = fun field => (saved.strings field).or (layer.strings field) := by
      funext field
      rw [isFilteritem, isTileitem, isTileindex, isData]
      cases field <;> simp [update]
    have nonempty : scaletokens.isEmpty = false := by simpa using some_
    refine ⟨{ layer with
      strings := filteritem, filter := { layer.filter with string }
      processing := saved.processing.getD layer.processing, orig_st := none, heap := heap₅ }, ?_, ⟨?_, ?_⟩, rfl, ?_⟩
    · simp only [nonempty, Bool.false_eq_true, if_false, foldl_cons, foldl_nil, run, run₁, run₂, run₃, run₄, run₅,
        bind_eq_bind, bind_some]
    · show layer.heap.next ≤ heap₅.next
      omega
    · intro address
      have four : countAt address (stringsOf saved.strings) = countAt address (saved.strings .data).toList +
          countAt address (saved.strings .tileindex).toList + countAt address (saved.strings .tileitem).toList +
          countAt address (saved.strings .filteritem).toList := countAt_stringsOf address saved.strings
      have none_saved : countAt address (savedStrings .empty) = 0 := rfl
      have f := freed address
      have f₁ := freed₁ address
      have f₂ := freed₂ address
      have f₃ := freed₃ address
      have f₄ := freed₄ address
      have f₅ := freed₅ address
      show heap₅.freed.count address + countAt address (stringsOf filteritem ++ string.toList ++
        saved.processing.getD layer.processing) + countAt address (savedStrings .empty) =
        uses layer address + newAt address layer.heap.next heap₅.next
      have last : heap₅.next = heap₃.next := by omega
      have first : heap₂.next = layer.heap.next := by omega
      rw [none_saved, last]
      rw [first] at f₃
      simp only [uses, kept, liveStrings, savedStrings, countAt_append]
      omega
    · show ({ layer with
        strings := filteritem, filter := { layer.filter with string }
        processing := saved.processing.getD layer.processing, orig_st := none, heap := heap₅ } : ScaleLayer).values = _
      simp only [ScaleLayer.values, restoredValues, kept, fields, text]

variable [LT α] [LE α] [Zero α] [DecidableLT α] [DecidableLE α]

def tokensAt (scale : α) (scaletokens : List (ScaleTokenObj α)) : List (CString × CString) :=
  scaletokens.map fun st => (st.name, (tokenValue scale st).getD [])

def EntriesCover (scaletokens : List (ScaleTokenObj α)) (scales : List α) : Prop :=
  ∀ st ∈ scaletokens, st.name ≠ [] ∧ ∀ scale ∈ scales, (tokenValue scale st).isSome

theorem applyTokens_spec {scale : α} {tokens : List (ScaleTokenObj α)} (covers : EntriesCover tokens [scale])
    {original : LayerValues} {pairs : List (CString × CString)}
    (once : ReplacedOnce original (pairs ++ tokensAt scale tokens)) (replacing : Replacing original pairs layer) :
    ∃ after, applyTokens scale tokens layer = some after ∧ Grows layer after ∧
      Replacing original (pairs ++ tokensAt scale tokens) after := by
  induction tokens generalizing pairs layer with
  | nil =>
    refine ⟨layer, rfl, .refl layer, ?_⟩
    rw [tokensAt, map_nil, append_nil]
    exact replacing
  | cons st tokens ih =>
    obtain ⟨value, isValue⟩ := isSome_iff_exists.mp ((covers st (by simp)).2 scale (by simp))
    have pair : tokensAt scale (st :: tokens) = (st.name, value) :: tokensAt scale tokens := by
      rw [tokensAt, map_cons, isValue]
      rfl
    rw [pair] at once ⊢
    obtain ⟨between, run, grows, replaced⟩ := applyToken_spec once replacing
    rw [append_cons] at once ⊢
    obtain ⟨after, runs, grows', done⟩ := ih (fun other member => covers other (by simp [member])) once replaced
    refine ⟨after, ?_, grows.trans grows', done⟩
    rw [applyTokens, foldlM_cons, isValue, bind_some, run]
    exact runs

structure FreshLayer (original : ScaleLayer) : Prop where
  unsaved : original.orig_st = none
  once : ∀ address, uses original address ≤ 1
  allocated : ∀ address, original.heap.next ≤ address → uses original address = 0

def KeepsStrings (scaletokens : List (ScaleTokenObj α)) (original layer : ScaleLayer) (call : ScaleCall α) : Prop :=
  FilterRestorable layer ∧
    match call with
    | .msLayerApplyScaletokens scale => ReplacedOnce original.values (tokensAt scale scaletokens)
    | .msLayerRestoreFromScaletokens => True

def scalesOf (calls : List (ScaleCall α)) : List α :=
  calls.filterMap fun
    | .msLayerApplyScaletokens scale => some scale
    | .msLayerRestoreFromScaletokens => none

def KeepsThroughout (scaletokens : List (ScaleTokenObj α)) (original : ScaleLayer) : ScaleLayer → List (ScaleCall α) → Prop
  | _, [] => True
  | layer, call :: calls => KeepsStrings scaletokens original layer call ∧
    ∀ next, call.run scaletokens layer = some next → KeepsThroughout scaletokens original next calls

def expectedValues (scaletokens : List (ScaleTokenObj α)) (original : ScaleLayer) : ScaleCall α → LayerValues
  | .msLayerApplyScaletokens scale => original.values.replaced (tokensAt scale scaletokens)
  | .msLayerRestoreFromScaletokens => original.values

/-- The layer has these values, no string was freed twice, and no original string was lost. -/
structure StringsSound (original : ScaleLayer) (expected : LayerValues) (layer : ScaleLayer) : Prop where
  values : layer.values = expected
  once : ∀ address, layer.heap.freed.count address ≤ 1
  kept : ∀ string ∈ liveStrings original, string.address ∈ layer.heap.freed ∨
    string.address ∈ (liveStrings layer ++ savedStrings (check_st_alloc layer)).map (·.address)

def StringsHold (scaletokens : List (ScaleTokenObj α)) (original : ScaleLayer) : ScaleLayer → List (ScaleCall α) → Prop
  | _, [] => True
  | layer, call :: calls => ∃ next, call.run scaletokens layer = some next ∧
    StringsSound original (expectedValues scaletokens original call) next ∧ StringsHold scaletokens original next calls

structure BetweenCalls (scaletokens : List (ScaleTokenObj α)) (original layer : ScaleLayer) : Prop where
  grows : Grows original layer
  replacing : ∃ pairs, Replacing original.values pairs layer
  unsaved : scaletokens = [] → layer.orig_st = none

variable {original : ScaleLayer}

theorem replacing_nil (values : layer.values = original.values) (unsaved : layer.orig_st = none) :
    Replacing original.values [] layer := by
  have empty : check_st_alloc layer = .empty := by rw [check_st_alloc, unsaved]; rfl
  have identity (text : Option CString) : text.map (replaceAll []) = text := by cases text <;> rfl
  constructor
  · intro field
    have same : (layer.strings field).map (·.text) = original.values.strings field := by rw [← values]; rfl
    exact ⟨by rw [same, identity], by rw [empty]; exact same, fun _ _ _ => by rw [empty]; rfl⟩
  · exact congrArg LayerValues.filterType values
  · exact congrArg LayerValues.insensitive values
  · have same : layer.filter.string.map (·.text) = original.values.filter := congrArg LayerValues.filter values
    exact ⟨by rw [same, identity], by rw [empty]; exact same, fun _ _ _ => by rw [empty]; rfl⟩
  · rw [values]
    exact (List.map_id _).symm
  · rw [← values]
    show ((check_st_alloc layer).processing.getD layer.processing).map (·.text) = layer.processing.map (·.text)
    rw [empty]
    rfl

theorem stringsSound (fresh : FreshLayer original) (grows : Grows original layer) {expected : LayerValues}
    (values : layer.values = expected) : StringsSound original expected layer where
  values := values
  once address := by
    have total := grows.uses address
    have first := fresh.once address
    have later := fresh.allocated address
    unfold uses at total
    unfold newAt at total
    split at total
    · rename_i new
      have zero := later new.1
      unfold uses at zero first
      omega
    · unfold uses at first
      omega
  kept string member := by
    have total := grows.uses string.address
    have held : 0 < countAt string.address (liveStrings original) := by
      rw [countAt, countP_pos_iff]
      exact ⟨string, member, by simp⟩
    by_cases freed : string.address ∈ layer.heap.freed
    · exact .inl freed
    · refine .inr ?_
      have none_freed := count_eq_zero.mpr freed
      unfold uses at total
      have positive : 0 < countAt string.address (liveStrings layer ++ savedStrings (check_st_alloc layer)) := by
        rw [countAt_append]
        omega
      rw [countAt, countP_pos_iff] at positive
      obtain ⟨other, inside, same⟩ := positive
      rw [decide_eq_true_eq] at same
      exact List.mem_map.mpr ⟨other, inside, same⟩

theorem call_sound {call : ScaleCall α} (covers : EntriesCover scaletokens (scalesOf [call]))
    (fresh : FreshLayer original) (between : BetweenCalls scaletokens original layer)
    (keeps : KeepsStrings scaletokens original layer call) : ∃ next, call.run scaletokens layer = some next ∧
      StringsSound original (expectedValues scaletokens original call) next ∧
      BetweenCalls scaletokens original next := by
  obtain ⟨grows, ⟨pairs, replacing⟩, unsaved⟩ := between
  obtain ⟨restorable, once⟩ := keeps
  by_cases none_given : scaletokens = []
  · have none_saved := unsaved none_given
    have values : layer.values = original.values := by
      rw [← replacing.restoredValues, ScaleLayer.values, restoredValues, check_st_alloc, none_saved]
      rfl
    have same : call.run scaletokens layer = some layer := by
      subst none_given
      cases call with
      | msLayerApplyScaletokens scale => rfl
      | msLayerRestoreFromScaletokens =>
        show msLayerRestoreFromScaletokens [] layer = some layer
        rw [msLayerRestoreFromScaletokens, none_saved]
    refine ⟨layer, same, stringsSound fresh grows ?_, ⟨grows, ⟨pairs, replacing⟩, unsaved⟩⟩
    subst none_given
    cases call with
    | msLayerApplyScaletokens scale => exact (replacing_nil values none_saved).values
    | msLayerRestoreFromScaletokens => exact values
  obtain ⟨restored, run, grows', none_saved, values⟩ := msLayerRestoreFromScaletokens_spec none_given restorable
  rw [replacing.restoredValues] at values
  have ready := replacing_nil values none_saved
  cases call with
  | msLayerRestoreFromScaletokens =>
    exact ⟨restored, run, stringsSound fresh (grows.trans grows') values,
      ⟨grows.trans grows', ⟨[], ready⟩, fun impossible => absurd impossible none_given⟩⟩
  | msLayerApplyScaletokens scale =>
    obtain ⟨next, runs, grows'', replaced⟩ := applyTokens_spec covers once ready
    have nonempty : scaletokens.isEmpty = false := by simpa using none_given
    refine ⟨next, ?_, stringsSound fresh ((grows.trans grows').trans grows'') replaced.values,
      ⟨(grows.trans grows').trans grows'', ⟨_, replaced⟩, fun impossible => absurd impossible none_given⟩⟩
    show msLayerApplyScaletokens scaletokens scale layer = some next
    rw [msLayerApplyScaletokens, nonempty, if_neg Bool.false_ne_true, run, bind_some, runs]

theorem calls_sound {calls : List (ScaleCall α)} (covers : EntriesCover scaletokens (scalesOf calls))
    (fresh : FreshLayer original) (between : BetweenCalls scaletokens original layer)
    (keeps : KeepsThroughout scaletokens original layer calls) : StringsHold scaletokens original layer calls := by
  induction calls generalizing layer with
  | nil => trivial
  | cons call calls ih =>
    obtain ⟨here, later⟩ := keeps
    have parts : scalesOf (call :: calls) = scalesOf [call] ++ scalesOf calls := by
      rw [← singleton_append, scalesOf, filterMap_append]
      rfl
    rw [parts] at covers
    have coversHere : EntriesCover scaletokens (scalesOf [call]) := fun st member =>
      ⟨(covers st member).1, fun scale inside => (covers st member).2 scale (mem_append_left _ inside)⟩
    have coversLater : EntriesCover scaletokens (scalesOf calls) := fun st member =>
      ⟨(covers st member).1, fun scale inside => (covers st member).2 scale (mem_append_right _ inside)⟩
    obtain ⟨next, run, sound, still⟩ := call_sound coversHere fresh between here
    exact ⟨next, run, sound, ih coversLater still (later next run)⟩

/-- In every sequence of calls that meet the condition, the tokens are replaced in the original values, whatever scales
were applied before, and a restoration puts the original values back. -/
theorem scaletokens_undone {calls : List (ScaleCall α)} (covers : EntriesCover scaletokens (scalesOf calls))
    {original : ScaleLayer} (fresh : FreshLayer original) (keeps : KeepsThroughout scaletokens original original calls) :
    StringsHold scaletokens original original calls :=
  calls_sound covers fresh ⟨.refl original, ⟨[], replacing_nil rfl fresh.unsaved⟩, fun _ => fresh.unsaved⟩ keeps

end Calls

def layerWith (data filter : String) : ScaleLayer where
  strings := Function.update (fun _ => none) .data (some ⟨0, ascii data⟩)
  filter := ⟨.MS_STRING, some ⟨1, ascii filter⟩, false⟩
  processing := []
  orig_st := none
  heap := ⟨2, []⟩

def sizeToken (name : String) : ScaleTokenObj Int := ⟨ascii name, [⟨0, 1000, ascii "fine"⟩, ⟨1000, 100000, ascii "coarse"⟩]⟩

theorem freshLayer_layerWith (data filter : String) : FreshLayer (layerWith data filter) := by
  have total (address : Nat) : uses (layerWith data filter) address =
      (if 0 = address then 1 else 0) + if 1 = address then 1 else 0 := by
    simp [uses, layerWith, liveStrings, savedStrings, stringsOf, check_st_alloc, OriginalScaleTokenStrings.empty, countAt,
      List.countP_cons, Nat.add_comm]
  refine ⟨rfl, ?_, ?_⟩
  · intro address
    rw [total]
    split <;> split <;> omega
  · intro address beyond
    have beyond : 2 ≤ address := beyond
    rw [total, if_neg (by omega), if_neg (by omega)]

theorem scaletokens_undone_twice :
    StringsHold [sizeToken "%size%"] (layerWith "roads_%size%" "kind") (layerWith "roads_%size%" "kind")
      [.msLayerApplyScaletokens 500, .msLayerApplyScaletokens 5000, .msLayerRestoreFromScaletokens] := by
  have once (scale : Int) (pairs : tokensAt scale [sizeToken "%size%"] = [(ascii "%size%", ascii "fine")] ∨
      tokensAt scale [sizeToken "%size%"] = [(ascii "%size%", ascii "coarse")]) :
      ReplacedOnce (layerWith "roads_%size%" "kind").values (tokensAt scale [sizeToken "%size%"]) := by
    refine ⟨?_, ?_, ?_⟩
    · intro field text here
      rcases pairs with same | same <;> rw [same] <;> simp only [hits] <;> split <;> simp
    · intro text here
      rcases pairs with same | same <;> rw [same] <;> simp only [hits] <;> split <;> simp
    · intro text name value here found
      obtain rfl : ascii "kind" = text := Option.some.inj here
      have absent : strstr (ascii "kind") (ascii "%size%") = false := by decide +kernel
      rcases pairs with same | same <;> rw [same] at found <;> simp [absent] at found
  have restorable (layer : ScaleLayer) (none_saved : (check_st_alloc layer).filter.isNone = true) : FilterRestorable layer := by
    intro string here
    rw [here] at none_saved
    cases none_saved
  apply scaletokens_undone
  · intro st member
    obtain rfl := List.mem_singleton.mp member
    refine ⟨by decide, ?_⟩
    decide
  · exact freshLayer_layerWith _ _
  · refine ⟨⟨restorable _ rfl, once 500 (.inl rfl)⟩, ?_⟩
    intro first run
    have unsaved : ((ScaleCall.run [sizeToken "%size%"] (.msLayerApplyScaletokens 500) (layerWith "roads_%size%" "kind")).map
        fun layer => (check_st_alloc layer).filter.isNone) = some true := by decide +kernel
    have unsaved' : (((ScaleCall.run [sizeToken "%size%"] (.msLayerApplyScaletokens 500) (layerWith "roads_%size%" "kind")).bind
        (ScaleCall.run [sizeToken "%size%"] (.msLayerApplyScaletokens 5000))).map
        fun layer => (check_st_alloc layer).filter.isNone) = some true := by decide +kernel
    rw [run] at unsaved unsaved'
    refine ⟨⟨restorable _ (Option.some.inj unsaved), once 5000 (.inr rfl)⟩, ?_⟩
    intro second runs
    rw [Option.bind_some, runs] at unsaved'
    exact ⟨⟨restorable _ (Option.some.inj unsaved'), trivial⟩, fun _ _ => trivial⟩

/-- Two tokens in one string: what is saved for the second one has the first one replaced already. -/
theorem scaletokens_lost : ¬ ∀ original (calls : List (ScaleCall Int)), FreshLayer original →
    EntriesCover [sizeToken "%size%", sizeToken "%kind%"] (scalesOf calls) →
    StringsHold [sizeToken "%size%", sizeToken "%kind%"] original original calls := by
  intro always
  have holds := always (layerWith "%size%_%kind%" "kind") [.msLayerApplyScaletokens 500, .msLayerRestoreFromScaletokens]
    (freshLayer_layerWith _ _) (by unfold EntriesCover; decide)
  obtain ⟨first, run, _, second, runs, sound, _⟩ := holds
  have data : (((ScaleCall.run [sizeToken "%size%", sizeToken "%kind%"] (.msLayerApplyScaletokens 500)
      (layerWith "%size%_%kind%" "kind")).bind
      (ScaleCall.run [sizeToken "%size%", sizeToken "%kind%"] .msLayerRestoreFromScaletokens)).map
      fun layer => layer.values.strings .data) = some (some (ascii "fine_%kind%")) := by decide +kernel
  rw [run, Option.bind_some, runs, Option.map_some, sound.values] at data
  exact absurd data (by decide)

end MapServer
