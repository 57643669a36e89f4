import MapServer.Query.FilterSwap

namespace MapServer.FilterSwap
open List

structure LeftAsFound (query : QueryObj) (visit : Visit) (freed : List Nat) : Prop where
  filteritem : visit.lp.filteritem = visit.before.filteritem
  string : visit.lp.filter.text = visit.before.filter.text
  type : visit.lp.filter.type = visit.before.filter.type
  flags : visit.lp.filter.flags = visit.before.filter.flags
  apart : ∀ a ∈ visit.lp.addresses, a ∉ query.addresses
  once : ∀ saved, visit.saved = some saved → visit.releases = 1 ∧ ∀ a ∈ saved.addresses, freed.count a = 1

def filterMerges (query : QueryObj) (lp : LayerObj) : Bool :=
  lp.filter.string.isNone ||
    ((filterTranslateToLogical query.filter query.filteritem).isSome && (filterTranslateToLogical lp.filter lp.filteritem).isSome)

def countsWithoutMemory (query : QueryObj) (lp : LayerObj) : Bool :=
  lp.msLayerWhichItems.1 && countsAlone query lp && decide (lp.msLayerGetShapeCount.1 ≥ 0) && !lp.malloc

/-- The visit to the layer comes to the `MS_CHECK_ALLOC` and fails there. -/
def returnsFromCheckAlloc (query : QueryObj) (lp : LayerObj) : Bool :=
  lp.shown && lp.msLayerOpen && filterMerges query lp && countsWithoutMemory query lp

/-- What was done to an expression holds and frees only its own memory and memory allocated meanwhile. -/
structure Works (exp : ExpressionObj) (heap : StringHeap) (done : ExpressionObj) (left : StringHeap) : Prop where
  later : heap.next ≤ left.next
  held : ∀ a ∈ done.addresses, a ∈ exp.addresses ∨ heap.next ≤ a ∧ a < left.next
  freed : ∀ a ∈ left.freed, a ∈ heap.freed ∨ a ∈ exp.addresses ∨ heap.next ≤ a ∧ a < left.next
  spared : ∀ a < heap.next, a ∉ exp.addresses → left.freed.count a = heap.freed.count a

namespace Works
variable {exp done last : ExpressionObj} {heap left final : StringHeap}

theorem refl (exp : ExpressionObj) (heap : StringHeap) : Works exp heap exp heap :=
  ⟨le_rfl, fun _ holds => .inl holds, fun _ freed => .inl freed, fun _ _ _ => rfl⟩

theorem trans (first : Works exp heap done left) (second : Works done left last final) : Works exp heap last final where
  later := first.later.trans second.later
  held a holds := by
    have := first.later
    have := second.later
    rcases second.held a holds with earlier | ⟨_, _⟩
    · rcases first.held a earlier with earlier | ⟨_, _⟩
      · exact .inl earlier
      · exact .inr ⟨by omega, by omega⟩
    · exact .inr ⟨by omega, by omega⟩
  freed a freed := by
    have := first.later
    have := second.later
    rcases second.freed a freed with earlier | held | ⟨_, _⟩
    · rcases first.freed a earlier with earlier | held | ⟨_, _⟩
      · exact .inl earlier
      · exact .inr (.inl held)
      · exact .inr (.inr ⟨by omega, by omega⟩)
    · rcases first.held a held with held | ⟨_, _⟩
      · exact .inr (.inl held)
      · exact .inr (.inr ⟨by omega, by omega⟩)
    · exact .inr (.inr ⟨by omega, by omega⟩)
  spared a early foreign := by
    have unheld : a ∉ done.addresses := by
      intro holds
      rcases first.held a holds with holds | ⟨_, _⟩
      · exact foreign holds
      · omega
    rw [second.spared a (early.trans_le first.later) unheld, first.spared a early foreign]

theorem of_release {addresses : List Nat} (owned : ∀ a ∈ addresses, a ∈ exp.addresses)
    (kept : ∀ a ∈ done.addresses, a ∈ exp.addresses) : Works exp heap done (release addresses heap) where
  later := le_rfl
  held a holds := .inl (kept a holds)
  freed a freed := by
    rcases mem_append.mp freed with new | earlier
    · exact .inr (.inl (owned a new))
    · exact .inl earlier
  spared a _ foreign := by
    have unfreed : addresses.count a = 0 := count_eq_zero.mpr fun freed => foreign (owned a freed)
    rw [release, count_append, unfreed, Nat.zero_add]

theorem of_next {next : Nat} (later : heap.next ≤ next)
    (held : ∀ a ∈ done.addresses, a ∈ exp.addresses ∨ heap.next ≤ a ∧ a < next) :
    Works exp heap done { heap with next } :=
  ⟨later, held, fun _ freed => .inl freed, fun _ _ _ => rfl⟩

end Works

theorem mem_addresses {exp : ExpressionObj} {a : Nat} : a ∈ exp.addresses ↔
    a ∈ pointed exp.string ∨ a ∈ pointed exp.native_string ∨ a ∈ exp.regex.toList ∨
      a ∈ exp.tokens.flatMap (·.addresses) := by
  simp only [ExpressionObj.addresses, mem_append, or_assoc]

theorem msFreeExpressionTokens_works (exp : ExpressionObj) (heap : StringHeap) :
    Works exp heap (msFreeExpressionTokens exp heap).1 (msFreeExpressionTokens exp heap).2 := by
  refine .of_release (fun a owned => mem_addresses.mpr (.inr (.inr (.inr owned)))) fun a kept => ?_
  rcases mem_addresses.mp kept with held | held | held | held
  · exact mem_addresses.mpr (.inl held)
  · exact mem_addresses.mpr (.inr (.inl held))
  · exact mem_addresses.mpr (.inr (.inr (.inl held)))
  · simp [msFreeExpressionTokens] at held

theorem freeRegex_works (exp : ExpressionObj) (heap : StringHeap) : Works exp heap exp (freeRegex exp heap) := by
  unfold freeRegex
  split
  · exact .of_release (fun a owned => mem_addresses.mpr (.inr (.inr (.inl owned)))) fun _ kept => kept
  · exact .refl exp heap

theorem msFreeExpression_works (exp : ExpressionObj) (heap : StringHeap) :
    Works exp heap (msFreeExpression exp heap).1 (msFreeExpression exp heap).2 := by
  have string : Works exp heap exp (heap.msFree exp.string) :=
    .of_release (fun a owned => mem_addresses.mpr (.inl owned)) fun _ kept => kept
  have native : Works exp (heap.msFree exp.string) exp ((heap.msFree exp.string).msFree exp.native_string) :=
    .of_release (fun a owned => mem_addresses.mpr (.inr (.inl owned))) fun _ kept => kept
  have regex := freeRegex_works exp ((heap.msFree exp.string).msFree exp.native_string)
  have emptied (heap : StringHeap) : Works exp heap msInitExpression (msFreeExpressionTokens exp heap).2 :=
    .of_release (fun a owned => mem_addresses.mpr (.inr (.inr (.inr owned)))) nofun
  exact ((string.trans native).trans regex).trans (emptied _)

theorem msStrdup_works {exp done : ExpressionObj} (text : CString) (heap : StringHeap)
    (held : ∀ a ∈ done.addresses, a ∈ exp.addresses ∨ a = heap.next) :
    Works exp heap done (heap.msStrdup text).2 := by
  refine .of_next (Nat.le_succ heap.next) fun a holds => ?_
  rcases held a holds with earlier | rfl
  · exact .inl earlier
  · exact .inr ⟨le_rfl, Nat.lt_succ_self _⟩

theorem mem_pointed_some {string : CharPtr} {a : Nat} : a ∈ pointed (some string) ↔ a = string.address := by
  simp [pointed]

theorem msCopyExpression_works (dst src : ExpressionObj) (heap : StringHeap) :
    Works dst heap (msCopyExpression dst src heap).1 (msCopyExpression dst src heap).2 := by
  have regex := freeRegex_works dst heap
  have string : Works dst (freeRegex dst heap) dst ((freeRegex dst heap).msFree dst.string) :=
    .of_release (fun a owned => mem_addresses.mpr (.inl owned)) fun _ kept => kept
  refine (regex.trans string).trans ?_
  unfold msCopyExpression MS_COPYSTRING
  cases source : src.string with
  | none =>
    refine .of_next le_rfl fun a holds => .inl ?_
    rcases mem_addresses.mp holds with held | held | held | held
    · simp [pointed] at held
    · exact mem_addresses.mpr (.inr (.inl held))
    · simp at held
    · exact mem_addresses.mpr (.inr (.inr (.inr held)))
  | some string =>
    refine msStrdup_works string.text _ fun a holds => ?_
    rcases mem_addresses.mp holds with held | held | held | held
    · exact .inr (mem_pointed_some.mp held)
    · exact .inl (mem_addresses.mpr (.inr (.inl held)))
    · simp at held
    · exact .inl (mem_addresses.mpr (.inr (.inr (.inr held))))

theorem newToken_works (source : TokenSource) (heap : StringHeap) : (newToken source heap).2.freed = heap.freed ∧
    heap.next ≤ (newToken source heap).2.next ∧
      ∀ a ∈ (newToken source heap).1.addresses, heap.next ≤ a ∧ a < (newToken source heap).2.next := by
  rcases source with ⟨_ | text, _ | _⟩ <;>
    refine ⟨rfl, by simp [newToken, StringHeap.msStrdup] <;> omega, fun a held => ?_⟩ <;>
    simp [newToken, StringHeap.msStrdup, TokenListNodeObj.addresses, pointed] at held ⊢ <;> omega

theorem newTokens_works (sources : List TokenSource) (heap : StringHeap) : (newTokens sources heap).2.freed = heap.freed ∧
    heap.next ≤ (newTokens sources heap).2.next ∧
      ∀ a ∈ (newTokens sources heap).1.flatMap (·.addresses), heap.next ≤ a ∧ a < (newTokens sources heap).2.next := by
  induction sources generalizing heap with
  | nil => exact ⟨rfl, le_rfl, nofun⟩
  | cons source rest ih =>
    obtain ⟨freed, later, new⟩ := newToken_works source heap
    obtain ⟨freedRest, laterRest, newRest⟩ := ih (newToken source heap).2
    refine ⟨freedRest.trans freed, later.trans laterRest, fun a held => ?_⟩
    rcases mem_append.mp (flatMap_cons ▸ held) with held | held
    · exact ⟨(new a held).1, (new a held).2.trans_le laterRest⟩
    · exact ⟨later.trans (newRest a held).1, (newRest a held).2⟩

theorem step_works (step : FilterStep) (exp : ExpressionObj) (heap : StringHeap) :
    Works exp heap (step.run exp heap).1 (step.run exp heap).2 := by
  cases step with
  | msFreeExpressionTokens => exact msFreeExpressionTokens_works exp heap
  | msTokenizeExpression sources =>
    obtain ⟨freed, later, new⟩ := newTokens_works sources (msFreeExpressionTokens exp heap).2
    refine (msFreeExpressionTokens_works exp heap).trans ⟨later, fun a holds => ?_, fun a held => .inl (freed ▸ held),
      fun a _ _ => congrArg (List.count a) freed⟩
    rcases mem_addresses.mp holds with held | held | held | held
    · exact .inl (mem_addresses.mpr (.inl held))
    · exact .inl (mem_addresses.mpr (.inr (.inl held)))
    · exact .inl (mem_addresses.mpr (.inr (.inr (.inl held))))
    · exact .inr (new a held)
  | msLayerTranslateFilter native_string =>
    have native : Works exp heap exp (heap.msFree exp.native_string) :=
      .of_release (fun a owned => mem_addresses.mpr (.inr (.inl owned))) fun _ kept => kept
    refine native.trans (msStrdup_works native_string _ fun a holds => ?_)
    rcases mem_addresses.mp holds with held | held | held | held
    · exact .inl (mem_addresses.mpr (.inl held))
    · exact .inr (mem_pointed_some.mp held)
    · exact .inl (mem_addresses.mpr (.inr (.inr (.inl held))))
    · exact .inl (mem_addresses.mpr (.inr (.inr (.inr held))))
  | compileRegex =>
    unfold FilterStep.run
    by_cases compiles : exp.type = .MS_REGEX ∧ exp.regex = none
    · rw [if_pos compiles]
      refine .of_next (Nat.le_succ heap.next) fun a holds => ?_
      rcases mem_addresses.mp holds with held | held | held | held
      · exact .inl (mem_addresses.mpr (.inl held))
      · exact .inl (mem_addresses.mpr (.inr (.inl held)))
      · obtain rfl : a = heap.next := by simpa using held
        exact .inr ⟨le_rfl, Nat.lt_succ_self _⟩
      · exact .inl (mem_addresses.mpr (.inr (.inr (.inr held))))
    · rw [if_neg compiles]
      exact .refl exp heap
  | exchange string type flags =>
    refine (msFreeExpression_works exp heap).trans ?_
    cases string with
    | none => exact .refl _ _
    | some text =>
      refine msStrdup_works text _ fun a holds => ?_
      rcases mem_addresses.mp holds with held | held | held | held
      · exact .inr (mem_pointed_some.mp held)
      · exact .inl (mem_addresses.mpr (.inr (.inl held)))
      · exact .inl (mem_addresses.mpr (.inr (.inr (.inl held))))
      · exact .inl (mem_addresses.mpr (.inr (.inr (.inr held))))

theorem runSteps_works (steps : List FilterStep) (exp : ExpressionObj) (heap : StringHeap) :
    Works exp heap (runSteps steps exp heap).1 (runSteps steps exp heap).2 := by
  induction steps generalizing exp heap with
  | nil => exact .refl exp heap
  | cons step rest ih => exact (step_works step exp heap).trans (ih _ _)

theorem mergeFilters_works (filter1 : ExpressionObj) (filteritem1 : Option CharPtr) (filter2 : ExpressionObj)
    (filteritem2 : Option CharPtr) (heap : StringHeap) :
    Works msInitExpression heap (mergeFilters filter1 filteritem1 filter2 filteritem2 heap).1
      (mergeFilters filter1 filteritem1 filter2 filteritem2 heap).2 := by
  unfold mergeFilters
  cases filterTranslateToLogical filter1 filteritem1 with
  | none => exact ⟨le_rfl, nofun, fun _ freed => .inl freed, fun _ _ _ => rfl⟩
  | some text1 =>
    cases filterTranslateToLogical filter2 filteritem2 with
    | none =>
      refine ⟨Nat.le_succ _, nofun, fun a freed => ?_, fun a early _ => count_cons_of_ne (by grind) ..⟩
      rcases mem_cons.mp freed with rfl | freed
      · exact .inr (.inr ⟨le_rfl, Nat.lt_succ_self _⟩)
      · exact .inl freed
    | some text2 =>
      refine ⟨Nat.le_add_right _ 3, fun a holds => ?_, fun a freed => ?_, fun a early _ => ?_⟩
      · obtain rfl : a = heap.next + 2 := by
          simpa [ExpressionObj.addresses, msInitExpression, pointed, StringHeap.msStrdup] using holds
        exact .inr ⟨Nat.le_add_right _ 2, Nat.lt_succ_self _⟩
      · rcases mem_cons.mp freed with rfl | freed
        · exact .inr (.inr ⟨Nat.le_succ _, Nat.lt_succ_of_lt (Nat.lt_succ_self _)⟩)
        · rcases mem_cons.mp freed with rfl | freed
          · exact .inr (.inr ⟨le_rfl, Nat.lt_succ_of_lt (Nat.lt_succ_of_lt (Nat.lt_succ_self _))⟩)
          · exact .inl freed
      · have second := count_cons_of_ne (Nat.ne_of_gt (Nat.lt_succ_of_lt early)) (l := heap.next :: heap.freed)
        exact second.trans (count_cons_of_ne (Nat.ne_of_gt early))

structure Continues (pass reading : Pass) : Prop where
  works : Works pass.lp.filter pass.heap reading.lp.filter reading.heap
  lp : reading.lp = { pass.lp with filter := reading.lp.filter }
  old_filteritem : reading.old_filteritem = pass.old_filteritem
  old_filter : reading.old_filter = pass.old_filter
  releases : reading.releases = pass.releases

theorem Continues.trans {pass reading last : Pass} (first : Continues pass reading) (second : Continues reading last) :
    Continues pass last where
  works := first.works.trans second.works
  lp := by rw [second.lp, first.lp]
  old_filteritem := second.old_filteritem.trans first.old_filteritem
  old_filter := second.old_filter.trans first.old_filter
  releases := second.releases.trans first.releases

theorem Pass.read_continues (pass : Pass) (steps : List FilterStep) : Continues pass (pass.read steps) :=
  ⟨runSteps_works steps pass.lp.filter pass.heap, rfl, rfl, rfl, rfl⟩

theorem readShapes_continues (shapes : List ShapeRead) (numresults : Nat) (pass : Pass) :
    Continues pass (readShapes shapes numresults pass).2.2 := by
  induction shapes generalizing numresults pass with
  | nil => exact pass.read_continues _
  | cons shape rest ih =>
    have first := pass.read_continues shape.steps
    unfold readShapes
    dsimp only
    split
    · exact first.trans (ih _ _)
    split
    · exact first
    split
    · exact first.trans (ih _ _)
    split
    · exact first
    · exact first.trans (ih _ _)

inductive Ends (pass : Pass) : Exit × Pass → Prop where
  | restored (reading : Pass) (reads : Continues pass reading) (exit : Exit) : Ends pass (exit, reading.restore)
  | closed (reading : Pass) (reads : Continues pass reading) (exit : Exit) : Ends pass (exit, reading.restore.msLayerClose)

theorem Ends.after {pass reading : Pass} {ended : Exit × Pass} (first : Continues pass reading) (ends : Ends reading ended) :
    Ends pass ended := by
  cases ends with
  | restored last reads exit => exact .restored last (first.trans reads) exit
  | closed last reads exit => exact .closed last (first.trans reads) exit

theorem queryShapes_ends (query : QueryObj) (pass : Pass) : Ends pass (queryShapes query pass) := by
  have first := pass.read_continues pass.lp.msLayerWhichShapes.2
  refine .after first ?_
  unfold queryShapes
  dsimp only
  cases (pass.read pass.lp.msLayerWhichShapes.2).lp.msLayerWhichShapes.1 with
  | MS_DONE => exact .closed _ ⟨.refl _ _, rfl, rfl, rfl, rfl⟩ _
  | MS_FAILURE => exact .closed _ ⟨.refl _ _, rfl, rfl, rfl, rfl⟩ _
  | MS_SUCCESS =>
    have reads := readShapes_continues (pass.read pass.lp.msLayerWhichShapes.2).lp.shapes 0
      (pass.read pass.lp.msLayerWhichShapes.2)
    dsimp only
    split
    · exact .restored _ reads _
    split
    · exact .closed _ reads _
    · exact .restored _ reads _

theorem queryItems_ends (query : QueryObj) (pass : Pass) (allocates : countsWithoutMemory query pass.lp = false) :
    Ends pass (queryItems query pass) := by
  have first := pass.read_continues pass.lp.msLayerWhichItems.2
  have counts := (pass.read pass.lp.msLayerWhichItems.2).read_continues pass.lp.msLayerGetShapeCount.2
  unfold queryItems
  dsimp only
  split
  · exact .closed _ first _
  rename_i items
  split
  · rename_i alone
    split
    · rename_i counted
      split
      · rename_i memory
        have found : pass.lp.msLayerWhichItems.1 = true := Bool.not_eq_false _ ▸ fun missing => items (missing ▸ rfl)
        have met : countsWithoutMemory query pass.lp = true := by
          simp only [countsWithoutMemory, Bool.and_eq_true]
          exact ⟨⟨⟨found, alone⟩, decide_eq_true counted⟩, memory⟩
        exact absurd (met.symm.trans allocates) (by decide)
      · exact .restored _ (first.trans counts) _
    · exact (queryShapes_ends query _).after (first.trans counts)
  · exact (queryShapes_ends query _).after first

theorem queryItems_unrestored (query : QueryObj) (pass : Pass) (fails : countsWithoutMemory query pass.lp = true) :
    Continues pass (queryItems query pass).2 ∧ (queryItems query pass).1 = .MS_FAILURE := by
  have first := pass.read_continues pass.lp.msLayerWhichItems.2
  have counts := (pass.read pass.lp.msLayerWhichItems.2).read_continues pass.lp.msLayerGetShapeCount.2
  simp only [countsWithoutMemory, Bool.and_eq_true, decide_eq_true_eq] at fails
  obtain ⟨⟨⟨items, alone⟩, counted⟩, memory⟩ := fails
  have present : (!(pass.read pass.lp.msLayerWhichItems.2).lp.msLayerWhichItems.1) = false := congrArg not items
  unfold queryItems
  dsimp only
  rw [present, if_neg Bool.false_ne_true]
  split
  · split
    · split
      · exact ⟨first.trans counts, rfl⟩
      · rename_i enough
        exact absurd memory enough
    · rename_i uncounted
      exact absurd counted uncounted
  · rename_i several
    exact absurd alone several

theorem copied_text (dst src : ExpressionObj) (heap : StringHeap) : (msCopyExpression dst src heap).1.text = src.text := by
  unfold msCopyExpression MS_COPYSTRING ExpressionObj.text
  cases src.string <;> rfl

theorem translate_congr {left right : ExpressionObj} (filteritem : Option CharPtr) (text : left.text = right.text)
    (type : left.type = right.type) (flags : left.flags = right.flags) :
    filterTranslateToLogical left filteritem = filterTranslateToLogical right filteritem := by
  unfold filterTranslateToLogical
  rw [text, type, flags]

theorem mergeFilters_isSome (filter1 : ExpressionObj) (filteritem1 : Option CharPtr) (filter2 : ExpressionObj)
    (filteritem2 : Option CharPtr) (heap : StringHeap) :
    (mergeFilters filter1 filteritem1 filter2 filteritem2 heap).1.string.isSome =
      ((filterTranslateToLogical filter1 filteritem1).isSome && (filterTranslateToLogical filter2 filteritem2).isSome) := by
  unfold mergeFilters
  cases filterTranslateToLogical filter1 filteritem1 with
  | none => rfl
  | some text1 => cases filterTranslateToLogical filter2 filteritem2 <;> rfl

theorem saveFilter_saved (lp : LayerObj) (heap : StringHeap) :
    (saveFilter lp heap).old_filter = { msInitExpression with
      string := lp.filter.text.map (⟨heap.next, ·⟩), type := lp.filter.type, flags := lp.filter.flags } ∧
    (saveFilter lp heap).heap = { heap with next := heap.next + lp.filter.text.toList.length } := by
  unfold saveFilter msCopyExpression MS_COPYSTRING ExpressionObj.text
  cases lp.filter.string <;> exact ⟨rfl, rfl⟩

theorem applyFilter_works (query : QueryObj) (pass : Pass) :
    Works pass.lp.filter pass.heap (applyFilter query pass).lp.filter (applyFilter query pass).heap := by
  unfold applyFilter
  split
  · exact (msFreeExpression_works _ _).trans (mergeFilters_works ..)
  · exact msCopyExpression_works _ _ _

/-- What a pass leaves that ends with the three statements of the restoration. The copy that it saved is freed besides
what the work on the filter frees. -/
structure Restores (pass last : Pass) : Prop where
  works : ∃ freed, last.heap.freed.Perm (pointed pass.old_filter.string ++ freed) ∧
    Works pass.lp.filter pass.heap last.lp.filter { last.heap with freed }
  filteritem : last.lp.filteritem = pass.old_filteritem
  text : last.lp.filter.text = pass.old_filter.text
  type : last.lp.filter.type = pass.old_filter.type
  flags : last.lp.filter.flags = pass.old_filter.flags
  releases : last.releases = pass.releases + 1

/-- A copy that `msCopyExpression` made has nothing but its string. -/
structure Bare (exp : ExpressionObj) : Prop where
  tokens : exp.tokens = []
  regex : exp.regex = none
  native_string : exp.native_string = none

theorem Bare.freed {exp : ExpressionObj} (bare : Bare exp) (heap : StringHeap) :
    (msFreeExpression exp heap).2 = release (pointed exp.string) heap := by
  have unused : ∀ heap, freeRegex exp heap = heap := by
    intro heap
    unfold freeRegex
    rw [bare.regex]
    exact ite_id heap
  unfold msFreeExpression msFreeExpressionTokens
  simp only [unused, bare.tokens, bare.native_string]
  rfl

theorem restore_restores (pass : Pass) (bare : Bare pass.old_filter) : Restores pass pass.restore := by
  have copy := msCopyExpression_works pass.lp.filter pass.old_filter pass.heap
  have heap : pass.restore.heap =
      release (pointed pass.old_filter.string) (msCopyExpression pass.lp.filter pass.old_filter pass.heap).2 := bare.freed _
  refine ⟨⟨(msCopyExpression pass.lp.filter pass.old_filter pass.heap).2.freed, ?_, ?_⟩, rfl, copied_text _ _ _, rfl, rfl, rfl⟩
  · rw [heap, release]
  · rw [heap]
    exact copy

theorem Restores.msLayerClose {pass last : Pass} (restores : Restores pass last) : Restores pass last.msLayerClose := by
  obtain ⟨freed, saved, works⟩ := restores.works
  have close := msFreeExpressionTokens_works last.lp.filter { last.heap with freed }
  refine ⟨⟨_, ?_, works.trans close⟩, restores.filteritem, restores.text, restores.type, restores.flags, restores.releases⟩
  exact (saved.append_left _).trans (perm_append_comm_assoc ..)

theorem Continues.restores {pass reading last : Pass} (reads : Continues pass reading) (restores : Restores reading last) :
    Restores pass last := by
  obtain ⟨freed, saved, works⟩ := restores.works
  refine ⟨⟨freed, reads.old_filter ▸ saved, reads.works.trans works⟩, ?_, ?_, ?_, ?_, ?_⟩
  · rw [restores.filteritem, reads.old_filteritem]
  · rw [restores.text, reads.old_filter]
  · rw [restores.type, reads.old_filter]
  · rw [restores.flags, reads.old_filter]
  · rw [restores.releases, reads.releases]

theorem Ends.restores {pass : Pass} {ended : Exit × Pass} (ends : Ends pass ended) (bare : Bare pass.old_filter) :
    Restores pass ended.2 := by
  cases ends with
  | restored reading reads exit => exact reads.restores (restore_restores reading (reads.old_filter ▸ bare))
  | closed reading reads exit => exact reads.restores (restore_restores reading (reads.old_filter ▸ bare)).msLayerClose

theorem applyFilter_merges (query : QueryObj) (lp : LayerObj) (heap : StringHeap) :
    ((saveFilter lp heap).old_filter.string.isSome && (applyFilter query (saveFilter lp heap)).lp.filter.string.isNone) =
      !filterMerges query lp := by
  have same : filterTranslateToLogical (saveFilter lp heap).old_filter lp.filteritem =
      filterTranslateToLogical lp.filter lp.filteritem := translate_congr _ (copied_text _ _ _) rfl rfl
  have saved : (saveFilter lp heap).old_filter.string.isSome = lp.filter.string.isSome := by
    have := congrArg Option.isSome (copied_text msInitExpression lp.filter heap)
    rwa [ExpressionObj.text, ExpressionObj.text, Option.isSome_map, Option.isSome_map] at this
  rw [filterMerges, saved]
  by_cases own : lp.filter.string.isSome = true
  · have merged : (applyFilter query (saveFilter lp heap)).lp.filter = (mergeFilters query.filter query.filteritem
        (saveFilter lp heap).old_filter lp.filteritem (msFreeExpression lp.filter (saveFilter lp heap).heap).2).1 := by
      unfold applyFilter
      split
      · rfl
      · rename_i unsaved
        exact absurd (saved.trans own) unsaved
    rw [merged, ← Option.not_isSome, mergeFilters_isSome, same, own]
    simp [← Option.not_isSome, own]
  · simp [Option.not_isSome_iff_eq_none.mp own]

theorem queryFilter_ends {query : QueryObj} {lp : LayerObj} (heap : StringHeap)
    (returns : (filterMerges query lp && countsWithoutMemory query lp) = false) :
    Ends (applyFilter query (saveFilter lp heap)) (queryFilter query (saveFilter lp heap)) := by
  unfold queryFilter
  dsimp only
  split
  · exact .closed _ ⟨.refl _ _, rfl, rfl, rfl, rfl⟩ _
  · rename_i merged
    have merges : filterMerges query lp = true := by
      have := (applyFilter_merges query lp heap).symm.trans (Bool.eq_false_of_not_eq_true merged)
      simpa using this
    rw [merges, Bool.true_and] at returns
    exact queryItems_ends query _ returns

theorem queryFilter_unrestored {query : QueryObj} {lp : LayerObj} (heap : StringHeap)
    (returns : (filterMerges query lp && countsWithoutMemory query lp) = true) :
    Continues (applyFilter query (saveFilter lp heap)) (queryFilter query (saveFilter lp heap)).2 ∧
      (queryFilter query (saveFilter lp heap)).1 = .MS_FAILURE := by
  obtain ⟨merges, fails⟩ := Bool.and_eq_true_iff.mp returns
  have merged := applyFilter_merges query lp heap
  rw [merges] at merged
  unfold queryFilter
  rw [if_neg (by rw [show (applyFilter query (saveFilter lp heap)).old_filter = (saveFilter lp heap).old_filter from rfl, merged]; decide)]
  exact queryItems_unrestored query _ fails

theorem saved_fresh {lp : LayerObj} {heap : StringHeap} {a : Nat}
    (holds : a ∈ pointed (saveFilter lp heap).old_filter.string) :
    a = heap.next ∧ (saveFilter lp heap).heap.next = heap.next + 1 ∧
      pointed (saveFilter lp heap).old_filter.string = [heap.next] := by
  obtain ⟨saved, next⟩ := saveFilter_saved lp heap
  rw [saved] at holds ⊢
  rw [next]
  cases text : lp.filter.text with
  | none => simp [text, pointed] at holds
  | some text' =>
    rw [text] at holds
    exact ⟨mem_pointed_some.mp holds, rfl, rfl⟩

theorem saveFilter_bare (lp : LayerObj) (heap : StringHeap) : Bare (saveFilter lp heap).old_filter := by
  rw [(saveFilter_saved lp heap).1]
  exact ⟨rfl, rfl, rfl⟩

theorem saveFilter_addresses (lp : LayerObj) (heap : StringHeap) :
    (saveFilter lp heap).old_filter.addresses = pointed (saveFilter lp heap).old_filter.string := by
  obtain ⟨tokens, regex, native_string⟩ := saveFilter_bare lp heap
  simp [ExpressionObj.addresses, tokens, regex, native_string, pointed]

theorem saveFilter_works (lp : LayerObj) (heap : StringHeap) :
    Works lp.filter heap lp.filter (saveFilter lp heap).heap := by
  rw [(saveFilter_saved lp heap).2]
  exact .of_next (Nat.le_add_right _ _) fun _ holds => .inl holds

theorem visitLayer_works (query : QueryObj) (lp : LayerObj) (heap : StringHeap) :
    Works lp.filter heap (visitLayer query lp heap).lp.filter (visitLayer query lp heap).heap := by
  unfold visitLayer
  split
  · exact .refl _ _
  split
  · exact .refl _ _
  have first := (saveFilter_works lp heap).trans (applyFilter_works query (saveFilter lp heap))
  cases returns : filterMerges query lp && countsWithoutMemory query lp with
  | true => exact first.trans (queryFilter_unrestored heap returns).1.works
  | false =>
    obtain ⟨freed, saved, works⟩ := ((queryFilter_ends heap returns).restores (saveFilter_bare lp heap)).works
    obtain ⟨later, held, isFreed, spared⟩ := first.trans works
    have ended := (applyFilter_works query (saveFilter lp heap)).later.trans works.later
    refine ⟨later, held, fun a member => ?_, fun a early foreign => ?_⟩
    · rcases mem_append.mp (saved.mem_iff.mp member) with copied | member
      · obtain ⟨rfl, next, _⟩ := saved_fresh copied
        exact .inr (.inr ⟨le_rfl, (Nat.lt_of_lt_of_eq (Nat.lt_succ_self _) next.symm).trans_le ended⟩)
      · exact isFreed a member
    · have unsaved : a ∉ pointed (saveFilter lp heap).old_filter.string := by
        intro copied
        exact absurd (saved_fresh copied).1 (Nat.ne_of_lt early)
      have counted := (saved.count_eq a).trans count_append
      exact counted.trans (by
        show (pointed (saveFilter lp heap).old_filter.string).count a + freed.count a = heap.freed.count a
        rw [count_eq_zero.mpr unsaved, Nat.zero_add]
        exact spared a early foreign)

theorem visitLayer_opened {query : QueryObj} {lp : LayerObj} {heap : StringHeap} (shown : lp.shown = true)
    (opens : lp.msLayerOpen = true) : visitLayer query lp heap =
      ⟨lp, some (saveFilter lp heap).old_filter, (queryFilter query (saveFilter lp heap)).2.releases,
        (queryFilter query (saveFilter lp heap)).2.lp, (queryFilter query (saveFilter lp heap)).1,
        (queryFilter query (saveFilter lp heap)).2.heap⟩ := by
  unfold visitLayer
  rw [shown, opens]
  rfl

theorem visitLayer_unopened (query : QueryObj) {lp : LayerObj} (heap : StringHeap)
    (unopened : (lp.shown && lp.msLayerOpen) = false) : (visitLayer query lp heap).lp = lp ∧
      (visitLayer query lp heap).saved = none ∧ (visitLayer query lp heap).heap = heap := by
  unfold visitLayer
  split
  · exact ⟨rfl, rfl, rfl⟩
  split
  · exact ⟨rfl, rfl, rfl⟩
  · rename_i shown opens
    simp only [Bool.not_eq_eq_eq_not, Bool.not_true, Bool.not_eq_false] at shown opens
    rw [shown, opens] at unopened
    exact absurd unopened (by decide)

theorem visitLayer_before (query : QueryObj) (lp : LayerObj) (heap : StringHeap) : (visitLayer query lp heap).before = lp := by
  unfold visitLayer
  split
  · rfl
  split <;> rfl

section Visits
variable {query : QueryObj} {lp : LayerObj} {heap : StringHeap}

structure Found (query : QueryObj) (lp : LayerObj) (heap : StringHeap) : Prop where
  queried : ∀ a ∈ query.addresses, a < heap.next
  apart : ∀ a ∈ lp.addresses, a < heap.next ∧ a ∉ query.addresses
  freed : ∀ a ∈ heap.freed, a < heap.next

theorem Found.filter (found : Found query lp heap) {a : Nat} (holds : a ∈ lp.filter.addresses) : a < heap.next :=
  (found.apart a (mem_append_left _ holds)).1

theorem Found.unsaved (found : Found query lp heap) : heap.next ∉ lp.filter.addresses :=
  fun holds => absurd (found.filter holds) (Nat.lt_irrefl _)

theorem visitLayer_leftAsFound (found : Found query lp heap) (returns : returnsFromCheckAlloc query lp = false) :
    LeftAsFound query (visitLayer query lp heap) (visitLayer query lp heap).heap.freed := by
  cases opened : lp.shown && lp.msLayerOpen with
  | false =>
    obtain ⟨same, unsaved, _⟩ := visitLayer_unopened query heap opened
    have before := visitLayer_before query lp heap
    refine ⟨by rw [same, before], by rw [same, before], by rw [same, before], by rw [same, before], fun a holds => ?_, ?_⟩
    · exact (found.apart a (same ▸ holds)).2
    · rw [unsaved]
      nofun
  | true =>
    obtain ⟨shown, opens⟩ := Bool.and_eq_true_iff.mp opened
    rw [returnsFromCheckAlloc, opened, Bool.true_and] at returns
    have restores := (queryFilter_ends heap returns).restores (saveFilter_bare lp heap)
    obtain ⟨freed, saved, works⟩ := restores.works
    have works := (applyFilter_works query (saveFilter lp heap)).trans works
    have start := (saveFilter_works lp heap).later
    rw [visitLayer_opened shown opens]
    refine ⟨restores.filteritem, restores.text.trans (copied_text _ _ _), restores.type, restores.flags,
      fun a holds => ?_, fun copy copied => ⟨restores.releases, fun a holds => ?_⟩⟩
    · rcases mem_append.mp holds with held | item
      · rcases works.held a held with earlier | ⟨new, _⟩
        · exact (found.apart a (mem_append_left _ earlier)).2
        · exact fun queried => absurd (found.queried a queried) (Nat.not_lt.mpr (start.trans new))
      · have same : (queryFilter query (saveFilter lp heap)).2.lp.filteritem = lp.filteritem := restores.filteritem
        rw [same] at item
        exact (found.apart a (mem_append_right _ item)).2
    · obtain rfl : (saveFilter lp heap).old_filter = copy := Option.some.inj copied
      rw [saveFilter_addresses] at holds
      obtain ⟨rfl, next, alone⟩ := saved_fresh holds
      have once : (pointed (saveFilter lp heap).old_filter.string).count heap.next = 1 := by
        rw [alone, count_singleton_self]
      have unfreed : freed.count heap.next = 0 := by
        have spared := works.spared heap.next (by omega) found.unsaved
        rw [(saveFilter_saved lp heap).2] at spared
        exact spared.trans (count_eq_zero.mpr fun member => absurd (found.freed _ member) (Nat.lt_irrefl _))
      show (queryFilter query (saveFilter lp heap)).2.heap.freed.count heap.next = 1
      rw [saved.count_eq, count_append]
      exact congrArg₂ _ once unfreed

end Visits

theorem Separate.found {query : QueryObj} {layers : List LayerObj} {heap : StringHeap} (separate : Separate query layers heap)
    {lp : LayerObj} (member : lp ∈ layers) : Found query lp heap :=
  ⟨separate.queried, separate.apart lp member, separate.freed⟩

theorem Separate.visited {query : QueryObj} {layers : List LayerObj} {heap : StringHeap} (separate : Separate query layers heap)
    {lp : LayerObj} (member : lp ∈ layers) (returns : returnsFromCheckAlloc query lp = false) (l : Nat) :
    Separate query (layers.set l (visitLayer query lp heap).lp) (visitLayer query lp heap).heap := by
  have works := visitLayer_works query lp heap
  have left := visitLayer_leftAsFound (separate.found member) returns
  have found := separate.found member
  refine ⟨fun a queried => (separate.queried a queried).trans_le works.later, fun layer layered a holds => ?_, fun a freed => ?_⟩
  · rcases mem_or_eq_of_mem_set layered with earlier | rfl
    · obtain ⟨below, apart⟩ := separate.apart layer earlier a holds
      exact ⟨below.trans_le works.later, apart⟩
    · refine ⟨?_, left.apart a holds⟩
      rcases mem_append.mp holds with held | item
      · rcases works.held a held with earlier | ⟨_, below⟩
        · exact (found.filter earlier).trans_le works.later
        · exact below
      · rw [left.filteritem, visitLayer_before] at item
        exact (found.apart a (mem_append_right _ item)).1.trans_le works.later
  · rcases works.freed a freed with earlier | held | ⟨_, below⟩
    · exact (separate.freed a earlier).trans_le works.later
    · exact (found.filter held).trans_le works.later
    · exact below

end MapServer.FilterSwap
