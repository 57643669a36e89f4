import MapServer.Label.RunSplits

namespace MapServer
open Lib List Option

def runShape (run : TextRun) : Nat × Nat × Nat := (run.offset, run.length, run.line_number)

structure LinesInOrder (runs : List TextRun) : Prop where
  some_ : runs ≠ []
  ordered : runs.Pairwise fun run later => run.line_number ≤ later.line_number
  whole : ∀ run ∈ runs, ∀ k ≤ run.line_number, ∃ other ∈ runs, other.line_number = k

theorem LinesInOrder.congr {runs others : List TextRun} (order : LinesInOrder runs)
    (same : others.map (·.line_number) = runs.map (·.line_number)) : LinesInOrder others := by
  have numbers {run : TextRun} {runs others : List TextRun} (same : others.map (·.line_number) = runs.map (·.line_number))
      (member : run ∈ others) : ∃ other ∈ runs, other.line_number = run.line_number := by
    have number : run.line_number ∈ others.map (·.line_number) := List.mem_map_of_mem member
    rw [same] at number
    exact List.mem_map.mp number
  constructor
  · rintro rfl
    exact order.some_ (map_eq_nil_iff.mp same.symm)
  · have ordered := order.ordered
    rw [← pairwise_map (R := (· ≤ ·))] at ordered ⊢
    rwa [same]
  · intro run member k most
    obtain ⟨other, isRun, number⟩ := numbers same member
    obtain ⟨third, isThird, isK⟩ := order.whole other isRun k (number ▸ most)
    obtain ⟨fourth, isFourth, number'⟩ := numbers same.symm isThird
    exact ⟨fourth, isFourth, number'.trans isK⟩

theorem LinesInOrder.split {before after runs : List TextRun} {current : TextRun}
    (order : LinesInOrder (before ++ current :: after)) (some_ : runs ≠ [])
    (line : ∀ run ∈ runs, run.line_number = current.line_number) : LinesInOrder (before ++ (runs ++ after)) := by
  obtain ⟨first, isFirst⟩ := exists_mem_of_ne_nil runs some_
  have old {run : TextRun} (among : run ∈ before ++ (runs ++ after)) :
      ∃ other ∈ before ++ current :: after, other.line_number = run.line_number := by
    simp only [mem_append] at among
    rcases among with one | two | three
    · exact ⟨run, by simp [one], rfl⟩
    · exact ⟨current, by simp, (line run two).symm⟩
    · exact ⟨run, by simp [three], rfl⟩
  have new {run : TextRun} (among : run ∈ before ++ current :: after) :
      ∃ other ∈ before ++ (runs ++ after), other.line_number = run.line_number := by
    simp only [mem_append, mem_cons] at among
    rcases among with one | rfl | three
    · exact ⟨run, by simp [one], rfl⟩
    · exact ⟨first, by simp [isFirst], line first isFirst⟩
    · exact ⟨run, by simp [three], rfl⟩
  constructor
  · exact append_ne_nil_of_right_ne_nil _ (append_ne_nil_of_left_ne_nil some_ _)
  · obtain ⟨front, ⟨ahead, back⟩, across⟩ := by
      have ordered := order.ordered
      rw [pairwise_append, pairwise_cons] at ordered
      exact ordered
    rw [pairwise_append, pairwise_append]
    refine ⟨front, ⟨?_, back, ?_⟩, ?_⟩
    · apply pairwise_of_forall_mem_list
      intro run one other two
      rw [line run one, line other two]
    · intro run one other two
      rw [line run one]
      exact ahead other two
    · intro run one other two
      rcases mem_append.mp two with among | later
      · rw [line other among]
        exact across run one current mem_cons_self
      · exact across run one other (mem_cons_of_mem _ later)
  · intro run among k most
    obtain ⟨other, isOther, number⟩ := old among
    obtain ⟨third, isThird, isK⟩ := order.whole other isOther k (number ▸ most)
    obtain ⟨fourth, isFourth, number'⟩ := new isThird
    exact ⟨fourth, isFourth, number'.trans isK⟩

structure RunsKept (unicodes : List Nat) (lines : Nat) (runs : List TextRun) : Prop where
  covers : covered runs = glyphsBefore unicodes unicodes.length
  number : ∀ run ∈ runs, run.line_number = linesBefore unicodes run.offset
  described : ∀ run ∈ runs, run.line_number < lines
  takes : weight runs ≤ unicodes.length
  order : LinesInOrder runs

variable {unicodes : List Nat} {lines : Nat}

theorem covered_append (runs others : List TextRun) : covered (runs ++ others) = covered runs ++ covered others :=
  flatMap_append

theorem RunsKept.congr {runs others : List TextRun} (kept : RunsKept unicodes lines runs)
    (same : others.map runShape = runs.map runShape) : RunsKept unicodes lines others := by
  have positions (runs : List TextRun) : covered runs = (runs.map runShape).flatMap fun shape => range' shape.1 shape.2.1 := by
    rw [flatMap_map]
    rfl
  have weights (runs : List TextRun) : weight runs = ((runs.map runShape).map fun shape => max 1 shape.2.1).sum := by
    rw [List.map_map]
    rfl
  have alike : ∀ run ∈ others, ∃ other ∈ runs, runShape other = runShape run := by
    intro run member
    have shape := List.mem_map_of_mem (f := runShape) member
    rw [same, List.mem_map] at shape
    exact shape
  constructor
  · rw [positions, same, ← positions, kept.covers]
  · intro run member
    obtain ⟨other, isRun, shape⟩ := alike run member
    simp only [runShape, Prod.mk.injEq] at shape
    rw [← shape.1, ← shape.2.2]
    exact kept.number other isRun
  · intro run member
    obtain ⟨other, isRun, shape⟩ := alike run member
    simp only [runShape, Prod.mk.injEq] at shape
    rw [← shape.2.2]
    exact kept.described other isRun
  · rw [weights, same, ← weights]
    exact kept.takes
  · apply kept.order.congr
    have third := congrArg (List.map fun shape => shape.2.2) same
    rwa [List.map_map, List.map_map] at third

theorem mem_glyphsBefore {p q : Nat} : q ∈ glyphsBefore unicodes p ↔ q < p ∧ unicodes[q]? ≠ some 10 := by
  simp [glyphsBefore]

theorem RunsKept.not_break {runs : List TextRun} (kept : RunsKept unicodes lines runs) {run : TextRun} (member : run ∈ runs) {p : Nat}
    (inside : p ∈ runPositions run) : unicodes[p]? ≠ some 10 := by
  have glyph : p ∈ covered runs := mem_flatMap.mpr ⟨run, member, inside⟩
  rw [kept.covers, mem_glyphsBefore] at glyph
  exact glyph.2

theorem RunsKept.disjoint {before after : List TextRun} {current run : TextRun}
    (kept : RunsKept unicodes lines (before ++ current :: after)) (member : run ∈ before) {p : Nat} (inside : p ∈ runPositions run) :
    p ∉ runPositions current := by
  intro other
  have distinct : (covered (before ++ current :: after)).Nodup := by
    rw [kept.covers]
    exact nodup_range.filter _
  rw [covered_append, nodup_append] at distinct
  exact distinct.2.2 p (mem_flatMap.mpr ⟨run, member, inside⟩) p
    (mem_flatMap.mpr ⟨current, mem_cons_self .., other⟩) rfl

theorem weight_eq {runs : List TextRun} (some_ : ∀ run ∈ runs, 1 ≤ run.length) : weight runs = (covered runs).length := by
  rw [length_covered, weight]
  congr 1
  apply map_congr_left
  intro run member
  exact Nat.max_eq_right (some_ run member)

theorem RunsKept.split {before after runs : List TextRun} {current : TextRun}
    (kept : RunsKept unicodes lines (before ++ current :: after)) (covers : covered runs = runPositions current)
    (some_ : ∀ run ∈ runs, 1 ≤ run.length) (line : ∀ run ∈ runs, run.line_number = current.line_number) (glyphs : 1 ≤ current.length) :
    RunsKept unicodes lines (before ++ (runs ++ after)) := by
  have member : current ∈ before ++ current :: after := mem_append_right _ (mem_cons_self ..)
  have old {run : TextRun} (among : run ∈ before ++ (runs ++ after)) : run ∈ before ++ current :: after ∨ run ∈ runs := by
    simp only [mem_append, mem_cons] at among ⊢
    rcases among with first | second | third
    · exact .inl (.inl first)
    · exact .inr second
    · exact .inl (.inr (.inr third))
  constructor
  · rw [← kept.covers, covered_append, covered_append, covered_append, covers]
    rfl
  · intro run among
    rcases old among with first | new
    · exact kept.number run first
    have inside : run.offset ∈ runPositions current := by
      rw [← covers]
      have length := some_ run new
      exact mem_flatMap.mpr ⟨run, new, mem_range'_1.mpr ⟨Nat.le_refl _, by omega⟩⟩
    have bounds := mem_range'_1.mp inside
    rw [line run new, kept.number current member]
    symm
    apply linesBefore_same bounds.1
    intro q low high
    exact kept.not_break member (mem_range'_1.mpr ⟨low, by omega⟩)
  · intro run among
    rcases old among with first | new
    · exact kept.described run first
    · rw [line run new]
      exact kept.described current member
  · have takes := kept.takes
    have current_ : weight (current :: after) = max 1 current.length + weight after := rfl
    rw [weight_append, current_] at takes
    rw [weight_append, weight_append, weight_eq some_, covers, runPositions, length_range']
    omega
  · apply kept.order.split _ line
    rintro rfl
    have empty := congrArg List.length covers
    rw [runPositions, length_range'] at empty
    simp only [covered, flatMap_nil, length_nil] at empty
    omega

def latinMark (unicodes : List Nat) (run : TextRun) : TextRun :=
  { run with rtl := if unicode_is_latin1 (runUnicodes unicodes run) then -1 else 0 }

theorem markLatin_spec (rest : List TextRun) {i n : Nat} {runs : Slots TextRun} {line_descs : Slots LineRtl} {before : List TextRun}
    (parts : runs.front n = before ++ rest) (here : i = before.length) (room : n ≤ runs.size) (descs : n ≤ line_descs.size) :
    ∃ marked others, markLatin unicodes rest.length i runs line_descs = some (marked, others) ∧ marked.size = runs.size ∧
      others.size = line_descs.size ∧ marked.front n = before ++ rest.map (latinMark unicodes) := by
  induction rest generalizing i runs line_descs before with
  | nil => exact ⟨runs, line_descs, rfl, rfl, rfl, parts⟩
  | cons run rest ih =>
    have length := congrArg List.length parts
    rw [Slots.length_front, length_append, length_cons] at length
    have atRun : runs.get i = run := by
      rw [here]
      exact Slots.get_of_front parts
    -- The loop goes on behind the run that was marked.
    have go (marked : TextRun) (isMarked : marked = latinMark unicodes run) (others : Slots LineRtl)
        (sizes : others.size = line_descs.size) :
        ∃ last lines, markLatin unicodes rest.length (i + 1) { runs with get := Function.update runs.get i marked } others =
          some (last, lines) ∧ last.size = runs.size ∧ lines.size = line_descs.size ∧
          last.front n = before ++ (run :: rest).map (latinMark unicodes) := by
      have update := Slots.front_update parts marked
      rw [← here] at update
      have split : ({ runs with get := Function.update runs.get i marked } : Slots TextRun).front n = (before ++ [marked]) ++ rest := by
        rw [update, append_assoc]
        rfl
      obtain ⟨last, lines, run, size, descsSize, front⟩ := ih split
        (show i + 1 = (before ++ [marked]).length by rw [length_append, here]; rfl) room (sizes ▸ descs)
      refine ⟨last, lines, run, size, descsSize.trans sizes, ?_⟩
      rw [front, isMarked, append_assoc]
      rfl
    rw [length_cons, markLatin, atRun]
    split
    · rename_i isLatin
      rw [Slots.store_eq (by omega), bind_eq_bind, bind_some, Slots.store_eq (by omega), bind_eq_bind,
        bind_some]
      exact go _ (by rw [latinMark, if_pos isLatin]) _ rfl
    · rename_i notLatin
      rw [Slots.store_eq (by omega), bind_eq_bind, bind_some]
      exact go _ (by rw [latinMark, if_neg notLatin]) _ rfl

def IsLatin (unicodes : List Nat) (run : TextRun) : Prop :=
  run.rtl = -1 ∧ unicode_is_latin1 (runUnicodes unicodes run) = true

def HasLevel (unicodes : List Nat) (bidi_levels : Nat → Int) (run : TextRun) : Prop :=
  IsLatin unicodes run ∨ 1 ≤ run.length ∧ ∀ p ∈ runPositions run, bidi_levels p = run.rtl

theorem fillFrom_outside {β : Type} {array values : Nat → β} {offset length p : Nat} (outside : p ∉ range' offset length) :
    fillFrom array offset length values p = array p := by
  rw [mem_range'_1] at outside
  exact if_neg outside

theorem front_length_of {runs : Slots TextRun} {n : Nat} {before after : List TextRun} {current : TextRun}
    (parts : runs.front n = before ++ current :: after) : n = before.length + (after.length + 1) := by
  have length := congrArg List.length parts
  rw [Slots.length_front, length_append, length_cons] at length
  exact length

theorem splitCurrent {β : Type} [DecidableEq β] {array : Nat → β} {change : β → TextRun → TextRun → TextRun}
    {note : RunState → Option RunState} {Marked : β → TextRun → Prop}
    (changed : ∀ value other previous stale offset length, Marked other previous →
      Marked value { change value previous stale with offset, length })
    (shorter : ∀ value run length, Marked value run → Marked value { run with length })
    (noted : ∀ s value, Marked value (s.runs.get s.i) → s.line_descs.size = lines →
      ∃ line_descs, note s = some { s with line_descs } ∧ line_descs.size = lines)
    {before after : List TextRun} {current : TextRun} {s : RunState}
    (kept : RunsKept unicodes lines (before ++ current :: after)) (room : unicodes.length ≤ s.runs.size)
    (parts : s.runs.front s.nruns = before ++ current :: after) (here : s.i = before.length) (linesSize : s.line_descs.size = lines)
    (some_ : 1 ≤ current.length) (marked : Marked (array current.offset) current) :
    ∃ next runs, splitRunBy array change note current.offset (current.length - 1) 1 (array current.offset) s = some next ∧
      next.runs.size = s.runs.size ∧ next.line_descs.size = lines ∧ next.runs.front next.nruns = before ++ (runs ++ after) ∧
      next.i + 1 = (before ++ runs).length ∧ covered runs = runPositions current ∧ SplitBy array Marked runs := by
  have takes := kept.takes
  have currentWeight : weight (current :: after) = max 1 current.length + weight after := rfl
  have first := length_le_weight before
  have last := length_le_weight after
  rw [weight_append, currentWeight] at takes
  obtain ⟨next, runs, run, size, linesSize, front, i, covers, split⟩ := @splitRunBy_spec β _ array change note Marked lines changed shorter
    noted before after current.offset current.length s.runs.size (by omega) (current.length - 1) 1 (array current.offset) s (by omega)
    [] current parts here rfl linesSize marked (by rw [nil_append]; exact flatMap_singleton ..) (Nat.le_refl _) (by omega) rfl
    (fun p low high => by rw [show p = current.offset by omega]) ⟨nofun, nofun⟩
  exact ⟨next, runs, run, size, linesSize, front, by rw [i, length_append], covers, split⟩

theorem splitBidiRuns_spec (fribidi_levels : Nat → List Nat → Nat → Int) (rest : List TextRun) {s : RunState}
    {bidi_levels : Nat → Int} {before : List TextRun} (parts : s.runs.front s.nruns = before ++ rest) (here : s.i = before.length)
    (room : unicodes.length ≤ s.runs.size) (linesSize : s.line_descs.size = lines)
    (kept : RunsKept unicodes lines (before ++ rest)) (done : ∀ run ∈ before, HasLevel unicodes bidi_levels run)
    (ready : ∀ run ∈ rest, IsLatin unicodes run ∨ run.rtl = 0 ∧ 1 ≤ run.length) :
    ∃ last levels, splitBidiRuns fribidi_levels unicodes rest.length s bidi_levels = some (last, levels) ∧
      last.runs.size = s.runs.size ∧ last.line_descs.size = lines ∧ RunsKept unicodes lines (last.runs.front last.nruns) ∧
      ∀ run ∈ last.runs.front last.nruns, HasLevel unicodes levels run := by
  induction rest generalizing s bidi_levels before with
  | nil =>
    rw [append_nil] at parts kept
    exact ⟨s, bidi_levels, rfl, rfl, linesSize, parts ▸ kept, parts ▸ done⟩
  | cons current rest ih =>
    rw [forall_mem_cons] at ready
    have count := front_length_of parts
    have nruns : s.nruns ≤ s.runs.size := by
      have lengths := length_le_weight (before ++ current :: rest)
      have takes := kept.takes
      rw [← parts, Slots.length_front, parts] at lengths
      omega
    have atCurrent : s.runs.get s.i = current := by
      rw [here]
      exact Slots.get_of_front parts
    rw [length_cons, splitBidiRuns, atCurrent]
    dsimp only
    rcases ready.1 with isLatin | ⟨zero, some_⟩
    · rw [if_neg (by rw [isLatin.1]; decide)]
      have split : s.runs.front s.nruns = (before ++ [current]) ++ rest := by
        rw [parts, append_assoc]
        rfl
      apply ih (s := { s with i := s.i + 1 }) split (by rw [length_append, ← here]; rfl) room linesSize
      · rw [← split, parts]
        exact kept
      · intro run member
        rcases mem_append.mp member with old | new
        · exact done run old
        · rw [mem_singleton.mp new]
          exact .inl isLatin
      · exact ready.2
    · rw [if_pos (by rw [zero])]
      obtain ⟨levels, isLevels⟩ : ∃ levels, levels = fillFrom bidi_levels current.offset current.length
        (fribidi_levels current.offset (runUnicodes unicodes current)) := ⟨_, rfl⟩
      obtain ⟨marked, isMarked⟩ : ∃ marked, marked = { current with rtl := levels current.offset } := ⟨_, rfl⟩
      obtain ⟨runs, isRuns⟩ : ∃ runs, runs = { s.runs with get := Function.update s.runs.get s.i marked } := ⟨_, rfl⟩
      have stored : s.runs.store s.i marked = some runs := by
        rw [isRuns]
        exact Slots.store_eq (by omega) marked
      have described : current.line_number < s.line_descs.size := by
        rw [linesSize]
        exact kept.described current (mem_append_right _ (mem_cons_self ..))
      have runsParts : runs.front s.nruns = before ++ marked :: rest := by
        rw [isRuns, here]
        exact Slots.front_update parts marked
      have shape : runShape marked = runShape current := by rw [isMarked]; rfl
      have keptMarked : RunsKept unicodes lines (before ++ marked :: rest) := kept.congr (by simp [shape])
      have offset : marked.offset = current.offset := by rw [isMarked]
      have length : marked.length = current.length := by rw [isMarked]
      have number : marked.line_number = current.line_number := by rw [isMarked]
      have runsSize : runs.size = s.runs.size := by rw [isRuns]
      obtain ⟨descs, noted, descsSize⟩ : ∃ descs, s.line_descs.store current.line_number
          (if levels current.offset % 2 ≠ 0 then .MS_RTL_RTL else .MS_RTL_LTR) = some descs ∧ descs.size = lines :=
        ⟨_, Slots.store_eq described _, linesSize⟩
      rw [← isLevels, ← isMarked, stored, bind_eq_bind, bind_some, noted, bind_eq_bind, bind_some]
      have mixed (state : RunState) (value : Int)
          (at_ : (state.runs.get state.i).line_number = current.line_number ∧ (state.runs.get state.i).rtl = value)
          (sizes : state.line_descs.size = lines) :
          ∃ line_descs, noteMixedLine state = some { state with line_descs } ∧ line_descs.size = lines := by
        obtain ⟨mixedDescs, mixedStored, mixedSize⟩ : ∃ descs, state.line_descs.store (state.runs.get state.i).line_number .MS_RTL_MIXED =
            some descs ∧ descs.size = lines := ⟨_, Slots.store_eq (by rw [at_.1, sizes, ← linesSize]; exact described) _, sizes⟩
        refine ⟨mixedDescs, ?_, mixedSize⟩
        rw [noteMixedLine, mixedStored]
        rfl
      obtain ⟨next, split, run, size, nextLines, front, i, covers, isSplit⟩ := @splitCurrent unicodes lines Int _ levels bidiChange noteMixedLine
        (fun value run => run.line_number = current.line_number ∧ run.rtl = value)
        (fun value other previous stale _ _ old => ⟨old.1, rfl⟩) (fun value run _ old => old) mixed
        before rest marked { s with runs, line_descs := descs } keptMarked (by rw [runsSize]; exact room) runsParts here descsSize
        (by omega) ⟨number, by rw [isMarked]⟩
      rw [offset, length] at run
      rw [splitLevels, run, bind_eq_bind, bind_some]
      have line : ∀ run ∈ split, run.line_number = marked.line_number := by
        intro run member
        obtain ⟨value, old, _⟩ := isSplit.one run member
        rw [number, old.1]
      have keptSplit := keptMarked.split covers isSplit.some_ line (by omega)
      rw [← append_assoc] at keptSplit front
      have nextDone : ∀ run ∈ before ++ split, HasLevel unicodes levels run := by
        intro run member
        rcases mem_append.mp member with old | new
        · rcases done run old with isLatin | ⟨length, same⟩
          · exact .inl isLatin
          · refine .inr ⟨length, fun p inside => ?_⟩
            rw [isLevels, fillFrom_outside (kept.disjoint old inside)]
            exact same p inside
        · obtain ⟨value, marks, same⟩ := isSplit.one run new
          refine .inr ⟨isSplit.some_ run new, fun p inside => ?_⟩
          rw [same p inside, marks.2]
      obtain ⟨last, final, lastRun, lastSize, lastLines, lastKept, lastDone⟩ := ih (s := { next with i := next.i + 1 }) front i
        (by rw [size, runsSize]; exact room) nextLines keptSplit nextDone ready.2
      exact ⟨last, final, lastRun, lastSize.trans (size.trans runsSize), lastLines, lastKept, lastDone⟩

def HasScript (unicodes : List Nat) (bidi_levels : Nat → Int) (scripts : Nat → Nat) (run : TextRun) : Prop :=
  (IsLatin unicodes run ∨ ∀ p ∈ runPositions run, bidi_levels p = run.rtl) ∧
    (run.rtl = -1 ∧ run.script = HB_SCRIPT_LATIN ∨ ∀ p ∈ runPositions run, scripts p = run.script)

theorem splitScriptRuns_spec (get_scripts : Nat → List Nat → Nat → Nat) (bidi_levels : Nat → Int) (rest : List TextRun) {s : RunState}
    {scripts : Nat → Nat} {before : List TextRun} (parts : s.runs.front s.nruns = before ++ rest) (here : s.i = before.length)
    (room : unicodes.length ≤ s.runs.size) (linesSize : s.line_descs.size = lines)
    (kept : RunsKept unicodes lines (before ++ rest)) (done : ∀ run ∈ before, HasScript unicodes bidi_levels scripts run)
    (ready : ∀ run ∈ rest, HasLevel unicodes bidi_levels run) :
    ∃ last final, splitScriptRuns get_scripts unicodes rest.length s scripts = some (last, final) ∧
      last.runs.size = s.runs.size ∧ last.line_descs.size = lines ∧ RunsKept unicodes lines (last.runs.front last.nruns) ∧
      ∀ run ∈ last.runs.front last.nruns, HasScript unicodes bidi_levels final run := by
  induction rest generalizing s scripts before with
  | nil =>
    rw [append_nil] at parts kept
    exact ⟨s, scripts, rfl, rfl, linesSize, parts ▸ kept, parts ▸ done⟩
  | cons current rest ih =>
    rw [forall_mem_cons] at ready
    have count := front_length_of parts
    have nruns : s.nruns ≤ s.runs.size := by
      have lengths := length_le_weight (before ++ current :: rest)
      have takes := kept.takes
      rw [← parts, Slots.length_front, parts] at lengths
      omega
    have atCurrent : s.runs.get s.i = current := by
      rw [here]
      exact Slots.get_of_front parts
    -- The script of the current run is stored first.
    have mark (script : Nat) : ∃ runs, s.runs.store s.i { current with script } = some runs ∧ runs.size = s.runs.size ∧
        runs.front s.nruns = before ++ { current with script } :: rest ∧
        RunsKept unicodes lines (before ++ { current with script } :: rest) := by
      refine ⟨{ s.runs with get := Function.update s.runs.get s.i { current with script } }, Slots.store_eq (by omega) _, rfl, ?_, ?_⟩
      · rw [here]
        exact Slots.front_update parts _
      · exact kept.congr (by simp [runShape])
    rw [length_cons, splitScriptRuns, atCurrent]
    dsimp only
    by_cases unmarked : current.rtl = -1
    · obtain ⟨runs, stored, size, front, keptMarked⟩ := mark HB_SCRIPT_LATIN
      rw [if_pos unmarked, stored, bind_eq_bind, bind_some]
      have split : runs.front s.nruns = (before ++ [{ current with script := HB_SCRIPT_LATIN }]) ++ rest := by
        rw [front, append_assoc]
        rfl
      have nextDone : ∀ run ∈ before ++ [{ current with script := HB_SCRIPT_LATIN }], HasScript unicodes bidi_levels scripts run := by
        intro run member
        rcases mem_append.mp member with old | new
        · exact done run old
        · rw [mem_singleton.mp new]
          exact ⟨ready.1.imp id And.right, .inl ⟨unmarked, rfl⟩⟩
      obtain ⟨last, final, lastRun, lastSize, rest_⟩ := ih (s := { s with runs, i := s.i + 1 }) split
        (by rw [length_append, ← here]; rfl) (size ▸ room) linesSize (by rw [← split, front]; exact keptMarked) nextDone ready.2
      exact ⟨last, final, lastRun, lastSize.trans size, rest_⟩
    · obtain ⟨some_, sameLevel⟩ := ready.1.resolve_left fun isLatin => unmarked isLatin.1
      obtain ⟨values, isValues⟩ : ∃ values, values = fillFrom scripts current.offset current.length
        (get_scripts current.offset (runUnicodes unicodes current)) := ⟨_, rfl⟩
      obtain ⟨runs, stored, size, front, keptMarked⟩ := mark (values current.offset)
      rw [if_neg unmarked, ← isValues, stored, bind_eq_bind, bind_some]
      obtain ⟨next, split, run, nextSize, nextLines, nextFront, i, covers, isSplit⟩ := @splitCurrent unicodes lines Nat _ values scriptChange some
        (fun value run => run.line_number = current.line_number ∧ run.rtl = current.rtl ∧ run.script = value)
        (fun value other previous stale _ _ old => ⟨old.1, old.2.1, rfl⟩) (fun value run _ old => old)
        (fun state value _ sizes => ⟨state.line_descs, rfl, sizes⟩) before rest { current with script := values current.offset }
        { s with runs } keptMarked (size ▸ room) front here linesSize some_ ⟨rfl, rfl, rfl⟩
      rw [splitScripts, run, bind_eq_bind, bind_some]
      have line : ∀ run ∈ split, run.line_number = current.line_number := by
        intro run member
        obtain ⟨value, old, _⟩ := isSplit.one run member
        exact old.1
      have keptSplit := keptMarked.split covers isSplit.some_ line some_
      rw [← append_assoc] at keptSplit nextFront
      have nextDone : ∀ run ∈ before ++ split, HasScript unicodes bidi_levels values run := by
        intro run member
        rcases mem_append.mp member with old | new
        · refine ⟨(done run old).1, (done run old).2.imp id fun same p inside => ?_⟩
          rw [isValues, fillFrom_outside (kept.disjoint old inside)]
          exact same p inside
        · obtain ⟨value, marks, same⟩ := isSplit.one run new
          refine ⟨.inr fun p inside => ?_, .inr fun p inside => by rw [same p inside, marks.2.2]⟩
          have within : p ∈ runPositions current := by
            have glyph : p ∈ covered split := mem_flatMap.mpr ⟨run, new, inside⟩
            rw [covers] at glyph
            exact glyph
          rw [marks.2.1]
          exact sameLevel p within
      obtain ⟨last, final, lastRun, lastSize, rest_⟩ := ih (s := { next with i := next.i + 1 }) nextFront i
        (by rw [nextSize]; exact size ▸ room) nextLines keptSplit nextDone ready.2
      exact ⟨last, final, lastRun, lastSize.trans (nextSize.trans size), rest_⟩

/-- The runs take the glyphs that are not line breaks, in text order, each with its line, its level and its script. -/
structure RunsRight (layout : TextLayout) : Prop where
  covers : covered (layout.runs.front layout.nruns) = glyphsBefore layout.unicodes layout.unicodes.length
  number : ∀ run ∈ layout.runs.front layout.nruns, run.line_number = linesBefore layout.unicodes run.offset
  one : ∀ run ∈ layout.runs.front layout.nruns, HasScript layout.unicodes layout.bidi_levels layout.scripts run

theorem latinMark_ready (unicodes : List Nat) (run : TextRun) :
    IsLatin unicodes (latinMark unicodes run) ∨ (latinMark unicodes run).rtl = 0 ∧ 1 ≤ (latinMark unicodes run).length := by
  have same : runUnicodes unicodes (latinMark unicodes run) = runUnicodes unicodes run := rfl
  by_cases latin : unicode_is_latin1 (runUnicodes unicodes run) = true
  · exact .inl ⟨if_pos latin, by rw [same, latin]⟩
  · refine .inr ⟨if_neg latin, Nat.one_le_iff_ne_zero.mpr fun none_ => latin ?_⟩
    have empty : run.length = 0 := none_
    rw [runUnicodes, empty, take_zero]
    rfl

theorem LinesRight.inOrder {s : LineState} (right : LinesRight unicodes s) : LinesInOrder (s.runs.front s.nruns) := by
  constructor
  · intro none_
    have length := congrArg List.length none_
    rw [Slots.length_front] at length
    exact absurd length right.some_.ne'
  · rw [Slots.front, pairwise_map]
    refine List.Pairwise.imp_of_mem ?_ (pairwise_lt_range (n := s.nruns))
    intro a b inA inB less
    rw [right.number a (mem_range.mp inA), right.number b (mem_range.mp inB)]
    exact less.le
  · intro run member k most
    obtain ⟨j, before, rfl⟩ := List.mem_map.mp member
    have inside := mem_range.mp before
    rw [right.number j inside] at most
    exact ⟨s.runs.get k, List.mem_map.mpr ⟨k, mem_range.mpr (by omega), rfl⟩, right.number k (by omega)⟩

theorem layoutRuns_spec (libraries : LayoutLibraries) {unicodes : List Nat} {slots : Nat} (some_ : unicodes ≠ [])
    (room : unicodes.length ≤ slots) (few : unicodes.count 10 < slots) :
    ∃ layout, layoutRuns libraries unicodes slots = some layout ∧ layout.unicodes = unicodes ∧ RunsRight layout ∧
      LinesInOrder (layout.runs.front layout.nruns) := by
  obtain ⟨s, run, size, right⟩ := @lineRuns_spec unicodes some_ ⟨slots, libraries.runs⟩ few
  have last := right.some_
  have number := right.number (s.nruns - 1) (by omega)
  obtain ⟨line_descs, isDescs⟩ : ∃ line_descs : Slots LineRtl, line_descs =
      ⟨if s.nruns > STATIC_LINES then s.nruns else STATIC_LINES, libraries.line_descs⟩ := ⟨_, rfl⟩
  have enough : s.nruns ≤ line_descs.size := by
    rw [isDescs]
    show s.nruns ≤ if s.nruns > STATIC_LINES then s.nruns else STATIC_LINES
    split <;> omega
  have lengths := length_le_weight (s.runs.front s.nruns)
  rw [Slots.length_front] at lengths
  have takes := right.takes
  have runsRoom : unicodes.length ≤ s.runs.size := by rw [size]; exact room
  obtain ⟨marked, descs, mark, markedSize, descsSize, front⟩ := @markLatin_spec unicodes (s.runs.front s.nruns) 0
    s.nruns s.runs line_descs [] rfl rfl (lengths.trans (takes.trans runsRoom)) enough
  rw [Slots.length_front] at mark
  rw [nil_append] at front
  have kept : RunsKept unicodes line_descs.size ([] ++ marked.front s.nruns) := by
    have lines : RunsKept unicodes line_descs.size (s.runs.front s.nruns) := by
      refine ⟨right.covers, right.lines, fun run member => ?_, takes, right.inOrder⟩
      obtain ⟨k, before, rfl⟩ := List.mem_map.mp member
      have before := mem_range.mp before
      rw [right.number k before]
      omega
    apply lines.congr
    rw [nil_append, front, List.map_map]
    rfl
  have ready : ∀ run ∈ marked.front s.nruns, IsLatin unicodes run ∨ run.rtl = 0 ∧ 1 ≤ run.length := by
    rw [front]
    intro run member
    obtain ⟨line, _, rfl⟩ := List.mem_map.mp member
    exact latinMark_ready unicodes line
  obtain ⟨bidi, bidi_levels, bidiRun, bidiSize, bidiDescs, bidiKept, bidiDone⟩ := @splitBidiRuns_spec unicodes line_descs.size
    libraries.fribidi_levels (marked.front s.nruns) ⟨marked, s.nruns, 0, descs⟩ (fun _ => 0) [] rfl rfl
    (by rw [markedSize]; exact runsRoom) descsSize kept (fun _ member => absurd member not_mem_nil) ready
  rw [Slots.length_front] at bidiRun
  obtain ⟨final, scripts, finalRun, _, _, finalKept, finalDone⟩ := @splitScriptRuns_spec unicodes line_descs.size libraries.get_scripts
    bidi_levels (bidi.runs.front bidi.nruns) { bidi with i := 0 } (fun _ => 0) [] rfl rfl
    (by
      show unicodes.length ≤ bidi.runs.size
      rw [bidiSize]
      exact markedSize ▸ runsRoom)
    bidiDescs bidiKept (fun _ member => absurd member not_mem_nil) bidiDone
  rw [Slots.length_front] at finalRun
  refine ⟨⟨unicodes, final.runs, final.nruns, final.line_descs, bidi_levels, scripts⟩, ?_, rfl,
    ⟨finalKept.covers, finalKept.number, finalDone⟩, finalKept.order⟩
  have count : (s.runs.get (s.nruns - 1)).line_number + 1 = s.nruns := by omega
  simp only [layoutRuns, bind_eq_bind, run, bind_some, count, ← isDescs, mark, bidiRun, finalRun]

theorem layoutRuns_room {libraries : LayoutLibraries} {unicodes : List Nat} {slots : Nat} {layout : TextLayout}
    (run : layoutRuns libraries unicodes slots = some layout) : unicodes.count 10 < slots := by
  obtain ⟨lines, run, _⟩ := bind_eq_some_iff.mp run
  exact lineRuns_room run

/-- All stores are in the arrays and the runs are right, unless the text is so many line breaks that they take all slots. -/
theorem msLayoutTextSymbol_runs (libraries : LayoutLibraries) (wrap : UInt8) (maxlength : Int) (annotext : CString) :
    (∃ layout, msLayoutTextSymbol libraries wrap maxlength annotext = some layout ∧
      layout.unicodes = layoutUnicodes libraries.mapentities wrap maxlength annotext ∧ RunsRight layout) ↔
    ¬ (STATIC_GLYPHS ≤ annotext.length ∧
      layoutUnicodes libraries.mapentities wrap maxlength annotext = List.replicate annotext.length 10) := by
  have bytes := length_layoutUnicodes libraries.mapentities wrap maxlength annotext
  unfold msLayoutTextSymbol
  dsimp only
  generalize layoutUnicodes libraries.mapentities wrap maxlength annotext = unicodes at bytes ⊢
  obtain ⟨slots, isSlots⟩ : ∃ slots, slots = if annotext.length > STATIC_GLYPHS then annotext.length else STATIC_GLYPHS := ⟨_, rfl⟩
  rw [← isSlots]
  have most := count_le_length (a := 10) (l := unicodes)
  have static : STATIC_GLYPHS = 100 := rfl
  by_cases some_ : unicodes = []
  · rw [if_pos some_]
    refine iff_of_true ⟨_, rfl, rfl, ?_⟩ ?_
    · subst some_
      exact ⟨rfl, fun _ member => absurd member List.not_mem_nil, fun _ member => absurd member List.not_mem_nil⟩
    · rintro ⟨long, breaks⟩
      have length := congrArg List.length breaks
      rw [some_, length_replicate, List.length_nil] at length
      omega
  · rw [if_neg some_]
    constructor
    · rintro ⟨layout, run, _⟩ ⟨long, breaks⟩
      have few := layoutRuns_room run
      rw [breaks, count_replicate_self, isSlots] at few
      split at few <;> omega
    · intro spare
      have room : unicodes.length ≤ slots := by
        rw [isSlots]
        split <;> omega
      have few : unicodes.count 10 < slots := by
        rw [isSlots]
        by_contra full
        apply spare
        have all : unicodes.count 10 = unicodes.length := by split at full <;> omega
        have length : unicodes.length = annotext.length := by split at full <;> omega
        refine ⟨by split at full <;> omega, ?_⟩
        rw [← length]
        exact eq_replicate_iff.mpr ⟨rfl, fun unicode member => (count_eq_length.mp all unicode member).symm⟩
      obtain ⟨layout, run, same, right, _⟩ := layoutRuns_spec libraries some_ room few
      exact ⟨layout, run, same, right⟩

theorem msLayoutTextSymbol_order {libraries : LayoutLibraries} {wrap : UInt8} {maxlength : Int} {annotext : CString} {layout : TextLayout}
    (run : msLayoutTextSymbol libraries wrap maxlength annotext = some layout) (some_ : layout.unicodes ≠ []) :
    RunsRight layout ∧ LinesInOrder (layout.runs.front layout.nruns) := by
  have bytes := length_layoutUnicodes libraries.mapentities wrap maxlength annotext
  unfold msLayoutTextSymbol at run
  dsimp only at run
  generalize layoutUnicodes libraries.mapentities wrap maxlength annotext = unicodes at bytes run
  split at run
  · rename_i none_
    cases run
    exact absurd none_ some_
  · rename_i glyphs
    obtain ⟨other, isOther, _, right, order⟩ := layoutRuns_spec libraries glyphs (by split <;> omega) (layoutRuns_room run)
    rw [run] at isOther
    cases isOther
    exact ⟨right, order⟩

def plainLibraries : LayoutLibraries where
  mapentities := []
  fribidi_levels _ _ _ := 0
  get_scripts _ _ _ := HB_SCRIPT_LATIN
  runs _ := ⟨0, 0, 0, 0, 0⟩
  line_descs _ := .MS_RTL_LTR

theorem line_breaks_leave_runs : msLayoutTextSymbol plainLibraries 0 0 (List.replicate 100 10) = none := by
  have unicodes : layoutUnicodes [] 0 0 (replicate 100 10) = replicate 100 10 := by decide +kernel
  have slots : (if (replicate 100 (10 : UInt8)).length > STATIC_GLYPHS then (replicate 100 (10 : UInt8)).length
    else STATIC_GLYPHS) = 100 := rfl
  unfold msLayoutTextSymbol
  dsimp only
  rw [show plainLibraries.mapentities = [] from rfl, unicodes, slots, if_neg (by decide)]
  cases run : layoutRuns plainLibraries (replicate 100 10) 100 with
  | none => rfl
  | some layout =>
    have room := layoutRuns_room run
    rw [count_replicate_self] at room
    exact absurd room (Nat.lt_irrefl 100)

end MapServer
