import MapServer.Label.LineRuns

namespace MapServer
open Lib List Option Function

theorem newRun_spec {change : TextRun → TextRun → TextRun} {position : Nat} {s : RunState} {before after : List TextRun}
    {current : TextRun} (parts : s.runs.front s.nruns = before ++ current :: after) (here : s.i = before.length)
    (room : s.nruns < s.runs.size) :
    ∃ next stale, newRun change position s = some next ∧ next.runs.size = s.runs.size ∧ next.nruns = s.nruns + 1 ∧
      next.i = s.i + 1 ∧ next.line_descs = s.line_descs ∧
      next.runs.front (s.nruns + 1) = before ++ { current with length := position - current.offset } ::
        { change current stale with offset := position, length := (current.offset + current.length) - position } :: after := by
  have length := congrArg List.length parts
  rw [Slots.length_front, length_append, length_cons] at length
  have split : s.runs.front s.nruns = (before ++ [current]) ++ after := by
    rw [parts, append_assoc]
    rfl
  obtain ⟨moved, move, size, stale, front⟩ := Slots.front_insert split room
  have lengthBefore : (before ++ [current]).length = s.i + 1 := by rw [length_append, here]; rfl
  rw [lengthBefore] at move
  have countAfter : s.nruns + 1 - s.i - 2 = after.length := by omega
  have shape : moved.front (s.nruns + 1) = before ++ current :: stale :: after := by
    rw [front, append_assoc]
    rfl
  have atCurrent : moved.get s.i = current := by
    rw [here]
    exact Slots.get_of_front shape
  have atNew : moved.get (s.i + 1) = stale := by
    rw [← lengthBefore]
    exact Slots.get_of_front front
  obtain ⟨new, isNew⟩ : ∃ new, new = { change current stale with
    offset := position, length := (current.offset + current.length) - position } := ⟨_, rfl⟩
  obtain ⟨shorter, isShorter⟩ : ∃ shorter, shorter = { current with length := position - current.offset } := ⟨_, rfl⟩
  obtain ⟨stored, isStored⟩ : ∃ stored, stored = { moved with get := Function.update moved.get (s.i + 1) new } := ⟨_, rfl⟩
  have first : moved.store (s.i + 1) new = some stored := by
    rw [isStored]
    exact Slots.store_eq (by omega) new
  have storedFront : stored.front (s.nruns + 1) = before ++ current :: new :: after := by
    have update := Slots.front_update front new
    rw [lengthBefore, ← isStored, append_assoc] at update
    exact update
  have stillCurrent : stored.get s.i = current := by
    rw [isStored]
    show Function.update moved.get (s.i + 1) new s.i = current
    rw [update_of_ne (by omega), atCurrent]
  have storedSize : stored.size = s.runs.size := by rw [isStored, ← size]
  have second : stored.store s.i shorter = some { stored with get := Function.update stored.get s.i shorter } :=
    Slots.store_eq (by omega) shorter
  refine ⟨{ s with
    runs := { stored with get := Function.update stored.get s.i shorter }, nruns := s.nruns + 1, i := s.i + 1 }, stale, ?_,
    storedSize, rfl, rfl, rfl, ?_⟩
  · simp only [newRun, bind_eq_bind, countAfter, move, bind_some, Nat.add_sub_cancel, atCurrent, atNew, ← isNew, first,
      stillCurrent, ← isShorter, second]
  · rw [← isShorter, ← isNew, here]
    exact Slots.front_update storedFront shorter

structure SplitBy {β : Type} (array : Nat → β) (Marked : β → TextRun → Prop) (runs : List TextRun) : Prop where
  some_ : ∀ run ∈ runs, 1 ≤ run.length
  one : ∀ run ∈ runs, ∃ value, Marked value run ∧ ∀ p ∈ runPositions run, array p = value

theorem length_covered (runs : List TextRun) : (covered runs).length = (runs.map (·.length)).sum := by
  rw [covered, length_flatMap]
  congr 1
  apply map_congr_left
  intro run _
  rw [runPositions, length_range']

theorem length_le_covered {runs : List TextRun} (some_ : ∀ run ∈ runs, 1 ≤ run.length) : runs.length ≤ (covered runs).length := by
  rw [length_covered]
  induction runs with
  | nil => exact Nat.le_refl _
  | cons run runs ih =>
    rw [forall_mem_cons] at some_
    have later := ih some_.2
    rw [map_cons, sum_cons, length_cons]
    omega

theorem splitRunBy_spec {β : Type} [DecidableEq β] {array : Nat → β} {change : β → TextRun → TextRun → TextRun}
    {note : RunState → Option RunState} {Marked : β → TextRun → Prop} {lines : Nat}
    (changed : ∀ value other previous stale offset length, Marked other previous →
      Marked value { change value previous stale with offset, length })
    (shorter : ∀ value run length, Marked value run → Marked value { run with length })
    (noted : ∀ s value, Marked value (s.runs.get s.i) → s.line_descs.size = lines →
      ∃ line_descs, note s = some { s with line_descs } ∧ line_descs.size = lines)
    {before after : List TextRun} {o len size : Nat} (room : before.length + len + after.length ≤ size) (left : Nat) {j : Nat}
    {previous : β} {s : RunState} (total : j + left = len) {done : List TextRun} {current : TextRun}
    (parts : s.runs.front s.nruns = before ++ (done ++ current :: after)) (here : s.i = before.length + done.length)
    (runsSize : s.runs.size = size) (linesSize : s.line_descs.size = lines) (marked : Marked previous current)
    (covers : covered (done ++ [current]) = range' o len) (low : o ≤ current.offset) (high : current.offset < o + j)
    (ends : current.offset + current.length = o + len) (uniform : ∀ p, current.offset ≤ p → p < o + j → array p = previous)
    (split : SplitBy array Marked done) :
    ∃ next runs, splitRunBy array change note o left j previous s = some next ∧ next.runs.size = size ∧
      next.line_descs.size = lines ∧ next.runs.front next.nruns = before ++ (runs ++ after) ∧
      next.i + 1 = before.length + runs.length ∧ covered runs = range' o len ∧ SplitBy array Marked runs := by
  induction left generalizing j previous s done current with
  | zero =>
    refine ⟨s, done ++ [current], rfl, runsSize, linesSize, ?_, ?_, covers, ?_, ?_⟩
    · rw [parts, append_assoc]
      rfl
    · rw [here, length_append, length_singleton, Nat.add_assoc]
    · intro run member
      rcases mem_append.mp member with old | new
      · exact split.some_ run old
      · rw [mem_singleton.mp new]
        omega
    · intro run member
      rcases mem_append.mp member with old | new
      · exact split.one run old
      · rw [mem_singleton.mp new]
        refine ⟨previous, marked, fun p inside => ?_⟩
        rw [runPositions, mem_range'_1] at inside
        exact uniform p inside.1 (by omega)
  | succ left ih =>
    have lengths := length_le_covered split.some_
    have all := congrArg List.length covers
    rw [covered, flatMap_append, length_append, ← covered, ← covered, length_covered [current], length_range',
      map_singleton, sum_singleton] at all
    have front := congrArg List.length parts
    rw [Slots.length_front, length_append, length_append, length_cons] at front
    have atCurrent : s.runs.get s.i = current := by
      rw [here, ← length_append]
      have shape : s.runs.front s.nruns = (before ++ done) ++ current :: after := by rw [parts, append_assoc]
      exact Slots.get_of_front shape
    rw [splitRunBy]
    by_cases same : array (o + j) = previous
    · rw [if_neg (not_not_intro same)]
      apply ih (by omega) parts here runsSize linesSize marked covers low (by omega) ends _ split
      intro p first last
      rcases Nat.lt_or_eq_of_le (Nat.le_of_lt_succ last) with before | rfl
      · exact uniform p first before
      · exact same
    · rw [if_pos same]
      obtain ⟨line_descs, note, sizes⟩ := noted s previous (by rw [atCurrent]; exact marked) linesSize
      have shape : s.runs.front s.nruns = (before ++ done) ++ current :: after := by rw [parts, append_assoc]
      obtain ⟨next, stale, run, nextSize, nruns, i, descs, nextFront⟩ := @newRun_spec (change (array (o + j))) (o + j)
        { s with line_descs } (before ++ done) after current shape (by rw [here, length_append]) (by
          show s.nruns < s.runs.size
          omega)
      rw [note, bind_eq_bind, bind_some, run, bind_some]
      obtain ⟨shortened, isShortened⟩ : ∃ shortened, shortened = { current with length := o + j - current.offset } := ⟨_, rfl⟩
      obtain ⟨new, isNew⟩ : ∃ new, new = { change (array (o + j)) current stale with
        offset := o + j, length := current.offset + current.length - (o + j) } := ⟨_, rfl⟩
      rw [← isShortened, ← isNew] at nextFront
      have offset : shortened.offset = current.offset := by rw [isShortened]
      have length : shortened.length = o + j - current.offset := by rw [isShortened]
      have newOffset : new.offset = o + j := by rw [isNew]
      have newLength : new.length = current.offset + current.length - (o + j) := by rw [isNew]
      have nextParts : next.runs.front next.nruns = before ++ ((done ++ [shortened]) ++ new :: after) := by
        rw [nruns]
        refine nextFront.trans ?_
        rw [append_assoc, append_assoc]
        rfl
      have newMarked : Marked (array (o + j)) new := by
        rw [isNew]
        exact changed _ _ _ _ _ _ marked
      have nextCovers : covered ((done ++ [shortened]) ++ [new]) = range' o len := by
        have joined : runPositions shortened ++ runPositions new = runPositions current := by
          rw [runPositions, runPositions, runPositions, offset, length, newOffset, newLength]
          have position : o + j = current.offset + (o + j - current.offset) := by omega
          have rest : current.length = (o + j - current.offset) + (current.offset + current.length - (o + j)) := by omega
          rw [rest, ← range'_append_1, ← position, ← rest]
        rw [← covers, covered, covered, flatMap_append, flatMap_append, flatMap_append, append_assoc,
          flatMap_singleton, flatMap_singleton, flatMap_singleton, joined]
      have nextSplit : SplitBy array Marked (done ++ [shortened]) := by
        constructor
        · intro run member
          rcases mem_append.mp member with old | new
          · exact split.some_ run old
          · rw [mem_singleton.mp new, length]
            omega
        · intro run member
          rcases mem_append.mp member with old | new
          · exact split.one run old
          · rw [mem_singleton.mp new]
            refine ⟨previous, isShortened ▸ shorter _ _ _ marked, fun p inside => ?_⟩
            rw [runPositions, mem_range'_1, offset, length] at inside
            exact uniform p inside.1 (by omega)
      apply ih (by omega) nextParts _ (nextSize.trans runsSize) (by rw [descs]; exact sizes) newMarked nextCovers (by omega) (by omega)
        (by omega) _ nextSplit
      · rw [i, length_append, length_singleton, ← Nat.add_assoc, ← here]
      · intro p first last
        rw [show p = o + j by omega]

end MapServer
