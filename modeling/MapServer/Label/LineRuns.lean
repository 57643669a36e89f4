import MapServer.Label.TextRuns

namespace MapServer
open Lib List Option Function

def runPositions (run : TextRun) : List Nat := List.range' run.offset run.length

def covered (runs : List TextRun) : List Nat := runs.flatMap runPositions

def glyphsBefore (unicodes : List Nat) (p : Nat) : List Nat := (List.range p).filter fun q => unicodes[q]? ≠ some 10

def linesBefore (unicodes : List Nat) (p : Nat) : Nat := (unicodes.take p).count 10

theorem linesBefore_succ (unicodes : List Nat) (p : Nat) :
    linesBefore unicodes (p + 1) = linesBefore unicodes p + if unicodes[p]? = some 10 then 1 else 0 := by
  unfold linesBefore
  rw [take_add_one, count_append]
  congr 1
  cases unicodes[p]? with
  | none => rfl
  | some unicode =>
    rw [toList_some, count_singleton]
    simp only [beq_iff_eq, Option.some.injEq]

theorem linesBefore_same {unicodes : List Nat} {start p : Nat} (later : start ≤ p)
    (line : ∀ q, start ≤ q → q < p → unicodes[q]? ≠ some 10) : linesBefore unicodes p = linesBefore unicodes start := by
  induction later with
  | refl => rfl
  | @step p later ih =>
    rw [linesBefore_succ, if_neg (line p later (Nat.lt_succ_self p)), Nat.add_zero]
    exact ih fun q low high => line q low (Nat.lt_succ_of_lt high)

theorem linesBefore_le (unicodes : List Nat) (p : Nat) : linesBefore unicodes p ≤ unicodes.count 10 :=
  (take_sublist p unicodes).count_le 10

theorem glyphsBefore_line {unicodes : List Nat} {start p : Nat} (later : start ≤ p)
    (line : ∀ q, start ≤ q → q < p → unicodes[q]? ≠ some 10) :
    glyphsBefore unicodes p = glyphsBefore unicodes start ++ range' start (p - start) := by
  induction later with
  | refl => rw [Nat.sub_self, range'_zero, append_nil]
  | @step p later ih =>
    have here := line p later (Nat.lt_succ_self p)
    have before := ih fun q low high => line q low (Nat.lt_succ_of_lt high)
    rw [glyphsBefore, range_succ, filter_append, ← glyphsBefore, before, Nat.succ_sub later, range'_1_concat,
      filter_cons_of_pos (by simpa using here), filter_nil, append_assoc, Nat.add_sub_cancel' later]

def weight (runs : List TextRun) : Nat := (runs.map fun run => max 1 run.length).sum

theorem length_le_weight (runs : List TextRun) : runs.length ≤ weight runs := by
  induction runs with
  | nil => exact Nat.le_refl _
  | cons run runs ih =>
    rw [weight, map_cons, sum_cons, length_cons]
    unfold weight at ih
    omega

theorem weight_append (runs others : List TextRun) : weight (runs ++ others) = weight runs + weight others := by
  rw [weight, map_append, sum_append]
  rfl

/-- What holds after the glyphs before `i`. -/
structure LinesSplit (unicodes : List Nat) (i : Nat) (s : LineState) : Prop where
  room : s.nruns < s.runs.size
  start : s.start ≤ i
  line : ∀ p, s.start ≤ p → p < i → unicodes[p]? ≠ some 10
  behind : s.start = 0 ∨ unicodes[s.start - 1]? = some 10
  current : (s.runs.get s.nruns).offset = s.start
  number : ∀ k ≤ s.nruns, (s.runs.get k).line_number = k
  count : linesBefore unicodes s.start = s.nruns
  covers : covered (s.runs.front s.nruns) = glyphsBefore unicodes s.start
  lines : ∀ run ∈ s.runs.front s.nruns, run.line_number = linesBefore unicodes run.offset
  takes : weight (s.runs.front s.nruns) ≤ s.start

theorem breakLine_spec {i : Nat} {s : LineState} (room : s.nruns + 1 < s.runs.size) :
    ∃ after, breakLine i s = some after ∧ after.runs.size = s.runs.size ∧ after.nruns = s.nruns + 1 ∧ after.start = i + 1 ∧
      (∀ k < s.nruns, after.runs.get k = s.runs.get k) ∧
      after.runs.get s.nruns = { s.runs.get s.nruns with length := i - s.start } ∧
      (after.runs.get (s.nruns + 1)).offset = i + 1 ∧
      (after.runs.get (s.nruns + 1)).line_number = (s.runs.get s.nruns).line_number + 1 := by
  obtain ⟨closed, isClosed⟩ : ∃ closed, closed = { s.runs.get s.nruns with length := i - s.start } := ⟨_, rfl⟩
  obtain ⟨runs, isRuns⟩ : ∃ runs, runs = { s.runs with get := update s.runs.get s.nruns closed } := ⟨_, rfl⟩
  have first : s.runs.store s.nruns closed = some runs := by
    rw [isRuns]
    exact Slots.store_eq (by omega) closed
  have size : runs.size = s.runs.size := by rw [isRuns]
  have here : runs.get s.nruns = closed := by rw [isRuns]; exact update_self ..
  obtain ⟨opened, isOpened⟩ : ∃ opened, opened =
      { runs.get (s.nruns + 1) with line_number := (runs.get s.nruns).line_number + 1, offset := i + 1 } := ⟨_, rfl⟩
  have second : runs.store (s.nruns + 1) opened =
      some { runs with get := update runs.get (s.nruns + 1) opened } := Slots.store_eq (by omega) opened
  refine ⟨⟨{ runs with get := update runs.get (s.nruns + 1) opened }, s.nruns + 1, i + 1⟩, ?_, size, rfl, rfl, ?_, ?_, ?_, ?_⟩
  · rw [breakLine, ← isClosed, first, bind_eq_bind, bind_some, ← isOpened, second]
    rfl
  · intro k before
    show update runs.get (s.nruns + 1) opened k = _
    rw [update_of_ne (by omega), isRuns]
    exact update_of_ne (by omega) _ _
  · show update runs.get (s.nruns + 1) opened s.nruns = _
    rw [update_of_ne (by omega), here, isClosed]
  · show (update runs.get (s.nruns + 1) opened (s.nruns + 1)).offset = _
    rw [update_self, isOpened]
  · show (update runs.get (s.nruns + 1) opened (s.nruns + 1)).line_number = _
    rw [update_self, isOpened, here, isClosed]

theorem front_congr {runs others : Slots TextRun} {count : Nat} (same : ∀ k < count, runs.get k = others.get k) :
    runs.front count = others.front count :=
  map_congr_left fun k member => same k (mem_range.mp member)

theorem LinesSplit.closed {unicodes : List Nat} {i : Nat} {s : LineState} (split : LinesSplit unicodes i s) {runs : Slots TextRun}
    (kept : ∀ k < s.nruns, runs.get k = s.runs.get k)
    (closed : runs.get s.nruns = { s.runs.get s.nruns with length := i - s.start }) :
    covered (runs.front (s.nruns + 1)) = glyphsBefore unicodes i ∧
      (∀ run ∈ runs.front (s.nruns + 1), run.line_number = linesBefore unicodes run.offset) ∧
      weight (runs.front (s.nruns + 1)) ≤ s.start + max 1 (i - s.start) := by
  rw [Slots.front_succ, front_congr kept, closed]
  refine ⟨?_, ?_, ?_⟩
  · rw [covered, flatMap_append, ← covered, split.covers, flatMap_singleton, runPositions]
    show _ ++ range' (s.runs.get s.nruns).offset _ = _
    rw [split.current, glyphsBefore_line split.start split.line]
  · intro run member
    rcases mem_append.mp member with old | new
    · exact split.lines run old
    · rw [mem_singleton.mp new]
      show (s.runs.get s.nruns).line_number = linesBefore unicodes (s.runs.get s.nruns).offset
      rw [split.number _ (Nat.le_refl _), split.current, split.count]
  · rw [weight_append]
    have takes := split.takes
    show _ + (max 1 (i - s.start) + 0) ≤ _
    omega

theorem LinesSplit.breakLine {unicodes : List Nat} {i : Nat} {s : LineState} (split : LinesSplit unicodes i s)
    (lineEnd : unicodes[i]? = some 10) (room : s.nruns + 1 < s.runs.size) :
    ∃ after, MapServer.breakLine i s = some after ∧ after.runs.size = s.runs.size ∧ LinesSplit unicodes (i + 1) after := by
  obtain ⟨after, run, size, nruns, start, kept, closed, offset, number⟩ := breakLine_spec (i := i) room
  obtain ⟨covers, lines, takes⟩ := split.closed kept closed
  refine ⟨after, run, size, ?_⟩
  constructor
  · omega
  · omega
  · intro p low high
    omega
  · right
    rw [start, Nat.add_sub_cancel]
    exact lineEnd
  · rw [nruns, start]
    exact offset
  · intro k most
    rcases Nat.lt_or_eq_of_le (nruns ▸ most) with before | rfl
    · rcases Nat.lt_or_eq_of_le (Nat.le_of_lt_succ before) with before | rfl
      · rw [kept k before]
        exact split.number k (Nat.le_of_lt before)
      · rw [closed]
        exact split.number _ (Nat.le_refl _)
    · rw [number, split.number _ (Nat.le_refl _)]
  · rw [start, nruns, linesBefore_succ, if_pos lineEnd, linesBefore_same split.start split.line, split.count]
  · rw [nruns, covers, start, glyphsBefore, glyphsBefore, range_succ, filter_append,
      filter_cons_of_neg (by simpa using lineEnd), filter_nil, append_nil]
  · rw [nruns]
    exact lines
  · have first := split.start
    rw [nruns, start]
    omega

theorem splitLines_spec {unicodes : List Nat} (rest : List Nat) {i : Nat} {s : LineState} (isRest : unicodes.drop i = rest)
    (split : LinesSplit unicodes i s) (few : unicodes.count 10 < s.runs.size) :
    ∃ after, splitLines rest i s = some after ∧ after.runs.size = s.runs.size ∧ LinesSplit unicodes (i + rest.length) after := by
  induction rest generalizing i s with
  | nil => exact ⟨s, rfl, rfl, split⟩
  | cons unicode rest ih =>
    have here : unicodes[i]? = some unicode := by
      rw [← head?_drop, isRest]
      rfl
    have next : unicodes.drop (i + 1) = rest := by rw [← tail_drop, isRest]; rfl
    have total : i + (unicode :: rest).length = i + 1 + rest.length := by
      rw [length_cons]
      omega
    rw [total, splitLines]
    by_cases isBreak : unicode = 10
    · have lineEnd : unicodes[i]? = some 10 := by rw [here, isBreak]
      have after : linesBefore unicodes (i + 1) = s.nruns + 1 := by
        rw [linesBefore_succ, if_pos lineEnd, linesBefore_same split.start split.line, split.count]
      have most := linesBefore_le unicodes (i + 1)
      obtain ⟨broken, run, size, split⟩ := split.breakLine lineEnd (by omega)
      rw [if_neg (not_not_intro isBreak), run, bind_eq_bind, bind_some]
      obtain ⟨last, rest, sizes, done⟩ := ih next split (by omega)
      exact ⟨last, rest, sizes.trans size, done⟩
    · rw [if_pos isBreak]
      apply ih next _ few
      exact {
        split with
        start := Nat.le_succ_of_le split.start
        line := by
          intro p low high
          rcases Nat.lt_or_eq_of_le (Nat.le_of_lt_succ high) with before | rfl
          · exact split.line p low before
          · rw [here]
            exact fun same => isBreak (Option.some.inj same) }

theorem splitLines_room {rest : List Nat} {i : Nat} {s after : LineState} (run : splitLines rest i s = some after)
    (room : s.nruns < s.runs.size) : s.nruns + rest.count 10 < s.runs.size := by
  induction rest generalizing i s with
  | nil => exact room
  | cons unicode rest ih =>
    rw [splitLines] at run
    by_cases isBreak : unicode = 10
    · rw [if_neg (not_not_intro isBreak)] at run
      obtain ⟨broken, first, run⟩ := bind_eq_some_iff.mp run
      obtain ⟨runs, stored, first⟩ := bind_eq_some_iff.mp first
      obtain ⟨others, opened, first⟩ := bind_eq_some_iff.mp first
      cases first
      obtain ⟨_, rfl⟩ := Slots.store_some stored
      obtain ⟨inside, rfl⟩ := Slots.store_some opened
      have later := ih run inside
      rw [isBreak, count_cons_self]
      have total : s.nruns + 1 + rest.count 10 < s.runs.size := later
      omega
    · rw [if_pos isBreak] at run
      rw [count_cons_of_ne isBreak]
      exact ih run room

structure LinesRight (unicodes : List Nat) (s : LineState) : Prop where
  some_ : 0 < s.nruns
  number : ∀ k < s.nruns, (s.runs.get k).line_number = k
  covers : covered (s.runs.front s.nruns) = glyphsBefore unicodes unicodes.length
  lines : ∀ run ∈ s.runs.front s.nruns, run.line_number = linesBefore unicodes run.offset
  takes : weight (s.runs.front s.nruns) ≤ unicodes.length

theorem closeLastLine_spec {unicodes : List Nat} (some_ : unicodes ≠ []) {s : LineState}
    (split : LinesSplit unicodes unicodes.length s) :
    ∃ after, closeLastLine unicodes s = some after ∧ after.runs.size = s.runs.size ∧ LinesRight unicodes after := by
  have length := length_pos_iff.mpr some_
  unfold closeLastLine
  rw [getLast?_eq_getElem?]
  by_cases ends : unicodes[unicodes.length - 1]? = some 10
  · rw [if_pos ends]
    have start : s.start = unicodes.length := by
      by_contra before
      have first := split.start
      exact split.line (unicodes.length - 1) (by omega) (by omega) ends
    have count := split.count
    rw [start] at count
    refine ⟨s, rfl, rfl, ?_, fun k before => split.number k (Nat.le_of_lt before), ?_, split.lines, start ▸ split.takes⟩
    · have last := linesBefore_succ unicodes (unicodes.length - 1)
      rw [if_pos ends, Nat.sub_add_cancel length, count] at last
      omega
    · rw [split.covers, start]
  · rw [if_neg ends, Slots.store_eq split.room, bind_eq_bind, bind_some]
    obtain ⟨closed, isClosed⟩ : ∃ closed, closed = { s.runs.get s.nruns with length := unicodes.length - s.start } := ⟨_, rfl⟩
    rw [← isClosed]
    have kept : ∀ k < s.nruns, update s.runs.get s.nruns closed k = s.runs.get k := fun k before =>
      update_of_ne (by omega) _ _
    have here : update s.runs.get s.nruns closed s.nruns = closed := update_self ..
    obtain ⟨covers, lines, takes⟩ := @LinesSplit.closed _ _ _ split ⟨s.runs.size, update s.runs.get s.nruns closed⟩ kept
      (here.trans isClosed)
    have open_ : s.start < unicodes.length := by
      have first := split.start
      rcases split.behind with none_ | behind
      · omega
      · rcases Nat.lt_or_eq_of_le first with inside | same
        · exact inside
        · rw [same] at behind
          exact absurd behind ends
    refine ⟨_, rfl, rfl, Nat.succ_pos _, ?_, covers, lines, takes.trans (by omega)⟩
    intro k before
    rcases Nat.lt_or_eq_of_le (Nat.le_of_lt_succ before) with before | rfl
    · show (update s.runs.get s.nruns closed k).line_number = k
      rw [kept k before]
      exact split.number k (Nat.le_of_lt before)
    · show (update s.runs.get s.nruns closed s.nruns).line_number = s.nruns
      rw [here, isClosed]
      exact split.number _ (Nat.le_refl _)

theorem lineRuns_spec {unicodes : List Nat} (some_ : unicodes ≠ []) {runs : Slots TextRun}
    (few : unicodes.count 10 < runs.size) :
    ∃ s, lineRuns unicodes runs = some s ∧ s.runs.size = runs.size ∧ LinesRight unicodes s := by
  obtain ⟨first, isFirst⟩ : ∃ first, first = { runs.get 0 with offset := 0, line_number := 0 } := ⟨_, rfl⟩
  have room : 0 < runs.size := by omega
  have start : LinesSplit unicodes 0 ⟨⟨runs.size, update runs.get 0 first⟩, 0, 0⟩ := by
    have here : update runs.get 0 first 0 = first := update_self ..
    refine ⟨room, Nat.le_refl 0, fun p _ none_ => absurd none_ (Nat.not_lt_zero p), .inl rfl, ?_, ?_, rfl, rfl, nofun,
      Nat.le_refl 0⟩
    · show (update runs.get 0 first 0).offset = 0
      rw [here, isFirst]
    · intro k most
      obtain rfl := Nat.le_zero.mp most
      show (update runs.get 0 first 0).line_number = 0
      rw [here, isFirst]
  obtain ⟨split, run, size, done⟩ := splitLines_spec unicodes rfl start few
  rw [Nat.zero_add] at done
  obtain ⟨last, closed, sizes, right⟩ := closeLastLine_spec some_ done
  refine ⟨last, ?_, sizes.trans size, right⟩
  rw [lineRuns, ← isFirst, Slots.store_eq room, bind_eq_bind, bind_some]
  show (splitLines unicodes 0 _).bind _ = _
  rw [run]
  exact closed

theorem lineRuns_room {unicodes : List Nat} {runs : Slots TextRun} {s : LineState} (run : lineRuns unicodes runs = some s) :
    unicodes.count 10 < runs.size := by
  obtain ⟨first, stored, run⟩ := bind_eq_some_iff.mp run
  obtain ⟨split, run, _⟩ := bind_eq_some_iff.mp run
  obtain ⟨room, rfl⟩ := Slots.store_some stored
  have count := splitLines_room run room
  rw [Nat.zero_add] at count
  exact count

end MapServer
