import MapServer.Decimal
import MapServer.Lib.Loop
import MapServer.Query.ResultFile
import MapServer.Strings.SplitComplex

/-!
The rows of the table are loaded once. The number of the columns of the last row then stands for that of every row. `none` is a
read at or past the columns of a row.
-/

namespace MapServer
open Lib.Loop List Option

inductive CsvJoinStatus where
  | MS_SUCCESS | MS_DONE
  deriving DecidableEq

structure CsvJoinInfo where
  fromindex : Nat
  toindex : Nat
  target : Option CString
  rows : List (List CString)
  nextrow : Nat

structure JoinObj where
  from_ : CString
  to_ : CString
  items : List CString
  numitems : Nat
  values : Option (List CString)
  joininfo : Option CsvJoinInfo

def fgetsLines : Nat → List UInt8 → List (List UInt8)
  | 0, _ => []
  | fuel + 1, stream =>
    let (buffer, stream) := fgets MS_BUFFER_LENGTH stream
    if buffer = [] then [] else buffer :: fgetsLines fuel stream

def msStringTrimEOL (string : CString) : CString := string.takeWhile (· ≠ 10)

def csvRow (buffer : List UInt8) : Option (List CString) :=
  msStringSplitComplex (some (msStringTrimEOL (buffer.takeWhile (· ≠ 0)))) [44] MS_ALLOWEMPTYTOKENS

/-- Connects to the table with this content, or none when no path opens. The result is none where the join is refused. -/
def msCSVJoinConnect (layerItems : List CString) (table : Option (List UInt8)) (join : JoinObj) : Option JoinObj := do
  if join.joininfo.isSome then some join
  else
    let table ← table
    let rows ← (fgetsLines (table.length + 1) table).mapM csvRow
    let numitems := (rows.getLast?.map List.length).getD join.numitems
    let fromindex ← layerItems.findIdx? (sameIgnoringCase · join.from_)
    let toindex := atoi join.to_ - 1
    if toindex < 0 ∨ toindex > numitems then none
    else some { join with
      items := (List.range numitems).map fun i => natText (i + 1)
      numitems
      joininfo := some ⟨fromindex, toindex.toNat, none, rows, 0⟩ }

def msCSVJoinPrepare (join : JoinObj) (shapeValues : Option (List CString)) : Option JoinObj := do
  let joininfo ← join.joininfo
  let values ← shapeValues
  let target ← values[joininfo.fromindex]?
  some { join with joininfo := some { joininfo with nextrow := 0, target := some target } }

def findMatch (target : CString) (toindex : Nat) : List (List CString) → Nat → Option Nat
  | [], i => some i
  | row :: rest, i => do
    let value ← row[toindex]?
    if target = value then some i else findMatch target toindex rest (i + 1)

def readColumns (row : List CString) (numitems : Nat) : Option (List CString) := (List.range numitems).mapM (row[·]?)

def msCSVJoinNext (join : JoinObj) : Option (CsvJoinStatus × JoinObj) := do
  let joininfo ← join.joininfo
  let target ← joininfo.target
  let i ← findMatch target joininfo.toindex (joininfo.rows.drop joininfo.nextrow) joininfo.nextrow
  match joininfo.rows[i]? with
  | none =>
    some (.MS_DONE, { join with
      values := some (List.replicate join.numitems [])
      joininfo := some { joininfo with nextrow := joininfo.rows.length } })
  | some row =>
    let values ← readColumns row join.numitems
    some (.MS_SUCCESS, { join with values := some values, joininfo := some { joininfo with nextrow := i + 1 } })

def msCSVJoinClose (join : JoinObj) : Option Unit :=
  match join.joininfo with
  | none => some ()
  | some joininfo => (joininfo.rows.mapM fun row => readColumns row join.numitems).map fun _ => ()

/-- The calls of `msCSVJoinNext` up to `MS_DONE`, with the values that each of them sets. -/
def joinAnswers : Nat → JoinObj → Option (List (CsvJoinStatus × Option (List CString)) × JoinObj)
  | 0, _ => none
  | fuel + 1, join => do
    let (status, next) ← msCSVJoinNext join
    if status = .MS_DONE then some ([(status, next.values)], next)
    else
      let (others, last) ← joinAnswers fuel next
      some ((status, next.values) :: others, last)

/-- The columns of a line. A line without text has none. -/
def csvColumns (line : CString) : List CString := if line = [] then [] else line.splitOn 44

def endedParts (sep : UInt8) (text : List UInt8) : List (List UInt8) :=
  if (text.splitOn sep).getLast? = some [] then (text.splitOn sep).dropLast else text.splitOn sep

def csvLines (table : List UInt8) : List (List UInt8) := endedParts 10 table

def csvRows (table : List UInt8) : List (List CString) := (csvLines table).map fun line => csvColumns (line.takeWhile (· ≠ 0))

def LinesShort (table : List UInt8) : Prop :=
  (∀ line ∈ (table.splitOn 10).dropLast, line.length + 1 < MS_BUFFER_LENGTH) ∧
    ∀ line ∈ (table.splitOn 10).getLast?, line.length < MS_BUFFER_LENGTH

variable {text front : List UInt8} {row : List CString} {before : List (List CString)}

theorem exists_separated {sep : UInt8} (member : sep ∈ text) : ∃ front rest, sep ∉ front ∧ text = front ++ sep :: rest := by
  obtain ⟨front, rest, parts, first⟩ := eq_append_cons_of_mem member
  exact ⟨front, rest, first, parts⟩

theorem endedParts_single {sep : UInt8} (some_ : text ≠ []) (whole : sep ∉ text) : endedParts sep text = [text] := by
  rw [endedParts, splitOn_eq_singleton whole, if_neg (by simpa using some_)]

theorem endedParts_append {sep : UInt8} (first : sep ∉ front) (rest : List UInt8) :
    endedParts sep (front ++ sep :: rest) = front :: endedParts sep rest := by
  have more := splitOn_ne_nil sep rest
  rw [endedParts, splitOn_append_cons_self_of_not_mem first, getLast?_cons_of_ne_nil more, dropLast_cons_of_ne_nil more,
    endedParts]
  split <;> rfl

theorem separated_induction (sep : UInt8) {P : List UInt8 → Prop} (empty : P []) (single : ∀ text, text ≠ [] → sep ∉ text → P text)
    (more : ∀ front rest, sep ∉ front → P rest → P (front ++ sep :: rest)) (text : List UInt8) : P text := by
  induction length : text.length using Nat.strong_induction_on generalizing text with
  | _ n ih =>
    by_cases member : sep ∈ text
    · obtain ⟨front, rest, first, rfl⟩ := exists_separated member
      rw [length_append, length_cons] at length
      exact more front rest first (ih rest.length (by omega) rest rfl)
    · by_cases some_ : text = []
      · exact some_ ▸ empty
      · exact single text some_ member

theorem endedParts_ne_nil (sep : UInt8) (some_ : text ≠ []) : endedParts sep text ≠ [] := by
  induction text using separated_induction sep with
  | empty => exact absurd rfl some_
  | single text some_ whole =>
    rw [endedParts_single some_ whole]
    exact cons_ne_nil _ _
  | more front rest first =>
    rw [endedParts_append first]
    exact cons_ne_nil _ _

theorem endedParts_eq_splitOn (sep : UInt8) (text : List UInt8) :
    (endedParts sep text ++ if text = [] ∨ text.getLast? = some sep then [[]] else []) = text.splitOn sep := by
  induction text using separated_induction sep with
  | empty => rfl
  | single text some_ whole =>
    have last : text.getLast? ≠ some sep := fun last => whole (mem_of_getLast? last)
    rw [endedParts_single some_ whole, if_neg (by simp [some_, last]), splitOn_eq_singleton whole]
    rfl
  | more front rest first ih =>
    rw [endedParts_append first, splitOn_append_cons_self_of_not_mem first, ← ih, cons_append]
    congr 2
    rcases rest with _ | ⟨c, rest⟩
    · simp
    · simp [getLast?_append]

theorem splitToken_comma (text : CString) {scan : TokenScan} (outside : scan.bInString = false)
    (room : scan.pszToken.length + 3 ≤ scan.nTokenMax) (bStartString : Bool) :
    ∃ nTokenMax, splitToken [44] MS_ALLOWEMPTYTOKENS scan bStartString text =
      some (⟨scan.pszToken ++ text.takeWhile (· ≠ 44), nTokenMax, false⟩, (text.dropWhile (· ≠ 44)).drop 1) ∧
        (scan.pszToken ++ text.takeWhile (· ≠ 44)).length + 3 ≤ nTokenMax := by
  induction text generalizing scan bStartString with
  | nil =>
    obtain ⟨pszToken, nTokenMax, bInString⟩ := scan
    cases outside
    refine ⟨nTokenMax, ?_, ?_⟩
    · rw [splitToken, takeWhile_nil, append_nil]
      rfl
    · rw [takeWhile_nil, append_nil]
      exact room
  | cons c rest ih =>
    rw [splitToken, outside]
    by_cases comma : c = 44
    · obtain ⟨pszToken, nTokenMax, bInString⟩ := scan
      cases outside
      subst comma
      rw [if_pos (by decide), takeWhile_cons_of_neg (by decide), dropWhile_cons_of_neg (by decide), append_nil]
      exact ⟨nTokenMax, rfl, room⟩
    · have goesOn : (!false && [44].contains c) = false := by simpa using comma
      have noQuote : (hasFlag MS_ALLOWEMPTYTOKENS MS_HONOURSTRINGS && c == 34) = false := by
        rw [show hasFlag MS_ALLOWEMPTYTOKENS MS_HONOURSTRINGS = false by decide, Bool.false_and]
      have keeps : (!false && hasFlag MS_ALLOWEMPTYTOKENS MS_STRIPLEADSPACES && bStartString && isspace c) = false := by
        rw [show hasFlag MS_ALLOWEMPTYTOKENS MS_STRIPLEADSPACES = false by decide, Bool.and_false, Bool.false_and, Bool.false_and]
      have copy : ∃ nTokenMax, scan.copy c = some ⟨scan.pszToken ++ [c], nTokenMax, false⟩ ∧
          (scan.pszToken ++ [c]).length + 3 ≤ nTokenMax := by
        have length := @List.length_append _ scan.pszToken [c]
        rw [length_singleton] at length
        rw [TokenScan.copy]
        split
        · refine ⟨scan.nTokenMax * 2 + 10, ?_, by omega⟩
          rw [TokenScan.store, if_pos (by dsimp only; omega), outside]
        · refine ⟨scan.nTokenMax, ?_, by omega⟩
          rw [TokenScan.store, if_pos (by omega), ← outside]
      obtain ⟨nTokenMax, isCopy, more⟩ := copy
      obtain ⟨last, run, bound⟩ := @ih ⟨scan.pszToken ++ [c], nTokenMax, false⟩ rfl more false
      rw [if_neg (by rw [goesOn]; decide), if_neg (by rw [noQuote]; decide), if_neg (by rw [escapes, Bool.false_and, Bool.false_and]; decide),
        if_neg (by rw [keeps]; decide), isCopy, bind_eq_bind, bind_some, run,
        takeWhile_cons_of_pos (by simpa using comma), dropWhile_cons_of_pos (by simpa using comma)]
      rw [append_assoc] at bound ⊢
      exact ⟨last, rfl, bound⟩

theorem splitTokens_comma (text : CString) {nTokenMax : Nat} (room : 3 ≤ nTokenMax) :
    splitTokens [44] MS_ALLOWEMPTYTOKENS nTokenMax text = some (endedParts 44 text) := by
  have noStrip (scan : TokenScan) : scan.strip MS_ALLOWEMPTYTOKENS = scan := by
    rw [TokenScan.strip, show hasFlag MS_ALLOWEMPTYTOKENS MS_STRIPENDSPACES = false by decide, Bool.and_false]
    rfl
  have turn {text token after : CString} {nTokenMax : Nat} (some_ : text ≠ []) (room : 3 ≤ nTokenMax)
      (isToken : text.takeWhile (· ≠ 44) = token) (isAfter : (text.dropWhile (· ≠ 44)).drop 1 = after)
      (others : ∀ {most : Nat}, 3 ≤ most → splitTokens [44] MS_ALLOWEMPTYTOKENS most after = some (endedParts 44 after)) :
      splitTokens [44] MS_ALLOWEMPTYTOKENS nTokenMax text = some (token :: endedParts 44 after) := by
    obtain ⟨last, read, bound⟩ := @splitToken_comma text ⟨[], nTokenMax, false⟩ rfl room true
    rw [nil_append, isToken, isAfter] at read
    rw [nil_append, isToken] at bound
    rw [splitTokens, if_neg some_]
    split
    · rename_i none_
      rw [read] at none_
      cases none_
    · rename_i scan rest isRead
      rw [read] at isRead
      cases isRead
      have zero : TokenScan.store ⟨token, last, false⟩ 0 = some ⟨token ++ [0], last, false⟩ := if_pos (by dsimp only; omega)
      dsimp only
      rw [noStrip, zero, bind_eq_bind, bind_some, others (show 3 ≤ last by omega), bind_eq_bind, bind_some,
        if_pos (.inr (by decide))]
  induction text using separated_induction 44 generalizing nTokenMax with
  | empty =>
    rw [splitTokens, if_pos rfl]
    rfl
  | single text some_ whole =>
    have all : ∀ c ∈ text, (decide (c ≠ 44)) = true := fun c member => by
      rw [decide_eq_true_eq]
      rintro rfl
      exact whole member
    rw [endedParts_single some_ whole]
    have empty {most : Nat} : splitTokens [44] MS_ALLOWEMPTYTOKENS most [] = some (endedParts 44 []) := by
      rw [splitTokens, if_pos rfl]
      rfl
    exact turn some_ room (takeWhile_eq_self_iff.mpr all) (by rw [dropWhile_eq_nil_iff.mpr all, drop_nil]) fun _ => empty
  | more front rest first ih =>
    have all : ∀ c ∈ front, (decide (c ≠ 44)) = true := fun c member => by
      rw [decide_eq_true_eq]
      rintro rfl
      exact first member
    rw [endedParts_append first]
    refine turn (by simp) room ?_ ?_ ih
    · rw [takeWhile_append_of_pos all, takeWhile_cons_of_neg (by decide), append_nil]
    · rw [dropWhile_append_of_pos all, dropWhile_cons_of_neg (by decide), drop_succ_cons, drop_zero]

theorem msStringSplitComplex_comma (text : CString) : msStringSplitComplex (some text) [44] MS_ALLOWEMPTYTOKENS = some (csvColumns text) := by
  rw [msStringSplitComplex, splitTokens_comma text (by decide), bind_eq_bind, bind_some, csvColumns]
  have parts := endedParts_eq_splitOn 44 text
  by_cases empty : text = []
  · subst empty
    decide
  · rw [if_neg empty, ← parts]
    have tokens := endedParts_ne_nil 44 empty
    cases last : text.getLast? with
    | none => exact absurd (getLast?_eq_none_iff.mp last) empty
    | some c =>
      by_cases comma : c = 44
      · subst comma
        rw [if_pos ⟨by decide, tokens, rfl⟩, if_pos (.inr rfl)]
      · rw [if_neg (by simp [comma]), if_neg (by simp [empty, comma]), append_nil]

theorem LinesShort.rest {rest : List UInt8} (first : 10 ∉ front) (short : LinesShort (front ++ 10 :: rest)) :
    front.length + 1 < MS_BUFFER_LENGTH ∧ LinesShort rest := by
  have more := splitOn_ne_nil 10 rest
  rw [LinesShort, splitOn_append_cons_self_of_not_mem first, dropLast_cons_of_ne_nil more,
    getLast?_cons_of_ne_nil more, forall_mem_cons] at short
  exact ⟨short.1.1, short.1.2, short.2⟩

theorem fgets_line (first : 10 ∉ front) (short : front.length + 1 < MS_BUFFER_LENGTH) (rest : List UInt8) :
    fgets MS_BUFFER_LENGTH (front ++ 10 :: rest) = (front ++ [10], rest) := by
  have all : ∀ c ∈ front, decide (c ≠ 10) = true := fun c member => by
    rw [decide_eq_true_eq]
    rintro rfl
    exact first member
  have line : (front ++ [10]).take (MS_BUFFER_LENGTH - 1) = front ++ [10] := by
    rw [take_of_length_le]
    rw [length_append, length_singleton]
    omega
  rw [fgets, takeWhile_append_of_pos all, takeWhile_cons_of_neg (by decide), append_nil,
    dropWhile_append_of_pos all, dropWhile_cons_of_neg (by decide), take_succ_cons, take_zero, line]
  rw [length_append, length_singleton, ← drop_drop, drop_left]
  rfl

theorem fgets_last (whole : 10 ∉ text) (short : text.length < MS_BUFFER_LENGTH) :
    fgets MS_BUFFER_LENGTH text = (text, []) := by
  have all : ∀ c ∈ text, decide (c ≠ 10) = true := fun c member => by
    rw [decide_eq_true_eq]
    rintro rfl
    exact whole member
  rw [fgets, takeWhile_eq_self_iff.mpr all, dropWhile_eq_nil_iff.mpr all, take_nil, append_nil,
    take_of_length_le (by omega)]
  rw [drop_length]

theorem trimEOL_line {rest : List UInt8} (first : 10 ∉ front) (break_ : rest = [] ∨ rest = [10]) :
    msStringTrimEOL ((front ++ rest).takeWhile (· ≠ 0)) = front.takeWhile (· ≠ 0) := by
  have all : ∀ c ∈ front.takeWhile (· ≠ 0), decide (c ≠ 10) = true := fun c member => by
    rw [decide_eq_true_eq]
    rintro rfl
    exact first ((takeWhile_sublist _).subset member)
  have trimmed : msStringTrimEOL (front.takeWhile (· ≠ 0)) = front.takeWhile (· ≠ 0) := takeWhile_eq_self_iff.mpr all
  rcases break_ with rfl | rfl
  · rw [append_nil, trimmed]
  · rw [takeWhile_append]
    split
    · rename_i whole
      have same : front.takeWhile (· ≠ 0) = front := Sublist.eq_of_length (takeWhile_sublist _) whole
      rw [same] at all ⊢
      rw [msStringTrimEOL, takeWhile_append_of_pos all, takeWhile_cons_of_pos (by decide),
        takeWhile_cons_of_neg (by decide), append_nil]
    · exact trimmed

theorem fgetsLines_rows {table : List UInt8} (short : LinesShort table) {fuel : Nat} (enough : table.length < fuel) :
    (fgetsLines fuel table).mapM csvRow = some (csvRows table) := by
  have row {front rest : List UInt8} (first : 10 ∉ front) (break_ : rest = [] ∨ rest = [10]) :
      csvRow (front ++ rest) = some (csvColumns (front.takeWhile (· ≠ 0))) := by
    rw [csvRow, trimEOL_line first break_, msStringSplitComplex_comma]
  induction table using separated_induction 10 generalizing fuel with
  | empty =>
    obtain ⟨fuel, rfl⟩ := Nat.exists_eq_add_of_lt enough
    rfl
  | single text some_ whole =>
    have last : text.length < MS_BUFFER_LENGTH := by
      have bound := short.2
      rw [splitOn_eq_singleton whole] at bound
      exact bound text rfl
    obtain ⟨fuel, rfl⟩ : ∃ more, fuel = more + 2 := ⟨fuel - 2, by
      have := length_pos_iff.mpr some_
      omega⟩
    have here : csvRow (text ++ []) = _ := row whole (.inl rfl)
    rw [append_nil] at here
    have stop : fgetsLines (fuel + 1) [] = [] := rfl
    rw [fgetsLines, fgets_last whole last]
    dsimp only
    rw [if_neg some_, stop, mapM_cons, here, csvRows, csvLines, endedParts_single some_ whole]
    rfl
  | more front rest first ih =>
    obtain ⟨line, others⟩ := short.rest first
    rw [length_append, length_cons] at enough
    obtain ⟨fuel, rfl⟩ : ∃ more, fuel = more + 1 := ⟨fuel - 1, by omega⟩
    rw [fgetsLines, fgets_line first line]
    dsimp only
    have same : csvRows (front ++ 10 :: rest) = csvColumns (front.takeWhile (· ≠ 0)) :: csvRows rest := by
      rw [csvRows, csvLines, endedParts_append first]
      rfl
    rw [if_neg (by simp), mapM_cons, row first (.inr rfl), ih others (by omega), same]
    rfl

theorem readColumns_taken {numitems : Nat} {values : List CString} (run : readColumns row numitems = some values) :
    numitems ≤ row.length ∧ values = row.take numitems := by
  have each := mapM_each run
  have length := each.length_eq
  rw [length_range] at length
  have entry (j : Nat) (inside : j < numitems) : row[j]? = values[j]? := by
    have here := (forall₂_iff_get.mp each).2 j (by rwa [length_range]) (by rwa [← length])
    simpa using here.trans (getElem?_eq_getElem (by rwa [← length])).symm
  have enough : numitems ≤ row.length := by
    rcases Nat.eq_zero_or_pos numitems with none_ | some_
    · omega
    · have last := entry (numitems - 1) (by omega)
      rw [@List.getElem?_eq_getElem _ values _ (by omega)] at last
      have inside := (List.getElem?_eq_some_iff.mp last).1
      omega
  refine ⟨enough, ext_getElem? fun j => ?_⟩
  rw [getElem?_take]
  split
  · rename_i inside
    exact (entry j inside).symm
  · exact getElem?_eq_none (by omega)

theorem readColumns_eq {numitems : Nat} (enough : numitems ≤ row.length) :
    readColumns row numitems = some (row.take numitems) := by
  obtain ⟨values, run, _⟩ := @mapM_range _ numitems (row[·]?) (fun _ _ => True) fun j inside =>
    ⟨row[j], getElem?_eq_getElem (by omega), trivial⟩
  rw [← (readColumns_taken run).2]
  exact run

def Passed (target : CString) (toindex : Nat) (row : List CString) : Prop := ∃ value, row[toindex]? = some value ∧ target ≠ value

theorem findMatch_cases {target : CString} {toindex : Nat} {rows : List (List CString)} {i k : Nat}
    (run : findMatch target toindex rows i = some k) : ∃ before after, rows = before ++ after ∧ k = i + before.length ∧
      (∀ row ∈ before, Passed target toindex row) ∧ ∀ row ∈ after.head?, row[toindex]? = some target := by
  induction rows generalizing i with
  | nil =>
    cases run
    exact ⟨[], [], rfl, rfl, fun _ member => absurd member not_mem_nil, fun _ member => nomatch member⟩
  | cons row rest ih =>
    rw [findMatch, bind_eq_bind] at run
    obtain ⟨value, here, run⟩ := bind_eq_some_iff.mp run
    split at run
    · rename_i same
      cases run
      refine ⟨[], row :: rest, rfl, rfl, fun _ member => absurd member not_mem_nil, fun other isRow => ?_⟩
      cases isRow
      rw [here, same]
    · rename_i different
      obtain ⟨before, after, rfl, rfl, passed, found⟩ := ih run
      refine ⟨row :: before, after, rfl, by rw [length_cons]; omega, ?_, found⟩
      rw [forall_mem_cons]
      exact ⟨⟨value, here, different⟩, passed⟩

theorem findMatch_eq {target : CString} {toindex : Nat} {after : List (List CString)}
    (passed : ∀ row ∈ before, Passed target toindex row) (found : ∀ row ∈ after.head?, row[toindex]? = some target)
    (i : Nat) : findMatch target toindex (before ++ after) i = some (i + before.length) := by
  induction before generalizing i with
  | nil =>
    cases after with
    | nil => rfl
    | cons row rest =>
      rw [nil_append, findMatch, found row rfl, bind_eq_bind, bind_some, if_pos rfl]
      rfl
  | cons row before ih =>
    rw [forall_mem_cons] at passed
    obtain ⟨⟨value, here, different⟩, others⟩ := passed
    rw [cons_append, findMatch, here, bind_eq_bind, bind_some, if_neg different, ih others, length_cons]
    congr 1
    omega

def doneJoin (join : JoinObj) (joininfo : CsvJoinInfo) : JoinObj :=
  { join with
    values := some (List.replicate join.numitems [])
    joininfo := some { joininfo with nextrow := joininfo.rows.length } }

def foundJoin (join : JoinObj) (joininfo : CsvJoinInfo) (row : List CString) (i : Nat) : JoinObj :=
  { join with values := some (row.take join.numitems), joininfo := some { joininfo with nextrow := i + 1 } }

section Next
variable {join : JoinObj} {joininfo : CsvJoinInfo} {target : CString} {remaining : List (List CString)}

theorem getElem?_drop_append {rows before after : List (List CString)} {nextrow : Nat} (rest : rows.drop nextrow = before ++ after) :
    rows[nextrow + before.length]? = after.head? := by
  rw [← getElem?_drop, rest, getElem?_append_right (Nat.le_refl _), Nat.sub_self, head?_eq_getElem?]

theorem msCSVJoinNext_done (isInfo : join.joininfo = some joininfo) (isTarget : joininfo.target = some target)
    (rest : joininfo.rows.drop joininfo.nextrow = remaining) (passed : ∀ row ∈ remaining, Passed target joininfo.toindex row) :
    msCSVJoinNext join = some (.MS_DONE, doneJoin join joininfo) := by
  have found := findMatch_eq passed (show ∀ row ∈ [].head?, row[joininfo.toindex]? = some target from fun _ member => nomatch member)
    joininfo.nextrow
  rw [append_nil, ← rest] at found
  have none_ : joininfo.rows[joininfo.nextrow + remaining.length]? = none := by
    refine (getElem?_drop_append (rest.trans (append_nil remaining).symm)).trans ?_
    rfl
  obtain ⟨fromindex, toindex, _, rows, nextrow⟩ := joininfo
  cases isTarget
  rw [msCSVJoinNext, isInfo, bind_eq_bind, bind_some, bind_eq_bind, bind_some, found,
    bind_eq_bind, bind_some, rest, none_]
  rfl

theorem msCSVJoinNext_found (isInfo : join.joininfo = some joininfo) (isTarget : joininfo.target = some target)
    {before after : List (List CString)} {row : List CString} (rest : joininfo.rows.drop joininfo.nextrow = before ++ row :: after)
    (passed : ∀ row ∈ before, Passed target joininfo.toindex row) (same : row[joininfo.toindex]? = some target) :
    msCSVJoinNext join =
      (readColumns row join.numitems).bind fun values => some (.MS_SUCCESS, { join with
        values := some values, joininfo := some { joininfo with nextrow := joininfo.nextrow + before.length + 1 } }) := by
  have head : ∀ other ∈ (row :: after).head?, other[joininfo.toindex]? = some target := by
    intro other isRow
    cases isRow
    exact same
  have found := findMatch_eq passed head joininfo.nextrow
  obtain ⟨fromindex, toindex, _, rows, nextrow⟩ := joininfo
  cases isTarget
  rw [msCSVJoinNext, isInfo, bind_eq_bind, bind_some, bind_eq_bind, bind_some, rest, found,
    bind_eq_bind, bind_some, getElem?_drop_append rest]
  rfl

theorem msCSVJoinNext_cases (isInfo : join.joininfo = some joininfo) (isTarget : joininfo.target = some target)
    (rest : joininfo.rows.drop joininfo.nextrow = remaining) {status : CsvJoinStatus} {next : JoinObj}
    (run : msCSVJoinNext join = some (status, next)) :
    (status = .MS_DONE ∧ (∀ row ∈ remaining, Passed target joininfo.toindex row) ∧ next = doneJoin join joininfo) ∨
      ∃ before row after, status = .MS_SUCCESS ∧ remaining = before ++ row :: after ∧
        (∀ row ∈ before, Passed target joininfo.toindex row) ∧ row[joininfo.toindex]? = some target ∧
        join.numitems ≤ row.length ∧ next = foundJoin join joininfo row (joininfo.nextrow + before.length) := by
  have matches_ : (findMatch target joininfo.toindex remaining joininfo.nextrow).isSome := by
    rw [msCSVJoinNext, isInfo, bind_eq_bind, bind_some, isTarget, bind_eq_bind, bind_some, rest,
      bind_eq_bind] at run
    obtain ⟨i, found, _⟩ := bind_eq_some_iff.mp run
    rw [found]
    rfl
  obtain ⟨k, found⟩ := isSome_iff_exists.mp matches_
  obtain ⟨before, after, rfl, rfl, passed, head⟩ := findMatch_cases found
  cases after with
  | nil =>
    rw [append_nil] at rest ⊢
    rw [msCSVJoinNext_done isInfo isTarget rest passed] at run
    cases run
    exact .inl ⟨rfl, passed, rfl⟩
  | cons row after =>
    rw [msCSVJoinNext_found isInfo isTarget rest passed (head row rfl)] at run
    obtain ⟨values, read, run⟩ := bind_eq_some_iff.mp run
    obtain ⟨enough, rfl⟩ := readColumns_taken read
    cases run
    exact .inr ⟨before, row, after, rfl, rfl, passed, head row rfl, enough, rfl⟩

end Next

abbrev JoinAnswer := CsvJoinStatus × Option (List CString)

def matchingRows (toindex numitems : Nat) (rows : List (List CString)) (target : CString) : List JoinAnswer :=
  ((rows.filter fun row => row[toindex]? = some target).map fun row => (.MS_SUCCESS, some (row.take numitems))) ++
    [(.MS_DONE, some (List.replicate numitems []))]

def RowsReach (toindex numitems : Nat) (rows : List (List CString)) (target : CString) : Prop :=
  ∀ row ∈ rows, toindex < row.length ∧ (row[toindex]? = some target → numitems ≤ row.length)

theorem Passed.reach {target : CString} {toindex numitems : Nat} (passed : Passed target toindex row) :
    toindex < row.length ∧ (row[toindex]? = some target → numitems ≤ row.length) := by
  obtain ⟨value, here, different⟩ := passed
  refine ⟨(List.getElem?_eq_some_iff.mp here).1, fun same => ?_⟩
  rw [here] at same
  cases same
  exact absurd rfl different

theorem filter_passed {target : CString} {toindex : Nat} (passed : ∀ row ∈ before, Passed target toindex row) :
    (before.filter fun row => row[toindex]? = some target) = [] := by
  rw [filter_eq_nil_iff]
  intro row member
  obtain ⟨value, here, different⟩ := passed row member
  rw [here, decide_eq_true_eq, Option.some.injEq]
  exact fun same => different same.symm

theorem matchingRows_done {target : CString} {toindex numitems : Nat} {rows : List (List CString)}
    (passed : ∀ row ∈ rows, Passed target toindex row) :
    matchingRows toindex numitems rows target = [(.MS_DONE, some (replicate numitems []))] := by
  rw [matchingRows, filter_passed passed]
  rfl

theorem matchingRows_found {target : CString} {toindex numitems : Nat} {after : List (List CString)}
    (passed : ∀ row ∈ before, Passed target toindex row) (same : row[toindex]? = some target) :
    matchingRows toindex numitems (before ++ row :: after) target =
      (.MS_SUCCESS, some (row.take numitems)) :: matchingRows toindex numitems after target := by
  rw [matchingRows, filter_append, filter_passed passed, filter_cons_of_pos (by simpa using same)]
  rfl

structure Connected (fromindex toindex numitems : Nat) (rows : List (List CString)) (join : JoinObj) : Prop where
  columns : join.numitems = numitems
  table : ∃ target nextrow, join.joininfo = some ⟨fromindex, toindex, target, rows, nextrow⟩

section Runs
variable {fromindex toindex numitems : Nat} {rows remaining : List (List CString)} {target : CString}
variable {fuel : Nat}

theorem joinAnswers_right {nextrow : Nat} {join last : JoinObj} {answers : List JoinAnswer}
    (columns : join.numitems = numitems) (isInfo : join.joininfo = some ⟨fromindex, toindex, some target, rows, nextrow⟩)
    (rest : rows.drop nextrow = remaining) (run : joinAnswers fuel join = some (answers, last)) :
    answers = matchingRows toindex numitems remaining target ∧ RowsReach toindex numitems remaining target ∧
      Connected fromindex toindex numitems rows last := by
  induction fuel generalizing join nextrow remaining answers last with
  | zero => cases run
  | succ fuel ih =>
    rw [joinAnswers, bind_eq_bind] at run
    obtain ⟨⟨status, next⟩, call, run⟩ := bind_eq_some_iff.mp run
    rcases msCSVJoinNext_cases isInfo rfl rest call with ⟨rfl, passed, rfl⟩ | ⟨before, row, after, rfl, rfl, passed, same, enough, rfl⟩
    · cases run
      refine ⟨?_, fun row member => (passed row member).reach, columns, _, _, rfl⟩
      rw [matchingRows_done passed, ← columns]
      rfl
    · dsimp only at run
      rw [if_neg (by decide), bind_eq_bind] at run
      obtain ⟨⟨others, final⟩, calls, run⟩ := bind_eq_some_iff.mp run
      have behind : rows.drop (nextrow + before.length + 1) = after := by
        rw [← drop_drop, ← drop_drop, rest, drop_left]
        rfl
      have same_ : (foundJoin join ⟨fromindex, toindex, some target, rows, nextrow⟩ row (nextrow + before.length)).numitems = numitems := columns
      obtain ⟨rfl, reach, connected⟩ := ih same_ rfl behind calls
      cases run
      refine ⟨?_, ?_, connected⟩
      · rw [matchingRows_found passed same, ← columns]
        rfl
      · intro other member
        rw [mem_append, mem_cons] at member
        rcases member with first | rfl | later
        · exact (passed other first).reach
        · exact ⟨(List.getElem?_eq_some_iff.mp same).1, fun _ => columns ▸ enough⟩
        · exact reach other later

theorem exists_next (reach : ∀ row ∈ remaining, toindex < row.length) (target : CString) :
    (∀ row ∈ remaining, Passed target toindex row) ∨ ∃ before row after, remaining = before ++ row :: after ∧
      (∀ row ∈ before, Passed target toindex row) ∧ row[toindex]? = some target := by
  induction remaining with
  | nil => exact .inl fun _ member => absurd member not_mem_nil
  | cons row rest ih =>
    rw [forall_mem_cons] at reach
    have here := getElem?_eq_getElem reach.1
    by_cases same : target = row[toindex]
    · exact .inr ⟨[], row, rest, rfl, fun _ member => absurd member not_mem_nil, by rw [here, same]⟩
    · have first : Passed target toindex row := ⟨_, here, same⟩
      rcases ih reach.2 with none_ | ⟨before, other, after, rfl, passed, found⟩
      · exact .inl (forall_mem_cons.mpr ⟨first, none_⟩)
      · exact .inr ⟨row :: before, other, after, rfl, forall_mem_cons.mpr ⟨first, passed⟩, found⟩

theorem joinAnswers_runs {nextrow : Nat} {join : JoinObj} (columns : join.numitems = numitems)
    (isInfo : join.joininfo = some ⟨fromindex, toindex, some target, rows, nextrow⟩)
    (rest : rows.drop nextrow = remaining) (reach : RowsReach toindex numitems remaining target)
    (enough : remaining.length < fuel) : (joinAnswers fuel join).isSome := by
  induction fuel generalizing join nextrow remaining with
  | zero => exact absurd enough (Nat.not_lt_zero _)
  | succ fuel ih =>
    rcases exists_next (fun row member => (reach row member).1) target with passed | ⟨before, row, after, rfl, passed, same⟩
    · rw [joinAnswers, msCSVJoinNext_done isInfo rfl rest passed]
      rfl
    · have all : join.numitems ≤ row.length := columns ▸ (reach row (by simp)).2 same
      have behind : rows.drop (nextrow + before.length + 1) = after := by
        rw [← drop_drop, ← drop_drop, rest, drop_left]
        rfl
      rw [length_append, length_cons] at enough
      have next : msCSVJoinNext join = some (.MS_SUCCESS,
          foundJoin join ⟨fromindex, toindex, some target, rows, nextrow⟩ row (nextrow + before.length)) := by
        rw [msCSVJoinNext_found isInfo rfl rest passed same, readColumns_eq all]
        rfl
      have same_ : (foundJoin join ⟨fromindex, toindex, some target, rows, nextrow⟩ row (nextrow + before.length)).numitems = numitems := columns
      have others := ih same_ rfl behind (fun other member => reach other (by simp [member])) (by omega)
      obtain ⟨result, calls⟩ := isSome_iff_exists.mp others
      rw [joinAnswers, next, bind_eq_bind, bind_some]
      dsimp only
      rw [if_neg (by decide), calls]
      rfl

def joinShapes (fuel : Nat) : List (List CString) → JoinObj → Option (List (List JoinAnswer) × JoinObj)
  | [], join => some ([], join)
  | values :: shapes, join => do
    let prepared ← msCSVJoinPrepare join (some values)
    let (answers, next) ← joinAnswers fuel prepared
    let (others, last) ← joinShapes fuel shapes next
    some (answers :: others, last)

theorem Connected.prepare {join : JoinObj} (connected : Connected fromindex toindex numitems rows join) {values : List CString}
    (inside : fromindex < values.length) : ∃ prepared, msCSVJoinPrepare join (some values) = some prepared ∧
      prepared.numitems = numitems ∧
      prepared.joininfo = some ⟨fromindex, toindex, some (values.getD fromindex []), rows, 0⟩ := by
  obtain ⟨old, nextrow, isInfo⟩ := connected.table
  have value : values[fromindex]? = some (values.getD fromindex []) := by
    simp [getD_eq_getElem?_getD, getElem?_eq_getElem inside]
  refine ⟨{ join with joininfo := some ⟨fromindex, toindex, some (values.getD fromindex []), rows, 0⟩ }, ?_, connected.columns, rfl⟩
  rw [msCSVJoinPrepare, isInfo, bind_eq_bind, bind_some, bind_eq_bind, bind_some, value]
  rfl

theorem joinShapes_right {shapes : List (List CString)} {join last : JoinObj} {answers : List (List JoinAnswer)}
    (connected : Connected fromindex toindex numitems rows join) (inside : ∀ values ∈ shapes, fromindex < values.length)
    (run : joinShapes fuel shapes join = some (answers, last)) :
    answers = shapes.map (fun values => matchingRows toindex numitems rows (values.getD fromindex [])) ∧
      (∀ values ∈ shapes, RowsReach toindex numitems rows (values.getD fromindex [])) ∧
      Connected fromindex toindex numitems rows last := by
  induction shapes generalizing join answers with
  | nil =>
    cases run
    exact ⟨rfl, fun _ member => absurd member not_mem_nil, connected⟩
  | cons values shapes ih =>
    rw [forall_mem_cons] at inside
    obtain ⟨prepared, prepare, columns, isInfo⟩ := connected.prepare inside.1
    rw [joinShapes, prepare, bind_eq_bind, bind_some, bind_eq_bind] at run
    obtain ⟨⟨first, next⟩, calls, run⟩ := bind_eq_some_iff.mp run
    obtain ⟨rfl, reach, again⟩ := joinAnswers_right columns isInfo rfl calls
    rw [bind_eq_bind] at run
    obtain ⟨⟨others, final⟩, rest, run⟩ := bind_eq_some_iff.mp run
    cases run
    obtain ⟨rfl, all, done⟩ := ih again inside.2 rest
    exact ⟨rfl, forall_mem_cons.mpr ⟨reach, all⟩, done⟩

theorem joinShapes_runs (enough : rows.length < fuel) {shapes : List (List CString)} {join : JoinObj}
    (connected : Connected fromindex toindex numitems rows join) (inside : ∀ values ∈ shapes, fromindex < values.length)
    (reach : ∀ values ∈ shapes, RowsReach toindex numitems rows (values.getD fromindex [])) :
    (joinShapes fuel shapes join).isSome := by
  induction shapes generalizing join with
  | nil => rfl
  | cons values shapes ih =>
    rw [forall_mem_cons] at inside reach
    obtain ⟨prepared, prepare, columns, isInfo⟩ := connected.prepare inside.1
    obtain ⟨⟨first, next⟩, calls⟩ := isSome_iff_exists.mp (joinAnswers_runs columns isInfo rfl reach.1 enough)
    have again := (joinAnswers_right columns isInfo rfl calls).2.2
    obtain ⟨result, rest⟩ := isSome_iff_exists.mp (ih again inside.2 reach.2)
    rw [joinShapes, prepare, bind_eq_bind, bind_some, calls, bind_eq_bind, bind_some]
    dsimp only
    rw [rest]
    rfl

theorem Connected.close {join : JoinObj} (connected : Connected fromindex toindex numitems rows join) :
    (msCSVJoinClose join).isSome ↔ ∀ row ∈ rows, numitems ≤ row.length := by
  obtain ⟨target, nextrow, isInfo⟩ := connected.table
  rw [msCSVJoinClose, isInfo]
  rw [isSome_map, connected.columns]
  constructor
  · intro frees row member
    by_contra few
    have none_ : readColumns row numitems = none := by
      rw [eq_none_iff_forall_ne_some]
      exact fun values read => few (readColumns_taken read).1
    rw [mapM_none member none_] at frees
    cases frees
  · intro enough
    obtain ⟨freed, run, _⟩ := mapM_parts (fun row member => ⟨row.take numitems, readColumns_eq (enough row member), trivial⟩ :
      ∀ row ∈ rows, ∃ values, readColumns row numitems = some values ∧ (fun _ _ => True) row values)
    rw [run]
    rfl

end Runs

def lastColumns (rows : List (List CString)) : Nat := (rows.getLast?.map List.length).getD 0

def joinColumn (join : JoinObj) : Nat := (atoi join.to_ - 1).toNat

def fromItem (layerItems : List CString) (join : JoinObj) : Nat := layerItems.findIdx (sameIgnoringCase · join.from_)

theorem msCSVJoinConnect_connected {layerItems : List CString} {table : List UInt8} (short : LinesShort table) {join connected : JoinObj}
    (new : join.joininfo = none) (unset : join.numitems = 0) (connect : msCSVJoinConnect layerItems (some table) join = some connected) :
    Connected (fromItem layerItems join) (joinColumn join) (lastColumns (csvRows table)) (csvRows table) connected ∧
      fromItem layerItems join < layerItems.length := by
  rw [msCSVJoinConnect, new, if_neg (by decide), bind_eq_bind, bind_some, fgetsLines_rows short (Nat.lt_succ_self _),
    bind_eq_bind, bind_some, bind_eq_bind] at connect
  obtain ⟨fromindex, found, connect⟩ := bind_eq_some_iff.mp connect
  dsimp only at connect
  split at connect
  · cases connect
  · rw [findIdx?_eq_some_iff_findIdx_eq] at found
    obtain ⟨inside, rfl⟩ := found
    cases connect
    refine ⟨⟨?_, none, 0, rfl⟩, inside⟩
    rw [lastColumns, ← unset]

theorem msCSVJoinConnect_isSome_iff {layerItems : List CString} {table : List UInt8} (short : LinesShort table) {join : JoinObj}
    (new : join.joininfo = none) (unset : join.numitems = 0) :
    (msCSVJoinConnect layerItems (some table) join).isSome ↔
      fromItem layerItems join < layerItems.length ∧ 1 ≤ atoi join.to_ ∧ atoi join.to_ ≤ lastColumns (csvRows table) + 1 := by
  rw [msCSVJoinConnect, new, if_neg (by decide), bind_eq_bind, bind_some, fgetsLines_rows short (Nat.lt_succ_self _),
    bind_eq_bind, bind_some, bind_eq_bind, unset]
  change _ ↔ _ ∧ _ ∧ atoi join.to_ ≤ ((((csvRows table).getLast?.map List.length).getD 0 : Nat) : Int) + 1
  cases found : layerItems.findIdx? (sameIgnoringCase · join.from_) with
  | none =>
    rw [findIdx?_eq_none_iff_findIdx_eq] at found
    rw [fromItem, found]
    simp
  | some fromindex =>
    rw [findIdx?_eq_some_iff_findIdx_eq] at found
    rw [bind_some, fromItem, found.2]
    dsimp only
    split
    · rename_i refused
      simp only [isSome_none, Bool.false_eq_true, false_iff]
      omega
    · rename_i accepted
      simp only [isSome_some, true_iff]
      exact ⟨found.1, by omega, by omega⟩

/-- A join gives the rows that match for all shapes exactly where the rows reach far enough, and frees its rows where they are not
shorter than the last one. -/
theorem msCSVJoin_right_iff {layerItems : List CString} {table : List UInt8} (short : LinesShort table) {join connected : JoinObj}
    (new : join.joininfo = none) (unset : join.numitems = 0) (connect : msCSVJoinConnect layerItems (some table) join = some connected)
    {shapes : List (List CString)} (valued : ∀ values ∈ shapes, values.length = layerItems.length) :
    ((∃ fuel last, joinShapes fuel shapes connected = some (shapes.map fun values =>
        matchingRows (joinColumn join) (lastColumns (csvRows table)) (csvRows table) (values.getD (fromItem layerItems join) []), last)) ↔
      ∀ values ∈ shapes, RowsReach (joinColumn join) (lastColumns (csvRows table)) (csvRows table)
        (values.getD (fromItem layerItems join) [])) ∧
    ((∃ fuel last, joinShapes fuel shapes connected = some (shapes.map fun values =>
        matchingRows (joinColumn join) (lastColumns (csvRows table)) (csvRows table) (values.getD (fromItem layerItems join) []), last) ∧
        (msCSVJoinClose last).isSome) ↔
      (∀ row ∈ csvRows table, lastColumns (csvRows table) ≤ row.length) ∧
        (shapes = [] ∨ ∀ row ∈ csvRows table, joinColumn join < row.length)) := by
  obtain ⟨isConnected, inside⟩ := msCSVJoinConnect_connected short new unset connect
  have valued : ∀ values ∈ shapes, fromItem layerItems join < values.length := fun values member => valued values member ▸ inside
  have runs (reach : ∀ values ∈ shapes, RowsReach (joinColumn join) (lastColumns (csvRows table)) (csvRows table)
      (values.getD (fromItem layerItems join) [])) :
      ∃ last, joinShapes ((csvRows table).length + 1) shapes connected = some (shapes.map fun values =>
        matchingRows (joinColumn join) (lastColumns (csvRows table)) (csvRows table) (values.getD (fromItem layerItems join) []), last) ∧
        Connected (fromItem layerItems join) (joinColumn join) (lastColumns (csvRows table)) (csvRows table) last := by
    obtain ⟨⟨answers, last⟩, run⟩ := Option.isSome_iff_exists.mp (joinShapes_runs (Nat.lt_succ_self _) isConnected valued reach)
    obtain ⟨rfl, _, done⟩ := joinShapes_right isConnected valued run
    exact ⟨last, run, done⟩
  refine ⟨⟨?_, ?_⟩, ?_, ?_⟩
  · rintro ⟨fuel, last, run⟩
    exact (joinShapes_right isConnected valued run).2.1
  · intro reach
    obtain ⟨last, run, _⟩ := runs reach
    exact ⟨_, last, run⟩
  · rintro ⟨fuel, last, run, closed⟩
    obtain ⟨_, reach, done⟩ := joinShapes_right isConnected valued run
    refine ⟨done.close.mp closed, ?_⟩
    cases shapes with
    | nil => exact .inl rfl
    | cons values shapes => exact .inr fun row member => (reach values List.mem_cons_self row member).1
  · rintro ⟨long, compared⟩
    obtain ⟨last, run, done⟩ := runs fun values member row isRow => by
      rcases compared with rfl | compared
      · exact absurd member List.not_mem_nil
      · exact ⟨compared row isRow, fun _ => long row isRow⟩
    exact ⟨_, last, run, done.close.mpr long⟩

def joinOn (column : String) : JoinObj := ⟨ascii "ID", ascii column, [], 0, none, none⟩

theorem msCSVJoin_right_iff_pairs : ∃ connected, msCSVJoinConnect [ascii "id"] (some (ascii "a,1\nb,2\n")) (joinOn "1") = some connected ∧
    ((∃ fuel last, joinShapes fuel [[ascii "b"]] connected = some ([[ascii "b"]].map fun values =>
        matchingRows (joinColumn (joinOn "1")) (lastColumns (csvRows (ascii "a,1\nb,2\n"))) (csvRows (ascii "a,1\nb,2\n"))
          (values.getD (fromItem [ascii "id"] (joinOn "1")) []), last)) ↔
      ∀ values ∈ [[ascii "b"]], RowsReach (joinColumn (joinOn "1")) (lastColumns (csvRows (ascii "a,1\nb,2\n")))
        (csvRows (ascii "a,1\nb,2\n")) (values.getD (fromItem [ascii "id"] (joinOn "1")) [])) := by
  have short : LinesShort (ascii "a,1\nb,2\n") := by unfold LinesShort; decide +kernel
  obtain ⟨connected, connect⟩ := Option.isSome_iff_exists.mp
    ((@msCSVJoinConnect_isSome_iff [ascii "id"] _ short (joinOn "1") rfl rfl).mpr (by decide +kernel))
  exact ⟨connected, connect, (msCSVJoin_right_iff short rfl rfl connect (by decide)).1⟩

/-- Column 2 of a file with one column is accepted, and each row is read past its columns. -/
theorem column_past_the_last_accepted : ∃ connected, msCSVJoinConnect [ascii "id"] (some (ascii "a\n")) (joinOn "2") = some connected ∧
    ¬ ∃ fuel last, joinShapes fuel [[ascii "a"]] connected = some ([[ascii "a"]].map fun values =>
      matchingRows (joinColumn (joinOn "2")) (lastColumns (csvRows (ascii "a\n"))) (csvRows (ascii "a\n"))
        (values.getD (fromItem [ascii "id"] (joinOn "2")) []), last) := by
  have short : LinesShort (ascii "a\n") := by unfold LinesShort; decide +kernel
  obtain ⟨connected, connect⟩ := Option.isSome_iff_exists.mp
    ((@msCSVJoinConnect_isSome_iff [ascii "id"] _ short (joinOn "2") rfl rfl).mpr (by decide +kernel))
  refine ⟨connected, connect, ?_⟩
  rintro ⟨fuel, last, run⟩
  obtain ⟨isConnected, _⟩ := msCSVJoinConnect_connected short rfl rfl connect
  have reach := (joinShapes_right isConnected (by decide +kernel) run).2.1 [ascii "a"] (List.mem_singleton_self _)
    [ascii "a"] (by decide +kernel)
  exact absurd reach.1 (by decide +kernel)

end MapServer
