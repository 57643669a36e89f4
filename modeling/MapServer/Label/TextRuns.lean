import MapServer.Label.Glyphs
import MapServer.Lib.Slots

/-!
The loops of `msLayoutTextSymbol` in `textlayout.c` that split a text into lines, then into runs of one embedding level, and then
of one script. `none` is a store outside of `runs` or `line_descs`.
-/

namespace MapServer
open Lib

def STATIC_GLYPHS : Nat := 100
def STATIC_LINES : Nat := 10

/-- The fields of `text_run` that are set here. -/
structure TextRun where
  offset : Nat
  length : Nat
  line_number : Nat
  rtl : Int
  script : Nat
  deriving DecidableEq

inductive LineRtl where
  | MS_RTL_LTR
  | MS_RTL_RTL
  | MS_RTL_MIXED
  deriving DecidableEq

def HB_SCRIPT_LATIN : Nat := 0x4C61746E

/-- What the libraries give for the glyphs at an offset, and what the memory holds before. -/
structure LayoutLibraries where
  mapentities : List (CString × Nat)
  fribidi_levels : Nat → List Nat → Nat → Int
  get_scripts : Nat → List Nat → Nat → Nat
  runs : Nat → TextRun
  line_descs : Nat → LineRtl

structure TextLayout where
  unicodes : List Nat
  runs : Slots TextRun
  nruns : Nat
  line_descs : Slots LineRtl
  bidi_levels : Nat → Int
  scripts : Nat → Nat

structure LineState where
  runs : Slots TextRun
  nruns : Nat
  start : Nat

/-- A line break at `i` ends the current run and starts the next one. -/
def breakLine (i : Nat) (s : LineState) : Option LineState := do
  let runs ← s.runs.store s.nruns { s.runs.get s.nruns with length := i - s.start }
  let runs ← runs.store (s.nruns + 1)
    { runs.get (s.nruns + 1) with line_number := (runs.get s.nruns).line_number + 1, offset := i + 1 }
  some ⟨runs, s.nruns + 1, i + 1⟩

def splitLines : List Nat → Nat → LineState → Option LineState
  | [], _, s => some s
  | unicode :: rest, i, s =>
    if unicode ≠ 10 then splitLines rest (i + 1) s
    else do
      let s ← breakLine i s
      splitLines rest (i + 1) s

def closeLastLine (unicodes : List Nat) (s : LineState) : Option LineState :=
  if unicodes.getLast? = some 10 then some s
  else do
    let runs ← s.runs.store s.nruns { s.runs.get s.nruns with length := unicodes.length - s.start }
    some { s with runs, nruns := s.nruns + 1 }

def lineRuns (unicodes : List Nat) (runs : Slots TextRun) : Option LineState := do
  let runs ← runs.store 0 { runs.get 0 with offset := 0, line_number := 0 }
  let s ← splitLines unicodes 0 ⟨runs, 0, 0⟩
  closeLastLine unicodes s

def runUnicodes (unicodes : List Nat) (run : TextRun) : List Nat := (unicodes.drop run.offset).take run.length

def unicode_is_latin1 (unicodes : List Nat) : Bool := unicodes.all fun unicode => decide (unicode < 0x2B0)

def markLatin (unicodes : List Nat) : Nat → Nat → Slots TextRun → Slots LineRtl → Option (Slots TextRun × Slots LineRtl)
  | 0, _, runs, line_descs => some (runs, line_descs)
  | left + 1, i, runs, line_descs =>
    if unicode_is_latin1 (runUnicodes unicodes (runs.get i)) then do
      let runs ← runs.store i { runs.get i with rtl := -1 }
      let line_descs ← line_descs.store i .MS_RTL_LTR
      markLatin unicodes left (i + 1) runs line_descs
    else do
      let runs ← runs.store i { runs.get i with rtl := 0 }
      markLatin unicodes left (i + 1) runs line_descs

def fillFrom {β : Type} (array : Nat → β) (offset length : Nat) (values : Nat → β) (p : Nat) : β :=
  if offset ≤ p ∧ p < offset + length then values (p - offset) else array p

structure RunState where
  runs : Slots TextRun
  nruns : Nat
  i : Nat
  line_descs : Slots LineRtl

/-- Create a new run behind the current one, at a position in it. `change` is what it has of the current one and of the slot. -/
def newRun (change : TextRun → TextRun → TextRun) (position : Nat) (s : RunState) : Option RunState := do
  let nruns := s.nruns + 1
  let runs ← s.runs.move (s.i + 2) (s.i + 1) (nruns - s.i - 2)
  let i := s.i + 1
  let previous := runs.get (i - 1)
  let runs ← runs.store i
    { change previous (runs.get i) with offset := position, length := (previous.offset + previous.length) - position }
  let runs ← runs.store (i - 1) { runs.get (i - 1) with length := position - (runs.get (i - 1)).offset }
  some { s with runs, nruns, i }

def bidiChange (level : Int) (previous run : TextRun) : TextRun := { run with line_number := previous.line_number, rtl := level }

def scriptChange (script : Nat) (previous run : TextRun) : TextRun :=
  { run with line_number := previous.line_number, rtl := previous.rtl, script }

/-- Create a run for each value that an array has within the current run. `note` is done before. -/
def splitRunBy {β : Type} [DecidableEq β] (array : Nat → β) (change : β → TextRun → TextRun → TextRun)
    (note : RunState → Option RunState) (original_offset : Nat) : Nat → Nat → β → RunState → Option RunState
  | 0, _, _, s => some s
  | left + 1, j, previous, s =>
    let value := array (original_offset + j)
    if value ≠ previous then do
      let s ← note s
      let s ← newRun (change value) (original_offset + j) s
      splitRunBy array change note original_offset left (j + 1) value s
    else splitRunBy array change note original_offset left (j + 1) previous s

def noteMixedLine (s : RunState) : Option RunState := do
  let line_descs ← s.line_descs.store (s.runs.get s.i).line_number .MS_RTL_MIXED
  some { s with line_descs }

def splitLevels (bidi_levels : Nat → Int) : Nat → Nat → Nat → Int → RunState → Option RunState :=
  splitRunBy bidi_levels bidiChange noteMixedLine

def splitScripts (scripts : Nat → Nat) : Nat → Nat → Nat → Nat → RunState → Option RunState :=
  splitRunBy scripts scriptChange some

/-- The runs from the current one on, of which `left` were there before. -/
def splitBidiRuns (fribidi_levels : Nat → List Nat → Nat → Int) (unicodes : List Nat) :
    Nat → RunState → (Nat → Int) → Option (RunState × (Nat → Int))
  | 0, s, bidi_levels => some (s, bidi_levels)
  | left + 1, s, bidi_levels =>
    let run := s.runs.get s.i
    if run.rtl ≥ 0 then do
      let bidi_levels := fillFrom bidi_levels run.offset run.length (fribidi_levels run.offset (runUnicodes unicodes run))
      let prevlevel := bidi_levels run.offset
      let runs ← s.runs.store s.i { run with rtl := prevlevel }
      let line_descs ← s.line_descs.store run.line_number (if prevlevel % 2 ≠ 0 then .MS_RTL_RTL else .MS_RTL_LTR)
      let s ← splitLevels bidi_levels run.offset (run.length - 1) 1 prevlevel { s with runs, line_descs }
      splitBidiRuns fribidi_levels unicodes left { s with i := s.i + 1 } bidi_levels
    else splitBidiRuns fribidi_levels unicodes left { s with i := s.i + 1 } bidi_levels

def splitScriptRuns (get_scripts : Nat → List Nat → Nat → Nat) (unicodes : List Nat) :
    Nat → RunState → (Nat → Nat) → Option (RunState × (Nat → Nat))
  | 0, s, scripts => some (s, scripts)
  | left + 1, s, scripts =>
    let run := s.runs.get s.i
    if run.rtl = -1 then do
      let runs ← s.runs.store s.i { run with script := HB_SCRIPT_LATIN }
      splitScriptRuns get_scripts unicodes left { s with runs, i := s.i + 1 } scripts
    else do
      let scripts := fillFrom scripts run.offset run.length (get_scripts run.offset (runUnicodes unicodes run))
      let prevscript := scripts run.offset
      let runs ← s.runs.store s.i { run with script := prevscript }
      let s ← splitScripts scripts run.offset (run.length - 1) 1 prevscript { s with runs }
      splitScriptRuns get_scripts unicodes left { s with i := s.i + 1 } scripts

def layoutRuns (libraries : LayoutLibraries) (unicodes : List Nat) (slots : Nat) : Option TextLayout := do
  let lines ← lineRuns unicodes ⟨slots, libraries.runs⟩
  let count := (lines.runs.get (lines.nruns - 1)).line_number + 1
  let line_descs := ⟨if count > STATIC_LINES then count else STATIC_LINES, libraries.line_descs⟩
  let (runs, line_descs) ← markLatin unicodes lines.nruns 0 lines.runs line_descs
  let (s, bidi_levels) ← splitBidiRuns libraries.fribidi_levels unicodes lines.nruns ⟨runs, lines.nruns, 0, line_descs⟩ fun _ => 0
  let (s, scripts) ← splitScriptRuns libraries.get_scripts unicodes s.nruns { s with i := 0 } fun _ => 0
  some { unicodes, runs := s.runs, nruns := s.nruns, line_descs := s.line_descs, bidi_levels, scripts }

/-- `msLayoutTextSymbol` up to the choice of fonts. A text without glyphs has no runs. -/
def msLayoutTextSymbol (libraries : LayoutLibraries) (wrap : UInt8) (maxlength : Int) (annotext : CString) : Option TextLayout :=
  let text_num_bytes := annotext.length
  let slots := if text_num_bytes > STATIC_GLYPHS then text_num_bytes else STATIC_GLYPHS
  let unicodes := layoutUnicodes libraries.mapentities wrap maxlength annotext
  if unicodes = [] then
    some {
      unicodes, runs := ⟨slots, libraries.runs⟩, nruns := 0
      line_descs := ⟨STATIC_LINES, libraries.line_descs⟩, bidi_levels := fun _ => 0, scripts := fun _ => 0 }
  else layoutRuns libraries unicodes slots

end MapServer
