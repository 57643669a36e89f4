import MapServer.Expr.QuotedStrings
import MapServer.Lib.ByteFile
import MapServer.Runtime

/-!
# The tokens of a mapfile: `msyylex` in the states `INITIAL` and `MSSTRING`

`none` stands for a store outside `msyystring_buffer`.
-/

namespace MapServer
open Lib.ByteFile Lib.Scanner

/-- `msyystring_buffer` and `msyystring_buffer_size`; without bytes it is the null pointer. -/
structure TokenBuffer where
  data : List UInt8
  size : Nat

def TokenBuffer.store (buffer : TokenBuffer) (pos : Nat) (bytes : List UInt8) : Option TokenBuffer :=
  (storeAt buffer.data pos bytes).map fun data => { buffer with data }

section Buffer
variable (malloc : Nat → UInt8)

/-- `sizeof(char *)` bytes are allocated for each byte of the new size. -/
def MS_LEXER_STRING_REALLOC (string_size : Nat) (buffer : TokenBuffer) : TokenBuffer :=
  if string_size ≥ buffer.size then
    let max_size := if buffer.size * 2 > string_size then buffer.size * 2 else string_size + 1
    { data := SfRealloc malloc buffer.data (8 * max_size), size := max_size }
  else buffer

def beginToken (buffer : TokenBuffer) : Option TokenBuffer :=
  let buffer := if buffer.data = [] then { data := msSmallMalloc malloc 256, size := 256 } else buffer
  buffer.store 0 [0]

def copyToken (msyyleng : Nat) (text : CString) (buffer : TokenBuffer) : Option TokenBuffer :=
  (MS_LEXER_STRING_REALLOC malloc msyyleng buffer).store 0 (text.takeWhile (· ≠ 0) ++ [0])

/-- The bytes go behind `msyystring_size` bytes, with a zero after them. -/
def appendToken (msyystring_size : Nat) (bytes : List UInt8) (buffer : TokenBuffer) : Option TokenBuffer :=
  (MS_LEXER_STRING_REALLOC malloc (msyystring_size + bytes.length) buffer).store msyystring_size (bytes ++ [0])

end Buffer

inductive StringAction where
  | quote (msyytext : CString)
  | escape (msyytext : CString)
  | run (msyytext : CString)

def isLetterI (c : UInt8) : Bool := tolower c == 105

/-- A quote, with an `i` behind it if there is one. -/
def longestQuote : CString → Option Nat
  | [] => none
  | [c] => if stringQuote c then some 1 else none
  | c :: i :: _ => if stringQuote c then some (if isLetterI i then 2 else 1) else none

def longestEscape : CString → Option Nat
  | 92 :: c :: _ => some (if stringQuote c || c == 92 then 2 else 1)
  | [92] => some 1
  | _ => none

def isRun (c : UInt8) : Bool := c != 92 && !stringQuote c

def someOf (isOne : UInt8 → Bool) (text : CString) : Option Nat :=
  if text.takeWhile isOne = [] then none else some (text.takeWhile isOne).length

def stringRules : List (Rule UInt8 StringAction) :=
  [⟨longestQuote, .quote⟩, ⟨longestEscape, .escape⟩, ⟨someOf isRun, .run⟩]

/-- The rules of `MSSTRING` up to the quote that ends the string: `msyyleng` there, unless the text ends before. -/
def readMsString (malloc : Nat → UInt8) (msyystring_begin : UInt8) :
    Nat → TokenBuffer → Nat → CString → Option (Option Nat × TokenBuffer × CString)
  | 0, _, _, _ => none
  | fuel + 1, buffer, msyystring_size, text =>
    match chosen stringRules text with
    | none => some (none, buffer, [])
    | some (msyyleng, .quote msyytext) =>
      if msyystring_begin = msyytext.headD 0 then some (some msyyleng, buffer, text.drop msyyleng)
      else do
        let buffer ← appendToken malloc msyystring_size msyytext buffer
        readMsString malloc msyystring_begin fuel buffer (msyystring_size + msyytext.length) (text.drop msyyleng)
    | some (msyyleng, .escape msyytext) => do
      let buffer ← appendToken malloc msyystring_size [msyytext.getLastD 0] buffer
      readMsString malloc msyystring_begin fuel buffer (msyystring_size + 1) (text.drop msyyleng)
    | some (msyyleng, .run msyytext) => do
      let buffer ← appendToken malloc msyystring_size msyytext buffer
      readMsString malloc msyystring_begin fuel buffer (msyystring_size + msyytext.length) (text.drop msyyleng)

def mapKeywords : List String :=
  ["colorrange", "datarange", "rangeitem", "align", "anchorpoint", "angle", "antialias", "backgroundcolor",
   "bandsitem", "bindvals", "browseformat", "buffer", "character", "class", "classitem", "classgroup", "cluster",
   "color", "compfilter", "composite", "compop", "config", "connection", "connectiontype", "data", "debug", "driver",
   "empty", "encoding", "end", "error", "expression", "extent", "extension", "fallback", "feature", "filled",
   "filter", "filteritem", "footer", "font", "fontset", "force", "formatoption", "from", "gap", "geomtransform",
   "grid", "gridstep", "graticule", "group", "header", "image", "imagecolor", "imagetype", "imagemode", "imagepath",
   "temppath", "imageurl", "index", "initialgap", "intervals", "join", "keyimage", "keysize", "keyspacing", "label",
   "labelcache", "labelformat", "labelitem", "labelmaxscale", "labelmaxscaledenom", "labelminscale",
   "labelminscaledenom", "labelrequires", "latlon", "layer", "leader", "legend", "legendformat", "linecap",
   "linejoin", "linejoinmaxsize", "map", "marker", "markersize", "mask", "maxarcs", "maxboxsize", "maxdistance",
   "maxfeatures", "maxinterval", "maxscale", "maxscaledenom", "maxgeowidth", "maxlength", "maxsize", "maxsubdivide",
   "maxtemplate", "maxwidth", "metadata", "mimetype", "minarcs", "minboxsize", "mindistance", "repeatdistance",
   "maxoverlapangle", "minfeaturesize", "mininterval", "minscale", "minscaledenom", "mingeowidth", "minsize",
   "minsubdivide", "mintemplate", "minwidth", "name", "offset", "offsite", "opacity", "connectionoptions",
   "outlinecolor", "outlinewidth", "outputformat", "partials", "pattern", "points", "items", "position",
   "postlabelcache", "priority", "processing", "projection", "queryformat", "querymap", "reference", "region",
   "relativeto", "requires", "resolution", "defresolution", "scale", "scaledenom", "scalebar", "scaletoken",
   "shadowcolor", "shadowsize", "shapepath", "size", "sizeunits", "status", "style", "styleitem", "symbol",
   "symbolscale", "symbolscaledenom", "symbolset", "table", "template", "text", "tileindex", "tileitem", "tilesrs",
   "title", "to", "tolerance", "toleranceunits", "identify", "classauto", "transparent", "transform", "type",
   "units", "utfdata", "utfitem", "validation", "values", "web", "width", "wkt", "wrap", "annotation", "auto",
   "auto2", "bevel", "bitmap", "butt", "cc", "center", "chart", "circle", "cl", "cr", "csv", "postgresql", "mysql",
   "default", "dd", "ellipse", "embed", "false", "feet", "follow", "giant", "hatch", "kerneldensity", "idw",
   "kriging", "hilite", "inches", "kilometers", "large", "lc", "left", "line", "ll", "lr", "medium", "meters",
   "nauticalmiles", "miles", "miter", "multiple", "none", "normal", "off", "ogr", "flatgeobuf", "on", "one-to-one",
   "one-to-many", "oraclespatial", "percentages", "pixmap", "pixels", "point", "polygon", "postgis", "plugin",
   "query", "raster", "rasterlabel", "right", "round", "selected", "simple", "single", "small", "square", "svg",
   "polaroffset", "tiny", "triangle", "true", "truetype", "uc", "ul", "ur", "union", "uvraster", "contour", "vector",
   "wfs", "wms"]

inductive MapToken (α : Type) where
  | EOF
  | invalid
  | keyword (word : String)
  | BOM
  | MS_COMMENT
  | MS_BINDING
  | MS_NUMBER (msyynumber : α)
  | MS_IREGEX
  | MS_REGEX
  | MS_EXPRESSION
  | MS_LIST
  | MS_STRING
  | MS_ISTRING
  | INCLUDE
  deriving DecidableEq

inductive MapAction (α : Type) where
  | skip
  | comment
  | beginComment
  | beginInclude
  | beginString (msyystring_begin : UInt8)
  | returns (token : MapToken α) (msyyleng : Nat) (text : CString)

def longestComment : CString → Option Nat
  | 47 :: 47 :: rest => some ((rest.takeWhile (· ≠ 10)).length + 2)
  | 35 :: rest => some ((rest.takeWhile (· ≠ 10)).length + 1)
  | _ => none

def longestWord (word : CString) (text : CString) : Option Nat :=
  if sameIgnoringCase (text.take word.length) word then some word.length else none

def longestMapBinding : CString → Option Nat
  | 91 :: rest => if 93 ∈ rest then some ((rest.takeWhile (· ≠ 93)).length + 2) else none
  | _ => none

def longestRegex : CString → Option Nat
  | 47 :: c :: rest => if c ≠ 42 ∧ 47 ∈ rest then some ((rest.takeWhile (· ≠ 47)).length + 3) else none
  | _ => none

def longestIRegex (text : CString) : Option Nat :=
  (longestRegex text).bind fun count => if (text.drop count).head?.any isLetterI then some (count + 1) else none

def longestBracketed (opening closing : UInt8) : CString → Option Nat
  | c :: rest =>
    let line := rest.takeWhile (· ≠ 10)
    if c = opening ∧ closing ∈ line then some (line.length - (line.reverse.takeWhile (· ≠ closing)).length + 1) else none
  | [] => none

def isWordHead (c : UInt8) : Bool := (97 ≤ tolower c && tolower c ≤ 122) || c == 47 || c == 46

def isWordChar (c : UInt8) : Bool := isWordHead c || isdigit c || c == 95 || c == 45 || c == 61

def longestMapWord : CString → Option Nat
  | c :: rest => if isWordHead c then some ((rest.takeWhile isWordChar).length + 1) else none
  | [] => none

section Rules
variable {α : Type} (atof : CString → α)

def returnRule (longest : CString → Option Nat) (token : CString → MapToken α) : Rule UInt8 (MapAction α) where
  longest := longest
  action msyytext := .returns (token msyytext) msyytext.length msyytext

def innerRule (longest : CString → Option Nat) (token : MapToken α) (front back : Nat) : Rule UInt8 (MapAction α) where
  longest := longest
  action msyytext := .returns token msyytext.length ((msyytext.drop front).take (msyytext.length - front - back))

def keywordRule (word : String) : Rule UInt8 (MapAction α) := returnRule (longestWord (ascii word)) fun _ => .keyword word

def openingRules : List (Rule UInt8 (MapAction α)) :=
  [⟨someOf isBlank, fun _ => .skip⟩, ⟨longestComment, fun _ => .comment⟩, ⟨longestWord [47, 42], fun _ => .beginComment⟩]

def mapPatternRules : List (Rule UInt8 (MapAction α)) :=
  [returnRule (longestWord [239, 187, 191]) fun _ => .BOM, ⟨longestWord (ascii "include"), fun _ => .beginInclude⟩,
   innerRule longestMapBinding .MS_BINDING 1 1, returnRule longestNumber fun msyytext => .MS_NUMBER (atof msyytext),
   innerRule longestIRegex .MS_IREGEX 1 2, innerRule longestRegex .MS_REGEX 1 1,
   innerRule (longestBracketed 40 41) .MS_EXPRESSION 1 1, innerRule (longestBracketed 123 125) .MS_LIST 1 1,
   ⟨oneOf stringQuote, fun msyytext => .beginString (msyytext.headD 0)⟩, returnRule longestMapWord fun _ => .MS_STRING,
   ⟨oneOf (· == 10), fun _ => .skip⟩, returnRule (oneOf (· ≠ 10)) fun _ => .invalid]

def initialRules : List (Rule UInt8 (MapAction α)) :=
  openingRules ++ (mapKeywords.map keywordRule ++ mapPatternRules atof)

def skipMultilineComment : CString → CString
  | 42 :: 47 :: rest => rest
  | _ :: rest => skipMultilineComment rest
  | [] => []

structure LexerState where
  buffer : TokenBuffer
  msyystring_icase : Bool
  msyyreturncomments : Bool

/-- The rules of `INITIAL` up to one that returns; `msyystring_begin_state` is `INITIAL` as well. -/
def lexInitial (malloc : Nat → UInt8) :
    Nat → LexerState → CString → Option (MapToken α × LexerState × CString)
  | 0, _, _ => none
  | fuel + 1, state, text =>
    match chosen (initialRules atof) text with
    | none => some (.EOF, state, [])
    | some (msyyleng, .skip) => lexInitial malloc fuel state (text.drop msyyleng)
    | some (msyyleng, .comment) =>
      if state.msyyreturncomments then some (.MS_COMMENT, state, text.drop msyyleng)
      else lexInitial malloc fuel state (text.drop msyyleng)
    | some (msyyleng, .beginComment) => lexInitial malloc fuel state (skipMultilineComment (text.drop msyyleng))
    | some (msyyleng, .beginInclude) => some (.INCLUDE, state, text.drop msyyleng)
    | some (_, .returns token msyyleng msyytext) => do
      let buffer ← copyToken malloc msyyleng msyytext state.buffer
      some (token, { state with buffer }, text.drop msyyleng)
    | some (msyyleng, .beginString msyystring_begin) => do
      let buffer ← state.buffer.store 0 [0]
      let rest := text.drop msyyleng
      match ← readMsString malloc msyystring_begin (rest.length + 1) buffer 0 rest with
      | (none, buffer, _) => some (.EOF, { state with buffer }, [])
      | (some ended, buffer, after) =>
        if state.msyystring_icase && ended == 2 then some (.MS_ISTRING, { state with buffer, msyystring_icase := false }, after)
        else some (.MS_STRING, { state with buffer }, after)

def msyylexInitial (malloc : Nat → UInt8) (state : LexerState) (text : CString) :
    Option (MapToken α × LexerState × CString) := do
  let buffer ← beginToken malloc state.buffer
  lexInitial atof malloc (text.length + 1) { state with buffer } text

end Rules

end MapServer

namespace MapServer
open Lib.ByteFile Lib.Scanner

def TokenBuffer.Fits (buffer : TokenBuffer) : Prop := buffer.size ≤ buffer.data.length

def TokenBuffer.Text (buffer : TokenBuffer) (text : CString) : Prop := ∃ rest, buffer.data = text ++ 0 :: rest

section Stores
variable (malloc : Nat → UInt8)

theorem realloc_fits {buffer : TokenBuffer} (fits : buffer.Fits) {before rest : List UInt8} (data : buffer.data = before ++ rest)
    {string_size : Nat} (short : before.length ≤ string_size) :
    ∃ next, MS_LEXER_STRING_REALLOC malloc string_size buffer = next ∧ next.Fits ∧ string_size < next.data.length ∧
      ∃ more, next.data = before ++ more := by
  refine ⟨_, rfl, ?_⟩
  unfold MS_LEXER_STRING_REALLOC
  by_cases grows : string_size ≥ buffer.size
  · have bound : string_size < if buffer.size * 2 > string_size then buffer.size * 2 else string_size + 1 := by
      split <;> omega
    simp only [if_pos grows]
    generalize (if buffer.size * 2 > string_size then buffer.size * 2 else string_size + 1) = max_size at bound
    have length : 8 * max_size ≤ (SfRealloc malloc buffer.data (8 * max_size)).length := by
      rw [SfRealloc, List.length_append, length_msSmallMalloc, List.length_take]
      omega
    refine ⟨?_, ?_, ?_⟩
    · show max_size ≤ (SfRealloc malloc buffer.data (8 * max_size)).length
      omega
    · show string_size < (SfRealloc malloc buffer.data (8 * max_size)).length
      omega
    · rw [SfRealloc, data, List.take_append, List.take_of_length_le (by omega), List.append_assoc]
      exact ⟨_, rfl⟩
  · rw [if_neg grows]
    unfold TokenBuffer.Fits at fits
    exact ⟨fits, by omega, rest, data⟩

theorem store_fits {buffer : TokenBuffer} (fits : buffer.Fits) {before more bytes : List UInt8} (data : buffer.data = before ++ more)
    (room : bytes.length ≤ more.length) :
    ∃ next, buffer.store before.length bytes = some next ∧ next.Fits ∧ ∃ rest, next.data = before ++ bytes ++ rest := by
  have stored : storeAt buffer.data before.length bytes = some (before ++ bytes ++ more.drop bytes.length) := by
    rw [storeAt, if_pos (by rw [data, List.length_append]; omega), data]
    simp
  refine ⟨_, by rw [TokenBuffer.store, stored]; rfl, ?_, _, rfl⟩
  unfold TokenBuffer.Fits at fits ⊢
  rw [data, List.length_append] at fits
  simp
  omega

theorem appendToken_text {buffer : TokenBuffer} (fits : buffer.Fits) {text : CString} (holds : buffer.Text text)
    (bytes : List UInt8) :
    ∃ next, appendToken malloc text.length bytes buffer = some next ∧ next.Fits ∧ next.Text (text ++ bytes) := by
  obtain ⟨rest, data⟩ := holds
  obtain ⟨grown, isGrown, grownFits, room, more, grownData⟩ :=
    realloc_fits malloc fits data (Nat.le_add_right text.length bytes.length)
  obtain ⟨next, stored, nextFits, after, nextData⟩ := @store_fits grown grownFits text more (bytes ++ [0]) grownData (by
    rw [grownData, List.length_append] at room
    rw [List.length_append, List.length_singleton]
    omega)
  exact ⟨next, by rw [appendToken, isGrown, stored], nextFits, after, by rw [nextData]; simp⟩

theorem copyToken_text {buffer : TokenBuffer} (fits : buffer.Fits) {msyyleng : Nat} {text : CString} (short : text.length ≤ msyyleng) :
    ∃ next, copyToken malloc msyyleng text buffer = some next ∧ next.Fits ∧ next.Text (text.takeWhile (· ≠ 0)) := by
  obtain ⟨grown, isGrown, grownFits, room, _⟩ := @realloc_fits malloc buffer fits [] buffer.data rfl msyyleng (Nat.zero_le _)
  have shorter := (text.takeWhile_prefix (· ≠ 0)).length_le
  obtain ⟨next, stored, nextFits, after, nextData⟩ := @store_fits grown grownFits [] grown.data
    (text.takeWhile (· ≠ 0) ++ [0]) rfl (by
      rw [List.length_append, List.length_singleton]
      omega)
  exact ⟨next, by rw [copyToken, isGrown]; exact stored, nextFits, after, by rw [nextData]; simp⟩

def TokenBuffer.Sound (buffer : TokenBuffer) : Prop := buffer.data = [] ∨ buffer.Fits

theorem beginToken_text {buffer : TokenBuffer} (sound : buffer.Sound) :
    ∃ next, beginToken malloc buffer = some next ∧ next.Fits ∧ next.Text [] := by
  have ready : ∃ start, (if buffer.data = [] then { data := msSmallMalloc malloc 256, size := 256 } else buffer) = start ∧
      start.Fits ∧ 1 ≤ start.data.length := by
    refine ⟨_, rfl, ?_⟩
    by_cases null : buffer.data = []
    · rw [if_pos null]
      exact ⟨by simp [TokenBuffer.Fits, length_msSmallMalloc], by simp [length_msSmallMalloc]⟩
    · rw [if_neg null]
      exact ⟨sound.resolve_left null, List.length_pos_iff.mpr null⟩
  obtain ⟨start, isStart, fits, some_⟩ := ready
  obtain ⟨next, stored, nextFits, rest, data⟩ := @store_fits start fits [] start.data [0] rfl some_
  exact ⟨next, by rw [beginToken, isStart]; exact stored, nextFits, rest, data⟩

end Stores

end MapServer
