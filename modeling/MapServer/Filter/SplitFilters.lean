import MapServer.Text

namespace MapServer
open List

structure FilterScan where
  chStringQuote : UInt8
  nXMLIndent : Int
  bInBracket : Bool
  deriving DecidableEq

def scanFilters (scan : FilterScan) (token : CString) (pszStr : CString) : List CString :=
  match pszStr with
  | [] => []
  | c :: rest =>
    -- ignore any character until end of quoted string
    if scan.chStringQuote ≠ 0 then
      scanFilters (if c = scan.chStringQuote then { scan with chStringQuote := 0 } else scan) (token ++ [c]) rest
    -- the begin of a quoted string only for an XML attribute, i.e. between < and >
    else if scan.bInBracket ∧ (c = 39 ∨ c = 34) then
      scanFilters { scan with chStringQuote := c } (token ++ [c]) rest
    else if c = 60 then
      let nXMLIndent :=
        if rest.head? = some 47 then scan.nXMLIndent - 1
        else if rest.head? ≠ some 33 then scan.nXMLIndent + 1
        else scan.nXMLIndent
      scanFilters { scan with bInBracket := true, nXMLIndent } (token ++ [c]) rest
    else if c = 47 ∧ rest.head? = some 62 then
      scanFilters { scan with bInBracket := false, nXMLIndent := scan.nXMLIndent - 1 } (token ++ [47, 62]) rest.tail
    else if c = 62 then scanFilters { scan with bInBracket := false } (token ++ [c]) rest
    -- only detect the end of a filter when the indentation goes back to zero
    else if scan.nXMLIndent = 0 ∧ c = 41 then
      if rest.head? = some 40 then token :: scanFilters scan [] rest.tail else [token]
    else scanFilters scan (token ++ [c]) rest
termination_by pszStr.length

def FLTSplitFilters : CString → List CString
  | 40 :: pszStr => scanFilters ⟨0, 0, false⟩ [] pszStr
  | _ => []

structure TagByte where
  byte : UInt8
  plain : byte ∉ [0, 33, 34, 39, 40, 41, 47, 60, 62]

structure QuotedValue where
  quote : UInt8
  value : CString
  isQuote : quote = 34 ∨ quote = 39
  inside : quote ∉ value ∧ 0 ∉ value

inductive TagPiece where
  | byte (c : TagByte)
  | quoted (value : QuotedValue)

structure XmlTag where
  first : TagByte
  pieces : List TagPiece

structure EndName where
  first : TagByte
  rest : List TagByte

structure TextByte where
  byte : UInt8
  isText : byte ≠ 60 ∧ byte ≠ 0

inductive XmlContent where
  | nothing
  | text (c : TextByte) (rest : XmlContent)
  | selfClosing (tag : XmlTag) (rest : XmlContent)
  | element (tag : XmlTag) (inner : XmlContent) (name : EndName) (rest : XmlContent)

def TagPiece.bytes : TagPiece → CString
  | .byte c => [c.byte]
  | .quoted value => value.quote :: (value.value ++ [value.quote])

def XmlTag.bytes (tag : XmlTag) : CString := tag.first.byte :: tag.pieces.flatMap TagPiece.bytes

def EndName.bytes (name : EndName) : CString := name.first.byte :: name.rest.map TagByte.byte

def XmlContent.bytes : XmlContent → CString
  | .nothing => []
  | .text c rest => c.byte :: rest.bytes
  | .selfClosing tag rest => 60 :: (tag.bytes ++ 47 :: 62 :: rest.bytes)
  | .element tag inner name rest => 60 :: (tag.bytes ++ 62 :: (inner.bytes ++ 60 :: 47 :: (name.bytes ++ 62 :: rest.bytes)))

def joinFilters (filters : List XmlContent) : CString := filters.flatMap fun filter => 40 :: (filter.bytes ++ [41])

def XmlContent.textEnds : XmlContent → Nat
  | .nothing => 0
  | .text c rest =>
    if c.byte = 47 ∧ rest.bytes.head? = some 62 then rest.textEnds + 1 else rest.textEnds
  | .selfClosing _ rest => rest.textEnds
  | .element _ inner _ rest => inner.textEnds + rest.textEnds

def XmlContent.hasOuterParenthesis : XmlContent → Bool
  | .nothing => false
  | .text c rest => c.byte == 41 || rest.hasOuterParenthesis
  | .selfClosing _ rest => rest.hasOuterParenthesis
  | .element _ _ _ rest => rest.hasOuterParenthesis

section Tags
variable {indent : Int} {token tail : CString}

theorem scan_text {scan : FilterScan} {c : UInt8} (noQuote : scan.chStringQuote = 0)
    (other : ¬(scan.bInBracket = true ∧ (c = 39 ∨ c = 34))) (notOpen : c ≠ 60)
    (notEnd : ¬(c = 47 ∧ tail.head? = some 62)) (notClose : c ≠ 62) (notSplit : ¬(scan.nXMLIndent = 0 ∧ c = 41)) :
    scanFilters scan token (c :: tail) = scanFilters scan (token ++ [c]) tail := by
  rw [scanFilters, if_neg (not_not_intro noQuote), if_neg other, if_neg notOpen, if_neg notEnd, if_neg notClose,
    if_neg notSplit]

theorem scan_tagByte (c : TagByte) :
    scanFilters ⟨0, indent, true⟩ token (c.byte :: tail) = scanFilters ⟨0, indent, true⟩ (token ++ [c.byte]) tail := by
  have plain := c.plain
  simp only [mem_cons, not_mem_nil, or_false, not_or] at plain
  apply scan_text rfl <;> simp [plain]

theorem scan_quoted {quote : UInt8} (isQuote : quote ≠ 0) {value : CString} (inside : quote ∉ value) :
    scanFilters ⟨quote, indent, true⟩ token (value ++ quote :: tail) =
      scanFilters ⟨0, indent, true⟩ (token ++ (value ++ [quote])) tail := by
  induction value generalizing token with
  | nil =>
    rw [nil_append, scanFilters, if_pos isQuote, if_pos rfl]
    rfl
  | cons c value ih =>
    rw [mem_cons, not_or] at inside
    rw [cons_append, scanFilters, if_pos isQuote, if_neg (Ne.symm inside.1), ih inside.2]
    simp

theorem scan_piece (piece : TagPiece) :
    scanFilters ⟨0, indent, true⟩ token (piece.bytes ++ tail) =
      scanFilters ⟨0, indent, true⟩ (token ++ piece.bytes) tail := by
  cases piece with
  | byte c => exact scan_tagByte c
  | quoted value =>
    have isQuote : value.quote ≠ 0 := by
      rcases value.isQuote with same | same <;> rw [same] <;> decide
    rw [TagPiece.bytes, cons_append, append_assoc, singleton_append, scanFilters,
      if_neg (not_not_intro rfl), if_pos ⟨rfl, value.isQuote.symm⟩]
    rw [scan_quoted isQuote value.inside.1]
    simp

theorem scan_pieces (pieces : List TagPiece) :
    scanFilters ⟨0, indent, true⟩ token (pieces.flatMap TagPiece.bytes ++ tail) =
      scanFilters ⟨0, indent, true⟩ (token ++ pieces.flatMap TagPiece.bytes) tail := by
  induction pieces generalizing token with
  | nil => simp
  | cons piece pieces ih =>
    rw [flatMap_cons, append_assoc, scan_piece, ih, append_assoc]

theorem scan_tag (tag : XmlTag) :
    scanFilters ⟨0, indent, true⟩ token (tag.bytes ++ tail) = scanFilters ⟨0, indent, true⟩ (token ++ tag.bytes) tail := by
  rw [XmlTag.bytes, cons_append, scan_tagByte, scan_pieces]
  simp

theorem scan_tagBytes (name : List TagByte) :
    scanFilters ⟨0, indent, true⟩ token (name.map TagByte.byte ++ tail) =
      scanFilters ⟨0, indent, true⟩ (token ++ name.map TagByte.byte) tail := by
  induction name generalizing token with
  | nil => simp
  | cons c name ih =>
    rw [map_cons, cons_append, scan_tagByte, ih]
    simp

theorem scan_close : scanFilters ⟨0, indent, true⟩ token (62 :: tail) = scanFilters ⟨0, indent, false⟩ (token ++ [62]) tail := by
  rw [scanFilters]
  simp

theorem scan_open {first : TagByte} :
    scanFilters ⟨0, indent, false⟩ token (60 :: first.byte :: tail) =
      scanFilters ⟨0, indent + 1, true⟩ (token ++ [60]) (first.byte :: tail) := by
  have plain := first.plain
  simp only [mem_cons, not_mem_nil, or_false, not_or] at plain
  rw [scanFilters]
  simp [plain]

theorem scan_startTag (tag : XmlTag) :
    scanFilters ⟨0, indent, false⟩ token (60 :: (tag.bytes ++ 62 :: tail)) =
      scanFilters ⟨0, indent + 1, false⟩ (token ++ 60 :: (tag.bytes ++ [62])) tail := by
  have opens : scanFilters ⟨0, indent, false⟩ token (60 :: (tag.bytes ++ 62 :: tail)) =
      scanFilters ⟨0, indent + 1, true⟩ (token ++ [60]) (tag.bytes ++ 62 :: tail) := scan_open
  rw [opens, scan_tag, scan_close]
  simp

theorem scan_selfClosing (tag : XmlTag) :
    scanFilters ⟨0, indent, false⟩ token (60 :: (tag.bytes ++ 47 :: 62 :: tail)) =
      scanFilters ⟨0, indent, false⟩ (token ++ 60 :: (tag.bytes ++ [47, 62])) tail := by
  have opens : scanFilters ⟨0, indent, false⟩ token (60 :: (tag.bytes ++ 47 :: 62 :: tail)) =
      scanFilters ⟨0, indent + 1, true⟩ (token ++ [60]) (tag.bytes ++ 47 :: 62 :: tail) := scan_open
  rw [opens, scan_tag, scanFilters]
  simp

theorem scan_endTag (name : EndName) :
    scanFilters ⟨0, indent, false⟩ token (60 :: 47 :: (name.bytes ++ 62 :: tail)) =
      scanFilters ⟨0, indent - 1, false⟩ (token ++ 60 :: 47 :: (name.bytes ++ [62])) tail := by
  have plain := name.first.plain
  simp only [mem_cons, not_mem_nil, or_false, not_or] at plain
  have opens : scanFilters ⟨0, indent, false⟩ token (60 :: 47 :: (name.bytes ++ 62 :: tail)) =
      scanFilters ⟨0, indent - 1, true⟩ (token ++ [60]) (47 :: (name.bytes ++ 62 :: tail)) := by
    rw [scanFilters]
    simp
  have slash : scanFilters ⟨0, indent - 1, true⟩ (token ++ [60]) (47 :: (name.bytes ++ 62 :: tail)) =
      scanFilters ⟨0, indent - 1, true⟩ (token ++ [60] ++ [47]) (name.bytes ++ 62 :: tail) := by
    apply scan_text rfl <;> simp [EndName.bytes, plain]
  rw [opens, slash, EndName.bytes, cons_append, scan_tagByte, scan_tagBytes, scan_close]
  simp

theorem scan_slash (ends : tail.head? = some 62) :
    scanFilters ⟨0, indent, false⟩ token (47 :: tail) = scanFilters ⟨0, indent - 1, false⟩ (token ++ [47]) tail := by
  obtain ⟨rest, rfl⟩ := head?_eq_some_iff.mp ends
  have close : scanFilters ⟨0, indent - 1, false⟩ (token ++ [47]) (62 :: rest) =
      scanFilters ⟨0, indent - 1, false⟩ (token ++ [47] ++ [62]) rest := by
    rw [scanFilters]
    simp
  rw [close, scanFilters]
  simp

theorem scan_textByte (c : TextByte) (notEnd : ¬(c.byte = 47 ∧ tail.head? = some 62)) (notSplit : ¬(indent = 0 ∧ c.byte = 41)) :
    scanFilters ⟨0, indent, false⟩ token (c.byte :: tail) = scanFilters ⟨0, indent, false⟩ (token ++ [c.byte]) tail := by
  by_cases close : c.byte = 62
  · rw [scanFilters]
    simp [close]
  · exact scan_text rfl (by simp) c.isText.1 notEnd close notSplit

theorem scan_split :
    scanFilters ⟨0, 0, false⟩ token (41 :: tail) =
      if tail.head? = some 40 then token :: scanFilters ⟨0, 0, false⟩ [] tail.tail else [token] := by
  rw [scanFilters]
  simp

end Tags

def ScanPasses (indent change : Int) (text tail : CString) : Prop :=
  ∀ token, scanFilters ⟨0, indent, false⟩ token (text ++ tail) =
    scanFilters ⟨0, indent + change, false⟩ (token ++ text) tail

def Cuts (indent : Int) (text tail : CString) : Prop :=
  ∀ token, ∃ part others, part.length < text.length ∧
    scanFilters ⟨0, indent, false⟩ token (text ++ tail) = (token ++ part) :: others

section Passing
variable {indent change other : Int} {text more tail : CString}

theorem ScanPasses.append (first : ScanPasses indent change text (more ++ tail)) (second : ScanPasses (indent + change) other more tail) :
    ScanPasses indent (change + other) (text ++ more) tail := by
  intro token
  rw [append_assoc, first, second, append_assoc, Int.add_assoc]

theorem Cuts.of_append (cuts : Cuts indent text (more ++ tail)) : Cuts indent (text ++ more) tail := by
  intro token
  obtain ⟨part, others, shorter, result⟩ := cuts token
  refine ⟨part, others, by rw [length_append]; omega, ?_⟩
  rw [append_assoc, result]

theorem ScanPasses.cuts (first : ScanPasses indent change text (more ++ tail)) (second : Cuts (indent + change) more tail) :
    Cuts indent (text ++ more) tail := by
  intro token
  obtain ⟨part, others, shorter, result⟩ := second (token ++ text)
  refine ⟨text ++ part, others, by rw [length_append, length_append]; omega, ?_⟩
  rw [append_assoc, first, result, append_assoc]

end Passing

theorem head?_bytes_append {content : XmlContent} {tail : CString} (next : tail.head? ≠ some 62) :
    (content.bytes ++ tail).head? = some 62 ↔ content.bytes.head? = some 62 := by
  cases content with
  | nothing => simpa [XmlContent.bytes] using next
  | text c rest => rfl
  | selfClosing tag rest => rfl
  | element tag inner name rest => rfl

theorem passes_textByte (c : TextByte) (rest : XmlContent) {indent : Int} {tail : CString} (next : tail.head? ≠ some 62)
    (notSplit : ¬(indent = 0 ∧ c.byte = 41)) :
    ScanPasses indent (if c.byte = 47 ∧ rest.bytes.head? = some 62 then -1 else 0) [c.byte] (rest.bytes ++ tail) := by
  intro token
  rw [singleton_append]
  split
  · rename_i ends
    rw [ends.1, scan_slash ((head?_bytes_append next).mpr ends.2)]
    rfl
  · rename_i notEnd
    rw [scan_textByte c (by rwa [head?_bytes_append next]) notSplit, Int.add_zero]

theorem cuts_textByte (c : TextByte) {tail : CString} (splits : c.byte = 41) : Cuts 0 [c.byte] tail := by
  intro token
  rw [splits, singleton_append, scan_split]
  split
  · exact ⟨[], _, Nat.one_pos, by rw [append_nil]⟩
  · exact ⟨[], [], Nat.one_pos, by rw [append_nil]⟩

theorem textEnds_text (c : TextByte) (rest : XmlContent) :
    -((XmlContent.text c rest).textEnds : Int) =
      (if c.byte = 47 ∧ rest.bytes.head? = some 62 then -1 else 0) + -(rest.textEnds : Int) := by
  rw [XmlContent.textEnds]
  split <;> push_cast <;> omega

section Elements
variable {indent : Int} {tail : CString}

theorem passes_startTag (tag : XmlTag) : ScanPasses indent 1 (60 :: (tag.bytes ++ [62])) tail := by
  intro token
  have scan := @scan_startTag indent token tail tag
  simpa using scan

theorem passes_selfClosing (tag : XmlTag) : ScanPasses indent 0 (60 :: (tag.bytes ++ [47, 62])) tail := by
  intro token
  have scan := @scan_selfClosing indent token tail tag
  simpa using scan

theorem passes_endTag (name : EndName) : ScanPasses indent (-1) (60 :: 47 :: (name.bytes ++ [62])) tail := by
  intro token
  have scan := @scan_endTag indent token tail name
  simpa [Int.sub_eq_add_neg] using scan

theorem bytes_selfClosing (tag : XmlTag) (rest : XmlContent) :
    (XmlContent.selfClosing tag rest).bytes = 60 :: (tag.bytes ++ [47, 62]) ++ rest.bytes := by
  simp [XmlContent.bytes]

theorem bytes_element (tag : XmlTag) (inner : XmlContent) (name : EndName) (rest : XmlContent) :
    (XmlContent.element tag inner name rest).bytes =
      60 :: (tag.bytes ++ [62]) ++ (inner.bytes ++ (60 :: 47 :: (name.bytes ++ [62]) ++ rest.bytes)) := by
  simp [XmlContent.bytes]

end Elements

theorem scan_content (content : XmlContent) {indent : Int} {tail : CString} (next : tail.head? ≠ some 62) :
    ScanPasses indent (-content.textEnds) content.bytes tail ∨ Cuts indent content.bytes tail := by
  induction content generalizing indent tail with
  | nothing =>
    left
    intro token
    simp [XmlContent.bytes, XmlContent.textEnds]
  | text c rest ih =>
    by_cases splits : indent = 0 ∧ c.byte = 41
    · right
      obtain ⟨rfl, isParenthesis⟩ := splits
      exact (cuts_textByte c isParenthesis).of_append
    · have first := passes_textByte c rest next splits
      rcases ih next with pass | cut
      · left
        rw [textEnds_text]
        exact first.append pass
      · exact Or.inr (first.cuts cut)
  | selfClosing tag rest ih =>
    have first : ScanPasses indent 0 _ (rest.bytes ++ tail) := passes_selfClosing tag
    rw [bytes_selfClosing, XmlContent.textEnds]
    rcases ih next with pass | cut
    · left
      have whole := first.append pass
      rwa [Int.zero_add] at whole
    · exact Or.inr (first.cuts cut)
  | element tag inner name rest innerIh restIh =>
    rw [bytes_element, XmlContent.textEnds]
    have opens : ScanPasses indent 1 (60 :: (tag.bytes ++ [62]))
        (inner.bytes ++ (60 :: 47 :: (name.bytes ++ [62]) ++ rest.bytes) ++ tail) := passes_startTag tag
    have inside : ((60 :: 47 :: (name.bytes ++ [62]) ++ rest.bytes) ++ tail).head? ≠ some 62 := by simp
    rcases innerIh inside with innerPass | innerCut
    · rcases restIh next with restPass | restCut
      · left
        have whole := opens.append (innerPass.append ((passes_endTag name).append restPass))
        have change : (1 : Int) + (-(inner.textEnds : Int) + (-1 + -(rest.textEnds : Int))) =
            -((inner.textEnds + rest.textEnds : Nat) : Int) := by omega
        rwa [change] at whole
      · exact Or.inr (opens.cuts (innerPass.cuts ((passes_endTag name).cuts restCut)))
    · exact Or.inr (opens.cuts innerCut.of_append)

theorem scan_clean (content : XmlContent) (clean : content.textEnds = 0) {indent : Int} (open_ : 0 ≤ indent) {tail : CString}
    (next : tail.head? ≠ some 62) :
    if indent = 0 ∧ content.hasOuterParenthesis then Cuts indent content.bytes tail
    else ScanPasses indent 0 content.bytes tail := by
  induction content generalizing indent tail with
  | nothing =>
    rw [if_neg (by simp [XmlContent.hasOuterParenthesis])]
    intro token
    simp [XmlContent.bytes]
  | text c rest ih =>
    have change := textEnds_text c rest
    rw [clean] at change
    have restClean : rest.textEnds = 0 := by
      split at change <;> omega
    have still : (if c.byte = 47 ∧ rest.bytes.head? = some 62 then -1 else 0 : Int) = 0 := by
      split at change
      · omega
      · rename_i notEnd
        rw [if_neg notEnd]
    by_cases splits : indent = 0 ∧ c.byte = 41
    · obtain ⟨rfl, isParenthesis⟩ := splits
      rw [if_pos ⟨rfl, by simp [XmlContent.hasOuterParenthesis, isParenthesis]⟩]
      exact (cuts_textByte c isParenthesis).of_append
    · have first := passes_textByte c rest next splits
      rw [still] at first
      have others := ih restClean open_ next
      by_cases cuts : indent = 0 ∧ rest.hasOuterParenthesis = true
      · rw [if_pos cuts] at others
        rw [if_pos ⟨cuts.1, by simp [XmlContent.hasOuterParenthesis, cuts.2]⟩]
        exact first.cuts (by rwa [Int.add_zero])
      · rw [if_neg cuts] at others
        rw [if_neg]
        · exact first.append (by rwa [Int.add_zero])
        · rintro ⟨zero, outer⟩
          rw [XmlContent.hasOuterParenthesis, Bool.or_eq_true, beq_iff_eq] at outer
          exact outer.elim (fun here => splits ⟨zero, here⟩) fun later => cuts ⟨zero, later⟩
  | selfClosing tag rest ih =>
    have others := ih clean open_ next
    rw [bytes_selfClosing, XmlContent.hasOuterParenthesis]
    split
    · rename_i cuts
      rw [if_pos cuts] at others
      exact (passes_selfClosing tag).cuts (by rwa [Int.add_zero])
    · rename_i passes
      rw [if_neg passes] at others
      exact (passes_selfClosing tag).append (by rwa [Int.add_zero])
  | element tag inner name rest innerIh restIh =>
    rw [XmlContent.textEnds, Nat.add_eq_zero_iff] at clean
    have opens : ScanPasses indent 1 (60 :: (tag.bytes ++ [62]))
        (inner.bytes ++ (60 :: 47 :: (name.bytes ++ [62]) ++ rest.bytes) ++ tail) := passes_startTag tag
    have inside : ((60 :: 47 :: (name.bytes ++ [62]) ++ rest.bytes) ++ tail).head? ≠ some 62 := by simp
    have innerPass := innerIh clean.1 (show 0 ≤ indent + 1 by omega) inside
    rw [if_neg (by omega)] at innerPass
    have others := restIh clean.2 open_ next
    rw [bytes_element, XmlContent.hasOuterParenthesis]
    have back : indent + 1 + 0 + -1 = indent := by omega
    split
    · rename_i cuts
      rw [if_pos cuts] at others
      exact opens.cuts (innerPass.cuts ((passes_endTag name).cuts (by rwa [back])))
    · rename_i passes
      rw [if_neg passes] at others
      exact opens.append (innerPass.append ((passes_endTag name).append (by rwa [back])))

def SplitsBack (filters : List XmlContent) : Prop := FLTSplitFilters (joinFilters filters) = filters.map XmlContent.bytes

/-- No text has a `/>` in it, and no closing parenthesis stands outside the elements. -/
def XmlContent.IsClean (content : XmlContent) : Prop := content.textEnds = 0 ∧ content.hasOuterParenthesis = false

theorem scanFilters_token {scan : FilterScan} {token pszStr first : CString} {others : List CString}
    (result : scanFilters scan token pszStr = first :: others) : token.length ≤ first.length := by
  fun_induction scanFilters scan token pszStr
  case case1 => cases result
  case case7 =>
    cases result
    exact Nat.le_refl _
  case case8 =>
    cases result
    exact Nat.le_refl _
  all_goals
    rename_i ih
    have longer := ih result
    rw [length_append] at longer
    omega

theorem joinFilters_cons (filter : XmlContent) (filters : List XmlContent) :
    joinFilters (filter :: filters) = 40 :: (filter.bytes ++ 41 :: joinFilters filters) := by
  simp [joinFilters]

theorem scan_next (token : CString) (filters : List XmlContent) :
    scanFilters ⟨0, 0, false⟩ token (41 :: joinFilters filters) = token :: FLTSplitFilters (joinFilters filters) := by
  rw [scan_split]
  cases filters with
  | nil => rfl
  | cons filter filters =>
    rw [joinFilters_cons, head?_cons, if_pos rfl]
    rfl

theorem clean_of_scan {filter : XmlContent} {tail : CString} {others : List CString}
    (result : scanFilters ⟨0, 0, false⟩ [] (filter.bytes ++ 41 :: tail) = filter.bytes :: others) : filter.IsClean := by
  have next : (41 :: tail).head? ≠ some 62 := by simp
  have notCut : ¬Cuts 0 filter.bytes (41 :: tail) := by
    intro cuts
    obtain ⟨part, more, shorter, cut⟩ := cuts []
    rw [result, nil_append] at cut
    rw [(List.cons.inj cut).1] at shorter
    exact absurd shorter (Nat.lt_irrefl _)
  have noEnds : filter.textEnds = 0 := by
    rcases @scan_content filter 0 _ next with passes | cuts
    · by_contra some_ends
      have scan := passes []
      have indented : ¬((0 : Int) + -filter.textEnds = 0 ∧ (41 : UInt8) = 41) := by omega
      rw [result, nil_append, scan_text rfl (by simp) (by decide) (by simp) (by decide) indented] at scan
      have longer := scanFilters_token scan.symm
      rw [length_append, length_singleton] at longer
      omega
    · exact absurd cuts notCut
  refine ⟨noEnds, ?_⟩
  have outer := scan_clean filter noEnds (Int.le_refl 0) next
  by_contra parenthesis
  rw [Bool.not_eq_false] at parenthesis
  rw [if_pos ⟨rfl, parenthesis⟩] at outer
  exact notCut outer

theorem scan_of_clean {filter : XmlContent} (clean : filter.IsClean) (filters : List XmlContent) :
    FLTSplitFilters (joinFilters (filter :: filters)) = filter.bytes :: FLTSplitFilters (joinFilters filters) := by
  have passes := scan_clean filter clean.1 (Int.le_refl 0) (show (41 :: joinFilters filters).head? ≠ some 62 by simp)
  rw [if_neg (by simp [clean.2])] at passes
  rw [joinFilters_cons, FLTSplitFilters, passes, Int.add_zero, nil_append, scan_next]

/-- A list of filters is split into its filters exactly when they are clean. -/
theorem FLTSplitFilters_iff (filters : List XmlContent) : SplitsBack filters ↔ ∀ filter ∈ filters, filter.IsClean := by
  induction filters with
  | nil => simp [SplitsBack, joinFilters, FLTSplitFilters]
  | cons filter filters ih =>
    rw [List.forall_mem_cons, ← ih]
    constructor
    · intro splits
      rw [SplitsBack, List.map_cons] at splits
      have clean : filter.IsClean := by
        rw [joinFilters_cons] at splits
        exact clean_of_scan splits
      rw [scan_of_clean clean] at splits
      exact ⟨clean, (List.cons.inj splits).2⟩
    · rintro ⟨clean, others⟩
      rw [SplitsBack, scan_of_clean clean, others, List.map_cons]

def letterA : TagByte := ⟨97, by decide⟩

def arrowInText : XmlContent :=
  .element ⟨letterA, []⟩ (.text ⟨47, by decide⟩ (.text ⟨62, by decide⟩ .nothing)) ⟨letterA, []⟩ .nothing

theorem FLTSplitFilters_arrowInText : FLTSplitFilters (joinFilters [arrowInText]) = [] ∧ ¬SplitsBack [arrowInText] := by
  have noFilter : FLTSplitFilters (joinFilters [arrowInText]) = [] := by
    simp [FLTSplitFilters, scanFilters, joinFilters, arrowInText, letterA, XmlContent.bytes, XmlTag.bytes, EndName.bytes]
  refine ⟨noFilter, ?_⟩
  rw [SplitsBack, noFilter, List.map_singleton]
  exact (List.cons_ne_nil _ _).symm

/-- Two filters with parentheses and quotes in the text: `(<a>)(</a>)(<a>"</a>)`. -/
example : FLTSplitFilters [40, 60, 97, 62, 41, 40, 60, 47, 97, 62, 41, 40, 60, 97, 62, 34, 60, 47, 97, 62, 41] =
    [[60, 97, 62, 41, 40, 60, 47, 97, 62], [60, 97, 62, 34, 60, 47, 97, 62]] := by
  simp [FLTSplitFilters, scanFilters]

end MapServer
