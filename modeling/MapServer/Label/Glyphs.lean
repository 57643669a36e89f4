import MapServer.Text

/-!
The characters of a text (`msUTF8ToUniChar` of `maptclutf.c` and `msGetUnicodeEntity` of `mapstring.cpp`), and the line breaks
that `msLayoutTextSymbol` puts among them. `mapentities` are the entities of HTML with their code points.
-/

namespace MapServer

def xdigitValue (c : UInt8) : Nat := if isdigit c then c.toNat - 48 else (tolower c).toNat - 87

def entityNumber (front base : Nat) (digits after : CString) : Option (Nat × Nat) :=
  if digits ≠ [] ∧ after.head? = some 59 then
    some (front + digits.length + 1, digits.foldl (fun val c => val * base + xdigitValue c) 0)
  else none

def msGetUnicodeEntity (mapentities : List (CString × Nat)) : CString → Option (Nat × Nat)
  | 38 :: 35 :: rest =>
    if rest.head? = some 120 ∨ rest.head? = some 88 then
      let digits := (rest.tail.take 5).takeWhile isxdigit
      entityNumber 3 16 digits (rest.tail.drop digits.length)
    else
      let digits := (rest.take 6).takeWhile isdigit
      entityNumber 2 10 digits (rest.drop digits.length)
  | 38 :: rest =>
    let name := rest.takeWhile (· ≠ 59)
    if name.length ≤ 8 ∧ name.length < rest.length then
      (mapentities.find? fun entity => entity.1 = name).map fun entity => (name.length + 2, entity.2)
    else none
  | _ => none

def isTrail (c : UInt8) : Bool := c.toNat / 64 == 2

def trailCount (byte : Nat) : Nat :=
  if byte < 0xC0 then 0 else if byte < 0xE0 then 1 else if byte < 0xF0 then 2
  else if byte < 0xF8 then 3 else if byte < 0xFC then 4 else 5

def ms_Tcl_UtfToUniChar (byte : UInt8) (rest : CString) : Nat × Nat :=
  let trail := trailCount byte.toNat
  if trail ≤ rest.length ∧ (rest.take trail).all isTrail then
    (trail + 1, (rest.take trail).foldl (fun ch c => ch * 64 + c.toNat % 64)
      (if trail = 0 then byte.toNat else byte.toNat % 2 ^ (6 - trail)))
  else (1, byte.toNat)

def msUTF8ToUniChar (mapentities : List (CString × Nat)) (byte : UInt8) (rest : CString) : Nat × Nat :=
  (msGetUnicodeEntity mapentities (byte :: rest)).getD (ms_Tcl_UtfToUniChar byte rest)

def skip_unicode (unicode : Nat) : Bool := unicode == 13

def populateUnicodes (mapentities : List (CString × Nat)) : Nat → CString → List Nat
  | fuel + 1, byte :: rest =>
    let (bytes, unicode) := msUTF8ToUniChar mapentities byte rest
    let others := populateUnicodes mapentities fuel ((byte :: rest).drop bytes)
    if skip_unicode unicode then others else unicode :: others
  | _, _ => []

def wrapUnicode (wrap : UInt8) : Nat := if wrap.toNat < 128 then wrap.toNat else 2 ^ 32 - 256 + wrap.toNat

def wrapLongLines (wrap : Nat) (maxlength : Int) : Int → List Nat → List Nat
  | _, [] => []
  | num_cur_glyph_on_line, unicode :: rest =>
    if (unicode = wrap ∨ unicode = 0x200b) ∧ maxlength ≤ num_cur_glyph_on_line then 10 :: wrapLongLines wrap maxlength 0 rest
    else unicode :: wrapLongLines wrap maxlength (num_cur_glyph_on_line + 1) rest

def wrapUnicodes (wrap : UInt8) (maxlength : Int) (unicodes : List Nat) : List Nat :=
  if wrap ≠ 0 ∨ maxlength > 0 then
    if wrap ≠ 0 ∧ maxlength = 0 then unicodes.map fun unicode => if unicode = wrapUnicode wrap then 10 else unicode
    else if (unicodes.length : Int) > maxlength then wrapLongLines (wrapUnicode wrap) maxlength 0 unicodes
    else unicodes
  else unicodes

def layoutUnicodes (mapentities : List (CString × Nat)) (wrap : UInt8) (maxlength : Int) (annotext : CString) : List Nat :=
  wrapUnicodes wrap maxlength (populateUnicodes mapentities annotext.length annotext)

theorem entityNumber_pos {front base : Nat} {digits after : CString} {found : Nat × Nat}
    (run : entityNumber front base digits after = some found) : 0 < found.1 := by
  unfold entityNumber at run
  split at run
  · cases run
    exact Nat.succ_pos _
  · cases run

theorem msGetUnicodeEntity_pos {mapentities : List (CString × Nat)} {text : CString} {found : Nat × Nat}
    (entity : msGetUnicodeEntity mapentities text = some found) : 0 < found.1 := by
  unfold msGetUnicodeEntity at entity
  split at entity
  · split at entity
    · exact entityNumber_pos entity
    · exact entityNumber_pos entity
  · dsimp only at entity
    split at entity
    · obtain ⟨_, _, rfl⟩ := Option.map_eq_some_iff.mp entity
      exact Nat.succ_pos _
    · cases entity
  · cases entity

theorem msUTF8ToUniChar_pos (mapentities : List (CString × Nat)) (byte : UInt8) (rest : CString) :
    0 < (msUTF8ToUniChar mapentities byte rest).1 := by
  unfold msUTF8ToUniChar
  cases entity : msGetUnicodeEntity mapentities (byte :: rest) with
  | none =>
    show 0 < (ms_Tcl_UtfToUniChar byte rest).1
    unfold ms_Tcl_UtfToUniChar
    dsimp only
    split
    · exact Nat.succ_pos _
    · exact Nat.one_pos
  | some found => exact msGetUnicodeEntity_pos entity

theorem length_populateUnicodes (mapentities : List (CString × Nat)) (fuel : Nat) (text : CString) :
    (populateUnicodes mapentities fuel text).length ≤ text.length := by
  induction fuel generalizing text with
  | zero => cases text <;> exact Nat.zero_le _
  | succ fuel ih =>
    cases text with
    | nil => exact Nat.zero_le _
    | cons byte rest =>
      have bytes := msUTF8ToUniChar_pos mapentities byte rest
      have others := ih ((byte :: rest).drop (msUTF8ToUniChar mapentities byte rest).1)
      rw [List.length_drop, List.length_cons] at others
      rw [populateUnicodes, List.length_cons]
      dsimp only
      split
      · omega
      · rw [List.length_cons]
        omega

theorem length_wrapLongLines (wrap : Nat) (maxlength count : Int) (unicodes : List Nat) :
    (wrapLongLines wrap maxlength count unicodes).length = unicodes.length := by
  induction unicodes generalizing count with
  | nil => rfl
  | cons unicode rest ih =>
    rw [wrapLongLines]
    split <;> rw [List.length_cons, ih, List.length_cons]

theorem length_layoutUnicodes (mapentities : List (CString × Nat)) (wrap : UInt8) (maxlength : Int) (annotext : CString) :
    (layoutUnicodes mapentities wrap maxlength annotext).length ≤ annotext.length := by
  have glyphs := length_populateUnicodes mapentities annotext.length annotext
  unfold layoutUnicodes wrapUnicodes
  split
  · split
    · rw [List.length_map]
      exact glyphs
    · split
      · rw [length_wrapLongLines]
        exact glyphs
      · exact glyphs
  · exact glyphs

end MapServer
