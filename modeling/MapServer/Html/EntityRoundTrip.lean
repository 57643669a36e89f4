import MapServer.Text
import Mathlib.Data.List.TakeWhile

namespace MapServer

def encodedEntity (c : UInt8) : CString :=
  if c = 38 then ascii "&amp;"
  else if c = 60 then ascii "&lt;"
  else if c = 62 then ascii "&gt;"
  else if c = 34 then ascii "&quot;"
  else if c = 39 then ascii "&#39;"
  else [c]

def msEncodeHTMLEntities (string : CString) : CString := string.flatMap encodedEntity

def strlcpy (siz : Nat) (src : CString) : CString := src.take (siz - 1)

def decodedEntity (pszReplace : CString) : Option UInt8 :=
  if sameIgnoringCase pszReplace (ascii "&amp;") then some 38
  else if sameIgnoringCase pszReplace (ascii "&lt;") then some 60
  else if sameIgnoringCase pszReplace (ascii "&gt;") then some 62
  else if sameIgnoringCase pszReplace (ascii "&quot;") then some 34
  else if sameIgnoringCase pszReplace (ascii "&apos;") then some 39
  else none

def splitSemiColon (text : CString) : Option (CString × CString) :=
  match text.dropWhile (· ≠ 59) with
  | [] => none
  | semiColon :: rest => some (text.takeWhile (· ≠ 59) ++ [semiColon], rest)

theorem splitSemiColon_shorter {text entity rest : CString} (split : splitSemiColon text = some (entity, rest)) :
    rest.length < text.length := by
  have within := (List.dropWhile_suffix (fun c : UInt8 => decide (c ≠ 59)) (l := text)).length_le
  unfold splitSemiColon at split
  split at split
  · cases split
  · rename_i semiColon others found
    cases split
    rw [found, List.length_cons] at within
    omega

/-- What the loop leaves of the string from `pszBuffer` on. The search for `&` passes over the other characters. -/
def decodeEntities (bufferSize : Nat) (pszBuffer : CString) : CString :=
  match pszBuffer with
  | [] => []
  | c :: rest =>
    if c ≠ 38 then c :: decodeEntities bufferSize rest
    else
      match _ : splitSemiColon (strlcpy bufferSize (c :: rest)) with
      | none => c :: rest
      | some (pszReplace, pszSemiColon) =>
        match decodedEntity pszReplace with
        | some decoded => decoded :: decodeEntities bufferSize (strlcpy bufferSize pszSemiColon)
        | none => c :: decodeEntities bufferSize rest
termination_by pszBuffer.length
decreasing_by
  · simp
  · rename_i split
    have shorter := splitSemiColon_shorter split
    simp only [strlcpy, List.length_take] at shorter ⊢
    omega
  · simp

def msDecodeHTMLEntities (string : CString) : CString := decodeEntities string.length string

end MapServer

namespace MapServer

def markup : List UInt8 := [38, 60, 62, 34]

def comesBack (c : UInt8) : CString := if c = 39 then ascii "&#39;" else [c]

theorem splitSemiColon_eq {body : CString} (closed : 59 ∉ body) (rest : CString) :
    splitSemiColon (body ++ 59 :: rest) = some (body ++ [59], rest) := by
  have all : ∀ c ∈ body, decide (c ≠ 59) = true := by
    intro c member
    apply decide_eq_true
    rintro rfl
    exact closed member
  rw [splitSemiColon, List.dropWhile_append_of_pos all, List.takeWhile_append_of_pos all]
  simp

theorem splitSemiColon_none {text : CString} (absent : 59 ∉ text) : splitSemiColon text = none := by
  have nothing : text.dropWhile (· ≠ 59) = [] := by
    rw [List.dropWhile_eq_nil_iff]
    intro c member
    apply decide_eq_true
    rintro rfl
    exact absent member
  rw [splitSemiColon, nothing]

variable {c : UInt8} {bufferSize : Nat} {rest : CString}

theorem decodeEntities_plain (plain : c ≠ 38) (bufferSize : Nat) (rest : CString) :
    decodeEntities bufferSize (c :: rest) = c :: decodeEntities bufferSize rest := by
  rw [decodeEntities, if_pos plain]

theorem decodeEntities_open (bufferSize : Nat) {text : CString} (absent : 59 ∉ text) :
    decodeEntities bufferSize text = text := by
  induction text with
  | nil => rw [decodeEntities]
  | cons c rest ih =>
    have later : 59 ∉ rest := fun member => absent (List.mem_cons_of_mem _ member)
    have copy : 59 ∉ strlcpy bufferSize (c :: rest) := fun member => absent (List.mem_of_mem_take member)
    rw [decodeEntities]
    split
    · rw [ih later]
    · split
      · rfl
      · rename_i found
        rw [splitSemiColon_none copy] at found
        cases found

theorem decodeEntities_entity {body copied : CString} (closed : 59 ∉ body)
    (copy : strlcpy bufferSize (38 :: (body ++ 59 :: rest)) = 38 :: (body ++ 59 :: copied)) :
    decodeEntities bufferSize (38 :: (body ++ 59 :: rest)) =
      match decodedEntity (38 :: (body ++ [59])) with
      | some decoded => decoded :: decodeEntities bufferSize (strlcpy bufferSize copied)
      | none => 38 :: decodeEntities bufferSize (body ++ 59 :: rest) := by
  have inEntity : 59 ∉ 38 :: body := by
    rw [List.mem_cons, not_or]
    exact ⟨by decide, closed⟩
  have split := splitSemiColon_eq inEntity copied
  rw [List.cons_append, ← copy, List.cons_append] at split
  rw [decodeEntities, if_neg (by simp)]
  split
  · rename_i none
    rw [split] at none
    cases none
  · rename_i found
    rw [split] at found
    cases found
    rfl

theorem encodedEntity_cases (c : UInt8) :
    (c ∉ 39 :: markup ∧ encodedEntity c = [c]) ∨
      ∃ body, encodedEntity c = 38 :: (body ++ [59]) ∧ 38 ∉ body ∧ 59 ∉ body ∧ 2 ≤ body.length ∧
        (decodedEntity (encodedEntity c) = some c ∧ c ∈ markup ∨
          decodedEntity (encodedEntity c) = none ∧ c = 39 ∧ encodedEntity c = ascii "&#39;") := by
  by_cases special : c ∈ 39 :: markup
  · right
    rw [markup] at special
    simp only [List.mem_cons, List.not_mem_nil, or_false] at special
    rcases special with rfl | rfl | rfl | rfl | rfl
    · exact ⟨ascii "#39", by decide⟩
    · exact ⟨ascii "amp", by decide⟩
    · exact ⟨ascii "lt", by decide⟩
    · exact ⟨ascii "gt", by decide⟩
    · exact ⟨ascii "quot", by decide⟩
  · refine .inl ⟨special, ?_⟩
    rw [markup] at special
    simp only [List.mem_cons, List.not_mem_nil, or_false, not_or] at special
    obtain ⟨apostrophe, amp, lt, gt, quot⟩ := special
    rw [encodedEntity, if_neg amp, if_neg lt, if_neg gt, if_neg quot, if_neg apostrophe]

theorem comesBack_of_ne (other : c ≠ 39) : comesBack c = [c] := if_neg other

theorem decodeEntities_skip (bufferSize : Nat) {plain : CString} (noAmp : 38 ∉ plain) (rest : CString) :
    decodeEntities bufferSize (plain ++ rest) = plain ++ decodeEntities bufferSize rest := by
  induction plain with
  | nil => rfl
  | cons c plain ih =>
    rw [List.mem_cons, not_or] at noAmp
    rw [List.cons_append, decodeEntities_plain (Ne.symm noAmp.1), ih noAmp.2, List.cons_append]

theorem decodeEntities_encodedEntity (short : (encodedEntity c ++ rest).length < bufferSize) :
    decodeEntities bufferSize (encodedEntity c ++ rest) = comesBack c ++ decodeEntities bufferSize rest := by
  rcases encodedEntity_cases c with ⟨plain, same⟩ | ⟨body, same, noAmp, closed, -, decodes⟩
  · rw [List.mem_cons, not_or] at plain
    have notAmp : c ≠ 38 := by
      rintro rfl
      exact plain.2 (by decide)
    rw [same, comesBack_of_ne plain.1, List.singleton_append, decodeEntities_plain notAmp]
    rfl
  · have text : encodedEntity c ++ rest = 38 :: (body ++ 59 :: rest) := by rw [same]; simp
    rw [text] at short
    have copy : strlcpy bufferSize (38 :: (body ++ 59 :: rest)) = 38 :: (body ++ 59 :: rest) :=
      List.take_of_length_le (by omega)
    have copyRest : strlcpy bufferSize rest = rest := by
      apply List.take_of_length_le
      simp only [List.length_cons, List.length_append] at short
      omega
    rw [text, decodeEntities_entity closed copy, ← same]
    rcases decodes with ⟨known, member⟩ | ⟨unknown, rfl, -⟩
    · have other : c ≠ 39 := by
        rintro rfl
        exact absurd member (by decide)
      rw [known, comesBack_of_ne other, copyRest]
      rfl
    · have kept : comesBack 39 = 38 :: (body ++ [59]) := same ▸ rfl
      have tail : body ++ 59 :: rest = (body ++ [59]) ++ rest := by simp
      have plain : 38 ∉ body ++ [59] := by
        rw [List.mem_append, not_or]
        exact ⟨noAmp, by decide⟩
      rw [unknown, kept, tail]
      rw [decodeEntities_skip bufferSize plain, List.cons_append]

theorem decodeEntities_encoded (front rest : CString) (short : (msEncodeHTMLEntities front ++ rest).length < bufferSize) :
    decodeEntities bufferSize (msEncodeHTMLEntities front ++ rest) =
      front.flatMap comesBack ++ decodeEntities bufferSize rest := by
  induction front with
  | nil => rfl
  | cons c front ih =>
    have split : msEncodeHTMLEntities (c :: front) ++ rest = encodedEntity c ++ (msEncodeHTMLEntities front ++ rest) := by
      simp [msEncodeHTMLEntities]
    rw [split] at short ⊢
    rw [decodeEntities_encodedEntity short, ih (by rw [List.length_append] at short; omega), List.flatMap_cons,
      List.append_assoc]

theorem strlcpy_whole (text : CString) : strlcpy text.length text = text.dropLast := List.dropLast_eq_take.symm

theorem strlcpy_first (body : CString) (more : rest ≠ []) :
    strlcpy (38 :: (body ++ 59 :: rest)).length (38 :: (body ++ 59 :: rest)) = 38 :: (body ++ 59 :: rest.dropLast) := by
  rw [strlcpy_whole, List.dropLast_cons_of_ne_nil (by simp), List.dropLast_append_of_ne_nil (by simp),
    List.dropLast_cons_of_ne_nil more]

theorem encodedEntity_ne_nil (c : UInt8) : encodedEntity c ≠ [] := by
  rcases encodedEntity_cases c with ⟨-, same⟩ | ⟨body, same, -⟩ <;> simp [same]

theorem msEncodeHTMLEntities_ne_nil {s : CString} (more : s ≠ []) : msEncodeHTMLEntities s ≠ [] := by
  cases s with
  | nil => exact absurd rfl more
  | cons c s => simp [msEncodeHTMLEntities, encodedEntity_ne_nil]

theorem decode_single (special : c ∈ 39 :: markup) : msDecodeHTMLEntities (encodedEntity c) = encodedEntity c := by
  rcases encodedEntity_cases c with ⟨plain, -⟩ | ⟨body, same, -, closed, -⟩
  · exact absurd special plain
  · have copy : 59 ∉ strlcpy (encodedEntity c).length (encodedEntity c) := by
      rw [strlcpy_whole, same, List.dropLast_cons_of_ne_nil (by simp), List.dropLast_concat, List.mem_cons, not_or]
      exact ⟨by decide, closed⟩
    rw [same] at copy ⊢
    rw [msDecodeHTMLEntities, decodeEntities, if_neg (by simp)]
    split
    · rfl
    · rename_i found
      rw [splitSemiColon_none copy] at found
      cases found

theorem length_comesBack (s : CString) : (s.flatMap comesBack).length = s.length + 4 * s.count 39 := by
  induction s with
  | nil => rfl
  | cons c s ih =>
    rw [List.flatMap_cons, List.length_append, ih, List.length_cons, List.count_cons]
    by_cases apostrophe : c = 39
    · subst apostrophe
      have length : (comesBack 39).length = 5 := by decide
      rw [length, if_pos (by decide)]
      omega
    · rw [comesBack_of_ne apostrophe, if_neg (by simpa using apostrophe), List.length_singleton]
      omega

theorem comesBack_eq_iff (s : CString) : s.flatMap comesBack = s ↔ 39 ∉ s := by
  constructor
  · intro same
    have length := length_comesBack s
    rw [same] at length
    exact List.count_eq_zero.mp (by omega)
  · intro absent
    have each : s.map comesBack = s.map fun c => [c] := by
      apply List.map_congr_left
      intro c member
      apply comesBack_of_ne
      rintro rfl
      exact absent member
    rw [List.flatMap_def, each, ← List.flatMap_def, List.flatMap_singleton']

theorem decodeEntities_all {s : CString} (short : (msEncodeHTMLEntities s).length < bufferSize) :
    decodeEntities bufferSize (msEncodeHTMLEntities s) = s.flatMap comesBack := by
  have run := decodeEntities_encoded s [] (by rwa [List.append_nil])
  rwa [List.append_nil, decodeEntities, List.append_nil] at run

theorem decode_encode_plain (plain : c ∉ markup) (s : CString) :
    msDecodeHTMLEntities (msEncodeHTMLEntities (c :: s)) = (c :: s).flatMap comesBack := by
  have split : msEncodeHTMLEntities (c :: s) = encodedEntity c ++ msEncodeHTMLEntities s := rfl
  rw [List.flatMap_cons, split]
  rcases encodedEntity_cases c with ⟨other, same⟩ | ⟨body, same, noAmp, closed, -, ⟨-, known⟩ | ⟨unknown, rfl, -⟩⟩
  · rw [List.mem_cons, not_or] at other
    have notAmp : c ≠ 38 := by
      rintro rfl
      exact plain (by decide)
    rw [msDecodeHTMLEntities, same, comesBack_of_ne other.1, List.singleton_append, decodeEntities_plain notAmp,
      decodeEntities_all (by simp)]
    rfl
  · exact absurd known plain
  · have kept : comesBack 39 = encodedEntity 39 := by decide
    rw [kept]
    by_cases single : s = []
    · subst single
      exact decode_single List.mem_cons_self
    · have text : encodedEntity 39 ++ msEncodeHTMLEntities s = 38 :: (body ++ 59 :: msEncodeHTMLEntities s) := by
        rw [same]
        simp
      have copy := strlcpy_first body (msEncodeHTMLEntities_ne_nil single)
      have tail : body ++ 59 :: msEncodeHTMLEntities s = (body ++ [59]) ++ msEncodeHTMLEntities s := by simp
      have noAmp : 38 ∉ body ++ [59] := by
        rw [List.mem_append, not_or]
        exact ⟨noAmp, by decide⟩
      rw [msDecodeHTMLEntities, text, decodeEntities_entity closed copy, ← same, unknown]
      rw [tail, decodeEntities_skip _ noAmp, decodeEntities_all (by simp; omega), same, List.cons_append]

theorem decode_encode_markup (known : c ∈ markup) {s : CString} (more : s ≠ []) :
    msDecodeHTMLEntities (msEncodeHTMLEntities (c :: s)) =
      c :: (s.dropLast.flatMap comesBack ++ (encodedEntity (s.getLast more)).dropLast) := by
  have split : msEncodeHTMLEntities (c :: s) = encodedEntity c ++ msEncodeHTMLEntities s := rfl
  rcases encodedEntity_cases c with ⟨other, -⟩ | ⟨body, same, -, closed, -, ⟨decodes, -⟩ | ⟨-, rfl, -⟩⟩
  · exact absurd (List.mem_cons_of_mem _ known) other
  · have text : encodedEntity c ++ msEncodeHTMLEntities s = 38 :: (body ++ 59 :: msEncodeHTMLEntities s) := by
      rw [same]
      simp
    have copy := strlcpy_first body (msEncodeHTMLEntities_ne_nil more)
    have cut : (msEncodeHTMLEntities s).dropLast =
        msEncodeHTMLEntities s.dropLast ++ (encodedEntity (s.getLast more)).dropLast := by
      conv_lhs => rw [← List.dropLast_append_getLast more]
      rw [msEncodeHTMLEntities, List.flatMap_append, List.flatMap_singleton,
        List.dropLast_append_of_ne_nil (encodedEntity_ne_nil _)]
      rfl
    have openEnd : 59 ∉ (encodedEntity (s.getLast more)).dropLast := by
      rcases encodedEntity_cases (s.getLast more) with ⟨-, one⟩ | ⟨inner, many, -, none, -⟩
      · simp [one]
      · rw [many, List.dropLast_cons_of_ne_nil (by simp), List.dropLast_concat, List.mem_cons, not_or]
        exact ⟨by decide, none⟩
    rw [msDecodeHTMLEntities, split, text, decodeEntities_entity closed copy, ← same, decodes]
    rw [strlcpy, List.take_of_length_le (by simp; omega), cut,
      decodeEntities_encoded _ _ (by rw [← cut]; simp; omega), decodeEntities_open _ openEnd]
  · exact absurd known (by decide)

/-- A string comes back exactly when it has no apostrophe and does not start with a character that has a known
entity. -/
theorem decode_encode_entities_iff (s : CString) :
    msDecodeHTMLEntities (msEncodeHTMLEntities s) = s ↔ 39 ∉ s ∧ ∀ c ∈ s.head?, c ∉ markup := by
  cases s with
  | nil =>
    rw [msEncodeHTMLEntities, List.flatMap_nil, msDecodeHTMLEntities, decodeEntities]
    simp
  | cons c s =>
    by_cases known : c ∈ markup
    · apply iff_of_false
      · by_cases single : s = []
        · subst single
          intro back
          have split : msEncodeHTMLEntities [c] = encodedEntity c := by simp [msEncodeHTMLEntities]
          rw [split, decode_single (List.mem_cons_of_mem _ known)] at back
          rcases encodedEntity_cases c with ⟨other, -⟩ | ⟨body, same, -⟩
          · exact other (List.mem_cons_of_mem _ known)
          · simp [same] at back
        · intro back
          rw [decode_encode_markup known single] at back
          have length := congrArg List.length back
          have positive := List.length_pos_of_ne_nil single
          rw [List.length_cons, List.length_append, length_comesBack, List.length_dropLast, List.length_cons] at length
          rcases encodedEntity_cases (s.getLast single) with ⟨-, one⟩ | ⟨body, many, -, -, long, -⟩
          · simp only [one, List.dropLast_singleton, List.length_nil] at length
            omega
          · simp only [many, List.length_dropLast, List.length_cons, List.length_append, List.length_nil] at length
            omega
      · rintro ⟨-, start⟩
        exact start c rfl known
    · rw [decode_encode_plain known, comesBack_eq_iff]
      simp [known]

theorem decode_encode_entities_single :
    ¬ ∀ s : CString, 0 ∉ s → msDecodeHTMLEntities (msEncodeHTMLEntities s) = s := by
  intro always
  have back := (decode_encode_entities_iff _).mp (always (ascii "<") (by decide))
  exact back.2 60 (by decide) (by decide)

end MapServer
