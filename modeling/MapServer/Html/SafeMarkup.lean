import MapServer.Html.EntityRoundTrip

namespace MapServer

section Buffer

/-- The loop of `msEncodeHTMLEntities` on its buffer of `buflen + 1` bytes, of which `newstring` is written. `strcpy` stores a
zero behind an entity. -/
def encodeLoop : CString → CString → Nat → Option CString
  | [], newstring, buflen => if newstring.length < buflen + 1 then some newstring else none
  | c :: string, newstring, buflen =>
    let buflen := if newstring.length + 6 > buflen then buflen * 2 else buflen
    let entity := encodedEntity c
    let ending := if entity = [c] then 0 else 1
    if newstring.length + entity.length + ending ≤ buflen + 1 then encodeLoop string (newstring ++ entity) buflen else none

theorem length_encodedEntity (c : UInt8) : (encodedEntity c).length ≤ 6 := by
  unfold encodedEntity
  split_ifs <;> simp [ascii]

theorem encodeLoop_eq (string : CString) {newstring : CString} {buflen : Nat} (within : newstring.length ≤ buflen) (large : 6 ≤ buflen) :
    encodeLoop string newstring buflen = some (newstring ++ msEncodeHTMLEntities string) := by
  induction string generalizing newstring buflen with
  | nil =>
    rw [encodeLoop, if_pos (Nat.lt_succ_of_le within), msEncodeHTMLEntities, List.flatMap_nil, List.append_nil]
  | cons c string ih =>
    have short := length_encodedEntity c
    have room : newstring.length + 6 ≤ if newstring.length + 6 > buflen then buflen * 2 else buflen := by
      split <;> omega
    have ending : (if encodedEntity c = [c] then 0 else 1) ≤ 1 := by
      split <;> decide
    rw [encodeLoop, if_pos (by omega), ih (by rw [List.length_append]; omega) (by omega), List.append_assoc]
    rfl

end Buffer

section Reading

def decimalDigit (c : UInt8) : Option Nat := if 48 ≤ c ∧ c ≤ 57 then some (c.toNat - 48) else none

/-- A character reference, or one of the five entities that need no declaration, between `&` and the semicolon. -/
def reference (name : CString) : Option UInt8 :=
  if name = ascii "amp" then some 38
  else if name = ascii "lt" then some 60
  else if name = ascii "gt" then some 62
  else if name = ascii "quot" then some 34
  else if name = ascii "apos" then some 39
  else
    match name with
    | 35 :: first :: digits => do
      let value ← (first :: digits).foldlM (fun value c => (decimalDigit c).map (10 * value + ·)) 0
      if 0 < value ∧ value < 128 then some value.toUInt8 else none
    | _ => none

/-- Character data, or an attribute in quotes of either kind: what the text stands for, with the front of a reference that is
not at its end. Nothing is read from markup. -/
def readCharacters : Option CString → CString → Option CString
  | none, [] => some []
  | some _, [] => none
  | none, c :: text =>
    if c = 38 then readCharacters (some []) text
    else if c ∈ [60, 62, 34, 39] then none
    else (readCharacters none text).map (c :: ·)
  | some name, c :: text =>
    if c = 59 then (reference name).bind fun value => (readCharacters none text).map (value :: ·)
    else readCharacters (some (name ++ [c])) text

theorem readCharacters_name {body : CString} (closed : 59 ∉ body) (name text : CString) :
    readCharacters (some name) (body ++ 59 :: text) =
      (reference (name ++ body)).bind fun value => (readCharacters none text).map (value :: ·) := by
  induction body generalizing name with
  | nil => rw [List.nil_append, readCharacters, if_pos rfl, List.append_nil]
  | cons c body ih =>
    rw [List.mem_cons, not_or] at closed
    rw [List.cons_append, readCharacters, if_neg (Ne.symm closed.1), ih closed.2, List.append_assoc, List.singleton_append]

theorem readCharacters_entity {body : CString} {value : UInt8} (closed : 59 ∉ body) (known : reference body = some value)
    (text : CString) : readCharacters none (38 :: (body ++ 59 :: text)) = (readCharacters none text).map (value :: ·) := by
  rw [readCharacters, if_pos rfl, readCharacters_name closed, List.nil_append, known, Option.bind_some]

theorem readCharacters_encodedEntity (c : UInt8) (text : CString) :
    readCharacters none (encodedEntity c ++ text) = (readCharacters none text).map (c :: ·) := by
  by_cases special : c ∈ 39 :: markup
  · rw [markup] at special
    simp only [List.mem_cons, List.not_mem_nil, or_false] at special
    rcases special with rfl | rfl | rfl | rfl | rfl
    · exact @readCharacters_entity (ascii "#39") 39 (by decide) (by decide) text
    · exact @readCharacters_entity (ascii "amp") 38 (by decide) (by decide) text
    · exact @readCharacters_entity (ascii "lt") 60 (by decide) (by decide) text
    · exact @readCharacters_entity (ascii "gt") 62 (by decide) (by decide) text
    · exact @readCharacters_entity (ascii "quot") 34 (by decide) (by decide) text
  · rcases encodedEntity_cases c with ⟨-, same⟩ | ⟨_, _, _, _, _, ⟨_, known⟩ | ⟨_, rfl, _⟩⟩
    · rw [markup] at special
      simp only [List.mem_cons, List.not_mem_nil, or_false, not_or] at special
      rw [same, List.singleton_append, readCharacters, if_neg special.2.1, if_neg (by simp [special])]
    · exact absurd (List.mem_cons_of_mem _ known) special
    · exact absurd List.mem_cons_self special

end Reading

/-- The encoder stays in its buffer, and its text is read as the string, whatever stands behind it. -/
theorem msEncodeHTMLEntities_safe (string text : CString) :
    encodeLoop string [] (string.length + 100) = some (msEncodeHTMLEntities string) ∧
      readCharacters none (msEncodeHTMLEntities string ++ text) = (readCharacters none text).map (string ++ ·) := by
  refine ⟨encodeLoop_eq string (Nat.zero_le _) (by omega), ?_⟩
  induction string with
  | nil => exact Option.map_id'.symm
  | cons c string ih =>
    have split : msEncodeHTMLEntities (c :: string) ++ text = encodedEntity c ++ (msEncodeHTMLEntities string ++ text) := by
      simp [msEncodeHTMLEntities]
    rw [split, readCharacters_encodedEntity, ih, Option.map_map]
    rfl

end MapServer
