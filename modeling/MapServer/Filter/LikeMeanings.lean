import MapServer.Filter.LiteralTokens
import MapServer.Filter.SqlComparisons
import MapServer.Lib.Wildcards

namespace MapServer
open Lib.Wildcards Lib.RegexSearch List Option Function

def wildItem (pszWild pszSingle c : UInt8) : Item UInt8 :=
  if c = pszSingle then .one else if c = pszWild then .any else .letter c

def filterItems (pszWild pszSingle pszEscape : UInt8) : CString → List (Item UInt8)
  | [] => []
  | [c] => [wildItem pszWild pszSingle c]
  | c :: next :: rest =>
    if c = pszEscape ∧ (next = pszSingle ∨ next = pszWild ∨ next = pszEscape) then
      .letter next :: filterItems pszWild pszSingle pszEscape rest
    else wildItem pszWild pszSingle c :: filterItems pszWild pszSingle pszEscape (next :: rest)

def filterMatches (pszWild pszSingle pszEscape : UInt8) (pszValue value : CString) : Bool :=
  matchItems (filterItems pszWild pszSingle pszEscape pszValue) value

variable {c pszEscape pszSingle pszWild escape : UInt8} {text : CString} {items : List (Item UInt8)}

theorem filterItems_plain {rest : CString}
    (plain : ¬ (c = pszEscape ∧ ∃ next others, rest = next :: others ∧ (next = pszSingle ∨ next = pszWild ∨ next = pszEscape))) :
    filterItems pszWild pszSingle pszEscape (c :: rest) =
      wildItem pszWild pszSingle c :: filterItems pszWild pszSingle pszEscape rest := by
  cases rest with
  | nil => rfl
  | cons next rest =>
    rw [filterItems, if_neg]
    rintro ⟨isEscape, three⟩
    exact plain ⟨isEscape, next, rest, rfl, three⟩

theorem wildItem_letter {d : UInt8} (isLetter : .letter d = wildItem pszWild pszSingle c) : d = c := by
  unfold wildItem at isLetter
  split at isLetter
  · cases isLetter
  · split at isLetter
    · cases isLetter
    · exact Item.letter.inj isLetter

theorem letter_mem_filterItems {pszValue : CString}
    (member : .letter c ∈ filterItems pszWild pszSingle pszEscape pszValue) : c ∈ pszValue := by
  induction pszValue using filterItems.induct pszWild pszSingle pszEscape with
  | case1 => cases member
  | case2 d =>
    rw [filterItems, mem_singleton] at member
    rw [wildItem_letter member]
    exact mem_cons_self
  | case3 d next rest escape ih =>
    rw [filterItems, if_pos escape, mem_cons] at member
    rcases member with same | member
    · rw [Item.letter.inj same]
      exact mem_cons_of_mem _ mem_cons_self
    · exact mem_cons_of_mem _ (mem_cons_of_mem _ (ih member))
  | case4 d next rest noEscape ih =>
    rw [filterItems, if_neg noEscape, mem_cons] at member
    rcases member with same | member
    · rw [wildItem_letter same]
      exact mem_cons_self
    · exact mem_cons_of_mem _ (ih member)

def charToken (c : UInt8) : Option (RegexToken UInt8) :=
  if c = 94 then some .start
  else if c = 36 then some .finish
  else if c = 46 then some (.atom .point)
  else if c = 42 then some .star
  else if (ascii "\\^$\x7b[().*+?|").contains c then none
  else some (.atom (.char c))

def regexTokens : CString → Option (List (RegexToken UInt8))
  | [] => some []
  | [c] => (charToken c).map fun token => [token]
  | c :: next :: rest =>
    if c = 92 then
      if (ascii "\\^$\x7b[().*+?|").contains next then (regexTokens rest).map (.atom (.char next) :: ·) else none
    else (charToken c).bind fun token => (regexTokens (next :: rest)).map (token :: ·)

def regexMatches (expr value : CString) : Option Bool := ((regexTokens expr).bind group).map (search · value)

def lexedRegex (expr : CString) : Option CString := (readString 34 (expr ++ [34])).map Prod.fst

theorem regexTokens_cons (notBackslash : c ≠ 92) (rest : CString) :
    regexTokens (c :: rest) = (charToken c).bind fun token => (regexTokens rest).map (token :: ·) := by
  cases rest with
  | nil =>
    simp only [regexTokens]
    cases charToken c <;> rfl
  | cons next rest => rw [regexTokens, if_neg notBackslash]

theorem regexTokens_regexChar (c : UInt8) (rest : CString) :
    regexTokens (regexChar c ++ rest) = (regexTokens rest).map (.atom (.char c) :: ·) := by
  rw [regexChar]
  by_cases special : (ascii "\\^$\x7b[().*+?|").contains c = true
  · rw [if_pos special]
    change regexTokens (92 :: c :: rest) = _
    rw [regexTokens, if_pos rfl, if_pos special]
  · have others : c ≠ 94 ∧ c ≠ 36 ∧ c ≠ 46 ∧ c ≠ 42 ∧ c ≠ 92 := by
      refine ⟨?_, ?_, ?_, ?_, ?_⟩ <;> rintro rfl <;> exact special (by simp [ascii])
    rw [if_neg special, singleton_append, regexTokens_cons others.2.2.2.2, charToken, if_neg others.1, if_neg others.2.1,
      if_neg others.2.2.1, if_neg others.2.2.2.1, if_neg special]
    rfl

theorem regexTokens_likeLoop (wildSingle : pszWild ≠ pszSingle) (wildEscape : pszWild ≠ pszEscape)
    (singleEscape : pszSingle ≠ pszEscape) (pszValue tail : CString) :
    regexTokens (likeLoop regexChar pszWild pszSingle pszEscape pszValue ++ tail) =
      (regexTokens tail).map ((filterItems pszWild pszSingle pszEscape pszValue).flatMap itemTokens ++ ·) := by
  have point (rest : CString) : regexTokens (46 :: rest) = (regexTokens rest).map (.atom .point :: ·) :=
    regexTokens_cons (by decide) rest
  have star (rest : CString) : regexTokens (42 :: rest) = (regexTokens rest).map (.star :: ·) :=
    regexTokens_cons (by decide) rest
  induction pszValue using likeLoop.induct pszWild pszSingle pszEscape with
  | case1 => exact (Option.map_id' ..).symm
  | case2 => simp [likeLoop, filterItems, wildItem, point, itemTokens]
  | case3 => simp [likeLoop, filterItems, wildItem, wildSingle, point, star, itemTokens, comp_def]
  | case4 c notSingle notWild =>
    simp only [likeLoop, filterItems, wildItem, if_neg notSingle, if_neg notWild]
    exact regexTokens_regexChar c tail
  | case5 next rest ih =>
    rw [filterItems_plain (by simp [singleEscape])]
    simp only [likeLoop, if_true, cons_append]
    rw [point, ih, Option.map_map]
    simp [wildItem, itemTokens, comp_def]
  | case6 c next rest notSingle escape ih =>
    simp only [likeLoop, filterItems, if_neg notSingle, if_pos escape]
    rw [append_assoc, regexTokens_regexChar, ih, Option.map_map]
    rfl
  | case7 next rest notSingle noEscape ih =>
    rw [filterItems_plain (by simp [wildEscape])]
    simp only [likeLoop, if_neg notSingle, if_neg noEscape, if_true, cons_append, nil_append]
    rw [point, star, ih, Option.map_map, Option.map_map]
    simp [wildItem, wildSingle, itemTokens, comp_def]
  | case8 c next rest notSingle noEscape notWild ih =>
    simp only [likeLoop, filterItems, wildItem, if_neg notSingle, if_neg noEscape, if_neg notWild]
    rw [append_assoc, regexTokens_regexChar, ih, Option.map_map]
    rfl

theorem likeRegex_matches (wildSingle : pszWild ≠ pszSingle) (wildEscape : pszWild ≠ pszEscape)
    (singleEscape : pszSingle ≠ pszEscape) {pszValue : CString} (filled : pszValue ≠ []) (value : CString) :
    regexMatches (likeRegex pszWild pszSingle pszEscape pszValue) value =
      some (filterMatches pszWild pszSingle pszEscape pszValue value) := by
  have start (rest : CString) : regexTokens (94 :: rest) = (regexTokens rest).map (.start :: ·) :=
    regexTokens_cons (by decide) rest
  have finish : regexTokens [36] = some [.finish] := rfl
  rw [likeRegex, anchored, if_neg filled, regexMatches, start, regexTokens_likeLoop wildSingle wildEscape singleEscape, finish,
    map_some, map_some, bind_some, group_items, map_some, search_items, filterMatches]

theorem likeRegex_nil (pszWild pszSingle pszEscape : UInt8) (value : CString) :
    regexMatches (likeRegex pszWild pszSingle pszEscape []) value = some true := by
  have found : search ([] : List (Lib.RegexSearch.Piece UInt8)) value = true :=
    List.any_eq_true.mpr ⟨0, mem_range.mpr (Nat.succ_pos _), rfl⟩
  exact congrArg some found

theorem lexedRegex_like (pszWild pszSingle pszEscape : UInt8) (pszValue : CString) :
    lexedRegex (msGetLikePatternAsRegex pszWild pszSingle pszEscape pszValue) =
      some (likeRegex pszWild pszSingle pszEscape pszValue) := by
  have isRead := (anchored_readsAs (likeLoop_readsAs pszWild pszSingle pszEscape pszValue) : ReadsAs (anchored pszValue _) _) [34]
  rw [lexedRegex, msGetLikePatternAsRegex, isRead, readString_quote rfl]
  simp [likeRegex]

def sqlItem (c : UInt8) : Item UInt8 := if c = 37 then .any else if c = 95 then .one else .letter c

/-- The pattern of a `LIKE`. What follows the escape character stands for itself; a pattern must not end with it. -/
def sqlItems (escape : UInt8) : CString → Option (List (Item UInt8))
  | [] => some []
  | [c] => if c = escape then none else some [sqlItem c]
  | c :: next :: rest =>
    if c = escape then (sqlItems escape rest).map (.letter next :: ·)
    else (sqlItems escape (next :: rest)).map (sqlItem c :: ·)

def undoubled : CString → CString
  | [] => []
  | [c] => [c]
  | c :: next :: rest => if c = 92 ∧ next = 92 then 92 :: undoubled rest else c :: undoubled (next :: rest)

/-- `LIKE` with these literals; the one after `ESCAPE` has a single character. -/
def literalsMatch (pattern escape value : CString) : Option Bool :=
  match undoubled escape with
  | [c] => (sqlItems c (undoubled pattern)).map (matchItems · value)
  | _ => none

/-- The `LIKE` of a condition in SQL, its literals being what is in single quotes. -/
def sqlMatches (text value : CString) : Option Bool :=
  match (Lib.Quoting.read sqlQuote none text).map (Lib.Quoting.quotedWith 39) with
  | some [pattern, escape] => literalsMatch pattern escape value
  | _ => none

theorem sqlItems_escape (c : UInt8) (rest : CString) :
    sqlItems escape (escape :: c :: rest) = (sqlItems escape rest).map (.letter c :: ·) := by
  rw [sqlItems, if_pos rfl]

theorem sqlItems_other (other : c ≠ escape) (rest : CString) :
    sqlItems escape (c :: rest) = (sqlItems escape rest).map (sqlItem c :: ·) := by
  cases rest with
  | nil =>
    simp only [sqlItems, if_neg other]
    rfl
  | cons next rest => rw [sqlItems, if_neg other]

theorem undoubled_pair (rest : CString) : undoubled (92 :: 92 :: rest) = 92 :: undoubled rest := by
  rw [undoubled, if_pos ⟨rfl, rfl⟩]

theorem undoubled_other (notBackslash : c ≠ 92) (rest : CString) : undoubled (c :: rest) = c :: undoubled rest := by
  cases rest with
  | nil => rfl
  | cons next rest => rw [undoubled, if_neg fun both => notBackslash both.1]

theorem mem_undoubled (member : c ∈ undoubled text) : c ∈ text := by
  induction text using undoubled.induct with
  | case1 => exact member
  | case2 d => exact member
  | case3 d next rest pair ih =>
    rw [undoubled, if_pos pair, mem_cons, ← pair.1] at member
    rcases member with rfl | member
    · exact mem_cons_self
    · exact mem_cons_of_mem _ (mem_cons_of_mem _ (ih member))
  | case4 d next rest noPair ih =>
    rw [undoubled, if_neg noPair, mem_cons] at member
    rcases member with rfl | member
    · exact mem_cons_self
    · exact mem_cons_of_mem _ (ih member)

theorem mem_sqlItems (isRead : sqlItems escape text = some items) {item : Item UInt8} (member : item ∈ items) :
    ∃ c ∈ text, item = .letter c ∨ (c ≠ escape ∧ item = sqlItem c) := by
  induction text using sqlItems.induct escape generalizing items with
  | case1 =>
    cases isRead
    cases member
  | case2 => simp [sqlItems] at isRead
  | case3 c other =>
    rw [sqlItems, if_neg other] at isRead
    cases isRead
    exact ⟨c, mem_cons_self, Or.inr ⟨other, mem_singleton.mp member⟩⟩
  | case4 next rest ih =>
    rw [sqlItems, if_pos rfl] at isRead
    obtain ⟨others, isRest, rfl⟩ := map_eq_some_iff.mp isRead
    rcases mem_cons.mp member with same | member
    · exact ⟨next, mem_cons_of_mem _ mem_cons_self, Or.inl same⟩
    · obtain ⟨c, inRest, which⟩ := ih isRest member
      exact ⟨c, mem_cons_of_mem _ (mem_cons_of_mem _ inRest), which⟩
  | case5 c next rest other ih =>
    rw [sqlItems, if_neg other] at isRead
    obtain ⟨others, isRest, rfl⟩ := map_eq_some_iff.mp isRead
    rcases mem_cons.mp member with same | member
    · exact ⟨c, mem_cons_self, Or.inr ⟨other, same⟩⟩
    · obtain ⟨c, inRest, which⟩ := ih isRest member
      exact ⟨c, mem_cons_of_mem _ inRest, which⟩

theorem sqlItem_cases (c : UInt8) : (c = 37 ∧ sqlItem c = .any) ∨ (c = 95 ∧ sqlItem c = .one) ∨ sqlItem c = .letter c := by
  unfold sqlItem
  split
  · rename_i isAny
    exact Or.inl ⟨isAny, rfl⟩
  · split
    · rename_i isOne
      exact Or.inr (Or.inl ⟨isOne, rfl⟩)
    · exact Or.inr (Or.inr rfl)

theorem any_mem_sqlItems (isRead : sqlItems escape text = some items) (member : .any ∈ items) : escape ≠ 37 := by
  obtain ⟨c, _, same | ⟨other, same⟩⟩ := mem_sqlItems isRead member
  · cases same
  · rintro rfl
    obtain ⟨rfl, _⟩ | ⟨_, isOne⟩ | isLetter := sqlItem_cases c
    · exact other rfl
    · cases same.trans isOne
    · cases same.trans isLetter

theorem one_mem_sqlItems (isRead : sqlItems escape text = some items) (member : .one ∈ items) : escape ≠ 95 := by
  obtain ⟨c, _, same | ⟨other, same⟩⟩ := mem_sqlItems isRead member
  · cases same
  · rintro rfl
    obtain ⟨_, isAny⟩ | ⟨rfl, _⟩ | isLetter := sqlItem_cases c
    · cases same.trans isAny
    · exact other rfl
    · cases same.trans isLetter

theorem letter_mem_sqlItems {d : UInt8} (isRead : sqlItems escape text = some items) (member : .letter d ∈ items) :
    d ∈ text := by
  obtain ⟨c, inText, same | ⟨_, same⟩⟩ := mem_sqlItems isRead member
  · rwa [Item.letter.inj same]
  · obtain ⟨_, isAny⟩ | ⟨_, isOne⟩ | isLetter := sqlItem_cases c
    · cases same.trans isAny
    · cases same.trans isOne
    · rwa [Item.letter.inj (same.trans isLetter)]

theorem sqlMatches_of_closed {pattern escape : CString} (closed : SqlClosed text [pattern, escape]) (value : CString) :
    sqlMatches text value = literalsMatch pattern escape value := by
  obtain ⟨parts, isRead, _, _, literals⟩ := closed
  rw [sqlMatches, isRead, map_some, literals]

end MapServer
