import Mathlib.Data.List.Basic
import Mathlib.Tactic.Linarith

/-!
A quoted part ends at the quote it starts with. A quote inside it is written twice. Outside the quoted parts the
brackets of the text are to be balanced.
-/

namespace Lib.Quoting
open List Option
variable {α : Type}

inductive Part (α : Type) where
  | plain (c : α)
  | quoted (quote : α) (content : List α)

def plainChars (parts : List (Part α)) : List α :=
  parts.filterMap fun part => match part with
    | .plain c => some c
    | .quoted _ _ => none

theorem plainChars_append (first second : List (Part α)) :
    plainChars (first ++ second) = plainChars first ++ plainChars second := filterMap_append

@[simp] theorem plainChars_plain (text : List α) : plainChars (text.map .plain) = text := by
  simp [plainChars, filterMap_map]

def Plain (isQuote : α → Bool) (opening closing : α) (text : List α) : Prop :=
  ∀ c ∈ text, isQuote c = false ∧ c ≠ opening ∧ c ≠ closing

theorem Plain.take {isQuote : α → Bool} {opening closing : α} {text : List α}
    (plain : Plain isQuote opening closing text) (count : Nat) :
    Plain isQuote opening closing (text.take count) := fun c member => plain c (mem_of_mem_take member)

theorem Plain.head {isQuote : α → Bool} {opening closing : α} {text : List α}
    (plain : Plain isQuote opening closing text) : ∀ c ∈ text.head?, isQuote c = false :=
  fun c first => (plain c (mem_of_mem_head? first)).1

variable [DecidableEq α]

def quotedWith (quote : α) (parts : List (Part α)) : List (List α) :=
  parts.filterMap fun part => match part with
    | .plain _ => none
    | .quoted q content => if q = quote then some content else none

def encode (quote : α) (content : List α) : List α := content.flatMap fun c => if c = quote then [c, c] else [c]

def read (isQuote : α → Bool) : Option (α × List α) → List α → Option (List (Part α))
  | none, [] => some []
  | none, c :: rest =>
    if isQuote c then read isQuote (some (c, [])) rest else (read isQuote none rest).map (.plain c :: ·)
  | some _, [] => none
  | some (quote, content), [c] => if c = quote then some [.quoted quote content] else none
  | some (quote, content), c :: next :: rest =>
    if c = quote then
      if next = quote then read isQuote (some (quote, content ++ [quote])) rest
      else (read isQuote none (next :: rest)).map (.quoted quote content :: ·)
    else read isQuote (some (quote, content ++ [c])) (next :: rest)

def level (opening closing : α) (text : List α) : Int := text.count opening - text.count closing

def Rising (opening closing : α) (text : List α) : Prop := ∀ front, front <+: text → 0 ≤ level opening closing front

def Closed (isQuote : α → Bool) (opening closing quote : α) (text : List α) (contents : List (List α)) : Prop :=
  ∃ parts, read isQuote none text = some parts ∧ Rising opening closing (plainChars parts) ∧
    level opening closing (plainChars parts) = 0 ∧ quotedWith quote parts = contents

section Read
variable {isQuote : α → Bool}

theorem read_plain {text : List α} (noQuote : ∀ c ∈ text, isQuote c = false) (rest : List α) :
    read isQuote none (text ++ rest) = (read isQuote none rest).map (text.map .plain ++ ·) := by
  induction text with
  | nil => cases h : read isQuote none rest <;> simp [h]
  | cons c text ih =>
    rw [forall_mem_cons] at noQuote
    rw [cons_append, read, noQuote.1, if_neg Bool.false_ne_true, ih noQuote.2, Option.map_map]
    rfl

theorem read_encode {quote : α} (content front rest : List α) (boundary : ∀ c ∈ rest.head?, c ≠ quote) :
    read isQuote (some (quote, front)) (encode quote content ++ quote :: rest) =
      (read isQuote none rest).map (.quoted quote (front ++ content) :: ·) := by
  induction content generalizing front with
  | nil =>
    rw [encode, flatMap_nil, nil_append, append_nil]
    cases rest with
    | nil => simp [read]
    | cons next rest =>
      have differs : next ≠ quote := boundary next rfl
      simp [read, differs]
  | cons c content ih =>
    rw [encode, flatMap_cons]
    change read isQuote (some (quote, front)) ((_ ++ encode quote content) ++ quote :: rest) = _
    by_cases same : c = quote
    · subst c
      have next := ih (front ++ [quote])
      rw [append_assoc, singleton_append] at next
      rw [if_pos rfl, append_assoc]
      simp only [cons_append, nil_append, read, if_true]
      exact next
    · have next := ih (front ++ [c])
      rw [append_assoc, singleton_append] at next
      rw [if_neg same, append_assoc, singleton_append, ← next]
      cases tail : encode quote content ++ quote :: rest with
      | nil => simp at tail
      | cons first others => rw [read, if_neg same]

theorem read_quoted {quote : α} (isQuoted : isQuote quote = true) (content rest : List α)
    (boundary : ∀ c ∈ rest.head?, isQuote c = false) :
    read isQuote none (quote :: encode quote content ++ quote :: rest) =
      (read isQuote none rest).map (.quoted quote content :: ·) := by
  rw [cons_append, read, if_pos isQuoted]
  apply read_encode content []
  intro c first same
  have notQuote := boundary c first
  rw [same, isQuoted] at notQuote
  cases notQuote

theorem read_append {text : List α} {state : Option (α × List α)} {parts : List (Part α)}
    (isQuoted : ∀ held ∈ state, isQuote held.1 = true) (reads : read isQuote state text = some parts) {rest : List α}
    (boundary : ∀ c ∈ rest.head?, isQuote c = false) :
    read isQuote state (text ++ rest) = (read isQuote none rest).map (parts ++ ·) := by
  induction state, text using read.induct isQuote generalizing parts with
  | case1 =>
    rw [read] at reads
    cases reads
    rw [nil_append]
    exact Option.map_id'.symm
  | case2 c text opens ih =>
    rw [read, if_pos opens] at reads
    rw [cons_append, read, if_pos opens]
    exact ih (by simpa using opens) reads
  | case3 c text stays ih =>
    rw [read, if_neg stays] at reads
    obtain ⟨others, isRest, rfl⟩ := map_eq_some_iff.mp reads
    rw [cons_append, read, if_neg stays, ih (by simp) isRest, Option.map_map]
    rfl
  | case4 held => simp [read] at reads
  | case5 content quote =>
    have opens : isQuote quote = true := by simpa using isQuoted
    rw [read, if_pos rfl] at reads
    cases reads
    cases rest with
    | nil => simp [read]
    | cons next rest =>
      have differs : next ≠ quote := by
        intro same
        have notQuote := boundary next rfl
        rw [same, opens] at notQuote
        cases notQuote
      simp [read, differs]
  | case6 quote content c differs => simp [read, differs] at reads
  | case7 content quote text ih =>
    rw [read, if_pos rfl, if_pos rfl] at reads
    rw [cons_append, cons_append, read, if_pos rfl, if_pos rfl]
    exact ih (by simpa using isQuoted) reads
  | case8 content quote next text differs ih =>
    rw [read, if_pos rfl, if_neg differs] at reads
    obtain ⟨others, isRest, rfl⟩ := map_eq_some_iff.mp reads
    have inner := ih (by simp) isRest
    rw [cons_append] at inner
    rw [cons_append, cons_append, read, if_pos rfl, if_neg differs, inner, Option.map_map]
    rfl
  | case9 quote content c next text differs ih =>
    rw [read, if_neg differs] at reads
    rw [cons_append, cons_append, read, if_neg differs]
    exact ih (by simpa using isQuoted) reads

end Read

section Cut
variable {isQuote : α → Bool}

def openQuote (isQuote : α → Bool) : Option α → List α → Option α
  | state, [] => state
  | none, c :: rest => openQuote isQuote (if isQuote c then some c else none) rest
  | some quote, c :: rest => openQuote isQuote (if c = quote then none else some quote) rest

def outside (isQuote : α → Bool) : Option α → List α → List α
  | _, [] => []
  | none, c :: rest => if isQuote c then outside isQuote (some c) rest else c :: outside isQuote none rest
  | some quote, c :: rest => outside isQuote (if c = quote then none else some quote) rest

theorem openQuote_append (state : Option α) (first second : List α) :
    openQuote isQuote state (first ++ second) = openQuote isQuote (openQuote isQuote state first) second := by
  induction first generalizing state with
  | nil => rfl
  | cons c first ih => cases state <;> exact ih _

theorem outside_append (state : Option α) (first second : List α) :
    outside isQuote state (first ++ second) =
      outside isQuote state first ++ outside isQuote (openQuote isQuote state first) second := by
  induction first generalizing state with
  | nil => rfl
  | cons c first ih =>
    cases state with
    | some quote => exact ih _
    | none =>
      rw [cons_append, outside, outside, openQuote]
      split
      · exact ih _
      · rw [ih, cons_append]

variable {text : List α}

theorem outside_prefix {front : List α} (isFront : front <+: text) :
    outside isQuote none front <+: outside isQuote none text := by
  obtain ⟨rest, rfl⟩ := isFront
  rw [outside_append]
  exact prefix_append _ _

theorem read_outside {state : Option (α × List α)} {parts : List (Part α)}
    (isQuoted : ∀ held ∈ state, isQuote held.1 = true) (reads : read isQuote state text = some parts) :
    plainChars parts = outside isQuote (state.map Prod.fst) text ∧
      openQuote isQuote (state.map Prod.fst) text = none := by
  induction state, text using read.induct isQuote generalizing parts with
  | case1 =>
    rw [read] at reads
    cases reads
    exact ⟨rfl, rfl⟩
  | case2 c rest opens ih =>
    rw [read, if_pos opens] at reads
    have inner := ih (by simpa using opens) reads
    simpa [outside, openQuote, opens] using inner
  | case3 c rest stays ih =>
    rw [read, if_neg stays] at reads
    obtain ⟨others, isRest, rfl⟩ := map_eq_some_iff.mp reads
    have inner := ih (by simp) isRest
    simpa [outside, openQuote, stays, plainChars] using inner
  | case4 held => simp [read] at reads
  | case5 content quote =>
    rw [read, if_pos rfl] at reads
    cases reads
    simp [outside, openQuote, plainChars]
  | case6 quote content c differs => simp [read, differs] at reads
  | case7 content quote rest ih =>
    rw [read, if_pos rfl, if_pos rfl] at reads
    have inner := ih (by simpa using isQuoted) reads
    have isQuote : isQuote quote = true := by simpa using isQuoted
    simpa [outside, openQuote, isQuote] using inner
  | case8 content quote next rest differs ih =>
    rw [read, if_pos rfl, if_neg differs] at reads
    obtain ⟨others, isRest, rfl⟩ := map_eq_some_iff.mp reads
    have inner := ih (by simp) isRest
    simpa [outside, openQuote, plainChars] using inner
  | case9 quote content c next rest differs ih =>
    rw [read, if_neg differs] at reads
    have inner := ih (by simpa using isQuoted) reads
    rw [map_some, outside, openQuote, if_neg differs]
    exact inner

def marks (isQuote : α → Bool) (quote : α) : Option α → List α → Nat
  | _, [] => 0
  | none, c :: rest => (if c = quote then 1 else 0) + marks isQuote quote (if isQuote c then some c else none) rest
  | some open_, c :: rest =>
    (if c = quote ∧ open_ = quote then 1 else 0) + marks isQuote quote (if c = open_ then none else some open_) rest

theorem marks_append (quote : α) (state : Option α) (first second : List α) :
    marks isQuote quote state (first ++ second) =
      marks isQuote quote state first + marks isQuote quote (openQuote isQuote state first) second := by
  induction first generalizing state with
  | nil => exact (Nat.zero_add _).symm
  | cons c first ih =>
    cases state with
    | none => rw [cons_append, marks, marks, openQuote, ih, Nat.add_assoc]
    | some open_ => rw [cons_append, marks, marks, openQuote, ih, Nat.add_assoc]

theorem marks_le_count (quote : α) (state : Option α) (text : List α) : marks isQuote quote state text ≤ text.count quote := by
  induction text generalizing state with
  | nil => exact Nat.zero_le _
  | cons c text ih =>
    rw [count_cons]
    cases state with
    | none =>
      have rest := ih (if isQuote c then some c else none)
      rw [marks]
      by_cases same : c = quote
      · simp [same] at rest ⊢
        omega
      · simp [same] at rest ⊢
        omega
    | some open_ =>
      have rest := ih (if c = open_ then none else some open_)
      rw [marks]
      by_cases same : c = quote
      · simp only [same, true_and, beq_self_eq_true, if_true] at rest ⊢
        split <;> omega
      · simp [same] at rest ⊢
        omega

def quotesOf (quote : α) (content : List α) : Nat := 2 + 2 * content.count quote

def quotesSoFar (quote : α) : Option (α × List α) → Nat
  | none => 0
  | some (open_, held) => if open_ = quote then 1 + 2 * held.count quote else 0

theorem quotesOf_eq {state : Option (α × List α)} {parts : List (Part α)} {quote : α} (opens : isQuote quote = true)
    (isQuoted : ∀ held ∈ state, isQuote held.1 = true) (reads : read isQuote state text = some parts) :
    ((quotedWith quote parts).map (quotesOf quote)).sum =
      marks isQuote quote (state.map Prod.fst) text + quotesSoFar quote state := by
  induction state, text using read.induct isQuote generalizing parts with
  | case1 =>
    rw [read] at reads
    cases reads
    rfl
  | case2 c rest opensPart ih =>
    rw [read, if_pos opensPart] at reads
    rw [ih (by simpa using opensPart) reads]
    by_cases same : c = quote
    · simp [marks, opens, same, quotesSoFar]
      omega
    · simp [marks, opensPart, same, quotesSoFar]
  | case3 c rest stays ih =>
    rw [read, if_neg stays] at reads
    obtain ⟨others, isRest, rfl⟩ := map_eq_some_iff.mp reads
    have differs : c ≠ quote := fun same => stays (same ▸ opens)
    simpa [marks, stays, differs, quotedWith] using ih (by simp) isRest
  | case4 held => simp [read] at reads
  | case5 content c =>
    rw [read, if_pos rfl] at reads
    cases reads
    by_cases same : c = quote
    · simp [marks, quotedWith, same, quotesOf, quotesSoFar]
      omega
    · simp [marks, quotedWith, same, quotesSoFar]
  | case6 open_ content c differs => simp [read, differs] at reads
  | case7 content c rest ih =>
    rw [read, if_pos rfl, if_pos rfl] at reads
    rw [ih (by simpa using isQuoted) reads]
    have again : isQuote c = true := by simpa using isQuoted
    by_cases same : c = quote
    · simp [marks, same, quotesSoFar, opens]
      omega
    · simp [marks, same, quotesSoFar, again]
  | case8 content c next rest differs ih =>
    rw [read, if_pos rfl, if_neg differs] at reads
    obtain ⟨others, isRest, rfl⟩ := map_eq_some_iff.mp reads
    have inner := ih (by simp) isRest
    by_cases same : c = quote
    · simp [same, quotedWith, quotesOf, marks, quotesSoFar] at inner ⊢
      omega
    · simp [same, quotedWith, marks, quotesSoFar] at inner ⊢
      omega
  | case9 open_ content c next rest differs ih =>
    rw [read, if_neg differs] at reads
    rw [ih (by simpa using isQuoted) reads]
    by_cases same : open_ = quote
    · have other : ¬c = quote := fun isQuote => differs (isQuote.trans same.symm)
      simp [marks, same, other, quotesSoFar]
    · simp [marks, same, differs, quotesSoFar]

end Cut

section Brackets
variable {isQuote : α → Bool} {opening closing quote : α}

theorem level_append (first second : List α) :
    level opening closing (first ++ second) = level opening closing first + level opening closing second := by
  simp only [level, count_append]
  omega

variable {text first front second : List α} {contents others : List (List α)}

theorem level_of_not_mem (noOpening : opening ∉ text) (noClosing : closing ∉ text) : level opening closing text = 0 := by
  rw [level, count_eq_zero_of_not_mem noOpening, count_eq_zero_of_not_mem noClosing]
  rfl

theorem rising_of_not_mem (noClosing : closing ∉ text) : Rising opening closing text := by
  intro front isFront
  rw [level, count_eq_zero_of_not_mem fun found => noClosing (isFront.subset found)]
  omega

omit [DecidableEq α] in
theorem prefix_append_cases (isFront : front <+: first ++ second) :
    front <+: first ∨ ∃ more, front = first ++ more ∧ more <+: second := by
  obtain ⟨others, same⟩ := isFront
  rcases append_eq_append_iff.mp same with ⟨missing, rfl, _⟩ | ⟨more, rfl, rfl⟩
  · exact Or.inl (prefix_append _ _)
  · exact Or.inr ⟨more, rfl, prefix_append _ _⟩

theorem Rising.append (rises : Rising opening closing first) (rest : Rising opening closing second) :
    Rising opening closing (first ++ second) := by
  intro front isFront
  rcases prefix_append_cases isFront with inFirst | ⟨more, rfl, isMore⟩
  · exact rises front inFirst
  · have whole := rises first (prefix_refl first)
    have extra := rest more isMore
    rw [level_append]
    omega

theorem not_closed_of_open
    (isOpen : openQuote isQuote none text = none → 0 < level opening closing (outside isQuote none text)) :
    ¬Closed isQuote opening closing quote text contents := by
  rintro ⟨parts, reads, _, balanced, _⟩
  obtain ⟨chars, ends⟩ : plainChars parts = outside isQuote none text ∧ openQuote isQuote none text = none :=
    read_outside (by simp) reads
  have positive := isOpen ends
  rw [← chars, balanced] at positive
  exact lt_irrefl 0 positive

theorem quotedWith_append (first second : List (Part α)) :
    quotedWith quote (first ++ second) = quotedWith quote first ++ quotedWith quote second := filterMap_append

@[simp] theorem quotedWith_plain (text : List α) : quotedWith quote (text.map .plain) = [] := by
  simp [quotedWith, filterMap_map]

theorem outside_plain (noQuote : ∀ c ∈ text, isQuote c = false) (rest : List α) :
    outside isQuote none (text ++ rest) = text ++ outside isQuote none rest := by
  induction text with
  | nil => rfl
  | cons c text ih =>
    rw [forall_mem_cons] at noQuote
    rw [cons_append, outside, noQuote.1, if_neg Bool.false_ne_true, ih noQuote.2, cons_append]

theorem closed_plain (noQuote : ∀ c ∈ text, isQuote c = false) (rises : Rising opening closing text)
    (balanced : level opening closing text = 0) : Closed isQuote opening closing quote text [] := by
  have reads := read_plain noQuote []
  rw [append_nil, read, map_some, append_nil] at reads
  exact ⟨_, reads, by rwa [plainChars_plain], by rwa [plainChars_plain], quotedWith_plain text⟩

theorem closed_quoted {own : α} (opens : isQuote own = true) (content : List α) :
    Closed isQuote opening closing quote (own :: encode own content ++ [own]) (if own = quote then [content] else []) := by
  refine ⟨_, read_quoted opens content [] (by simp), ?_, rfl, ?_⟩
  · exact rising_of_not_mem not_mem_nil
  · by_cases same : own = quote <;> simp [quotedWith, same]

theorem closed_of_reads {firstParts : List (Part α)}
    (reads : read isQuote none (first ++ second) = (read isQuote none second).map (firstParts ++ ·))
    (rises : Rising opening closing (plainChars firstParts))
    (balanced : level opening closing (plainChars firstParts) = 0)
    (closed : Closed isQuote opening closing quote second contents) :
    Closed isQuote opening closing quote (first ++ second) (quotedWith quote firstParts ++ contents) := by
  obtain ⟨parts, readsSecond, risesSecond, balancedSecond, rfl⟩ := closed
  rw [readsSecond, map_some] at reads
  refine ⟨_, reads, ?_, ?_, quotedWith_append _ _⟩
  · rw [plainChars_append]
    exact rises.append risesSecond
  · rw [plainChars_append, level_append, balanced, balancedSecond]
    rfl

theorem Closed.append (closed : Closed isQuote opening closing quote first contents)
    (next : Closed isQuote opening closing quote second others) (boundary : ∀ c ∈ second.head?, isQuote c = false) :
    Closed isQuote opening closing quote (first ++ second) (contents ++ others) := by
  obtain ⟨parts, reads, rises, balanced, rfl⟩ := closed
  exact closed_of_reads (read_append (by simp) reads boundary) rises balanced next

theorem Plain.level (plain : Plain isQuote opening closing text) : level opening closing text = 0 :=
  level_of_not_mem (fun found => (plain _ found).2.1 rfl) fun found => (plain _ found).2.2 rfl

theorem Plain.rising (plain : Plain isQuote opening closing text) : Rising opening closing text :=
  rising_of_not_mem fun found => (plain _ found).2.2 rfl

theorem Plain.closed (plain : Plain isQuote opening closing text) : Closed isQuote opening closing quote text [] :=
  closed_plain (fun c member => (plain c member).1) plain.rising plain.level

theorem Closed.after (noQuote : ∀ c ∈ front, isQuote c = false)
    (frontClosed : Closed isQuote opening closing quote front others)
    (closed : Closed isQuote opening closing quote text contents) :
    Closed isQuote opening closing quote (front ++ text) contents := by
  obtain ⟨parts, reads, rises, balanced, _⟩ := frontClosed
  have whole := read_plain noQuote []
  rw [append_nil, reads, read, map_some, append_nil] at whole
  cases whole
  have joined := closed_of_reads (read_plain noQuote text) rises balanced closed
  rwa [quotedWith_plain, nil_append] at joined

theorem Closed.after_plain (plain : Plain isQuote opening closing front)
    (closed : Closed isQuote opening closing quote text contents) :
    Closed isQuote opening closing quote (front ++ text) contents :=
  Closed.after (fun c member => (plain c member).1) plain.closed closed

theorem Closed.separated {separator : List α} (closed : Closed isQuote opening closing quote first contents)
    (plain : Plain isQuote opening closing separator) (some : separator ≠ [])
    (next : Closed isQuote opening closing quote second others) :
    Closed isQuote opening closing quote (first ++ (separator ++ second)) (contents ++ others) := by
  apply closed.append (next.after_plain plain)
  cases separator with
  | nil => exact absurd rfl some
  | cons c separator =>
    intro d first
    exact plain.head d first

theorem Closed.brackets {body : List α} (distinct : opening ≠ closing)
    (notQuotes : isQuote opening = false ∧ isQuote closing = false)
    (closed : Closed isQuote opening closing quote body contents) :
    Closed isQuote opening closing quote (opening :: body ++ [closing]) contents := by
  obtain ⟨parts, reads, rises, balanced, rfl⟩ := closed
  have single : level opening closing [opening] = 1 := by simp [level, distinct]
  have last : level opening closing [closing] = -1 := by simp [level, distinct.symm]
  have inside : read isQuote none (opening :: body ++ [closing]) = some (.plain opening :: (parts ++ [.plain closing])) := by
    rw [cons_append, read, notQuotes.1, if_neg Bool.false_ne_true,
      read_append (by simp) reads (by simpa using notQuotes.2)]
    simp [read, notQuotes.2]
  have chars : plainChars (.plain opening :: (parts ++ [.plain closing])) = [opening] ++ plainChars parts ++ [closing] := by
    simp [plainChars]
  refine ⟨_, inside, ?_, ?_, ?_⟩
  · rw [chars]
    have upTo : Rising opening closing ([opening] ++ plainChars parts) :=
      (rising_of_not_mem (by simpa using distinct.symm)).append rises
    intro prior isPrior
    rcases prefix_concat_iff.mp isPrior with rfl | shorter
    · rw [level_append, level_append, single, balanced, last]
      rfl
    · exact upTo prior shorter
  · rw [chars, level_append, level_append, single, balanced, last]
    rfl
  · simp [quotedWith]

theorem Closed.level_front (closed : Closed isQuote opening closing quote text contents) (isFront : front <+: text) :
    0 ≤ level opening closing (outside isQuote none front) := by
  obtain ⟨parts, reads, rises, _⟩ := closed
  obtain ⟨chars, _⟩ : plainChars parts = outside isQuote none text ∧ openQuote isQuote none text = none :=
    read_outside (by simp) reads
  exact rises _ (chars ▸ outside_prefix isFront)

theorem Closed.ends (closed : Closed isQuote opening closing quote text contents) :
    openQuote isQuote none text = none ∧ level opening closing (outside isQuote none text) = 0 := by
  obtain ⟨parts, reads, _, balanced, _⟩ := closed
  obtain ⟨chars, ends⟩ : plainChars parts = outside isQuote none text ∧ openQuote isQuote none text = none :=
    read_outside (by simp) reads
  exact ⟨ends, chars ▸ balanced⟩

theorem Closed.marks (opens : isQuote quote = true) (closed : Closed isQuote opening closing quote text contents) :
    (contents.map (quotesOf quote)).sum = marks isQuote quote none text := by
  obtain ⟨parts, reads, _, _, rfl⟩ := closed
  exact quotesOf_eq opens (by simp) reads

theorem openQuote_quoted {own : α} (opens : isQuote own = true) {content : List α}
    (isFront : front <+: encode own content ++ [own]) :
    openQuote isQuote (some own) front = some own ∨ openQuote isQuote (some own) front = none := by
  induction content generalizing front with
  | nil =>
    rcases prefix_cons_iff.mp isFront with rfl | ⟨rest, rfl, isRest⟩
    · exact Or.inl rfl
    · rw [prefix_nil.mp isRest]
      right
      simp [openQuote]
  | cons c content ih =>
    rw [encode, flatMap_cons, append_assoc] at isFront
    by_cases same : c = own
    · subst c
      rw [if_pos rfl] at isFront
      rcases prefix_cons_iff.mp isFront with rfl | ⟨rest, rfl, isRest⟩
      · exact Or.inl rfl
      · rcases prefix_cons_iff.mp isRest with rfl | ⟨others, rfl, isOthers⟩
        · right
          simp [openQuote]
        · simp only [openQuote, if_true, opens]
          exact ih isOthers
    · rw [if_neg same] at isFront
      rcases prefix_cons_iff.mp isFront with rfl | ⟨rest, rfl, isRest⟩
      · exact Or.inl rfl
      · rw [openQuote, if_neg same]
        exact ih isRest

theorem openQuote_of_not_mem {own : α} (absent : own ∉ text) : openQuote isQuote (some own) text = some own := by
  induction text with
  | nil => rfl
  | cons c text ih =>
    rw [mem_cons, not_or] at absent
    rw [openQuote, if_neg (Ne.symm absent.1), ih absent.2]

theorem marks_of_not_mem {own : α} (differs : own ≠ quote) (absent : own ∉ text) :
    marks isQuote quote (some own) text = 0 := by
  induction text with
  | nil => rfl
  | cons c text ih =>
    rw [mem_cons, not_or] at absent
    rw [Quoting.marks, if_neg fun both => differs both.2, if_neg (Ne.symm absent.1), ih absent.2]

theorem count_encode (content : List α) : (encode quote content).count quote = 2 * content.count quote := by
  induction content with
  | nil => rfl
  | cons c content ih =>
    change (_ ++ encode quote content).count quote = _
    rw [count_append, ih, count_cons]
    by_cases same : c = quote
    · simp [same]
      omega
    · simp [same]

theorem openQuote_plain (noQuote : ∀ c ∈ text, isQuote c = false) (rest : List α) :
    openQuote isQuote none (text ++ rest) = openQuote isQuote none rest := by
  induction text with
  | nil => rfl
  | cons c text ih =>
    rw [forall_mem_cons] at noQuote
    rw [cons_append, openQuote, noQuote.1, if_neg Bool.false_ne_true, ih noQuote.2]

theorem marks_plain (opens : isQuote quote = true) (noQuote : ∀ c ∈ text, isQuote c = false) (rest : List α) :
    Quoting.marks isQuote quote none (text ++ rest) = Quoting.marks isQuote quote none rest := by
  induction text with
  | nil => rfl
  | cons c text ih =>
    rw [forall_mem_cons] at noQuote
    have differs : c ≠ quote := by
      rintro rfl
      rw [noQuote.1] at opens
      cases opens
    rw [cons_append, Quoting.marks, noQuote.1, if_neg differs, if_neg Bool.false_ne_true, ih noQuote.2, Nat.zero_add]

theorem Closed.marks_prefix (opens : isQuote quote = true) (closed : Closed isQuote opening closing quote text [])
    (isFront : front <+: text) : Quoting.marks isQuote quote none front = 0 := by
  obtain ⟨rest, rfl⟩ := isFront
  have none := closed.marks opens
  rw [marks_append, map_nil, sum_nil] at none
  omega

theorem closed_take_iff {body tail : List α} {count : Nat} (frontPlain : Plain isQuote opening closing front)
    (tailPlain : Plain isQuote opening closing tail) (distinct : opening ≠ closing)
    (notQuotes : isQuote opening = false ∧ isQuote closing = false)
    (closed : Closed isQuote opening closing quote body contents) (opens : front.length < count) :
    Closed isQuote opening closing quote ((front ++ (opening :: body ++ closing :: tail)).take count) contents ↔
      front.length + body.length + 2 ≤ count := by
  have whole : front ++ (opening :: body ++ closing :: tail) = (front ++ [opening]) ++ (body ++ closing :: tail) := by simp
  have frontQuotes : ∀ c ∈ front ++ [opening], isQuote c = false := by
    simp only [forall_mem_append, forall_mem_singleton]
    exact ⟨fun c member => (frontPlain c member).1, notQuotes.1⟩
  have single : level opening closing [opening] = 1 := by simp [level, distinct]
  obtain ⟨more, rfl⟩ : ∃ more, count = (front ++ [opening]).length + more := ⟨count - (front.length + 1), by simp; omega⟩
  rw [whole, take_length_add_append]
  simp only [length_append, length_singleton]
  constructor
  · intro cut
    by_contra short
    apply not_closed_of_open _ cut
    intro _
    have inside := closed.level_front (List.take_prefix more body)
    rw [take_append_of_le_length (by omega), outside_plain frontQuotes, level_append, level_append,
      frontPlain.level, single]
    omega
  · intro long
    obtain ⟨rest, rfl⟩ : ∃ rest, more = body.length + (rest + 1) := ⟨more - (body.length + 1), by omega⟩
    rw [take_length_add_append, take_succ_cons]
    have brackets := (closed.brackets distinct notQuotes).append (tailPlain.take rest).closed (tailPlain.take rest).head
    have all := brackets.after_plain frontPlain
    simpa using all

end Brackets

end Lib.Quoting
