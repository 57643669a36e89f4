import MapServer.Lib.Quoting

/-!
A rule says how much of the front of a text it matches and what it makes of that. Of the rules with the longest match
the first one is taken.
-/

namespace Lib.Scanner
open Lib.Quoting List Option
variable {α β : Type}

structure Rule (α β : Type) where
  longest : List α → Option Nat
  action : List α → β

def Rule.found (rule : Rule α β) (text : List α) : Option (Nat × β) :=
  (rule.longest text).map fun count => (count, rule.action (text.take count))

theorem Rule.found_none {rule : Rule α β} {text : List α} (noMatch : rule.longest text = none) : rule.found text = none := by
  rw [Rule.found, noMatch, map_none]

def better : Option (Nat × β) → Option (Nat × β) → Option (Nat × β)
  | none, later => later
  | some first, none => some first
  | some first, some later => if first.1 < later.1 then some later else some first

def chosen : List (Rule α β) → List α → Option (Nat × β)
  | [], _ => none
  | rule :: rules, text => better (rule.found text) (chosen rules text)

@[simp] theorem better_none (first : Option (Nat × β)) : better first none = first := by
  cases first <;> rfl

@[simp] theorem none_better (later : Option (Nat × β)) : better none later = later := rfl

theorem better_assoc (first second third : Option (Nat × β)) :
    better (better first second) third = better first (better second third) := by
  cases first with
  | none => rfl
  | some a =>
    cases second with
    | none => rfl
    | some b =>
      cases third with
      | none => simp
      | some c =>
        by_cases shorter : a.1 < b.1 <;> by_cases last : b.1 < c.1
        · have all : a.1 < c.1 := by omega
          simp [better, shorter, last, all]
        · simp [better, shorter, last]
        · simp [better, shorter, last]
        · have none' : ¬ a.1 < c.1 := by omega
          simp [better, shorter, last, none']

theorem better_eq_some {first later : Option (Nat × β)} {found : Nat × β} (isFound : better first later = some found) :
    first = some found ∨ later = some found := by
  cases first with
  | none => exact Or.inr isFound
  | some a =>
    cases later with
    | none => exact Or.inl isFound
    | some b =>
      by_cases shorter : a.1 < b.1
      · rw [better, if_pos shorter] at isFound
        exact Or.inr isFound
      · rw [better, if_neg shorter] at isFound
        exact Or.inl isFound

theorem better_eq_first {count : Nat} {result : β} {later : Option (Nat × β)}
    (noLonger : ∀ found, later = some found → found.1 ≤ count) :
    better (some (count, result)) later = some (count, result) := by
  cases later with
  | none => rfl
  | some found =>
    have bound := noLonger found rfl
    rw [better, if_neg (by omega)]

theorem better_eq_later {count : Nat} {result : β} {first : Option (Nat × β)}
    (shorter : ∀ found, first = some found → found.1 < count) :
    better first (some (count, result)) = some (count, result) := by
  cases first with
  | none => rfl
  | some found => rw [better, if_pos (shorter found rfl)]

theorem chosen_append (first later : List (Rule α β)) (text : List α) :
    chosen (first ++ later) text = better (chosen first text) (chosen later text) := by
  induction first with
  | nil => rfl
  | cons rule rules ih => rw [cons_append, chosen, chosen, ih, better_assoc]

theorem chosen_eq_none {rules : List (Rule α β)} {text : List α} (noMatch : ∀ rule ∈ rules, rule.longest text = none) :
    chosen rules text = none := by
  induction rules with
  | nil => rfl
  | cons rule rules ih =>
    rw [forall_mem_cons] at noMatch
    rw [chosen, Rule.found_none noMatch.1, ih noMatch.2]
    rfl

theorem chosen_eq_some {rules : List (Rule α β)} {text : List α} {count : Nat} {result : β}
    (isChosen : chosen rules text = some (count, result)) :
    ∃ rule ∈ rules, rule.longest text = some count ∧ rule.action (text.take count) = result := by
  induction rules with
  | nil => cases isChosen
  | cons rule rules ih =>
    rw [chosen] at isChosen
    rcases better_eq_some isChosen with first | later
    · obtain ⟨matched, isMatch, same⟩ := map_eq_some_iff.mp first
      cases same
      exact ⟨rule, mem_cons_self, isMatch, rfl⟩
    · obtain ⟨found, member, isMatch, same⟩ := ih later
      exact ⟨found, mem_cons_of_mem _ member, isMatch, same⟩

theorem chosen_eq_of_longest {rules : List (Rule α β)} {text : List α} {rule : Rule α β} {count : Nat}
    (member : rule ∈ rules) (isMatch : rule.longest text = some count)
    (longest : ∀ other ∈ rules, ∀ matched, other.longest text = some matched →
      matched < count ∨ matched = count ∧ other.action (text.take count) = rule.action (text.take count)) :
    chosen rules text = some (count, rule.action (text.take count)) := by
  induction rules with
  | nil => cases member
  | cons first rules ih =>
    rw [forall_mem_cons] at longest
    have later : ∀ found, chosen rules text = some found →
        found.1 < count ∨ found = (count, rule.action (text.take count)) := by
      rintro ⟨matched, result⟩ isChosen
      obtain ⟨other, isOther, found, rfl⟩ := chosen_eq_some isChosen
      rcases longest.2 other isOther matched found with shorter | ⟨rfl, same⟩
      · exact Or.inl shorter
      · exact Or.inr (by rw [same])
    rw [chosen]
    rcases mem_cons.mp member with rfl | inRules
    · rw [Rule.found, isMatch]
      apply better_eq_first
      intro found isLater
      rcases later found isLater with shorter | rfl
      · exact Nat.le_of_lt shorter
      · exact Nat.le_refl _
    · rw [ih inRules longest.2]
      cases isFirst : first.longest text with
      | none => rw [Rule.found, isFirst]; rfl
      | some matched =>
        rw [Rule.found, isFirst, map_some]
        rcases longest.1 matched isFirst with shorter | ⟨rfl, same⟩
        · rw [better, if_pos shorter]
        · rw [same, better, if_neg (Nat.lt_irrefl _)]

theorem chosen_eq_first {before after : List (Rule α β)} {rule : Rule α β} {text : List α} {count : Nat}
    (earlier : ∀ other ∈ before, ∀ matched, other.longest text = some matched → matched < count)
    (isMatch : rule.longest text = some count)
    (later : ∀ other ∈ after, ∀ matched, other.longest text = some matched → matched ≤ count) :
    chosen (before ++ rule :: after) text = some (count, rule.action (text.take count)) := by
  rw [chosen_append, chosen, Rule.found, isMatch, map_some, better_eq_first, better_eq_later]
  · rintro ⟨matched, result⟩ isChosen
    obtain ⟨other, member, found, -⟩ := chosen_eq_some isChosen
    exact earlier other member matched found
  · rintro ⟨matched, result⟩ isChosen
    obtain ⟨other, member, found, -⟩ := chosen_eq_some isChosen
    exact later other member matched found

section Scan
variable {τ : Type} (next : List α → Option (Option (τ × List α)))

def Shortens : Prop :=
  ∀ (text rest : List α) (token : τ), next text = some (some (token, rest)) → rest.length < text.length

def scan (shorter : Shortens next) (text : List α) : List τ × Bool :=
  match _isNext : next text with
  | none => ([], true)
  | some none => ([], false)
  | some (some (token, rest)) => (token :: (scan shorter rest).1, (scan shorter rest).2)
termination_by text.length
decreasing_by
  all_goals exact shorter _ _ _ _isNext

variable (shorter : Shortens next)

theorem scan_finish {text : List α} (isNext : next text = none) : scan next shorter text = ([], true) := by
  rw [scan.eq_def next shorter text]
  split
  · rfl
  · rename_i failed
    rw [isNext] at failed
    cases failed
  · rename_i found
    rw [isNext] at found
    cases found

theorem scan_error {text : List α} (isNext : next text = some none) : scan next shorter text = ([], false) := by
  rw [scan.eq_def next shorter text]
  split
  · rename_i ended
    rw [isNext] at ended
    cases ended
  · rfl
  · rename_i found
    rw [isNext] at found
    cases found

theorem scan_token {text rest : List α} {token : τ} (isNext : next text = some (some (token, rest))) :
    scan next shorter text = (token :: (scan next shorter rest).1, (scan next shorter rest).2) := by
  rw [scan.eq_def next shorter text]
  split
  · rename_i ended
    rw [isNext] at ended
    cases ended
  · rename_i failed
    rw [isNext] at failed
    cases failed
  · rename_i found
    rw [isNext] at found
    cases found
    rfl

end Scan

section Doubled
variable [DecidableEq α]

def delimited (c : α) : List α → Option Nat
  | [] => none
  | [x] => if x = c then some 1 else none
  | x :: y :: rest =>
    if x = c then
      if y = c then ((delimited c rest).map (· + 2)).or (some 1) else some 1
    else (delimited c (y :: rest)).map (· + 1)

def bracketed (closing quote : α) : List α → Option Nat
  | [] => none
  | [_] => none
  | x :: y :: rest =>
    if x = quote then
      if y = quote then (bracketed closing quote rest).map (· + 2) else none
    else ((bracketed closing quote (y :: rest)).map (· + 1)).or (if x = closing ∧ y = quote then some 2 else none)

theorem encode_cons_self (c : α) (text : List α) : encode c (c :: text) = c :: c :: encode c text := by
  simp [encode]

theorem encode_cons_of_ne {c x : α} (differs : x ≠ c) (text : List α) : encode c (x :: text) = x :: encode c text := by
  simp [encode, differs]

theorem encode_of_not_mem {c : α} {text : List α} (absent : c ∉ text) : encode c text = text := by
  induction text with
  | nil => rfl
  | cons x text ih =>
    rw [mem_cons, not_or] at absent
    rw [encode_cons_of_ne (Ne.symm absent.1), ih absent.2]

theorem delimited_encode {c : α} {rest : List α} (boundary : rest.head? ≠ some c) (text : List α) :
    delimited c (encode c text ++ c :: rest) = some ((encode c text).length + 1) := by
  induction text with
  | nil =>
    cases rest with
    | nil => simp [encode, delimited]
    | cons next rest =>
      have differs : next ≠ c := fun same => boundary (congrArg some same)
      simp [encode, delimited, differs]
  | cons x text ih =>
    by_cases same : x = c
    · subst x
      rw [encode_cons_self, cons_append, cons_append, delimited, if_pos rfl, if_pos rfl, ih]
      rfl
    · rw [encode_cons_of_ne same, cons_append]
      cases tail : encode c text ++ c :: rest with
      | nil => simp at tail
      | cons next others =>
        rw [delimited, if_neg same, ← tail, ih]
        rfl

theorem delimited_content {c : α} {text : List α} {count : Nat} (isMatch : delimited c text = some count) :
    ∃ content, text = encode c content ++ c :: text.drop count ∧ count = (encode c content).length + 1 := by
  induction text using delimited.induct c generalizing count with
  | case1 => cases isMatch
  | case2 =>
    rw [delimited, if_pos rfl] at isMatch
    cases isMatch
    exact ⟨[], rfl, rfl⟩
  | case3 x differs =>
    rw [delimited, if_neg differs] at isMatch
    cases isMatch
  | case4 rest ih =>
    rw [delimited, if_pos rfl, if_pos rfl] at isMatch
    rcases or_eq_some_iff.mp isMatch with longer | ⟨_, single⟩
    · obtain ⟨inner, isInner, rfl⟩ := map_eq_some_iff.mp longer
      obtain ⟨content, parts, isCount⟩ := ih isInner
      refine ⟨c :: content, ?_, ?_⟩
      · rw [encode_cons_self, cons_append, cons_append, drop_succ_cons, drop_succ_cons, ← parts]
      · rw [encode_cons_self, isCount]
        simp only [length_cons]
    · cases single
      exact ⟨[], rfl, rfl⟩
  | case5 y rest differs =>
    rw [delimited, if_pos rfl, if_neg differs] at isMatch
    cases isMatch
    exact ⟨[], rfl, rfl⟩
  | case6 x y rest differs ih =>
    rw [delimited, if_neg differs] at isMatch
    obtain ⟨inner, isInner, rfl⟩ := map_eq_some_iff.mp isMatch
    obtain ⟨content, parts, isCount⟩ := ih isInner
    refine ⟨x :: content, ?_, ?_⟩
    · rw [encode_cons_of_ne differs, cons_append, drop_succ_cons, ← parts]
    · rw [encode_cons_of_ne differs, isCount, length_cons]

theorem bracketed_encode {closing quote : α} (differ : closing ≠ quote) {rest : List α}
    (boundary : rest.head? ≠ some quote) (text : List α) :
    bracketed closing quote (encode quote text ++ closing :: quote :: rest) = some ((encode quote text).length + 2) := by
  induction text with
  | nil =>
    have ends : bracketed closing quote (quote :: rest) = none := by
      cases rest with
      | nil => rfl
      | cons next rest =>
        have differs : next ≠ quote := fun same => boundary (congrArg some same)
        rw [bracketed, if_pos rfl, if_neg differs]
    simp [encode, bracketed, differ, ends]
  | cons x text ih =>
    by_cases same : x = quote
    · subst x
      rw [encode_cons_self, cons_append, cons_append, bracketed, if_pos rfl, if_pos rfl, ih]
      rfl
    · rw [encode_cons_of_ne same, cons_append]
      cases tail : encode quote text ++ closing :: quote :: rest with
      | nil => simp at tail
      | cons next others =>
        rw [bracketed, if_neg same, ← tail, ih]
        rfl

theorem bracketed_content {closing quote : α} (differ : closing ≠ quote) {text : List α} {count : Nat}
    (isMatch : bracketed closing quote text = some count) :
    ∃ content, text = encode quote content ++ closing :: quote :: text.drop count ∧
      count = (encode quote content).length + 2 := by
  induction text using bracketed.induct quote generalizing count with
  | case1 => cases isMatch
  | case2 => cases isMatch
  | case3 rest ih =>
    rw [bracketed, if_pos rfl, if_pos rfl] at isMatch
    obtain ⟨inner, isInner, rfl⟩ := map_eq_some_iff.mp isMatch
    obtain ⟨content, parts, isCount⟩ := ih isInner
    refine ⟨quote :: content, ?_, ?_⟩
    · rw [encode_cons_self, cons_append, cons_append, drop_succ_cons, drop_succ_cons, ← parts]
    · rw [encode_cons_self, isCount]
      simp only [length_cons]
  | case4 y rest differs =>
    rw [bracketed, if_pos rfl, if_neg differs] at isMatch
    cases isMatch
  | case5 x y rest differs ih =>
    rw [bracketed, if_neg differs] at isMatch
    rcases or_eq_some_iff.mp isMatch with longer | ⟨_, ends⟩
    · obtain ⟨inner, isInner, rfl⟩ := map_eq_some_iff.mp longer
      obtain ⟨content, parts, isCount⟩ := ih isInner
      refine ⟨x :: content, ?_, ?_⟩
      · rw [encode_cons_of_ne differs, cons_append, drop_succ_cons, ← parts]
      · rw [encode_cons_of_ne differs, isCount, length_cons]
    · split at ends
      · rename_i same
        obtain ⟨rfl, rfl⟩ := same
        cases ends
        exact ⟨[], rfl, rfl⟩
      · cases ends

/-- At the first quote no match ends if no closing bracket is in front of it, and none goes on if it is not doubled. -/
theorem bracketed_none {closing quote : α} {front after : List α} (absent : quote ∉ front)
    (last : front.getLast? ≠ some closing)
    (noOther : ∀ rest, after = quote :: rest → bracketed closing quote rest = none) :
    bracketed closing quote (front ++ quote :: after) = none := by
  induction front with
  | nil =>
    cases after with
    | nil => rfl
    | cons y rest =>
      rw [nil_append, bracketed, if_pos rfl]
      split
      · rename_i same
        rw [noOther rest (by rw [same]), map_none]
      · rfl
  | cons x front ih =>
    rw [mem_cons, not_or] at absent
    cases front with
    | nil =>
      have open_ : x ≠ closing := fun same => last (congrArg some same)
      have inner := ih not_mem_nil (by simp)
      rw [nil_append] at inner
      rw [cons_append, nil_append, bracketed, if_neg (Ne.symm absent.1), inner,
        if_neg (fun both => open_ both.1)]
      rfl
    | cons y front =>
      have inner := ih absent.2 (by rwa [getLast?_cons_cons] at last)
      have differs : y ≠ quote := fun same => absent.2 (same ▸ mem_cons_self)
      rw [cons_append] at inner
      rw [cons_append, cons_append, bracketed, if_neg (Ne.symm absent.1), inner,
        if_neg (fun both => differs both.2)]
      rfl

theorem append_eq_encode {c : α} {text tail after : List α} (count : Nat)
    (same : text ++ tail = replicate (count + 1) c ++ (encode c text ++ after)) :
    ∃ more, tail = c :: replicate more c ++ after := by
  induction text generalizing count with
  | nil => exact ⟨count, same⟩
  | cons x text ih =>
    have first : x = c := by
      rw [replicate_succ] at same
      exact head_eq_of_cons_eq same
    subst x
    rw [encode_cons_self, replicate_succ, cons_append, cons_append] at same
    have others := tail_eq_of_cons_eq same
    apply ih (count + 1)
    rw [others, replicate_add, append_assoc]
    rw [replicate_add]
    simp

theorem not_mem_of_eq_encode {c : α} {text tail after : List α} (same : text ++ tail = encode c text ++ after)
    (boundary : ∀ more, tail ≠ c :: replicate more c ++ after) : c ∉ text := by
  induction text with
  | nil => exact not_mem_nil
  | cons x text ih =>
    by_cases isDelimiter : x = c
    · subst x
      rw [encode_cons_self, cons_append, cons_append] at same
      obtain ⟨more, isTail⟩ := append_eq_encode 0 (tail_eq_of_cons_eq same)
      exact absurd isTail (boundary more)
    · rw [encode_cons_of_ne isDelimiter, cons_append] at same
      rw [mem_cons, not_or]
      exact ⟨Ne.symm isDelimiter, ih (tail_eq_of_cons_eq same)⟩

end Doubled

end Lib.Scanner
